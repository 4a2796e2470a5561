import Cascade.Proofs.Run.History
import Cascade.Proofs.Run.Success
import Cascade.Proofs.Store.Since

/-!
# Building again

When all dependencies were built or deployed without trouble, and nothing but the
store has written to the files, there is nothing to do the second time: every
dependency is passed over or found unchanged, the backend is not called, and the
store stays as it is (`carryOut_again`).

This is about one store.  What is remembered in memory is gone when the store is
opened anew, and everything is built again.
-/

namespace Cascade

open MemoryFiles (Since Apart)

variable {φ β : Type}

/-- A backend that leaves the store and all files alone. -/
def Backend.Harmless (b : Backend φ β) : Prop :=
  b.Obeys (fun _ => True) fun w w' => w'.stored = w.stored

/-- Hooks that never fail and leave the store and all files alone.  They keep something
about what lies outside. -/
def Hooks.Harmless (I : β → Prop) (hooks : Hooks φ β) : Prop :=
  ∀ events name context, (hooks events name context).run.Obeys (fun _ => True)
    (fun w w' => w'.stored = w.stored ∧ (I w.outside → I w'.outside)) (·.isOk = true)

namespace Project

open Run

/-! ## Building and deploying -/

/-- The same order, but nothing is done that is not needed. -/
def Order.unforced : Order → Order
  | .build selection _ workers => .build selection false workers
  | .deploy selection flags workers => .deploy selection { flags with force := false } workers
  | order => order

/-- Batch events succeed and leave the store alone, and what the hooks keep. -/
theorem fireBatch_of_harmless {I : β → Prop} {p : Project φ β} (hp : p.hooks.Harmless I)
    (phase : Hook.Phase) (verb : Verb) (context : Dictionary) (w : World φ β) :
    ((p.fireBatch phase verb context).run.run w).1 = .ok () ∧
      ((p.fireBatch phase verb context).run.run w).2.stored = w.stored ∧
      (I w.outside → I ((p.fireBatch phase verb context).run.run w).2.outside) := by
  obtain ⟨_, hworld, hanswer⟩ := (hp [Hook.batchEvent phase verb] none context).run
    (fun _ _ _ _ => trivial) (fun _ _ => ⟨rfl, id⟩)
    (fun _ _ _ h h' => ⟨h'.1.trans h.1, fun hI => h'.2 (h.2 hI)⟩) (s := w) trivial
  refine ⟨?_, hworld⟩
  change ((p.hooks [Hook.batchEvent phase verb] none context).run.run w).1 = .ok ()
  revert hanswer
  cases ((p.hooks [Hook.batchEvent phase verb] none context).run.run w).1 with
  | ok _ => exact fun _ => rfl
  | error e => nofun

variable [FileSystem φ]

/-- What building and deploying have in common: all dependencies that are selected
are acted upon if there is anything to do. -/
structure Guarded (p : Project φ β) (schedule : List Nat) (order : Order) (force : Bool)
    (u : Undertaking φ β) (calls : Dependency → Task φ β Unit) : Prop where
  undertaking : p.undertaking? schedule order = some u
  carried : p.carryOut schedule order = discard (u.run p)
  batched : u.batched = true
  forward : u.verb.direction = .forward
  updates : u.options.selection.update = order.updates
  forced : order.force? = some force
  perform : ∃ message, ∀ d, u.perform d = Action.guarded d force message (calls d)
  mark : ∀ d, p.mark order d = fun seen =>
    (Action.recorded d force (calls d) (.new d.name u.options.selection.verbose) seen).map some

/-- Building and deploying are guarded. -/
theorem exists_guarded (p : Project φ β) (schedule : List Nat) {order : Order} {force : Bool}
    (h : order.force? = some force) : ∃ u calls, p.Guarded schedule order force u calls := by
  cases order with
  | build selection force workers =>
    cases h
    exact ⟨_, Action.buildCalls p.backend, rfl, rfl, rfl, rfl, rfl, rfl,
      ⟨_, Action.build_eq p.backend force⟩, fun _ => rfl⟩
  | deploy selection flags workers =>
    cases h
    exact ⟨_, Action.deployCalls p.backend flags, rfl, rfl, rfl, rfl, rfl, rfl,
      ⟨_, Action.deploy_eq p.backend flags⟩, fun _ => rfl⟩
  | _ => cases h

variable {p : Project φ β} {order : Order} {force : Bool} {u : Undertaking φ β}
  {calls : Dependency → Task φ β Unit} {schedule : List Nat} {I : β → Prop}

omit [FileSystem φ] in
theorem discard_run {α : Type} (s : Session φ β α) (w : World φ β) :
    (discard s).run.run w = ((s.run.run w).1.map fun _ => (), (s.run.run w).2) := by
  change (s >>= fun _ => pure ()).run.run w = _
  rw [run_bind]
  rcases s.run.run w with ⟨result, w'⟩
  cases result <;> rfl

/-- When hooks do no harm, building and deploying is handling the dependencies in a
world that differs in what lies outside. -/
theorem Guarded.carryOut_run (h : p.Guarded schedule order force u calls)
    (hp : p.hooks.Harmless I) (w : World φ β) :
    ∃ opened, u.opening p w = some opened ∧ opened.stored = w.stored ∧
      (I w.outside → I opened.outside) ∧
      let handled := (p.handle u.schedule u.verb u.options u.perform).run.run opened
      ((p.carryOut schedule order).run.run w).1 = handled.1.map (fun _ => ()) ∧
        ((p.carryOut schedule order).run.run w).2.stored = handled.2.stored ∧
        (I handled.2.outside → I ((p.carryOut schedule order).run.run w).2.outside) := by
  have hquiet := fun phase verb context w => (fireBatch_of_harmless hp phase verb context w).1
  obtain ⟨hbefore, hstored, hkept⟩ := fireBatch_of_harmless hp .before u.verb ∅ w
  have hopened : (p.fireBatch .before u.verb ∅).run.run w =
      (.ok (), ((p.fireBatch .before u.verb ∅).run.run w).2) := Prod.ext hbefore rfl
  refine ⟨_, ?_, hstored, hkept, ?_⟩
  · rw [Undertaking.opening, h.batched, if_pos rfl, hopened]
  have hrun : u.run p =
      p.withBatchHooks u.verb (p.handle u.schedule u.verb u.options u.perform) := by
    rw [Undertaking.run, h.batched, if_pos rfl]
  obtain ⟨hanswer, phase, context, hworld⟩ := withBatchHooks_of_quiet hquiet u.verb
    (p.handle u.schedule u.verb u.options u.perform) w
  obtain ⟨_, hstored', hkept'⟩ := fireBatch_of_harmless hp phase u.verb context
    ((p.handle u.schedule u.verb u.options u.perform).run.run
      ((p.fireBatch .before u.verb ∅).run.run w).2).2
  rw [h.carried, discard_run, hrun, hanswer, hworld]
  exact ⟨rfl, hstored', hkept'⟩

/-- Nothing happens when there are no dependencies. -/
theorem Guarded.carryOut_of_none (h : p.Guarded schedule order force u calls)
    (hp : p.hooks.Harmless I) (hdeps : p.config.hasDependencies = false) (w : World φ β) :
    ((p.carryOut schedule order).run.run w).1 = .ok () ∧
      ((p.carryOut schedule order).run.run w).2.stored = w.stored ∧
      (I w.outside → I ((p.carryOut schedule order).run.run w).2.outside) ∧
      p.deeds schedule order w = [] := by
  obtain ⟨opened, hopening, hstored, hkept, hanswer, hstored', hkept'⟩ := h.carryOut_run hp w
  rw [handle_of_none u.schedule u.verb u.options u.perform opened hdeps] at hanswer hstored' hkept'
  refine ⟨hanswer, hstored'.trans hstored, fun hI => hkept' (hkept hI), ?_⟩
  simp only [deeds, h.undertaking, Undertaking.deeds, hopening, Undertaking.handled, hdeps]
  rcases p.resolve u.options.selection.update opened.stored with ⟨_ | _, _, _⟩ <;> rfl

/-- What was built or deployed was resolved. -/
theorem Guarded.resolved_of_ok (h : p.Guarded schedule order force u calls)
    (hp : p.hooks.Harmless I) (hdeps : p.config.hasDependencies = true) {w : World φ β}
    (hok : ((p.carryOut schedule order).run.run w).1 = .ok ()) :
    ∃ g log stored, p.resolve order.updates w.stored = (.ok g, log, stored) := by
  obtain ⟨opened, _, hstored, _, hanswer, _⟩ := h.carryOut_run hp w
  rcases hresolve : p.resolve order.updates w.stored with ⟨result, log, stored⟩
  cases result with
  | ok g => exact ⟨g, log, stored, rfl⟩
  | error e =>
    rw [← h.updates, ← hstored] at hresolve
    obtain ⟨entries, hrun⟩ := handle_of_unresolved u.schedule u.verb u.options u.perform opened
      hdeps hresolve
    rw [hok, hrun] at hanswer
    cases hanswer

/-- Building and deploying what is resolved is letting workers act on it. -/
theorem Guarded.carryOut_of_resolved (h : p.Guarded schedule order force u calls)
    (hp : p.hooks.Harmless I) (hdeps : p.config.hasDependencies = true) {w : World φ β}
    {g : DependencyGraph} {log : List Log.Entry} {stored : Stored φ}
    (hresolve : p.resolve order.updates w.stored = (.ok g, log, stored)) :
    p.graph? order w = some g ∧ ∃ w₁, w₁.stored = stored ∧ (I w.outside → I w₁.outside) ∧
      p.deeds schedule order w = (crew (p.planFor u.verb u.options u.perform) u.schedule
        (p.workersFor u.options) g w₁).account.deeds ∧
      let pool := work (p.planFor u.verb u.options u.perform) u.schedule
        (p.workersFor u.options) g w₁
      ((p.carryOut schedule order).run.run w).1 = pool.result ∧
        ((p.carryOut schedule order).run.run w).2.stored = pool.shared.world.stored ∧
        (I pool.shared.world.outside → I ((p.carryOut schedule order).run.run w).2.outside) := by
  obtain ⟨opened, hopening, hstored, hkept, hanswer, hstored', hkept'⟩ := h.carryOut_run hp w
  rw [← h.updates, ← hstored] at hresolve
  refine ⟨?_, begun u.verb u.options g log stored opened, ?_, ?_, ?_, ?_⟩
  · rw [graph?_of_undertaking h.undertaking, hopening, Option.bind_some, resolved?, if_pos hdeps,
      hresolve]
    rfl
  · obtain ⟨entries, hbegun⟩ := begun_eq u.verb u.options g log stored opened
    rw [hbegun]
  · obtain ⟨entries, hbegun⟩ := begun_eq u.verb u.options g log stored opened
    rw [hbegun]
    exact hkept
  · simp only [deeds, h.undertaking, Undertaking.deeds, hopening, Undertaking.handled, hresolve,
      hdeps, if_true]
  · obtain ⟨hresult, entries, hworld⟩ := handle_of_resolved u.schedule u.verb u.options u.perform
      opened hdeps hresolve
    rw [hresult] at hanswer
    rw [hworld] at hstored' hkept'
    refine ⟨hanswer.trans ?_, hstored', hkept'⟩
    cases (work (p.planFor u.verb u.options u.perform) u.schedule (p.workersFor u.options) g
      (begun u.verb u.options g log stored opened)).result <;> rfl

/-! ## The first time -/

variable {kind : Stored φ → Prop} {legal : String → String → Prop} {w : World φ β}
  {g : DependencyGraph} {log : List Log.Entry} {stored : Stored φ}

theorem Resolves.sound (h : p.Resolves) {update : Bool} {s : Stored φ}
    (hresolve : p.resolve update s = (.ok g, log, stored)) : g.Sound := by
  obtain ⟨root, cyclic, hr⟩ := h
  rw [hr] at hresolve
  exact Resolver.sound_of_resolve (congrArg Prod.fst hresolve)

/-- When an order to build or deploy has succeeded, so has the action on every
dependency that was to be acted upon. -/
theorem Guarded.acted_of_ok (h : p.Guarded schedule order force u calls)
    (ht : p.Entrusted kind legal) (hp : p.hooks.Harmless I) (hw : kind w.stored)
    (hlegal : p.Storable legal order w)
    (hok : ((p.carryOut schedule order).run.run w).1 = .ok ())
    (hdeps : p.config.hasDependencies = true)
    (hresolve : p.resolve order.updates w.stored = (.ok g, log, stored))
    (hworkers : p.workersFor u.options ≠ 0) {claim : Claim Dependency} (hb : g.Bears claim)
    (hacts : (p.planFor u.verb u.options u.perform).acts claim.payload = true) :
    ∃ seen, ⟨claim, .acted seen (.ok ())⟩ ∈ p.deeds schedule order w := by
  obtain ⟨hgraph, w₁, hbegun, _, hdeeds, hanswer, _⟩ := h.carryOut_of_resolved hp hdeps hresolve
  have hsound := ht.resolves.sound hresolve
  have hkind : kind w₁.stored := by
    have hkind := (ht.resolve_entries hw order.updates).1
    rw [hresolve] at hkind
    rwa [hbegun]
  have hfiles := (files_of_undertaking ht h.undertaking hsound (hlegal g hgraph)).conducts
  have hconducts : (p.planFor u.verb u.options u.perform).Conducts g
      ⟨fun w => kind w.stored, (·.isOk = true), fun _ _ => True⟩ := {
    hooks := fun phase d => (hp _ _ _).mono (fun _ _ => trivial)
      (fun _ _ hw h => (congrArg kind h.1).mpr hw) fun _ h => h
    actions := hfiles.actions
    log := hfiles.log
    started := hfiles.started }
  rw [hdeeds]
  exact acted_crew hsound.hierarchy hsound.laden hconducts (fun _ h => by cases h) h.forward
    hworkers hkind (hanswer.symm.trans hok) hb hacts

/-- When an order to build or deploy has succeeded, there is a hash of every
dependency that was to be acted upon, and it was the digest of its directory at
some time. -/
theorem Guarded.entry_of_ok (h : p.Guarded schedule order force u calls)
    (ht : p.Entrusted kind legal) (hp : p.hooks.Harmless I) (hw : kind w.stored)
    (hlegal : p.Storable legal order w)
    (hok : ((p.carryOut schedule order).run.run w).1 = .ok ())
    (hdeps : p.config.hasDependencies = true)
    (hresolve : p.resolve order.updates w.stored = (.ok g, log, stored))
    (hworkers : p.workersFor u.options ≠ 0) {claim : Claim Dependency} (hb : g.Bears claim)
    (hacts : (p.planFor u.verb u.options u.perform).acts claim.payload = true) :
    ∃ s hash, kind s ∧ claim.payload.directoryHash s.files = .ok hash ∧
      ((p.carryOut schedule order).run.run w).2.stored.entry claim.id = some hash := by
  obtain ⟨hgraph, _⟩ := h.carryOut_of_resolved hp hdeps hresolve
  obtain ⟨seen, hdeed⟩ := h.acted_of_ok ht hp hw hlegal hok hdeps hresolve hworkers hb hacts
  obtain ⟨u', g', hu', hgraph', hsound, _, hfaithful, hconducted, hfiled⟩ :=
    mem_deeds ht hw hlegal hdeed
  obtain rfl : u = u' := Option.some.inj (h.undertaking.symm.trans hu')
  obtain rfl : g = g' := Option.some.inj (hgraph.symm.trans hgraph')
  obtain ⟨message, hperform⟩ := h.perform
  obtain ⟨_, journal, hdone⟩ := hfaithful
  have hdone' : ((Action.guarded claim.payload force message (calls claim.payload)).run.run
      (.new claim.payload.name u.options.selection.verbose)).after seen =
        some (.done (.ok (), journal)) := by
    rw [← hperform]
    exact hdone
  obtain ⟨s, hs, hcases⟩ := Action.guarded_of_done hdone'
  have hkind : kind s.stored := hconducted.1 s (List.mem_of_head? hs)
  have hid := (hsound.located _ hb.carries).1
  -- what is stored in the end is what the deed has recorded, or what was there before
  have hentry := (entry_carryOut ht hw schedule hlegal).2 claim.id
  rw [find?_deed (nodup_deeds ht hw schedule hlegal) hdeed, Option.bind_some, hgraph] at hentry
  have hrefreshed : refreshed order.updates (some g) w.stored.entry claim.id =
      w.stored.entry claim.id := by
    simp [refreshed, hb.mem_ids hsound.hierarchy.consistent]
  have hnote : (Deed.note (p.filing kind order) ⟨claim, .acted seen (.ok ())⟩).2 =
      (Action.recorded claim.payload force (calls claim.payload)
        (.new claim.payload.name u.options.selection.verbose) seen).map some :=
    congrFun (h.mark claim.payload) seen
  rw [hrefreshed, hnote] at hentry
  rcases hcases with ⟨hprepare, hrecorded⟩ | ⟨hash, hdigest, hrecorded⟩
  · obtain ⟨hash, hdigest, hload⟩ := Action.prepare_eq_none hprepare
    refine ⟨s.stored, hash, hkind, hdigest, ?_⟩
    rw [hrecorded] at hentry
    have hloaded := ht.keeping.load hkind claim.payload.id
    rw [hload, hid] at hloaded
    exact hentry.trans ((hfiled s hs).symm.trans (Except.ok.inj hloaded).symm)
  · refine ⟨s.stored, hash, hkind, hdigest, ?_⟩
    rw [hrecorded] at hentry
    exact hentry

/-- An order that drops the hashes of what is no dependency any more leaves none. -/
theorem entry_of_updates (ht : p.Entrusted kind legal) (hw : kind w.stored)
    (hlegal : p.Storable legal order w) (hgraph : p.graph? order w = some g)
    (hupdates : order.updates = true) {id : String} (hid : id ∉ g.ids) :
    ((p.carryOut schedule order).run.run w).2.stored.entry id = none := by
  have hfind : (p.deeds schedule order w).find? (·.claim.id = id) = none := by
    refine List.find?_eq_none.mpr fun deed hdeed hsame => hid ?_
    obtain ⟨_, g', _, hgraph', hsound, hbears, _⟩ := mem_deeds ht hw hlegal hdeed
    obtain rfl : g = g' := Option.some.inj (hgraph.symm.trans hgraph')
    exact of_decide_eq_true hsame ▸ hbears.mem_ids hsound.hierarchy.consistent
  rw [(entry_carryOut ht hw schedule hlegal).2 id, hfind, hgraph]
  simp [refreshed, hupdates, hid]

/-! ## The second time -/

/-- The store is some store, and what the hooks keep holds. -/
def Idle (I : β → Prop) (s : Stored φ) (w : World φ β) : Prop := w.stored = s ∧ I w.outside

/-- When no dependency has changed, all actions succeed and do nothing. -/
theorem Guarded.conducts (h : p.Guarded schedule order false u calls) (hp : p.hooks.Harmless I)
    {s : Stored φ} (hunchanged : ∀ claim, g.Bears claim →
      (p.planFor u.verb u.options u.perform).acts claim.payload = true →
        claim.payload.prepare s false = .ok none) :
    (p.planFor u.verb u.options u.perform).Conducts g (Crew.failingOn (Idle I s) ∅) where
  hooks phase d := (hp _ _ _).mono (fun _ _ => trivial)
    (fun _ _ hw h => ⟨h.1.trans hw.1, h.2 hw.2⟩) fun _ h => h
  actions claim hb hacts := by
    obtain ⟨message, hperform⟩ := h.perform
    have hkept : ∀ w : World φ β, Idle I s w → claim.payload.prepare w.stored false = .ok none :=
      fun w hw => hw.1.symm ▸ hunchanged claim hb hacts
    change ((u.perform claim.payload).run.run _).Obeys _ _ _
    rw [hperform]
    refine (Action.obeys_guarded_unchanged hkept (fun _ _ hw => hw) _).mono (fun _ h => h)
      (fun _ _ _ h => h) fun answer hanswer => ?_
    simp [Crew.failingOn, hanswer, Except.isOk, Except.toBool]
  log _ _ hw := hw
  started _ _ hw := hw

/-- When no dependency has changed, they are all passed over or found unchanged. -/
theorem Guarded.unchanged_of_conducted (h : p.Guarded schedule order false u calls)
    {s : Stored φ} {deed : Deed φ β}
    (hunchanged : (p.planFor u.verb u.options u.perform).acts deed.claim.payload = true →
      deed.claim.payload.prepare s false = .ok none)
    (hfaithful : deed.Faithful (p.planFor u.verb u.options u.perform) False)
    (hconducted : deed.Conducted (Crew.failingOn (Idle I s) ∅)) :
    deed.fate = .passed ∨ (unchangedIn order deed).isSome = true := by
  obtain ⟨message, hperform⟩ := h.perform
  obtain ⟨claim, fate⟩ := deed
  cases fate with
  | passed => exact Or.inl rfl
  | stopped e => exact hfaithful.2.elim
  | acted seen result =>
    obtain ⟨hacts, journal, hdone⟩ := hfaithful
    cases seen with
    | nil =>
      -- an action takes at least one step
      change ((u.perform claim.payload).run.run _).after [] = _ at hdone
      rw [hperform] at hdone
      cases hdone
    | cons w₁ seen =>
      have hprepare : claim.payload.prepare w₁.stored false = .ok none := by
        rw [(hconducted.1 w₁ (List.mem_cons_self ..)).1]
        exact hunchanged hacts
      right
      simp only [unchangedIn, h.forced, hprepare, Option.isSome_some]

/-- When no dependency has changed, an order to build or deploy that does not force
anything succeeds and does nothing. -/
theorem Guarded.idle (h : p.Guarded schedule order false u calls) (hp : p.hooks.Harmless I)
    (hI : I w.outside) (hdeps : p.config.hasDependencies = true) (hg : g.Hierarchy) (hl : g.Laden)
    (hresolve : p.resolve order.updates w.stored = (.ok g, log, w.stored))
    (hunchanged : p.workersFor u.options ≠ 0 → ∀ claim, g.Bears claim →
      (p.planFor u.verb u.options u.perform).acts claim.payload = true →
        claim.payload.prepare w.stored false = .ok none) :
    ((p.carryOut schedule order).run.run w).1 = .ok () ∧
      ((p.carryOut schedule order).run.run w).2.stored = w.stored ∧
      I ((p.carryOut schedule order).run.run w).2.outside ∧
      ∀ deed ∈ p.deeds schedule order w,
        deed.fate = .passed ∨ (unchangedIn order deed).isSome = true := by
  obtain ⟨_, w₁, hbegun, hkept, hdeeds, hanswer, hstored, hkept'⟩ :=
    h.carryOut_of_resolved hp hdeps hresolve
  have hidle : Idle I w.stored w₁ := ⟨hbegun, hkept hI⟩
  obtain ⟨hresult, ⟨hworld, houtside⟩, hall⟩ := result_work hg hl u.schedule
    (fun hworkers => h.conducts hp (hunchanged hworkers)) hidle
  refine ⟨hanswer.trans hresult, hstored.trans hworld, hkept' houtside, fun deed hdeed => ?_⟩
  rw [hdeeds] at hdeed
  have hworkers : p.workersFor u.options ≠ 0 := by
    intro hnobody
    rw [hnobody, crew_of_nobody] at hdeed
    cases hdeed
  obtain ⟨hborne, hfaithful, hconducted⟩ := hall deed hdeed
  exact h.unchanged_of_conducted (hunchanged hworkers _ hborne) hfaithful hconducted

/-! ## Both times -/

omit [FileSystem φ] in
theorem Order.force?_unforced (h : order.force? = some force) :
    order.unforced.force? = some false := by
  cases order <;> cases h <;> rfl

omit [FileSystem φ] in
theorem Order.updates_unforced (order : Order) : order.unforced.updates = order.updates := by
  cases order <;> rfl

/-- What is done without need is the only difference between an order and the one that
forces nothing. -/
theorem Guarded.options_unforced {p' : Project φ β} {schedule' : List Nat} {u' : Undertaking φ β}
    {calls' : Dependency → Task φ β Unit} (h : p.Guarded schedule order force u calls)
    (h' : p'.Guarded schedule' order.unforced false u' calls') (hconfig : p'.config = p.config) :
    u'.options = u.options := by
  have hu := h.undertaking
  have hu' := h'.undertaking
  have hconcurrency (workers : Nat) : p'.concurrency workers = p.concurrency workers := by
    rw [concurrency, concurrency, hconfig]
  cases order with
  | build selection force workers =>
    cases hu
    cases hu'
    simp only [hconcurrency]
  | deploy selection flags workers =>
    cases hu
    cases hu'
    simp only [hconcurrency]
  | _ => cases h.forced

omit [FileSystem φ] in
/-- A project whose output goes nowhere. -/
def muted (p : Project φ β) : Project φ β := { p with sink := fun _ => pure () }

/-- Nothing is put out by building and deploying. -/
theorem carryOut_muted (h : order.force? = some force) :
    p.muted.carryOut schedule order = p.carryOut schedule order := by
  cases order with
  | build | deploy =>
    simp only [carryOut, buildAll, deployAll, handleBatch, withBatchHooks, fireBatch, handle,
      resolveFor, resolveGraph, planFor, workersFor, concurrency, muted]
    rfl
  | _ => cases h

/-- A project that may be entrusted with a store of a mode while it builds or deploys: no
dependency lies in the directory of the store, which has a line for each of them. -/
structure Repeatable (mode : Store.Mode) (root : Path) (I : β → Prop) (p : Project MemoryFiles β)
    (order : Order) (s : Stored MemoryFiles) : Prop where
  resolves : ∃ cyclic, p.resolve = (Resolver.mk root p.config cyclic).resolve
  backend : p.backend.Harmless
  hooks : p.hooks.Harmless I
  built : s.files.Built
  held : s.Held mode root
  keys : ∀ g, (p.resolve order.updates s).1 = .ok g → ∀ id ∈ g.ids, Stored.Keeps mode id
  apart : ∀ g, (p.resolve order.updates s).1 = .ok g → ∀ id ∈ g.ids, Apart mode root id

section Repeatable

variable {mode : Store.Mode} {root : Path} {p : Project MemoryFiles β}
  {u : Undertaking MemoryFiles β} {calls : Dependency → Task MemoryFiles β Unit}
  {w : World MemoryFiles β} {g : DependencyGraph} {log : List Log.Entry}
  {stored : Stored MemoryFiles}

/-- A store of the mode in a run that began with some files. -/
def HeldSince (mode : Store.Mode) (root : Path) (m : MemoryFiles) (s : Stored MemoryFiles) : Prop :=
  s.Held mode root ∧ Since mode root m s.files

/-- A store later on: the same, but one in a file may have been opened anew. -/
def Continues (mode : Store.Mode) (root : Path) (s s' : Stored MemoryFiles) : Prop :=
  s' = s ∨ mode = .file ∧ s' = ⟨s.files, .open mode root⟩

/-- What is stored in a file is not lost when the store is opened anew. -/
theorem Continues.eq_of_held {s s' : Stored MemoryFiles} (h : Continues mode root s s')
    (hs : s.Held mode root) : s' = s := by
  rcases h with h | ⟨rfl, rfl⟩
  · exact h
  · obtain ⟨hstore, _⟩ := hs
    change Stored.mk s.files (.file root) = s
    rw [← hstore]

theorem Repeatable.entrusted (hr : p.Repeatable mode root I order w.stored)
    (hroot : MemoryFiles.rootKey root ∈ w.stored.files.entries) :
    p.muted.Entrusted (HeldSince mode root w.stored.files) (Stored.Storable mode) where
  keeping := Stored.keeping_since mode hroot
  resolves := by
    obtain ⟨cyclic, hresolve⟩ := hr.resolves
    exact ⟨root, cyclic, hresolve⟩
  obeys := {
    backend := hr.backend.mono (fun _ _ => trivial) fun w w' hw h => ⟨h.symm ▸ hw, by rw [h]⟩
    hooks := fun _ _ _ => (hr.hooks _ _ _).mono (fun _ _ => trivial)
      (fun w w' hw h => ⟨h.1.symm ▸ hw, by rw [h.1]⟩) fun _ _ => trivial
    sink := fun _ => trivial }

/-- What was resolved has a root directory. -/
theorem Repeatable.mem_rootKey (hr : p.Repeatable mode root I order w.stored)
    (hresolve : p.resolve order.updates w.stored = (.ok g, log, stored)) :
    MemoryFiles.rootKey root ∈ w.stored.files.entries := by
  obtain ⟨cyclic, hresolves⟩ := hr.resolves
  rw [hresolves] at hresolve
  obtain ⟨draft, hdraft, _⟩ := Resolver.exists_draft (congrArg Prod.fst hresolve)
  obtain ⟨path, hpath⟩ := Resolver.exists_root hdraft
  rcases MemoryFiles.rootKey_eq root with ⟨_, hkey⟩ | hkey
  · rw [hkey]
    exact hr.built.tidy_joined.1.based
  · rw [hkey, Std.TreeMap.mem_iff_isSome_getElem?]
    exact (MemoryFiles.canonical_eq_ok.mp hpath).2

theorem Repeatable.storable (hr : p.Repeatable mode root I order w.stored)
    (h : p.muted.Guarded schedule order force u calls)
    (hdeps : p.config.hasDependencies = true)
    (hresolve : p.resolve order.updates w.stored = (.ok g, log, stored)) :
    p.muted.Storable (Stored.Storable mode) order w := by
  refine storable_of_keeps fun g' hgraph' => ?_
  obtain ⟨hgraph, _⟩ := h.carryOut_of_resolved (p := p.muted) hr.hooks hdeps hresolve
  obtain rfl : g = g' := Option.some.inj (hgraph.symm.trans hgraph')
  exact hr.keys g (congrArg Prod.fst hresolve)

/-- The store is of the same mode afterwards, and nothing else has written files. -/
theorem Repeatable.heldSince_after (hr : p.Repeatable mode root I order w.stored)
    (h : p.muted.Guarded schedule order force u calls)
    (hdeps : p.config.hasDependencies = true)
    (hresolve : p.resolve order.updates w.stored = (.ok g, log, stored)) :
    HeldSince mode root w.stored.files
      ((p.muted.carryOut schedule order).run.run w).2.stored :=
  (entry_carryOut (hr.entrusted (hr.mem_rootKey hresolve)) ⟨hr.held, .refl mode root hr.built⟩
    schedule (hr.storable h hdeps hresolve)).1

/-- When an order to build or deploy has succeeded, no dependency that was to be acted
upon has changed since. -/
theorem Repeatable.prepare_of_ok (hr : p.Repeatable mode root I order w.stored)
    (h : p.muted.Guarded schedule order force u calls)
    (hdeps : p.config.hasDependencies = true)
    (hok : ((p.muted.carryOut schedule order).run.run w).1 = .ok ())
    (hresolve : p.resolve order.updates w.stored = (.ok g, log, stored))
    (hworkers : p.workersFor u.options ≠ 0) {claim : Claim Dependency} (hb : g.Bears claim)
    (hacts : (p.planFor u.verb u.options u.perform).acts claim.payload = true) :
    claim.payload.prepare ((p.muted.carryOut schedule order).run.run w).2.stored false =
      .ok none := by
  have ht := hr.entrusted (hr.mem_rootKey hresolve)
  have hlegal := hr.storable h hdeps hresolve
  have hw : HeldSince mode root w.stored.files w.stored := ⟨hr.held, .refl mode root hr.built⟩
  have hsound := ht.resolves.sound hresolve
  obtain ⟨hid, hpath⟩ := hsound.located _ hb.carries
  obtain ⟨s, hash, hs, hdigest, hentry⟩ :=
    h.entry_of_ok ht hr.hooks hw hlegal hok hdeps hresolve hworkers hb hacts
  have hafter := hr.heldSince_after h hdeps hresolve
  have hapart : Apart mode root claim.payload.path.text := by
    rw [hpath]
    exact hr.apart g (congrArg Prod.fst hresolve) _ (hb.mem_ids hsound.hierarchy.consistent)
  refine Action.prepare_of_recorded
    (Dependency.directoryHash_since hs.2 hafter.2 hafter.1 hapart hentry hdigest) ?_
  rw [ht.keeping.load hafter, hid, hentry]

/-- When an order to build or deploy has succeeded, the same is resolved again, and
there are no hashes to drop. -/
theorem Repeatable.resolve_again (hr : p.Repeatable mode root I order w.stored)
    (h : p.muted.Guarded schedule order force u calls)
    (hdeps : p.config.hasDependencies = true)
    (hresolve : p.resolve order.updates w.stored = (.ok g, log, stored)) :
    let after := ((p.muted.carryOut schedule order).run.run w).2.stored
    ∃ log', p.resolve order.updates after = (.ok g, log', after) := by
  intro after
  have ht := hr.entrusted (hr.mem_rootKey hresolve)
  have hlegal := hr.storable h hdeps hresolve
  have hw : HeldSince mode root w.stored.files w.stored := ⟨hr.held, .refl mode root hr.built⟩
  have hafter : HeldSince mode root w.stored.files after := hr.heldSince_after h hdeps hresolve
  obtain ⟨hgraph, _⟩ := h.carryOut_of_resolved (p := p.muted) hr.hooks hdeps hresolve
  obtain ⟨cyclic, hresolves⟩ := hr.resolves
  have hapart := hr.apart g (congrArg Prod.fst hresolve)
  rw [hresolves] at hresolve ⊢
  refine Resolver.resolve_again (congrArg Prod.fst hresolve) hafter.2.retains (fun path hpath => ?_)
    (MemoryFiles.apart_rootId mode root) hapart fun hupdates => ?_
  · obtain ⟨rfl, _⟩ := MemoryFiles.canonical_eq_ok.mp hpath
    exact MemoryFiles.apart_root mode _
  · exact ht.keeping.prune_of_entries hafter fun id hid =>
      entry_of_updates ht hw hlegal hgraph hupdates hid

/-- What was built or deployed without trouble is not built or deployed again.  Whatever
the backend would do the second time, all goes well, what the hooks keep is kept, the
store and all files stay as they are, and every dependency is passed over or found
unchanged. -/
theorem carryOut_again (hr : p.Repeatable mode root I order w.stored)
    (horder : order.force? = some force)
    (hok : ((p.carryOut schedule order).run.run w).1 = .ok ()) {w' : World MemoryFiles β}
    (hw' : Continues mode root ((p.carryOut schedule order).run.run w).2.stored w'.stored)
    (hI : I w'.outside) (b : Backend MemoryFiles β) (schedule' : List Nat) :
    let p' : Project MemoryFiles β := { p with backend := b }
    let again := (p'.carryOut schedule' order.unforced).run.run w'
    again.1 = .ok () ∧ again.2.stored = w'.stored ∧ I again.2.outside ∧
      ∀ deed ∈ p'.deeds schedule' order.unforced w',
        deed.fate = .passed ∨ (unchangedIn order.unforced deed).isSome = true := by
  intro p' again
  obtain ⟨u', calls', h'⟩ := exists_guarded p' schedule' (Order.force?_unforced horder)
  cases hdeps : p.config.hasDependencies with
  | false =>
    obtain ⟨hanswer, hstored, hkept, hdeeds⟩ := h'.carryOut_of_none (p := p') hr.hooks hdeps w'
    rw [hdeeds]
    exact ⟨hanswer, hstored, hkept hI, List.forall_mem_nil _⟩
  | true =>
    obtain ⟨u, calls, h⟩ := exists_guarded p.muted schedule horder
    rw [← carryOut_muted horder] at hok hw'
    obtain ⟨g, log, stored, hresolve⟩ := h.resolved_of_ok (p := p.muted) hr.hooks hdeps hok
    have hsound := (hr.entrusted (hr.mem_rootKey hresolve)).resolves.sound hresolve
    obtain ⟨log', hagain⟩ := hr.resolve_again h hdeps hresolve
    have hw' := hw'.eq_of_held (hr.heldSince_after h hdeps hresolve).1
    have hoptions : u'.options = u.options := h.options_unforced h' rfl
    rw [← hw', ← order.updates_unforced] at hagain
    refine h'.idle (p := p') hr.hooks hI hdeps hsound.hierarchy hsound.laden hagain
      fun hworkers claim hb hacts => ?_
    rw [hoptions] at hworkers hacts
    rw [hw']
    exact hr.prepare_of_ok h hdeps hok hresolve hworkers hb hacts

end Repeatable

/-! ## A directory with the project in it -/

/-- Whether a round has succeeded. -/
def Round.succeeds (r : Round φ β) : Bool :=
  ((r.project.carryOut r.schedule r.order).run.run r.world).1.isOk

theorem Round.eq_ok_of_succeeds {r : Round φ β} (h : r.succeeds = true) :
    ((r.project.carryOut r.schedule r.order).run.run r.world).1 = .ok () := by
  unfold succeeds at h
  cases hresult : ((r.project.carryOut r.schedule r.order).run.run r.world).1 with
  | ok _ => rfl
  | error e =>
    rw [hresult] at h
    cases h

/-- Build a directory and the one that has the project in it, with a store in a file. -/
def buildAround : Round MemoryFiles (List String) :=
  ⟨noting [("around", ⟨"/", false, []⟩), ("x", ⟨"/x", false, []⟩)], [],
    .build (selecting []) true 2, emptyDirectories ["/x"] (.file ⟨"/"⟩)⟩

theorem harmless_noting (dependencies : List (String × Declaration)) :
    (noting dependencies).backend.Harmless := by
  have hnoted {α : Type} (call : String) (answer : α) :
      (noted call answer).Obeys (fun _ => True) fun w w' => w'.stored = w.stored :=
    Task.obeys_atomic fun _ _ => rfl
  exact ⟨fun _ => hnoted _ _, fun _ _ => hnoted _ _, fun _ _ => hnoted _ _, fun _ => hnoted _ _,
    fun _ _ _ => hnoted _ _⟩

theorem repeatable_buildAround (I : List String → Prop) :
    buildAround.project.Repeatable .file ⟨"/"⟩ I buildAround.order buildAround.world.stored := by
  have hids : ∀ g, (buildAround.project.resolve false buildAround.world.stored).1 = .ok g →
      g.ids = ["/", "/x"] := by
    have hresolved : (buildAround.project.resolve false
        buildAround.world.stored).1.toOption.map (·.ids) = some ["/", "/x"] := by decide +kernel
    intro g hg
    rw [hg] at hresolved
    exact Option.some.inj hresolved
  have hmissing : FileSystem.isFile buildAround.world.stored.files (Store.filePath ⟨"/"⟩) =
      false := by decide +kernel
  have hbuilt : (MemoryFiles.empty.addDirectory ⟨"/x"⟩).Built := .addDirectory _ .empty
  refine ⟨⟨false, rfl⟩, harmless_noting _, fun _ _ _ => rfl, hbuilt, ⟨rfl, ∅, ?_⟩,
    fun g hg => ?_, fun g hg => ?_⟩
  · rw [show buildAround.world.stored.store = .file ⟨"/"⟩ from rfl, Store.all, hmissing]
    rfl
  · have hkeys : Store.IsKey "/" ∧ Store.IsKey "/x" := by decide
    rw [hids g hg]
    exact List.forall_mem_cons.mpr ⟨hkeys.1, List.forall_mem_singleton.mpr hkeys.2⟩
  · have hbelow : (¬ MemoryFiles.stateKey ⟨"/"⟩ <+: (Path.mk "/").components) ∧
        ¬ MemoryFiles.stateKey ⟨"/"⟩ <+: (Path.mk "/x").components := by decide
    have hroot : (Path.mk "/").components ≠ [] := by decide
    rw [hids g hg]
    exact List.forall_mem_cons.mpr ⟨⟨hbelow.1, fun hnil => absurd hnil hroot⟩,
      List.forall_mem_singleton.mpr ⟨hbelow.2, fun hnil => absurd hnil hroot⟩⟩

/-- When both are built again, even by a backend that builds nothing, all goes well and
nothing is done, although the store has come into being in one of them. -/
theorem carryOut_again_around :
    buildAround.after.outside = ["build around", "build x"] ∧
      let again := (buildAround.project.carryOut [] buildAround.order.unforced).run.run
        buildAround.after
      again.1 = .ok () ∧ again.2.stored = buildAround.after.stored ∧
        again.2.outside = buildAround.after.outside := by
  have hsucceeds : buildAround.succeeds = true := by decide +kernel
  have hsame : Continues .file ⟨"/"⟩ buildAround.after.stored buildAround.after.stored := Or.inl rfl
  obtain ⟨hok, hstored, hcalls, _⟩ := carryOut_again
    (repeatable_buildAround (· = buildAround.after.outside)) rfl
    (Round.eq_ok_of_succeeds hsucceeds) hsame rfl buildAround.project.backend []
  exact ⟨by decide +kernel, hok, hstored, hcalls⟩

/-! ## What is forgotten and what gets in the way -/

/-- Build the one dependency again when the store in memory was opened anew. -/
def buildReopened : Round MemoryFiles (List String) :=
  { buildFirst with world :=
    { buildFirst.after with stored := ⟨buildFirst.after.stored.files, .open .memory ⟨"/"⟩⟩ } }

/-- Build the directory that is here, of a project with an empty path. -/
def buildHere : Round MemoryFiles (List String) :=
  ⟨{ noting [("x", ⟨".", false, []⟩)] with
      resolve := (Resolver.mk ⟨""⟩ (noting [("x", ⟨".", false, []⟩)]).config false).resolve }, [],
    .build (selecting []) false 1,
    ⟨⟨MemoryFiles.empty.addDirectory ⟨""⟩, .file ⟨""⟩⟩, [], ∅, [], []⟩⟩

/-- Build it again. -/
def buildHereAgain : Round MemoryFiles (List String) := { buildHere with world := buildHere.after }

/-- What was remembered in memory is built again when the store was opened anew.  And
the directory that is here cannot be built again if the path of the project is empty:
it lists that of the store, which is not below it. -/
theorem built_again :
    (buildFirst.succeeds = true ∧ buildReopened.after.outside = ["build x", "build x"]) ∧
      buildHere.succeeds = true ∧ buildHereAgain.succeeds = false := by
  decide +kernel

end Project

end Cascade
