import Cascade.Proofs.Dependency.Resolve
import Cascade.Proofs.Run.Entries
import Cascade.Proofs.Run.Handle

/-!
# What a whole run does to the store

An `Order` is what a project can be asked for.  Carrying it out comes to
resolving the dependencies and, unless it is only that, to an `Undertaking`:
workers act on the dependencies, between batch events or not.  `deeds` is what
these workers have done.

`entry_carryOut` says what is stored for an ID after any order, whatever hooks,
backend and schedule do, if they leave the store alone: what the action on the
dependency with this ID has done to it, or else what there was before, unless
the order resolved the dependencies anew and this is none of them any more.
-/

namespace Cascade.Project

open Run

variable {φ β : Type}

/-! ## Orders -/

/-- What a project can be asked for. -/
inductive Order where
  | update
  | resolve (selection : Selection) (silent : Bool)
  | build (selection : Selection) (force : Bool) (workers : Nat)
  | deploy (selection : Selection) (flags : Action.DeployFlags) (workers : Nat)
  | purge (skip only : List String) (verbose : Bool)
  | render (selection : Selection) (skipBuild : Bool)
  | command (request : CommandRequest)

/-- How the dependencies are handled. -/
structure Undertaking (φ β : Type) where
  verb : Verb
  schedule : List Nat
  options : HandleOptions
  perform : Dependency → Task φ β Unit
  /-- Whether batch events fire around it. -/
  batched : Bool

/-- Handle the dependencies, between batch events or not. -/
def Undertaking.run (u : Undertaking φ β) (p : Project φ β) : Session φ β Outcome :=
  let handling := p.handle u.schedule u.verb u.options u.perform
  if u.batched then p.withBatchHooks u.verb handling else handling

variable [FileSystem φ]

/-- Carry out an order. -/
def carryOut (p : Project φ β) (schedule : List Nat) : Order → Session φ β Unit
  | .update => p.updateAll
  | .resolve selection silent => discard (p.resolveAll selection silent)
  | .build selection force workers => discard (p.buildAll schedule selection force workers)
  | .deploy selection flags workers => discard (p.deployAll schedule selection flags workers)
  | .purge skip only verbose => discard (p.purgeAll skip only verbose)
  | .render selection skipBuild => discard (p.renderAll selection skipBuild)
  | .command request => p.runCommand request

/-- What an order undertakes; updating undertakes nothing. -/
def undertaking? (p : Project φ β) (schedule : List Nat) : Order → Option (Undertaking φ β)
  | .update => none
  | .resolve selection silent =>
    some ⟨.resolve, [], ⟨selection, silent, 1⟩, fun _ => pure (), true⟩
  | .build selection force workers =>
    some ⟨.build, schedule, ⟨selection, false, p.concurrency workers⟩,
      Action.build p.backend force, true⟩
  | .deploy selection flags workers =>
    some ⟨.deploy, schedule, ⟨selection, false, p.concurrency workers⟩,
      Action.deploy p.backend flags, true⟩
  | .purge skip only verbose =>
    some ⟨.purge, [], ⟨⟨skip, only, false, verbose⟩, false, 1⟩, Action.purge p.backend, true⟩
  | .render selection skipBuild =>
    some ⟨.render, [], ⟨selection, false, 1⟩, Action.render p.backend p.sink skipBuild, true⟩
  | .command r =>
    some ⟨.command, [], ⟨⟨[], [r.dependency], r.update, r.verbose⟩, true, 1⟩,
      fun d => p.backend.command d r.command r.arguments, false⟩

omit [FileSystem φ] in
/-- What goes on without touching the world leaves what there was before. -/
theorem bind_run_snd {α γ : Type} (s : Session φ β α) {t : α → Session φ β γ}
    (ht : ∀ a w, ((t a).run.run w).2 = w) (w : World φ β) :
    ((s >>= t).run.run w).2 = (s.run.run w).2 := by
  rw [run_bind]
  generalize s.run.run w = answer
  obtain ⟨result, w'⟩ : Except Error α × World φ β := answer
  cases result with
  | ok a => exact ht a w'
  | error e => rfl

omit [FileSystem φ] in
/-- A command leaves what handling the dependencies for it leaves, and answers what that does
if anything has begun. -/
theorem runCommand_run (p : Project φ β) (r : CommandRequest) (w : World φ β) :
    let handled := (p.handle [] .command ⟨⟨[], [r.dependency], r.update, r.verbose⟩, true, 1⟩
      fun d => p.backend.command d r.command r.arguments).run.run w
    (p.runCommand r).run.run w =
      (if handled.2.started.isEmpty then .error (.dependencyNotFound r.dependency)
        else handled.1.map fun _ => (), handled.2) := by
  unfold runCommand
  rw [run_bind, attempt_run]
  generalize (p.handle [] .command _ _).run.run w = answer
  obtain ⟨result, w'⟩ : Except Error Outcome × World φ β := answer
  dsimp only
  rw [run_bind, get_run]
  dsimp only
  cases w'.started.isEmpty <;> cases result <;> rfl

/-- Carrying out an order leaves what its undertaking leaves. -/
theorem carryOut_run_snd {p : Project φ β} {schedule : List Nat} {order : Order}
    {u : Undertaking φ β} (h : p.undertaking? schedule order = some u) (w : World φ β) :
    ((p.carryOut schedule order).run.run w).2 = ((u.run p).run.run w).2 := by
  cases order with
  | update => cases h
  | command r =>
    cases h
    exact congrArg Prod.snd (p.runCommand_run r w)
  | _ =>
    cases h
    exact bind_run_snd _ (fun _ _ => rfl) w

/-! ## What is acted on -/

/-- The world in which an undertaking begins to resolve, unless the batch
events before it stop it. -/
def Undertaking.opening (u : Undertaking φ β) (p : Project φ β) (w : World φ β) :
    Option (World φ β) :=
  if u.batched then
    match (p.fireBatch .before u.verb ∅).run.run w with
    | (.ok (), w) => some w
    | (.error _, _) => none
  else some w

/-- The graph that is resolved when handling begins, if there is one. -/
def resolved? (p : Project φ β) (update : Bool) (w : World φ β) : Option DependencyGraph :=
  if p.config.hasDependencies then (p.resolve update w.stored).1.toOption else none

/-- What the workers that handle the dependencies have done in the end. -/
def Undertaking.handled (u : Undertaking φ β) (p : Project φ β) (w : World φ β) :
    List (Deed φ β) :=
  match p.resolve u.options.selection.update w.stored with
  | (.ok g, log, stored) =>
    if p.config.hasDependencies then
      (crew (p.planFor u.verb u.options u.perform) u.schedule (p.workersFor u.options) g
        (begun u.verb u.options g log stored w)).account.deeds
    else []
  | (.error _, _, _) => []

/-- What an undertaking has done to the dependencies. -/
def Undertaking.deeds (u : Undertaking φ β) (p : Project φ β) (w : World φ β) :
    List (Deed φ β) :=
  match u.opening p w with
  | some w => u.handled p w
  | none => []

/-- Whether an order drops the hashes of what is not a dependency any more. -/
def Order.updates : Order → Bool
  | .update => true
  | .resolve selection _ | .build selection _ _ | .deploy selection _ _ | .render selection _ =>
    selection.update
  | .purge .. => false
  | .command request => request.update

/-- The graph that an order resolves, if it comes to it and there is one. -/
def graph? (p : Project φ β) (order : Order) (w : World φ β) : Option DependencyGraph :=
  match p.undertaking? [] order with
  | some u => (u.opening p w).bind (p.resolved? order.updates)
  | none => p.resolved? order.updates w

/-- The graph that an order resolves is the one that its undertaking does. -/
theorem graph?_of_undertaking {p : Project φ β} {schedule : List Nat} {order : Order}
    {u : Undertaking φ β} (hu : p.undertaking? schedule order = some u) (w : World φ β) :
    p.graph? order w = (u.opening p w).bind (p.resolved? u.options.selection.update) := by
  cases order <;> cases hu <;> rfl

/-- What an order has done to the dependencies. -/
def deeds (p : Project φ β) (schedule : List Nat) (order : Order) (w : World φ β) :
    List (Deed φ β) :=
  match p.undertaking? schedule order with
  | some u => u.deeds p w
  | none => []

/-- What is left of the entries once a graph is resolved, if one is.  Updating
drops those of other IDs. -/
def refreshed (update : Bool) (graph : Option DependencyGraph) (entry : String → Option String)
    (id : String) : Option String :=
  match graph with
  | some g => if update && !g.ids.contains id then none else entry id
  | none => entry id

/-- The project resolves the declarations of its configuration. -/
def Resolves (p : Project φ β) : Prop :=
  ∃ root cyclic, p.resolve = (Resolver.mk root p.config cyclic).resolve

/-- The graph that a project resolves is sound. -/
theorem sound_of_resolved {p : Project φ β} (hresolves : p.Resolves) {update : Bool}
    {w : World φ β} {g : DependencyGraph} (h : p.resolved? update w = some g) : g.Sound := by
  obtain ⟨root, cyclic, hresolve⟩ := hresolves
  unfold resolved? at h
  split at h
  · have hok : (p.resolve update w.stored).1 = .ok g := by
      cases hres : (p.resolve update w.stored).1 with
      | error e =>
        rw [hres] at h
        cases h
      | ok g' =>
        rw [hres] at h
        cases h
        rfl
    rw [hresolve] at hok
    exact Resolver.sound_of_resolve hok
  · cases h

/-! ## What is asked of a project -/

/-- Every step of backend, hooks and output of a project is in `R` as long as
`I` holds before each. -/
structure Obeys (I : World φ β → Prop) (R : World φ β → World φ β → Prop) (p : Project φ β) :
    Prop where
  backend : p.backend.Obeys I R
  hooks : ∀ events name context, (p.hooks events name context).run.Obeys I R fun _ => True
  sink : ∀ text, (p.sink text).run.Obeys I R fun _ => True

omit [FileSystem φ] in
theorem Obeys.mono {p : Project φ β} {I I' : World φ β → Prop} {R R' : World φ β → World φ β → Prop}
    (hp : p.Obeys I R) (hI : ∀ w, I' w → I w) (hR : ∀ w w', I' w → R w w' → R' w w') :
    p.Obeys I' R' where
  backend := hp.backend.mono hI hR
  hooks events name context := (hp.hooks events name context).mono hI hR fun _ h => h
  sink text := (hp.sink text).mono hI hR fun _ h => h

/-- The project may be entrusted with stores of a kind: they keep what is legal,
and nothing but actions on dependencies changes their entries. -/
structure Entrusted (kind : Stored φ → Prop) (legal : String → String → Prop) (p : Project φ β) :
    Prop where
  keeping : Stored.Keeping kind legal
  resolves : p.Resolves
  obeys : p.Obeys (fun w => kind w.stored) (World.Keeps kind)

/-- Digests may be stored for all dependencies that an order resolves. -/
def Storable (p : Project φ β) (legal : String → String → Prop) (order : Order) (w : World φ β) :
    Prop :=
  ∀ g, p.graph? order w = some g → ∀ id ∈ g.ids, ∀ (d : Dependency) (files : φ) hash,
    d.directoryHash files = .ok hash → legal id hash

/-! ## Handling -/

variable {legal : String → String → Prop} {p : Project φ β} {f : Filing φ β}

/-- What resolving does to the entries. -/
theorem Entrusted.resolve_entries {kind : Stored φ → Prop} (ht : p.Entrusted kind legal)
    {s : Stored φ} (hs : kind s) (update : Bool) : kind (p.resolve update s).2.2 ∧
      (p.resolve update s).2.2.entry =
        refreshed update (p.resolve update s).1.toOption s.entry := by
  obtain ⟨root, cyclic, hresolve⟩ := ht.resolves
  have hentries := Resolver.resolve_entries ht.keeping hs ⟨root, p.config, cyclic⟩ update
  rw [← hresolve] at hentries
  refine ⟨hentries.1, hentries.2.trans (funext fun id => ?_)⟩
  cases (p.resolve update s).1 with
  | error e => rfl
  | ok g =>
    by_cases hid : id ∈ g.ids <;> cases update <;> simp [refreshed, Except.toOption, hid]

/-- Handling the dependencies does nothing to the store if none are resolved, and
otherwise what a crew does that begins on the entries that resolving leaves. -/
theorem handle_cases (ht : p.Entrusted f.kind legal) {w : World φ β} (hw : f.holds w)
    (u : Undertaking φ β) :
    (p.resolved? u.options.selection.update w = none ∧ u.handled p w = [] ∧
      World.Keeps f.kind w ((p.handle u.schedule u.verb u.options u.perform).run.run w).2) ∨
    ∃ g w', p.resolved? u.options.selection.update w = some g ∧ g.Sound ∧ f.holds w' ∧
      w'.stored.entry = refreshed u.options.selection.update (some g) w.stored.entry ∧
      u.handled p w = (crew (p.planFor u.verb u.options u.perform) u.schedule
        (p.workersFor u.options) g w').account.deeds ∧
      ((p.handle u.schedule u.verb u.options u.perform).run.run w).2.stored =
        (crew (p.planFor u.verb u.options u.perform) u.schedule (p.workersFor u.options) g
          w').account.world.stored := by
  have hresolved := ht.resolve_entries hw u.options.selection.update
  rcases hres : p.resolve u.options.selection.update w.stored with ⟨result, log, stored⟩
  rw [hres] at hresolved
  cases hdeps : p.config.hasDependencies with
  | false =>
    refine Or.inl ⟨by simp [resolved?, hdeps], ?_, ?_⟩
    · cases result <;> simp [Undertaking.handled, hres, hdeps]
    · rw [handle_of_none u.schedule u.verb u.options u.perform w hdeps]
      exact ⟨hw, rfl⟩
  | true =>
    cases result with
    | error e =>
      obtain ⟨entries, hrun⟩ := handle_of_unresolved u.schedule u.verb u.options u.perform w
        hdeps hres
      refine Or.inl ⟨by simp [resolved?, hres, Except.toOption], by
        simp [Undertaking.handled, hres], ?_⟩
      rw [hrun]
      exact hresolved
    | ok g =>
      have hgraph : p.resolved? u.options.selection.update w = some g := by
        simp [resolved?, hres, hdeps, Except.toOption]
      obtain ⟨_, entries, hrun⟩ := handle_of_resolved u.schedule u.verb u.options u.perform w
        hdeps hres
      obtain ⟨entries', hbegun⟩ := begun_eq u.verb u.options g log stored w
      refine Or.inr ⟨g, begun u.verb u.options g log stored w, hgraph,
        sound_of_resolved ht.resolves hgraph, ?_, ?_, ?_, ?_⟩
      · rw [hbegun]
        exact hresolved.1
      · rw [hbegun]
        exact hresolved.2
      · simp only [Undertaking.handled, hres, hdeps, if_true]
      · rw [hrun, work_eq]
        rfl

/-- Handling the dependencies does to the store what its deeds do, on top of
what resolving does. -/
theorem entry_handle (ht : p.Entrusted f.kind legal) {w : World φ β} (hw : f.holds w)
    (u : Undertaking φ β)
    (hfiles : ∀ g, p.resolved? u.options.selection.update w = some g →
      (p.planFor u.verb u.options u.perform).Files g f) :
    f.holds ((p.handle u.schedule u.verb u.options u.perform).run.run w).2 ∧
      ∀ id, ((p.handle u.schedule u.verb u.options u.perform).run.run w).2.stored.entry id =
        (((u.handled p w).find? (·.claim.id = id)).bind fun deed => (deed.note f).2).getD
          (refreshed u.options.selection.update (p.resolved? u.options.selection.update w)
            w.stored.entry id) := by
  rcases handle_cases ht hw u with ⟨hgraph, hhandled, hkeeps⟩ |
    ⟨g, w', hgraph, hsound, hw', hbase, hhandled, hstored⟩
  · refine ⟨hkeeps.1, fun id => ?_⟩
    rw [hgraph, hhandled, hkeeps.2]
    rfl
  · have hfiled := filed_crew hsound.hierarchy hsound.laden (hfiles g hgraph) u.schedule
      (p.workersFor u.options) hw'
    refine ⟨?_, fun id => ?_⟩
    · rw [Filing.holds, hstored]
      exact hfiled.1.conducted.world
    · rw [hstored, hhandled, hgraph, ← hbase]
      exact entry_crew hsound.hierarchy hsound.laden (hfiles g hgraph) u.schedule
        (p.workersFor u.options) hw' id

/-! ## Between batch events -/

/-- Batch events leave the store alone. -/
theorem keeps_fireBatch {kind : Stored φ → Prop}
    (hp : p.Obeys (fun w => kind w.stored) (World.Keeps kind)) (phase : Hook.Phase) (verb : Verb)
    (context : Dictionary) {w : World φ β} (hw : kind w.stored) :
    World.Keeps kind w ((p.fireBatch phase verb context).run.run w).2 :=
  ((hp.hooks [Hook.batchEvent phase verb] none context).run (fun _ _ _ h => h.1)
    (fun _ h => ⟨h, rfl⟩) (fun _ _ _ h h' => ⟨h'.1, h'.2.trans h.2⟩) hw).2.1

omit [FileSystem φ] in
/-- A run between batch events leaves what the events leave that fire after
it, unless those before it stop it. -/
theorem withBatchHooks_run_snd (p : Project φ β) (verb : Verb) (run : Session φ β Outcome)
    (w : World φ β) :
    (∃ e w', (p.fireBatch .before verb ∅).run.run w = (.error e, w') ∧
      ((p.withBatchHooks verb run).run.run w).2 = w') ∨
    ∃ w' phase context, (p.fireBatch .before verb ∅).run.run w = (.ok (), w') ∧
      ((p.withBatchHooks verb run).run.run w).2 =
        ((p.fireBatch phase verb context).run.run (run.run.run w').2).2 := by
  unfold withBatchHooks
  rw [run_bind]
  rcases (p.fireBatch .before verb ∅).run.run w with ⟨result, w'⟩
  cases result with
  | error e => exact Or.inl ⟨e, w', rfl, rfl⟩
  | ok _ =>
    refine Or.inr ⟨w', ?_⟩
    dsimp only
    rw [run_bind, attempt_run]
    rcases run.run.run w' with ⟨result, w''⟩
    cases result with
    | ok outcome => exact ⟨.after, _, rfl, bind_run_snd _ (fun _ _ => rfl) w''⟩
    | error e => exact ⟨.error, _, rfl, bind_run_snd _ (fun _ _ => rfl) w''⟩

/-- Nothing has happened to the store when an undertaking begins to resolve. -/
theorem keeps_opening {kind : Stored φ → Prop}
    (hp : p.Obeys (fun w => kind w.stored) (World.Keeps kind)) {w w' : World φ β}
    (hw : kind w.stored) {u : Undertaking φ β} (h : u.opening p w = some w') :
    World.Keeps kind w w' := by
  have hbefore := keeps_fireBatch hp .before u.verb ∅ hw
  unfold Undertaking.opening at h
  split at h
  · split at h
    · rename_i hrun
      cases h
      rwa [hrun] at hbefore
    · cases h
  · cases h
    exact ⟨hw, rfl⟩

/-- An undertaking does to the store what its deeds do, on top of what
resolving does. -/
theorem entry_run (ht : p.Entrusted f.kind legal) {w : World φ β} (hw : f.holds w)
    (u : Undertaking φ β)
    (hfiles : ∀ g, (u.opening p w).bind (p.resolved? u.options.selection.update) = some g →
      (p.planFor u.verb u.options u.perform).Files g f) :
    f.holds ((u.run p).run.run w).2 ∧
      ∀ id, ((u.run p).run.run w).2.stored.entry id =
        (((u.deeds p w).find? (·.claim.id = id)).bind fun deed => (deed.note f).2).getD
          (refreshed u.options.selection.update
            ((u.opening p w).bind (p.resolved? u.options.selection.update)) w.stored.entry id) := by
  cases hbatched : u.batched with
  | false =>
    have hopening : u.opening p w = some w := by
      rw [Undertaking.opening, hbatched]
      rfl
    simp only [hopening, Option.bind_some] at hfiles
    simp only [Undertaking.run, hbatched, Undertaking.deeds, hopening, Option.bind_some]
    exact entry_handle ht hw u hfiles
  | true =>
    simp only [Undertaking.run, hbatched, if_true]
    rcases withBatchHooks_run_snd p u.verb (p.handle u.schedule u.verb u.options u.perform) w with
      ⟨e, w', hbefore, hafter⟩ | ⟨w', phase, context, hbefore, hafter⟩
    · have hopening : u.opening p w = none := by
        simp only [Undertaking.opening, hbatched, if_true, hbefore]
      have hkeeps := keeps_fireBatch ht.obeys .before u.verb ∅ hw
      rw [hbefore] at hkeeps
      rw [hafter]
      refine ⟨hkeeps.1, fun id => ?_⟩
      simp only [Undertaking.deeds, hopening, hkeeps.2]
      rfl
    · have hopening : u.opening p w = some w' := by
        simp only [Undertaking.opening, hbatched, if_true, hbefore]
      have hkeeps := keeps_fireBatch ht.obeys .before u.verb ∅ hw
      rw [hbefore] at hkeeps
      simp only [hopening, Option.bind_some] at hfiles
      have hhandle := entry_handle ht hkeeps.1 u hfiles
      have hkeeps' := keeps_fireBatch ht.obeys phase u.verb context hhandle.1
      rw [hafter]
      refine ⟨hkeeps'.1, fun id => ?_⟩
      simp only [Undertaking.deeds, hopening, Option.bind_some]
      rw [hkeeps'.2, hhandle.2, hkeeps.2]

/-! ## Orders -/

omit [FileSystem φ] in
theorem updateAll_stored (p : Project φ β) (w : World φ β) :
    ((p.updateAll).run.run w).2.stored =
      if p.config.hasDependencies then (p.resolve true w.stored).2.2 else w.stored := by
  unfold updateAll
  cases p.config.hasDependencies with
  | false => rfl
  | true =>
    simp only [if_true]
    rw [run_bind, say_run]
    dsimp only
    rw [run_bind, attempt_run, resolveGraph_run]
    dsimp only
    cases (p.resolve true (w.withLog _).stored).1 <;> rfl

/-- What the action of an order on a dependency has done to its entry once its
steps have seen some worlds. -/
def mark (p : Project φ β) (order : Order) (d : Dependency) (seen : List (World φ β)) :
    Option (Option String) :=
  match order with
  | .build selection force _ =>
    (Action.recorded d force (Action.buildCalls p.backend d) (.new d.name selection.verbose)
      seen).map some
  | .deploy selection flags _ =>
    (Action.recorded d flags.force (Action.deployCalls p.backend flags d)
      (.new d.name selection.verbose) seen).map some
  | .purge _ _ verbose => Action.forgotten p.backend d (.new d.name verbose) seen
  | _ => none

/-- How the entries are kept while an order is carried out. -/
def filing (p : Project φ β) (kind : Stored φ → Prop) (order : Order) : Filing φ β :=
  ⟨kind, fun claim => p.mark order claim.payload⟩

/-- The actions of an order do to the store what the marks say. -/
theorem files_of_undertaking {kind : Stored φ → Prop} (ht : p.Entrusted kind legal)
    {schedule : List Nat}
    {order : Order} {u : Undertaking φ β} (hu : p.undertaking? schedule order = some u)
    {g : DependencyGraph} (hg : g.Sound)
    (hlegal : ∀ id ∈ g.ids, ∀ (d : Dependency) (files : φ) hash,
      d.directoryHash files = .ok hash → legal id hash) :
    (p.planFor u.verb u.options u.perform).Files g (p.filing kind order) where
  hooks phase d := by
    have hhooks := ht.obeys.hooks (Hook.dependencyEvents phase u.verb d.name) (some d.name)
      (hookContext d)
    exact hhooks
  actions claim hb := by
    have hid : claim.payload.id = claim.id := (hg.located claim hb.carries).1
    have hlegal' : ∀ {files : φ} {hash}, claim.payload.directoryHash files = .ok hash →
        legal claim.payload.id hash :=
      fun h => hlegal _ (hid ▸ hb.mem_ids hg.hierarchy.consistent) _ _ _ h
    have hstored : ∀ w w' : World φ β, kind w.stored → w'.stored = w.stored →
        World.Keeps kind w w' := fun w w' hw h => ⟨h ▸ hw, by rw [h]⟩
    rw [← hid]
    cases order with
    | update => cases hu
    | build selection force workers =>
      cases hu
      exact Action.marks_guarded ht.keeping (Action.obeys_buildCalls ht.obeys.backend hstored _)
        hlegal' force _ _
    | deploy selection flags workers =>
      cases hu
      have hmarks := Action.marks_guarded ht.keeping
        (Action.obeys_deployCalls ht.obeys.backend hstored flags claim.payload) hlegal' flags.force
        "dependency unchanged since last deploy" (.new claim.payload.name selection.verbose)
      rw [← Action.deploy_eq] at hmarks
      exact hmarks
    | purge skip only verbose =>
      cases hu
      exact Action.marks_purge ht.keeping ht.obeys.backend _ _
    | render selection skipBuild =>
      cases hu
      exact (Action.obeys_render ht.obeys.backend ht.obeys.sink hstored skipBuild _ _).marks none
    | resolve selection silent =>
      cases hu
      exact (Task.obeys_pure () _).marks none
    | command r =>
      cases hu
      exact (ht.obeys.backend.command _ _ _ _).marks none
  unmarked claim := by
    cases order with
    | purge skip only verbose => exact Action.forgotten_nil ..
    | _ => rfl

/-- What is stored for an ID after an order: what the action on the dependency
with this ID has done to it, or else what there was before, unless it was
dropped since it is the ID of no dependency any more. -/
theorem entry_carryOut {kind : Stored φ → Prop} (ht : p.Entrusted kind legal) {w : World φ β}
    (hw : kind w.stored) (schedule : List Nat) {order : Order}
    (hlegal : p.Storable legal order w) :
    kind ((p.carryOut schedule order).run.run w).2.stored ∧
      ∀ id, ((p.carryOut schedule order).run.run w).2.stored.entry id =
        (((p.deeds schedule order w).find? (·.claim.id = id)).bind fun deed =>
          (deed.note (p.filing kind order)).2).getD
            (refreshed order.updates (p.graph? order w) w.stored.entry id) := by
  cases hu : p.undertaking? schedule order with
  | none =>
    -- only updating undertakes nothing
    have horder : order = .update := by cases order <;> first | rfl | cases hu
    subst horder
    have hstored : ((p.carryOut schedule .update).run.run w).2.stored =
        if p.config.hasDependencies then (p.resolve true w.stored).2.2 else w.stored :=
      updateAll_stored p w
    have hresolved := ht.resolve_entries hw true
    have hgraph : p.graph? .update w = p.resolved? true w := rfl
    rw [hstored, hgraph, resolved?]
    cases hdeps : p.config.hasDependencies with
    | false => exact ⟨hw, fun _ => rfl⟩
    | true => exact ⟨hresolved.1, congrFun hresolved.2⟩
  | some u =>
    have hgraph := graph?_of_undertaking hu w
    have hupdates : order.updates = u.options.selection.update := by
      cases order <;> cases hu <;> rfl
    have hdeeds : p.deeds schedule order w = u.deeds p w := by rw [deeds, hu]
    rw [carryOut_run_snd hu w, hdeeds, hupdates, hgraph]
    refine entry_run (f := p.filing kind order) ht hw u fun g hg => ?_
    obtain ⟨w', _, hg'⟩ := Option.bind_eq_some_iff.mp hg
    have hsound : g.Sound := sound_of_resolved ht.resolves hg'
    exact files_of_undertaking ht hu hsound (hlegal g (hgraph ▸ hg))

/-- If an order has deeds, they are those of a crew that began on the graph that
was resolved, when the entries of its dependencies were as before the order. -/
theorem deeds_cases {kind : Stored φ → Prop} (ht : p.Entrusted kind legal) {w : World φ β}
    (hw : kind w.stored) (schedule : List Nat) (order : Order) :
    p.deeds schedule order w = [] ∨ ∃ u g w', p.undertaking? schedule order = some u ∧
      p.graph? order w = some g ∧ g.Sound ∧ kind w'.stored ∧
      (∀ id ∈ g.ids, w'.stored.entry id = w.stored.entry id) ∧
      p.deeds schedule order w = (crew (p.planFor u.verb u.options u.perform) u.schedule
        (p.workersFor u.options) g w').account.deeds := by
  unfold deeds
  cases hu : p.undertaking? schedule order with
  | none => exact Or.inl rfl
  | some u =>
    dsimp only [Undertaking.deeds]
    cases hopening : u.opening p w with
    | none => exact Or.inl rfl
    | some w' =>
      dsimp only
      have hkeeps := keeps_opening ht.obeys hw hopening
      rcases handle_cases (f := p.filing kind order) ht hkeeps.1 u with
        ⟨_, hhandled, _⟩ | ⟨g, w'', hresolved, hsound, hw'', hbase, hhandled, _⟩
      · exact Or.inl hhandled
      have hgraph : p.graph? order w = some g := by
        rw [graph?_of_undertaking hu, hopening]
        exact hresolved
      refine Or.inr ⟨u, g, w'', rfl, hgraph, hsound, hw'', fun id hid => ?_, hhandled⟩
      rw [hbase, ← hkeeps.2]
      simp [refreshed, hid]

/-- What is known of a deed of an order: it is about a dependency of the graph
that was resolved, faithful to what was undertaken, and it could rely upon the
store, which was as it was before the order when the deed began. -/
theorem mem_deeds {kind : Stored φ → Prop} (ht : p.Entrusted kind legal) {w : World φ β}
    (hw : kind w.stored) {schedule : List Nat} {order : Order} (hlegal : p.Storable legal order w)
    {deed : Deed φ β} (h : deed ∈ p.deeds schedule order w) :
    ∃ u g, p.undertaking? schedule order = some u ∧ p.graph? order w = some g ∧
      g.Sound ∧ g.Bears deed.claim ∧
      deed.Faithful (p.planFor u.verb u.options u.perform) True ∧
      deed.Conducted (p.filing kind order).conduct ∧ deed.Filed w.stored.entry := by
  rcases deeds_cases ht hw schedule order with
    hnone | ⟨u, g, w', hu, hgraph, hsound, hw', hentry, hdeeds⟩
  · rw [hnone] at h
    cases h
  have hfiles := files_of_undertaking ht hu hsound (hlegal g hgraph)
  obtain ⟨horderly, hfiled⟩ := filed_crew hsound.hierarchy hsound.laden hfiles u.schedule
    (p.workersFor u.options) hw'
  rw [hdeeds] at h
  have hbears := horderly.borne.deeds deed h
  refine ⟨u, g, hu, hgraph, hsound, hbears, horderly.recorded.faithful deed h,
    horderly.conducted.deeds deed h, ?_⟩
  have hfirst := hfiled.deeds deed h
  rw [Deed.Filed, hentry _ (hbears.mem_ids hsound.hierarchy.consistent)] at hfirst
  exact hfirst

omit [FileSystem φ] in
/-- The deed on a dependency of which there is one is found by its ID. -/
theorem find?_deed {deeds : List (Deed φ β)} (hnodup : (deeds.map (·.claim.id)).Nodup)
    {deed : Deed φ β} (h : deed ∈ deeds) :
    deeds.find? (·.claim.id = deed.claim.id) = some deed := by
  cases hfind : deeds.find? (·.claim.id = deed.claim.id) with
  | none => exact absurd (decide_eq_true rfl) (List.find?_eq_none.mp hfind deed h)
  | some found =>
    have hid : found.claim.id = deed.claim.id := by simpa using List.find?_some hfind
    rw [List.inj_on_of_nodup_map hnodup (List.mem_of_find?_eq_some hfind) h hid]

/-- An order acts on a dependency once at most. -/
theorem nodup_deeds {kind : Stored φ → Prop} (ht : p.Entrusted kind legal) {w : World φ β}
    (hw : kind w.stored) (schedule : List Nat) {order : Order}
    (hlegal : p.Storable legal order w) :
    ((p.deeds schedule order w).map (·.claim.id)).Nodup := by
  rcases deeds_cases ht hw schedule order with
    hnone | ⟨u, g, w', hu, hgraph, hsound, hw', _, hdeeds⟩
  · rw [hnone]
    exact List.nodup_nil
  have hfiles := files_of_undertaking ht hu hsound (hlegal g hgraph)
  have horderly := (filed_crew hsound.hierarchy hsound.laden hfiles u.schedule
    (p.workersFor u.options) hw').1
  rw [hdeeds]
  exact horderly.nodup_deeds hsound.hierarchy hsound.laden

end Cascade.Project
