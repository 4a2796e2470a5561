import Cascade.Proofs.Digest.Hex
import Cascade.Proofs.Run.Hashes
import Cascade.Proofs.Store.Modes

/-!
# Why a dependency is found unchanged

Building and deploying pass over a dependency whose digest is the one that is
stored.  `Successive` are rounds of orders, of any projects, over one store:
between two of them everything may change but what is stored.

The store holds one hash for each dependency, whatever has earned it.  So a
dependency that is found unchanged had the same digest in an earlier round, in
which all went well that this round asked the backend for, and no purge has
dropped the hash since.  But this round need not have asked for as much as the
later one would have: a dependency that was only built is not deployed.
-/

namespace Cascade.Project

open Run

variable {φ β : Type} [FileSystem φ]

/-! ## Rounds -/

/-- An order to a project, how its workers move, and the world in which it is
given. -/
structure Round (φ β : Type) where
  project : Project φ β
  schedule : List Nat
  order : Order
  world : World φ β

namespace Round

/-- The world that a round leaves. -/
def after (r : Round φ β) : World φ β :=
  ((r.project.carryOut r.schedule r.order).run.run r.world).2

/-- What a round has done to the dependencies. -/
def deeds (r : Round φ β) : List (Deed φ β) := r.project.deeds r.schedule r.order r.world

/-- A round on a store of a mode, which can keep hashes of all dependencies
that are resolved, and which is left to the actions on them. -/
structure On (mode : Store.Mode) (root : Path) (r : Round φ β) : Prop where
  resolves : r.project.Resolves
  obeys : r.project.Obeys (fun w => w.stored.Held mode root)
    (World.Keeps (Stored.Held mode root))
  held : r.world.stored.Held mode root
  keys : ∀ g, r.project.graph? r.order r.world = some g → ∀ id ∈ g.ids, Stored.Keeps mode id

end Round

/-- Rounds one after the other on one store, which holds given entries at
first.  Everything else may change between two of them. -/
def Successive (mode : Store.Mode) (root : Path) :
    (String → Option String) → List (Round φ β) → Prop
  | _, [] => True
  | entry, r :: rest =>
    r.On mode root ∧ r.world.stored.entry = entry ∧ Successive mode root r.after.stored.entry rest

omit [FileSystem φ] in
/-- Whether an action has to be done even if nothing has changed.  Only building
and deploying ask. -/
def Order.force? : Order → Option Bool
  | .build _ force _ => some force
  | .deploy _ flags _ => some flags.force
  | _ => none

/-- The world in which the action of a deed found its dependency unchanged, if
it did. -/
def unchangedIn (order : Order) (deed : Deed φ β) : Option (World φ β) :=
  match deed.fate, order.force? with
  | .acted (w :: _) _, some force =>
    match deed.claim.payload.prepare w.stored force with
    | .ok none => some w
    | _ => none
  | _, _ => none

/-- The action of a deed was to purge, and the store failed to forget the hash
in no world that it saw. -/
def Drops (order : Order) (deed : Deed φ β) : Prop :=
  order.purges deed = true ∧ ∀ seen result, deed.fate = .acted seen result →
    ∀ w ∈ seen, (deed.claim.payload.forgetHash w.stored).1.isOk = true

/-! ## One round -/

theorem of_unchangedIn {order : Order} {deed : Deed φ β} {w : World φ β}
    (h : unchangedIn order deed = some w) : ∃ force seen result,
      deed.fate = .acted (w :: seen) result ∧
        deed.claim.payload.prepare w.stored force = .ok none := by
  unfold unchangedIn at h
  split at h
  · rename_i w' seen result force hfate _
    split at h
    · rename_i hprepare
      cases h
      exact ⟨force, seen, result, hfate, hprepare⟩
    · cases h
  · cases h

/-- What was noted as recorded was earned. -/
theorem earned_of_note {p : Project φ β} {kind : Stored φ → Prop} {order : Order}
    {deed : Deed φ β} {hash : String}
    (h : (deed.note (p.filing kind order)).2 = some (some hash)) :
    p.earned order deed = some hash := by
  obtain ⟨claim, fate⟩ := deed
  cases fate with
  | passed => cases h
  | stopped e => cases h
  | acted seen result =>
    change p.mark order claim.payload seen = some (some hash) at h
    cases order with
    | build selection force workers =>
      obtain ⟨hash', hrecorded, heq⟩ := Option.map_eq_some_iff.mp h
      cases heq
      exact Action.earned_of_recorded hrecorded
    | deploy selection flags workers =>
      obtain ⟨hash', hrecorded, heq⟩ := Option.map_eq_some_iff.mp h
      cases heq
      exact Action.earned_of_recorded hrecorded
    | purge skip only verbose => cases Action.eq_none_of_forgotten h
    | _ => cases h

/-- What was to be dropped is noted as dropped. -/
theorem note_of_drops {p : Project φ β} {kind : Stored φ → Prop} {order : Order}
    {deed : Deed φ β} {schedule : List Nat} {u : Undertaking φ β}
    (hu : p.undertaking? schedule order = some u)
    (hfaithful : deed.Faithful (p.planFor u.verb u.options u.perform) True)
    (h : Drops order deed) : (deed.note (p.filing kind order)).2 = some none := by
  obtain ⟨claim, fate⟩ := deed
  obtain ⟨hpurges, hforget⟩ := h
  cases order with
  | purge skip only verbose =>
    cases fate with
    | acted seen result =>
      cases hu
      obtain ⟨_, journal, hdone⟩ := hfaithful
      exact Action.forgotten_of_done hdone (hforget seen result rfl)
    | _ => cases hpurges
  | _ => cases fate <;> cases hpurges

omit [FileSystem φ] in
theorem eq_some_of_refreshed {update : Bool} {graph : Option DependencyGraph}
    {entry : String → Option String} {id hash : String}
    (h : refreshed update graph entry id = some hash) : entry id = some hash := by
  unfold refreshed at h
  split at h
  · split at h
    · cases h
    · exact h
  · exact h

/-- A store that can keep the IDs of what is resolved can keep the digests. -/
theorem storable_of_keeps {mode : Store.Mode} {p : Project φ β} {order : Order} {w : World φ β}
    (hkeys : ∀ g, p.graph? order w = some g → ∀ id ∈ g.ids, Stored.Keeps mode id) :
    p.Storable (Stored.Storable mode) order w := by
  intro g hg id hid d files hash hhash
  have hkey := hkeys g hg id hid
  cases mode with
  | memory => trivial
  | file => exact ⟨hkey, d.isHash_directoryHash hhash⟩

namespace Round

variable [LawfulFiles φ] {mode : Store.Mode} {root : Path} {r : Round φ β}

theorem On.entrusted (hr : r.On mode root) :
    r.project.Entrusted (Stored.Held mode root) (Stored.Storable mode) :=
  ⟨Stored.keeping_held mode root, hr.resolves, hr.obeys⟩

omit [LawfulFiles φ] in
theorem On.storable (hr : r.On mode root) :
    r.project.Storable (Stored.Storable mode) r.order r.world :=
  storable_of_keeps hr.keys

theorem On.held_after (hr : r.On mode root) : r.after.stored.Held mode root :=
  (entry_carryOut hr.entrusted hr.held r.schedule hr.storable).1

/-- What is stored after a round was earned in it, or was stored before it and
not dropped in it. -/
theorem On.entry_cases (hr : r.On mode root) {id hash : String}
    (h : r.after.stored.entry id = some hash) :
    (∃ deed ∈ r.deeds, deed.claim.id = id ∧ r.project.earned r.order deed = some hash) ∨
    r.world.stored.entry id = some hash ∧
      ∀ deed ∈ r.deeds, deed.claim.id = id → ¬ Drops r.order deed := by
  have hentry := (entry_carryOut hr.entrusted hr.held r.schedule hr.storable).2 id
  rw [after, hentry] at h
  cases hfind : r.deeds.find? (·.claim.id = id) with
  | none =>
    rw [show (r.project.deeds r.schedule r.order r.world).find? (·.claim.id = id) = none
      from hfind] at h
    refine Or.inr ⟨eq_some_of_refreshed h, fun deed hdeed hid => ?_⟩
    exact absurd (decide_eq_true hid) (List.find?_eq_none.mp hfind deed hdeed)
  | some deed =>
    rw [show (r.project.deeds r.schedule r.order r.world).find? (·.claim.id = id) = some deed
      from hfind, Option.bind_some] at h
    have hdeed := List.mem_of_find?_eq_some hfind
    have hid : deed.claim.id = id := by simpa using List.find?_some hfind
    cases hnote : (deed.note (r.project.filing (Stored.Held mode root) r.order)).2 with
    | some value =>
      rw [hnote] at h
      obtain rfl : value = some hash := h
      exact Or.inl ⟨deed, hdeed, hid, earned_of_note hnote⟩
    | none =>
      rw [hnote] at h
      refine Or.inr ⟨eq_some_of_refreshed h, fun deed' hdeed' hid' hdrops => ?_⟩
      -- there is one deed on the dependency, and it has dropped nothing
      have hsame := find?_deed (nodup_deeds hr.entrusted hr.held r.schedule hr.storable) hdeed'
      rw [hid'] at hsame
      obtain rfl : deed = deed' := Option.some.inj (hfind.symm.trans hsame)
      obtain ⟨u, g, hu, _, _, _, hfaithful, _⟩ :=
        mem_deeds hr.entrusted hr.held hr.storable hdeed
      rw [note_of_drops hu hfaithful hdrops] at hnote
      cases hnote

/-- A dependency that is found unchanged has the digest that was stored before
the round. -/
theorem On.entry_of_unchanged (hr : r.On mode root) {deed : Deed φ β} (hdeed : deed ∈ r.deeds)
    {w : World φ β} (h : unchangedIn r.order deed = some w) :
    ∃ hash, deed.claim.payload.directoryHash w.stored.files = .ok hash ∧
      r.world.stored.entry deed.claim.id = some hash := by
  obtain ⟨u, g, _, _, hsound, hbears, _, hconducted, hfiled⟩ :=
    mem_deeds hr.entrusted hr.held hr.storable hdeed
  obtain ⟨force, seen, result, hfate, hprepare⟩ := of_unchangedIn h
  obtain ⟨hash, hdigest, hload⟩ := Action.prepare_eq_none hprepare
  refine ⟨hash, hdigest, ?_⟩
  rw [Deed.Conducted, hfate] at hconducted
  rw [Deed.Filed, hfate] at hfiled
  have hentry := hr.entrusted.keeping.load (hconducted.1 w (List.mem_cons_self ..))
    deed.claim.payload.id
  rw [hload, (hsound.located _ hbears.carries).1, hfiled w rfl, Except.ok.injEq] at hentry
  exact hentry.symm

/-- In memory, every purge drops the hash. -/
theorem On.drops_iff (hr : r.On .memory root) {deed : Deed φ β} (hdeed : deed ∈ r.deeds) :
    Drops r.order deed ↔ r.order.purges deed = true := by
  refine ⟨And.left, fun hpurges => ⟨hpurges, fun seen result hfate w hw => ?_⟩⟩
  obtain ⟨_, _, _, _, _, _, _, hconducted, _⟩ := mem_deeds hr.entrusted hr.held hr.storable hdeed
  rw [Deed.Conducted, hfate] at hconducted
  exact forgetHash_of_inMemory (hconducted.1 w hw) deed.claim.payload

end Round

/-! ## All rounds -/

variable [LawfulFiles φ] {mode : Store.Mode} {root : Path}

omit [LawfulFiles φ] in
theorem on_of_successive {entry : String → Option String} {pre post : List (Round φ β)}
    {r : Round φ β} (hs : Successive mode root entry (pre ++ r :: post)) : r.On mode root := by
  induction pre generalizing entry with
  | nil => exact hs.1
  | cons r₀ pre ih => exact ih hs.2.2

/-- What is stored when a round begins was stored at first, or was earned in an
earlier round, and no round since has dropped it. -/
theorem entry_of_successive {entry : String → Option String} {pre post : List (Round φ β)}
    {r : Round φ β} (hs : Successive mode root entry (pre ++ r :: post)) {id hash : String}
    (h : r.world.stored.entry id = some hash) :
    (entry id = some hash ∧
      ∀ r' ∈ pre, ∀ deed ∈ r'.deeds, deed.claim.id = id → ¬ Drops r'.order deed) ∨
    ∃ earlier r₀ between, pre = earlier ++ r₀ :: between ∧
      (∃ deed ∈ r₀.deeds, deed.claim.id = id ∧ r₀.project.earned r₀.order deed = some hash) ∧
      ∀ r' ∈ between, ∀ deed ∈ r'.deeds, deed.claim.id = id → ¬ Drops r'.order deed := by
  induction pre generalizing entry with
  | nil =>
    refine Or.inl ⟨?_, List.forall_mem_nil _⟩
    rw [← hs.2.1]
    exact h
  | cons r₀ pre ih =>
    obtain ⟨hr₀, hentry, hrest⟩ := hs
    rcases ih hrest with ⟨hstored, hkept⟩ | ⟨earlier, r₁, between, rfl, hearned, hkept⟩
    · rcases hr₀.entry_cases hstored with hearned | ⟨hbefore, hkept₀⟩
      · exact Or.inr ⟨[], r₀, pre, rfl, hearned, hkept⟩
      · refine Or.inl ⟨hentry ▸ hbefore, fun r' hr' => ?_⟩
        rcases List.mem_cons.mp hr' with rfl | hr'
        · exact hkept₀
        · exact hkept r' hr'
    · exact Or.inr ⟨r₀ :: earlier, r₁, between, rfl, hearned, hkept⟩

/-- A dependency that is found unchanged has a digest that was earned in an
earlier round: the directory had the same digest then, and all went well that
this round asked the backend for.  No purge since could drop it. -/
theorem unchanged_earned {pre post : List (Round φ β)} {r : Round φ β}
    (hs : Successive mode root (fun _ => none) (pre ++ r :: post)) {deed : Deed φ β}
    (hdeed : deed ∈ r.deeds) {w : World φ β} (h : unchangedIn r.order deed = some w) :
    ∃ hash, deed.claim.payload.directoryHash w.stored.files = .ok hash ∧
      ∃ earlier r₀ between, pre = earlier ++ r₀ :: between ∧
        (∃ deed₀ ∈ r₀.deeds, deed₀.claim.id = deed.claim.id ∧
          r₀.project.earned r₀.order deed₀ = some hash) ∧
        ∀ r' ∈ between, ∀ deed' ∈ r'.deeds, deed'.claim.id = deed.claim.id →
          ¬ Drops r'.order deed' := by
  obtain ⟨hash, hdigest, hentry⟩ := (on_of_successive hs).entry_of_unchanged hdeed h
  refine ⟨hash, hdigest, ?_⟩
  rcases entry_of_successive hs hentry with ⟨hnone, _⟩ | hearlier
  · cases hnone
  · exact hearlier

/-! ## Rounds that do not ask for the same -/

/-- Note a call to the backend. -/
def noted {α : Type} (call : String) (answer : α) : Task MemoryFiles (List String) α :=
  .atomic fun w => (.ok answer, { w with outside := w.outside ++ [call] })

/-- A project whose backend notes which calls it gets. -/
def noting (dependencies : List (String × Declaration)) : Project MemoryFiles (List String) where
  config := { Config.empty with dependencies := Std.TreeMap.ofList dependencies }
  resolve := (Resolver.mk ⟨"/"⟩
    { Config.empty with dependencies := Std.TreeMap.ofList dependencies } false).resolve
  backend := ⟨fun d => noted ("build " ++ d.name) ∅, fun d _ => noted ("deploy " ++ d.name) (),
    fun d _ => noted ("render " ++ d.name) "", fun d => noted ("purge " ++ d.name) (),
    fun d _ _ => noted ("command " ++ d.name) ()⟩
  hooks := .none
  sink _ := pure ()
  processors := 1

/-- Some empty directories, and a store. -/
def emptyDirectories (paths : List String) (store : Store) : World MemoryFiles (List String) :=
  ⟨⟨paths.foldl (fun files path => files.addDirectory ⟨path⟩) .empty, store⟩, [], ∅, [], []⟩

/-- Handle some dependencies, or all. -/
def selecting (names : List String) : Selection := ⟨[], names, false, false⟩

/-- Build the one dependency. -/
def buildFirst : Round MemoryFiles (List String) :=
  ⟨noting [("x", ⟨"/x", false, []⟩)], [], .build (selecting []) false 1,
    emptyDirectories ["/x"] (.memory ∅)⟩

/-- Deploy it when it was built. -/
def deployThen : Round MemoryFiles (List String) :=
  ⟨noting [("x", ⟨"/x", false, []⟩)], [], .deploy (selecting []) ⟨false, false, false, false⟩ 1,
    buildFirst.after⟩

/-- Deploy the one dependency without building it. -/
def deployFirst : Round MemoryFiles (List String) :=
  ⟨noting [("x", ⟨"/x", false, []⟩)], [], .deploy (selecting []) ⟨false, true, false, false⟩ 1,
    emptyDirectories ["/x"] (.memory ∅)⟩

/-- Build it when it was deployed. -/
def buildThen : Round MemoryFiles (List String) :=
  ⟨noting [("x", ⟨"/x", false, []⟩)], [], .build (selecting []) false 1, deployFirst.after⟩

/-- Build a dependency whose ID does not fit on a line. -/
def buildTwoLines : Round MemoryFiles (List String) :=
  ⟨noting [("x", ⟨"/x\n/y", false, []⟩), ("y", ⟨"/y", false, []⟩)], [],
    .build (selecting ["x"]) false 1, emptyDirectories ["/x\n/y", "/y"] (.file ⟨"/"⟩)⟩

/-- Build the dependency whose ID is the second line. -/
def buildSecondLine : Round MemoryFiles (List String) :=
  ⟨noting [("x", ⟨"/x\n/y", false, []⟩), ("y", ⟨"/y", false, []⟩)], [],
    .build (selecting ["y"]) false 1, buildTwoLines.after⟩

/-- The dependencies that a round finds unchanged. -/
def Round.unchanged (r : Round φ β) : List String :=
  (r.deeds.filter fun deed => (unchangedIn r.order deed).isSome).map (·.claim.id)

/-- What was only built is not deployed, and what was only deployed is not built:
the later round finds it unchanged, and all calls of both rounds are those of
the earlier one.  In a file, a dependency is even found unchanged for another
one of which only the ID has it on its second line. -/
theorem passed_over :
    (deployThen.unchanged = ["/x"] ∧ deployThen.after.outside = ["build x"]) ∧
    (buildThen.unchanged = ["/x"] ∧ buildThen.after.outside = ["deploy x"]) ∧
    buildSecondLine.unchanged = ["/y"] ∧ buildSecondLine.after.outside = ["build x"] := by
  decide +kernel

theorem obeys_noting {kind : Stored MemoryFiles → Prop}
    (dependencies : List (String × Declaration)) :
    (noting dependencies).Obeys (fun w => kind w.stored) (World.Keeps kind) := by
  have hnoted {α : Type} (call : String) (answer : α) :
      (noted call answer).Obeys (fun w => kind w.stored) (World.Keeps kind) :=
    Task.obeys_atomic fun _ hw => ⟨hw, rfl⟩
  exact ⟨⟨fun _ => hnoted _ _, fun _ _ => hnoted _ _, fun _ _ => hnoted _ _, fun _ => hnoted _ _,
    fun _ _ _ => hnoted _ _⟩, fun _ _ _ => trivial, fun _ => trivial⟩

/-- Whoever deploys what was built finds it unchanged because building has
earned its digest. -/
theorem unchanged_earned_built :
    ∃ hash, ∃ deed ∈ buildFirst.deeds, deed.claim.id = "/x" ∧
      buildFirst.project.earned buildFirst.order deed = some hash := by
  have hfirst : buildFirst.On .memory ⟨"/"⟩ :=
    ⟨⟨_, _, rfl⟩, obeys_noting _, ⟨_, rfl⟩, fun _ _ _ _ => trivial⟩
  have hthen : deployThen.On .memory ⟨"/"⟩ :=
    ⟨⟨_, _, rfl⟩, obeys_noting _, hfirst.held_after, fun _ _ _ _ => trivial⟩
  have hempty : buildFirst.world.stored.entry = fun _ => none := by
    have hall : buildFirst.world.stored.store.all buildFirst.world.stored.files =
        .ok (∅ : Dictionary) := rfl
    rw [Stored.entry_of_all hall]
    exact funext fun _ => Std.TreeMap.getElem?_emptyc
  have hsuccessive : Successive .memory ⟨"/"⟩ (fun _ => none) ([buildFirst] ++ deployThen :: []) :=
    ⟨hfirst, hempty, hthen, rfl, trivial⟩
  have hunchanged : deployThen.unchanged = ["/x"] := by decide +kernel
  obtain ⟨deed, hdeed, hid⟩ := List.mem_map.mp (hunchanged ▸ List.mem_singleton_self "/x")
  obtain ⟨hdeed, hsome⟩ := List.mem_filter.mp hdeed
  obtain ⟨w, hw⟩ := Option.isSome_iff_exists.mp hsome
  obtain ⟨hash, _, earlier, r₀, between, hpre, ⟨deed₀, hdeed₀, hid₀, hearned⟩, _⟩ :=
    unchanged_earned hsuccessive hdeed hw
  obtain ⟨rfl, rfl, rfl⟩ : earlier = [] ∧ buildFirst = r₀ ∧ between = [] := by
    cases earlier with
    | nil => simpa using hpre
    | cons r earlier => simp at hpre
  exact ⟨hash, deed₀, hdeed₀, hid₀.trans hid, hearned⟩

end Cascade.Project
