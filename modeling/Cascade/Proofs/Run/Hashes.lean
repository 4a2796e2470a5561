import Cascade.Files.Memory
import Cascade.Proofs.Run.Order

/-!
# What a run does to the hashes in memory

A store in memory never fails, so nothing but the deeds of an order decides
what it holds afterwards.  A deed of building or deploying may have *earned* a
hash: the digest that was taken before the backend was called, if there was
something to do and all calls succeeded.  A deed of purging drops the hash,
whatever the backend has answered.  This is all that happens, whatever hooks and
backend do and in whatever order the workers move.
-/

namespace Cascade.Project

open Run

variable {φ β : Type} [FileSystem φ]

/-- The hash that the action of a deed has earned. -/
def earned (p : Project φ β) (order : Order) (deed : Deed φ β) : Option String :=
  match deed.fate with
  | .acted seen _ =>
    let d := deed.claim.payload
    match order with
    | .build selection force _ =>
      Action.earned d force (Action.buildCalls p.backend d) (.new d.name selection.verbose) seen
    | .deploy selection flags _ =>
      Action.earned d flags.force (Action.deployCalls p.backend flags d)
        (.new d.name selection.verbose) seen
    | _ => none
  | _ => none

omit [FileSystem φ] in
/-- Whether the action of a deed was to purge. -/
def Order.purges (order : Order) (deed : Deed φ β) : Bool :=
  match order, deed.fate with
  | .purge .., .acted .. => true
  | _, _ => false

variable {p : Project φ β}

/-- What leaves the store as it is keeps its entries if it is in memory. -/
theorem keeps_of_store {w w' : World φ β} (hw : w.stored.InMemory)
    (h : w'.stored.store = w.stored.store) : World.Keeps Stored.InMemory w w' := by
  obtain ⟨hashes, hhashes⟩ := hw
  refine ⟨⟨hashes, h.trans hhashes⟩, ?_⟩
  have hall : w.stored.store.all w.stored.files = .ok hashes := by rw [hhashes]; rfl
  have hall' : w'.stored.store.all w'.stored.files = .ok hashes := by rw [h, hhashes]; rfl
  rw [Stored.entry_of_all hall, Stored.entry_of_all hall']

/-- A store in memory takes every hash. -/
theorem recordHash_of_inMemory {s : Stored φ} (hs : s.InMemory) (d : Dependency) (hash : String) :
    (d.recordHash hash s).1.isOk = true := by
  have hok : (d.recordHash hash s).1.isOk = (s.save d.id hash).1.isOk := Failure.isOk_mapError ..
  obtain ⟨hashes, hhashes⟩ := hs
  rw [hok, Stored.save, Stored.update, hhashes]
  dsimp only [Store.all]
  rw [Stored.replace_of_inMemory ⟨hashes, hhashes⟩]
  rfl

/-- A store in memory forgets every hash. -/
theorem forgetHash_of_inMemory {s : Stored φ} (hs : s.InMemory) (d : Dependency) :
    (d.forgetHash s).1.isOk = true := by
  have hok : (d.forgetHash s).1.isOk = (s.remove d.id).1.isOk := Failure.isOk_mapError ..
  obtain ⟨hashes, hhashes⟩ := hs
  rw [hok, Stored.remove, Stored.update, hhashes]
  dsimp only [Store.all]
  cases hashes.contains d.id with
  | false => rfl
  | true =>
    simp only [if_true]
    rw [Stored.replace_of_inMemory ⟨hashes, hhashes⟩]
    rfl

/-- Any project that leaves the store alone may be entrusted with one in memory. -/
theorem entrusted_inMemory (hresolves : p.Resolves)
    (hp : p.Obeys (fun _ => True) fun w w' => w'.stored.store = w.stored.store) :
    p.Entrusted Stored.InMemory fun _ _ => True where
  keeping := Stored.keeping_inMemory
  resolves := hresolves
  obeys := hp.mono (fun _ _ => trivial) fun _ _ hw h => keeps_of_store hw h

/-- What is done to an entry in memory is what its deed has earned, or what
purging does. -/
theorem note_of_deed (ht : p.Entrusted Stored.InMemory fun _ _ => True) {w : World φ β}
    (hw : w.stored.InMemory) {schedule : List Nat} {order : Order} {deed : Deed φ β}
    (h : deed ∈ p.deeds schedule order w) :
    (deed.note (p.filing Stored.InMemory order)).2 =
      if order.purges deed then some none else (p.earned order deed).map some := by
  obtain ⟨u, g, hu, _, _, _, hfaithful, hconducted, _⟩ :=
    mem_deeds ht hw (fun _ _ _ _ _ _ _ _ => trivial) h
  obtain ⟨claim, fate⟩ := deed
  cases fate with
  | passed => cases order <;> rfl
  | stopped e => cases order <;> rfl
  | acted seen result =>
    obtain ⟨_, journal, hdone⟩ := hfaithful
    have hrecord : ∀ w ∈ seen, ∀ hash, (claim.payload.recordHash hash w.stored).1.isOk = true :=
      fun w hmem hash => recordHash_of_inMemory (hconducted.1 w hmem) claim.payload hash
    cases order with
    | update => cases hu
    | build selection force workers =>
      cases hu
      exact congrArg (Option.map some) (Action.recorded_of_done hdone hrecord)
    | deploy selection flags workers =>
      cases hu
      have hdone' : ((Action.deploy p.backend flags claim.payload).run.run
          (.new claim.payload.name selection.verbose)).after seen =
            some (.done (result, journal)) := hdone
      rw [Action.deploy_eq] at hdone'
      exact congrArg (Option.map some) (Action.recorded_of_done hdone' hrecord)
    | purge skip only verbose =>
      cases hu
      exact Action.forgotten_of_done hdone fun w hmem =>
        forgetHash_of_inMemory (hconducted.1 w hmem) claim.payload
    | render | resolve | command => rfl

/-- What any order does to a store in memory, whatever backend and hooks do and
however the workers move.  A dependency that was purged has no hash any more.
One that was built or deployed has the hash that this has earned, if it has, and
otherwise the one that it had before.  Everything else is left, unless the order
resolved the dependencies anew and this is none of them any more. -/
theorem hashes_carryOut (p : Project φ β) (hresolves : p.Resolves)
    (hp : p.Obeys (fun _ => True) fun w w' => w'.stored.store = w.stored.store)
    (schedule : List Nat) (order : Order) (w : World φ β) {hashes : Dictionary}
    (hw : w.stored.store = .memory hashes) :
    ∃ hashes', ((p.carryOut schedule order).run.run w).2.stored.store = .memory hashes' ∧
      (∀ deed ∈ p.deeds schedule order w, hashes'[deed.claim.id]? =
        if order.purges deed then none
        else (p.earned order deed).or hashes[deed.claim.id]?) ∧
      ∀ id, id ∉ (p.deeds schedule order w).map (·.claim.id) →
        hashes'[id]? = refreshed order.updates (p.graph? order w) (fun id => hashes[id]?) id := by
  have ht := entrusted_inMemory hresolves hp
  have hlegal : p.Storable (fun _ _ => True) order w := fun _ _ _ _ _ _ _ _ => trivial
  obtain ⟨⟨hashes', hstore⟩, hentries⟩ := entry_carryOut ht ⟨hashes, hw⟩ schedule hlegal
  have hentry : w.stored.entry = fun id => hashes[id]? :=
    Stored.entry_of_all (by rw [hw]; rfl)
  have hentry' : ((p.carryOut schedule order).run.run w).2.stored.entry =
      fun id => hashes'[id]? := Stored.entry_of_all (by rw [hstore]; rfl)
  rw [hentry, hentry'] at hentries
  refine ⟨hashes', hstore, fun deed hdeed => ?_, fun id hid => ?_⟩
  · -- the deed is the one that is found, and its dependency is in the graph
    obtain ⟨u, g, _, hgraph, hsound, hbears, _⟩ := mem_deeds ht ⟨hashes, hw⟩ hlegal hdeed
    have hmem := hbears.mem_ids hsound.hierarchy.consistent
    have hfind := find?_deed (nodup_deeds ht ⟨hashes, hw⟩ schedule hlegal) hdeed
    have hid := hentries deed.claim.id
    rw [hfind, Option.bind_some, note_of_deed ht ⟨hashes, hw⟩ hdeed, hgraph] at hid
    have hrefreshed : refreshed order.updates (some g) (fun id => hashes[id]?) deed.claim.id =
        hashes[deed.claim.id]? := by simp [refreshed, hmem]
    rw [hrefreshed] at hid
    refine hid.trans ?_
    cases order.purges deed with
    | true => rfl
    | false => cases p.earned order deed <;> rfl
  · have hfind : (p.deeds schedule order w).find? (·.claim.id = id) = none := by
      refine List.find?_eq_none.mpr fun deed hdeed hsame => hid ?_
      exact List.mem_map.mpr ⟨deed, hdeed, of_decide_eq_true hsame⟩
    have hid := hentries id
    rw [hfind] at hid
    exact hid

/-! ## An application that cannot be built -/

/-- The declarations of an application and a library. -/
def appAndLib : Config :=
  { Config.empty with
    dependencies := Std.TreeMap.ofList [("app", Declaration.mk "/app" false []),
      ("lib", Declaration.mk "/lib" false [])] }

/-- A project that declares an application and a library, of which only the
library can be built. -/
def halfBuilt : Project MemoryFiles Unit where
  config := appAndLib
  resolve := (Resolver.mk ⟨"/"⟩ appAndLib false).resolve
  backend := ⟨fun d => if d.name = "app" then throw (.other (.ofText "broken")) else pure ∅,
    fun _ _ => pure (), fun _ _ => pure "", fun _ => pure (), fun _ _ _ => pure ()⟩
  hooks := .none
  sink _ := pure ()
  processors := 1

/-- What is stored of the application, the library and a third directory. -/
def halfBuiltHashes : Dictionary :=
  Std.TreeMap.ofList [("/app", "a"), ("/lib", "b"), ("/old", "c")]

/-- Its directories are empty, and there is a hash of a third one. -/
def halfBuiltWorld : World MemoryFiles Unit where
  stored := ⟨(MemoryFiles.empty.addDirectory ⟨"/app"⟩).addDirectory ⟨"/lib"⟩,
    .memory halfBuiltHashes⟩
  log := []
  images := ∅
  started := []
  outside := ()

/-- Build everything that has changed, and drop the hashes of what is not a
dependency any more. -/
def rebuild : Order := .build ⟨[], [], true, false⟩ false 2

theorem obeys_halfBuilt :
    halfBuilt.Obeys (fun _ => True) fun w w' => w'.stored.store = w.stored.store where
  backend := {
    build := fun d => by
      show (if d.name = "app" then throw (.other (.ofText "broken")) else pure ∅ :
        Task MemoryFiles Unit Dictionary).Obeys _ _
      split
      · exact fun _ => trivial
      · exact Task.obeys_pure _
    deploy := fun _ _ => Task.obeys_pure _
    render := fun _ _ => Task.obeys_pure _
    purge := fun _ => Task.obeys_pure _
    command := fun _ _ _ => Task.obeys_pure _ }
  hooks _ _ _ := trivial
  sink _ := trivial

/-- The library gets the hash of an empty directory, the application keeps the
one that it had, and the third hash is dropped. -/
theorem hashes_carryOut_halfBuilt : ∃ hashes',
    ((halfBuilt.carryOut [0, 1] rebuild).run.run halfBuiltWorld).2.stored.store = .memory hashes' ∧
      hashes'["/app"]? = some "a" ∧ hashes'["/lib"]? =
        some "af1349b9f5f9a1a6a0404dea36dcc9499bcb25c9adc112b7cc9a93cae41f3262" ∧
      hashes'["/old"]? = none := by
  obtain ⟨hashes', hstore, hdeeds, hothers⟩ := hashes_carryOut halfBuilt ⟨_, _, rfl⟩
    obeys_halfBuilt [0, 1] rebuild halfBuiltWorld rfl
  have hdone : ((halfBuilt.deeds [0, 1] rebuild halfBuiltWorld).map fun deed =>
      (deed.claim.id, rebuild.purges deed, halfBuilt.earned rebuild deed)) =
        [("/app", false, none), ("/lib", false,
          some "af1349b9f5f9a1a6a0404dea36dcc9499bcb25c9adc112b7cc9a93cae41f3262")] := by
    decide +kernel
  refine ⟨hashes', hstore, ?_⟩
  have hentry : ∀ q ∈ (halfBuilt.deeds [0, 1] rebuild halfBuiltWorld).map fun deed =>
      (deed.claim.id, rebuild.purges deed, halfBuilt.earned rebuild deed),
      hashes'[q.1]? = if q.2.1 then none else q.2.2.or halfBuiltHashes[q.1]? :=
    List.forall_mem_map.mpr hdeeds
  rw [hdone] at hentry
  refine ⟨(hentry _ (.head _)).trans (by decide +kernel), hentry _ (.tail _ (.head _)),
    (hothers "/old" ?_).trans (by decide +kernel)⟩
  have hids := congrArg (List.map (·.1)) hdone
  rw [List.map_map] at hids
  exact hids ▸ by decide

end Cascade.Project
