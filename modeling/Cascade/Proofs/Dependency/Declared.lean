import Cascade.Dependency.Resolve
import Cascade.Proofs.Files.Finite
import Mathlib.Logic.Relation

/-!
# What is declared

The configurations of a project and of the directories that it reaches declare
directories.  `Declares` is this relation between IDs, where the root stands for the
project.  It is all that resolving depends upon, as long as everything that can be
reached is readable and spelled in one way (`Resolvable`).
-/

namespace Cascade.Resolver

open Relation DependencyGraph

variable {φ : Type} [FileSystem φ]

/-- The directory and the configuration that an ID stands for. -/
def configOf (r : Resolver) (files : φ) (id : String) : Except Error (Path × Config) :=
  if id = rootId then do
    let root ← (FileSystem.canonical files r.root).mapError Error.other
    return (root, r.config)
  else do
    let config ← Config.loadDirectory files ⟨id⟩
    return (⟨id⟩, config)

/-- The IDs of the directories that the configuration of an ID declares, in the order of
the names.  The configuration has to make sense, and the directories have to be there. -/
def declared (r : Resolver) (files : φ) (id : String) : Except Error (List String) := do
  let (directory, config) ← r.configOf files id
  config.check
  config.dependencies.toList.mapM fun named => (·.text) <$> locate files directory named.1 named.2

/-- The IDs that an ID declares, if it can be read at all. -/
def targets (r : Resolver) (files : φ) (id : String) : List String :=
  (r.declared files id).toOption.getD []

/-- The configuration of one ID declares the directory of another one. -/
def Declares (r : Resolver) (files : φ) (id id' : String) : Prop := id' ∈ r.targets files id

/-- A chain of declarations leads from the root to an ID. -/
def Reachable (r : Resolver) (files : φ) (id : String) : Prop :=
  ReflTransGen (r.Declares files) rootId id

/-- No chain of declarations that can be reached leads from an ID to itself. -/
def NoCycle (r : Resolver) (files : φ) : Prop :=
  ∀ id, r.Reachable files id → ¬ TransGen (r.Declares files) id id

/-- All configurations that can be reached are in order, all directories that they
declare are there, and each of these has one spelling, which is not that of the root. -/
structure Resolvable (r : Resolver) (files : φ) : Prop where
  readable {id : String} : r.Reachable files id → ∃ ids, r.declared files id = .ok ids
  not_root {id : String} : r.Reachable files id → ¬ r.Declares files id rootId
  spelled {id id' : String} : r.Reachable files id → id ≠ rootId → r.Reachable files id' →
    id' ≠ rootId → (Path.mk id).components = (Path.mk id').components → id = id'

variable {r : Resolver} {files : φ}

theorem targets_of_declared {id : String} {ids : List String} (h : r.declared files id = .ok ids) :
    r.targets files id = ids := by
  rw [targets, h]
  rfl

theorem reachable_root : r.Reachable files rootId := .refl

theorem Reachable.declares {id id' : String} (h : r.Reachable files id)
    (hid : r.Declares files id id') : r.Reachable files id' := ReflTransGen.tail h hid

/-- What contains the root and all that it declares contains everything. -/
theorem Reachable.of_closed {P : String → Prop} (hroot : P rootId)
    (hclosed : ∀ id, P id → ∀ id' ∈ r.targets files id, P id') {id : String}
    (h : r.Reachable files id) : P id := by
  induction h with
  | refl => exact hroot
  | tail _ hdeclares ih => exact hclosed _ ih _ hdeclares

/-- What is declared is a canonical path. -/
theorem Declares.canonical {id id' : String} (h : r.Declares files id id') :
    ∃ p, FileSystem.canonical files p = .ok ⟨id'⟩ := by
  rw [Declares, targets] at h
  cases hdeclared : r.declared files id with
  | error e =>
    rw [hdeclared] at h
    cases h
  | ok ids =>
    rw [hdeclared] at h
    obtain ⟨⟨directory, config⟩, _, hdeclared⟩ := Failure.bind_eq_ok.mp hdeclared
    obtain ⟨_, _, hmapM⟩ := Failure.bind_eq_ok.mp hdeclared
    obtain ⟨named, _, hlocate⟩ := Failure.exists_of_mem_mapM hmapM h
    obtain ⟨path, hpath, rfl⟩ := Failure.map_eq_ok.mp hlocate
    exact ⟨_, Failure.mapError_eq_ok.mp hpath⟩

/-- A finite set holds everything that can be reached, and it has no more elements than
there are entries. -/
theorem Resolvable.exists_cover [FiniteFiles φ] (h : r.Resolvable files) :
    ∃ cover : Finset String, cover.card ≤ FileSystem.size files ∧
      ∀ id, r.Reachable files id → id ≠ rootId → id ∈ cover := by
  have hcover := Cascade.exists_cover files
    (fun id => r.Reachable files id ∧ id ≠ rootId) (fun id hid => ?_)
    fun id id' hid hid' => h.spelled hid.1 hid.2 hid'.1 hid'.2
  · obtain ⟨cover, hcard, hmem⟩ := hcover
    exact ⟨cover, hcard, fun id hid hne => hmem id ⟨hid, hne⟩⟩
  · rcases hid.1.cases_tail with heq | ⟨_, _, hdeclares⟩
    · exact absurd heq hid.2
    · exact Declares.canonical hdeclares

/-! ## Checking a project -/

/-- Whether all IDs of a list can be read, and declare no others. -/
def closed (r : Resolver) (files : φ) (ids : List String) : Bool :=
  ids.contains rootId && ids.all fun id =>
    match r.declared files id with
    | .ok children => children.all fun child => ids.contains child && child != rootId
    | .error _ => false

/-- What a list that is closed holds of an ID. -/
theorem exists_declared_of_closed {ids : List String} (h : r.closed files ids = true) {id : String}
    (hid : id ∈ ids) : ∃ children, r.declared files id = .ok children ∧
      ∀ child ∈ children, child ∈ ids ∧ child ≠ rootId := by
  have hcheck := List.all_eq_true.mp (Bool.and_eq_true_iff.mp h).2 id hid
  cases hdeclared : r.declared files id with
  | error e =>
    rw [hdeclared] at hcheck
    cases hcheck
  | ok children =>
    rw [hdeclared] at hcheck
    refine ⟨children, rfl, fun child hchild => ?_⟩
    simpa using List.all_eq_true.mp hcheck child hchild

theorem mem_of_closed {ids : List String} (h : r.closed files ids = true) {id : String}
    (hid : r.Reachable files id) : id ∈ ids := by
  refine hid.of_closed (List.contains_iff_mem.mp (Bool.and_eq_true_iff.mp h).1) ?_
  intro id hid child hchild
  obtain ⟨children, hchildren, hall⟩ := exists_declared_of_closed h hid
  rw [targets_of_declared hchildren] at hchild
  exact (hall child hchild).1

/-- A project is in order if a list of IDs is closed that are spelled apart. -/
theorem resolvable_of_closed {ids : List String} (h : r.closed files ids = true)
    (hspelled : ∀ id ∈ ids, ∀ id' ∈ ids,
      (Path.mk id).components = (Path.mk id').components → id = id') : r.Resolvable files where
  readable hid := by
    obtain ⟨children, hchildren, _⟩ := exists_declared_of_closed h (mem_of_closed h hid)
    exact ⟨children, hchildren⟩
  not_root hid hroot := by
    obtain ⟨children, hchildren, hall⟩ := exists_declared_of_closed h (mem_of_closed h hid)
    rw [Declares, targets_of_declared hchildren] at hroot
    exact (hall _ hroot).2 rfl
  spelled hid _ hid' _ heq := hspelled _ (mem_of_closed h hid) _ (mem_of_closed h hid') heq

/-- There is no cycle if what is declared always has a higher rank. -/
theorem noCycle_of_rank (rank : String → Nat) (h : ∀ id, r.Reachable files id →
    ∀ child ∈ r.targets files id, rank id < rank child) : r.NoCycle files := by
  intro id hid hcycle
  have hwalk {x : String} (hx : TransGen (r.Declares files) id x) :
      rank id < rank x ∧ r.Reachable files x := by
    induction hx with
    | single hdeclares => exact ⟨h id hid _ hdeclares, hid.declares hdeclares⟩
    | tail _ hdeclares ih => exact ⟨ih.1.trans (h _ ih.2 _ hdeclares), ih.2.declares hdeclares⟩
  exact Nat.lt_irrefl _ (hwalk hcycle).1

end Cascade.Resolver
