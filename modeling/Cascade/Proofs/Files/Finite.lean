import Cascade.Files.Memory
import Cascade.Files.Tree
import Cascade.Proofs.Failure
import Mathlib.Data.Finset.Card
import Mathlib.Data.Set.Finite.Basic

/-!
# File systems with finitely many entries

What canonical paths lead to is bounded by the size of a file system.  In
particular, there are no more directories than that which are spelled in one way
(`exists_cover`).
-/

namespace Cascade

/-- A file system whose canonical paths lead to no more entries than it has. -/
class FiniteFiles (φ : Type) [FileSystem φ] : Prop where
  bounded (files : φ) : ∃ keys : List (List String), keys.length ≤ FileSystem.size files ∧
    ∀ {p path : Path}, FileSystem.canonical files p = .ok path → path.components ∈ keys

instance : FiniteFiles MemoryFiles where
  bounded m := by
    refine ⟨m.entries.keys, Std.TreeMap.length_keys.le, fun {p path} h => ?_⟩
    change (if (m.find? p).isSome then Except.ok p else .error _) = _ at h
    split at h
    · rename_i hfound
      cases h
      exact Std.TreeMap.mem_keys.mpr (Std.TreeMap.mem_iff_isSome_getElem?.mpr hfound)
    · cases h

namespace TreeFiles

/-- What is found is an entry of the tree, or its root. -/
theorem mem_keys_of_find {t : TreeFiles} {p : Path} {followLast : Bool}
    {found : List String × TreeEntry} (h : t.find p followLast = .ok found) :
    found.1 ∈ [] :: t.entries.keys := by
  obtain ⟨located, _, h⟩ := Failure.bind_eq_ok.mp h
  cases located with
  | absent => cases h
  | present place =>
    dsimp only at h
    cases hget : t.get? place with
    | none =>
      rw [hget] at h
      cases h
    | some entry =>
      rw [hget] at h
      cases h
      rw [get?] at hget
      split at hget
      · rename_i hempty
        rw [List.isEmpty_iff.mp hempty]
        exact List.mem_cons_self ..
      · refine List.mem_cons_of_mem _ (Std.TreeMap.mem_keys.mpr ?_)
        exact Std.TreeMap.mem_iff_isSome_getElem?.mpr (by rw [hget]; rfl)

instance : FiniteFiles TreeFiles where
  bounded t := by
    refine ⟨([] :: t.entries.keys).map fun place => (pathOf place).components, ?_,
      fun {p path} h => ?_⟩
    · rw [List.length_map, List.length_cons, Std.TreeMap.length_keys]
      exact Nat.le_refl _
    · have hmap : (t.find p true).map (fun found => pathOf found.1) = .ok path :=
        Failure.mapError_eq_ok.mp h
      cases hfind : t.find p true with
      | error fault =>
        rw [hfind] at hmap
        cases hmap
      | ok found =>
        rw [hfind] at hmap
        cases hmap
        exact List.mem_map.mpr ⟨found.1, mem_keys_of_find hfind, rfl⟩

end TreeFiles

/-- IDs that lead to finitely many places, and no two of them to the same, are no more
than these. -/
theorem exists_cover_of_places (places : Finset (List String)) (good : String → Prop)
    (hplaces : ∀ id, good id → (Path.mk id).components ∈ places)
    (hapart : ∀ id id', good id → good id' →
      (Path.mk id).components = (Path.mk id').components → id = id') :
    ∃ cover : Finset String, cover.card ≤ places.card ∧ ∀ id, good id → id ∈ cover := by
  have hmaps : Set.MapsTo (fun id => (Path.mk id).components) {id | good id} places := hplaces
  have hinj : Set.InjOn (fun id => (Path.mk id).components) {id | good id} :=
    fun id hid id' hid' h => hapart id id' hid hid' h
  have hfinite : {id | good id}.Finite := Set.Finite.of_injOn hmaps hinj places.finite_toSet
  refine ⟨hfinite.toFinset, ?_, fun id hid => hfinite.mem_toFinset.mpr hid⟩
  rw [← hfinite.coe_toFinset] at hmaps hinj
  exact Finset.card_le_card_of_injOn _ hmaps hinj

/-- Canonical paths that differ in their components are no more than there are
entries. -/
theorem exists_cover {φ : Type} [FileSystem φ] [FiniteFiles φ] (files : φ) (good : String → Prop)
    (hcanonical : ∀ id, good id → ∃ p, FileSystem.canonical files p = .ok ⟨id⟩)
    (hapart : ∀ id id', good id → good id' →
      (Path.mk id).components = (Path.mk id').components → id = id') :
    ∃ cover : Finset String, cover.card ≤ FileSystem.size files ∧ ∀ id, good id → id ∈ cover := by
  obtain ⟨keys, hlength, hkeys⟩ := FiniteFiles.bounded files
  obtain ⟨cover, hcard, hcover⟩ := exists_cover_of_places keys.toFinset good
    (fun id hid => by
      obtain ⟨p, hp⟩ := hcanonical id hid
      exact List.mem_toFinset.mpr (hkeys hp)) hapart
  refine ⟨cover, ?_, hcover⟩
  calc cover.card ≤ keys.toFinset.card := hcard
    _ ≤ keys.length := List.toFinset_card_le keys
    _ ≤ FileSystem.size files := hlength

end Cascade
