import Cascade.Store.Basic
import Mathlib.Logic.Function.Basic

/-!
# What a store remembers

`Stored.entry` is the hash that can be read for an ID.  A kind of stores is
`Keeping` if it can be read at any time and if what replaces all hashes is what
is read afterwards, or nothing happens at all.  From this alone it follows what
saving, forgetting and pruning do to every entry.

Stores in memory are of such a kind.
-/

namespace Cascade.Stored

variable {φ : Type} [FileSystem φ]

/-! ## Dictionaries -/

theorem getElem?_insert_eq_update (hashes : Dictionary) (id hash : String) :
    (fun id' => (hashes.insert id hash)[id']?) =
      Function.update (fun id' => hashes[id']?) id (some hash) := by
  funext id'
  rw [Std.TreeMap.getElem?_insert, Function.update_apply]
  simp only [Std.compare_eq_iff_eq, eq_comm (a := id)]

theorem getElem?_erase_eq_update (hashes : Dictionary) (id : String) :
    (fun id' => (hashes.erase id)[id']?) = Function.update (fun id' => hashes[id']?) id none := by
  funext id'
  rw [Std.TreeMap.getElem?_erase, Function.update_apply]
  simp only [Std.compare_eq_iff_eq, eq_comm (a := id)]

theorem getElem?_restrict (hashes : Dictionary) (ids : List String) (id : String) :
    (restrict hashes ids)[id]? = if id ∈ ids then hashes[id]? else none := by
  rw [restrict, Std.TreeMap.getElem?_filter']
  cases hashes[id]? <;> simp [Option.filter]

/-- If no ID is dropped, all are among those to keep. -/
theorem restrict_of_size {hashes : Dictionary} {ids : List String}
    (h : ¬ (restrict hashes ids).size < hashes.size) {id : String} (hid : id ∉ ids) :
    hashes[id]? = none := by
  have hsize : (restrict hashes ids).size = hashes.size :=
    Nat.le_antisymm Std.TreeMap.size_filter_le_size (Nat.le_of_not_lt h)
  have hkept := Std.TreeMap.size_filter_eq_size_iff.mp hsize
  by_contra hne
  have hmem : id ∈ hashes := Std.TreeMap.mem_iff_isSome_getElem?.mpr
    (Option.isSome_iff_ne_none.mpr hne)
  have hcontains := hkept id hmem
  rw [Std.TreeMap.getKey_eq] at hcontains
  exact hid (List.contains_iff_mem.mp hcontains)

/-! ## Entries -/

/-- The hash that is stored for an ID.  What cannot be read holds none. -/
def entry (s : Stored φ) (id : String) : Option String :=
  match s.store.all s.files with
  | .ok hashes => hashes[id]?
  | .error _ => none

theorem entry_of_all {s : Stored φ} {hashes : Dictionary} (h : s.store.all s.files = .ok hashes) :
    s.entry = fun id => hashes[id]? := by
  funext id
  rw [entry, h]

/-- A kind of stores that can be read, and that keep the hashes that replace
all others if these are legal. -/
structure Keeping (kind : Stored φ → Prop) (legal : String → String → Prop) : Prop where
  readable {s : Stored φ} : kind s → ∃ hashes, s.store.all s.files = .ok hashes ∧
    ∀ id hash, hashes[id]? = some hash → legal id hash
  replace {s : Stored φ} {hashes : Dictionary} : kind s →
    (∀ id hash, hashes[id]? = some hash → legal id hash) → kind (s.replace hashes).2 ∧
      (s.replace hashes).2.entry =
        if (s.replace hashes).1.isOk then fun id => hashes[id]? else s.entry

namespace Keeping

variable {kind : Stored φ → Prop} {legal : String → String → Prop} {s : Stored φ}

/-- What is loaded is the entry. -/
theorem load (hk : Keeping kind legal) (hs : kind s) (id : String) :
    s.store.load s.files id = .ok (s.entry id) := by
  obtain ⟨hashes, hall, _⟩ := hk.readable hs
  rw [Store.load, hall, entry_of_all hall]
  rfl

/-- Saving sets one entry, or fails and sets none. -/
theorem save (hk : Keeping kind legal) (hs : kind s) {id hash : String} (hlegal : legal id hash) :
    kind (s.save id hash).2 ∧ (s.save id hash).2.entry =
      if (s.save id hash).1.isOk then Function.update s.entry id (some hash) else s.entry := by
  obtain ⟨hashes, hall, hlegals⟩ := hk.readable hs
  have hsave : s.save id hash = s.replace (hashes.insert id hash) := by
    rw [Stored.save, Stored.update, hall]
  rw [hsave, entry_of_all hall, ← getElem?_insert_eq_update, ← entry_of_all hall]
  refine hk.replace hs fun id' hash' h => ?_
  rw [Std.TreeMap.getElem?_insert] at h
  split at h
  · rename_i heq
    cases Std.LawfulEqCmp.eq_of_compare heq
    cases h
    exact hlegal
  · exact hlegals id' hash' h

/-- Forgetting drops one entry, or fails and drops none. -/
theorem remove (hk : Keeping kind legal) (hs : kind s) (id : String) :
    kind (s.remove id).2 ∧ (s.remove id).2.entry =
      if (s.remove id).1.isOk then Function.update s.entry id none else s.entry := by
  obtain ⟨hashes, hall, hlegals⟩ := hk.readable hs
  cases hcontains : hashes.contains id with
  | false =>
    have hremove : s.remove id = (.ok (), s) := by
      rw [Stored.remove, Stored.update, hall]
      simp only [hcontains, Bool.false_eq_true, if_false]
    have hnone : s.entry id = none := by
      rw [entry_of_all hall, ← Option.not_isSome_iff_eq_none,
        ← Std.TreeMap.contains_eq_isSome_getElem?, hcontains]
      decide
    rw [hremove]
    refine ⟨hs, ?_⟩
    rw [← hnone, Function.update_eq_self]
    rfl
  | true =>
    have hremove : s.remove id = s.replace (hashes.erase id) := by
      rw [Stored.remove, Stored.update, hall]
      simp only [hcontains, if_true]
    rw [hremove, entry_of_all hall, ← getElem?_erase_eq_update, ← entry_of_all hall]
    refine hk.replace hs fun id' hash' h => ?_
    rw [Std.TreeMap.getElem?_erase] at h
    split at h
    · cases h
    · exact hlegals id' hash' h

/-- Pruning drops all entries but some, or fails and drops none. -/
theorem prune (hk : Keeping kind legal) (hs : kind s) (ids : List String) :
    kind (s.prune ids).2 ∧ (s.prune ids).2.entry =
      if (s.prune ids).1.isOk then fun id => if id ∈ ids then s.entry id else none
      else s.entry := by
  obtain ⟨hashes, hall, hlegals⟩ := hk.readable hs
  have hentry : (fun id => (restrict hashes ids)[id]?) =
      fun id => if id ∈ ids then s.entry id else none := by
    funext id
    rw [getElem?_restrict, entry_of_all hall]
  by_cases hsize : (restrict hashes ids).size < hashes.size
  · have hprune : (s.prune ids).2 = (s.replace (restrict hashes ids)).2 ∧
        (s.prune ids).1.isOk = (s.replace (restrict hashes ids)).1.isOk := by
      rw [Stored.prune, hall]
      simp only [hsize, if_true]
      refine ⟨trivial, ?_⟩
      cases (s.replace (restrict hashes ids)).1 <;> rfl
    have hnew : ∀ id hash, (restrict hashes ids)[id]? = some hash → legal id hash := by
      intro id hash h
      rw [getElem?_restrict] at h
      split at h
      · exact hlegals id hash h
      · cases h
    rw [hprune.1, hprune.2, ← hentry]
    exact hk.replace hs hnew
  · have hprune : s.prune ids = (.ok [], s) := by
      rw [Stored.prune, hall]
      simp only [hsize, if_false]
    rw [hprune]
    refine ⟨hs, ?_⟩
    funext id
    by_cases hid : id ∈ ids
    · simp [Except.isOk, Except.toBool, hid]
    · simp [Except.isOk, Except.toBool, hid, entry_of_all hall, restrict_of_size hsize hid]

/-- Pruning to IDs that have all the entries does nothing. -/
theorem prune_of_entries (hk : Keeping kind legal) (hs : kind s) {ids : List String}
    (h : ∀ id, id ∉ ids → s.entry id = none) : s.prune ids = (.ok [], s) := by
  obtain ⟨hashes, hall, _⟩ := hk.readable hs
  have hsize : (restrict hashes ids).size = hashes.size := by
    refine Std.TreeMap.size_filter_eq_size_iff.mpr fun id hmem => ?_
    rw [Std.TreeMap.getKey_eq, List.contains_iff_mem]
    by_contra hid
    have hnone : hashes[id]? = none := by
      rw [← h id hid, entry_of_all hall]
    rw [Std.TreeMap.mem_iff_isSome_getElem?, hnone] at hmem
    cases hmem
  rw [Stored.prune, hall]
  simp only [hsize, Nat.lt_irrefl, if_false]

end Keeping

/-! ## Stores in memory -/

/-- A store in memory. -/
def InMemory (s : Stored φ) : Prop := ∃ hashes, s.store = .memory hashes

omit [FileSystem φ] in
theorem replace_of_inMemory [FileSystem φ] {s : Stored φ} (hs : s.InMemory) (hashes : Dictionary) :
    s.replace hashes = (.ok (), { s with store := .memory hashes }) := by
  obtain ⟨old, hold⟩ := hs
  rw [replace, hold]

/-- Stores in memory keep everything. -/
theorem keeping_inMemory : Keeping (InMemory (φ := φ)) fun _ _ => True where
  readable := by
    rintro s ⟨hashes, h⟩
    exact ⟨hashes, by rw [h]; rfl, fun _ _ _ => trivial⟩
  replace {s hashes} hs _ := by
    rw [replace_of_inMemory hs]
    exact ⟨⟨hashes, rfl⟩, rfl⟩

end Cascade.Stored
