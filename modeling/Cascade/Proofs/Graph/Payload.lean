import Cascade.Proofs.Graph.Removal
import Cascade.Traversal.Basic

/-!
# The payloads of a graph

`Graph.Bears` says that a claim is on a node other than the root: the node has
its ID and carries its payload.  `modifyPayload` changes what one node carries, and nothing else
about a graph, so that it keeps a hierarchy.
-/

namespace Cascade.Graph

variable {α : Type}

/-! ## Claims on nodes -/

/-- The claim is on a node of the graph. -/
def Bears (g : Graph α) (claim : Claim α) : Prop :=
  ∃ q b, q ≠ root ∧ g.bare? q = some b ∧ b.id = claim.id ∧ b.payload = some claim.payload

/-- Some node, if only the root, has the ID of the claim and carries its
payload. -/
def Carries (g : Graph α) (claim : Claim α) : Prop :=
  ∃ q b, g.bare? q = some b ∧ b.id = claim.id ∧ b.payload = some claim.payload

theorem Bears.carries {g : Graph α} {claim : Claim α} (h : g.Bears claim) : g.Carries claim := by
  obtain ⟨q, b, _, hb⟩ := h
  exact ⟨q, b, hb⟩

/-- A claim on a node that is left is one on a node of the beginning. -/
theorem Remnant.bears {g₀ g : Graph α} (h : g₀.Remnant g) {claim : Claim α}
    (hb : g.Bears claim) : g₀.Bears claim := by
  obtain ⟨q, b, hq, hbare, hid, hpayload⟩ := hb
  exact ⟨q, b, hq, h.bare? hbare, hid, hpayload⟩

theorem Bears.mem_ids {g : Graph α} (hg : g.Consistent) {claim : Claim α} (h : g.Bears claim) :
    claim.id ∈ g.ids := by
  obtain ⟨q, b, hq, hbare, hid, _⟩ := h
  refine hg.mem_ids.mpr ⟨q, hq, ?_⟩
  rw [idAt?, hbare, Option.map_some, hid]

/-- A node bears one claim. -/
theorem Bears.unique {g : Graph α} (hg : g.Consistent) {claim claim' : Claim α}
    (h : g.Bears claim) (h' : g.Bears claim') (hid : claim.id = claim'.id) : claim = claim' := by
  obtain ⟨q, b, _, hbare, hbid, hpayload⟩ := h
  obtain ⟨q', b', _, hbare', hbid', hpayload'⟩ := h'
  have hat : g.idAt? q = some claim.id := by rw [idAt?, hbare, Option.map_some, hbid]
  have hat' : g.idAt? q' = some claim.id := by rw [idAt?, hbare', Option.map_some, hbid', hid]
  have hq := hg.position_unique hat hat'
  subst hq
  rw [hbare] at hbare'
  cases hbare'
  rw [hpayload] at hpayload'
  cases claim
  cases claim'
  cases hpayload'
  cases hid
  rfl

/-! ## Changing a payload -/

/-- What `modifyPayload` does to the node at a position. -/
theorem node?_modifyPayload (g : Graph α) (id : String) (f : α → α) (q : Nat) :
    (g.modifyPayload id f).node? q = (g.node? q).map fun n =>
      if g.position? id = some q then { n with payload := n.payload.map f } else n := by
  rw [modifyPayload]
  cases g.position? id with
  | none => simp
  | some p =>
    simp only [node?_modifyAt, Option.some.injEq]
    cases g.node? q <;> split <;> rfl

theorem bare?_modifyPayload (g : Graph α) (id : String) (f : α → α) (q : Nat) :
    (g.modifyPayload id f).bare? q = (g.bare? q).map fun b =>
      if g.position? id = some q then { b with payload := b.payload.map f } else b := by
  rw [bare?, bare?, node?_modifyPayload]
  cases g.node? q with
  | none => rfl
  | some n =>
    simp only [Option.map_some]
    split <;> rfl

@[simp]
theorem idAt?_modifyPayload (g : Graph α) (id : String) (f : α → α) (q : Nat) :
    (g.modifyPayload id f).idAt? q = g.idAt? q := by
  rw [idAt?, idAt?, bare?_modifyPayload]
  cases g.bare? q with
  | none => rfl
  | some b =>
    simp only [Option.map_some]
    split <;> rfl

theorem occupied_modifyPayload (g : Graph α) (id : String) (f : α → α) (q : Nat) :
    (g.modifyPayload id f).Occupied q ↔ g.Occupied q := by
  rw [Occupied, Occupied, bare?_modifyPayload, Option.isSome_map]

@[simp]
theorem position?_modifyPayload (g : Graph α) (id : String) (f : α → α) (id' : String) :
    (g.modifyPayload id f).position? id' = g.position? id' := by
  rw [modifyPayload]
  split <;> rfl

@[simp]
theorem childrenOf_modifyPayload (g : Graph α) (id : String) (f : α → α) (q : Nat) :
    (g.modifyPayload id f).childrenOf q = g.childrenOf q := by
  rw [childrenOf, childrenOf, node?_modifyPayload]
  cases g.node? q with
  | none => rfl
  | some n =>
    simp only [Option.map_some]
    split <;> rfl

@[simp]
theorem parentsOf_modifyPayload (g : Graph α) (id : String) (f : α → α) (q : Nat) :
    (g.modifyPayload id f).parentsOf q = g.parentsOf q := by
  rw [parentsOf, parentsOf, node?_modifyPayload]
  cases g.node? q with
  | none => rfl
  | some n =>
    simp only [Option.map_some]
    split <;> rfl

theorem edge_modifyPayload (g : Graph α) (id : String) (f : α → α) :
    (g.modifyPayload id f).Edge = g.Edge := by
  funext p c
  rw [Edge, childrenOf_modifyPayload, Edge]

theorem Consistent.modifyPayload {g : Graph α} (hg : g.Consistent) (id : String) (f : α → α) :
    (g.modifyPayload id f).Consistent where
  position_eq {p b} hb := by
    rw [bare?_modifyPayload] at hb
    obtain ⟨b', hb', rfl⟩ := Option.map_eq_some_iff.mp hb
    rw [← hg.position_eq hb']
    split <;> rfl
  registered := by
    simp only [position?_modifyPayload, idAt?_modifyPayload]
    exact hg.registered
  root_occupied := (occupied_modifyPayload ..).mpr hg.root_occupied
  mirrored := by
    simp only [childrenOf_modifyPayload, parentsOf_modifyPayload]
    exact hg.mirrored
  children_nodup p := by
    rw [childrenOf_modifyPayload]
    exact hg.children_nodup p
  parents_nodup p := by
    rw [parentsOf_modifyPayload]
    exact hg.parents_nodup p

/-- A changed payload keeps a hierarchy. -/
theorem Hierarchy.modifyPayload {g : Graph α} (hg : g.Hierarchy) (id : String) (f : α → α) :
    (g.modifyPayload id f).Hierarchy where
  consistent := hg.consistent.modifyPayload id f
  acyclic p := by
    rw [edge_modifyPayload]
    exact hg.acyclic p
  parented {p} hroot hp := by
    rw [edge_modifyPayload]
    exact hg.parented hroot ((occupied_modifyPayload ..).mp hp)

theorem Laden.modifyPayload {g : Graph α} (hl : g.Laden) (id : String) (f : α → α) :
    (g.modifyPayload id f).Laden := by
  intro p b hroot hb
  rw [bare?_modifyPayload] at hb
  obtain ⟨b', hb', rfl⟩ := Option.map_eq_some_iff.mp hb
  have hsome := hl hroot hb'
  split
  · simpa using hsome
  · exact hsome

/-- What a node carries after a payload was changed, it carried before, or it
is the changed payload. -/
theorem Carries.of_modifyPayload {g : Graph α} {id : String} {f : α → α} {claim : Claim α}
    (h : (g.modifyPayload id f).Carries claim) :
    g.Carries claim ∨ ∃ payload, g.Carries ⟨claim.id, payload⟩ ∧ claim.payload = f payload := by
  obtain ⟨q, b, hbare, hid, hpayload⟩ := h
  rw [bare?_modifyPayload] at hbare
  obtain ⟨b', hb', rfl⟩ := Option.map_eq_some_iff.mp hbare
  split at hid
  · rename_i hpos
    rw [if_pos hpos] at hpayload
    obtain ⟨payload, hold, hnew⟩ := Option.map_eq_some_iff.mp hpayload
    exact Or.inr ⟨payload, ⟨q, b', hb', hid, hold⟩, hnew.symm⟩
  · rename_i hpos
    rw [if_neg hpos] at hpayload
    exact Or.inl ⟨q, b', hb', hid, hpayload⟩

/-- What a node carries after an insertion, it carried before, or it is what
was inserted. -/
theorem Carries.of_insert {g g' : Graph α} {parentId childId : String} {payload : α}
    {position : Nat} (h : g.insert parentId childId payload = .ok (position, g'))
    {claim : Claim α} (hc : g'.Carries claim) : g.Carries claim ∨ claim = ⟨childId, payload⟩ := by
  obtain ⟨q, b, hbare, hid, hpayload⟩ := hc
  obtain ⟨p, _, ⟨c, _, _, _, rfl⟩ | ⟨_, _, rfl⟩⟩ := insert_eq_ok_cases h
  · rw [bare?_link] at hbare
    exact Or.inl ⟨q, b, hbare, hid, hpayload⟩
  · rw [bare?_link, bare?_register] at hbare
    split at hbare
    · cases hbare
      obtain ⟨id, payload'⟩ := claim
      cases hid
      cases hpayload
      exact Or.inr rfl
    · exact Or.inl ⟨q, b, hbare, hid, hpayload⟩

/-- What a graph carries after insertions it carried before, or it was
inserted. -/
theorem Carries.of_insertAll {insertions : List (String × String × α)} {g : Graph α}
    {claim : Claim α} (hc : (g.insertAll insertions).Carries claim) :
    g.Carries claim ∨ ∃ i ∈ insertions, claim = ⟨i.2.1, i.2.2⟩ := by
  induction insertions generalizing g with
  | nil => exact Or.inl hc
  | cons i rest ih =>
    rw [insertAll, List.foldl_cons] at hc
    rcases ih hc with hold | ⟨i', hmem, heq⟩
    · dsimp only at hold
      split at hold
      · rename_i g' hinsert
        rcases hold.of_insert hinsert with hold | heq
        · exact Or.inl hold
        · exact Or.inr ⟨i, by simp, heq⟩
      · exact Or.inl hold
    · exact Or.inr ⟨i', List.mem_cons_of_mem _ hmem, heq⟩

theorem not_carries_new (rootId : String) (claim : Claim α) : ¬ (new rootId).Carries claim := by
  rintro ⟨q, b, hb, _, hpayload⟩
  cases q with
  | zero =>
    cases hb
    cases hpayload
  | succ q => cases hb

end Cascade.Graph
