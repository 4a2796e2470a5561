import Cascade.Graph.Basic
import Mathlib.Data.List.Nodup

/-!
# The representation of a dependency graph

A graph keeps three things that have to agree: the arena of slots, the map
from IDs to positions, and the edges, which are written down at both of
their ends.  `Consistent` says that they do.

There are three groups.

* The views of a graph.  `bare?` is the node of a slot apart from its
  edges, and `childrenOf` and `parentsOf` are its two lists of edges.  Each
  operation comes with one equation for each view, and no later proof
  unfolds an operation.
* The operations that add.  `link` and `register` keep a graph consistent.
* The operation that removes.  `Without` says what is left when a node is
  taken out, `Consistent.remove_eq_ok` says that `remove` leaves just that,
  and `Consistent.without` that this is consistent again.
-/

namespace Cascade

/-- A node apart from its edges. -/
def Node.bare {α : Type} (n : Node α) : Node α := .isolated n.position n.id n.payload

namespace Graph

variable {α : Type}

/-! ## The views of a graph -/

/-- The node at a position, apart from its edges. -/
def bare? (g : Graph α) (position : Nat) : Option (Node α) := (g.node? position).map Node.bare

/-- The ID of the node at a position. -/
def idAt? (g : Graph α) (position : Nat) : Option String := (g.bare? position).map (·.id)

/-- The parents of the node at a position; a vacated slot has none. -/
def parentsOf (g : Graph α) (position : Nat) : List Nat :=
  ((g.node? position).map (·.parents)).getD []

/-- Whether a slot holds a node. -/
def Occupied (g : Graph α) (position : Nat) : Prop := (g.bare? position).isSome

/-- There is an edge from `p` to `c`. -/
def Edge (g : Graph α) (p c : Nat) : Prop := c ∈ g.childrenOf p

theorem bare?_of_node? {g : Graph α} {p : Nat} {n : Node α} (h : g.node? p = some n) :
    g.bare? p = some n.bare := by
  rw [bare?, h]; rfl

theorem idAt?_of_node? {g : Graph α} {p : Nat} {n : Node α} (h : g.node? p = some n) :
    g.idAt? p = some n.id := by
  rw [idAt?, bare?_of_node? h]; rfl

theorem childrenOf_of_node? {g : Graph α} {p : Nat} {n : Node α} (h : g.node? p = some n) :
    g.childrenOf p = n.children := by
  rw [childrenOf, h]; rfl

theorem edge_iff_of_node? {g : Graph α} {p c : Nat} {n : Node α} (h : g.node? p = some n) :
    g.Edge p c ↔ c ∈ n.children := by
  rw [Edge, childrenOf_of_node? h]

theorem parentsOf_of_node? {g : Graph α} {p : Nat} {n : Node α} (h : g.node? p = some n) :
    g.parentsOf p = n.parents := by
  rw [parentsOf, h]; rfl

theorem occupied_of_node? {g : Graph α} {p : Nat} {n : Node α} (h : g.node? p = some n) :
    g.Occupied p := by
  rw [Occupied, bare?_of_node? h]; rfl

theorem Occupied.exists_node? {g : Graph α} {p : Nat} (h : g.Occupied p) :
    ∃ n, g.node? p = some n := by
  rw [Occupied, bare?, Option.isSome_map] at h
  exact Option.isSome_iff_exists.mp h

theorem Occupied.exists_idAt? {g : Graph α} {p : Nat} (h : g.Occupied p) :
    ∃ id, g.idAt? p = some id := by
  obtain ⟨n, hn⟩ := h.exists_node?
  exact ⟨n.id, idAt?_of_node? hn⟩

theorem occupied_of_idAt? {g : Graph α} {p : Nat} {id : String} (h : g.idAt? p = some id) :
    g.Occupied p := by
  rw [idAt?, Option.map_eq_some_iff] at h
  obtain ⟨b, hb, _⟩ := h
  rw [Occupied, hb]; rfl

/-- Only an occupied slot has children. -/
theorem occupied_of_mem_childrenOf {g : Graph α} {p c : Nat} (h : c ∈ g.childrenOf p) :
    g.Occupied p := by
  rw [childrenOf] at h
  cases hn : g.node? p with
  | none => simp [hn] at h
  | some n => exact occupied_of_node? hn

/-- Only an occupied slot has parents. -/
theorem occupied_of_mem_parentsOf {g : Graph α} {p c : Nat} (h : p ∈ g.parentsOf c) :
    g.Occupied c := by
  rw [parentsOf] at h
  cases hn : g.node? c with
  | none => simp [hn] at h
  | some n => exact occupied_of_node? hn

/-- An occupied slot lies inside the arena. -/
theorem Occupied.lt_length {g : Graph α} {p : Nat} (h : g.Occupied p) :
    p < g.slots.length := by
  obtain ⟨n, hn⟩ := h.exists_node?
  by_contra hle
  have hnone : g.slots[p]? = none := List.getElem?_eq_none (by omega)
  rw [node?, hnone] at hn
  cases hn

theorem node?_length (g : Graph α) : g.node? g.slots.length = none := by
  rw [node?, List.getElem?_eq_none (Nat.le_refl _)]; rfl

/-! ## A consistent representation -/

/-- The arena, the map from IDs to positions and the two sides of the edges
agree. -/
structure Consistent (g : Graph α) : Prop where
  /-- A node knows its slot. -/
  position_eq : ∀ {p b}, g.bare? p = some b → b.position = p
  /-- The map finds the slot of an ID, and nothing else. -/
  registered : ∀ {id p}, g.position? id = some p ↔ g.idAt? p = some id
  /-- The root is never vacated. -/
  root_occupied : g.Occupied root
  /-- An edge is written down at both ends. -/
  mirrored : ∀ {p c}, c ∈ g.childrenOf p ↔ p ∈ g.parentsOf c
  children_nodup : ∀ p, (g.childrenOf p).Nodup
  parents_nodup : ∀ p, (g.parentsOf p).Nodup

namespace Consistent

variable {g : Graph α}

theorem node_position (hg : g.Consistent) {p : Nat} {n : Node α} (h : g.node? p = some n) :
    n.position = p := by
  have hb := hg.position_eq (bare?_of_node? h)
  exact hb

/-- A registered ID has a node. -/
theorem exists_node? (hg : g.Consistent) {id : String} {p : Nat} (h : g.position? id = some p) :
    ∃ n, g.node? p = some n ∧ n.id = id := by
  have hid := hg.registered.mp h
  obtain ⟨n, hn⟩ := (occupied_of_idAt? hid).exists_node?
  rw [idAt?_of_node? hn] at hid
  exact ⟨n, hn, Option.some.inj hid⟩

/-- Two slots never hold the same ID. -/
theorem position_unique (hg : g.Consistent) {id : String} {p q : Nat}
    (hp : g.idAt? p = some id) (hq : g.idAt? q = some id) : p = q := by
  have h := hg.registered.mpr hp
  rw [hg.registered.mpr hq] at h
  exact (Option.some.inj h).symm

/-- An edge leads to an occupied slot. -/
theorem occupied_target (hg : g.Consistent) {p c : Nat} (h : g.Edge p c) : g.Occupied c :=
  occupied_of_mem_parentsOf (hg.mirrored.mp h)

end Consistent

/-! ## The registered IDs -/

theorem mem_nodes_iff {g : Graph α} {n : Node α} :
    n ∈ g.nodes ↔ ∃ p, g.node? p = some n := by
  simp only [nodes, List.mem_filterMap, id_eq, exists_eq_right, node?, Option.join_eq_some_iff]
  exact List.mem_iff_getElem?

/-- The IDs of a graph are those of its nodes, the root apart. -/
theorem Consistent.mem_ids {g : Graph α} (hg : g.Consistent) {id : String} :
    id ∈ g.ids ↔ ∃ p, p ≠ root ∧ g.idAt? p = some id := by
  simp only [ids, List.mem_map, List.mem_filter, mem_nodes_iff, decide_eq_true_eq]
  constructor
  · rintro ⟨n, ⟨⟨p, hn⟩, hroot⟩, rfl⟩
    rw [hg.node_position hn] at hroot
    exact ⟨p, hroot, idAt?_of_node? hn⟩
  · rintro ⟨p, hroot, hid⟩
    obtain ⟨n, hn⟩ := (occupied_of_idAt? hid).exists_node?
    rw [idAt?_of_node? hn] at hid
    refine ⟨n, ⟨⟨p, hn⟩, ?_⟩, Option.some.inj hid⟩
    rwa [hg.node_position hn]

/-- No ID is listed twice. -/
theorem Consistent.nodup_ids {g : Graph α} (hg : g.Consistent) : g.ids.Nodup := by
  have hslots : g.slots.Pairwise fun a b => ∀ n, a = some n → ∀ m, b = some m → n.id ≠ m.id := by
    rw [List.pairwise_iff_getElem]
    intro i j hi hj hij n hn m hm hid
    have hni : g.node? i = some n := by rw [node?, List.getElem?_eq_getElem hi, hn]; rfl
    have hmj : g.node? j = some m := by rw [node?, List.getElem?_eq_getElem hj, hm]; rfl
    have hpi := idAt?_of_node? hni
    rw [hid] at hpi
    have heq := hg.position_unique hpi (idAt?_of_node? hmj)
    omega
  rw [ids, List.Nodup, List.pairwise_map]
  exact (List.pairwise_filterMap.mpr hslots).filter _

/-- The size of a graph is the number of its IDs. -/
theorem Consistent.size_eq {g : Graph α} (hg : g.Consistent) : g.size = g.ids.length := by
  obtain ⟨r, hr⟩ := hg.root_occupied.exists_node?
  have hrid := idAt?_of_node? hr
  have hmem : ∀ id, id ∈ g.positions.keys ↔ id ∈ r.id :: g.ids := by
    intro id
    rw [Std.TreeMap.mem_keys, Std.TreeMap.mem_iff_isSome_getElem?, List.mem_cons, hg.mem_ids]
    constructor
    · intro h
      obtain ⟨p, hp⟩ := Option.isSome_iff_exists.mp h
      have hpid := hg.registered.mp hp
      by_cases hroot : p = root
      · rw [hroot, hrid] at hpid
        exact Or.inl (Option.some.inj hpid).symm
      · exact Or.inr ⟨p, hroot, hpid⟩
    · rintro (rfl | ⟨p, _, hpid⟩)
      · exact Option.isSome_iff_exists.mpr ⟨root, hg.registered.mpr hrid⟩
      · exact Option.isSome_iff_exists.mpr ⟨p, hg.registered.mpr hpid⟩
  have hnodup : (r.id :: g.ids).Nodup := by
    refine List.nodup_cons.mpr ⟨fun h => ?_, hg.nodup_ids⟩
    obtain ⟨p, hroot, hpid⟩ := hg.mem_ids.mp h
    exact hroot (hg.position_unique hpid hrid)
  have hperm := (List.perm_ext_iff_of_nodup Std.TreeMap.nodup_keys hnodup).mpr hmem
  have hlength := hperm.length_eq
  rw [Std.TreeMap.length_keys, List.length_cons] at hlength
  rw [size]
  omega

theorem Consistent.isEmpty_iff {g : Graph α} (hg : g.Consistent) :
    g.isEmpty = true ↔ g.ids = [] := by
  rw [isEmpty, beq_iff_eq, hg.size_eq, List.length_eq_zero_iff]

/-- The root alone is a consistent graph. -/
theorem consistent_new (rootId : String) : (new rootId : Graph α).Consistent := by
  have hbare : ∀ q, (new rootId : Graph α).bare? q =
      if q = root then some (.isolated root rootId none) else none := by
    intro q
    cases q with
    | zero => rfl
    | succ q => rfl
  have hchildren : ∀ q, (new rootId : Graph α).childrenOf q = [] := by
    intro q
    cases q with
    | zero => rfl
    | succ q => rfl
  have hparents : ∀ q, (new rootId : Graph α).parentsOf q = [] := by
    intro q
    cases q with
    | zero => rfl
    | succ q => rfl
  refine ⟨?_, ?_, ?_, ?_, ?_, ?_⟩
  · intro p b hb
    rw [hbare] at hb
    split at hb
    · rename_i hp
      cases hb
      exact hp.symm
    · cases hb
  · intro id p
    have hpos : (new rootId : Graph α).position? id =
        if rootId = id then some root else none := by
      simp [new, position?, Std.TreeMap.getElem?_insert]
    rw [hpos, idAt?, hbare]
    by_cases hid : rootId = id <;> by_cases hp : p = root <;>
      simp [hid, hp, Node.isolated, Ne.symm, eq_comm]
  · rw [Occupied, hbare]; rfl
  · intro p c
    simp [hchildren, hparents]
  · intro p
    simp [hchildren]
  · intro p
    simp [hparents]

/-! ## Operations that add -/

theorem node?_modifyAt (g : Graph α) (p : Nat) (f : Node α → Node α) (q : Nat) :
    (g.modifyAt p f).node? q = if p = q then (g.node? q).map f else g.node? q := by
  simp only [node?, modifyAt, List.getElem?_modify]
  cases g.slots[q]? with
  | none => simp
  | some slot => split <;> rfl

/-- What `link` does to the node at a position, when the edge is new. -/
theorem node?_link {g : Graph α} {p c : Nat} (h : c ∉ g.childrenOf p) (q : Nat) :
    (g.link p c).node? q = (g.node? q).map fun n =>
      { n with
        children := if p = q then n.children ++ [c] else n.children
        parents := if c = q then n.parents ++ [p] else n.parents } := by
  rw [link, if_neg h, node?_modifyAt, node?_modifyAt]
  cases g.node? q with
  | none => simp
  | some n => by_cases hp : p = q <;> by_cases hc : c = q <;> simp [hp, hc]

@[simp]
theorem bare?_link (g : Graph α) (p c q : Nat) : (g.link p c).bare? q = g.bare? q := by
  by_cases h : c ∈ g.childrenOf p
  · rw [link, if_pos h]
  · rw [bare?, node?_link h, Option.map_map]; rfl

@[simp]
theorem position?_link (g : Graph α) (p c : Nat) (id : String) :
    (g.link p c).position? id = g.position? id := by
  rw [link]; split <;> rfl

theorem childrenOf_link {g : Graph α} {p c : Nat} (hp : g.Occupied p) (q : Nat) :
    (g.link p c).childrenOf q =
      if p = q ∧ c ∉ g.childrenOf p then g.childrenOf q ++ [c] else g.childrenOf q := by
  by_cases h : c ∈ g.childrenOf p
  · simp [link, h]
  · by_cases hq : p = q
    · subst hq
      obtain ⟨n, hn⟩ := hp.exists_node?
      rw [if_pos ⟨rfl, h⟩]
      simp [childrenOf, node?_link h, hn]
    · rw [if_neg fun hand => hq hand.1]
      simp only [childrenOf, node?_link h, if_neg hq, Option.map_map]
      rfl

theorem parentsOf_link {g : Graph α} {p c : Nat} (hc : g.Occupied c) (q : Nat) :
    (g.link p c).parentsOf q =
      if c = q ∧ c ∉ g.childrenOf p then g.parentsOf q ++ [p] else g.parentsOf q := by
  by_cases h : c ∈ g.childrenOf p
  · simp [link, h]
  · by_cases hq : c = q
    · subst hq
      obtain ⟨n, hn⟩ := hc.exists_node?
      rw [if_pos ⟨rfl, h⟩]
      simp [parentsOf, node?_link h, hn]
    · rw [if_neg fun hand => hq hand.1]
      simp only [parentsOf, node?_link h, if_neg hq, Option.map_map]
      rfl

/-- The edges after linking: the old ones and the new one. -/
theorem edge_link_iff {g : Graph α} {p c : Nat} (hp : g.Occupied p) {a b : Nat} :
    (g.link p c).Edge a b ↔ g.Edge a b ∨ (a = p ∧ b = c) := by
  rw [Edge, childrenOf_link hp, Edge]
  by_cases ha : p = a
  · subst ha
    by_cases h : c ∈ g.childrenOf p
    · simp only [h, not_true_eq_false, and_false, if_false, true_and]
      exact ⟨Or.inl, fun hor => hor.elim id fun hb => hb ▸ h⟩
    · simp [h]
  · have hne : ¬ a = p := fun he => ha he.symm
    simp [ha, hne]

/-- Linking two nodes keeps a graph consistent. -/
theorem Consistent.link {g : Graph α} (hg : g.Consistent) {p c : Nat}
    (hp : g.Occupied p) (hc : g.Occupied c) : (g.link p c).Consistent := by
  refine ⟨?_, ?_, ?_, ?_, ?_, ?_⟩
  · intro q b hb
    rw [bare?_link] at hb
    exact hg.position_eq hb
  · intro id q
    rw [position?_link, idAt?, bare?_link]
    exact hg.registered
  · rw [Occupied, bare?_link]
    exact hg.root_occupied
  · intro a b
    have hmirror := hg.mirrored (p := a) (c := b)
    rw [← Edge, edge_link_iff hp, parentsOf_link hc, Edge]
    by_cases h : c ∈ g.childrenOf p
    · simp only [h, not_true_eq_false, and_false, if_false]
      refine ⟨fun hor => hor.elim hmirror.mp ?_, fun hab => Or.inl (hmirror.mpr hab)⟩
      rintro ⟨rfl, rfl⟩
      exact hmirror.mp h
    · by_cases hb : c = b
      · subst hb
        simp [h, hmirror]
      · have hne : ¬ b = c := fun he => hb he.symm
        simp [hb, hne, hmirror]
  · intro q
    rw [childrenOf_link hp]
    split
    · rename_i hnew
      obtain ⟨rfl, hnew⟩ := hnew
      rw [List.nodup_append]
      refine ⟨hg.children_nodup p, by simp, ?_⟩
      rintro a ha b hb rfl
      exact hnew (List.mem_singleton.mp hb ▸ ha)
    · exact hg.children_nodup q
  · intro q
    rw [parentsOf_link hc]
    split
    · rename_i hnew
      obtain ⟨rfl, hnew⟩ := hnew
      rw [List.nodup_append]
      refine ⟨hg.parents_nodup c, by simp, ?_⟩
      rintro a ha b hb rfl
      have hap : a = p := List.mem_singleton.mp hb
      exact hnew (hg.mirrored.mpr (hap ▸ ha))
    · exact hg.parents_nodup q

theorem node?_register (g : Graph α) (id : String) (payload : α) (q : Nat) :
    (g.register id payload).2.node? q =
      if q = g.slots.length then some (.isolated q id (some payload)) else g.node? q := by
  simp only [register, node?]
  by_cases hlt : q < g.slots.length
  · rw [List.getElem?_append_left hlt, if_neg (by omega)]
  · rw [List.getElem?_append_right (by omega)]
    by_cases heq : q = g.slots.length
    · subst heq; simp
    · have hnone : g.slots[q]? = none := List.getElem?_eq_none (by omega)
      rw [if_neg heq, hnone, List.getElem?_eq_none (by simp; omega)]

@[simp]
theorem childrenOf_register (g : Graph α) (id : String) (payload : α) (q : Nat) :
    (g.register id payload).2.childrenOf q = g.childrenOf q := by
  rw [childrenOf, node?_register]
  split
  · rename_i hq
    rw [childrenOf, hq, node?_length]; rfl
  · rfl

@[simp]
theorem parentsOf_register (g : Graph α) (id : String) (payload : α) (q : Nat) :
    (g.register id payload).2.parentsOf q = g.parentsOf q := by
  rw [parentsOf, node?_register]
  split
  · rename_i hq
    rw [parentsOf, hq, node?_length]; rfl
  · rfl

theorem bare?_register (g : Graph α) (id : String) (payload : α) (q : Nat) :
    (g.register id payload).2.bare? q =
      if q = g.slots.length then some (.isolated q id (some payload)) else g.bare? q := by
  rw [bare?, node?_register]
  split <;> rfl

theorem position?_register (g : Graph α) (id : String) (payload : α) (id' : String) :
    (g.register id payload).2.position? id' =
      if id = id' then some g.slots.length else g.position? id' := by
  simp [register, position?, Std.TreeMap.getElem?_insert]

/-- Registering a new ID keeps a graph consistent. -/
theorem Consistent.register {g : Graph α} (hg : g.Consistent) {id : String}
    (hid : g.position? id = none) (payload : α) : (g.register id payload).2.Consistent := by
  have hroot : root ≠ g.slots.length := Nat.ne_of_lt hg.root_occupied.lt_length
  refine ⟨?_, ?_, ?_, ?_, ?_, ?_⟩
  · intro p b hb
    rw [bare?_register] at hb
    split at hb
    · cases hb; rfl
    · exact hg.position_eq hb
  · intro id' p
    rw [position?_register, idAt?, bare?_register]
    by_cases hp : p = g.slots.length
    · have hvacant : g.position? id' ≠ some p := by
        intro h
        have hlt := (occupied_of_idAt? (hg.registered.mp h)).lt_length
        omega
      rw [if_pos hp, Option.map_some]
      split
      · rename_i he
        simp [he, hp, Node.isolated]
      · rename_i he
        simp [he, hvacant, Node.isolated]
    · rw [if_neg hp, ← idAt?]
      split
      · rename_i he
        subst he
        have hlen : some g.slots.length ≠ some p := fun h => hp (Option.some.inj h).symm
        refine ⟨fun h => absurd h hlen, fun h => ?_⟩
        rw [hg.registered.mpr h] at hid
        cases hid
      · exact hg.registered
  · rw [Occupied, bare?_register, if_neg hroot]
    exact hg.root_occupied
  · intro p c
    rw [childrenOf_register, parentsOf_register]
    exact hg.mirrored
  · intro p
    rw [childrenOf_register]
    exact hg.children_nodup p
  · intro p
    rw [parentsOf_register]
    exact hg.parents_nodup p

/-! ## The operation that removes -/

/-- Changing nodes one after another by an idempotent function changes each
of them once. -/
theorem node?_foldl_modifyAt {f : Node α → Node α} (hf : ∀ n, f (f n) = f n)
    (ps : List Nat) (g : Graph α) (q : Nat) :
    (ps.foldl (fun g p => g.modifyAt p f) g).node? q =
      if q ∈ ps then (g.node? q).map f else g.node? q := by
  induction ps generalizing g with
  | nil => simp
  | cons p ps ih =>
    rw [List.foldl_cons, ih, node?_modifyAt]
    by_cases hq : p = q
    · have hff : f ∘ f = f := funext hf
      simp [hq, Option.map_map, hff]
    · have hne : ¬ q = p := fun he => hq he.symm
      simp [hq, hne]

theorem position?_foldl_modifyAt (f : Node α → Node α) (ps : List Nat) (g : Graph α)
    (id : String) :
    (ps.foldl (fun g p => g.modifyAt p f) g).position? id = g.position? id := by
  induction ps generalizing g with
  | nil => rfl
  | cons p ps ih => rw [List.foldl_cons, ih]; rfl

/-- What `detach` does to the node at a position. -/
theorem node?_detach (g : Graph α) (n : Node α) (q : Nat) :
    (g.detach n).node? q = (g.node? q).map fun m =>
      { m with
        children := if q ∈ n.parents then m.children.filter (· ≠ n.position) else m.children
        parents := if q ∈ n.children then m.parents.filter (· ≠ n.position) else m.parents } := by
  rw [detach, node?_foldl_modifyAt (by intro m; simp), node?_foldl_modifyAt (by intro m; simp)]
  cases g.node? q with
  | none => simp
  | some m => by_cases hp : q ∈ n.parents <;> by_cases hc : q ∈ n.children <;> simp [hp, hc]

theorem position?_detach (g : Graph α) (n : Node α) (id : String) :
    (g.detach n).position? id = g.position? id := by
  rw [detach, position?_foldl_modifyAt, position?_foldl_modifyAt]

/-- `g'` is what is left of `g` when the node at `p` is taken out: the other
nodes stay where they are, with the edges between them in their order. -/
structure Without (g : Graph α) (p : Nat) (g' : Graph α) : Prop where
  bare? : ∀ q, g'.bare? q = if q = p then none else g.bare? q
  childrenOf : ∀ q, g'.childrenOf q = if q = p then [] else (g.childrenOf q).filter (· ≠ p)
  parentsOf : ∀ q, g'.parentsOf q = if q = p then [] else (g.parentsOf q).filter (· ≠ p)
  position? : ∀ id, g'.position? id = if g.position? id = some p then none else g.position? id
  length : g'.slots.length = g.slots.length

private theorem length_foldl_modifyAt (f : Node α → Node α) (ps : List Nat) (g : Graph α) :
    (ps.foldl (fun g p => g.modifyAt p f) g).slots.length = g.slots.length := by
  induction ps generalizing g with
  | nil => rfl
  | cons p ps ih =>
    rw [List.foldl_cons, ih]
    exact List.length_modify ..

/-- In a list of the neighbours of a node that is not a neighbour of `p`,
nothing is left out. -/
private theorem filter_eq_of_not_mem {l : List Nat} {p : Nat} (h : p ∉ l) :
    l.filter (· ≠ p) = l := by
  rw [List.filter_eq_self]
  intro a ha
  have hne : a ≠ p := fun he => h (he ▸ ha)
  simpa using hne

private theorem node?_vacate (g : Graph α) (p : Nat) (id : String) (q : Nat) :
    Graph.node? (α := α) { slots := g.slots.set p none, positions := g.positions.erase id } q =
      if p = q then none else g.node? q := by
  simp only [node?, List.getElem?_set]
  by_cases hq : p = q
  · by_cases hlt : p < g.slots.length <;> simp [← hq, hlt]
  · simp [hq]

private theorem position?_vacate (g : Graph α) (p : Nat) (id id' : String) :
    Graph.position? (α := α) { slots := g.slots.set p none, positions := g.positions.erase id } id' =
      if id = id' then none else g.position? id' := by
  simp only [position?, Std.TreeMap.getElem?_erase, Std.LawfulEqCmp.compare_eq_iff_eq]

/-- Taking a node out of the lists of its neighbours and emptying its slot
leaves the graph without it. -/
theorem Consistent.without_detach {g : Graph α} (hg : g.Consistent) {id : String} {p : Nat}
    {n : Node α} (hn : g.node? p = some n) (hid : n.id = id) :
    g.Without p
      (detach { slots := g.slots.set p none, positions := g.positions.erase id } n) := by
  have hpos : n.position = p := hg.node_position hn
  have hchildren : g.childrenOf p = n.children := childrenOf_of_node? hn
  have hparents : g.parentsOf p = n.parents := parentsOf_of_node? hn
  refine ⟨?_, ?_, ?_, ?_, ?_⟩
  · intro q
    rw [bare?, node?_detach, node?_vacate]
    by_cases hq : p = q
    · simp [hq]
    · have hne : ¬ q = p := fun he => hq he.symm
      rw [if_neg hq, if_neg hne, Option.map_map, bare?]
      rfl
  · intro q
    rw [childrenOf, node?_detach, node?_vacate, hpos]
    by_cases hq : p = q
    · simp [hq]
    · have hne : ¬ q = p := fun he => hq he.symm
      rw [if_neg hq, if_neg hne]
      by_cases hmem : q ∈ n.parents
      · cases hm : g.node? q <;> simp [childrenOf, hm, hmem]
      · have hkeep : p ∉ g.childrenOf q := by
          rw [hg.mirrored, hparents]
          exact hmem
        rw [filter_eq_of_not_mem hkeep]
        cases hm : g.node? q <;> simp [childrenOf, hm, hmem]
  · intro q
    rw [parentsOf, node?_detach, node?_vacate, hpos]
    by_cases hq : p = q
    · simp [hq]
    · have hne : ¬ q = p := fun he => hq he.symm
      rw [if_neg hq, if_neg hne]
      by_cases hmem : q ∈ n.children
      · cases hm : g.node? q <;> simp [parentsOf, hm, hmem]
      · have hkeep : p ∉ g.parentsOf q := by
          rw [← hg.mirrored, hchildren]
          exact hmem
        rw [filter_eq_of_not_mem hkeep]
        cases hm : g.node? q <;> simp [parentsOf, hm, hmem]
  · intro id'
    have hiff : id = id' ↔ g.position? id' = some p := by
      rw [hg.registered, idAt?_of_node? hn, hid]
      exact ⟨fun h => congrArg some h, fun h => Option.some.inj h⟩
    rw [position?_detach, position?_vacate]
    by_cases h : id = id'
    · rw [if_pos h, if_pos (hiff.mp h)]
    · rw [if_neg h, if_neg fun hp => h (hiff.mpr hp)]
  · rw [detach, length_foldl_modifyAt, length_foldl_modifyAt]
    exact List.length_set ..

/-- Any node but the root can be removed, and what is left is the graph
without it. -/
theorem Consistent.remove_eq_ok {g : Graph α} (hg : g.Consistent) {id : String} {p : Nat}
    (hp : g.position? id = some p) (hroot : p ≠ root) :
    ∃ n g', g.node? p = some n ∧ g.remove id = .ok (n, g') ∧ g.Without p g' := by
  obtain ⟨n, hn, hid⟩ := hg.exists_node? hp
  refine ⟨n, _, hn, ?_, hg.without_detach hn hid⟩
  simp only [remove, hp, if_neg hroot, hn]

namespace Without

variable {g g' : Graph α} {p : Nat}

theorem idAt? (h : g.Without p g') (q : Nat) :
    g'.idAt? q = if q = p then none else g.idAt? q := by
  rw [Graph.idAt?, h.bare?]
  split <;> rfl

theorem occupied_iff (h : g.Without p g') {q : Nat} :
    g'.Occupied q ↔ q ≠ p ∧ g.Occupied q := by
  rw [Occupied, h.bare?]
  by_cases hq : q = p <;> simp [hq, Occupied]

theorem edge_iff (h : g.Without p g') {a b : Nat} :
    g'.Edge a b ↔ a ≠ p ∧ b ≠ p ∧ g.Edge a b := by
  rw [Edge, h.childrenOf]
  by_cases ha : a = p <;> simp [ha, Edge, and_comm]

end Without

/-- A consistent graph without one of its nodes is consistent. -/
theorem Consistent.without {g g' : Graph α} (hg : g.Consistent) {p : Nat} (hroot : p ≠ root)
    (h : g.Without p g') : g'.Consistent := by
  refine ⟨?_, ?_, ?_, ?_, ?_, ?_⟩
  · intro q b hb
    rw [h.bare?] at hb
    split at hb
    · cases hb
    · exact hg.position_eq hb
  · intro id q
    rw [h.position?, h.idAt?]
    by_cases hq : q = p
    · simp [hq]
    · rw [if_neg hq, ← hg.registered]
      split
      · rename_i hid
        rw [hid, Option.some_inj]
        exact iff_of_false nofun fun he => hq he.symm
      · rfl
  · exact h.occupied_iff.mpr ⟨hroot.symm, hg.root_occupied⟩
  · intro a b
    rw [← Edge, h.edge_iff, h.parentsOf, Edge, hg.mirrored]
    by_cases hb : b = p <;> simp [hb, and_comm]
  · intro q
    rw [h.childrenOf]
    split
    · exact List.nodup_nil
    · exact (hg.children_nodup q).filter _
  · intro q
    rw [h.parentsOf]
    split
    · exact List.nodup_nil
    · exact (hg.parents_nodup q).filter _

end Graph

end Cascade
