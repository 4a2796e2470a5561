import Cascade.Proofs.Graph.Removal

/-!
# Any sequence of operations on a graph

A graph is built by four operations: a payload is inserted below a parent,
two nodes are linked without a look for cycles, a node is removed, and a
node is removed while its orphans move below the root.  Any of them may
fail.

There are three groups.

* `Change` has the three elementary changes that all four operations are
  made of, and `Operation.changes` takes an operation apart into them.
* What every change keeps.  A graph stays consistent, and it stays later
  than the graph it came from (`Later`): the slots of the earlier graph
  are vacated at most, and never filled again.
* `applyAll_representation` puts both together for the graphs that come
  from the root alone by any sequence of operations, and says of the nodes
  themselves what `Consistent` says of the views.
-/

namespace Cascade.Graph

open Relation

variable {α : Type}

/-- What may be asked of a graph. -/
inductive Operation (α : Type) where
  | insert (parentId childId : String) (payload : α)
  | addEdge (fromId toId : String)
  | remove (id : String)
  | removeAndReparent (id : String)

/-- Carry out an operation, or fail. -/
def attempt (g : Graph α) : Operation α → Except Error (Graph α)
  | .insert parentId childId payload => (g.insert parentId childId payload).map Prod.snd
  | .addEdge fromId toId => g.addEdge fromId toId
  | .remove id => (g.remove id).map Prod.snd
  | .removeAndReparent id => (g.removeAndReparent id).map Prod.snd

/-- Carry out an operation; an operation that fails is passed over. -/
def apply (g : Graph α) (op : Operation α) : Graph α :=
  match g.attempt op with
  | .ok g' => g'
  | .error _ => g

/-- Carry out operations one after another. -/
def applyAll (g : Graph α) (ops : List (Operation α)) : Graph α := ops.foldl apply g

/-! ## Elementary changes -/

/-- The three changes that operations are made of. -/
inductive Change : Graph α → Graph α → Prop where
  | link {g : Graph α} {p c : Nat} (source : g.Occupied p) (target : g.Occupied c) :
      Change g (g.link p c)
  | register {g : Graph α} {id : String} (fresh : g.position? id = none) (payload : α) :
      Change g (g.register id payload).2
  | remove {g g' : Graph α} {p : Nat} (inner : p ≠ root) (without : g.Without p g') :
      Change g g'

theorem Consistent.change {g g' : Graph α} (hg : g.Consistent) (h : Change g g') :
    g'.Consistent := by
  cases h with
  | link source target => exact hg.link source target
  | register fresh payload => exact hg.register fresh payload
  | remove inner without => exact hg.without inner without

theorem Consistent.changes {g g' : Graph α} (hg : g.Consistent)
    (h : ReflTransGen Change g g') : g'.Consistent := by
  induction h with
  | refl => exact hg
  | tail _ hchange ih => exact ih.change hchange

/-- A registered ID has an occupied slot. -/
theorem Consistent.occupied {g : Graph α} (hg : g.Consistent) {id : String} {p : Nat}
    (h : g.position? id = some p) : g.Occupied p :=
  occupied_of_idAt? (hg.registered.mp h)

/-- A node is removed from a consistent graph only if it is registered and is
not the root. -/
theorem Consistent.of_remove {g g' : Graph α} (hg : g.Consistent) {id : String} {n : Node α}
    (h : g.remove id = .ok (n, g')) :
    ∃ p, p ≠ root ∧ g.position? id = some p ∧ g.node? p = some n ∧ g.Without p g' := by
  cases hp : g.position? id with
  | none =>
    rw [Graph.remove, hp] at h
    cases h
  | some p =>
    by_cases hroot : p = root
    · simp only [Graph.remove, hp, if_pos hroot] at h
      cases h
    · obtain ⟨n', g'', hn, hremove, hwithout⟩ := hg.remove_eq_ok hp hroot
      rw [hremove] at h
      cases h
      exact ⟨p, hroot, rfl, hn, hwithout⟩

theorem changes_insert {g g' : Graph α} (hg : g.Consistent) {parentId childId : String}
    {payload : α} {position : Nat}
    (h : g.insert parentId childId payload = .ok (position, g')) :
    ReflTransGen Change g g' := by
  obtain ⟨p, hp, ⟨c, hc, _, _, rfl⟩ | ⟨hc, _, rfl⟩⟩ := insert_eq_ok_cases h
  · exact .single (.link (hg.occupied hp) (hg.occupied hc))
  · -- the new node is registered first, and both ends are there when they are linked
    have hregister : Change g (g.register childId payload).2 := .register hc payload
    have hbare := bare?_register g childId payload
    have hchild : (g.register childId payload).2.Occupied g.slots.length := by
      rw [Occupied, hbare, if_pos rfl]; rfl
    have hne : p ≠ g.slots.length := Nat.ne_of_lt (hg.occupied hp).lt_length
    have hparent : (g.register childId payload).2.Occupied p := by
      rw [Occupied, hbare, if_neg hne]
      exact hg.occupied hp
    exact (ReflTransGen.single hregister).tail (.link hparent hchild)

theorem changes_addEdge {g g' : Graph α} (hg : g.Consistent) {fromId toId : String}
    (h : g.addEdge fromId toId = .ok g') : ReflTransGen Change g g' := by
  rw [addEdge] at h
  split at h
  · cases h
  · rename_i source hsource
    split at h
    · cases h
    · rename_i target htarget
      cases h
      exact .single (.link (hg.occupied hsource) (hg.occupied htarget))

theorem changes_remove {g g' : Graph α} (hg : g.Consistent) {id : String} {n : Node α}
    (h : g.remove id = .ok (n, g')) : ReflTransGen Change g g' := by
  obtain ⟨p, hroot, _, _, hwithout⟩ := hg.of_remove h
  exact .single (.remove hroot hwithout)

/-- An orphan is an occupied slot, so it may be linked to the root. -/
theorem changes_adopt (acc : List Nat × Graph α) (hg : acc.2.Consistent) (child : Nat) :
    ReflTransGen Change acc.2 (adopt acc child).2 := by
  rw [adopt]
  split
  · rename_i horphan
    exact .single (.link hg.root_occupied (isOrphan_iff.mp horphan).1)
  · exact .refl

theorem changes_foldl_adopt (children : List Nat) (acc : List Nat × Graph α)
    (hg : acc.2.Consistent) : ReflTransGen Change acc.2 (children.foldl adopt acc).2 := by
  induction children generalizing acc with
  | nil => exact .refl
  | cons child rest ih =>
    have hadopt := changes_adopt acc hg child
    exact hadopt.trans (ih (adopt acc child) (hg.changes hadopt))

theorem changes_removeAndReparent {g g' : Graph α} (hg : g.Consistent) {id : String}
    {orphans : List Nat} (h : g.removeAndReparent id = .ok (orphans, g')) :
    ReflTransGen Change g g' := by
  rw [removeAndReparent] at h
  split at h
  · cases h
  · rename_i removed g₁ hremove
    have hchanges := changes_remove hg hremove
    have hadopted := changes_foldl_adopt removed.children ([], g₁) (hg.changes hchanges)
    rw [Except.ok.inj h] at hadopted
    exact hchanges.trans hadopted

/-- The answer from which the graph was taken. -/
theorem exists_of_map_snd {β : Type} {answer : Except Error (β × Graph α)} {g : Graph α}
    (h : answer.map Prod.snd = .ok g) : ∃ b, answer = .ok (b, g) := by
  cases answer with
  | error e => cases h
  | ok pair => exact ⟨pair.1, by rw [← Except.ok.inj h]⟩

/-- An operation that succeeds is a sequence of elementary changes. -/
theorem Operation.changes {g g' : Graph α} (hg : g.Consistent) {op : Operation α}
    (h : g.attempt op = .ok g') : ReflTransGen Change g g' := by
  cases op with
  | insert parentId childId payload =>
    obtain ⟨position, hinsert⟩ := exists_of_map_snd h
    exact changes_insert hg hinsert
  | addEdge fromId toId => exact changes_addEdge hg h
  | remove id =>
    obtain ⟨n, hremove⟩ := exists_of_map_snd h
    exact changes_remove hg hremove
  | removeAndReparent id =>
    obtain ⟨orphans, hremove⟩ := exists_of_map_snd h
    exact changes_removeAndReparent hg hremove

theorem changes_apply {g : Graph α} (hg : g.Consistent) (op : Operation α) :
    ReflTransGen Change g (g.apply op) := by
  rw [apply]
  split
  · rename_i h
    exact op.changes hg h
  · exact .refl

theorem changes_applyAll {g : Graph α} (hg : g.Consistent) (ops : List (Operation α)) :
    ReflTransGen Change g (g.applyAll ops) := by
  induction ops generalizing g with
  | nil => exact .refl
  | cons op rest ih =>
    have happly := changes_apply hg op
    exact happly.trans (ih (hg.changes happly))

/-! ## What every change keeps -/

/-- `g'` came after `g`: a slot of `g` holds in `g'` what it held, edges
apart, or has been vacated. -/
structure Later (g g' : Graph α) : Prop where
  length_le : g.slots.length ≤ g'.slots.length
  bare? : ∀ {p b}, p < g.slots.length → g'.bare? p = some b → g.bare? p = some b

namespace Later

variable {g g' g'' : Graph α}

theorem refl (g : Graph α) : g.Later g := ⟨Nat.le_refl _, fun _ h => h⟩

theorem trans (h : g.Later g') (h' : g'.Later g'') : g.Later g'' :=
  ⟨h.length_le.trans h'.length_le,
    fun hp hb => h.bare? hp (h'.bare? (Nat.lt_of_lt_of_le hp h.length_le) hb)⟩

/-- A new node takes the slot behind all others. -/
theorem change (h : Change g g') : g.Later g' := by
  cases h with
  | link _ _ =>
    refine ⟨?_, fun _ hb => by rwa [bare?_link] at hb⟩
    rw [Graph.link]
    split
    · exact Nat.le_refl _
    · simp [modifyAt]
  | register _ _ =>
    refine ⟨by simp [Graph.register], fun hp hb => ?_⟩
    rwa [bare?_register, if_neg (Nat.ne_of_lt hp)] at hb
  | remove _ without =>
    refine ⟨without.length.ge, fun _ hb => ?_⟩
    rw [without.bare?] at hb
    split at hb
    · cases hb
    · exact hb

theorem changes (h : ReflTransGen Change g g') : g.Later g' := by
  induction h with
  | refl => exact .refl g
  | tail _ hchange ih => exact ih.trans (.change hchange)

end Later

/-! ## The nodes of a consistent graph -/

/-- A node is its bare node with its edges. -/
theorem node?_eq (g : Graph α) (q : Nat) :
    g.node? q = (g.bare? q).map fun b =>
      { b with children := g.childrenOf q, parents := g.parentsOf q } := by
  rw [bare?, childrenOf, parentsOf]
  cases g.node? q <;> rfl

/-- The nodes that are left when a node is taken out. -/
theorem Without.node? {g g' : Graph α} {p : Nat} (h : g.Without p g') (q : Nat) :
    g'.node? q = if q = p then none else (g.node? q).map fun m =>
      { m with children := m.children.filter (· ≠ p), parents := m.parents.filter (· ≠ p) } := by
  rw [node?_eq, h.bare?, h.childrenOf, h.parentsOf]
  by_cases hq : q = p
  · simp [hq]
  · rw [if_neg hq, if_neg hq, if_neg hq, if_neg hq, node?_eq g, Option.map_map]
    rfl

namespace Consistent

variable {g : Graph α}

theorem position?_eq_some_iff (hg : g.Consistent) {id : String} {p : Nat} :
    g.position? id = some p ↔ ∃ n, g.node? p = some n ∧ n.id = id ∧ n.position = p := by
  constructor
  · intro h
    obtain ⟨n, hn, hid⟩ := hg.exists_node? h
    exact ⟨n, hn, hid, hg.node_position hn⟩
  · rintro ⟨n, hn, rfl, _⟩
    exact hg.registered.mpr (idAt?_of_node? hn)

/-- Besides the root there is a node for every registered ID. -/
theorem length_nodes (hg : g.Consistent) : g.nodes.length = g.size + 1 := by
  obtain ⟨r, hr⟩ := hg.root_occupied.exists_node?
  have hslots : ∃ rest, g.slots = some r :: rest := by
    cases hs : g.slots with
    | nil => simp [node?, hs] at hr
    | cons slot rest =>
      rw [node?, hs, root, List.getElem?_cons_zero] at hr
      exact ⟨rest, congrArg (· :: rest) hr⟩
  obtain ⟨rest, hrest⟩ := hslots
  have hnodes : g.nodes = r :: rest.filterMap id := by
    rw [nodes, hrest]; rfl
  have hinner : ∀ n ∈ rest.filterMap id, n.position ≠ root := by
    intro n hn
    obtain ⟨slot, hslot, rfl⟩ := List.mem_filterMap.mp hn
    obtain ⟨i, hi⟩ := List.mem_iff_getElem?.mp hslot
    have hnode : g.node? (i + 1) = some n := by
      rw [node?, hrest, List.getElem?_cons_succ, hi]; rfl
    rw [hg.node_position hnode]
    exact Nat.succ_ne_zero i
  have hkept : (rest.filterMap id).filter (·.position ≠ root) = rest.filterMap id :=
    List.filter_eq_self.mpr fun n hn => decide_eq_true (hinner n hn)
  have hids : g.ids = (rest.filterMap id).map (·.id) := by
    rw [ids, hnodes, List.filter_cons_of_neg, hkept]
    simpa using hg.node_position hr
  rw [hg.size_eq, hids, hnodes, List.length_cons, List.length_map]

/-- Both ends of every edge are occupied. -/
theorem occupied_neighbour (hg : g.Consistent) {p q : Nat} {n : Node α}
    (hn : g.node? p = some n) (hq : q ∈ n.children ∨ q ∈ n.parents) :
    ∃ m, g.node? q = some m := by
  rcases hq with hchild | hparent
  · rw [← childrenOf_of_node? hn] at hchild
    exact (hg.occupied_target hchild).exists_node?
  · rw [← parentsOf_of_node? hn] at hparent
    exact (occupied_of_mem_childrenOf (hg.mirrored.mpr hparent)).exists_node?

theorem mem_children_iff (hg : g.Consistent) {p c : Nat} {n m : Node α}
    (hn : g.node? p = some n) (hm : g.node? c = some m) : c ∈ n.children ↔ p ∈ m.parents := by
  rw [← childrenOf_of_node? hn, ← parentsOf_of_node? hm]
  exact hg.mirrored

theorem nodup_edges (hg : g.Consistent) {p : Nat} {n : Node α} (hn : g.node? p = some n) :
    n.children.Nodup ∧ n.parents.Nodup := by
  rw [← childrenOf_of_node? hn, ← parentsOf_of_node? hn]
  exact ⟨hg.children_nodup p, hg.parents_nodup p⟩

end Consistent

/-! ## Every graph that operations lead to -/

/-- What the slots, the map and the edges of a graph say of one another,
whatever operations led to the graph, how it goes on, and what a removal
leaves of it. -/
theorem applyAll_representation (rootId : String) (ops : List (Operation α)) :
    let g := (new rootId).applyAll ops
    (∀ id p, g.position? id = some p ↔ ∃ n, g.node? p = some n ∧ n.id = id ∧ n.position = p) ∧
    (∀ p n, g.node? p = some n → n.position = p ∧ g.position? n.id = some p) ∧
    g.nodes.length = g.size + 1 ∧
    (∃ r, g.node? root = some r) ∧
    (∀ p n, g.node? p = some n → ∀ q, q ∈ n.children ∨ q ∈ n.parents → ∃ m, g.node? q = some m) ∧
    (∀ p n c m, g.node? p = some n → g.node? c = some m → (c ∈ n.children ↔ p ∈ m.parents)) ∧
    (∀ p n, g.node? p = some n → n.children.Nodup ∧ n.parents.Nodup) ∧
    (∀ more, let later := g.applyAll more
      g.slots.length ≤ later.slots.length ∧
      ∀ p, p < g.slots.length → ∀ n, later.node? p = some n →
        ∃ m, g.node? p = some m ∧ m.bare = n.bare) ∧
    (∀ op e, g.attempt op = .error e → g.apply op = g) ∧
    (∀ id p, g.position? id = some p → p ≠ root → ∃ removed, g.remove id = .ok removed) ∧
    (∀ id n g', g.remove id = .ok (n, g') → ∃ p, p ≠ root ∧ g.position? id = some p ∧
      g.node? p = some n ∧ g'.slots.length = g.slots.length ∧
      (∀ q, g'.node? q = if q = p then none else (g.node? q).map fun m =>
        { m with
          children := m.children.filter (· ≠ p)
          parents := m.parents.filter (· ≠ p) }) ∧
      ∀ id', g'.position? id' = if id' = id then none else g.position? id') := by
  intro g
  have hnew : (new rootId : Graph α).Consistent := consistent_new rootId
  have hg : g.Consistent := hnew.changes (changes_applyAll hnew ops)
  refine ⟨fun _ _ => hg.position?_eq_some_iff, ?_, hg.length_nodes,
    hg.root_occupied.exists_node?, fun p n hn q => hg.occupied_neighbour hn,
    fun p n c m hn hm => hg.mem_children_iff hn hm, fun p n hn => hg.nodup_edges hn,
    ?_, ?_, ?_, ?_⟩
  · intro p n hn
    exact ⟨hg.node_position hn, hg.registered.mpr (idAt?_of_node? hn)⟩
  · intro more later
    have hlater : g.Later later := .changes (changes_applyAll hg more)
    refine ⟨hlater.length_le, fun p hp n hn => ?_⟩
    exact Option.map_eq_some_iff.mp (hlater.bare? hp (bare?_of_node? hn))
  · intro op e h
    rw [apply, h]
  · intro id p hp hroot
    obtain ⟨n, g', _, hremove, _⟩ := hg.remove_eq_ok hp hroot
    exact ⟨(n, g'), hremove⟩
  · intro id n g' h
    obtain ⟨p, hroot, hp, hn, hwithout⟩ := hg.of_remove h
    refine ⟨p, hroot, hp, hn, hwithout.length, hwithout.node?, fun id' => ?_⟩
    have hiff : g.position? id' = some p ↔ id' = id := by
      constructor
      · intro hp'
        have hid := hg.registered.mp hp
        rw [hg.registered.mp hp'] at hid
        exact Option.some.inj hid
      · rintro rfl
        exact hp
    rw [hwithout.position?]
    by_cases hid : id' = id
    · rw [if_pos hid, if_pos (hiff.mpr hid)]
    · rw [if_neg hid, if_neg fun hp' => hid (hiff.mp hp')]

/-- Two nodes on a cycle, one of them with an edge to itself and one to the
root; the last insertion is refused. -/
def tangle : List (Operation Unit) :=
  [.insert "root" "a" (), .insert "a" "b" (), .addEdge "b" "a", .addEdge "b" "b",
    .addEdge "b" "root", .insert "lost" "c" ()]

theorem tangle_without_b :
    ∃ n g', ((new "root").applyAll tangle).remove "b" = .ok (n, g') ∧
      n = ⟨2, "b", some (), [1, 2, 0], [1, 2]⟩ ∧
      g'.node? 1 = some ⟨1, "a", some (), [], [0]⟩ ∧
      g'.node? root = some ⟨root, "root", none, [1], []⟩ ∧
      g'.node? 2 = none := by
  obtain ⟨_, _, _, _, _, _, _, _, _, hremove, hleft⟩ := applyAll_representation "root" tangle
  obtain ⟨⟨n, g'⟩, hremoved⟩ := hremove "b" 2 (by decide) (by decide)
  obtain ⟨p, _, hp, hn, _, hnodes, _⟩ := hleft "b" n g' hremoved
  have hb : ((new "root").applyAll tangle).position? "b" = some 2 := by decide
  cases hp.symm.trans hb
  refine ⟨n, g', hremoved, Option.some.inj (hn.symm.trans (by decide)), ?_, ?_, ?_⟩
  · rw [hnodes]; decide
  · rw [hnodes]; decide
  · rw [hnodes]; rfl

end Cascade.Graph
