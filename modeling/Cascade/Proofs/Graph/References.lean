import Cascade.Proofs.Graph.Names

/-!
# Graphs of references

The nodes of a graph may carry references instead of payloads.  `bindPayload` is such a
graph with each reference replaced by what it refers to.

* `payload?` is what the node with an ID carries, and there is one equation for each
  operation.
* Reading references commutes with the operations: an insertion does the same before and
  after (`insert_bindPayload`), and a change of what is referred to is a change of a payload
  (`bindPayload_eq_modifyPayload`).
-/

namespace Cascade

variable {α β : Type}

/-- A node with its payload replaced by what it refers to. -/
def Node.bindPayload (f : α → Option β) (n : Node α) : Node β :=
  ⟨n.position, n.id, n.payload.bind f, n.children, n.parents⟩

namespace Graph

/-- A graph with every payload replaced by what it refers to. -/
def bindPayload (g : Graph α) (f : α → Option β) : Graph β :=
  ⟨g.slots.map (Option.map (Node.bindPayload f)), g.positions⟩

/-- What the node with an ID carries. -/
def payload? (g : Graph α) (id : String) : Option α := (g.find? id).bind (·.payload)

variable {g g' : Graph α}

/-! ## What a node carries -/

theorem payload?_eq (g : Graph α) (id : String) :
    g.payload? id = (g.position? id).bind fun p => (g.bare? p).bind (·.payload) := by
  rw [payload?, find?, Option.bind_assoc]
  refine congrArg _ (funext fun p => ?_)
  rw [bare?]
  cases g.node? p <;> rfl

theorem payload?_of_node? {p : Nat} {n : Node α} (hp : g.position? n.id = some p)
    (hn : g.node? p = some n) : g.payload? n.id = n.payload := by
  rw [payload?, find?, hp, Option.bind_some, hn, Option.bind_some]

/-- What the node at a position carries is what the node with its ID carries. -/
theorem Consistent.bind_payload? (hg : g.Consistent) (p : Nat) :
    (g.idAt? p).bind g.payload? = (g.node? p).bind (·.payload) := by
  cases hn : g.node? p with
  | none => rw [idAt?, bare?, hn]; rfl
  | some n =>
    have hid := idAt?_of_node? hn
    rw [hid, Option.bind_some, Option.bind_some, payload?_of_node? (hg.registered.mpr hid) hn]

/-- The root alone carries nothing. -/
theorem payload?_new (rootId id : String) : (new rootId : Graph α).payload? id = none := by
  rw [payload?_eq, Option.bind_eq_none_iff]
  intro p _
  cases p <;> rfl

/-- What is carried is carried by a node with this ID. -/
theorem Consistent.exists_of_payload? (hg : g.Consistent) {id : String} {a : α}
    (h : g.payload? id = some a) :
    ∃ p n, g.position? id = some p ∧ g.node? p = some n ∧ n.id = id ∧ n.payload = some a := by
  obtain ⟨n, hfind, hpayload⟩ := Option.bind_eq_some_iff.mp h
  obtain ⟨p, hp, hn⟩ := Option.bind_eq_some_iff.mp hfind
  obtain ⟨n', hn', hid⟩ := hg.exists_node? hp
  cases hn.symm.trans hn'
  exact ⟨p, n, hp, hn, hid, hpayload⟩

/-- An insertion adds a payload just if it adds a node. -/
theorem Consistent.payload?_insert (hg : g.Consistent) {parentId childId : String} {payload : α}
    {position : Nat} (h : g.insert parentId childId payload = .ok (position, g')) (id : String) :
    g'.payload? id =
      if id = childId ∧ g.position? childId = none then some payload else g.payload? id := by
  rw [payload?_eq, payload?_eq]
  obtain ⟨p, _, ⟨c, hc, _, _, rfl⟩ | ⟨hnew, _, rfl⟩⟩ := insert_eq_ok_cases h
  · simp [hc]
  · simp only [position?_link, position?_register, bare?_link, bare?_register, hnew, and_true]
    by_cases hid : id = childId
    · simp [hid, Node.isolated]
    · rw [if_neg (Ne.symm hid), if_neg hid]
      cases hp : g.position? id with
      | none => rfl
      | some q =>
        have hlt := (occupied_of_idAt? (hg.registered.mp hp)).lt_length
        rw [Option.bind_some, Option.bind_some, if_neg (Nat.ne_of_lt hlt)]

/-- An insertion keeps what is carried. -/
theorem Consistent.payload?_of_insert (hg : g.Consistent) {parentId childId : String}
    {payload : α} {position : Nat} (h : g.insert parentId childId payload = .ok (position, g'))
    {id : String} {a : α} (ha : g.payload? id = some a) : g'.payload? id = some a := by
  obtain ⟨p, n, hp, _⟩ := hg.exists_of_payload? ha
  rw [hg.payload?_insert h, if_neg, ha]
  rintro ⟨rfl, hnone⟩
  cases hp.symm.trans hnone

theorem Consistent.payload?_modifyPayload (hg : g.Consistent) (id : String) (f : α → α)
    (id' : String) : (g.modifyPayload id f).payload? id' =
      if id' = id then (g.payload? id).map f else g.payload? id' := by
  rw [payload?_eq, payload?_eq, payload?_eq, position?_modifyPayload]
  cases hp' : g.position? id' with
  | none =>
    split
    · rename_i heq
      rw [← heq, hp']
      rfl
    · rfl
  | some p' =>
    have hsame : g.position? id = some p' ↔ id' = id := by
      constructor
      · exact fun hp => hg.id_unique hp' hp
      · rintro rfl
        exact hp'
    rw [Option.bind_some, Option.bind_some, bare?_modifyPayload]
    by_cases heq : id' = id
    · rw [if_pos heq, hsame.mpr heq, Option.bind_some]
      cases g.bare? p' with
      | none => rfl
      | some b => simp
    · rw [if_neg heq]
      cases g.bare? p' with
      | none => rfl
      | some b => rw [Option.map_some, if_neg (mt hsame.mp heq)]

/-! ## Reading references -/

section Reading

variable (g : Graph α) (f : α → Option β)

@[simp]
theorem node?_bindPayload (p : Nat) :
    (g.bindPayload f).node? p = (g.node? p).map (Node.bindPayload f) := by
  rw [node?, node?, bindPayload, List.getElem?_map]
  rcases g.slots[p]? with _ | (_ | _) <;> rfl

@[simp]
theorem position?_bindPayload (id : String) :
    (g.bindPayload f).position? id = g.position? id := rfl

@[simp]
theorem length_bindPayload : (g.bindPayload f).slots.length = g.slots.length :=
  List.length_map ..

@[simp]
theorem childrenOf_bindPayload (p : Nat) :
    (g.bindPayload f).childrenOf p = g.childrenOf p := by
  rw [childrenOf, childrenOf, node?_bindPayload]
  cases g.node? p <;> rfl

@[simp]
theorem parentsOf_bindPayload (p : Nat) :
    (g.bindPayload f).parentsOf p = g.parentsOf p := by
  rw [parentsOf, parentsOf, node?_bindPayload]
  cases g.node? p <;> rfl

@[simp]
theorem idAt?_bindPayload (p : Nat) : (g.bindPayload f).idAt? p = g.idAt? p := by
  rw [idAt?, idAt?, bare?, bare?, node?_bindPayload]
  cases g.node? p <;> rfl

@[simp]
theorem payload?_bindPayload (id : String) :
    (g.bindPayload f).payload? id = (g.payload? id).bind f := by
  rw [payload?, payload?, find?, find?, position?_bindPayload]
  cases hp : g.position? id with
  | none => rfl
  | some p =>
    rw [Option.bind_some, Option.bind_some, node?_bindPayload]
    cases g.node? p <;> rfl

/-- References do not matter to a graph being consistent. -/
theorem consistent_of_bindPayload (h : (g.bindPayload f).Consistent) : g.Consistent := by
  have hoccupied : ∀ q, (g.bindPayload f).Occupied q ↔ g.Occupied q := by
    intro q
    rw [Occupied, Occupied, bare?, bare?, Option.isSome_map, Option.isSome_map,
      node?_bindPayload, Option.isSome_map]
  constructor
  · intro p b hb
    obtain ⟨n, hn, rfl⟩ := Option.map_eq_some_iff.mp hb
    have hnode : (g.bindPayload f).node? p = some (n.bindPayload f) := by
      rw [node?_bindPayload, hn, Option.map_some]
    exact h.node_position hnode
  · intro id p
    have hregistered : (g.bindPayload f).position? id = some p ↔
        (g.bindPayload f).idAt? p = some id := h.registered
    rwa [position?_bindPayload, idAt?_bindPayload] at hregistered
  · exact (hoccupied root).mp h.root_occupied
  · intro p c
    have hmirrored := h.mirrored (p := p) (c := c)
    rwa [childrenOf_bindPayload, parentsOf_bindPayload] at hmirrored
  · intro p
    have hnodup := h.children_nodup p
    rwa [childrenOf_bindPayload] at hnodup
  · intro p
    have hnodup := h.parents_nodup p
    rwa [parentsOf_bindPayload] at hnodup

/-- A search for a path does not look at payloads. -/
theorem searchPath_bindPayload (target depth current : Nat) (exhausted : List Nat) :
    (g.bindPayload f).searchPath target depth current exhausted =
      g.searchPath target depth current exhausted := by
  induction depth generalizing current exhausted with
  | zero => rfl
  | succ depth ih =>
    rw [searchPath, searchPath, node?_bindPayload]
    cases g.node? current with
    | none => rfl
    | some n => simp only [Option.map_some, Node.bindPayload, ih]

@[simp]
theorem findPath_bindPayload (start target : Nat) :
    (g.bindPayload f).findPath start target = g.findPath start target := by
  rw [findPath, findPath, length_bindPayload, searchPath_bindPayload]

@[simp]
theorem idsAt_bindPayload (positions : List Nat) :
    (g.bindPayload f).idsAt positions = g.idsAt positions := by
  rw [idsAt_eq_filterMap, idsAt_eq_filterMap]
  exact List.filterMap_congr fun p _ => idAt?_bindPayload g f p

end Reading

/-- Two graphs are the same if they have the same nodes in as many slots, and the same
positions. -/
theorem ext_node? (hlength : g.slots.length = g'.slots.length)
    (hnode : ∀ p, g.node? p = g'.node? p) (hpositions : g.positions = g'.positions) :
    g = g' := by
  obtain ⟨slots, positions⟩ := g
  obtain ⟨slots', positions'⟩ := g'
  obtain rfl : positions = positions' := hpositions
  congr 1
  refine List.ext_getElem hlength fun p hp hp' => ?_
  have hsame := hnode p
  simpa only [node?, List.getElem?_eq_getElem hp, List.getElem?_eq_getElem hp',
    Option.join_some] using hsame

theorem link_bindPayload (g : Graph α) (f : α → Option β) (p c : Nat) :
    (g.bindPayload f).link p c = (g.link p c).bindPayload f := by
  by_cases h : c ∈ g.childrenOf p
  · rw [link, link, if_pos h, if_pos ((childrenOf_bindPayload g f p).symm ▸ h)]
  · have h' : c ∉ (g.bindPayload f).childrenOf p := (childrenOf_bindPayload g f p).symm ▸ h
    refine ext_node? ?_ (fun q => ?_) ?_
    · rw [length_bindPayload, link, link, if_neg h, if_neg h']
      simp [modifyAt]
    · rw [node?_link h', node?_bindPayload, node?_bindPayload, node?_link h]
      cases g.node? q <;> rfl
    · rw [link, if_neg h', bindPayload, link, if_neg h]
      rfl

theorem register_bindPayload (g : Graph α) {f : α → Option β} {a : α} {b : β} (h : f a = some b)
    (id : String) : (g.bindPayload f).register id b =
      ((g.register id a).1, (g.register id a).2.bindPayload f) := by
  have hnode : Node.bindPayload f (.isolated g.slots.length id (some a)) =
      .isolated g.slots.length id (some b) := by
    rw [Node.bindPayload, Node.isolated, Option.bind_some, h]
    rfl
  simp only [register, bindPayload, List.length_map, List.map_append, List.map_cons,
    List.map_nil, Option.map_some, hnode]

/-- Inserting what is referred to is inserting a reference to it. -/
theorem insert_bindPayload (g : Graph α) {f : α → Option β} {a : α} {b : β} (h : f a = some b)
    (parentId childId : String) : (g.bindPayload f).insert parentId childId b =
      (g.insert parentId childId a).map fun placed => (placed.1, placed.2.bindPayload f) := by
  rw [insert, insert, position?_bindPayload, position?_bindPayload]
  cases g.position? parentId with
  | none => rfl
  | some p =>
    cases g.position? childId with
    | none =>
      dsimp only
      rw [register_bindPayload g h]
      dsimp only
      rw [link_bindPayload]
      rfl
    | some c =>
      dsimp only
      rw [findPath_bindPayload]
      cases g.findPath c p with
      | none =>
        dsimp only
        rw [link_bindPayload]
        rfl
      | some path =>
        dsimp only
        rw [idsAt_bindPayload]
        rfl

/-- Where two readings agree on what a graph refers to, they yield the same graph. -/
theorem bindPayload_congr {f f' : α → Option β}
    (h : ∀ p n a, g.node? p = some n → n.payload = some a → f a = f' a) :
    g.bindPayload f = g.bindPayload f' := by
  refine ext_node? (by simp) (fun p => ?_) rfl
  rw [node?_bindPayload, node?_bindPayload]
  cases hn : g.node? p with
  | none => rfl
  | some n =>
    rw [Option.map_some, Option.map_some, Node.bindPayload, Node.bindPayload]
    cases hpayload : n.payload with
    | none => rfl
    | some a => rw [Option.bind_some, Option.bind_some, h p n a hn hpayload]

/-- Changing what one node refers to changes what it carries. -/
theorem bindPayload_eq_modifyPayload (hg : g.Consistent) {f f' : α → Option β} {h : β → β}
    {id : String} (hhere : ∀ a, g.payload? id = some a → f' a = (f a).map h)
    (hothers : ∀ id' a, id' ≠ id → g.payload? id' = some a → f' a = f a) :
    g.bindPayload f' = (g.bindPayload f).modifyPayload id h := by
  refine ext_node? ?_ (fun p => ?_) ?_
  · rw [modifyPayload, length_bindPayload]
    split <;> simp [modifyAt]
  · rw [node?_modifyPayload, position?_bindPayload, node?_bindPayload, node?_bindPayload]
    cases hn : g.node? p with
    | none => rfl
    | some n =>
      have hp : g.position? n.id = some p := hg.registered.mpr (idAt?_of_node? hn)
      have hpayload := payload?_of_node? hp hn
      simp only [Option.map_some, Node.bindPayload]
      split
      · rename_i hid
        obtain rfl := hg.id_unique hp hid
        cases ha : n.payload with
        | none => rfl
        | some a => simp [hhere a (hpayload.trans ha)]
      · rename_i hne
        have hid : n.id ≠ id := fun heq => hne (heq ▸ hp)
        cases ha : n.payload with
        | none => rfl
        | some a => simp [hothers n.id a hid (hpayload.trans ha)]
  · rw [modifyPayload]
    split <;> rfl

end Graph

end Cascade
