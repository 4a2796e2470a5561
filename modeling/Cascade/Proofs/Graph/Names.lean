import Cascade.Proofs.Graph.Payload
import Mathlib.Data.List.Chain

/-!
# Graphs by the names of their nodes

Positions are a matter of the arena.  What a graph is about can be said with IDs
alone: which of them it knows, which IDs stand below an ID, and in which order.
`insert` is described in these terms (`insert_cases`): it puts one ID at the end of
what is below another one, unless it is there, or it refuses with a cycle that is a
walk through the graph but for its first edge.
-/

namespace Cascade.Graph

open Relation

variable {α : Type}

/-! ## Names -/

/-- An ID is registered. -/
def Knows (g : Graph α) (id : String) : Prop := ∃ p, g.position? id = some p

/-- The IDs of the children of the node with an ID. -/
def childIds (g : Graph α) (id : String) : List String :=
  g.idsAt (((g.position? id).map g.childrenOf).getD [])

/-- One node is another one, or below it. -/
def Leads (g : Graph α) (id id' : String) : Prop := ReflTransGen g.HasChild id id'

theorem idsAt_eq_filterMap (g : Graph α) (positions : List Nat) :
    g.idsAt positions = positions.filterMap g.idAt? := by
  refine List.filterMap_congr fun p _ => ?_
  rw [idAt?, bare?]
  cases g.node? p <;> rfl

theorem childIds_of_position? {g : Graph α} {id : String} {p : Nat} (h : g.position? id = some p) :
    g.childIds id = (g.childrenOf p).filterMap g.idAt? := by
  rw [childIds, h, idsAt_eq_filterMap]
  rfl

theorem childIds_of_not_knows {g : Graph α} {id : String} (h : ¬ g.Knows id) :
    g.childIds id = [] := by
  have hnone : g.position? id = none :=
    Option.eq_none_iff_forall_ne_some.mpr fun p hp => h ⟨p, hp⟩
  rw [childIds, hnone]
  rfl

/-- The root alone knows itself. -/
theorem knows_new {rootId id : String} : (new rootId : Graph α).Knows id ↔ id = rootId := by
  have hposition : (new rootId : Graph α).position? id =
      if rootId = id then some root else none := by
    simp [new, position?, Std.TreeMap.getElem?_insert]
  constructor
  · rintro ⟨p, hp⟩
    rw [hposition] at hp
    split at hp
    · rename_i heq
      exact heq.symm
    · cases hp
  · rintro rfl
    exact ⟨root, by rw [hposition, if_pos rfl]⟩

/-- Graphs that agree on positions, IDs and children agree on names. -/
theorem childIds_congr {β : Type} {g : Graph α} {g' : Graph β} {id : String}
    (hposition : g'.position? id = g.position? id)
    (hids : ∀ p, g'.idAt? p = g.idAt? p) (hchildren : ∀ p, g'.childrenOf p = g.childrenOf p) :
    g'.childIds id = g.childIds id := by
  rw [childIds, childIds, hposition, idsAt_eq_filterMap, idsAt_eq_filterMap, funext hids,
    funext hchildren]

namespace Consistent

variable {g : Graph α}

theorem knows_iff (hg : g.Consistent) {id : String} : g.Knows id ↔ ∃ p, g.idAt? p = some id :=
  exists_congr fun _ => hg.registered

/-- A slot holds one ID. -/
theorem id_unique (hg : g.Consistent) {id id' : String} {p : Nat} (h : g.position? id = some p)
    (h' : g.position? id' = some p) : id = id' := by
  have hid := hg.registered.mp h
  rw [hg.registered.mp h'] at hid
  exact (Option.some.inj hid).symm

/-- The children of a node, by name. -/
theorem mem_childIds (hg : g.Consistent) {id child : String} :
    child ∈ g.childIds id ↔ g.HasChild id child := by
  constructor
  · intro h
    cases hp : g.position? id with
    | none =>
      rw [childIds, hp] at h
      cases h
    | some p =>
      rw [childIds_of_position? hp, List.mem_filterMap] at h
      obtain ⟨c, hc, hid⟩ := h
      exact ⟨p, c, hp, hg.registered.mpr hid, hc⟩
  · rintro ⟨p, c, hp, hc, hedge⟩
    rw [childIds_of_position? hp, List.mem_filterMap]
    exact ⟨c, hedge, hg.registered.mp hc⟩

/-- No other node has the ID of a node. -/
theorem mem_childIds_of_position? (hg : g.Consistent) {id child : String} {p c : Nat}
    (hp : g.position? id = some p) (hc : g.position? child = some c) :
    child ∈ g.childIds id ↔ c ∈ g.childrenOf p := by
  rw [hg.mem_childIds]
  constructor
  · rintro ⟨p', c', hp', hc', hedge⟩
    rw [hp] at hp'
    rw [hc] at hc'
    cases hp'
    cases hc'
    exact hedge
  · exact fun hedge => ⟨p, c, hp, hc, hedge⟩

/-- An edge gives a name to both of its ends. -/
theorem hasChild_of_edge (hg : g.Consistent) {p c : Nat} {id child : String}
    (hp : g.idAt? p = some id) (hc : g.idAt? c = some child) (h : g.Edge p c) :
    g.HasChild id child := ⟨p, c, hg.registered.mpr hp, hg.registered.mpr hc, h⟩

/-- The IDs of a graph are those it knows, the root's apart. -/
theorem mem_ids_iff_knows (hg : g.Consistent) {rootId : String}
    (hroot : g.position? rootId = some root) {id : String} :
    id ∈ g.ids ↔ id ≠ rootId ∧ g.Knows id := by
  rw [hg.mem_ids]
  constructor
  · rintro ⟨p, hp, hid⟩
    refine ⟨?_, p, hg.registered.mpr hid⟩
    rintro rfl
    rw [hg.registered.mpr hid] at hroot
    exact hp (Option.some.inj hroot)
  · rintro ⟨hne, p, hp⟩
    refine ⟨p, ?_, hg.registered.mp hp⟩
    rintro rfl
    exact hne (hg.id_unique hp hroot)

end Consistent

theorem Leads.knows {g : Graph α} {id id' : String} (h : g.Leads id id') (hid' : g.Knows id') :
    g.Knows id := by
  rcases h.cases_head with rfl | ⟨child, ⟨p, _, hp, _⟩, _⟩
  · exact hid'
  · exact ⟨p, hp⟩

/-- A walk along names is a walk along positions. -/
theorem transGen_edge {g : Graph α} {id id' : String} {p p' : Nat} (hp : g.position? id = some p)
    (hp' : g.position? id' = some p') (h : TransGen g.HasChild id id') :
    TransGen g.Edge p p' := by
  induction h generalizing p' with
  | single hchild =>
    obtain ⟨q, c, hq, hc, hedge⟩ := hchild
    rw [hp] at hq
    rw [hp'] at hc
    cases hq
    cases hc
    exact .single hedge
  | tail _ hchild ih =>
    obtain ⟨q, c, hq, hc, hedge⟩ := hchild
    rw [hp'] at hc
    cases hc
    exact (ih hq).tail hedge

/-- No node of a graph without cycles is below itself. -/
theorem Acyclic.not_transGen_hasChild {g : Graph α} (hg : g.Acyclic) (id : String) :
    ¬ TransGen g.HasChild id id := by
  intro h
  obtain ⟨child, ⟨p, _, hp, _⟩, _⟩ := TransGen.head'_iff.mp h
  exact hg p (transGen_edge hp hp h)

/-! ## Paths that are found -/

/-- What is found along a list is found at one place of it. -/
theorem firstAlong_some {σ β γ : Type} {f : β → σ → Option γ × σ} {l : List β} {s : σ} {c : γ}
    (h : (firstAlong f l s).1 = some c) : ∃ b ∈ l, ∃ s, (f b s).1 = some c := by
  induction l generalizing s with
  | nil => cases h
  | cons b l ih =>
    rw [firstAlong] at h
    split at h
    · rename_i hb
      exact ⟨b, List.mem_cons_self .., s, by rw [hb]; exact h⟩
    · obtain ⟨b', hb', hfound⟩ := ih h
      exact ⟨b', List.mem_cons_of_mem _ hb', hfound⟩

theorem searchPath_some {g : Graph α} {target depth current : Nat} {exhausted path : List Nat}
    (h : (g.searchPath target depth current exhausted).1 = some path) :
    path.head? = some current ∧ path.getLast? = some target ∧ path.IsChain g.Edge := by
  induction depth generalizing current exhausted path with
  | zero => cases h
  | succ depth ih =>
    rw [searchPath] at h
    split at h
    · cases h
    rename_i n hn
    split at h
    · rename_i heq
      cases h
      exact ⟨rfl, by rw [heq]; rfl, .singleton _⟩
    dsimp only at h
    split at h
    · rename_i below exhausted' hbelow
      cases h
      obtain ⟨c, hc, s, hvisit⟩ := firstAlong_some (congrArg Prod.fst hbelow)
      split at hvisit
      · cases hvisit
      obtain ⟨hhead, hlast, hchain⟩ := ih hvisit
      cases below with
      | nil => cases hhead
      | cons b rest =>
        cases hhead
        refine ⟨rfl, ?_, List.isChain_cons_cons.mpr ⟨(edge_iff_of_node? hn).mpr hc, hchain⟩⟩
        rw [List.getLast?_cons_cons]
        exact hlast
    · cases h

/-- The path that is found is a walk from the start to the target. -/
theorem findPath_some {g : Graph α} {start target : Nat} {path : List Nat}
    (h : g.findPath start target = some path) :
    path.head? = some start ∧ path.getLast? = some target ∧ path.IsChain g.Edge :=
  searchPath_some h

/-! ## Insertions by name -/

/-- A list with an ID at its end, unless it is there already. -/
def addOnce (ids : List String) (id : String) : List String :=
  if id ∈ ids then ids else ids ++ [id]

@[simp]
theorem mem_addOnce {ids : List String} {id id' : String} :
    id' ∈ addOnce ids id ↔ id' ∈ ids ∨ id' = id := by
  unfold addOnce
  split
  · rename_i hmem
    exact ⟨Or.inl, fun h => h.elim (fun h => h) fun heq => heq ▸ hmem⟩
  · simp

/-- What an insertion puts at a position is found there, and everything else where it
was. -/
theorem position?_insert {g g' : Graph α} {parentId childId : String} {payload : α}
    {position : Nat} (h : g.insert parentId childId payload = .ok (position, g')) (id : String) :
    g'.position? id = if childId = id then some position else g.position? id := by
  obtain ⟨p, _, ⟨c, hc, _, rfl, rfl⟩ | ⟨_, rfl, rfl⟩⟩ := insert_eq_ok_cases h
  · rw [position?_link]
    split
    · rename_i heq
      rw [← heq, hc]
    · rfl
  · rw [position?_link, position?_register]

/-- The nodes of a graph keep their positions when one is put below another. -/
theorem position?_of_insert {g g' : Graph α} {parentId childId : String} {payload : α}
    {position : Nat} (h : g.insert parentId childId payload = .ok (position, g')) :
    g'.position? childId = some position ∧
      ∀ id p, g.position? id = some p → g'.position? id = some p := by
  refine ⟨by rw [position?_insert h, if_pos rfl], fun id p hp => ?_⟩
  rw [position?_insert h]
  split
  · rename_i heq
    subst heq
    obtain ⟨_, _, ⟨c, hc, _, rfl, _⟩ | ⟨hnone, _⟩⟩ := insert_eq_ok_cases h
    · exact hc.symm.trans hp
    · rw [hnone] at hp
      cases hp
  · exact hp

/-- An insertion makes one ID known. -/
theorem knows_insert {g g' : Graph α} {parentId childId : String} {payload : α}
    {position : Nat} (h : g.insert parentId childId payload = .ok (position, g')) (id : String) :
    g'.Knows id ↔ g.Knows id ∨ id = childId := by
  constructor
  · rintro ⟨p, hp⟩
    rw [position?_insert h] at hp
    split at hp
    · rename_i heq
      exact Or.inr heq.symm
    · exact Or.inl ⟨p, hp⟩
  · rintro (⟨p, hp⟩ | rfl)
    · exact ⟨p, (position?_of_insert h).2 id p hp⟩
    · exact ⟨position, (position?_of_insert h).1⟩

theorem knows_of_insert {g g' : Graph α} {parentId childId : String} {payload : α}
    {position : Nat} (h : g.insert parentId childId payload = .ok (position, g')) :
    g.Knows parentId := by
  obtain ⟨p, hp, _⟩ := insert_eq_ok_cases h
  exact ⟨p, hp⟩

/-- Linking puts a name at the end of another one's list, unless it is there. -/
theorem Consistent.childIds_link {g : Graph α} (hg : g.Consistent) {parentId childId : String}
    {p c : Nat} (hp : g.position? parentId = some p) (hc : g.position? childId = some c)
    (id : String) : (g.link p c).childIds id =
      if id = parentId then addOnce (g.childIds parentId) childId else g.childIds id := by
  have hids : (g.link p c).idAt? = g.idAt? := by
    funext q
    rw [idAt?, bare?_link, idAt?]
  have hocc := occupied_of_idAt? (hg.registered.mp hp)
  by_cases hknows : g.Knows id
  · obtain ⟨q, hq⟩ := hknows
    have heq : id = parentId ↔ p = q := by
      constructor
      · rintro rfl
        exact Option.some.inj (hp.symm.trans hq)
      · rintro rfl
        exact hg.id_unique hq hp
    have hmember := hg.mem_childIds_of_position? hp hc
    rw [childIds_of_position? (g := g.link p c) (by rw [position?_link, hq]), hids,
      childrenOf_link hocc, addOnce]
    by_cases hpq : p = q
    · subst hpq
      rw [if_pos (heq.mpr rfl)]
      by_cases hmem : c ∈ g.childrenOf p
      · rw [if_neg fun hand => hand.2 hmem, if_pos (hmember.mpr hmem), childIds_of_position? hp]
      · rw [if_pos ⟨rfl, hmem⟩, if_neg (mt hmember.mp hmem), childIds_of_position? hp,
          List.filterMap_append]
        simp [hg.registered.mp hc]
    · rw [if_neg fun hand => hpq hand.1, if_neg fun h => hpq (heq.mp h),
        childIds_of_position? hq]
  · have hne : id ≠ parentId := by
      rintro rfl
      exact hknows ⟨p, hp⟩
    rw [if_neg hne, childIds_of_not_knows hknows, childIds_of_not_knows]
    rintro ⟨q, hq⟩
    exact hknows ⟨q, by rwa [position?_link] at hq⟩

/-- A node that was just registered has no children, and all others keep theirs. -/
theorem Consistent.childIds_register {g : Graph α} (hg : g.Consistent) {newId : String}
    (hnew : g.position? newId = none) (payload : α) (id : String) :
    (g.register newId payload).2.childIds id = g.childIds id := by
  by_cases hid : newId = id
  · subst hid
    have hvacant : g.childrenOf g.slots.length = [] := by
      rw [childrenOf, node?_length]
      rfl
    rw [childIds, position?_register, if_pos rfl, childIds, hnew, idsAt_eq_filterMap]
    simp [hvacant, idsAt]
  · rw [childIds, childIds, position?_register, if_neg hid, idsAt_eq_filterMap,
      idsAt_eq_filterMap]
    cases hp : g.position? id with
    | none => rfl
    | some p =>
      simp only [Option.map_some, Option.getD_some, childrenOf_register]
      refine List.filterMap_congr fun c hc => ?_
      have hlt := (hg.occupied_target (p := p) (c := c) hc).lt_length
      rw [idAt?, bare?_register, if_neg (Nat.ne_of_lt hlt), idAt?]

/-- An insertion puts an ID at the end of what is below another one. -/
theorem Consistent.childIds_insert {g g' : Graph α} (hg : g.Consistent)
    {parentId childId : String} {payload : α} {position : Nat}
    (h : g.insert parentId childId payload = .ok (position, g')) (id : String) :
    g'.childIds id =
      if id = parentId then addOnce (g.childIds parentId) childId else g.childIds id := by
  obtain ⟨p, hp, ⟨c, hc, _, _, rfl⟩ | ⟨hc, _, rfl⟩⟩ := insert_eq_ok_cases h
  · exact hg.childIds_link hp hc id
  · have hne : childId ≠ parentId := by
      rintro rfl
      rw [hc] at hp
      cases hp
    have hp' : (g.register childId payload).2.position? parentId = some p := by
      rw [position?_register, if_neg hne, hp]
    have hc' : (g.register childId payload).2.position? childId = some g.slots.length := by
      rw [position?_register, if_pos rfl]
    rw [(hg.register hc payload).childIds_link hp' hc', hg.childIds_register hc,
      hg.childIds_register hc]

/-- A walk along positions is a walk along names. -/
theorem Consistent.isChain_idsAt {g : Graph α} (hg : g.Consistent) {p : Nat} {rest : List Nat}
    {id : String} (hp : g.idAt? p = some id) (h : (p :: rest).IsChain g.Edge) :
    (id :: g.idsAt rest).IsChain g.HasChild := by
  induction rest generalizing p id with
  | nil => exact .singleton _
  | cons c rest ih =>
    obtain ⟨hedge, hchain⟩ := List.isChain_cons_cons.mp h
    obtain ⟨child, hc⟩ := (hg.occupied_target hedge).exists_idAt?
    have hids : g.idsAt (c :: rest) = child :: g.idsAt rest := by
      rw [idsAt_eq_filterMap, idsAt_eq_filterMap, List.filterMap_cons_some hc]
    rw [hids]
    exact List.isChain_cons_cons.mpr ⟨hg.hasChild_of_edge hp hc hedge, ih hc hchain⟩

/-- An insertion below a node succeeds, or is refused with a walk from the child to the
node. -/
theorem Consistent.insert_cases {g : Graph α} (hg : g.Consistent) {parentId : String}
    (hparent : g.Knows parentId) (childId : String) (payload : α) :
    (∃ position g', g.insert parentId childId payload = .ok (position, g')) ∨
      ∃ rest, g.insert parentId childId payload =
          .error (.cyclic (parentId :: childId :: rest)) ∧ g.Knows childId ∧
        (childId :: rest).getLast? = some parentId ∧ (childId :: rest).IsChain g.HasChild := by
  obtain ⟨p, hp⟩ := hparent
  cases hc : g.position? childId with
  | none =>
    refine Or.inl ⟨g.slots.length, (g.register childId payload).2.link p g.slots.length, ?_⟩
    rw [insert, hp]
    dsimp only
    rw [hc]
    rfl
  | some c =>
    have hcid := hg.registered.mp hc
    cases hpath : g.findPath c p with
    | none =>
      refine Or.inl ⟨c, g.link p c, ?_⟩
      rw [insert, hp]
      dsimp only
      rw [hc]
      dsimp only
      rw [hpath]
    | some path =>
      obtain ⟨hhead, hlast, hchain⟩ := findPath_some hpath
      obtain ⟨rest, rfl⟩ : ∃ rest, path = c :: rest := by
        cases path with
        | nil => cases hhead
        | cons b rest =>
          cases hhead
          exact ⟨rest, rfl⟩
      have hids : g.idsAt (c :: rest) = childId :: g.idsAt rest := by
        rw [idsAt_eq_filterMap, idsAt_eq_filterMap, List.filterMap_cons_some hcid]
      refine Or.inr ⟨g.idsAt rest, ?_, ⟨c, hc⟩, ?_, hg.isChain_idsAt hcid hchain⟩
      · rw [insert, hp]
        dsimp only
        rw [hc]
        dsimp only
        rw [hpath, ← hids]
      · -- the last position of the path is the parent's
        obtain ⟨before, hbefore⟩ := List.getLast?_eq_some_iff.mp hlast
        rw [← hids, hbefore, idsAt_eq_filterMap, List.filterMap_append,
          List.filterMap_cons_some (hg.registered.mp hp)]
        exact List.getLast?_concat ..

end Cascade.Graph
