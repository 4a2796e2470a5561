import Cascade.Proofs.Graph.Consistent
import Mathlib.Data.Finset.Card
import Mathlib.Logic.Relation

/-!
# Graphs without cycles below a root

A graph that grows by `insert` alone is a hierarchy: its representation is
consistent, it has no cycle, and every node but the root has a parent.

There are four groups.

* Reachability.  `weight` counts the nodes that can be reached from a
  position.  In a graph without cycles it falls along every edge, so it
  bounds the depth of a search, and it gives one induction that goes down
  the edges and one that goes up.
* The search for a path.  `findPath_none` says that a search that finds
  nothing has missed nothing.
* `Hierarchy`.  Every node of a hierarchy can be reached from its root
  (`Hierarchy.reaches`).
* `Grown`, the graphs that come from the root alone by insertions, and
  `Grown.hierarchy`, which says that they are hierarchies.
-/

namespace Cascade.Graph

open Relation

variable {α : Type}

/-! ## Reachability -/

/-- `q` can be reached from `p` in any number of edges, none included. -/
def Reaches (g : Graph α) (p q : Nat) : Prop := ReflTransGen g.Edge p q

/-- The node `child` is one of the children of the node `parent`. -/
def HasChild (g : Graph α) (parent child : String) : Prop :=
  ∃ p c, g.position? parent = some p ∧ g.position? child = some c ∧ g.Edge p c

/-- No node can be reached from itself in one edge or more. -/
def Acyclic (g : Graph α) : Prop := ∀ p, ¬ TransGen g.Edge p p

/-- No node that can be reached from a position can be reached from itself in one edge or
more; there may be cycles elsewhere. -/
def AcyclicBelow (g : Graph α) (p : Nat) : Prop := ∀ q, g.Reaches p q → ¬ TransGen g.Edge q q

theorem Acyclic.below {g : Graph α} (hac : g.Acyclic) (p : Nat) : g.AcyclicBelow p :=
  fun q _ => hac q

theorem AcyclicBelow.child {g : Graph α} {p c : Nat} (hac : g.AcyclicBelow p) (h : g.Edge p c) :
    g.AcyclicBelow c :=
  fun q hq => hac q (ReflTransGen.head h hq)

theorem Consistent.occupied_of_reaches {g : Graph α} (hg : g.Consistent) {p q : Nat}
    (hp : g.Occupied p) (h : g.Reaches p q) : g.Occupied q := by
  induction h with
  | refl => exact hp
  | tail _ hedge _ => exact hg.occupied_target hedge

/-- What a node reaches is the node itself or is reached by a child. -/
theorem Reaches.cases_children {g : Graph α} {p r : Nat} {n : Node α}
    (h : g.Reaches p r) (hn : g.node? p = some n) : r = p ∨ ∃ c ∈ n.children, g.Reaches c r := by
  rcases h.cases_head with rfl | ⟨c, hc, hreach⟩
  · exact Or.inl rfl
  · exact Or.inr ⟨c, (edge_iff_of_node? hn).mp hc, hreach⟩

open Classical in
/-- The positions that can be reached from a position. -/
noncomputable def cone (g : Graph α) (p : Nat) : Finset Nat :=
  (Finset.range g.slots.length).filter (g.Reaches p)

/-- How many positions can be reached from a position. -/
noncomputable def weight (g : Graph α) (p : Nat) : Nat := (g.cone p).card

theorem Consistent.mem_cone {g : Graph α} (hg : g.Consistent) {p q : Nat}
    (hp : g.Occupied p) : q ∈ g.cone p ↔ g.Reaches p q := by
  classical
  rw [cone, Finset.mem_filter, Finset.mem_range]
  exact ⟨And.right, fun h => ⟨(hg.occupied_of_reaches hp h).lt_length, h⟩⟩

theorem weight_le (g : Graph α) (p : Nat) : g.weight p ≤ g.slots.length := by
  classical
  rw [weight, cone]
  exact (Finset.card_filter_le ..).trans_eq (Finset.card_range _)

theorem Consistent.weight_pos {g : Graph α} (hg : g.Consistent) {p : Nat}
    (hp : g.Occupied p) : 0 < g.weight p :=
  Finset.card_pos.mpr ⟨p, (hg.mem_cone hp).mpr .refl⟩

/-- The weight falls along an edge: whatever is below the target is below
the source, and the source itself is not below the target. -/
theorem AcyclicBelow.weight_lt {g : Graph α} {p c : Nat} (hac : g.AcyclicBelow p)
    (hg : g.Consistent) (h : g.Edge p c) : g.weight c < g.weight p := by
  have hp := occupied_of_mem_childrenOf h
  have hc := hg.occupied_target h
  apply Finset.card_lt_card
  rw [Finset.ssubset_iff_of_subset]
  · refine ⟨p, (hg.mem_cone hp).mpr .refl, fun hmem => ?_⟩
    have hback := (hg.mem_cone hc).mp hmem
    exact hac p .refl (TransGen.head' h hback)
  · intro q hq
    rw [hg.mem_cone hc] at hq
    exact (hg.mem_cone hp).mpr (ReflTransGen.head h hq)

theorem Acyclic.weight_lt {g : Graph α} (hac : g.Acyclic) (hg : g.Consistent) {p c : Nat}
    (h : g.Edge p c) : g.weight c < g.weight p :=
  (hac.below p).weight_lt hg h

/-- Induction down the edges of a graph without cycles. -/
theorem Acyclic.induction_down {g : Graph α} (hac : g.Acyclic) (hg : g.Consistent)
    {P : Nat → Prop} (hstep : ∀ p, (∀ c, g.Edge p c → P c) → P p) (p : Nat) : P p := by
  induction hw : g.weight p using Nat.strongRecOn generalizing p with
  | _ w ih =>
    refine hstep p fun c hc => ?_
    have hlt := hac.weight_lt hg hc
    exact ih (g.weight c) (by omega) c rfl

/-- Induction up the edges of a graph without cycles. -/
theorem Acyclic.induction_up {g : Graph α} (hac : g.Acyclic) (hg : g.Consistent)
    {P : Nat → Prop} (hstep : ∀ c, (∀ p, g.Edge p c → P p) → P c) (c : Nat) : P c := by
  induction hw : g.slots.length - g.weight c using Nat.strongRecOn generalizing c with
  | _ w ih =>
    refine hstep c fun p hp => ?_
    have hlt := hac.weight_lt hg hp
    have hle := g.weight_le p
    exact ih (g.slots.length - g.weight p) (by omega) p rfl

/-- A path that may use more edges than before, all of them from one source, either does
not need them, or leads to their source and on from one of their targets. -/
theorem transGen_or_of_new_edges {R R' : Nat → Nat → Prop} {p : Nat} {new : Nat → Prop}
    (hR : ∀ a b, R' a b → R a b ∨ (a = p ∧ new b)) {x y : Nat} (h : TransGen R' x y) :
    TransGen R x y ∨ ∃ c, new c ∧ ReflTransGen R x p ∧ ReflTransGen R c y := by
  induction h with
  | single hxy =>
    rcases hR _ _ hxy with hold | ⟨rfl, hnew⟩
    · exact Or.inl (.single hold)
    · exact Or.inr ⟨_, hnew, .refl, .refl⟩
  | tail _ hyz ih =>
    rcases hR _ _ hyz with hold | ⟨rfl, hnew⟩
    · rcases ih with hxy | ⟨c, hc, hxp, hcy⟩
      · exact Or.inl (hxy.tail hold)
      · exact Or.inr ⟨c, hc, hxp, hcy.tail hold⟩
    · rcases ih with hxy | ⟨_, _, hxp, _⟩
      · exact Or.inr ⟨_, hnew, hxy.to_reflTransGen, .refl⟩
      · exact Or.inr ⟨_, hnew, hxp, .refl⟩

/-- Edges from one source close a cycle just if the source can be reached from one of
their targets. -/
theorem acyclic_iff_of_new_edges {g g' : Graph α} {p : Nat} {new : Nat → Prop}
    (hedge : ∀ a b, g'.Edge a b ↔ g.Edge a b ∨ (a = p ∧ new b)) :
    g'.Acyclic ↔ g.Acyclic ∧ ∀ c, new c → ¬ g.Reaches c p := by
  have hold : ∀ a b, g.Edge a b → g'.Edge a b := fun a b h => (hedge a b).mpr (Or.inl h)
  constructor
  · intro hac
    refine ⟨fun q hq => hac q (TransGen.mono hold q q hq), fun c hc hreach => ?_⟩
    have hback : g'.Reaches c p := ReflTransGen.mono hold c p hreach
    exact hac p (TransGen.head' ((hedge p c).mpr (Or.inr ⟨rfl, hc⟩)) hback)
  · rintro ⟨hac, hnew⟩ q hq
    rcases transGen_or_of_new_edges (fun a b => (hedge a b).mp) hq with hcycle | ⟨c, hc, hqp, hcq⟩
    · exact hac q hcycle
    · exact hnew c hc (hcq.trans hqp)

/-- An edge closes no cycle if its source cannot be reached from its
target. -/
theorem Acyclic.link {g : Graph α} (hac : g.Acyclic) {p c : Nat} (hp : g.Occupied p)
    (h : ¬ g.Reaches c p) : (g.link p c).Acyclic :=
  (acyclic_iff_of_new_edges fun _ _ => edge_link_iff hp).mpr ⟨hac, fun _ hc => hc ▸ h⟩

/-! ## The search for a path -/

/-- If nothing is found along a list, then the state keeps what every
attempt that finds nothing keeps, and every attempt found nothing. -/
theorem firstAlong_none {σ β γ : Type} {f : β → σ → Option γ × σ} {I : σ → Prop}
    {Q : β → Prop} (l : List β)
    (hstep : ∀ b ∈ l, ∀ s s', I s → f b s = (none, s') → I s' ∧ Q b) (s s' : σ)
    (hs : I s) (h : firstAlong f l s = (none, s')) : I s' ∧ ∀ b ∈ l, Q b := by
  induction l generalizing s with
  | nil =>
    rw [firstAlong, Prod.mk.injEq] at h
    exact ⟨h.2 ▸ hs, by simp⟩
  | cons b l ih =>
    rw [firstAlong] at h
    split at h
    · cases h
    · rename_i s₁ hb
      obtain ⟨hs₁, hQb⟩ := hstep b (by simp) s s₁ hs hb
      obtain ⟨hs', hQ⟩ := ih (fun b' hb' => hstep b' (List.mem_cons_of_mem b hb')) s₁ hs₁ h
      refine ⟨hs', fun b' hb' => ?_⟩
      rcases List.mem_cons.mp hb' with rfl | hb'
      · exact hQb
      · exact hQ b' hb'

/-- A search that finds no path below a node may take all nodes that it then knows for
exhausted, this one among them: none of them leads to the target. -/
theorem searchPath_none {g : Graph α} (hg : g.Consistent) (target : Nat) :
    ∀ (depth current : Nat) (exhausted exhausted' : List Nat),
      g.Occupied current → g.AcyclicBelow current → g.weight current ≤ depth →
      (∀ x ∈ exhausted, ¬ g.Reaches x target) →
      g.searchPath target depth current exhausted = (none, exhausted') →
      (∀ x ∈ exhausted', ¬ g.Reaches x target) ∧ ¬ g.Reaches current target := by
  intro depth
  induction depth with
  | zero =>
    intro current _ _ hocc _ hdepth _ _
    have hpos := hg.weight_pos hocc
    omega
  | succ depth ih =>
    intro current exhausted exhausted' hocc hac hdepth hexh h
    obtain ⟨n, hn⟩ := hocc.exists_node?
    simp only [searchPath, hn] at h
    split at h
    · cases h
    · rename_i hne
      split at h
      · cases h
      · rename_i exhausted₁ hfirst
        cases h
        have hbelow : ∀ c ∈ n.children, g.Edge current c := fun c => (edge_iff_of_node? hn).mpr
        -- the nodes that are known not to lead to the target stay such nodes
        have hchildren := firstAlong_none (I := fun s => ∀ x ∈ s, ¬ g.Reaches x target)
          (Q := fun c => ¬ g.Reaches c target) n.children ?_ exhausted exhausted₁ hexh hfirst
        · obtain ⟨hexh₁, hno⟩ := hchildren
          have hcurrent : ¬ g.Reaches current target := by
            intro hreach
            rcases hreach.cases_children hn with rfl | ⟨c, hc, hreach⟩
            · exact hne rfl
            · exact hno c hc hreach
          refine ⟨fun x hx => ?_, hcurrent⟩
          rcases List.mem_cons.mp hx with rfl | hx
          · exact hcurrent
          · exact hexh₁ x hx
        · intro c hc s s' hs hvisit
          split at hvisit
          · rename_i hknown
            cases hvisit
            exact ⟨hs, hs c hknown⟩
          · have hlt := hac.weight_lt hg (hbelow c hc)
            exact ih c s s' (hg.occupied_target (hbelow c hc)) (hac.child (hbelow c hc)) (by omega)
              hs hvisit

/-- A search that finds no path has missed none. -/
theorem findPath_none {g : Graph α} (hg : g.Consistent) (hac : g.Acyclic) {start target : Nat}
    (hstart : g.Occupied start) (h : g.findPath start target = none) :
    ¬ g.Reaches start target := by
  rw [findPath] at h
  have hpair : g.searchPath target g.slots.length start [] =
      (none, (g.searchPath target g.slots.length start []).2) := by
    rw [← h]
  exact (searchPath_none hg target _ start [] _ hstart (hac.below start) (g.weight_le start)
    (by simp) hpair).2

/-! ## Hierarchies -/

/-- A consistent graph without cycles in which every node but the root has a
parent. -/
structure Hierarchy (g : Graph α) : Prop where
  consistent : g.Consistent
  acyclic : g.Acyclic
  parented : ∀ {p}, p ≠ root → g.Occupied p → ∃ q, g.Edge q p

/-- Every node but the root carries a payload. -/
def Laden (g : Graph α) : Prop :=
  ∀ {p b}, p ≠ root → g.bare? p = some b → b.payload.isSome

theorem Laden.exists_payload {g : Graph α} (hg : g.Laden) {p : Nat} {n : Node α}
    (hroot : p ≠ root) (hn : g.node? p = some n) : ∃ payload, n.payload = some payload := by
  have h := hg hroot (bare?_of_node? hn)
  exact Option.isSome_iff_exists.mp h

namespace Hierarchy

variable {g : Graph α}

/-- Every node can be reached from the root.  The induction goes up the
edges: every node but the root has a parent, which is above it. -/
theorem reaches (hg : g.Hierarchy) {p : Nat} (hp : g.Occupied p) : g.Reaches root p := by
  induction p using hg.acyclic.induction_up hg.consistent with
  | hstep p ih =>
    by_cases hroot : p = root
    · rw [hroot]
      exact .refl
    · obtain ⟨q, hq⟩ := hg.parented hroot hp
      exact (ih q hq (occupied_of_mem_childrenOf hq)).tail hq

/-- The root is below no node. -/
theorem not_edge_root (hg : g.Hierarchy) (p : Nat) : ¬ g.Edge p root := by
  intro h
  have hp := hg.reaches (occupied_of_mem_childrenOf h)
  exact hg.acyclic root (TransGen.tail' hp h)

/-- What is below a node other than the root are such nodes as well. -/
theorem weight_le_size (hg : g.Hierarchy) {p : Nat} (hp : g.Occupied p) (hroot : p ≠ root) :
    g.weight p ≤ g.size := by
  classical
  have hsubset : g.cone p ⊆ ((g.nodes.filter (·.position ≠ root)).map (·.position)).toFinset := by
    intro q hq
    rw [hg.consistent.mem_cone hp] at hq
    obtain ⟨n, hn⟩ := (hg.consistent.occupied_of_reaches hp hq).exists_node?
    have hposition := hg.consistent.node_position hn
    have hne : q ≠ root := by
      rintro rfl
      rcases hq.cases_tail with heq | ⟨b, _, hedge⟩
      · exact hroot heq.symm
      · exact hg.not_edge_root b hedge
    rw [List.mem_toFinset, List.mem_map]
    refine ⟨n, List.mem_filter.mpr ⟨mem_nodes_iff.mpr ⟨q, hn⟩, ?_⟩, hposition⟩
    rw [hposition]
    exact decide_eq_true hne
  calc g.weight p ≤ _ := Finset.card_le_card hsubset
    _ ≤ _ := List.toFinset_card_le _
    _ = g.size := by rw [hg.consistent.size_eq, ids, List.length_map, List.length_map]

/-- An edge that closes no cycle keeps a hierarchy. -/
theorem link (hg : g.Hierarchy) {p c : Nat} (hp : g.Occupied p) (hc : g.Occupied c)
    (h : ¬ g.Reaches c p) : (g.link p c).Hierarchy := by
  refine ⟨hg.consistent.link hp hc, hg.acyclic.link hp h, fun {q} hroot hq => ?_⟩
  rw [Occupied, bare?_link] at hq
  obtain ⟨a, ha⟩ := hg.parented hroot hq
  exact ⟨a, (edge_link_iff hp).mpr (Or.inl ha)⟩

end Hierarchy

theorem hierarchy_new (rootId : String) : (new rootId : Graph α).Hierarchy := by
  have hedge : ∀ p c, ¬ (new rootId : Graph α).Edge p c := by
    intro p c hc
    cases p with
    | zero => cases hc
    | succ p => cases hc
  refine ⟨consistent_new rootId, fun p hp => ?_, fun {p} hroot hp => ?_⟩
  · obtain ⟨c, hc, _⟩ := TransGen.head'_iff.mp hp
    exact hedge p c hc
  · cases p with
    | zero => exact absurd rfl hroot
    | succ p => cases hp

/-! ## Graphs that grow -/

theorem occupied_register {g : Graph α} {id : String} {payload : α} {q : Nat} :
    (g.register id payload).2.Occupied q ↔ q = g.slots.length ∨ g.Occupied q := by
  rw [Occupied, bare?_register]
  by_cases hq : q = g.slots.length <;> simp [hq, Occupied]

/-- A new node below another one closes no cycle: nothing is below it yet. -/
theorem Acyclic.link_register {g : Graph α} (hac : g.Acyclic) {id : String} {p : Nat}
    (hp : g.Occupied p) (payload : α) :
    ((g.register id payload).2.link p g.slots.length).Acyclic := by
  have hlt := hp.lt_length
  have hedge : ∀ a b, (g.register id payload).2.Edge a b ↔ g.Edge a b := by
    intro a b
    rw [Edge, childrenOf_register, Edge]
  have hacyclic : (g.register id payload).2.Acyclic := fun q hq =>
    hac q (TransGen.mono (fun a b => (hedge a b).mp) q q hq)
  refine hacyclic.link (occupied_register.mpr (Or.inr hp)) fun hreach => ?_
  rcases hreach.cases_head with he | ⟨c, hc, _⟩
  · omega
  · have hin := (occupied_of_mem_childrenOf ((hedge _ _).mp hc)).lt_length
    omega

/-- A new node below a registered one keeps a hierarchy. -/
theorem Hierarchy.link_register {g : Graph α} (hg : g.Hierarchy) {id : String} {p : Nat}
    (hid : g.position? id = none) (hp : g.Occupied p) (payload : α) :
    ((g.register id payload).2.link p g.slots.length).Hierarchy := by
  have hcons := hg.consistent.register hid payload
  have hedge : ∀ a b, (g.register id payload).2.Edge a b ↔ g.Edge a b := by
    intro a b
    rw [Edge, childrenOf_register, Edge]
  have hp' : (g.register id payload).2.Occupied p := occupied_register.mpr (Or.inr hp)
  refine ⟨hcons.link hp' (occupied_register.mpr (Or.inl rfl)), hg.acyclic.link_register hp payload,
    fun {q} hroot hq => ?_⟩
  rw [Occupied, bare?_link, ← Occupied, occupied_register] at hq
  rcases hq with rfl | hq
  · exact ⟨p, (edge_link_iff hp').mpr (Or.inr ⟨rfl, rfl⟩)⟩
  · obtain ⟨a, ha⟩ := hg.parented hroot hq
    exact ⟨a, (edge_link_iff hp').mpr (Or.inl ((hedge a q).mpr ha))⟩

/-- The two ways in which an insertion succeeds. -/
theorem insert_eq_ok_cases {g g' : Graph α} {parentId childId : String} {payload : α}
    {position : Nat} (h : g.insert parentId childId payload = .ok (position, g')) :
    ∃ p, g.position? parentId = some p ∧
      ((∃ c, g.position? childId = some c ∧ g.findPath c p = none ∧ position = c ∧
          g' = g.link p c) ∨
        (g.position? childId = none ∧ position = g.slots.length ∧
          g' = (g.register childId payload).2.link p g.slots.length)) := by
  rw [insert] at h
  split at h
  · cases h
  · rename_i p hp
    refine ⟨p, hp, ?_⟩
    split at h
    · rename_i c hc
      split at h
      · cases h
      · rename_i hpath
        cases h
        exact Or.inl ⟨_, hc, hpath, rfl, rfl⟩
    · rename_i hc
      cases h
      exact Or.inr ⟨hc, rfl, rfl⟩

/-- A successful insertion keeps a hierarchy. -/
theorem Hierarchy.insert {g g' : Graph α} (hg : g.Hierarchy) {parentId childId : String}
    {payload : α} {position : Nat}
    (h : g.insert parentId childId payload = .ok (position, g')) : g'.Hierarchy := by
  obtain ⟨p, hp, ⟨c, hc, hpath, _, rfl⟩ | ⟨hc, _, rfl⟩⟩ := insert_eq_ok_cases h
  · have hpocc := occupied_of_idAt? (hg.consistent.registered.mp hp)
    have hcocc := occupied_of_idAt? (hg.consistent.registered.mp hc)
    exact hg.link hpocc hcocc (findPath_none hg.consistent hg.acyclic hcocc hpath)
  · have hpocc := occupied_of_idAt? (hg.consistent.registered.mp hp)
    exact hg.link_register hc hpocc payload

theorem laden_new (rootId : String) : (new rootId : Graph α).Laden := by
  intro p b hroot hb
  cases p with
  | zero => exact absurd rfl hroot
  | succ p => cases hb

/-- A successful insertion adds a payload. -/
theorem Laden.insert {g g' : Graph α} (hl : g.Laden) {parentId childId : String} {payload : α}
    {position : Nat} (h : g.insert parentId childId payload = .ok (position, g')) : g'.Laden := by
  intro p b hroot hb
  obtain ⟨_, _, ⟨_, _, _, _, rfl⟩ | ⟨_, _, rfl⟩⟩ := insert_eq_ok_cases h
  · rw [bare?_link] at hb
    exact hl hroot hb
  · rw [bare?_link, bare?_register] at hb
    split at hb
    · cases hb
      rfl
    · exact hl hroot hb

/-- The graphs that come from a root alone by insertions.  A refused
insertion leaves a graph as it was. -/
inductive Grown (rootId : String) : Graph α → Prop where
  | new : Grown rootId (new rootId)
  | insert {g g' : Graph α} {parentId childId : String} {payload : α} {position : Nat}
      (grown : Grown rootId g)
      (inserted : g.insert parentId childId payload = .ok (position, g')) : Grown rootId g'

/-- Insert payloads below parents, one after another; a refused insertion is
passed over. -/
def insertAll (g : Graph α) (insertions : List (String × String × α)) : Graph α :=
  insertions.foldl (fun g (parentId, childId, payload) =>
    match g.insert parentId childId payload with
    | .ok (_, g') => g'
    | .error _ => g) g

namespace Grown

variable {rootId : String} {g : Graph α}

theorem insertAll (hg : g.Grown rootId) (insertions : List (String × String × α)) :
    (g.insertAll insertions).Grown rootId := by
  induction insertions generalizing g with
  | nil => exact hg
  | cons i rest ih =>
    obtain ⟨parentId, childId, payload⟩ := i
    rw [Graph.insertAll, List.foldl_cons]
    dsimp only
    split
    · rename_i g' h
      exact ih (hg.insert h)
    · exact ih hg

theorem hierarchy (hg : g.Grown rootId) : g.Hierarchy := by
  induction hg with
  | new => exact hierarchy_new rootId
  | insert _ inserted ih => exact ih.insert inserted

theorem laden (hg : g.Grown rootId) : g.Laden := by
  induction hg with
  | new => exact laden_new rootId
  | insert _ inserted ih => exact ih.insert inserted

theorem position?_root (hg : g.Grown rootId) : g.position? rootId = some root := by
  induction hg with
  | new => simp [Graph.new, position?]
  | insert _ inserted ih =>
    obtain ⟨_, _, ⟨_, _, _, _, rfl⟩ | ⟨hc, _, rfl⟩⟩ := insert_eq_ok_cases inserted
    · rw [position?_link, ih]
    · rw [position?_link, position?_register, if_neg, ih]
      rintro rfl
      rw [ih] at hc
      cases hc

end Grown

/-- Two nodes below the root that share a child. -/
def diamond : Graph Unit :=
  (new "root").insertAll [("root", "a", ()), ("a", "c", ()), ("root", "b", ()), ("b", "c", ())]

theorem grown_diamond : diamond.Grown "root" := .insertAll .new _

theorem diamond_hasChild : diamond.HasChild "a" "c" :=
  ⟨1, 2, rfl, rfl, by rw [Edge]; decide⟩

end Cascade.Graph
