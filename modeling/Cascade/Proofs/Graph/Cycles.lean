import Cascade.Proofs.Graph.Operations

/-!
# What closes a cycle

An insertion looks for cycles, and a removal takes edges away.  What may close a cycle
is that the orphans of a removed node move below the root, since no path that leads
from them back to the root is looked for.

There are three groups.

* The edges after a node was removed and its orphans moved
  (`Consistent.of_removeAndReparent`).
* One operation.  `Acyclic.apply_iff` says which operations close a cycle: those that
  move a node below the root which leads to the root (`Closes`).
* Any sequence of operations.  `acyclic_applyAll_iff` says when a graph has no cycle
  all the way, and that it has none if the root is never inserted below another node.
  `root_below_itself` is a sequence that closes a cycle.
-/

namespace Cascade.Graph

open Relation

variable {α : Type} {g g' : Graph α}

/-! ## Removing and moving orphans -/

/-- The adopted children are among those that were looked at, and the edges to them are
the only new ones. -/
theorem foldl_adopt_edges (children : List Nat) (acc : List Nat × Graph α)
    (hroot : acc.2.Occupied root) :
    ∃ adopted, (children.foldl adopt acc).1 = acc.1 ++ adopted ∧ adopted ⊆ children ∧
      ∀ a b, (children.foldl adopt acc).2.Edge a b ↔
        acc.2.Edge a b ∨ (a = root ∧ b ∈ adopted) := by
  induction children generalizing acc with
  | nil => exact ⟨[], by simp⟩
  | cons c rest ih =>
    rw [List.foldl_cons]
    by_cases horphan : acc.2.isOrphan c = true
    · have hadopt : adopt acc c = (acc.1 ++ [c], acc.2.link root c) := by
        rw [adopt, if_pos horphan]
      have hroot' : (acc.2.link root c).Occupied root := by
        rw [Occupied, bare?_link]
        exact hroot
      obtain ⟨adopted, hanswer, hsub, hedge⟩ := ih (acc.1 ++ [c], acc.2.link root c) hroot'
      rw [hadopt]
      refine ⟨c :: adopted, by rw [hanswer]; simp, List.cons_subset_cons c hsub, fun a b => ?_⟩
      rw [hedge, edge_link_iff hroot, List.mem_cons, or_assoc, ← and_or_left]
    · have hadopt : adopt acc c = acc := by
        rw [adopt, if_neg horphan]
      obtain ⟨adopted, hanswer, hsub, hedge⟩ := ih acc hroot
      rw [hadopt]
      exact ⟨adopted, hanswer, List.subset_cons_of_subset c hsub, hedge⟩

/-- The orphans are children of the removed node, and the edges to them are the only
ones that come in addition to those between the other nodes. -/
theorem Consistent.of_removeAndReparent (hg : g.Consistent) {id : String} {orphans : List Nat}
    (h : g.removeAndReparent id = .ok (orphans, g')) :
    ∃ p g₁, g.Without p g₁ ∧ (∀ c ∈ orphans, g.Edge p c) ∧
      ∀ a b, g'.Edge a b ↔ g₁.Edge a b ∨ (a = root ∧ b ∈ orphans) := by
  rw [removeAndReparent] at h
  split at h
  · cases h
  · rename_i removed g₁ hremove
    obtain ⟨p, hroot, _, hn, hwithout⟩ := hg.of_remove hremove
    have hroot₁ : g₁.Occupied root := (hg.without hroot hwithout).root_occupied
    obtain ⟨adopted, hanswer, hsub, hedge⟩ := foldl_adopt_edges removed.children ([], g₁) hroot₁
    rw [Except.ok.inj h] at hanswer hedge
    obtain rfl : orphans = adopted := hanswer
    exact ⟨p, g₁, hwithout, fun c hc => (edge_iff_of_node? hn).mpr (hsub hc), hedge⟩

/-- No path from below a node leads through the node, so that it is still there when
the node is taken out. -/
theorem Without.reaches_iff {p c q : Nat} (h : g.Without p g') (hac : g.Acyclic)
    (hedge : g.Edge p c) : g'.Reaches c q ↔ g.Reaches c q := by
  constructor
  · exact ReflTransGen.mono (fun a b hab => (h.edge_iff.mp hab).2.2) c q
  · intro hreach
    induction hreach with
    | refl => exact .refl
    | @tail b d hcb hbd ih =>
      have hne : ∀ {x}, g.Reaches c x → x ≠ p := by
        rintro x hcx rfl
        exact hac x (TransGen.head' hedge hcx)
      exact ih.tail (h.edge_iff.mpr ⟨hne hcb, hne (hcb.tail hbd), hbd⟩)

/-! ## One operation -/

/-- Whether an operation looks for cycles where it inserts an edge. -/
def Operation.Guarded : Operation α → Prop
  | .addEdge _ _ => False
  | _ => True

/-- Whether an operation moves a node below the root that leads to the root. -/
def Closes (g : Graph α) : Operation α → Prop
  | .removeAndReparent id => ∃ orphans g', g.removeAndReparent id = .ok (orphans, g') ∧
      ∃ c ∈ orphans, g.Reaches c root
  | _ => False

theorem Acyclic.insert (hac : g.Acyclic) (hg : g.Consistent) {parentId childId : String}
    {payload : α} {position : Nat} (h : g.insert parentId childId payload = .ok (position, g')) :
    g'.Acyclic := by
  obtain ⟨p, hp, ⟨c, hc, hpath, _, rfl⟩ | ⟨_, _, rfl⟩⟩ := insert_eq_ok_cases h
  · exact hac.link (hg.occupied hp) (findPath_none hg hac (hg.occupied hc) hpath)
  · exact hac.link_register (hg.occupied hp) payload

/-- Moving orphans below the root closes a cycle just if one of them leads there. -/
theorem Acyclic.removeAndReparent_iff (hac : g.Acyclic) (hg : g.Consistent) {id : String}
    {orphans : List Nat} (h : g.removeAndReparent id = .ok (orphans, g')) :
    g'.Acyclic ↔ ∀ c ∈ orphans, ¬ g.Reaches c root := by
  obtain ⟨p, g₁, hwithout, hbelow, hedge⟩ := hg.of_removeAndReparent h
  rw [acyclic_iff_of_new_edges hedge, and_iff_right (hwithout.acyclic hac)]
  exact forall₂_congr fun c hc => not_congr (hwithout.reaches_iff hac (hbelow c hc))

/-- An operation closes a cycle just if it moves a node below the root that leads to the
root. -/
theorem Acyclic.apply_iff (hac : g.Acyclic) (hg : g.Consistent) {op : Operation α}
    (hop : op.Guarded) : (g.apply op).Acyclic ↔ ¬ g.Closes op := by
  rw [apply]
  cases hattempt : g.attempt op with
  | error e =>
    refine iff_of_true hac fun hcloses => ?_
    cases op with
    | removeAndReparent id =>
      obtain ⟨_, _, hremove, _⟩ := hcloses
      rw [attempt, hremove] at hattempt
      cases hattempt
    | insert | addEdge | remove => exact hcloses
  | ok g' =>
    dsimp only
    cases op with
    | insert parentId childId payload =>
      obtain ⟨_, hinsert⟩ := exists_of_map_snd hattempt
      exact iff_of_true (hac.insert hg hinsert) not_false
    | addEdge fromId toId => exact hop.elim
    | remove id =>
      obtain ⟨_, hremove⟩ := exists_of_map_snd hattempt
      obtain ⟨_, _, _, _, hwithout⟩ := hg.of_remove hremove
      exact iff_of_true (hwithout.acyclic hac) not_false
    | removeAndReparent id =>
      obtain ⟨orphans, hremove⟩ := exists_of_map_snd hattempt
      rw [hac.removeAndReparent_iff hg hremove]
      constructor
      · rintro hnever ⟨_, _, hremove', c, hc, hreach⟩
        cases hremove.symm.trans hremove'
        exact hnever c hc hreach
      · exact fun hnot c hc hreach => hnot ⟨orphans, g', hremove, c, hc, hreach⟩

/-- A node that has a parent after an operation had one before, or was inserted below
one. -/
theorem Consistent.parent_of_attempt (hg : g.Consistent) {op : Operation α} (hop : op.Guarded)
    (h : g.attempt op = .ok g') {a b : Nat} (hedge : g'.Edge a b) :
    (∃ p, g.Edge p b) ∨ ∃ parentId childId payload, op = .insert parentId childId payload ∧
      g'.idAt? b = some childId := by
  cases op with
  | insert parentId childId payload =>
    obtain ⟨_, hinsert⟩ := exists_of_map_snd h
    obtain ⟨p, hp, ⟨c, hc, _, _, rfl⟩ | ⟨_, _, rfl⟩⟩ := insert_eq_ok_cases hinsert
    · rcases (edge_link_iff (hg.occupied hp)).mp hedge with hold | ⟨_, rfl⟩
      · exact Or.inl ⟨a, hold⟩
      · refine Or.inr ⟨parentId, childId, payload, rfl, ?_⟩
        rw [idAt?, bare?_link]
        exact hg.registered.mp hc
    · have hp' : (g.register childId payload).2.Occupied p :=
        occupied_register.mpr (Or.inr (hg.occupied hp))
      rcases (edge_link_iff hp').mp hedge with hold | ⟨_, rfl⟩
      · rw [Edge, childrenOf_register] at hold
        exact Or.inl ⟨a, hold⟩
      · refine Or.inr ⟨parentId, childId, payload, rfl, ?_⟩
        rw [idAt?, bare?_link, bare?_register, if_pos rfl]
        rfl
  | addEdge fromId toId => exact hop.elim
  | remove id =>
    obtain ⟨_, hremove⟩ := exists_of_map_snd h
    obtain ⟨_, _, _, _, hwithout⟩ := hg.of_remove hremove
    exact Or.inl ⟨a, (hwithout.edge_iff.mp hedge).2.2⟩
  | removeAndReparent id =>
    obtain ⟨_, hremove⟩ := exists_of_map_snd h
    obtain ⟨p, g₁, hwithout, hbelow, hnew⟩ := hg.of_removeAndReparent hremove
    rcases (hnew a b).mp hedge with hold | ⟨_, hb⟩
    · exact Or.inl ⟨a, (hwithout.edge_iff.mp hold).2.2⟩
    · exact Or.inl ⟨p, hbelow b hb⟩

/-! ## Any sequence of operations -/

theorem applyAll_concat (g : Graph α) (ops : List (Operation α)) (op : Operation α) :
    g.applyAll (ops ++ [op]) = (g.applyAll ops).apply op := by
  rw [applyAll, List.foldl_concat, applyAll]

theorem consistent_applyAll (rootId : String) (ops : List (Operation α)) :
    ((new rootId).applyAll ops).Consistent :=
  (consistent_new rootId).changes (changes_applyAll (consistent_new rootId) ops)

/-- The root keeps its ID. -/
theorem idAt?_root_applyAll (rootId : String) (ops : List (Operation α)) :
    ((new rootId).applyAll ops).idAt? root = some rootId := by
  obtain ⟨b, hb⟩ := Option.isSome_iff_exists.mp (consistent_applyAll rootId ops).root_occupied
  have hlater : (new rootId).Later ((new rootId).applyAll ops) :=
    .changes (changes_applyAll (consistent_new rootId) ops)
  have hold := hlater.bare? (by simp [new, root]) hb
  rw [idAt?, hb, ← hold]
  rfl

/-- Unless it is inserted below another node, the root has no parent. -/
theorem not_edge_root_applyAll {rootId : String} {ops : List (Operation α)}
    (hops : ∀ op ∈ ops, op.Guarded)
    (hroot : ∀ parentId payload, Operation.insert parentId rootId payload ∉ ops) (p : Nat) :
    ¬ ((new rootId).applyAll ops).Edge p root := by
  induction ops using List.reverseRecOn generalizing p with
  | nil => exact (hierarchy_new rootId).not_edge_root p
  | append_singleton ops op ih =>
    have hnot := ih (fun op' hop' => hops op' (List.mem_append_left _ hop'))
      fun parentId payload hmem => hroot parentId payload (List.mem_append_left _ hmem)
    have hlast : op ∈ ops ++ [op] := List.mem_append_right _ (List.mem_singleton_self op)
    intro hedge
    have hid := idAt?_root_applyAll rootId (ops ++ [op])
    rw [applyAll_concat, apply] at hedge hid
    cases hattempt : ((new rootId).applyAll ops).attempt op with
    | error e =>
      rw [hattempt] at hedge
      exact hnot p hedge
    | ok g' =>
      rw [hattempt] at hedge hid
      rcases (consistent_applyAll rootId ops).parent_of_attempt (hops op hlast) hattempt hedge with
        ⟨q, hq⟩ | ⟨parentId, childId, payload, rfl, hchild⟩
      · exact hnot q hq
      · cases hid.symm.trans hchild
        exact hroot parentId payload hlast

/-- The graphs that come from the root alone by operations that look for cycles have
none all the way just if no node moves below the root that leads to the root.  This is
so if the root is never inserted below another node. -/
theorem acyclic_applyAll_iff (rootId : String) {ops : List (Operation α)}
    (hops : ∀ op ∈ ops, op.Guarded) :
    ((∀ before, before <+: ops → ((new rootId).applyAll before).Acyclic) ↔
      ∀ before op, before ++ [op] <+: ops → ¬ ((new rootId).applyAll before).Closes op) ∧
    ((∀ parentId payload, Operation.insert parentId rootId payload ∉ ops) →
      ∀ before, before <+: ops → ((new rootId).applyAll before).Acyclic) := by
  have hguarded : ∀ {before op}, before ++ [op] <+: ops → op.Guarded := fun {before op} h =>
    hops op (h.subset (by simp))
  have hall : (∀ before op, before ++ [op] <+: ops → ¬ ((new rootId).applyAll before).Closes op) →
      ∀ before, before <+: ops → ((new rootId).applyAll before).Acyclic := by
    intro hnever before hbefore
    induction before using List.reverseRecOn with
    | nil => exact (hierarchy_new rootId).acyclic
    | append_singleton before op ih =>
      have hac := ih ((List.prefix_append before [op]).trans hbefore)
      rw [applyAll_concat, hac.apply_iff (consistent_applyAll rootId before) (hguarded hbefore)]
      exact hnever before op hbefore
  refine ⟨⟨fun hac before op h => ?_, hall⟩, fun hroot => hall fun before op h hcloses => ?_⟩
  · have hbefore := hac before ((List.prefix_append before [op]).trans h)
    have hafter := hac (before ++ [op]) h
    rwa [applyAll_concat, hbefore.apply_iff (consistent_applyAll rootId before) (hguarded h)]
      at hafter
  · -- nothing leads to a root that has no parent, and no child of a node is such a root
    have hpre := (List.prefix_append before [op]).trans h
    have hnot := not_edge_root_applyAll (fun op' hop' => hops op' (hpre.subset hop'))
      fun parentId payload hmem => hroot parentId payload (hpre.subset hmem)
    cases op with
    | removeAndReparent id =>
      obtain ⟨orphans, g', hremove, c, hc, hreach⟩ := hcloses
      obtain ⟨p, _, _, hbelow, _⟩ :=
        (consistent_applyAll rootId before).of_removeAndReparent hremove
      rcases hreach.cases_tail with hroot' | ⟨q, _, hq⟩
      · exact hnot p (hroot'.symm ▸ hbelow c hc)
      · exact hnot q hq
    | insert | addEdge | remove => exact hcloses

/-- A shared node that is left without a parent and moves below the root, after an
insertion above it was refused. -/
def shuffle : List (Operation Unit) :=
  [.insert "root" "a" (), .insert "a" "b" (), .insert "b" "c" (), .insert "a" "c" (),
    .insert "c" "a" (), .remove "b", .insert "lost" "d" (), .removeAndReparent "a",
    .insert "c" "b" ()]

theorem acyclic_shuffle : (∀ op ∈ shuffle, op.Guarded) ∧
    ((new "root").applyAll shuffle).find? "c" = some ⟨3, "c", some (), [4], [0]⟩ ∧
    ∀ before, before <+: shuffle → ((new "root").applyAll before).Acyclic := by
  have hguarded : ∀ op ∈ shuffle, op.Guarded := by simp [shuffle, Operation.Guarded]
  exact ⟨hguarded, by decide, (acyclic_applyAll_iff "root" hguarded).2 (by simp [shuffle])⟩

/-- The root moves below a node that it does not reach any more.  When this node is
removed, the root is an orphan. -/
def overturned : List (Operation Unit) :=
  [.insert "root" "a" (), .insert "a" "b" (), .remove "a", .insert "b" "root" (),
    .removeAndReparent "b"]

theorem root_below_itself :
    (∀ op ∈ overturned, op.Guarded) ∧ ¬ ((new "root").applyAll overturned).Acyclic := by
  have hedge : ((new "root").applyAll overturned).Edge root root := by
    rw [Edge]
    decide
  exact ⟨by simp [overturned, Operation.Guarded], fun hac => hac root (.single hedge)⟩

end Cascade.Graph
