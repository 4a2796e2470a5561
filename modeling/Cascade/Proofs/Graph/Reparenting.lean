import Cascade.Proofs.Graph.Operations

/-!
# Removing nodes while their orphans move below the root

`removeAndReparent` takes a node out and puts those of its children below the root that
it leaves without a parent.  Every node that is left can then still be reached from the
root.

* `Adopted` says what putting orphans below the root does to a graph, view by view.
  `Consistent.foldl_adopt` says that the pass over the children of a removed node does
  just that with those of them that have no parent.
* `Reparented` says the same of the whole operation, and `Hierarchy.reparented` that the
  operation succeeds on every node but the root.
* `reparenting_keeps_reach` is about any sequence of such removals.
-/

namespace Cascade.Graph

open Relation

variable {α : Type} {g g' : Graph α}

/-! ## Orphans that move below the root -/

/-- `g'` is `g` with some nodes without parents put below the root, in their order. -/
structure Adopted (g : Graph α) (orphans : List Nat) (g' : Graph α) : Prop where
  bare? : ∀ q, g'.bare? q = g.bare? q
  position? : ∀ id, g'.position? id = g.position? id
  childrenOf : ∀ q, g'.childrenOf q =
    if q = root then g.childrenOf q ++ orphans else g.childrenOf q
  parentsOf : ∀ q, g'.parentsOf q = if q ∈ orphans then [root] else g.parentsOf q

theorem adopted_nil (g : Graph α) : g.Adopted [] g :=
  ⟨fun _ => rfl, fun _ => rfl, by simp, by simp⟩

/-- An orphan is put below the root first, and then the others are. -/
theorem Adopted.cons (hg : g.Consistent) {c : Nat} {orphans : List Nat}
    (hc : g.isOrphan c = true) (h : (g.link root c).Adopted orphans g') :
    g.Adopted (c :: orphans) g' := by
  obtain ⟨hocc, hparents⟩ := isOrphan_iff.mp hc
  have hnew : c ∉ g.childrenOf root := by
    rw [hg.mirrored, hparents]
    exact List.not_mem_nil
  constructor
  · intro q
    rw [h.bare?, bare?_link]
  · intro id
    rw [h.position?, position?_link]
  · intro q
    rw [h.childrenOf, childrenOf_link hg.root_occupied]
    by_cases hq : q = root
    · subst hq
      rw [if_pos rfl, if_pos ⟨rfl, hnew⟩, if_pos rfl, List.append_assoc]
      rfl
    · rw [if_neg hq, if_neg fun hand => hq hand.1.symm, if_neg hq]
  · intro q
    rw [h.parentsOf, parentsOf_link hocc]
    by_cases hq : q = c
    · subst hq
      simp [hnew, hparents]
    · have hne : ¬ c = q := fun he => hq he.symm
      simp [hq, hne]

/-- Putting one node below the root makes no other node less of an orphan. -/
theorem isOrphan_link_root {c q : Nat} (hc : g.Occupied c) (hq : q ≠ c) :
    (g.link root c).isOrphan q = g.isOrphan q := by
  rw [Bool.eq_iff_iff, isOrphan_iff, isOrphan_iff, Occupied, bare?_link, ← Occupied,
    parentsOf_link hc, if_neg fun hand => hq hand.1.symm]

/-- The pass over the children of a removed node collects those without a parent, in
their order, and puts them below the root.  The induction is along the children: as they
are distinct, the first adoption leaves those that come later as they are. -/
theorem Consistent.foldl_adopt (hg : g.Consistent) {children : List Nat}
    (hnodup : children.Nodup) (acc : List Nat) :
    ∃ g', children.foldl adopt (acc, g) = (acc ++ children.filter g.isOrphan, g') ∧
      g.Adopted (children.filter g.isOrphan) g' := by
  induction children generalizing g acc with
  | nil => exact ⟨g, by simp, adopted_nil g⟩
  | cons c rest ih =>
    obtain ⟨hc, hrest⟩ := List.nodup_cons.mp hnodup
    rw [List.foldl_cons]
    by_cases horphan : g.isOrphan c = true
    · have hocc := (isOrphan_iff.mp horphan).1
      have hsame : rest.filter (g.link root c).isOrphan = rest.filter g.isOrphan := by
        refine List.filter_congr fun q hq => isOrphan_link_root hocc ?_
        rintro rfl
        exact hc hq
      obtain ⟨g', hfold, hadopted⟩ := ih (hg.link hg.root_occupied hocc) hrest (acc ++ [c])
      rw [hsame] at hfold hadopted
      refine ⟨g', ?_, ?_⟩
      · rw [adopt, if_pos horphan, hfold, List.filter_cons_of_pos horphan, List.append_assoc]
        rfl
      · rw [List.filter_cons_of_pos horphan]
        exact hadopted.cons hg horphan
    · rw [adopt, if_neg horphan, List.filter_cons_of_neg horphan]
      exact ih hg hrest acc

/-! ## One removal -/

/-- `g'` is what is left of `g` when the node at `p` is removed and its orphans move below
the root. -/
structure Reparented (g : Graph α) (p : Nat) (orphans : List Nat) (g' : Graph α) : Prop where
  /-- The orphans are the children that had no other parent, in the order of the children. -/
  orphans_eq : orphans = (g.childrenOf p).filter fun c => g.parentsOf c = [p]
  /-- The other nodes stay what they are, their edges apart. -/
  bare? : ∀ q, g'.bare? q = if q = p then none else g.bare? q
  position? : ∀ id, g'.position? id = if g.position? id = some p then none else g.position? id
  /-- The orphans come last among the children of the root. -/
  childrenOf_root : g'.childrenOf root = (g.childrenOf root).filter (· ≠ p) ++ orphans
  childrenOf : ∀ q, q ≠ p → q ≠ root → g'.childrenOf q = (g.childrenOf q).filter (· ≠ p)
  /-- The root is the only parent of an orphan. -/
  parentsOf_orphan : ∀ c ∈ orphans, g'.parentsOf c = [root]
  parentsOf : ∀ q, q ≠ p → q ∉ orphans → g'.parentsOf q = (g.parentsOf q).filter (· ≠ p)

/-- Between the nodes that are left there are the edges of before, and those from the root
to the orphans. -/
theorem Reparented.edge_iff {p : Nat} {orphans : List Nat} (h : g.Reparented p orphans g')
    {a b : Nat} (ha : a ≠ p) (hb : b ≠ p) :
    g'.Edge a b ↔ g.Edge a b ∨ (a = root ∧ b ∈ orphans) := by
  by_cases hroot : a = root
  · subst hroot
    simp [Edge, h.childrenOf_root, hb]
  · simp [Edge, h.childrenOf a ha hroot, hb, hroot]

/-- Nothing is left of a list without repetitions when one of its elements is taken out
just if there was no other. -/
theorem filter_ne_eq_nil_iff {l : List Nat} {p : Nat} (hl : l.Nodup) (hp : p ∈ l) :
    l.filter (· ≠ p) = [] ↔ l = [p] := by
  constructor
  · intro h
    have hall : ∀ a ∈ l, a = p := by simpa using List.filter_eq_nil_iff.mp h
    have hlength : l = List.replicate l.length p := List.eq_replicate_of_mem hall
    have hone : l.length = 1 := by
      have hle := List.nodup_iff_count_le_one.mp hl p
      have hpos := List.length_pos_of_mem hp
      rw [hlength, List.count_replicate_self] at hle
      omega
    rw [hlength, hone]
    rfl
  · rintro rfl
    simp

/-- A child of a removed node is an orphan just if it had no other parent. -/
theorem Without.isOrphan_iff {p c : Nat} (h : g.Without p g') (hg : g.Consistent)
    (hac : g.Acyclic) (hedge : g.Edge p c) : g'.isOrphan c = true ↔ g.parentsOf c = [p] := by
  have hne : c ≠ p := by
    rintro rfl
    exact hac c (.single hedge)
  rw [Graph.isOrphan_iff, h.occupied_iff, and_iff_right ⟨hne, hg.occupied_target hedge⟩,
    h.parentsOf, if_neg hne]
  exact filter_ne_eq_nil_iff (hg.parents_nodup c) (hg.mirrored.mp hedge)

/-- Taking a node out and putting its orphans below the root is what `Reparented` says. -/
theorem Without.reparented {p : Nat} {orphans : List Nat} {g₁ : Graph α} (h : g.Without p g₁)
    (horphans : orphans = (g.childrenOf p).filter fun c => g.parentsOf c = [p])
    (hroot : p ≠ root) (hadopted : g₁.Adopted orphans g') : g.Reparented p orphans g' := by
  refine ⟨horphans, ?_, ?_, ?_, ?_, ?_, ?_⟩
  · intro q
    rw [hadopted.bare?, h.bare?]
  · intro id
    rw [hadopted.position?, h.position?]
  · rw [hadopted.childrenOf, if_pos rfl, h.childrenOf, if_neg hroot.symm]
  · intro q hq hqroot
    rw [hadopted.childrenOf, if_neg hqroot, h.childrenOf, if_neg hq]
  · intro c hc
    rw [hadopted.parentsOf, if_pos hc]
  · intro q hq hnot
    rw [hadopted.parentsOf, if_neg hnot, h.parentsOf, if_neg hq]

/-- A node of a hierarchy other than the root can be removed, and what is left is a
hierarchy. -/
theorem Hierarchy.reparented (hg : g.Hierarchy) {id : String} {p : Nat}
    (hp : g.position? id = some p) (hroot : p ≠ root) :
    ∃ orphans g', g.removeAndReparent id = .ok (orphans, g') ∧ g'.Hierarchy ∧
      g.Reparented p orphans g' := by
  obtain ⟨orphans, g', hreparent, hg', _⟩ := hg.removeAndReparent hp hroot
  refine ⟨orphans, g', hreparent, hg', ?_⟩
  obtain ⟨n, g₁, hn, hremove, hwithout⟩ := hg.consistent.remove_eq_ok hp hroot
  have hchildren : g.childrenOf p = n.children := childrenOf_of_node? hn
  have hnodup : n.children.Nodup := hchildren ▸ hg.consistent.children_nodup p
  obtain ⟨g₂, hfold, hadopted⟩ :=
    (hg.consistent.without hroot hwithout).foldl_adopt hnodup []
  rw [Graph.removeAndReparent, hremove] at hreparent
  dsimp only at hreparent
  rw [hfold, List.nil_append] at hreparent
  cases hreparent
  refine hwithout.reparented ?_ hroot hadopted
  rw [hchildren]
  refine List.filter_congr fun c hc => ?_
  have hedge : g.Edge p c := (edge_iff_of_node? hn).mpr hc
  rw [Bool.eq_iff_iff, decide_eq_true_iff]
  exact hwithout.isOrphan_iff hg.consistent hg.acyclic hedge

/-! ## Any sequence of removals -/

/-- A consistent graph without cycles is a hierarchy just if every node can be reached from
the root. -/
theorem hierarchy_iff (hcons : g.Consistent) (hac : g.Acyclic) :
    g.Hierarchy ↔ ∀ p, g.Occupied p → g.Reaches root p := by
  refine ⟨fun hg p hp => hg.reaches hp, fun hreach => ⟨hcons, hac, fun {p} hroot hp => ?_⟩⟩
  rcases (hreach p hp).cases_tail with heq | ⟨q, _, hq⟩
  · exact absurd heq hroot
  · exact ⟨q, hq⟩

/-- Some node is removed, and its orphans move below the root. -/
def Reparents (g g' : Graph α) : Prop :=
  ∃ id orphans, g.removeAndReparent id = .ok (orphans, g')

theorem Hierarchy.reparents (hg : g.Hierarchy) (h : g.Reparents g') : g'.Hierarchy := by
  obtain ⟨id, orphans, hreparent⟩ := h
  have hremove : ∃ n g₁, g.remove id = .ok (n, g₁) := by
    rw [Graph.removeAndReparent] at hreparent
    split at hreparent
    · cases hreparent
    · exact ⟨_, _, ‹_›⟩
  obtain ⟨n, g₁, hremove⟩ := hremove
  obtain ⟨p, hroot, hp, _⟩ := hg.consistent.of_remove hremove
  obtain ⟨orphans', g'', hreparent', hg'', _⟩ := hg.reparented hp hroot
  rw [hreparent'] at hreparent
  cases hreparent
  exact hg''

theorem Hierarchy.reparents_all (hg : g.Hierarchy) (h : ReflTransGen Reparents g g') :
    g'.Hierarchy := by
  induction h with
  | refl => exact hg
  | tail _ hstep ih => exact ih.reparents hstep

/-- Let every node of a consistent graph without cycles be reachable from the root.  However
many nodes have been removed while their orphans moved below the root, this is so of what
is left, and every node of it but the root can be removed in this way: the answer lists
the children that have no other parent, in the order of the children, each of them has the
root as its only parent then, and between the nodes that are left there are the edges of
before and those from the root to the orphans. -/
theorem reparenting_keeps_reach (hcons : g.Consistent) (hac : g.Acyclic)
    (hreach : ∀ p, g.Occupied p → g.Reaches root p) (hrun : ReflTransGen Reparents g g') :
    (g'.Consistent ∧ g'.Acyclic ∧ ∀ p, g'.Occupied p → g'.Reaches root p) ∧
      ∀ id p, g'.position? id = some p → p ≠ root →
        ∃ orphans g'', g'.removeAndReparent id = .ok (orphans, g'') ∧
          orphans = (g'.childrenOf p).filter (fun c => g'.parentsOf c = [p]) ∧
          (∀ c ∈ orphans, g''.parentsOf c = [root]) ∧
          (∀ a b, a ≠ p → b ≠ p → (g''.Edge a b ↔ g'.Edge a b ∨ (a = root ∧ b ∈ orphans))) ∧
          g'.Reparented p orphans g'' ∧
          g''.Consistent ∧ g''.Acyclic ∧ ∀ q, g''.Occupied q → g''.Reaches root q := by
  have hg : g.Hierarchy := (hierarchy_iff hcons hac).mpr hreach
  have hg' : g'.Hierarchy := hg.reparents_all hrun
  refine ⟨⟨hg'.consistent, hg'.acyclic, fun p hp => hg'.reaches hp⟩, fun id p hp hroot => ?_⟩
  obtain ⟨orphans, g'', hreparent, hg'', hreparented⟩ := hg'.reparented hp hroot
  exact ⟨orphans, g'', hreparent, hreparented.orphans_eq, hreparented.parentsOf_orphan,
    fun _ _ ha hb => hreparented.edge_iff ha hb, hreparented, hg''.consistent, hg''.acyclic,
    fun q hq => hg''.reaches hq⟩

/-- In the diamond the shared node is no orphan when its first parent is removed, and is one
when its second parent is. -/
theorem reparenting_keeps_reach_diamond :
    diamond.Acyclic ∧ (∀ p, diamond.Occupied p → diamond.Reaches root p) ∧
      ∃ g', diamond.removeAndReparent "a" = .ok ([], g') ∧
        ∃ g'', g'.removeAndReparent "b" = .ok ([2], g'') ∧ g''.parentsOf 2 = [root] ∧
          ∀ q, g''.Occupied q → g''.Reaches root q := by
  have hg := grown_diamond.hierarchy
  have hreach : ∀ p, diamond.Occupied p → diamond.Reaches root p := fun p hp => hg.reaches hp
  obtain ⟨_, hfirst⟩ := reparenting_keeps_reach hg.consistent hg.acyclic hreach .refl
  obtain ⟨orphans, g', ha, horphans, _⟩ := hfirst "a" 1 rfl (by decide)
  obtain rfl : orphans = [] := horphans.trans (by decide)
  obtain ⟨_, hsecond⟩ := reparenting_keeps_reach hg.consistent hg.acyclic hreach
    (.single ⟨"a", [], ha⟩)
  have hleft : g'.position? "b" = some 3 ∧ g'.childrenOf 3 = [2] ∧ g'.parentsOf 2 = [3] := by
    have hview : (diamond.removeAndReparent "a").toOption.map
        (fun r => (r.2.position? "b", r.2.childrenOf 3, r.2.parentsOf 2)) =
          some (some 3, [2], [3]) := by decide
    rw [ha] at hview
    obtain ⟨hb, hedges⟩ := Prod.mk.inj (Option.some.inj hview)
    exact ⟨hb, Prod.mk.inj hedges⟩
  obtain ⟨hb, hchildren, hparents⟩ := hleft
  obtain ⟨orphans, g'', hremoved, horphans, honly, _, _, _, _, hall⟩ := hsecond "b" 3 hb (by decide)
  obtain rfl : orphans = [2] := by
    rw [horphans, hchildren]
    simp [hparents]
  exact ⟨hg.acyclic, hreach, g', ha, g'', hremoved, honly 2 (List.mem_singleton_self 2), hall⟩

end Cascade.Graph
