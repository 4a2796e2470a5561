import Cascade.Graph.Walk
import Cascade.Proofs.Graph.Paths
import Cascade.Proofs.Sequence

/-!
# The tree that a walk goes through

A walk comes to a node once for each path that leads there.  What it goes through is
therefore a tree, the one that the graph unfolds to from the start, in which a shared node
stands below each of its parents.

* `Forest` are ordered trees, and `Unfolds` says which of them a graph unfolds to.  Where
  no cycle can be reached there is just one, and it is no higher than the arena is long
  (`AcyclicBelow.exists_unfolds`).
* The walks.  `Unfolds.preOrder_eq` and `Unfolds.postOrder_eq` say that a walk is a search
  along the nodes of this tree, one way or the other, whatever its visitor does.
* Visitors.  `attentive` answers as it likes, given all that it was shown before, and
  `Cut` describes what comes of showing it nodes until it ends the walk.
* Paths.  `Forest.pathsTo` lists the paths to a node, one for each time that the node
  stands in the tree.

`walks_unfolding` puts these together.
-/

namespace Cascade

variable {α ε : Type}

/-! ## Forests -/

/-- Ordered trees, side by side: the root of the first one, what is below it, and the trees
after it. -/
inductive Forest (α : Type) where
  | nil
  | cons (node : Node α) (below rest : Forest α)

namespace Forest

/-- The nodes of a forest, each before what is below it. -/
def preorder : Forest α → List (Node α)
  | nil => []
  | cons n below rest => n :: (below.preorder ++ rest.preorder)

/-- The nodes of a forest, each after what is below it. -/
def postorder : Forest α → List (Node α)
  | nil => []
  | cons n below rest => below.postorder ++ n :: rest.postorder

/-- The number of nodes on the longest way down. -/
def height : Forest α → Nat
  | nil => 0
  | cons _ below rest => max (below.height + 1) rest.height

/-- The ways down to the node at a position, from first to last. -/
def pathsTo (target : Nat) : Forest α → List (List Nat)
  | nil => []
  | cons n below rest =>
    (if n.position = target then [[target]] else []) ++
      (below.pathsTo target).map (n.position :: ·) ++ rest.pathsTo target

/-- Both orders have the same nodes, and each as often. -/
theorem preorder_perm_postorder (f : Forest α) : f.preorder.Perm f.postorder := by
  induction f with
  | nil => exact List.Perm.refl _
  | cons n below rest ihbelow ihrest =>
    rw [preorder, postorder]
    exact ((ihbelow.append ihrest).cons n).trans List.perm_middle.symm

/-- There is one way down to a node for each time that it stands in the forest. -/
theorem length_pathsTo (target : Nat) (f : Forest α) :
    (f.pathsTo target).length = (f.preorder.map (·.position)).count target := by
  induction f with
  | nil => rfl
  | cons n below rest ihbelow ihrest =>
    rw [pathsTo, preorder, List.map_cons, List.count_cons, List.map_append, List.count_append,
      List.length_append, List.length_append, List.length_map, ihbelow, ihrest]
    by_cases h : n.position = target
    · simp [h]
      omega
    · simp [h]

end Forest

namespace Graph

variable {g : Graph α}

/-! ## Unfolding -/

/-- The forest that a graph unfolds to from some positions.  A vacated slot contributes
nothing. -/
inductive Unfolds (g : Graph α) : List Nat → Forest α → Prop
  | nil : Unfolds g [] .nil
  | vacant {p ps rest} (hn : g.node? p = none) (hrest : Unfolds g ps rest) :
      Unfolds g (p :: ps) rest
  | node {p ps n below rest} (hn : g.node? p = some n) (hbelow : Unfolds g n.children below)
      (hrest : Unfolds g ps rest) : Unfolds g (p :: ps) (.cons n below rest)

theorem Unfolds.unique {ps : List Nat} {f f' : Forest α} (h : g.Unfolds ps f)
    (h' : g.Unfolds ps f') : f = f' := by
  induction h generalizing f' with
  | nil =>
    cases h'
    rfl
  | vacant hn _ ih =>
    cases h' with
    | vacant _ hrest' => exact ih hrest'
    | node hn' _ _ => cases hn.symm.trans hn'
  | node hn _ _ ihbelow ihrest =>
    cases h' with
    | vacant hn' _ => cases hn.symm.trans hn'
    | node hn' hbelow' hrest' =>
      cases hn.symm.trans hn'
      rw [ihbelow hbelow', ihrest hrest']

/-- Positions from which no cycle can be reached unfold to a forest.  The weight falls from
a node to its children, so it bounds the height. -/
theorem exists_unfolds (hg : g.Consistent) (bound : Nat) (ps : List Nat)
    (hps : ∀ p ∈ ps, g.AcyclicBelow p ∧ g.weight p ≤ bound) :
    ∃ f, g.Unfolds ps f ∧ f.height ≤ bound := by
  induction bound using Nat.strongRecOn generalizing ps with
  | _ bound ih =>
    induction ps with
    | nil => exact ⟨.nil, .nil, Nat.zero_le _⟩
    | cons p ps ihps =>
      obtain ⟨rest, hrest, hheight⟩ := ihps fun q hq => hps q (List.mem_cons_of_mem p hq)
      obtain ⟨hac, hweight⟩ := hps p (List.mem_cons_self ..)
      cases hn : g.node? p with
      | none => exact ⟨rest, .vacant hn hrest, hheight⟩
      | some n =>
        have hpos := hg.weight_pos (occupied_of_node? hn)
        have hchildren : ∀ c ∈ n.children, g.AcyclicBelow c ∧ g.weight c ≤ bound - 1 := by
          intro c hc
          have hedge := (edge_iff_of_node? hn).mpr hc
          have hlt := hac.weight_lt hg hedge
          exact ⟨hac.child hedge, by omega⟩
        obtain ⟨below, hbelow, hlow⟩ := ih (bound - 1) (by omega) n.children hchildren
        refine ⟨.cons n below rest, .node hn hbelow hrest, ?_⟩
        rw [Forest.height]
        omega

/-- What can be reached from a position without a cycle is a tree, no higher than the arena
is long. -/
theorem AcyclicBelow.exists_unfolds {start : Nat} (hac : g.AcyclicBelow start)
    (hg : g.Consistent) : ∃ f, g.Unfolds [start] f ∧ f.height ≤ g.slots.length :=
  Graph.exists_unfolds hg _ _ fun p hp => by
    obtain rfl := List.mem_singleton.mp hp
    exact ⟨hac, g.weight_le p⟩

/-! ## Walks -/

section Walks

variable {m : Type → Type} [Monad m] [LawfulMonad m]

/-- A search along two lists searches the second one if nothing is found in the first. -/
theorem findSomeM?_append {β γ : Type} (f : β → m (Option γ)) (l l' : List β) :
    (l ++ l').findSomeM? f = l.findSomeM? f >>= fun
      | some c => pure (some c)
      | none => l'.findSomeM? f := by
  induction l with
  | nil => simp
  | cons b l ih =>
    rw [List.cons_append, List.findSomeM?_cons, List.findSomeM?_cons, bind_assoc, ih]
    refine bind_congr fun found => ?_
    cases found <;> simp

/-- Show a node to a visitor; the node is found if the visitor ends the walk there. -/
def halting (visit : Node α → m Bool) (n : Node α) : m (Option Nat) := do
  return if ← visit n then some n.position else none

/-- The walk that visits parents first is a search along the nodes of the tree, each before
what is below it. -/
theorem Unfolds.preOrder_eq (hg : g.Consistent) {ps : List Nat} {f : Forest α}
    (h : g.Unfolds ps f) (visit : Node α → m Bool) {depth : Nat} (hdepth : f.height ≤ depth) :
    ps.findSomeM? (g.preOrder visit depth) = f.preorder.findSomeM? (halting visit) := by
  induction h generalizing depth with
  | nil => rfl
  | @vacant p ps rest hn _ ih =>
    have hnone : g.preOrder visit depth p = pure none := by
      cases depth with
      | zero => rfl
      | succ depth => rw [preOrder, hn]
    rw [List.findSomeM?_cons, hnone, pure_bind]
    exact ih hdepth
  | @node p ps n below rest hn _ _ ihbelow ihrest =>
    rw [Forest.height] at hdepth
    obtain ⟨depth, rfl⟩ := Nat.exists_eq_add_of_le' (show 1 ≤ depth by omega)
    rw [List.findSomeM?_cons, ihrest (by omega), Forest.preorder, List.findSomeM?_cons,
      findSomeM?_append, preOrder, hn]
    dsimp only
    rw [ihbelow (by omega), halting, bind_assoc, bind_assoc]
    refine bind_congr fun stop => ?_
    cases stop with
    | true => simp [hg.node_position hn]
    | false =>
      rw [if_neg Bool.false_ne_true, if_neg Bool.false_ne_true, pure_bind]
      exact bind_congr fun found => by cases found <;> rfl

/-- The walk that visits children first is a search along the nodes of the tree, each after
what is below it. -/
theorem Unfolds.postOrder_eq (hg : g.Consistent) {ps : List Nat} {f : Forest α}
    (h : g.Unfolds ps f) (visit : Node α → m Bool) {depth : Nat} (hdepth : f.height ≤ depth) :
    ps.findSomeM? (g.postOrder visit depth) = f.postorder.findSomeM? (halting visit) := by
  induction h generalizing depth with
  | nil => rfl
  | @vacant p ps rest hn _ ih =>
    have hnone : g.postOrder visit depth p = pure none := by
      cases depth with
      | zero => rfl
      | succ depth => rw [postOrder, hn]
    rw [List.findSomeM?_cons, hnone, pure_bind]
    exact ih hdepth
  | @node p ps n below rest hn _ _ ihbelow ihrest =>
    rw [Forest.height] at hdepth
    obtain ⟨depth, rfl⟩ := Nat.exists_eq_add_of_le' (show 1 ≤ depth by omega)
    rw [List.findSomeM?_cons, ihrest (by omega), Forest.postorder, findSomeM?_append,
      List.findSomeM?_cons, postOrder, hn]
    dsimp only
    rw [ihbelow (by omega), bind_assoc]
    refine bind_congr fun found => ?_
    cases found with
    | some c => simp
    | none =>
      rw [halting, bind_assoc, bind_assoc]
      refine bind_congr fun stop => ?_
      cases stop <;> simp [hg.node_position hn]

end Walks

/-! ## Visitors -/

/-- A visitor that writes down what it is shown.  Its answer to a node is any function of
the nodes that it was shown before, and so of the number of the call. -/
def attentive (answer : List (Node α) → Node α → Except ε Bool) (n : Node α) :
    ExceptT ε (StateM (List (Node α))) Bool := do
  let seen ← getThe (List (Node α))
  set (seen ++ [n])
  answer seen n

theorem attentive_run (answer : List (Node α) → Node α → Except ε Bool) (n : Node α)
    (seen : List (Node α)) :
    (attentive answer n).run.run seen = (answer seen n, seen ++ [n]) := rfl

/-- None of the nodes that were shown ends a walk. -/
def Passed (answer : List (Node α) → Node α → Except ε Bool) (nodes : List (Node α)) : Prop :=
  ∀ before n after, nodes = before ++ n :: after → answer before n = .ok false

/-- What comes of showing a visitor some nodes until an answer ends it: what is found, or
the error, and the nodes that were shown. -/
inductive Cut (answer : List (Node α) → Node α → Except ε Bool) (nodes : List (Node α)) :
    Except ε (Option Nat) × List (Node α) → Prop
  /-- All nodes are shown. -/
  | all (hall : Passed answer nodes) : Cut answer nodes (.ok none, nodes)
  /-- The first answer to the contrary asks to stop. -/
  | stop {before n after} (hsplit : nodes = before ++ n :: after) (hbefore : Passed answer before)
      (hstop : answer before n = .ok true) :
      Cut answer nodes (.ok (some n.position), before ++ [n])
  /-- The first answer to the contrary is an error. -/
  | fail {before n after e} (hsplit : nodes = before ++ n :: after)
      (hbefore : Passed answer before) (herror : answer before n = .error e) :
      Cut answer nodes (.error e, before ++ [n])

variable {answer : List (Node α) → Node α → Except ε Bool}

theorem passed_nil : Passed answer [] := by
  intro before n after h
  simp at h

theorem Passed.concat {nodes : List (Node α)} {n : Node α} (h : Passed answer nodes)
    (hn : answer nodes n = .ok false) : Passed answer (nodes ++ [n]) := by
  intro before n' after hsplit
  rcases Sequence.concat_eq_append_cons hsplit with ⟨rfl, rfl, _⟩ | ⟨after', hold, _⟩
  · exact hn
  · exact h before n' after' hold

/-- A search along nodes shows them up to the first answer that ends it. -/
theorem cut_findSomeM? (nodes seen : List (Node α)) (hseen : Passed answer seen) :
    Cut answer (seen ++ nodes)
      ((nodes.findSomeM? (halting (attentive answer))).run.run seen) := by
  induction nodes generalizing seen with
  | nil =>
    rw [List.append_nil]
    exact .all hseen
  | cons n rest ih =>
    have hshow : ((n :: rest).findSomeM? (halting (attentive answer))).run.run seen =
        match answer seen n with
        | .ok true => (.ok (some n.position), seen ++ [n])
        | .ok false => (rest.findSomeM? (halting (attentive answer))).run.run (seen ++ [n])
        | .error e => (.error e, seen ++ [n]) := by
      rw [List.findSomeM?_cons, halting]
      simp only [ExceptT.run_bind, StateT.run_bind, attentive_run]
      cases answer seen n with
      | error e => rfl
      | ok stop => cases stop <;> rfl
    rw [hshow]
    cases hanswer : answer seen n with
    | error e => exact .fail rfl hseen hanswer
    | ok stop =>
      cases stop with
      | true => exact .stop rfl hseen hanswer
      | false =>
        have hrest := ih (seen ++ [n]) (hseen.concat hanswer)
        rwa [List.append_assoc] at hrest

/-! ## Paths -/

/-- A path from a node ends there or goes on from a child. -/
theorem Consistent.isPath_iff (hg : g.Consistent) {p target : Nat} {n : Node α}
    (hn : g.node? p = some n) {path : List Nat} :
    g.IsPath p target path ↔ (p = target ∧ path = [target]) ∨
      ∃ below, (∃ c ∈ n.children, g.IsPath c target below) ∧ p :: below = path := by
  constructor
  · intro h
    obtain ⟨rfl, rfl⟩ | ⟨c, rest, rfl, hedge, hbelow⟩ := hg.isPath_cases h
    · exact Or.inl ⟨rfl, rfl⟩
    · exact Or.inr ⟨c :: rest, ⟨c, (edge_iff_of_node? hn).mp hedge, hbelow⟩, rfl⟩
  · rintro (⟨rfl, rfl⟩ | ⟨below, ⟨c, hc, hbelow⟩, rfl⟩)
    · exact isPath_self (occupied_of_node? hn)
    · exact hbelow.cons ((edge_iff_of_node? hn).mpr hc)

/-- The ways down a forest are the paths of the graph from the positions that it was
unfolded from. -/
theorem Unfolds.mem_pathsTo (hg : g.Consistent) {ps : List Nat} {f : Forest α}
    (h : g.Unfolds ps f) {target : Nat} {path : List Nat} :
    path ∈ f.pathsTo target ↔ ∃ p ∈ ps, g.IsPath p target path := by
  induction h generalizing path with
  | nil => simp [Forest.pathsTo]
  | @vacant p ps rest hn _ ih =>
    have hno : ¬ g.IsPath p target path := by
      intro hpath
      obtain ⟨n, hn'⟩ := hpath.occupied.exists_node?
      cases hn.symm.trans hn'
    simp [ih, hno]
  | @node p ps n below rest hn _ _ ihbelow ihrest =>
    have hhere : path ∈ (if n.position = target then [[target]] else []) ↔
        p = target ∧ path = [target] := by
      rw [hg.node_position hn]
      split <;> simp [*]
    rw [Forest.pathsTo, List.mem_append, List.mem_append, hhere, List.mem_map, ihrest,
      hg.node_position hn, List.exists_mem_cons_iff, hg.isPath_iff hn]
    simp only [ihbelow]

/-- No way down is listed twice, as no node has a child twice. -/
theorem Unfolds.nodup_pathsTo (hg : g.Consistent) {ps : List Nat} {f : Forest α}
    (h : g.Unfolds ps f) (hps : ps.Nodup) (target : Nat) : (f.pathsTo target).Nodup := by
  induction h with
  | nil => exact List.nodup_nil
  | vacant _ _ ih => exact ih (List.nodup_cons.mp hps).2
  | @node p ps n below rest hn hbelow hrest ihbelow ihrest =>
    obtain ⟨hp, hps⟩ := List.nodup_cons.mp hps
    have hposition : n.position = p := hg.node_position hn
    have hchildren : n.children.Nodup := childrenOf_of_node? hn ▸ hg.children_nodup p
    rw [Forest.pathsTo, hposition]
    refine List.nodup_append.mpr ⟨List.nodup_append.mpr ⟨?_, ?_, ?_⟩, ihrest hps, ?_⟩
    · split <;> simp
    · exact (ihbelow hchildren).map fun _ _ heq => (List.cons.inj heq).2
    · -- the path that ends at once is shorter than those that go on
      rintro path hhere _ hlonger rfl
      obtain ⟨rest, hrest, rfl⟩ := List.mem_map.mp hlonger
      obtain ⟨c, _, hpath⟩ := (hbelow.mem_pathsTo hg).mp hrest
      have hhead := hpath.head
      split at hhere
      · obtain ⟨_, rfl⟩ := List.cons.inj (List.mem_singleton.mp hhere)
        cases hhead
      · cases hhere
    · -- the paths from the other positions begin elsewhere
      rintro path hfirst _ hother rfl
      obtain ⟨q, hq, hpath⟩ := (hrest.mem_pathsTo hg).mp hother
      have hhead : path.head? = some p := by
        rcases List.mem_append.mp hfirst with hhere | hlonger
        · split at hhere
          · rename_i heq
            rw [List.mem_singleton.mp hhere, heq]
            rfl
          · cases hhere
        · obtain ⟨rest, _, rfl⟩ := List.mem_map.mp hlonger
          rfl
      rw [hpath.head] at hhead
      exact hp (Option.some.inj hhead ▸ hq)

/-! ## Both walks -/

/-- Where no cycle can be reached from `start`, the graph unfolds to just one tree from
there.  The walks show a visitor the nodes of this tree in pre-order and in post-order, up
to the first answer that asks to stop or is an error, and they answer with the node at
which they were stopped, with the error, or with nothing when all was shown.  This is so
of any visitor, and a larger bound on the depth changes nothing.  Every node stands in the
tree as often as there are paths to it, and both orders show the same nodes as often. -/
theorem walks_unfolding (hg : g.Consistent) {start : Nat} (hac : g.AcyclicBelow start) :
    ∃ f : Forest α, (∀ f', g.Unfolds [start] f' ↔ f' = f) ∧
      (∀ {ε : Type} (answer : List (Node α) → Node α → Except ε Bool),
        Cut answer f.preorder ((g.preOrderSearch start (attentive answer)).run.run []) ∧
          Cut answer f.postorder ((g.postOrderSearch start (attentive answer)).run.run [])) ∧
      (∀ {m : Type → Type} [Monad m] [LawfulMonad m] (visit : Node α → m Bool) (depth : Nat),
        g.slots.length ≤ depth →
          g.preOrder visit depth start = f.preorder.findSomeM? (halting visit) ∧
            g.postOrder visit depth start = f.postorder.findSomeM? (halting visit)) ∧
      (∀ target, ∃ paths : List (List Nat), paths.Nodup ∧
        (∀ path, path ∈ paths ↔ g.IsPath start target path) ∧
          (f.preorder.map (·.position)).count target = paths.length) ∧
      f.preorder.Perm f.postorder := by
  obtain ⟨f, hf, hheight⟩ := hac.exists_unfolds hg
  have hwalks {m : Type → Type} [Monad m] [LawfulMonad m] (visit : Node α → m Bool)
      (depth : Nat) (hdepth : g.slots.length ≤ depth) :
      g.preOrder visit depth start = f.preorder.findSomeM? (halting visit) ∧
        g.postOrder visit depth start = f.postorder.findSomeM? (halting visit) := by
    have hone (walk : Nat → m (Option Nat)) : [start].findSomeM? walk = walk start := by
      rw [List.findSomeM?_cons]
      refine (bind_congr fun found => ?_).trans (bind_pure _)
      cases found <;> rfl
    have hhigh : f.height ≤ depth := hheight.trans hdepth
    rw [← hone (g.preOrder visit depth), ← hone (g.postOrder visit depth)]
    exact ⟨hf.preOrder_eq hg visit hhigh, hf.postOrder_eq hg visit hhigh⟩
  refine ⟨f, fun f' => ⟨fun h => h.unique hf, fun h => h ▸ hf⟩, fun answer => ?_, hwalks,
    fun target => ?_, f.preorder_perm_postorder⟩
  · obtain ⟨hpre, hpost⟩ := hwalks (attentive answer) g.slots.length (Nat.le_refl _)
    rw [preOrderSearch, postOrderSearch, hpre, hpost]
    exact ⟨cut_findSomeM? _ [] passed_nil, cut_findSomeM? _ [] passed_nil⟩
  · refine ⟨f.pathsTo target, hf.nodup_pathsTo hg (List.nodup_singleton _) target, fun path => ?_,
      (f.length_pathsTo target).symm⟩
    rw [hf.mem_pathsTo hg]
    simp

/-- From the root of the diamond both walks come to the shared node twice, and a visitor can
stop one of them in between. -/
theorem walks_unfolding_diamond : diamond.AcyclicBelow root ∧
    ∃ f, diamond.Unfolds [root] f ∧ f.preorder.map (·.position) = [root, 1, 2, 3, 2] ∧
      f.postorder.map (·.position) = [2, 1, 2, 3, root] ∧
      Cut (ε := Unit) (fun seen _ => .ok (seen.length == 3)) f.preorder
        ((diamond.preOrderSearch root (attentive fun seen _ => .ok (seen.length == 3))).run.run
          []) ∧
      ∃ paths : List (List Nat), paths.length = 2 ∧
        ∀ path, path ∈ paths ↔ diamond.IsPath root 2 path := by
  have hg := grown_diamond.hierarchy
  have hac := hg.acyclic.below root
  obtain ⟨f, hf, hcut, _, hpaths, _⟩ := walks_unfolding hg.consistent hac
  have hleaf : diamond.Unfolds [2] (.cons ⟨2, "c", some (), [], [1, 3]⟩ .nil .nil) :=
    .node rfl .nil .nil
  have htree := (hf _).mp (.node (p := root) rfl (.node (p := 1) rfl hleaf
    (.node (p := 3) rfl hleaf .nil)) .nil)
  obtain ⟨paths, _, hmem, hcount⟩ := hpaths 2
  refine ⟨hac, f, (hf f).mpr rfl, ?_, ?_, (hcut _).1, paths, ?_, hmem⟩
  · rw [← htree]
    decide
  · rw [← htree]
    decide
  · rw [← hcount, ← htree]
    decide

end Graph

end Cascade
