import Cascade.Proofs.Graph.Names

/-!
# The first path between two nodes

`findPath` remembers which nodes it has searched in vain and passes them over when it
comes to them again.  Where only an acyclic part can be reached from the start, this
changes nothing but the effort.

* Paths.  `IsPath` is what a search looks for.  `choices` are the places of the children
  that a path takes, and paths are compared by them: `LeastPath` is the path that takes
  the earlier child where it parts from any other.
* The plain search.  `plainPath` remembers nothing.  What it finds is the least path, and
  it finds one if there is one (`plainPath_spec`).
* What is remembered.  A node that was searched in vain leads to no target, so the plain
  search finds nothing below it either (`searchPath_eq_plainPath`).
* Termination.  `Explores` are the runs of the search without a bound on its depth.
  `findPath` is the answer of such a run, so its bound is never met (`explores_findPath`).
-/

namespace Cascade.Graph

open Relation

variable {α : Type}

/-! ## Paths -/

/-- A path along the edges, with both of its ends.  No path begins at a vacated slot. -/
structure IsPath (g : Graph α) (start target : Nat) (path : List Nat) : Prop where
  occupied : g.Occupied start
  head : path.head? = some start
  last : path.getLast? = some target
  chain : path.IsChain g.Edge

/-- The child that a path takes at each of its nodes, by its place among the children. -/
def choices (g : Graph α) : List Nat → List Nat
  | p :: c :: rest => (g.childrenOf p).idxOf c :: choices g (c :: rest)
  | _ => []

/-- The first path: at the first node where any other path takes another child, that child
comes later. -/
structure LeastPath (g : Graph α) (start target : Nat) (path : List Nat) : Prop where
  isPath : g.IsPath start target path
  least : ∀ other, g.IsPath start target other → other ≠ path → g.choices path < g.choices other

theorem isPath_self {g : Graph α} {p : Nat} (hp : g.Occupied p) : g.IsPath p p [p] :=
  ⟨hp, rfl, rfl, .singleton p⟩

theorem IsPath.cons {g : Graph α} {p c target : Nat} {path : List Nat}
    (h : g.IsPath c target path) (hedge : g.Edge p c) : g.IsPath p target (p :: path) := by
  obtain ⟨_, hhead, hlast, hchain⟩ := h
  cases path with
  | nil => cases hhead
  | cons b rest =>
    cases hhead
    refine ⟨occupied_of_mem_childrenOf hedge, rfl, ?_, List.isChain_cons_cons.mpr ⟨hedge, hchain⟩⟩
    rw [List.getLast?_cons_cons]
    exact hlast

/-- A path ends where it begins, or goes on from a child. -/
theorem Consistent.isPath_cases {g : Graph α} (hg : g.Consistent) {p target : Nat}
    {path : List Nat} (h : g.IsPath p target path) :
    (path = [p] ∧ p = target) ∨
      ∃ c rest, path = p :: c :: rest ∧ g.Edge p c ∧ g.IsPath c target (c :: rest) := by
  obtain ⟨_, hhead, hlast, hchain⟩ := h
  cases path with
  | nil => cases hhead
  | cons b rest =>
    cases hhead
    cases rest with
    | nil => exact Or.inl ⟨rfl, Option.some.inj hlast⟩
    | cons c rest =>
      obtain ⟨hedge, hchain⟩ := List.isChain_cons_cons.mp hchain
      rw [List.getLast?_cons_cons] at hlast
      exact Or.inr ⟨c, rest, rfl, hedge, hg.occupied_target hedge, rfl, hlast, hchain⟩

theorem IsPath.reaches {g : Graph α} {p target : Nat} {path : List Nat}
    (h : g.IsPath p target path) : g.Reaches p target := by
  obtain ⟨_, hhead, hlast, hchain⟩ := h
  cases path with
  | nil => cases hhead
  | cons b rest =>
    cases hhead
    rw [List.getLast?_eq_some_getLast (List.cons_ne_nil p rest)] at hlast
    exact List.relationReflTransGen_of_exists_isChain_cons rest hchain (Option.some.inj hlast)

/-- There is one first path at most. -/
theorem LeastPath.unique {g : Graph α} {start target : Nat} {path path' : List Nat}
    (h : g.LeastPath start target path) (h' : g.LeastPath start target path') : path = path' := by
  by_contra hne
  have hlt := h.least path' h'.isPath (Ne.symm hne)
  have hgt := h'.least path h.isPath hne
  exact List.lt_asymm hlt hgt

/-- From a node to itself, the node alone is the first path. -/
theorem Consistent.leastPath_self {g : Graph α} (hg : g.Consistent) {p : Nat}
    (hp : g.Occupied p) : g.LeastPath p p [p] := by
  refine ⟨isPath_self hp, fun other hother hne => ?_⟩
  obtain ⟨heq, _⟩ | ⟨c, rest, rfl, _⟩ := hg.isPath_cases hother
  · exact absurd heq hne
  · exact List.nil_lt_cons ..

/-! ## The plain search -/

/-- Search below `current` for `target`, depth first, at most `depth` nodes deep, without
a memory. -/
def plainPath (g : Graph α) (target : Nat) : Nat → Nat → Option (List Nat)
  | 0, _ => none
  | depth + 1, current =>
    match g.node? current with
    | none => none
    | some n =>
      if current = target then some [current]
      else (n.children.findSome? (plainPath g target depth)).map (current :: ·)

/-- In a list without repetitions, what comes after an element comes at a later place. -/
theorem idxOf_lt_idxOf {l before after : List Nat} {a b : Nat} (hl : l.Nodup)
    (h : l = before ++ a :: after) (hb : b ∈ after) : l.idxOf a < l.idxOf b := by
  subst h
  rw [List.nodup_append, List.nodup_cons] at hl
  obtain ⟨_, ⟨hafter, _⟩, hdisjoint⟩ := hl
  have ha : a ∉ before := fun hmem => hdisjoint a hmem a (List.mem_cons_self ..) rfl
  have hb' : b ∉ before := fun hmem => hdisjoint b hmem b (List.mem_cons_of_mem a hb) rfl
  have hne : a ≠ b := by
    rintro rfl
    exact hafter hb
  rw [List.idxOf_append_of_notMem ha, List.idxOf_append_of_notMem hb',
    List.idxOf_cons_eq _ rfl, List.idxOf_cons_ne _ hne]
  omega

/-- The first path below a node goes on from its first child below which there is a path. -/
theorem LeastPath.cons {g : Graph α} (hg : g.Consistent) {p c target : Nat} {path : List Nat}
    {before after : List Nat} (hpt : p ≠ target) (hchildren : g.childrenOf p = before ++ c :: after)
    (hbefore : ∀ b ∈ before, ∀ other, ¬ g.IsPath b target other)
    (h : g.LeastPath c target path) : g.LeastPath p target (p :: path) := by
  have hedge : g.Edge p c := by
    rw [Edge, hchildren]
    simp
  refine ⟨h.isPath.cons hedge, fun other hother hne => ?_⟩
  obtain ⟨rest, rfl⟩ : ∃ rest, path = c :: rest := by
    cases path with
    | nil => cases h.isPath.head
    | cons b rest =>
      cases h.isPath.head
      exact ⟨rest, rfl⟩
  obtain ⟨_, heq⟩ | ⟨b, rest', rfl, hb, hpath⟩ := hg.isPath_cases hother
  · exact absurd heq hpt
  · rw [choices, choices, List.cons_lt_cons_iff]
    have hmem : b ∈ before ++ c :: after := hchildren ▸ hb
    rcases List.mem_append.mp hmem with hmem | hmem
    · exact absurd hpath (hbefore b hmem _)
    · rcases List.mem_cons.mp hmem with rfl | hmem
      · exact Or.inr ⟨rfl, h.least _ hpath fun he => hne (by rw [he])⟩
      · exact Or.inl (idxOf_lt_idxOf (hg.children_nodup p) hchildren hmem)

/-- The plain search finds the first path if there is any.  The induction is on the depth:
what is enough for a node is enough for its children, less one. -/
theorem plainPath_spec {g : Graph α} (hg : g.Consistent) (target depth current : Nat)
    (hac : g.AcyclicBelow current) (hdepth : g.weight current ≤ depth) :
    (∀ path, g.plainPath target depth current = some path → g.LeastPath current target path) ∧
      (g.plainPath target depth current = none → ∀ path, ¬ g.IsPath current target path) := by
  induction depth generalizing current with
  | zero =>
    refine ⟨nofun, fun _ path hpath => ?_⟩
    have hpos := hg.weight_pos hpath.occupied
    omega
  | succ depth ih =>
    rw [plainPath]
    cases hn : g.node? current with
    | none =>
      refine ⟨nofun, fun _ path hpath => ?_⟩
      obtain ⟨n, hn'⟩ := hpath.occupied.exists_node?
      rw [hn] at hn'
      cases hn'
    | some n =>
      have hocc := occupied_of_node? hn
      have hchild : ∀ c ∈ n.children,
          (∀ path, g.plainPath target depth c = some path → g.LeastPath c target path) ∧
            (g.plainPath target depth c = none → ∀ path, ¬ g.IsPath c target path) := by
        intro c hc
        have hedge := (edge_iff_of_node? hn).mpr hc
        have hlt := hac.weight_lt hg hedge
        exact ih c (hac.child hedge) (by omega)
      dsimp only
      by_cases htarget : current = target
      · subst htarget
        rw [if_pos rfl]
        refine ⟨fun path h => ?_, nofun⟩
        cases h
        exact hg.leastPath_self hocc
      · rw [if_neg htarget]
        constructor
        · intro path h
          obtain ⟨below, hbelow, rfl⟩ := Option.map_eq_some_iff.mp h
          obtain ⟨before, c, after, hsplit, hfound, hnone⟩ := List.findSome?_eq_some_iff.mp hbelow
          have hmem : c ∈ n.children :=
            hsplit ▸ List.mem_append_right before (List.mem_cons_self ..)
          refine LeastPath.cons hg htarget ((childrenOf_of_node? hn).trans hsplit) ?_
            ((hchild c hmem).1 below hfound)
          intro b hb
          exact (hchild b (hsplit ▸ List.mem_append_left _ hb)).2 (hnone b hb)
        · intro h path hpath
          rw [Option.map_eq_none_iff, List.findSome?_eq_none_iff] at h
          obtain ⟨_, heq⟩ | ⟨c, rest, _, hedge, hrest⟩ := hg.isPath_cases hpath
          · exact htarget heq
          · have hc := (edge_iff_of_node? hn).mp hedge
            exact (hchild c hc).2 (h c hc) _ hrest

/-! ## What is remembered -/

/-- What the search does with a child: nothing, if the child is known not to lead to the
target. -/
def probe (g : Graph α) (target depth child : Nat) (exhausted : List Nat) :
    Option (List Nat) × List Nat :=
  if child ∈ exhausted then (none, exhausted) else g.searchPath target depth child exhausted

theorem searchPath_succ {g : Graph α} {current : Nat} {n : Node α}
    (hn : g.node? current = some n) (target depth : Nat) (exhausted : List Nat) :
    g.searchPath target (depth + 1) current exhausted =
      if current = target then (some [current], exhausted)
      else
        match firstAlong (g.probe target depth) n.children exhausted with
        | (some path, exhausted) => (some (current :: path), exhausted)
        | (none, exhausted) => (none, current :: exhausted) := by
  rw [searchPath, hn]
  rfl

/-- A search along a list that keeps a memory answers as one without, if each attempt does
as long as the memory is true, and keeps it true. -/
theorem firstAlong_eq_findSome? {σ β γ : Type} {f : β → σ → Option γ × σ} {f' : β → Option γ}
    {I : σ → Prop} (l : List β)
    (hstep : ∀ b ∈ l, ∀ s, I s → (f b s).1 = f' b ∧ ((f b s).1 = none → I (f b s).2)) (s : σ)
    (hs : I s) : (firstAlong f l s).1 = l.findSome? f' := by
  induction l generalizing s with
  | nil => rfl
  | cons b l ih =>
    obtain ⟨heq, hkeep⟩ := hstep b (List.mem_cons_self ..) s hs
    rw [firstAlong, List.findSome?_cons, ← heq]
    split
    · rename_i c s' hb
      rw [hb]
    · rename_i s' hb
      rw [hb] at hkeep ⊢
      exact ih (fun b' hb' => hstep b' (List.mem_cons_of_mem b hb')) s' (hkeep rfl)

/-- The search with a memory answers as the plain one, as long as no node that it knows for
exhausted leads to the target. -/
theorem searchPath_eq_plainPath {g : Graph α} (hg : g.Consistent) (target depth current : Nat)
    (exhausted : List Nat) (hac : g.AcyclicBelow current) (hdepth : g.weight current ≤ depth)
    (hexh : ∀ x ∈ exhausted, ¬ g.Reaches x target) :
    (g.searchPath target depth current exhausted).1 = g.plainPath target depth current := by
  induction depth generalizing current exhausted with
  | zero => rfl
  | succ depth ih =>
    cases hn : g.node? current with
    | none =>
      rw [searchPath, plainPath, hn]
    | some n =>
      rw [searchPath_succ hn, plainPath, hn]
      dsimp only
      split
      · rfl
      · have hchildren : (firstAlong (g.probe target depth) n.children exhausted).1 =
            n.children.findSome? (g.plainPath target depth) := by
          refine firstAlong_eq_findSome? (I := fun s => ∀ x ∈ s, ¬ g.Reaches x target)
            n.children ?_ exhausted hexh
          intro c hc s hs
          have hedge := (edge_iff_of_node? hn).mpr hc
          have hlt := hac.weight_lt hg hedge
          have hlow : g.weight c ≤ depth := by omega
          rw [probe]
          split
          · rename_i hknown
            refine ⟨?_, fun _ => hs⟩
            -- the plain search of an exhausted child is in vain, too
            cases hplain : g.plainPath target depth c with
            | none => rfl
            | some path =>
              have hleast := (plainPath_spec hg target depth c (hac.child hedge) hlow).1 path hplain
              exact absurd hleast.isPath.reaches (hs c hknown)
          · refine ⟨ih c s (hac.child hedge) hlow hs, fun hnone => ?_⟩
            exact (searchPath_none hg target depth c s _ (hg.occupied_target hedge)
              (hac.child hedge) hlow hs (Prod.ext hnone rfl)).1
        rw [← hchildren]
        cases hfirst : firstAlong (g.probe target depth) n.children exhausted with
        | mk found exhausted' => cases found <;> rfl

/-! ## Termination -/

/-- The finished runs of the search along a list of nodes, with no bound on the depth:
which nodes are known for exhausted before it, what it answers, and which are known after
it. -/
inductive Explores (g : Graph α) (target : Nat) :
    List Nat → List Nat → Option (List Nat) → List Nat → Prop
  /-- Nothing is left to try. -/
  | done {exhausted} : Explores g target [] exhausted none exhausted
  /-- An exhausted node is passed over. -/
  | known {c rest exhausted answer exhausted'} (hc : c ∈ exhausted)
      (next : Explores g target rest exhausted answer exhausted') :
      Explores g target (c :: rest) exhausted answer exhausted'
  /-- A vacated slot is passed over. -/
  | vacant {c rest exhausted answer exhausted'} (hc : c ∉ exhausted) (hn : g.node? c = none)
      (next : Explores g target rest exhausted answer exhausted') :
      Explores g target (c :: rest) exhausted answer exhausted'
  /-- The target itself. -/
  | here {rest exhausted n} (ht : target ∉ exhausted) (hn : g.node? target = some n) :
      Explores g target (target :: rest) exhausted (some [target]) exhausted
  /-- The target is found below a node. -/
  | found {c rest exhausted n path exhausted'} (hc : c ∉ exhausted) (hn : g.node? c = some n)
      (hne : c ≠ target) (below : Explores g target n.children exhausted (some path) exhausted') :
      Explores g target (c :: rest) exhausted (some (c :: path)) exhausted'
  /-- A node was searched in vain. -/
  | vain {c rest exhausted n exhausted₁ answer exhausted'} (hc : c ∉ exhausted)
      (hn : g.node? c = some n) (hne : c ≠ target)
      (nothing : Explores g target n.children exhausted none exhausted₁)
      (next : Explores g target rest (c :: exhausted₁) answer exhausted') :
      Explores g target (c :: rest) exhausted answer exhausted'

/-- Where the bound on the depth is large enough it is never met: the search along a list
answers as a run without a bound. -/
theorem explores_firstAlong {g : Graph α} (hg : g.Consistent) (target depth : Nat)
    (l exhausted : List Nat) (hl : ∀ c ∈ l, g.AcyclicBelow c ∧ g.weight c ≤ depth) :
    g.Explores target l exhausted (firstAlong (g.probe target depth) l exhausted).1
      (firstAlong (g.probe target depth) l exhausted).2 := by
  induction depth generalizing l exhausted with
  | zero =>
    induction l with
    | nil => exact .done
    | cons c l ih =>
      have hrest := ih fun c' hc' => hl c' (List.mem_cons_of_mem c hc')
      have hvacant : g.node? c = none := by
        by_contra hn
        obtain ⟨n, hn⟩ := Option.ne_none_iff_exists'.mp hn
        have hpos := hg.weight_pos (occupied_of_node? hn)
        have hle := (hl c (List.mem_cons_self ..)).2
        omega
      have hprobe : g.probe target 0 c exhausted = (none, exhausted) := by
        rw [probe]
        split <;> rfl
      rw [firstAlong, hprobe]
      by_cases hc : c ∈ exhausted
      · exact .known hc hrest
      · exact .vacant hc hvacant hrest
  | succ depth ihdepth =>
    induction l generalizing exhausted with
    | nil => exact .done
    | cons c l ih =>
      have hrest := fun exhausted => ih exhausted fun c' hc' => hl c' (List.mem_cons_of_mem c hc')
      obtain ⟨hac, hle⟩ := hl c (List.mem_cons_self ..)
      rw [firstAlong]
      by_cases hc : c ∈ exhausted
      · rw [probe, if_pos hc]
        exact .known hc (hrest exhausted)
      rw [probe, if_neg hc]
      cases hn : g.node? c with
      | none =>
        rw [searchPath, hn]
        exact .vacant hc hn (hrest exhausted)
      | some n =>
        rw [searchPath_succ hn]
        by_cases htarget : c = target
        · rw [if_pos htarget]
          subst htarget
          exact .here hc hn
        rw [if_neg htarget]
        have hchildren := ihdepth n.children exhausted fun c' hc' => by
          have hedge := (edge_iff_of_node? hn).mpr hc'
          have hlt := hac.weight_lt hg hedge
          exact ⟨hac.child hedge, by omega⟩
        cases hfirst : firstAlong (g.probe target depth) n.children exhausted with
        | mk found exhausted₁ =>
          rw [hfirst] at hchildren
          cases found with
          | some path => exact .found hc hn htarget hchildren
          | none => exact .vain hc hn htarget hchildren (hrest (c :: exhausted₁))

/-- Two runs that begin alike end alike. -/
theorem Explores.unique {g : Graph α} {target : Nat} {l exhausted exhausted₁ exhausted₂ : List Nat}
    {answer₁ answer₂ : Option (List Nat)} (h₁ : g.Explores target l exhausted answer₁ exhausted₁)
    (h₂ : g.Explores target l exhausted answer₂ exhausted₂) :
    answer₁ = answer₂ ∧ exhausted₁ = exhausted₂ := by
  induction h₁ generalizing answer₂ exhausted₂ with
  | done =>
    cases h₂
    exact ⟨rfl, rfl⟩
  | known hc _ ih =>
    cases h₂ with
    | known _ next => exact ih next
    | _ => contradiction
  | vacant hc hn _ ih =>
    cases h₂ with
    | vacant _ _ next => exact ih next
    | known | here | found | vain => simp_all
  | here ht hn =>
    cases h₂ with
    | here => exact ⟨rfl, rfl⟩
    | known | vacant | found | vain => simp_all
  | found hc hn hne _ ih =>
    cases h₂ with
    | found _ hn' _ below =>
      cases hn.symm.trans hn'
      obtain ⟨heq, rfl⟩ := ih below
      cases heq
      exact ⟨rfl, rfl⟩
    | vain _ hn' _ nothing =>
      cases hn.symm.trans hn'
      cases (ih nothing).1
    | known | vacant | here => simp_all
  | vain hc hn hne _ _ ih ihnext =>
    cases h₂ with
    | vain _ hn' _ nothing next =>
      cases hn.symm.trans hn'
      obtain ⟨_, rfl⟩ := ih nothing
      exact ihnext next
    | found _ hn' _ below =>
      cases hn.symm.trans hn'
      cases (ih below).1
    | known | vacant | here => simp_all

/-- The search for a path ends, and `findPath` is what it answers. -/
theorem explores_findPath {g : Graph α} (hg : g.Consistent) {start : Nat}
    (hac : g.AcyclicBelow start) (target : Nat) :
    ∃ exhausted, g.Explores target [start] [] (g.findPath start target) exhausted := by
  have h := explores_firstAlong hg target g.slots.length [start] []
    fun c hc => by
      rw [List.mem_singleton] at hc
      subst hc
      exact ⟨hac, g.weight_le c⟩
  have heq : (firstAlong (g.probe target g.slots.length) [start] []).1 =
      g.findPath start target := by
    rw [firstAlong, probe, if_neg (by simp), findPath]
    cases g.searchPath target g.slots.length start [] with
    | mk found exhausted => cases found <;> rfl
  rw [heq] at h
  exact ⟨_, h⟩

/-! ## The first path -/

/-- Where only an acyclic part can be reached from the start, the search with a memory ends,
and answers as the plain one does at any depth that no path exceeds.  What it finds is the
first of all paths from the start to the target, it finds nothing only if there is no path,
as from a vacated slot, and from a node to itself it finds the node alone. -/
theorem findPath_exact {g : Graph α} (hg : g.Consistent) {start : Nat}
    (hac : g.AcyclicBelow start) (target : Nat) :
    (∃ exhausted, g.Explores target [start] [] (g.findPath start target) exhausted) ∧
      (∀ depth, g.slots.length ≤ depth →
        g.findPath start target = g.plainPath target depth start) ∧
      (∀ path, g.findPath start target = some path ↔ g.LeastPath start target path) ∧
      (g.findPath start target = none ↔ ∀ path, ¬ g.IsPath start target path) ∧
      (¬ g.Occupied start → g.findPath start target = none) ∧
      (g.Occupied start → start = target → g.findPath start target = some [start]) := by
  have hspec := fun depth (hdepth : g.slots.length ≤ depth) =>
    plainPath_spec hg target depth start hac ((g.weight_le start).trans hdepth)
  have hplain : g.findPath start target = g.plainPath target g.slots.length start :=
    searchPath_eq_plainPath hg target _ start [] hac (g.weight_le start) (by simp)
  obtain ⟨hsome, hnone⟩ := hspec g.slots.length (Nat.le_refl _)
  rw [← hplain] at hsome hnone
  have hnone_iff : g.findPath start target = none ↔ ∀ path, ¬ g.IsPath start target path := by
    refine ⟨hnone, fun hno => Option.eq_none_iff_forall_ne_some.mpr fun path h => ?_⟩
    exact hno path (hsome path h).isPath
  have hsome_iff : ∀ path, g.findPath start target = some path ↔ g.LeastPath start target path := by
    refine fun path => ⟨hsome path, fun hleast => ?_⟩
    cases h : g.findPath start target with
    | none => exact absurd hleast.isPath (hnone h path)
    | some path' => rw [(hsome path' h).unique hleast]
  refine ⟨explores_findPath hg hac target, fun depth hdepth => ?_, hsome_iff, hnone_iff,
    fun hvacant => ?_, fun hocc heq => ?_⟩
  · obtain ⟨hsome', hnone'⟩ := hspec depth hdepth
    cases h : g.plainPath target depth start with
    | none => exact hnone_iff.mpr (hnone' h)
    | some path => exact (hsome_iff path).mpr (hsome' path h)
  · exact hnone_iff.mpr fun path hpath => hvacant hpath.occupied
  · subst heq
    exact (hsome_iff _).mpr (hg.leastPath_self hocc)

/-- In the diamond the first path to the shared node leads through its first parent, and the
search for a slot that is not occupied passes over the shared node the second time. -/
theorem findPath_diamond : diamond.findPath root 2 = some [root, 1, 2] ∧
    diamond.LeastPath root 2 [root, 1, 2] ∧
    (∃ exhausted, diamond.Explores 4 [root] [] none exhausted) ∧
    ∀ path, ¬ diamond.IsPath root 4 path := by
  have hg := grown_diamond.hierarchy
  have hfound : diamond.findPath root 2 = some [root, 1, 2] := by decide
  have hmissing : diamond.findPath root 4 = none := by decide
  obtain ⟨_, _, hsome, _⟩ := findPath_exact hg.consistent (hg.acyclic.below root) 2
  obtain ⟨hends, _, _, hnone, _⟩ := findPath_exact hg.consistent (hg.acyclic.below root) 4
  rw [hmissing] at hends
  exact ⟨hfound, (hsome _).mp hfound, hends, hnone.mp hmissing⟩

end Cascade.Graph
