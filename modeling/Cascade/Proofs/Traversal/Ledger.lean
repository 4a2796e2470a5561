import Cascade.Proofs.Sequence
import Cascade.Proofs.Traversal.Offer
import Mathlib.Data.List.Pairwise

/-!
# The books of a traversal

A `Ledger` is a traversal with the claims that are held on it and the
history of what happened to it.  `Ledger.Turn` is one thing that happens: a
node is handed out, a claim that is held is released, or the traversal is
aborted.  A run is any sequence of turns.

There are three invariants of a run, and each of them is a structure with
one lemma for each kind of turn.

* `Balanced` is about the books alone: every ID is handed out at most once,
  and what was handed out is either held or was released, once.
* `Tracks` compares the graph that is left with the graph of the beginning:
  a node is missing when it was released for good, and the edges between
  the nodes that are left, those from the root apart, are the edges between
  them at the beginning.
* `Warranted` is about every single event of the history: when a node was
  handed out, all that precedes it was gone.
-/

namespace Cascade.Traversal

open Relation

variable {α : Type}

/-! ## Histories -/

/-- Something that happened to a traversal. -/
inductive Event where
  | handedOut (id : String)
  | released (id : String) (succeeded : Bool)
  | aborted
deriving Repr, DecidableEq

/-- The ID that an event hands out. -/
def Event.handedOut? : Event → Option String
  | .handedOut id => some id
  | _ => none

/-- The ID that an event releases. -/
def Event.released? : Event → Option String
  | .released id _ => some id
  | _ => none

/-- The IDs that were handed out, in order. -/
def handedOut (history : List Event) : List String := history.filterMap Event.handedOut?

/-- The IDs that were released, in order. -/
def released (history : List Event) : List String := history.filterMap Event.released?

/-- The ID was released so that its node left the graph. -/
def Finished (direction : Direction) (history : List Event) (id : String) : Prop :=
  ∃ succeeded, .released id succeeded ∈ history ∧ prunes direction succeeded = true

@[simp]
theorem mem_handedOut {history : List Event} {id : String} :
    id ∈ handedOut history ↔ .handedOut id ∈ history := by
  rw [handedOut, List.mem_filterMap]
  constructor
  · rintro ⟨e, he, hid⟩
    cases e <;> cases hid
    exact he
  · exact fun h => ⟨_, h, rfl⟩

@[simp]
theorem mem_released {history : List Event} {id : String} :
    id ∈ released history ↔ ∃ succeeded, .released id succeeded ∈ history := by
  rw [released, List.mem_filterMap]
  constructor
  · rintro ⟨e, he, hid⟩
    cases e <;> cases hid
    exact ⟨_, he⟩
  · exact fun ⟨_, h⟩ => ⟨_, h, rfl⟩

@[simp]
theorem handedOut_append (h₁ h₂ : List Event) :
    handedOut (h₁ ++ h₂) = handedOut h₁ ++ handedOut h₂ := List.filterMap_append

@[simp]
theorem released_append (h₁ h₂ : List Event) :
    released (h₁ ++ h₂) = released h₁ ++ released h₂ := List.filterMap_append

theorem Finished.mono {direction : Direction} {h₁ h₂ : List Event} {id : String}
    (h : Finished direction h₁ id) (hsub : h₁ ⊆ h₂) : Finished direction h₂ id := by
  obtain ⟨succeeded, hmem, hprunes⟩ := h
  exact ⟨succeeded, hsub hmem, hprunes⟩

/-- A release finishes its own node at most. -/
theorem finished_concat_released {direction : Direction} {history : List Event}
    {id other : String} {succeeded : Bool} :
    Finished direction (history ++ [.released id succeeded]) other ↔
      Finished direction history other ∨ (other = id ∧ prunes direction succeeded = true) := by
  constructor
  · rintro ⟨s, hmem, hprunes⟩
    rw [List.mem_append, List.mem_singleton] at hmem
    rcases hmem with hmem | he
    · exact Or.inl ⟨s, hmem, hprunes⟩
    · cases he
      exact Or.inr ⟨rfl, hprunes⟩
  · rintro (h | ⟨rfl, hprunes⟩)
    · exact h.mono (List.subset_append_left ..)
    · exact ⟨succeeded, List.mem_append_right _ (List.mem_singleton_self _), hprunes⟩

/-- Every event of a history is justified by what came before it. -/
def Justified (Q : List Event → Event → Prop) (history : List Event) : Prop :=
  ∀ pre e post, history = pre ++ e :: post → Q pre e

theorem justified_nil (Q : List Event → Event → Prop) : Justified Q [] := by
  intro pre e post h
  cases pre <;> cases h

/-- One more event needs a justification by all that came before. -/
theorem Justified.concat {Q : List Event → Event → Prop} {history : List Event} {e : Event}
    (h : Justified Q history) (he : Q history e) : Justified Q (history ++ [e]) := by
  intro pre e' post heq
  rcases Sequence.concat_eq_append_cons heq with ⟨rfl, rfl, _⟩ | ⟨post', hinit, _⟩
  · exact he
  · exact h pre e' post' hinit

/-! ## Turns -/

/-- A traversal with the IDs of the claims that are held on it and all that
has happened to it, the latest last. -/
structure Ledger (α : Type) where
  traversal : Traversal α
  held : List String
  history : List Event

namespace Ledger

/-- The books of a traversal that has not begun. -/
def start (direction : Direction) (graph : Graph α) : Ledger α :=
  ⟨.start direction graph, [], []⟩

/-- One thing that happens to a traversal. -/
inductive Turn : Ledger α → Ledger α → Prop where
  /-- A request is answered by a claim. -/
  | claim {l : Ledger α} {c : Claim α} {t : Traversal α}
      (offered : l.traversal.offer = (.claim c, t)) :
      Turn l ⟨t, c.id :: l.held, l.history ++ [.handedOut c.id]⟩
  /-- A claim that is held is released. -/
  | release {l : Ledger α} {id : String} (held : id ∈ l.held) (succeeded : Bool) :
      Turn l ⟨(l.traversal.release id succeeded).2, l.held.erase id,
        l.history ++ [.released id succeeded]⟩
  | abort {l : Ledger α} : Turn l ⟨l.traversal.abort, l.held, l.history ++ [.aborted]⟩

/-- What can be reached from the beginning by turns. -/
def Reachable (direction : Direction) (graph : Graph α) (l : Ledger α) : Prop :=
  ReflTransGen Turn (start direction graph) l

/-- What the answer to a request says when it is a claim. -/
theorem offered_iff {t t' : Traversal α} {c : Claim α} (h : t.offer = (.claim c, t')) :
    t.aborted = false ∧ t.candidateClaim? = some c ∧
      t' = { t with visited := c.id :: t.visited, held := t.held + 1 } := by
  rcases offer_cases t with ⟨_, ho⟩ | ⟨ha, c', hc, ho⟩ | ⟨_, _, _, ho⟩ | ⟨_, _, _, ho⟩ <;>
    rw [ho] at h <;> cases h
  exact ⟨ha, hc, rfl⟩

/-! ## The books -/

/-- The books agree: every ID is handed out at most once, and what was
handed out is held or was released. -/
structure Balanced (l : Ledger α) : Prop where
  visited : l.traversal.visited = (handedOut l.history).reverse
  once : (handedOut l.history).Nodup
  balance : (handedOut l.history).Perm (released l.history ++ l.held)
  count : l.traversal.held = l.held.length
  aborted_iff : l.traversal.aborted = true ↔ .aborted ∈ l.history

namespace Balanced

variable {l : Ledger α}

theorem start (direction : Direction) (graph : Graph α) :
    (Ledger.start direction graph).Balanced :=
  ⟨rfl, List.nodup_nil, .refl _, rfl, by simp [Ledger.start, Traversal.start]⟩

theorem mem_visited (hb : l.Balanced) {id : String} :
    id ∈ l.traversal.visited ↔ .handedOut id ∈ l.history := by
  rw [hb.visited, List.mem_reverse, mem_handedOut]

/-- What was handed out is held or was released. -/
theorem handedOut_iff (hb : l.Balanced) {id : String} :
    .handedOut id ∈ l.history ↔ id ∈ released l.history ∨ id ∈ l.held := by
  rw [← mem_handedOut, hb.balance.mem_iff, List.mem_append]

/-- What is held was not released. -/
theorem not_released_of_held (hb : l.Balanced) {id : String} (h : id ∈ l.held) :
    id ∉ released l.history := by
  have hnodup := hb.balance.nodup_iff.mp hb.once
  intro hr
  exact (List.nodup_append.mp hnodup).2.2 id hr id h rfl

/-- A claim is released once, as done or as failed. -/
theorem released_unique (hb : l.Balanced) {id : String} {s₁ s₂ : Bool}
    (h₁ : .released id s₁ ∈ l.history) (h₂ : .released id s₂ ∈ l.history) : s₁ = s₂ := by
  have hnodup := (List.nodup_append.mp (hb.balance.nodup_iff.mp hb.once)).1
  rw [released, List.Nodup, List.pairwise_filterMap] at hnodup
  by_contra hne
  have hsymm : Std.Symm fun a b : Event =>
      ∀ x, a.released? = some x → ∀ y, b.released? = some y → x ≠ y :=
    ⟨fun a b hab x hx y hy => (hab y hy x hx).symm⟩
  have hdiff : Event.released id s₁ ≠ Event.released id s₂ := fun h => hne (Event.released.inj h).2
  exact hnodup.forall h₁ h₂ hdiff id rfl id rfl rfl

theorem claim (hb : l.Balanced) {c : Claim α} (hnew : c.id ∉ l.traversal.visited) :
    Balanced ⟨{ l.traversal with visited := c.id :: l.traversal.visited
                                 held := l.traversal.held + 1 },
      c.id :: l.held, l.history ++ [.handedOut c.id]⟩ := by
  have hout : handedOut (l.history ++ [.handedOut c.id]) = handedOut l.history ++ [c.id] := by
    rw [handedOut_append]; rfl
  have hrel : released (l.history ++ [.handedOut c.id]) = released l.history := by
    rw [released_append]; exact List.append_nil _
  rw [hb.mem_visited, ← mem_handedOut] at hnew
  refine ⟨?_, ?_, ?_, ?_, ?_⟩
  · rw [hout, List.reverse_append, hb.visited]; rfl
  · rw [hout, List.nodup_append]
    refine ⟨hb.once, by simp, ?_⟩
    rintro a ha b hb rfl
    exact hnew (List.mem_singleton.mp hb ▸ ha)
  · rw [hout, hrel]
    have hfront : (handedOut l.history ++ [c.id]).Perm (c.id :: handedOut l.history) :=
      List.perm_append_singleton ..
    exact (hfront.trans (hb.balance.cons c.id)).trans List.perm_middle.symm
  · rw [List.length_cons, ← hb.count]
  · rw [List.mem_append, ← hb.aborted_iff]
    simp

theorem release (hb : l.Balanced) {id : String} (hheld : id ∈ l.held) (succeeded : Bool) :
    Balanced ⟨(l.traversal.release id succeeded).2, l.held.erase id,
      l.history ++ [.released id succeeded]⟩ := by
  have hout : handedOut (l.history ++ [.released id succeeded]) = handedOut l.history := by
    rw [handedOut_append]; exact List.append_nil _
  have hrel : released (l.history ++ [.released id succeeded]) = released l.history ++ [id] := by
    rw [released_append]; rfl
  rw [release_eq]
  refine ⟨?_, ?_, ?_, ?_, ?_⟩
  · rw [hout]
    exact hb.visited
  · rw [hout]
    exact hb.once
  · rw [hout, hrel, List.append_assoc]
    exact hb.balance.trans ((List.perm_cons_erase hheld).append_left _)
  · have hlength := List.length_erase_of_mem hheld
    have hcount := hb.count
    show l.traversal.held - 1 = (l.held.erase id).length
    omega
  · rw [List.mem_append, ← hb.aborted_iff]
    simp

theorem abort (hb : l.Balanced) :
    Balanced ⟨l.traversal.abort, l.held, l.history ++ [.aborted]⟩ := by
  have hout : handedOut (l.history ++ [.aborted]) = handedOut l.history := by
    rw [handedOut_append]; exact List.append_nil _
  have hrel : released (l.history ++ [.aborted]) = released l.history := by
    rw [released_append]; exact List.append_nil _
  refine ⟨?_, ?_, ?_, hb.count, ?_⟩
  · rw [hout]
    exact hb.visited
  · rw [hout]
    exact hb.once
  · rw [hout, hrel]
    exact hb.balance
  · simp [Traversal.abort]

end Balanced

/-! ## The graph that is left -/

/-- The graph that is left agrees with the history: a node is missing when
it was released for good, and nothing else about the other nodes has
changed.  A node that was handed out going forward stays free. -/
structure Tracks (direction : Direction) (g₀ : Graph α) (l : Ledger α) : Prop where
  direction_eq : l.traversal.direction = direction
  hierarchy : l.traversal.graph.Hierarchy
  laden : l.traversal.graph.Laden
  remnant : g₀.Remnant l.traversal.graph
  known : ∀ {id}, .handedOut id ∈ l.history → ∃ p, p ≠ Graph.root ∧ g₀.idAt? p = some id
  gone_iff : ∀ {p id}, p ≠ Graph.root → g₀.idAt? p = some id →
    (¬ l.traversal.graph.Occupied p ↔ Finished direction l.history id)
  free : direction = .forward → ∀ {p id}, p ≠ Graph.root →
    l.traversal.graph.idAt? p = some id → .handedOut id ∈ l.history →
    l.traversal.graph.Free .forward p

/-- What precedes a node that is left and is left itself, preceded it at the
beginning, and the other way round. -/
theorem precedes_iff {g₀ g : Graph α} (h : g₀.Remnant g) {direction : Direction} {x p : Nat}
    (hp : p ≠ Graph.root) (hop : g.Occupied p) (hox : g.Occupied x) :
    g.Precedes direction x p ↔ g₀.Precedes direction x p := by
  cases direction with
  | forward => exact h.edge_iff hp hop hox
  | reverse => exact and_congr_right fun hx => h.edge_iff hx hox hop

namespace Tracks

variable {direction : Direction} {g₀ : Graph α} {l : Ledger α}

theorem start (hg : g₀.Hierarchy) (hl : g₀.Laden) :
    (Ledger.start direction g₀).Tracks direction g₀ := by
  refine ⟨rfl, hg, hl, .refl g₀, nofun, fun {p id} _ hid => ?_, fun _ => nofun⟩
  refine iff_of_false (fun h => h (Graph.occupied_of_idAt? hid)) ?_
  rintro ⟨_, hmem, _⟩
  cases hmem

/-- All that preceded a node that is free now is gone. -/
theorem finished_of_free (ht : l.Tracks direction g₀) (hg : g₀.Hierarchy) {x p : Nat}
    {id : String} (hp : p ≠ Graph.root) (hop : l.traversal.graph.Occupied p)
    (hfree : l.traversal.graph.Free direction p) (hx : g₀.Precedes direction x p)
    (hid : g₀.idAt? x = some id) : Finished direction l.history id := by
  obtain ⟨hroot, _⟩ := hg.precedes_occupied hx
  rw [← ht.gone_iff hroot hid]
  intro hox
  exact hfree x ((precedes_iff ht.remnant hp hop hox).mpr hx)

/-- Handing out an eligible node. -/
theorem claim (ht : l.Tracks direction g₀) {c : Claim α} {p : Nat} (hp : p ≠ Graph.root)
    (hid : l.traversal.graph.idAt? p = some c.id)
    (hfree : l.traversal.graph.Free direction p) :
    Tracks direction g₀ ⟨{ l.traversal with visited := c.id :: l.traversal.visited
                                            held := l.traversal.held + 1 },
      c.id :: l.held, l.history ++ [.handedOut c.id]⟩ := by
  refine ⟨ht.direction_eq, ht.hierarchy, ht.laden, ht.remnant, fun {id} hout => ?_,
    fun {q id} hq hqid => ?_, fun hd {q id} hq hqid hout => ?_⟩
  · rw [List.mem_append, List.mem_singleton] at hout
    rcases hout with hout | he
    · exact ht.known hout
    · cases he
      exact ⟨p, hp, ht.remnant.idAt? hid⟩
  · rw [ht.gone_iff hq hqid]
    simp [Finished]
  · rw [List.mem_append, List.mem_singleton] at hout
    rcases hout with hout | he
    · exact ht.free hd hq hqid hout
    · cases he
      rw [ht.hierarchy.consistent.position_unique hqid hid, ← hd]
      exact hfree

/-- Releasing a claim so that its node stays. -/
theorem release_kept (ht : l.Tracks direction g₀) {id : String} {succeeded : Bool}
    (hkept : prunes direction succeeded = false) :
    Tracks direction g₀ ⟨(l.traversal.release id succeeded).2, l.held.erase id,
      l.history ++ [.released id succeeded]⟩ := by
  have hgraph := @release_of_kept _ l.traversal id _ (ht.direction_eq ▸ hkept)
  rw [release_eq, hgraph]
  refine ⟨ht.direction_eq, ht.hierarchy, ht.laden, ht.remnant, fun {id'} hout => ?_,
    fun {q id'} hq hqid => ?_, fun hd {q id'} hq hqid hout => ?_⟩
  · exact ht.known (by simpa using hout)
  · rw [ht.gone_iff hq hqid, finished_concat_released]
    simp [hkept]
  · exact ht.free hd hq hqid (by simpa using hout)

/-- Releasing a claim so that its node leaves the graph.  The node is still
there, since its claim was not released before. -/
theorem release_pruned (ht : l.Tracks direction g₀) (hg : g₀.Hierarchy) (hb : l.Balanced)
    {id : String} (hheld : id ∈ l.held) {succeeded : Bool}
    (hpruned : prunes direction succeeded = true) :
    Tracks direction g₀ ⟨(l.traversal.release id succeeded).2, l.held.erase id,
      l.history ++ [.released id succeeded]⟩ := by
  have hout : .handedOut id ∈ l.history := hb.handedOut_iff.mpr (Or.inr hheld)
  obtain ⟨p, hroot, hp₀⟩ := ht.known hout
  have hocc : l.traversal.graph.Occupied p := by
    by_contra hgone
    obtain ⟨s, hs, _⟩ := (ht.gone_iff hroot hp₀).mp hgone
    exact hb.not_released_of_held hheld (mem_released.mpr ⟨s, hs⟩)
  have hid := ht.remnant.idAt?_of_occupied hocc hp₀
  have hposition := ht.hierarchy.consistent.registered.mpr hid
  obtain ⟨g, hprune, hhierarchy, hdrops⟩ := prune_eq_ok ht.hierarchy hposition hroot
    fun hd => ht.free (ht.direction_eq ▸ hd) hroot hid hout
  have hgraph := (release_of_pruned (ht.direction_eq ▸ hpruned) hprune).2
  rw [release_eq, hgraph]
  refine ⟨ht.direction_eq, hhierarchy, fun {q b} hq hqb => ?_, ht.remnant.drops hdrops,
    fun {id'} hout' => ?_, fun {q id'} hq hqid => ?_, fun hd {q id'} hq hqid hout' c hc => ?_⟩
  · rw [hdrops.bare?] at hqb
    split at hqb
    · cases hqb
    · exact ht.laden hq hqb
  · exact ht.known (by simpa using hout')
  · show ¬ g.Occupied q ↔ _
    rw [hdrops.occupied_iff, finished_concat_released]
    by_cases hqp : q = p
    · subst hqp
      rw [hp₀] at hqid
      cases hqid
      exact iff_of_true (fun h => h.1 rfl) (Or.inr ⟨rfl, hpruned⟩)
    · have hne : id' ≠ id := fun he =>
        hqp (hg.consistent.position_unique (he ▸ hqid) hp₀)
      rw [← ht.gone_iff hq hqid]
      simp [hqp, hne]
  · obtain ⟨_, hoq⟩ := hdrops.occupied_iff.mp (Graph.occupied_of_idAt? hqid)
    have hqid' := ht.remnant.idAt?_of_occupied hoq ((ht.remnant.drops hdrops).idAt? hqid)
    have hold : l.traversal.graph.Edge q c := ((hdrops.edge_iff hq).mp hc).2.2
    exact ht.free hd hq hqid' (by simpa using hout') c hold

theorem abort (ht : l.Tracks direction g₀) :
    Tracks direction g₀ ⟨l.traversal.abort, l.held, l.history ++ [.aborted]⟩ := by
  refine ⟨ht.direction_eq, ht.hierarchy, ht.laden, ht.remnant, fun {id} hout => ?_,
    fun {q id} hq hqid => ?_, fun hd {q id} hq hqid hout => ?_⟩
  · exact ht.known (by simpa using hout)
  · show ¬ l.traversal.graph.Occupied q ↔ _
    rw [ht.gone_iff hq hqid]
    simp [Finished]
  · exact ht.free hd hq hqid (by simpa using hout)

end Tracks

/-! ## Runs -/

/-- What justifies an event.  A node is handed out before an abort and after
all that precedes it; a claim is released after it was handed out. -/
def Warrant (direction : Direction) (g₀ : Graph α) (pre : List Event) : Event → Prop
  | .handedOut id => .aborted ∉ pre ∧ ∀ {x p other}, g₀.idAt? p = some id →
      g₀.Precedes direction x p → g₀.idAt? x = some other → Finished direction pre other
  | .released id _ => .handedOut id ∈ pre
  | .aborted => True

/-- The three invariants of a run. -/
structure Sound (direction : Direction) (g₀ : Graph α) (l : Ledger α) : Prop where
  balanced : l.Balanced
  tracks : l.Tracks direction g₀
  warranted : Justified (Warrant direction g₀) l.history

variable {direction : Direction} {g₀ : Graph α} {l l' : Ledger α}

/-- One turn keeps the invariants. -/
theorem Sound.turn (hs : l.Sound direction g₀) (hg : g₀.Hierarchy) (h : Turn l l') :
    l'.Sound direction g₀ := by
  cases h with
  | claim offered =>
    obtain ⟨haborted, hc, rfl⟩ := offered_iff offered
    obtain ⟨p, n, hn, heligible, hid, _⟩ := candidateClaim?_some hc
    obtain ⟨hp, hnew, hfree⟩ := (eligible_iff hs.tracks.hierarchy.consistent hn).mp heligible
    rw [hs.tracks.direction_eq] at hfree
    have hpid := Graph.idAt?_of_node? hn
    rw [hid] at hnew hpid
    refine ⟨hs.balanced.claim hnew, hs.tracks.claim hp hpid hfree, hs.warranted.concat ⟨?_, ?_⟩⟩
    · rw [← hs.balanced.aborted_iff, haborted]
      exact Bool.false_ne_true
    · intro x q other hq hx hother
      have hqp := hg.consistent.position_unique hq (hs.tracks.remnant.idAt? hpid)
      rw [hqp] at hx
      exact hs.tracks.finished_of_free hg hp (Graph.occupied_of_node? hn) hfree hx hother
  | @release id held succeeded =>
    refine ⟨hs.balanced.release held succeeded, ?_,
      hs.warranted.concat (hs.balanced.handedOut_iff.mpr (Or.inr held))⟩
    cases hpruned : prunes direction succeeded with
    | false => exact hs.tracks.release_kept hpruned
    | true => exact hs.tracks.release_pruned hg hs.balanced held hpruned
  | abort => exact ⟨hs.balanced.abort, hs.tracks.abort, hs.warranted.concat trivial⟩

/-- Whatever can be reached keeps the invariants. -/
theorem Reachable.sound (hg : g₀.Hierarchy) (hl : g₀.Laden) (h : Reachable direction g₀ l) :
    l.Sound direction g₀ := by
  induction h with
  | refl => exact ⟨.start direction g₀, .start hg hl, justified_nil _⟩
  | tail _ hturn ih => exact ih.turn hg hturn

end Ledger

end Cascade.Traversal
