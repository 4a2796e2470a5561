import Cascade.Proofs.Traversal.Order

/-!
# What is left when a traversal is exhausted

A request that is answered by "nothing more" before any abort is answered
so for a reason: no claim is held, and no node of the graph that is left is
eligible.

* Going forward, following the edges down from any node that is left ends at
  a free node, which was released as failed (`Sound.exists_failed_below`).
  So what is left is what is above a failed node, that one included.
* In reverse, following the edges up from any node that is left ends at a
  free node, and a free node that was released is gone
  (`Sound.not_occupied_of_exhausted`).  So nothing is left.
-/

namespace Cascade

open Relation

variable {α : Type}

namespace Traversal

/-- Why a request is answered by "nothing more". -/
theorem exhausted_cases {t : Traversal α} (h : t.offer.1 = .exhausted) :
    t.aborted = true ∨ (t.candidateClaim? = none ∧ t.held = 0) := by
  rcases t.offer_cases with ⟨ha, _⟩ | ⟨_, c, _, ho⟩ | ⟨_, hc, hh, _⟩ | ⟨_, _, _, ho⟩
  · exact Or.inl ha
  · rw [ho] at h
    cases h
  · exact Or.inr ⟨hc, hh⟩
  · rw [ho] at h
    cases h

namespace Ledger

/-- No claim is held and nothing can be handed out. -/
structure Spent (l : Ledger α) : Prop where
  held : l.held = []
  nothing : l.traversal.candidateClaim? = none

variable {direction : Direction} {g₀ : Graph α} {l : Ledger α}

theorem Sound.spent_of_exhausted (hs : l.Sound direction g₀) (haborted : .aborted ∉ l.history)
    (h : l.traversal.offer.1 = .exhausted) : l.Spent := by
  rcases exhausted_cases h with ha | ⟨hnothing, hheld⟩
  · exact absurd (hs.balanced.aborted_iff.mp ha) haborted
  · refine ⟨List.eq_nil_of_length_eq_zero ?_, hnothing⟩
    rw [← hs.balanced.count, hheld]

/-- A free node that is left was handed out, since it is not eligible, and
was released, since nothing is held. -/
theorem Sound.released_of_free (hs : l.Sound direction g₀) (hspent : l.Spent) {p : Nat}
    {id : String} (hp : p ≠ Graph.root) (hid : l.traversal.graph.idAt? p = some id)
    (hfree : l.traversal.graph.Free direction p) :
    ∃ succeeded, .released id succeeded ∈ l.history := by
  have hcons := hs.tracks.hierarchy.consistent
  obtain ⟨n, hn⟩ := (Graph.occupied_of_idAt? hid).exists_node?
  have hnot := candidateClaim?_none hs.tracks.hierarchy hs.tracks.laden hspent.nothing hn
  have hvisited : id ∈ l.traversal.visited := by
    rw [Graph.idAt?_of_node? hn, Option.some_inj] at hid
    by_contra hnew
    rw [← hs.tracks.direction_eq] at hfree
    have heligible := (eligible_iff hcons hn).mpr ⟨hp, hid ▸ hnew, hfree⟩
    rw [hnot] at heligible
    cases heligible
  rw [hs.balanced.mem_visited, hs.balanced.handedOut_iff, hspent.held] at hvisited
  rcases hvisited with hreleased | hheld
  · exact mem_released.mp hreleased
  · cases hheld

/-- Going forward, below every node that is left there is one that was
released as failed.  The induction goes down the edges of the graph that is
left; a node without children is free. -/
theorem Sound.exists_failed_below (hs : l.Sound .forward g₀) (hg : g₀.Consistent)
    (hspent : l.Spent) (p : Nat) :
    p ≠ Graph.root → ∀ id, l.traversal.graph.idAt? p = some id →
      ∃ d, .released d false ∈ l.history ∧ ReflTransGen g₀.HasChild id d := by
  have hhierarchy := hs.tracks.hierarchy
  induction p using hhierarchy.acyclic.induction_down hhierarchy.consistent with
  | hstep p ih =>
    intro hp id hid
    have hocc := Graph.occupied_of_idAt? hid
    have hid₀ := hs.tracks.remnant.idAt? hid
    by_cases hfree : l.traversal.graph.Free .forward p
    · obtain ⟨succeeded, hmem⟩ := hs.released_of_free hspent hp hid hfree
      cases succeeded with
      | false => exact ⟨id, hmem, .refl⟩
      | true =>
        have hgone := (hs.tracks.gone_iff hp hid₀).mpr ⟨true, hmem, rfl⟩
        exact absurd hocc hgone
    · obtain ⟨c, hedge⟩ := not_forall_not.mp hfree
      have hprecedes : l.traversal.graph.Precedes .forward c p := hedge
      obtain ⟨hc, hoc⟩ := hhierarchy.precedes_occupied hprecedes
      obtain ⟨child, hcid⟩ := hoc.exists_idAt?
      obtain ⟨d, hfailed, hreach⟩ := ih c hedge hc child hcid
      refine ⟨d, hfailed, .head ⟨p, c, hg.registered.mpr hid₀,
        hg.registered.mpr (hs.tracks.remnant.idAt? hcid), ?_⟩ hreach⟩
      exact (hs.tracks.remnant.edge_iff hp hocc hoc).mp hedge

/-- Going forward, a node above one that was released as failed is left. -/
theorem Sound.occupied_above_failed (hs : l.Sound .forward g₀) (hg : g₀.Consistent) {p : Nat}
    {id d : String} (hp : p ≠ Graph.root) (hid : g₀.idAt? p = some id)
    (hfailed : .released d false ∈ l.history) (hreach : ReflTransGen g₀.HasChild id d) :
    l.traversal.graph.Occupied p := by
  by_contra hgone
  obtain ⟨succeeded, hmem, hprunes⟩ := (hs.tracks.gone_iff hp hid).mp hgone
  have hsucceeded : succeeded = true := by simpa [prunes] using hprunes
  subst hsucceeded
  have hnot : .released d true ∉ l.history := by
    intro h
    cases hs.balanced.released_unique h hfailed
  rcases reflTransGen_iff_eq_or_transGen.mp hreach with rfl | habove
  · exact hnot hmem
  · have hout := hs.balanced.handedOut_iff.mpr (Or.inl (mem_released.mpr ⟨true, hmem⟩))
    exact hs.not_handedOut_above hg hnot habove hout

/-- In reverse, no node but the root is left.  The induction goes up the
edges of the graph that is left; a node whose only parent is the root is
free. -/
theorem Sound.not_occupied_of_exhausted (hs : l.Sound .reverse g₀) (hspent : l.Spent)
    (p : Nat) : p ≠ Graph.root → ¬ l.traversal.graph.Occupied p := by
  have hhierarchy := hs.tracks.hierarchy
  induction p using hhierarchy.acyclic.induction_up hhierarchy.consistent with
  | hstep p ih =>
    intro hp hocc
    by_cases hfree : l.traversal.graph.Free .reverse p
    · obtain ⟨id, hid⟩ := hocc.exists_idAt?
      obtain ⟨succeeded, hmem⟩ := hs.released_of_free hspent hp hid hfree
      have hprunes : prunes .reverse succeeded = true := by simp [prunes]
      exact (hs.tracks.gone_iff hp (hs.tracks.remnant.idAt? hid)).mpr
        ⟨succeeded, hmem, hprunes⟩ hocc
    · obtain ⟨x, hx, hedge⟩ := not_forall_not.mp hfree
      exact ih x hedge hx (Graph.occupied_of_mem_childrenOf hedge)

/-! ## What is left, by IDs -/

/-- A node of the beginning that is missing was released for good. -/
theorem Sound.finished_of_missing (hs : l.Sound direction g₀) (hg : g₀.Consistent) {id : String}
    (hid : id ∈ g₀.ids) (hmissing : id ∉ l.traversal.graph.ids) :
    Finished direction l.history id := by
  obtain ⟨p, hp, hpid⟩ := hg.mem_ids.mp hid
  rw [← hs.tracks.gone_iff hp hpid]
  intro hocc
  exact hmissing (hs.tracks.hierarchy.consistent.mem_ids.mpr
    ⟨p, hp, hs.tracks.remnant.idAt?_of_occupied hocc hpid⟩)

/-- A missing node was handed out once. -/
theorem Sound.count_of_missing (hs : l.Sound direction g₀) (hg : g₀.Consistent) {id : String}
    (hid : id ∈ g₀.ids) (hmissing : id ∉ l.traversal.graph.ids) :
    l.history.count (.handedOut id) = 1 := by
  obtain ⟨succeeded, hmem, _⟩ := hs.finished_of_missing hg hid hmissing
  have hout := hs.balanced.handedOut_iff.mpr (Or.inl (mem_released.mpr ⟨succeeded, hmem⟩))
  have hpos := List.count_pos_iff.mpr hout
  have hle := hs.balanced.count_le_one id
  omega

/-- Going forward, a missing node was handed out and completed. -/
theorem Sound.completed_of_missing (hs : l.Sound .forward g₀) (hg : g₀.Consistent) {id : String}
    (hid : id ∈ g₀.ids) (hmissing : id ∉ l.traversal.graph.ids) :
    .handedOut id ∈ l.history ∧ .released id true ∈ l.history := by
  obtain ⟨succeeded, hmem, hprunes⟩ := hs.finished_of_missing hg hid hmissing
  have hsucceeded : succeeded = true := by simpa [prunes] using hprunes
  subst hsucceeded
  exact ⟨hs.balanced.handedOut_iff.mpr (Or.inl (mem_released.mpr ⟨true, hmem⟩)), hmem⟩

/-- Going forward, exactly what is above a failed node is left, that one
included. -/
theorem Sound.mem_ids_iff_of_spent (hs : l.Sound .forward g₀) (hg : g₀.Consistent)
    (hspent : l.Spent) {id : String} :
    id ∈ l.traversal.graph.ids ↔
      id ∈ g₀.ids ∧ ∃ d, .released d false ∈ l.history ∧ ReflTransGen g₀.HasChild id d := by
  have hcons := hs.tracks.hierarchy.consistent
  rw [hcons.mem_ids, hg.mem_ids]
  constructor
  · rintro ⟨p, hp, hid⟩
    exact ⟨⟨p, hp, hs.tracks.remnant.idAt? hid⟩, hs.exists_failed_below hg hspent p hp id hid⟩
  · rintro ⟨⟨p, hp, hid⟩, d, hfailed, hreach⟩
    have hocc := hs.occupied_above_failed hg hp hid hfailed hreach
    exact ⟨p, hp, hs.tracks.remnant.idAt?_of_occupied hocc hid⟩

/-- In reverse, nothing is left. -/
theorem Sound.ids_eq_nil_of_spent (hs : l.Sound .reverse g₀) (hspent : l.Spent) :
    l.traversal.graph.ids = [] := by
  rw [List.eq_nil_iff_forall_not_mem]
  intro id hid
  obtain ⟨p, hp, hpid⟩ := hs.tracks.hierarchy.consistent.mem_ids.mp hid
  exact hs.not_occupied_of_exhausted hspent p hp (Graph.occupied_of_idAt? hpid)

/-- If nothing failed, nothing is left in either direction. -/
theorem Sound.ids_eq_nil_of_no_failure (hs : l.Sound direction g₀) (hg : g₀.Consistent)
    (hspent : l.Spent) (hdone : ∀ id, .released id false ∉ l.history) :
    l.traversal.graph.ids = [] := by
  cases direction with
  | forward =>
    rw [List.eq_nil_iff_forall_not_mem]
    intro id hid
    obtain ⟨_, d, hfailed, _⟩ := (hs.mem_ids_iff_of_spent hg hspent).mp hid
    exact hdone d hfailed
  | reverse => exact hs.ids_eq_nil_of_spent hspent

end Ledger

end Traversal

/-! ## Exhaustion of a session -/

namespace Handout.Session

open Cascade.Graph Traversal

variable {rootId : String} {g : Graph α}

/-- A client that looks does not abort. -/
theorem not_aborted_inspect {s : Session α} {client : Nat} (h : .aborted ∉ s.history) :
    .aborted ∉ (s.next (.inspect client)).history := by
  rcases s.handout.inspect_cases client with ⟨c, t, _, hi⟩ | ⟨_, hi⟩ | ⟨_, hi⟩
  · simp only [next, hi, List.mem_append, List.mem_singleton]
    rintro (hold | hnew)
    · exact h hold
    · cases hnew
  · simpa only [next, hi] using h
  · simpa only [next, hi] using h

/-- Without a move that aborts, nothing aborts. -/
theorem not_aborted {direction : Direction} {moves : List Move} (h : .abort ∉ moves) :
    .aborted ∉ ((start direction g).follow moves).history := by
  have hstart : .aborted ∉ (start direction g).history := List.not_mem_nil
  refine follow_induction (P := fun s => .aborted ∉ s.history) moves hstart
    fun s m hm hs _ => ?_
  cases m with
  | inspect client => exact not_aborted_inspect hs
  | release id succeeded =>
    simp only [next, List.mem_append, List.mem_singleton]
    rintro (hold | hnew)
    · exact hs hold
    · cases hnew
  | abort => exact absurd hm h
  | register _ => exact hs
  | wake _ => exact hs
  | leave _ => exact hs
  | notify _ => exact hs

/-- When a client is told that there is nothing more, and nothing was
aborted, no claim is held.  Going forward, the nodes that are left are those
from which a failed one can be reached, and all others were handed out and
completed.  In reverse, no node is left.  If nothing failed, every node was
handed out once. -/
theorem exhausted_exactly (hg : g.Grown rootId) (direction : Direction) (moves : List Move)
    (hmoves : .abort ∉ moves) (client : Nat) :
    let s := (start direction g).follow moves
    (s.handout.inspect client).1 = .exhausted →
      s.held = [] ∧
      (direction = .forward →
        (∀ id, id ∈ s.handout.traversal.graph.ids ↔
          id ∈ g.ids ∧ ∃ d, .released d false ∈ s.history ∧ ReflTransGen g.HasChild id d) ∧
        ∀ id ∈ g.ids, id ∉ s.handout.traversal.graph.ids →
          .handedOut id ∈ s.history ∧ .released id true ∈ s.history) ∧
      (direction = .reverse → s.handout.traversal.graph.isEmpty = true) ∧
      ((∀ id, .released id false ∉ s.history) →
        ∀ id ∈ g.ids, s.history.count (.handedOut id) = 1) := by
  intro s hexhausted
  have hs : s.ledger.Sound direction g := follow_sound hg.hierarchy hg.laden moves
  have hcons := hg.hierarchy.consistent
  rw [inspect_fst] at hexhausted
  have hspent := hs.spent_of_exhausted (not_aborted hmoves) hexhausted
  refine ⟨hspent.held, ?_, ?_, fun hdone id hid => ?_⟩
  · rintro rfl
    exact ⟨fun id => hs.mem_ids_iff_of_spent hcons hspent,
      fun id hid hmissing => hs.completed_of_missing hcons hid hmissing⟩
  · rintro rfl
    exact hs.tracks.hierarchy.consistent.isEmpty_iff.mpr (hs.ids_eq_nil_of_spent hspent)
  · refine hs.count_of_missing hcons hid ?_
    rw [hs.ids_eq_nil_of_no_failure hcons hspent hdone]
    exact List.not_mem_nil

/-- After the shared node of a diamond has failed, a node above it is
left. -/
theorem exhausted_exactly_diamond :
    let s := (start .forward diamond).follow
      [.register 1, .inspect 1, .release "c" false, .register 1]
    (s.handout.inspect 1).1 = .exhausted ∧ s.held = [] ∧ "a" ∈ s.handout.traversal.graph.ids := by
  intro s
  have hexhausted : (s.handout.inspect 1).1 = .exhausted := by decide
  obtain ⟨hheld, hforward, _⟩ := exhausted_exactly grown_diamond .forward
    [.register 1, .inspect 1, .release "c" false, .register 1] (by decide) 1 hexhausted
  have hfailed : .released "c" false ∈ s.history := by decide
  exact ⟨hexhausted, hheld, ((hforward rfl).1 "a").mpr
    ⟨by decide, "c", hfailed, .single diamond_hasChild⟩⟩

end Handout.Session

end Cascade
