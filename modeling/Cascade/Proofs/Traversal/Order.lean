import Cascade.Proofs.Traversal.Session

/-!
# The order of a run

Every session on a graph that grew by insertions hands out each node at most
once, and only after all that precedes it: going forward, after every node
below it was completed, and in reverse, after every node above it but the
root was released.  The order is that of the graph of the beginning, while
the traversal only looks at the graph that is left.

`Graph.Before` is the order of a direction on IDs.  `Sound.finished_before`
says that what comes before a node, over any number of edges, was finished
when the node was handed out.  The two main results read it for the two
directions.
-/

namespace Cascade

open Relation

variable {α : Type}

/-! ## What comes before a node -/

namespace Graph

/-- The node `other` has to be finished before the node `id` is handed
out. -/
def Before (g : Graph α) (direction : Direction) (other id : String) : Prop :=
  ∃ x p, g.position? other = some x ∧ g.position? id = some p ∧ g.Precedes direction x p

variable {rootId : String} {g : Graph α}

/-- Going forward, all that is below a node comes before it. -/
theorem transGen_before_forward {id other : String} (h : TransGen g.HasChild id other) :
    TransGen (g.Before .forward) other id := by
  rw [← transGen_swap] at h
  refine TransGen.mono (fun a b hab => ?_) other id h
  obtain ⟨p, c, hp, hc, hedge⟩ := hab
  exact ⟨c, p, hc, hp, hedge⟩

/-- In reverse, all that is above a node comes before it, the root apart.
Nothing on the way down is the root, which has no parent. -/
theorem Hierarchy.transGen_before_reverse (hg : g.Hierarchy) {id other : String}
    (h : TransGen g.HasChild other id) (hroot : g.position? other ≠ some root) :
    TransGen (g.Before .reverse) other id := by
  have hstep : ∀ {a b}, g.HasChild a b → g.position? a ≠ some root → g.Before .reverse a b := by
    rintro a b ⟨p, c, hp, hc, hedge⟩ ha
    exact ⟨p, c, hp, hc, fun he => ha (he ▸ hp), hedge⟩
  induction h using TransGen.head_induction_on with
  | single hab => exact .single (hstep hab hroot)
  | @head a b hab _ ih =>
    have hb : g.position? b ≠ some root := fun he => by
      obtain ⟨p, c, _, hc, hedge⟩ := hab
      rw [hc, Option.some.injEq] at he
      exact hg.not_edge_root p (he ▸ hedge)
    exact .head (hstep hab hroot) (ih hb)

/-- The same for a graph that grew by insertions, where the root is known by its
ID. -/
theorem Grown.transGen_before_reverse (hg : g.Grown rootId) {id other : String}
    (h : TransGen g.HasChild other id) (hroot : other ≠ rootId) :
    TransGen (g.Before .reverse) other id := by
  refine hg.hierarchy.transGen_before_reverse h fun he => hroot ?_
  have hcons := hg.hierarchy.consistent
  have hrootId := hcons.registered.mp hg.position?_root
  rw [hcons.registered.mp he] at hrootId
  exact Option.some.inj hrootId

end Graph

namespace Traversal

/-- An event occurs as often as the ID that it hands out. -/
theorem count_handedOut (history : List Event) (id : String) :
    (handedOut history).count id = history.count (.handedOut id) := by
  induction history with
  | nil => rfl
  | cons e rest ih =>
    rw [handedOut] at ih ⊢
    cases e with
    | handedOut id' => simp [Event.handedOut?, List.count_cons, ih]
    | released id' succeeded => simp [List.filterMap_cons, Event.handedOut?, ih]
    | aborted => simp [List.filterMap_cons, Event.handedOut?, ih]

namespace Ledger

variable {direction : Direction} {g₀ : Graph α} {l : Ledger α}

theorem Balanced.count_le_one (hb : l.Balanced) (id : String) :
    l.history.count (.handedOut id) ≤ 1 := by
  rw [← count_handedOut]
  exact List.nodup_iff_count_le_one.mp hb.once id

namespace Sound

variable {pre post : List Event} {id : String}

/-- Nothing is handed out after an abort. -/
theorem not_aborted_before (hs : l.Sound direction g₀)
    (h : l.history = pre ++ .handedOut id :: post) : .aborted ∉ pre :=
  (hs.warranted pre _ post h).1

/-- What was finished by some time had been handed out by then. -/
theorem handedOut_of_finished (hs : l.Sound direction g₀) (h : l.history = pre ++ post)
    {other : String} (hfinished : Finished direction pre other) : .handedOut other ∈ pre := by
  obtain ⟨succeeded, hmem, _⟩ := hfinished
  obtain ⟨before, after, rfl⟩ := List.append_of_mem hmem
  rw [List.append_assoc, List.cons_append] at h
  exact List.mem_append_left _ (hs.warranted _ _ _ h)

/-- When a node is handed out, what comes directly before it is finished. -/
theorem finished_of_before (hs : l.Sound direction g₀) (hg : g₀.Consistent)
    (h : l.history = pre ++ .handedOut id :: post) {other : String}
    (hbefore : g₀.Before direction other id) :
    .handedOut other ∈ pre ∧ Finished direction pre other := by
  obtain ⟨x, p, hx, hp, hprecedes⟩ := hbefore
  have hfinished := (hs.warranted pre _ post h).2 (hg.registered.mp hp) hprecedes
    (hg.registered.mp hx)
  exact ⟨hs.handedOut_of_finished h hfinished, hfinished⟩

/-- When a node is handed out, all that comes before it is finished.  The
induction goes along the order: what comes before a finished node was
finished when that one was handed out, which was earlier still. -/
theorem finished_before (hs : l.Sound direction g₀) (hg : g₀.Consistent)
    (h : l.history = pre ++ .handedOut id :: post) {other : String}
    (hbefore : TransGen (g₀.Before direction) other id) :
    .handedOut other ∈ pre ∧ Finished direction pre other := by
  induction hbefore using TransGen.head_induction_on with
  | single hab => exact hs.finished_of_before hg h hab
  | @head a b hab _ ih =>
    obtain ⟨early, late, rfl⟩ := List.append_of_mem ih.1
    rw [List.append_assoc, List.cons_append] at h
    obtain ⟨hout, hfinished⟩ := hs.finished_of_before hg h hab
    have hsub := List.subset_append_left early (.handedOut b :: late)
    exact ⟨hsub hout, hfinished.mono hsub⟩

/-- When a node is handed out going forward, all that is below it was handed
out and completed. -/
theorem completed_below (hs : l.Sound .forward g₀) (hg : g₀.Consistent)
    (h : l.history = pre ++ .handedOut id :: post) {c : String}
    (hc : TransGen g₀.HasChild id c) : .handedOut c ∈ pre ∧ .released c true ∈ pre := by
  obtain ⟨hout, succeeded, hmem, hprunes⟩ :=
    hs.finished_before hg h (Graph.transGen_before_forward hc)
  have hsucceeded : succeeded = true := by simpa [prunes] using hprunes
  exact ⟨hout, hsucceeded ▸ hmem⟩

/-- Going forward, nothing above a node that is not completed was handed
out. -/
theorem not_handedOut_above (hs : l.Sound .forward g₀) (hg : g₀.Consistent)
    (hid : .released id true ∉ l.history) {a : String} (ha : TransGen g₀.HasChild a id) :
    .handedOut a ∉ l.history := by
  intro hout
  obtain ⟨pre, post, hsplit⟩ := List.append_of_mem hout
  refine hid ?_
  rw [hsplit]
  exact List.mem_append_left _ (hs.completed_below hg hsplit ha).2

end Sound

end Ledger

end Traversal

/-! ## The two directions -/

namespace Handout.Session

open Cascade.Graph Traversal

variable {rootId : String} {g : Graph α}

/-- Going forward, a node is handed out at most once, never after an abort,
and only after every node below it was handed out and completed.  So nothing
above a node that was released as failed, or that is still held, is handed
out. -/
theorem forward_follows_descendants (hg : g.Grown rootId) (moves : List Move) :
    let s := (start .forward g).follow moves
    (∀ id, s.history.count (.handedOut id) ≤ 1) ∧
    (∀ pre id post, s.history = pre ++ .handedOut id :: post →
      .aborted ∉ pre ∧
      ∀ c, TransGen g.HasChild id c → .handedOut c ∈ pre ∧ .released c true ∈ pre) ∧
    (∀ id, .released id false ∈ s.history ∨ id ∈ s.held →
      ∀ a, TransGen g.HasChild a id → .handedOut a ∉ s.history) := by
  intro s
  have hs : s.ledger.Sound .forward g := follow_sound hg.hierarchy hg.laden moves
  have hcons := hg.hierarchy.consistent
  refine ⟨hs.balanced.count_le_one, fun pre id post h => ⟨hs.not_aborted_before h,
    fun c hc => hs.completed_below hcons h hc⟩, fun id hid a ha => ?_⟩
  refine hs.not_handedOut_above hcons (fun hdone => ?_) ha
  rcases hid with hfailed | hheld
  · cases hs.balanced.released_unique hdone hfailed
  · exact hs.balanced.not_released_of_held hheld (mem_released.mpr ⟨true, hdone⟩)

/-- The shared node of a diamond was completed when one above it is handed
out. -/
theorem forward_follows_descendants_diamond :
    let s := (start .forward diamond).follow
      [.register 1, .inspect 1, .release "c" true, .register 2, .inspect 2]
    s.history = [.handedOut "c", .released "c" true] ++ .handedOut "a" :: [] ∧
      TransGen diamond.HasChild "a" "c" ∧
      Event.released "c" true ∈ [.handedOut "c", .released "c" true] := by
  intro s
  have hhistory : s.history = [.handedOut "c", .released "c" true] ++ .handedOut "a" :: [] := by
    decide
  have hbelow : TransGen diamond.HasChild "a" "c" := .single diamond_hasChild
  obtain ⟨_, horder, _⟩ := forward_follows_descendants grown_diamond
    [.register 1, .inspect 1, .release "c" true, .register 2, .inspect 2]
  exact ⟨hhistory, hbelow, ((horder _ _ _ hhistory).2 "c" hbelow).2⟩

/-- In reverse, a node is handed out at most once, and only after every node
above it, the root apart, was handed out and released. -/
theorem reverse_follows_ancestors (hg : g.Grown rootId) (moves : List Move) :
    let s := (start .reverse g).follow moves
    (∀ id, s.history.count (.handedOut id) ≤ 1) ∧
    (∀ pre id post, s.history = pre ++ .handedOut id :: post →
      ∀ a, TransGen g.HasChild a id → a ≠ rootId →
        .handedOut a ∈ pre ∧ ∃ succeeded, .released a succeeded ∈ pre) := by
  intro s
  have hs : s.ledger.Sound .reverse g := follow_sound hg.hierarchy hg.laden moves
  refine ⟨hs.balanced.count_le_one, fun pre id post h a ha hroot => ?_⟩
  obtain ⟨hout, succeeded, hmem, _⟩ :=
    hs.finished_before hg.hierarchy.consistent h (hg.transGen_before_reverse ha hroot)
  exact ⟨hout, succeeded, hmem⟩

/-- Both nodes above the shared node of a diamond were released when it is
handed out, though one of them failed. -/
theorem reverse_follows_ancestors_diamond :
    let s := (start .reverse diamond).follow
      [.register 1, .inspect 1, .release "a" false, .register 1, .inspect 1, .release "b" true,
        .register 1, .inspect 1]
    let pre := [Event.handedOut "a", .released "a" false, .handedOut "b", .released "b" true]
    s.history = pre ++ .handedOut "c" :: [] ∧ TransGen diamond.HasChild "a" "c" ∧
      ∃ succeeded, Event.released "a" succeeded ∈ pre := by
  intro s pre
  have hhistory : s.history = pre ++ .handedOut "c" :: [] := by decide
  have habove : TransGen diamond.HasChild "a" "c" := .single diamond_hasChild
  obtain ⟨_, horder⟩ := reverse_follows_ancestors grown_diamond
    [.register 1, .inspect 1, .release "a" false, .register 1, .inspect 1, .release "b" true,
      .register 1, .inspect 1]
  exact ⟨hhistory, habove, (horder _ _ _ hhistory "a" habove (by decide)).2⟩

end Handout.Session

end Cascade
