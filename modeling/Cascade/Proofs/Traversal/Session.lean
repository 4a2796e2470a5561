import Cascade.Proofs.Traversal.Ledger
import Cascade.Traversal.Handout

/-!
# Clients of a handout

A `Session` is a handout with the clients around it: which of them are about
to look at the traversal and which are parked, which claims they hold, and
which notifications a release or an abort still owes.  `Session.next` is the
effect of one atomic step of one client, and `Session.Enabled` says when the
client can take it.  A step of one client may come between any two steps of
another.

`Session.follow` takes the steps that a list of moves prescribes, so a
statement about all lists of moves is one about all interleavings of any
number of clients.  `follow_reachable` says that whatever happens in a
session is a run of the ledger of its traversal.
-/

namespace Cascade.Handout

open Traversal (Event Ledger)

variable {α : Type}

/-! ## The waiters -/

theorem waiting?_unregister (h : Handout α) (client k : Nat) :
    (h.unregister client).waiting? k = if k = client then none else h.waiting? k := by
  simp only [waiting?, unregister]
  induction h.waiters with
  | nil => simp
  | cons w rest ih =>
    obtain ⟨c, notified⟩ := w
    by_cases hc : c = client
    · subst hc
      by_cases hk : k = c
      · simpa [hk] using ih
      · simpa [hk, List.lookup_cons, beq_false_of_ne hk] using ih
    · by_cases hk : k = c
      · simp [hk, hc]
      · simpa [hc, List.lookup_cons, beq_false_of_ne hk] using ih

theorem waiting?_unregister_eq_some {h : Handout α} {client k : Nat} {notified : Bool} :
    (h.unregister client).waiting? k = some notified ↔
      k ≠ client ∧ h.waiting? k = some notified := by
  rw [waiting?_unregister]
  split <;> simp_all

theorem waiting?_register (h : Handout α) (client k : Nat) :
    (h.register client).waiting? k = if k = client then some false else h.waiting? k := by
  have hold := waiting?_unregister h client k
  by_cases hk : k = client
  · simp [waiting?, register, hk]
  · rw [if_neg hk] at hold ⊢
    rw [← hold]
    simp [waiting?, register, List.lookup_cons, beq_false_of_ne hk]

theorem waiting?_notify (h : Handout α) (k : Nat) :
    h.notify.waiting? k = (h.waiting? k).map fun _ => true := by
  simp only [waiting?, notify]
  induction h.waiters with
  | nil => rfl
  | cons w rest ih =>
    obtain ⟨c, notified⟩ := w
    by_cases hk : k = c
    · simp [hk]
    · simpa [List.lookup_cons, beq_false_of_ne hk] using ih

theorem wake_eq_some {h : Handout α} {client : Nat} (hw : h.waiting? client = some true) :
    h.wake client = some (h.register client) := by
  rw [wake, hw]

theorem wake_eq_none {h : Handout α} {client : Nat} (hw : h.waiting? client ≠ some true) :
    h.wake client = none := by
  unfold wake
  split
  · rename_i hnotified
    exact absurd hnotified hw
  · rfl

/-- The three answers to a client that looks.  It stays registered only if
it has to wait. -/
theorem inspect_cases (h : Handout α) (client : Nat) :
    (∃ c t, h.traversal.offer = (.claim c, t) ∧
      h.inspect client = (.claim c, unregister { h with traversal := t } client)) ∨
    (h.traversal.offer = (.exhausted, h.traversal) ∧
      h.inspect client = (.exhausted, h.unregister client)) ∨
    (h.traversal.offer = (.pending, h.traversal) ∧ h.inspect client = (.pending, h)) := by
  rcases h.traversal.offer_cases with ⟨_, ho⟩ | ⟨_, c, _, ho⟩ | ⟨_, _, _, ho⟩ | ⟨_, _, _, ho⟩
  · exact Or.inr (Or.inl ⟨ho, by rw [inspect, ho]⟩)
  · exact Or.inl ⟨c, _, ho, by rw [inspect, ho]⟩
  · exact Or.inr (Or.inl ⟨ho, by rw [inspect, ho]⟩)
  · exact Or.inr (Or.inr ⟨ho, by rw [inspect, ho]⟩)

/-- A client that looks is answered what the traversal offers. -/
theorem inspect_fst (h : Handout α) (client : Nat) :
    (h.inspect client).1 = h.traversal.offer.1 := by
  rcases h.inspect_cases client with ⟨c, t, ho, hi⟩ | ⟨ho, hi⟩ | ⟨ho, hi⟩ <;> rw [ho, hi]

theorem inspect_of_claim {h : Handout α} {client : Nat} {claim : Claim α}
    (ho : (h.inspect client).1 = .claim claim) :
    ∃ t, h.traversal.offer = (.claim claim, t) ∧
      (h.inspect client).2 = unregister { h with traversal := t } client := by
  rcases h.inspect_cases client with ⟨c, t, hoffer, hi⟩ | ⟨_, hi⟩ | ⟨_, hi⟩ <;> rw [hi] at ho <;>
    cases ho
  exact ⟨t, hoffer, congrArg Prod.snd hi⟩

theorem inspect_of_exhausted {h : Handout α} {client : Nat}
    (ho : (h.inspect client).1 = .exhausted) : (h.inspect client).2 = h.unregister client := by
  rcases h.inspect_cases client with ⟨c, t, _, hi⟩ | ⟨_, hi⟩ | ⟨_, hi⟩ <;> rw [hi] at ho <;>
    cases ho
  exact congrArg Prod.snd hi

theorem inspect_of_pending {h : Handout α} {client : Nat}
    (ho : (h.inspect client).1 = .pending) : (h.inspect client).2 = h := by
  rcases h.inspect_cases client with ⟨c, t, _, hi⟩ | ⟨_, hi⟩ | ⟨_, hi⟩ <;> rw [hi] at ho <;>
    cases ho
  exact congrArg Prod.snd hi

/-! ## Sessions -/

/-- What a release or an abort owes to those who wait. -/
inductive Notice where
  | release
  | abort
deriving Repr, DecidableEq

/-- An atomic step of a client. -/
inductive Move where
  /-- Begin a request: register as a waiter. -/
  | register (client : Nat)
  /-- Look at the traversal. -/
  | inspect (client : Nat)
  /-- Register afresh after a notification. -/
  | wake (client : Nat)
  /-- Give up a request that waits. -/
  | leave (client : Nat)
  /-- Release a claim, as done or as failed, without notifying anybody yet. -/
  | release (id : String) (succeeded : Bool)
  /-- Abort the traversal, without notifying anybody yet. -/
  | abort
  /-- Notify every waiter, as a release or an abort owes it. -/
  | notify (notice : Notice)
deriving Repr, DecidableEq

/-- A handout and its clients. -/
structure Session (α : Type) where
  handout : Handout α
  /-- The clients that are registered and about to look. -/
  looking : List Nat
  /-- The clients that had to wait and were not notified since they
  looked. -/
  parked : List Nat
  /-- The IDs of the claims that are held. -/
  held : List String
  /-- The notifications that are still to come. -/
  owed : List Notice
  /-- What has happened to the traversal, the latest last. -/
  history : List Event

namespace Session

/-- A handout that no client has come to yet. -/
def start (direction : Direction) (graph : Graph α) : Session α :=
  ⟨.start direction graph, [], [], [], [], []⟩

/-- Whether a client can take a step. -/
def Enabled (s : Session α) : Move → Prop
  | .register client => s.handout.waiting? client = none
  | .inspect client => client ∈ s.looking
  | .wake client => client ∉ s.looking ∧ s.handout.waiting? client = some true
  | .leave client => client ∉ s.looking
  | .release id _ => id ∈ s.held
  | .abort => True
  | .notify notice => notice ∈ s.owed

instance (s : Session α) : (m : Move) → Decidable (s.Enabled m)
  | .register _ => inferInstanceAs (Decidable (_ = _))
  | .inspect _ => inferInstanceAs (Decidable (_ ∈ _))
  | .wake _ => inferInstanceAs (Decidable (_ ∧ _))
  | .leave _ => inferInstanceAs (Decidable (_ ∉ _))
  | .release _ _ => inferInstanceAs (Decidable (_ ∈ _))
  | .abort => inferInstanceAs (Decidable True)
  | .notify _ => inferInstanceAs (Decidable (_ ∈ _))

/-- The effect of a step. -/
def next (s : Session α) : Move → Session α
  | .register client =>
    { s with handout := s.handout.register client, looking := client :: s.looking }
  | .inspect client =>
    let (offer, handout) := s.handout.inspect client
    let s := { s with handout, looking := s.looking.filter (· ≠ client) }
    match offer with
    | .claim c => { s with held := c.id :: s.held, history := s.history ++ [.handedOut c.id] }
    | .pending => { s with parked := client :: s.parked }
    | .exhausted => s
  | .wake client =>
    { s with
      handout := (s.handout.wake client).getD s.handout
      looking := client :: s.looking
      parked := s.parked.filter (· ≠ client) }
  | .leave client =>
    { s with
      handout := s.handout.unregister client
      parked := s.parked.filter (· ≠ client) }
  | .release id succeeded =>
    { s with
      handout := (s.handout.release id succeeded).2
      held := s.held.erase id
      owed := .release :: s.owed
      history := s.history ++ [.released id succeeded] }
  | .abort =>
    { s with
      handout := s.handout.abort
      owed := .abort :: s.owed
      history := s.history ++ [.aborted] }
  | .notify notice =>
    { s with handout := s.handout.notify, owed := s.owed.erase notice, parked := [] }

/-- Take the steps that a list of moves prescribes, in its order.  A step
that its client cannot take is passed over. -/
def follow (s : Session α) (moves : List Move) : Session α :=
  moves.foldl (fun s m => if s.Enabled m then s.next m else s) s

/-- What holds at the beginning and is kept by every step that can be taken
holds in the end. -/
theorem follow_induction {P : Session α → Prop} (moves : List Move) {s : Session α} (hs : P s)
    (hstep : ∀ s, ∀ m ∈ moves, P s → s.Enabled m → P (s.next m)) : P (s.follow moves) := by
  induction moves generalizing s with
  | nil => exact hs
  | cons m rest ih =>
    have hrest := fun (s : Session α) m' hm' => hstep s m' (List.mem_cons_of_mem m hm')
    rw [follow, List.foldl_cons]
    split
    · rename_i henabled
      exact ih (hstep s m (by simp) hs henabled) hrest
    · exact ih hs hrest

/-! ## The ledger of a session -/

/-- The books of the traversal. -/
def ledger (s : Session α) : Ledger α := ⟨s.handout.traversal, s.held, s.history⟩

/-- A client that looks takes a claim, or nothing happens to the
traversal. -/
theorem ledger_inspect (s : Session α) (client : Nat) :
    (s.next (.inspect client)).ledger = s.ledger ∨
      Ledger.Turn s.ledger (s.next (.inspect client)).ledger := by
  rcases s.handout.inspect_cases client with ⟨c, t, ho, hi⟩ | ⟨_, hi⟩ | ⟨_, hi⟩
  · refine Or.inr ?_
    simp only [next, hi]
    exact .claim ho
  · refine Or.inl ?_
    simp only [next, hi]
    rfl
  · refine Or.inl ?_
    simp only [next, hi]
    rfl

/-- A step is at most one turn of the traversal. -/
theorem ledger_next {s : Session α} {m : Move} (h : s.Enabled m) :
    (s.next m).ledger = s.ledger ∨ Ledger.Turn s.ledger (s.next m).ledger := by
  cases m with
  | register client => exact Or.inl rfl
  | inspect client => exact s.ledger_inspect client
  | wake client =>
    refine Or.inl ?_
    simp only [next, wake_eq_some h.2]
    rfl
  | leave client => exact Or.inl rfl
  | release id succeeded => exact Or.inr (.release h succeeded)
  | abort => exact Or.inr .abort
  | notify notice => exact Or.inl rfl

theorem reachable_next {direction : Direction} {graph : Graph α} {s : Session α} {m : Move}
    (hs : Ledger.Reachable direction graph s.ledger) (henabled : s.Enabled m) :
    Ledger.Reachable direction graph (s.next m).ledger := by
  rcases ledger_next henabled with heq | hturn
  · rw [heq]
    exact hs
  · exact hs.tail hturn

/-- Whatever happens in a session is a run of its traversal. -/
theorem follow_reachable (direction : Direction) (graph : Graph α) (moves : List Move) :
    Ledger.Reachable direction graph ((start direction graph).follow moves).ledger :=
  follow_induction (P := fun s => Ledger.Reachable direction graph s.ledger) moves
    Relation.ReflTransGen.refl fun _ _ _ hs henabled => reachable_next hs henabled

/-- The invariants of runs hold in every session. -/
theorem follow_sound {direction : Direction} {graph : Graph α} (hg : graph.Hierarchy)
    (hl : graph.Laden) (moves : List Move) :
    ((start direction graph).follow moves).ledger.Sound direction graph :=
  (follow_reachable direction graph moves).sound hg hl

end Session

end Cascade.Handout
