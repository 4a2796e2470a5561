import Cascade.Proofs.Traversal.Session

/-!
# Clients that wait

A release and an abort change the traversal first and notify the waiters
afterwards, and any steps of other clients may come in between.  `Alert` is
the invariant that makes this safe.  A client that is parked may have to know
of an abort, of the last claim being given back, or of a node that has become
eligible; each of them was brought about by a step that still owes its
notification.

Only a release and an abort bring about one of the three, and both then owe
a notification (`Alert.release`, `Alert.abort`).  A client parks only when it
has seen that none of the three holds (`Alert.inspect`), and a notification
leaves nobody parked (`Alert.notify`).

A session remembers who is parked, while a handout knows its waiters only, and
notifies these.  `Registered` ties the two: whoever looks or is parked is a
waiter, so a notification reaches it.
-/

namespace Cascade

variable {α : Type}

namespace Traversal

/-- A claim makes no node eligible. -/
theorem eligible_of_claimed {t : Traversal α} {id : String} {held : Nat} {n : Node α}
    (h : eligible { t with visited := id :: t.visited, held := held } n = true) :
    t.eligible n = true := by
  simp only [eligible, Bool.and_eq_true, Bool.not_eq_true', List.contains_cons,
    Bool.or_eq_false_iff] at h ⊢
  exact ⟨⟨h.1.1, h.1.2.2⟩, h.2⟩

end Traversal

namespace Handout

open Cascade.Graph Traversal

/-- A request is told to wait when a claim is held and, not being aborted,
the traversal has nothing to hand out. -/
theorem offer_pending {t t' : Traversal α} (h : t.offer = (.pending, t')) :
    t.aborted = false ∧ t.candidateClaim? = none ∧ t.held ≠ 0 := by
  rcases t.offer_cases with ⟨_, ho⟩ | ⟨_, c, _, ho⟩ | ⟨_, _, _, ho⟩ | ⟨ha, hc, hheld, _⟩
  · rw [ho] at h
    cases h
  · rw [ho] at h
    cases h
  · rw [ho] at h
    cases h
  · exact ⟨ha, hc, hheld⟩

namespace Session

/-- Some node can be handed out. -/
def Available (s : Session α) : Prop :=
  ∃ p n, s.handout.traversal.graph.node? p = some n ∧ s.handout.traversal.eligible n = true

/-- What a parked client has to know of is still to be notified. -/
structure Alert (s : Session α) : Prop where
  /-- A waiter that was not notified is parked or about to look. -/
  waiting : ∀ {client}, s.handout.waiting? client = some false → client ∉ s.looking →
    client ∈ s.parked
  aborted : s.parked ≠ [] → s.handout.traversal.aborted = true → .abort ∈ s.owed
  idle : s.parked ≠ [] → s.held = [] → .release ∈ s.owed
  available : s.parked ≠ [] → s.Available → .release ∈ s.owed

namespace Alert

variable {s : Session α}

theorem start (direction : Direction) (graph : Graph α) :
    (Session.start direction graph).Alert :=
  ⟨nofun, fun h => absurd rfl h, fun h => absurd rfl h, fun h => absurd rfl h⟩

theorem register (ha : s.Alert) (client : Nat) : (s.next (.register client)).Alert := by
  refine ⟨fun {k} hk hlooking => ?_, ha.aborted, ha.idle, ha.available⟩
  have hne : k ≠ client := fun he => hlooking (he ▸ List.mem_cons_self ..)
  simp only [next, waiting?_register, if_neg hne] at hk
  exact ha.waiting hk fun h => hlooking (List.mem_cons_of_mem _ h)

/-- A client that looks parks only if there is nothing that it has to know
of. -/
theorem inspect (ha : s.Alert) {direction : Direction} {g : Graph α}
    (hs : s.ledger.Sound direction g) (client : Nat) : (s.next (.inspect client)).Alert := by
  have hlooking : ∀ {k}, k ≠ client → k ∉ s.looking.filter (· ≠ client) → k ∉ s.looking :=
    fun hne h hmem => h (List.mem_filter.mpr ⟨hmem, by simpa using hne⟩)
  rcases s.handout.inspect_cases client with ⟨c, t, ho, hi⟩ | ⟨_, hi⟩ | ⟨ho, hi⟩
  · obtain ⟨haborted, _, rfl⟩ := Ledger.offered_iff ho
    simp only [next, hi]
    refine ⟨fun {k} hk hl => ?_, ha.aborted, fun _ hidle => ?_, fun hparked havailable => ?_⟩
    · obtain ⟨hne, hwaits⟩ := waiting?_unregister_eq_some.mp hk
      exact ha.waiting hwaits (hlooking hne hl)
    · cases hidle
    · obtain ⟨p, n, hn, he⟩ := havailable
      exact ha.available hparked ⟨p, n, hn, eligible_of_claimed he⟩
  · simp only [next, hi]
    refine ⟨fun {k} hk hl => ?_, ha.aborted, ha.idle, ha.available⟩
    obtain ⟨hne, hwaits⟩ := waiting?_unregister_eq_some.mp hk
    exact ha.waiting hwaits (hlooking hne hl)
  · obtain ⟨haborted, hnothing, hheld⟩ := offer_pending ho
    simp only [next, hi]
    refine ⟨fun {k} hk hl => ?_, fun _ h => ?_, fun _ hidle => ?_, fun _ havailable => ?_⟩
    · by_cases hne : k = client
      · exact hne ▸ List.mem_cons_self ..
      · exact List.mem_cons_of_mem _ (ha.waiting hk (hlooking hne hl))
    · rw [haborted] at h
      cases h
    · have hcount := hs.balanced.count
      rw [ledger, hidle] at hcount
      exact absurd hcount hheld
    · obtain ⟨p, n, hn, he⟩ := havailable
      have hnot := candidateClaim?_none hs.tracks.hierarchy hs.tracks.laden hnothing hn
      exact absurd (hnot.symm.trans he) Bool.false_ne_true

/-- Whoever gives up or registers afresh is no longer parked. -/
theorem unpark (ha : s.Alert) (client : Nat) {handout : Handout α} {looking : List Nat}
    (htraversal : handout.traversal = s.handout.traversal)
    (hwaiting : ∀ {k}, handout.waiting? k = some false → k ∉ looking →
      k ≠ client ∧ s.handout.waiting? k = some false ∧ k ∉ s.looking) :
    Alert { s with handout, looking, parked := s.parked.filter (· ≠ client) } := by
  have hparked : s.parked.filter (· ≠ client) ≠ [] → s.parked ≠ [] := fun h he =>
    h (by rw [he, List.filter_nil])
  refine ⟨fun {k} hk hl => ?_, fun hp h => ?_, fun hp => ha.idle (hparked hp), fun hp h => ?_⟩
  · obtain ⟨hne, hwaits, hlooking⟩ := hwaiting hk hl
    exact List.mem_filter.mpr ⟨ha.waiting hwaits hlooking, by simpa using hne⟩
  · exact ha.aborted (hparked hp) (htraversal ▸ h)
  · refine ha.available (hparked hp) ?_
    rw [Available] at h ⊢
    exact htraversal ▸ h

theorem wake (ha : s.Alert) {client : Nat} (h : s.Enabled (.wake client)) :
    (s.next (.wake client)).Alert := by
  simp only [next, wake_eq_some h.2, Option.getD_some]
  refine ha.unpark client rfl fun {k} hk hl => ?_
  have hne : k ≠ client := fun he => hl (he ▸ List.mem_cons_self ..)
  rw [waiting?_register, if_neg hne] at hk
  exact ⟨hne, hk, fun h => hl (List.mem_cons_of_mem _ h)⟩

theorem leave (ha : s.Alert) (client : Nat) : (s.next (.leave client)).Alert := by
  refine ha.unpark client rfl fun {k} hk hl => ?_
  obtain ⟨hne, hwaits⟩ := waiting?_unregister_eq_some.mp hk
  exact ⟨hne, hwaits, hl⟩

/-- A release owes a notification for the claim that is given back and for
the nodes that have become eligible. -/
theorem release (ha : s.Alert) (id : String) (succeeded : Bool) :
    (s.next (.release id succeeded)).Alert := by
  have hrelease : Notice.release ∈ Notice.release :: s.owed := List.mem_cons_self ..
  refine ⟨ha.waiting, fun hp h => ?_, fun _ _ => hrelease, fun _ _ => hrelease⟩
  have hflag : (s.handout.traversal.release id succeeded).2.aborted = true := h
  rw [release_eq] at hflag
  exact List.mem_cons_of_mem _ (ha.aborted hp hflag)

/-- An abort owes a notification for itself. -/
theorem abort (ha : s.Alert) : (s.next .abort).Alert :=
  ⟨ha.waiting, fun _ _ => List.mem_cons_self ..,
    fun hp h => List.mem_cons_of_mem _ (ha.idle hp h),
    fun hp h => List.mem_cons_of_mem _ (ha.available hp h)⟩

/-- After a notification nobody is parked. -/
theorem notify (s : Session α) (notice : Notice) : (s.next (.notify notice)).Alert := by
  refine ⟨fun {k} hk _ => ?_, fun h => absurd rfl h, fun h => absurd rfl h,
    fun h => absurd rfl h⟩
  simp only [next, waiting?_notify, Option.map_eq_some_iff] at hk
  obtain ⟨_, _, hnotified⟩ := hk
  cases hnotified

/-- One step keeps the invariant. -/
theorem next (ha : s.Alert) {direction : Direction} {g : Graph α}
    (hs : s.ledger.Sound direction g) {m : Move} (h : s.Enabled m) : (s.next m).Alert := by
  cases m with
  | register client => exact ha.register client
  | inspect client => exact ha.inspect hs client
  | wake client => exact ha.wake h
  | leave client => exact ha.leave client
  | release id succeeded => exact ha.release id succeeded
  | abort => exact ha.abort
  | notify notice => exact .notify s notice

end Alert

/-- Whoever looks or is parked is a waiter, and nobody does both. -/
structure Registered (s : Session α) : Prop where
  looking : ∀ client ∈ s.looking, s.handout.waiting? client ≠ none
  parked : ∀ client ∈ s.parked, s.handout.waiting? client ≠ none
  apart : ∀ client ∈ s.parked, client ∉ s.looking

namespace Registered

variable {s s' : Session α} {client : Nat}

theorem of_mem_filter {clients : List Nat} {k : Nat} (h : k ∈ clients.filter (· ≠ client)) :
    k ≠ client ∧ k ∈ clients := by
  obtain ⟨hold, hne⟩ := List.mem_filter.mp h
  exact ⟨by simpa using hne, hold⟩

theorem start (direction : Direction) (graph : Graph α) :
    (Session.start direction graph).Registered :=
  ⟨nofun, nofun, nofun⟩

/-- A client that registers is about to look. -/
theorem look (hr : s.Registered) (hwaiting : ∀ k, s'.handout.waiting? k =
      if k = client then some false else s.handout.waiting? k)
    (hlooking : s'.looking = client :: s.looking)
    (hparked : ∀ k ∈ s'.parked, k ≠ client ∧ k ∈ s.parked) : s'.Registered := by
  have hwaits {k : Nat} (h : k = client ∨ s.handout.waiting? k ≠ none) :
      s'.handout.waiting? k ≠ none := by
    rw [hwaiting]
    split
    · exact Option.some_ne_none _
    · rename_i hne
      exact h.resolve_left hne
  refine ⟨fun k hk => ?_, fun k hk => hwaits (Or.inr (hr.parked k (hparked k hk).2)),
    fun k hk hl => ?_⟩
  · rw [hlooking] at hk
    exact hwaits ((List.mem_cons.mp hk).imp_right (hr.looking k))
  · obtain ⟨hne, hold⟩ := hparked k hk
    rw [hlooking] at hl
    exact hr.apart k hold ((List.mem_cons.mp hl).resolve_left hne)

/-- A client that goes takes nobody with it. -/
theorem withdraw (hr : s.Registered)
    (hwaiting : ∀ k, k ≠ client → s'.handout.waiting? k = s.handout.waiting? k)
    (hlooking : ∀ k ∈ s'.looking, k ≠ client ∧ k ∈ s.looking)
    (hparked : ∀ k ∈ s'.parked, k ≠ client ∧ k ∈ s.parked) : s'.Registered := by
  refine ⟨fun k hk => ?_, fun k hk => ?_, fun k hk hl => ?_⟩
  · rw [hwaiting k (hlooking k hk).1]
    exact hr.looking k (hlooking k hk).2
  · rw [hwaiting k (hparked k hk).1]
    exact hr.parked k (hparked k hk).2
  · exact hr.apart k (hparked k hk).2 (hlooking k hl).2

/-- A client that has looked goes, or parks as the waiter that it is. -/
theorem inspect (hr : s.Registered) (h : s.Enabled (.inspect client)) :
    (s.next (.inspect client)).Registered := by
  have hleft : ∀ k ∈ s.looking.filter (· ≠ client), k ≠ client ∧ k ∈ s.looking :=
    fun _ => of_mem_filter
  have hparked : ∀ k ∈ s.parked, k ≠ client ∧ k ∈ s.parked := fun k hk =>
    ⟨fun he => hr.apart k hk (he ▸ h), hk⟩
  have hgone (handout : Handout α) (k : Nat) (hne : k ≠ client) :
      (handout.unregister client).waiting? k = handout.waiting? k := by
    rw [waiting?_unregister, if_neg hne]
  rcases s.handout.inspect_cases client with ⟨c, t, _, hi⟩ | ⟨_, hi⟩ | ⟨_, hi⟩
  · simp only [next, hi]
    exact hr.withdraw (hgone _) hleft hparked
  · simp only [next, hi]
    exact hr.withdraw (hgone _) hleft hparked
  · simp only [next, hi]
    refine ⟨fun k hk => hr.looking k (hleft k hk).2, fun k hk => ?_, fun k hk hl => ?_⟩
    · rcases List.mem_cons.mp hk with rfl | hk
      · exact hr.looking k h
      · exact hr.parked k hk
    · rcases List.mem_cons.mp hk with rfl | hk
      · exact (hleft k hl).1 rfl
      · exact hr.apart k hk (hleft k hl).2

/-- One step keeps the tie. -/
theorem next (hr : s.Registered) {m : Move} (h : s.Enabled m) : (s.next m).Registered := by
  cases m with
  | register client =>
    exact hr.look (waiting?_register _ client) rfl fun k hk =>
      ⟨fun he => hr.parked k hk (he ▸ h), hk⟩
  | inspect client => exact hr.inspect h
  | wake client =>
    simp only [Session.next, wake_eq_some h.2, Option.getD_some]
    exact hr.look (waiting?_register _ client) rfl fun _ => of_mem_filter
  | leave client =>
    have hlooking : ∀ k ∈ s.looking, k ≠ client ∧ k ∈ s.looking := fun k hk =>
      ⟨fun he => h (he ▸ hk), hk⟩
    refine hr.withdraw (fun k hne => ?_) hlooking fun _ => of_mem_filter
    exact (waiting?_unregister _ client k).trans (if_neg hne)
  | release id succeeded => exact ⟨hr.looking, hr.parked, hr.apart⟩
  | abort => exact ⟨hr.looking, hr.parked, hr.apart⟩
  | notify notice =>
    refine ⟨fun k hk => ?_, List.forall_mem_nil _, List.forall_mem_nil _⟩
    show s.handout.notify.waiting? k ≠ none
    rw [waiting?_notify, ne_eq, Option.map_eq_none_iff]
    exact hr.looking k hk

/-- A notification reaches whoever is parked. -/
theorem notified (hr : s.Registered) (h : client ∈ s.parked) (notice : Notice) :
    (s.next (.notify notice)).handout.waiting? client = some true := by
  obtain ⟨before, hbefore⟩ := Option.ne_none_iff_exists'.mp (hr.parked client h)
  show s.handout.notify.waiting? client = some true
  rw [waiting?_notify, hbefore, Option.map_some]

end Registered

theorem follow_registered (direction : Direction) (g : Graph α) (moves : List Move) :
    ((start direction g).follow moves).Registered :=
  follow_induction moves (.start direction g) fun _ _ _ hr henabled => hr.next henabled

/-- The invariant holds in every session. -/
theorem follow_alert {direction : Direction} {g : Graph α} (hg : g.Hierarchy) (hl : g.Laden)
    (moves : List Move) : ((start direction g).follow moves).Alert := by
  have hrun := follow_induction
    (P := fun s => Ledger.Reachable direction g s.ledger ∧ s.Alert) (s := start direction g) moves
    ⟨Relation.ReflTransGen.refl, .start direction g⟩ fun s m _ hs henabled =>
      ⟨reachable_next hs.1 henabled, hs.2.next (hs.1.sound hg hl) henabled⟩
  exact hrun.2

/-- When no claim is held and nothing is owed, nobody is parked. -/
theorem Alert.parked_eq_nil {s : Session α} (ha : s.Alert) (hheld : s.held = [])
    (howed : s.owed = []) : s.parked = [] := by
  by_contra hparked
  have h := ha.idle hparked hheld
  rw [howed] at h
  cases h

/-- A client that is notified and looks again while no claim is held is not
told to wait. -/
theorem poll_ne_pending {h : Handout α} {client : Nat} (hw : h.waiting? client = some true)
    (hheld : h.traversal.held = 0) : (h.poll client).1 ≠ .pending := by
  intro hpending
  rw [poll, wake_eq_some hw] at hpending
  dsimp only at hpending
  rw [inspect_fst] at hpending
  obtain ⟨_, _, hne⟩ := offer_pending (Prod.ext hpending rfl)
  exact hne hheld

/-- The claims that are held are counted, so giving one back never drops
below zero.  A client that is parked and was not notified since it looked has
nothing to know of that is not still to be notified: neither an abort, nor
that no claim is held, nor an eligible node.  It is registered as a waiter, so
the next notification reaches it.  Once no claim is held and no notification is
outstanding, every waiter has been notified, and is not told to wait when it
looks again. -/
theorem no_notification_lost {rootId : String} {g : Graph α} (hg : g.Grown rootId)
    (direction : Direction) (moves : List Move) :
    let s := (start direction g).follow moves
    let t := s.handout.traversal
    (t.held = s.held.length ∧
      (handedOut s.history).length = t.held + (released s.history).length ∧
      ∀ id succeeded, s.Enabled (.release id succeeded) → 0 < t.held) ∧
    (∀ client, s.handout.waiting? client = some false → client ∉ s.looking →
      client ∈ s.parked) ∧
    (∀ client ∈ s.parked, client ∉ s.looking ∧ s.handout.waiting? client ≠ none ∧
      ∀ notice, (s.next (.notify notice)).handout.waiting? client = some true) ∧
    (∀ client ∈ s.parked,
      (t.aborted = true → .abort ∈ s.owed) ∧
      (s.held = [] → .release ∈ s.owed) ∧
      (∀ p n, t.graph.node? p = some n → t.eligible n = true → .release ∈ s.owed)) ∧
    (s.held = [] → s.owed = [] → ∀ client ∉ s.looking, s.handout.waiting? client ≠ none →
      s.handout.waiting? client = some true ∧ (s.handout.poll client).1 ≠ .pending) := by
  intro s t
  have hs : s.ledger.Sound direction g := follow_sound hg.hierarchy hg.laden moves
  have ha : s.Alert := follow_alert hg.hierarchy hg.laden moves
  have hr : s.Registered := follow_registered direction g moves
  have hcount : t.held = s.held.length := hs.balanced.count
  refine ⟨⟨hcount, ?_, fun id succeeded hid => ?_⟩, fun client => ha.waiting,
    fun client hclient => ⟨hr.apart client hclient, hr.parked client hclient, hr.notified hclient⟩,
    fun client hclient => ?_, fun hheld howed client hlooking hwaits => ?_⟩
  · have hlength := hs.balanced.balance.length_eq
    rw [List.length_append] at hlength
    have hledger : s.ledger.held = s.held := rfl
    rw [hledger] at hlength
    show (handedOut s.ledger.history).length = t.held + (released s.ledger.history).length
    omega
  · rw [hcount]
    exact List.length_pos_of_mem hid
  · have hparked : s.parked ≠ [] := List.ne_nil_of_mem hclient
    exact ⟨ha.aborted hparked, ha.idle hparked,
      fun p n hn heligible => ha.available hparked ⟨p, n, hn, heligible⟩⟩
  · have hnotified : s.handout.waiting? client = some true := by
      obtain ⟨notified, hnotified⟩ := Option.ne_none_iff_exists'.mp hwaits
      cases notified with
      | true => exact hnotified
      | false =>
        have hparked := ha.waiting hnotified hlooking
        rw [ha.parked_eq_nil hheld howed] at hparked
        cases hparked
    refine ⟨hnotified, poll_ne_pending hnotified ?_⟩
    rw [show s.handout.traversal.held = s.held.length from hcount, hheld, List.length_nil]

/-- A client that waits for the shared node of a diamond is still to be
notified when the claim has just been given back. -/
theorem no_notification_lost_diamond :
    let s := (start .forward diamond).follow
      [.register 1, .inspect 1, .register 2, .inspect 2, .release "c" true]
    2 ∈ s.parked ∧ s.held = [] ∧ .release ∈ s.owed := by
  intro s
  have hparked : 2 ∈ s.parked := by decide
  have hheld : s.held = [] := by decide
  obtain ⟨_, _, _, howed, _⟩ := no_notification_lost grown_diamond .forward
    [.register 1, .inspect 1, .register 2, .inspect 2, .release "c" true]
  exact ⟨hparked, hheld, (howed 2 hparked).2.1 hheld⟩

end Session

end Handout

end Cascade
