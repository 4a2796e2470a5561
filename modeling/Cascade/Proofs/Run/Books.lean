import Cascade.Proofs.Run.Crew
import Cascade.Proofs.Traversal.Waiting

/-!
# A crew and its session

The workers of a crew are the clients of its session.  `Crew.Tied` says how
what they are doing shows there: who has registered, which claims are held
and which notifications are owed.  It is kept by every turn (`Tied.turn`), so
the turns of a crew are moves of its session that can be taken
(`Tied.session_turn`), and what holds in every session holds in every run:
`Crew.Sound` collects this.
-/

namespace Cascade.Run

open Handout (Move Notice Session)
open Traversal (Ledger)
open Relation

variable {φ β : Type}

/-! ## What a duty stands for -/

/-- Whether the claim is still to be released. -/
def Post.holds : Post φ β → Bool
  | .notifying _ | .leaving _ => false
  | _ => true

/-- The notification that is still to come. -/
def Post.owed? : Post φ β → Option Notice
  | .warning _ => some .abort
  | .notifying _ => some .release
  | _ => none

/-- The ID of the claim that a worker holds. -/
def Duty.held? : Duty φ β → Option String
  | .working claim post => if post.holds then some claim.id else none
  | _ => none

/-- The notification that a worker owes. -/
def Duty.owed? : Duty φ β → Option Notice
  | .working _ post => post.owed?
  | _ => none

/-- A job that leaves the session alone keeps its claim and owes nothing. -/
theorem Labour.holds {p : Plan φ β} {claim : Claim Dependency} {a a' : Account φ β}
    {post post' : Post φ β} (h : Labour p claim a post a' post') :
    post.holds = true ∧ post'.holds = true ∧ post.owed? = none ∧ post'.owed? = none := by
  cases h with
  | heard occasion => cases occasion <;> exact ⟨rfl, rfl, rfl, rfl⟩
  | enter =>
    refine ⟨rfl, ?_⟩
    split <;> exact ⟨rfl, rfl, rfl⟩
  | _ => exact ⟨rfl, rfl, rfl, rfl⟩

theorem Plan.holds_passPost (p : Plan φ β) (d : Dependency) :
    (p.passPost d).holds = true ∧ (p.passPost d).owed? = none := by
  unfold passPost
  split <;> exact ⟨rfl, rfl⟩

/-! ## What the workers show, one by one -/

/-- The registration of a client in a session is that of a worker with a
duty. -/
def Asks (s : Session Dependency) (client : Nat) (duty : Option (Duty φ β)) : Prop :=
  (client ∈ s.looking ↔ duty = some (.asking .registered)) ∧
    ((s.handout.waiting? client).isSome ↔
      duty = some (.asking .registered) ∨ duty = some (.asking .parked))

/-- A move of one client does not touch the registration of another. -/
structure Apart (s s' : Session Dependency) (client : Nat) : Prop where
  looking : client ∈ s'.looking ↔ client ∈ s.looking
  waiting : (s'.handout.waiting? client).isSome = (s.handout.waiting? client).isSome

theorem Asks.of_apart {s s' : Session Dependency} {client : Nat} {duty : Option (Duty φ β)}
    (h : Asks s client duty) (ha : Apart s s' client) : Asks s' client duty := by
  unfold Asks at h ⊢
  rw [ha.looking, ha.waiting]
  exact h

theorem apart_register (s : Session Dependency) {i client : Nat} (h : client ≠ i) :
    Apart s (s.next (.register i)) client := by
  refine ⟨?_, ?_⟩
  · simp [Session.next, h]
  · simp only [Session.next, Handout.waiting?_register, if_neg h]

theorem apart_inspect (s : Session Dependency) {i client : Nat} (h : client ≠ i) :
    Apart s (s.next (.inspect i)) client := by
  refine ⟨?_, ?_⟩
  · rcases s.handout.inspect_cases i with ⟨c, t, _, hi⟩ | ⟨_, hi⟩ | ⟨_, hi⟩ <;>
      simp [Session.next, hi, h]
  · rw [Crew.handout_inspect]
    rcases s.handout.inspect_cases i with ⟨c, t, _, hi⟩ | ⟨_, hi⟩ | ⟨_, hi⟩
    · simp only [hi, Handout.waiting?_unregister, if_neg h]
      rfl
    · simp only [hi, Handout.waiting?_unregister, if_neg h]
    · simp only [hi]

theorem apart_wake {s : Session Dependency} {i client : Nat}
    (hw : s.handout.waiting? i = some true) (h : client ≠ i) :
    Apart s (s.next (.wake i)) client := by
  refine ⟨?_, ?_⟩
  · simp [Session.next, h]
  · simp only [Session.next, Handout.wake_eq_some hw, Option.getD_some,
      Handout.waiting?_register, if_neg h]

theorem apart_notify (s : Session Dependency) (notice : Notice) (client : Nat) :
    Apart s (s.next (.notify notice)) client := by
  refine ⟨.rfl, ?_⟩
  simp only [Session.next, Handout.waiting?_notify, Option.isSome_map]

/-- A client that looks is not about to look any more, and stays registered
only if it has to wait. -/
theorem next_inspect_self (s : Session Dependency) (i : Nat) :
    i ∉ (s.next (.inspect i)).looking ∧
      (s.next (.inspect i)).handout.waiting? i =
        match (s.handout.inspect i).1 with
        | .pending => s.handout.waiting? i
        | _ => none := by
  rcases s.handout.inspect_cases i with ⟨c, t, _, hi⟩ | ⟨_, hi⟩ | ⟨_, hi⟩ <;>
    simp [Session.next, hi, Handout.waiting?_unregister]

/-- What a client holds and owes after it has looked. -/
theorem next_inspect_held (s : Session Dependency) (i : Nat) :
    (s.next (.inspect i)).owed = s.owed ∧
      (s.next (.inspect i)).held =
        match (s.handout.inspect i).1 with
        | .claim claim => claim.id :: s.held
        | _ => s.held := by
  rcases s.handout.inspect_cases i with ⟨c, t, _, hi⟩ | ⟨_, hi⟩ | ⟨_, hi⟩ <;>
    simp [Session.next, hi]

/-! ## The tie -/

namespace Crew

/-- What the workers are doing shows in the session. -/
structure Tied (c : Crew φ β) : Prop where
  asks : ∀ i, Asks c.session i c.duties[i]?
  held : c.session.held.Perm (c.duties.filterMap Duty.held?)
  owed : c.session.owed.Perm (c.duties.filterMap Duty.owed?)

namespace Tied

variable {p : Plan φ β} {c c' : Crew φ β} {i : Nat}

theorem start (direction : Direction) (graph : Graph Dependency) (workers : Nat)
    (w : World φ β) : (Crew.start direction graph workers w).Tied := by
  refine ⟨fun k => ?_, ?_, ?_⟩
  · simp only [Crew.start, Session.start, Asks, List.getElem?_replicate]
    split <;> simp [Handout.start, Handout.waiting?]
  · simp [Crew.start, Session.start, Duty.held?]
  · simp [Crew.start, Session.start, Duty.owed?]

/-- The tie after a worker has got a new duty: what the others show is as
before, and the new duty shows as it should. -/
theorem assign (ht : c.Tied) {duty duty' : Duty φ β} (hd : c.duties[i]? = some duty)
    {session : Session Dependency} (hduties : c'.duties = c.duties.set i duty')
    (hsession : c'.session = session)
    (hothers : ∀ k, k ≠ i → Apart c.session session k)
    (hself : Asks session i (some duty'))
    (hheld : ∀ rest, c.session.held.Perm (duty.held?.toList ++ rest) →
      session.held.Perm (duty'.held?.toList ++ rest))
    (howed : ∀ rest, c.session.owed.Perm (duty.owed?.toList ++ rest) →
      session.owed.Perm (duty'.owed?.toList ++ rest)) : c'.Tied := by
  subst hsession
  have hi : i < c.duties.length := (List.getElem?_eq_some_iff.mp hd).1
  refine ⟨fun k => ?_, ?_, ?_⟩
  · rw [hduties]
    by_cases hk : k = i
    · subst hk
      rw [List.getElem?_set_self hi]
      exact hself
    · rw [List.getElem?_set_ne (Ne.symm hk)]
      exact (ht.asks k).of_apart (hothers k hk)
  · obtain ⟨rest, hold, hnew⟩ := perm_filterMap_set Duty.held? hd duty'
    rw [hduties]
    exact (hheld rest (ht.held.trans hold)).trans hnew.symm
  · obtain ⟨rest, hold, hnew⟩ := perm_filterMap_set Duty.owed? hd duty'
    rw [hduties]
    exact (howed rest (ht.owed.trans hold)).trans hnew.symm

/-- A worker at its job is not registered. -/
theorem not_asking (ht : c.Tied) {claim : Claim Dependency} {post : Post φ β}
    (hd : c.duties[i]? = some (.working claim post)) :
    i ∉ c.session.looking ∧ c.session.handout.waiting? i = none := by
  obtain ⟨hlooking, hwaiting⟩ := ht.asks i
  rw [hd] at hlooking hwaiting
  constructor
  · simpa using hlooking
  · simpa using hwaiting

theorem asks_working (ht : c.Tied) {claim claim' : Claim Dependency} {post post' : Post φ β}
    (hd : c.duties[i]? = some (.working claim post)) {s : Session Dependency}
    (ha : Apart c.session s i) : Asks s i (some (.working claim' post' : Duty φ β)) := by
  obtain ⟨hlooking, hwaiting⟩ := ht.not_asking hd
  refine Asks.of_apart ?_ ha
  unfold Asks
  simp [hlooking, hwaiting]

theorem asks_registered (ht : c.Tied) (hd : c.duties[i]? = some (.asking .registered)) :
    i ∈ c.session.looking ∧ (c.session.handout.waiting? i).isSome := by
  obtain ⟨hlooking, hwaiting⟩ := ht.asks i
  exact ⟨hlooking.mpr hd, hwaiting.mpr (Or.inl hd)⟩

/-- The tie after a worker has looked.  It stays registered only if it has to
wait, it holds the claim that it was offered, and it owes nothing. -/
theorem looked (ht : c.Tied) (hd : c.duties[i]? = some (.asking .registered))
    {duty : Duty φ β} (hduties : c'.duties = c.duties.set i duty)
    (hsession : c'.session = c.session.next (.inspect i)) (hlooks : duty ≠ .asking .registered)
    (hparked : duty = .asking .parked ↔ (c.session.handout.inspect i).1 = .pending)
    (hheld : duty.held? = match (c.session.handout.inspect i).1 with
      | .claim claim => some claim.id
      | _ => none)
    (howed : duty.owed? = none) : c'.Tied := by
  obtain ⟨hlooking, hwaiting⟩ := next_inspect_self c.session i
  obtain ⟨hsameOwed, hnextHeld⟩ := next_inspect_held c.session i
  refine ht.assign hd hduties hsession (fun k hk => apart_inspect _ hk) ?_ (fun rest h => ?_)
    (fun rest h => ?_)
  · have hregistered := (ht.asks_registered hd).2
    rw [Asks, hwaiting]
    cases ho : (c.session.handout.inspect i).1 <;>
      simp [ho, hlooking, hlooks, hparked, hregistered]
  · rw [hnextHeld, hheld]
    cases (c.session.handout.inspect i).1 with
    | claim claim => exact h.cons claim.id
    | pending | exhausted => exact h
  · rw [hsameOwed, howed]
    exact h

/-- Every turn keeps the tie. -/
theorem turn (ht : c.Tied) (h : Turn p i c c') : c'.Tied := by
  cases h with
  | register hd =>
    refine ht.assign hd rfl rfl (fun k hk => apart_register _ hk) ?_ (fun _ h => h) fun _ h => h
    simp [Asks, Session.next, Handout.waiting?_register]
  | @pass claim hd ho hp =>
    obtain ⟨hholds, howes⟩ := p.holds_passPost claim.payload
    exact ht.looked hd rfl rfl (by simp) (by simp [ho]) (by simp [ho, Duty.held?, hholds])
      howes
  | take hd ho hp => exact ht.looked hd rfl rfl (by simp) (by simp [ho]) (by rw [ho]; rfl) rfl
  | park hd ho => exact ht.looked hd rfl rfl (by simp) (by simp [ho]) (by rw [ho]; rfl) rfl
  | exhaust hd ho => exact ht.looked hd rfl rfl (by simp) (by simp [ho]) (by rw [ho]; rfl) rfl
  | wake hd hw =>
    refine ht.assign hd rfl rfl (fun k hk => apart_wake hw hk) ?_ (fun _ h => h) fun _ h => h
    simp [Asks, Session.next, Handout.wake_eq_some hw, Handout.waiting?_register]
  | work hd hl =>
    obtain ⟨hholds, hholds', howes, howes'⟩ := hl.holds
    refine ht.assign hd rfl rfl (fun _ _ => ⟨.rfl, rfl⟩) ?_ (fun rest h => ?_) (fun rest h => ?_)
    · exact ht.asks_working hd ⟨.rfl, rfl⟩
    · simpa [Duty.held?, hholds, hholds'] using h
    · simpa [Duty.owed?, howes, howes'] using h
  | abort hd =>
    refine ht.assign hd rfl rfl (fun _ _ => ⟨.rfl, rfl⟩) ?_ (fun rest h => h) (fun rest h => ?_)
    · exact ht.asks_working hd ⟨.rfl, rfl⟩
    · simpa [Session.next, Duty.owed?, Post.owed?] using h
  | warn hd =>
    refine ht.assign hd rfl rfl (fun k _ => apart_notify _ _ k) ?_ (fun rest h => h)
      (fun rest h => ?_)
    · exact ht.asks_working hd (apart_notify _ _ i)
    · simpa [Session.next, Duty.owed?, Post.owed?] using h.erase Notice.abort
  | @release claim outcome hd =>
    refine ht.assign hd rfl rfl (fun _ _ => ⟨.rfl, rfl⟩) ?_ (fun rest h => ?_) (fun rest h => ?_)
    · exact ht.asks_working hd ⟨.rfl, rfl⟩
    · simpa [Session.next, Duty.held?, Post.holds] using h.erase claim.id
    · simpa [Session.next, Duty.owed?, Post.owed?] using h
  | notify hd =>
    refine ht.assign hd rfl rfl (fun k _ => apart_notify _ _ k) ?_ (fun rest h => h)
      (fun rest h => ?_)
    · exact ht.asks_working hd (apart_notify _ _ i)
    · simpa [Session.next, Duty.owed?, Post.owed?] using h.erase Notice.release
  | @leave claim outcome hd =>
    have hnone : (Duty.afterJob claim outcome : Duty φ β).held? = none ∧
        (Duty.afterJob claim outcome : Duty φ β).owed? = none := by
      cases outcome <;> exact ⟨rfl, rfl⟩
    obtain ⟨hlooking, hwaiting⟩ := ht.not_asking hd
    refine ht.assign hd rfl rfl (fun _ _ => ⟨.rfl, rfl⟩) ?_ (fun rest h => ?_) (fun rest h => ?_)
    · cases outcome <;> simp [Asks, hlooking, hwaiting, Duty.afterJob]
    · rw [hnone.1]
      exact h
    · rw [hnone.2]
      exact h

theorem mem_held (ht : c.Tied) {claim : Claim Dependency} {post : Post φ β}
    (hd : c.duties[i]? = some (.working claim post)) (hholds : post.holds = true) :
    claim.id ∈ c.session.held := by
  rw [ht.held.mem_iff, List.mem_filterMap]
  exact ⟨_, List.mem_of_getElem? hd, by simp [Duty.held?, hholds]⟩

theorem mem_owed (ht : c.Tied) {claim : Claim Dependency} {post : Post φ β}
    (hd : c.duties[i]? = some (.working claim post)) {notice : Notice}
    (howed : post.owed? = some notice) : notice ∈ c.session.owed := by
  rw [ht.owed.mem_iff, List.mem_filterMap]
  exact ⟨_, List.mem_of_getElem? hd, howed⟩

/-- A turn of a worker is a move of its session that can be taken, or leaves
the session alone. -/
theorem session_turn (ht : c.Tied) (h : Turn p i c c') :
    c'.session = c.session ∨
      ∃ m, c.session.Enabled m ∧ c'.session = c.session.next m := by
  cases h with
  | register hd =>
    have hwaiting := (ht.asks i).2
    rw [hd] at hwaiting
    exact Or.inr ⟨.register i, by simpa [Session.Enabled] using hwaiting, rfl⟩
  | pass hd | take hd | park hd | exhaust hd =>
    exact Or.inr ⟨.inspect i, (ht.asks_registered hd).1, rfl⟩
  | wake hd hw =>
    have hlooking := (ht.asks i).1
    rw [hd] at hlooking
    exact Or.inr ⟨.wake i, ⟨by simpa using hlooking, hw⟩, rfl⟩
  | abort hd => exact Or.inr ⟨.abort, trivial, rfl⟩
  | warn hd => exact Or.inr ⟨.notify .abort, ht.mem_owed hd rfl, rfl⟩
  | release hd => exact Or.inr ⟨.release _ _, ht.mem_held hd rfl, rfl⟩
  | notify hd => exact Or.inr ⟨.notify .release, ht.mem_owed hd rfl, rfl⟩
  | work hd hl => exact Or.inl rfl
  | leave hd => exact Or.inl rfl

end Tied

/-! ## What holds in every run -/

/-- The crew is tied to its session, and what has happened there is a run of
the traversal. -/
structure Sound (direction : Direction) (g : Graph Dependency) (c : Crew φ β) : Prop where
  tied : c.Tied
  reachable : Ledger.Reachable direction g c.session.ledger

namespace Sound

variable {direction : Direction} {g : Graph Dependency} {p : Plan φ β} {c c' : Crew φ β}

theorem start (direction : Direction) (g : Graph Dependency) (workers : Nat) (w : World φ β) :
    (Crew.start direction g workers w).Sound direction g :=
  ⟨.start .., .refl⟩

theorem turn (hs : c.Sound direction g) {i : Nat} (h : Turn p i c c') :
    c'.Sound direction g := by
  refine ⟨hs.tied.turn h, ?_⟩
  rcases hs.tied.session_turn h with heq | ⟨m, henabled, heq⟩
  · rw [heq]
    exact hs.reachable
  · rw [heq]
    exact Session.reachable_next hs.reachable henabled

theorem follow (hs : c.Sound direction g) (schedule : List Nat) :
    (c.follow p schedule).Sound direction g :=
  follow_induction (fun _ _ _ hc h => hc.turn h) schedule hs

end Sound

/-- On a hierarchy, what a parked worker has to know of is still to be
notified. -/
theorem alert_follow {direction : Direction} {g : Graph Dependency} (hg : g.Hierarchy)
    (hl : g.Laden) (p : Plan φ β) (workers : Nat) (w : World φ β) (schedule : List Nat) :
    ((Crew.start direction g workers w).follow p schedule).session.Alert := by
  have hrun := follow_induction (p := p)
    (P := fun c => c.Sound direction g ∧ c.session.Alert)
    (fun i c c' ⟨hs, ha⟩ h => by
      refine ⟨hs.turn h, ?_⟩
      rcases hs.tied.session_turn h with heq | ⟨m, henabled, heq⟩
      · rw [heq]
        exact ha
      · rw [heq]
        exact ha.next (hs.reachable.sound hg hl) henabled)
    schedule (c := Crew.start direction g workers w) ⟨.start .., .start direction g⟩
  exact hrun.2

end Crew

end Cascade.Run
