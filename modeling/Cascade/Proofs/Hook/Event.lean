import Cascade.Hook.Event
import Cascade.Proofs.Text.Blank

/-!
# Events tell what fired them

Hooks fire around the action on a dependency or around a whole run.  Each event that fires
tells the phase, the verb and which of the two it is (`Trigger.of_shared`), and one of them
tells the dependency as well (`Trigger.of_named`).  The name of a dependency may hold
anything: it stands at the end, and what stands before it is told apart without it.
-/

namespace Cascade.Hook

/-- What hooks fire around. -/
inductive Trigger where
  /-- The action on a dependency. -/
  | dependency (phase : Phase) (verb : Verb) (name : String)
  /-- A whole run. -/
  | batch (phase : Phase) (verb : Verb)
deriving Repr, DecidableEq

namespace Trigger

/-- The events that fire, the most specific first. -/
def events : Trigger → List String
  | dependency phase verb name => dependencyEvents phase verb name
  | batch phase verb => [batchEvent phase verb]

/-- When the events fire. -/
def phase : Trigger → Phase
  | dependency phase _ _ | batch phase _ => phase

/-- What is done to the dependencies. -/
def verb : Trigger → Verb
  | dependency _ verb _ | batch _ verb => verb

/-- Whether hooks fire around a whole run. -/
def isBatch : Trigger → Bool
  | dependency .. => false
  | batch .. => true

end Trigger

/-- The event that names a dependency. -/
def namedEvent (phase : Phase) (verb : Verb) (name : String) : String :=
  phase.key ++ ":" ++ verb.key ++ "Dependency" ++ ":" ++ name

/-! ## Names -/

theorem phase_inj {phase phase' : Phase} (h : phase.key = phase'.key) : phase = phase' := by
  cases phase <;> cases phase' <;> first | rfl | (simp [Phase.key] at h)

theorem verb_inj {verb verb' : Verb} (h : verb.key = verb'.key) : verb = verb' := by
  cases verb <;> cases verb' <;> first | rfl | (simp [Verb.key] at h)

theorem title_inj {verb verb' : Verb} (h : verb.title = verb'.title) : verb = verb' := by
  cases verb <;> cases verb' <;> first | rfl | (simp [Verb.title] at h)

theorem colon_not_mem_key (phase : Phase) : ':' ∉ phase.key.toList := by
  cases phase <;> decide

theorem capital_not_mem_key (verb : Verb) : 'D' ∉ verb.key.toList := by
  cases verb <;> decide

/-! ## Spellings -/

/-- A phase, a verb, and something that starts with a capital letter. -/
def spelling (phase : Phase) (verb : Verb) (tail : List Char) : List Char :=
  phase.key.toList ++ ':' :: (verb.key.toList ++ 'D' :: tail)

/-- The colon ends the phase, and the capital letter ends the verb. -/
theorem spelling_inj {phase phase' : Phase} {verb verb' : Verb} {tail tail' : List Char}
    (h : spelling phase verb tail = spelling phase' verb' tail') :
    phase = phase' ∧ verb = verb' ∧ tail = tail' := by
  have hcolon :=
    (Text.append_cons_inj (colon_not_mem_key phase) (colon_not_mem_key phase')).mp h
  have hcapital :=
    (Text.append_cons_inj (capital_not_mem_key verb) (capital_not_mem_key verb')).mp hcolon.2
  exact ⟨phase_inj (String.toList_inj.mp hcolon.1), verb_inj (String.toList_inj.mp hcapital.1),
    hcapital.2⟩

/-- The event in which the verb has a capital letter. -/
def dottedEvent (phase : Phase) (verb : Verb) : String :=
  "dependencies." ++ phase.key ++ verb.title

theorem dottedEvent_inj {phase phase' : Phase} {verb verb' : Verb}
    (h : dottedEvent phase verb = dottedEvent phase' verb') : phase = phase' ∧ verb = verb' := by
  have hrest : phase.key.toList ++ verb.title.toList = phase'.key.toList ++ verb'.title.toList := by
    have htext := congrArg String.toList h
    simp only [dottedEvent, String.toList_append, List.append_assoc] at htext
    exact List.append_cancel_left htext
  have hphase : phase = phase' := by
    have hhead := congrArg List.head? hrest
    cases phase <;> cases phase' <;> first | rfl | (simp [Phase.key] at hhead)
  subst hphase
  exact ⟨rfl, title_inj (String.toList_inj.mp (List.append_cancel_left hrest))⟩

/-- No phase starts as that event does. -/
theorem toList_dottedEvent_ne {phase phase' : Phase} {verb verb' : Verb} {tail : List Char} :
    (dottedEvent phase verb).toList ≠ spelling phase' verb' tail := by
  intro h
  have hhead := congrArg List.head? h
  cases phase' <;> simp [dottedEvent, spelling, Phase.key] at hhead

namespace Trigger

/-- What the events that start with the phase have behind the verb. -/
def tails : Trigger → List (List Char)
  | dependency _ _ name => ["ependency:".toList ++ name.toList, "ependency".toList]
  | batch .. => ["ependencies".toList]

/-- The events have one of two forms. -/
theorem mem_events {t : Trigger} {event : String} (h : event ∈ t.events) :
    (∃ tail ∈ t.tails, event.toList = spelling t.phase t.verb tail) ∨
      t.isBatch = false ∧ event = dottedEvent t.phase t.verb := by
  cases t with
  | dependency phase verb name =>
    simp only [events, dependencyEvents, List.mem_cons, List.not_mem_nil, or_false] at h
    rcases h with rfl | rfl | rfl
    · exact Or.inl ⟨_, List.mem_cons_self .., by simp [spelling, Trigger.phase, Trigger.verb]⟩
    · exact Or.inl ⟨_, List.mem_cons_of_mem _ (List.mem_cons_self ..),
        by simp [spelling, Trigger.phase, Trigger.verb]⟩
    · exact Or.inr ⟨rfl, rfl⟩
  | batch phase verb =>
    obtain rfl := List.mem_singleton.mp h
    exact Or.inl ⟨_, List.mem_cons_self .., by
      simp [batchEvent, spelling, Trigger.phase, Trigger.verb]⟩

/-- What stands behind the verb differs around a dependency and around a whole run. -/
theorem isBatch_of_tails {t t' : Trigger} {tail : List Char} (h : tail ∈ t.tails)
    (h' : tail ∈ t'.tails) : t.isBatch = t'.isBatch := by
  have hletter {t : Trigger} (h : tail ∈ t.tails) :
      tail[8]? = some (if t.isBatch then 'i' else 'y') := by
    cases t with
    | dependency phase verb name =>
      simp only [tails, List.mem_cons, List.not_mem_nil, or_false] at h
      rcases h with rfl | rfl <;> rfl
    | batch phase verb =>
      obtain rfl := List.mem_singleton.mp h
      rfl
  have hsame := (hletter h).symm.trans (hletter h')
  revert hsame
  cases t.isBatch <;> cases t'.isBatch <;> decide

/-- An event that two triggers share tells what they have in common. -/
theorem of_shared {t t' : Trigger} {event : String} (h : event ∈ t.events)
    (h' : event ∈ t'.events) :
    t.phase = t'.phase ∧ t.verb = t'.verb ∧ t.isBatch = t'.isBatch := by
  rcases mem_events h with ⟨tail, htail, hevent⟩ | ⟨hbatch, hevent⟩
  · rcases mem_events h' with ⟨tail', htail', hevent'⟩ | ⟨_, hevent'⟩
    · obtain ⟨hphase, hverb, rfl⟩ := spelling_inj (hevent.symm.trans hevent')
      exact ⟨hphase, hverb, isBatch_of_tails htail htail'⟩
    · subst hevent'
      exact absurd hevent toList_dottedEvent_ne
  · subst hevent
    rcases mem_events h' with ⟨tail', _, hevent'⟩ | ⟨hbatch', hevent'⟩
    · exact absurd hevent' toList_dottedEvent_ne
    · obtain ⟨hphase, hverb⟩ := dottedEvent_inj hevent'
      exact ⟨hphase, hverb, hbatch.trans hbatch'.symm⟩

/-- The event that names a dependency fires around the action on that dependency alone. -/
theorem of_named {t : Trigger} {phase : Phase} {verb : Verb} {name : String}
    (h : namedEvent phase verb name ∈ t.events) : t = .dependency phase verb name := by
  have hspelled : (namedEvent phase verb name).toList =
      spelling phase verb ("ependency:".toList ++ name.toList) := by
    simp [namedEvent, spelling]
  rcases mem_events h with ⟨tail, htail, hevent⟩ | ⟨_, hevent⟩
  · obtain ⟨hphase, hverb, rfl⟩ := spelling_inj (hspelled.symm.trans hevent)
    cases t with
    | dependency phase' verb' name' =>
      simp only [tails, List.mem_cons, List.not_mem_nil, or_false] at htail
      rcases htail with hname | hshort
      · obtain rfl := String.toList_inj.mp (List.append_cancel_left hname)
        obtain rfl : phase = phase' := hphase
        obtain rfl : verb = verb' := hverb
        rfl
      · simpa using congrArg List.length hshort
    | batch phase' verb' =>
      simpa using List.mem_singleton.mp htail
  · rw [hevent] at hspelled
    exact absurd hspelled toList_dottedEvent_ne

end Trigger

end Cascade.Hook
