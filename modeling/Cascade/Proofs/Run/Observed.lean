import Cascade.Proofs.Run.Crew
import Cascade.Proofs.Run.Order

/-!
# Runs that are observed

Hooks and actions live outside, and a run does not look there.  To say when
they are called, the outside is given a list of notes beside what it was
before: `Observed`.  Whoever is called notes the call, does its work, and
notes its answer; this is what `Hooks.observed` and `Task.observed` make of
hooks and of a task.  `Plan.observed`, `Project.observed` and
`Undertaking.observed` do so for all that a run calls.

What was noted in one call is a call and its answer.  Others may note
something in between, so the invariant of a call, `Underway`, is about the
notes that are its own.
-/

namespace Cascade

variable {φ β : Type}

/-! ## Notes -/

/-- What a run calls. -/
inductive Call where
  /-- The hooks that wait for events, with what they are told. -/
  | hooks (events : List String) (name : Option String) (context : Dictionary)
  | action (d : Dependency)

/-- The ID of the dependency that a call is about. -/
def Call.subject? : Call → Option String
  | .hooks _ _ context => context["dependency_id"]?
  | .action d => some d.id

/-- A call, or how it was answered. -/
inductive Note where
  | call (c : Call)
  | answer (c : Call) (result : Except Error Unit)

namespace Note

/-- The ID of the dependency that a note is about. -/
def subject? : Note → Option String
  | .call c | .answer c _ => c.subject?

/-- The error with which hooks failed. -/
def hookError? : Note → Option Error
  | .answer (.hooks ..) (.error e) => some e
  | _ => none

/-- A call and its answer. -/
def pair (c : Call) (result : Except Error Unit) : List Note := [.call c, .answer c result]

/-- The notes about a dependency. -/
def about (id : String) (notes : List Note) : List Note := notes.filter (·.subject? = some id)

end Note

/-- Something outside, with the notes that were taken. -/
structure Observed (β : Type) where
  inner : β
  notes : List Note

namespace World

/-- The notes that were taken. -/
def notes (w : World φ (Observed β)) : List Note := w.outside.notes

/-- Take a note. -/
def note (n : Note) (w : World φ (Observed β)) : World φ (Observed β) :=
  { w with outside := { w.outside with notes := w.outside.notes ++ [n] } }

/-- The world as it is without the notes. -/
def within (w : World φ (Observed β)) : World φ β := { w with outside := w.outside.inner }

/-- Another world with the notes of this one. -/
def annotate (w : World φ (Observed β)) (w' : World φ β) : World φ (Observed β) :=
  { w' with outside := { w.outside with inner := w'.outside } }

@[simp]
theorem notes_note (n : Note) (w : World φ (Observed β)) : (w.note n).notes = w.notes ++ [n] := rfl

@[simp]
theorem notes_annotate (w : World φ (Observed β)) (w' : World φ β) :
    (w.annotate w').notes = w.notes := rfl

@[simp]
theorem notes_withLog (w : World φ (Observed β)) (entries : List Log.Entry) :
    (w.withLog entries).notes = w.notes := rfl

end World

/-! ## Noting calls -/

namespace Routine

variable {α : Type}

/-- Leave the notes alone. -/
def unnoted (r : Routine (World φ β) α) : Routine (World φ (Observed β)) α :=
  r.lift World.within fun w' w => w.annotate w'

/-- Note the answer to a call. -/
def answering (c : Call) (result : α → Except Error Unit)
    (r : Routine (World φ (Observed β)) α) : Routine (World φ (Observed β)) α :=
  r.bind fun a => .step (World.note (.answer c (result a))) fun _ => .done a

/-- Note a call and its answer. -/
def noted (c : Call) (result : α → Except Error Unit) (r : Routine (World φ β) α) :
    Routine (World φ (Observed β)) α :=
  .step (World.note (.call c)) fun _ => r.unnoted.answering c result

/-- What is left of a call that has noted this much. -/
inductive Underway (c : Call) (result : α → Except Error Unit) :
    Routine (World φ (Observed β)) α → List Note → Prop where
  | fresh (r : Routine (World φ β) α) : Underway c result (r.noted c result) []
  | inside (r : Routine (World φ β) α) :
      Underway c result (r.unnoted.answering c result) [.call c]
  | settled (a : α) : Underway c result (.done a) (Note.pair c (result a))

/-- A step of a call notes something about the call, or nothing. -/
theorem Underway.step {c : Call} {result : α → Except Error Unit}
    {r : Routine (World φ (Observed β)) α} {own : List Note} (h : Underway c result r own)
    {update : World φ (Observed β) → World φ (Observed β)}
    {rest : World φ (Observed β) → Routine (World φ (Observed β)) α} (hr : r = .step update rest)
    (w : World φ (Observed β)) :
    ∃ new, (update w).notes = w.notes ++ new ∧ (∀ n ∈ new, n.subject? = c.subject?) ∧
      Underway c result (rest w) (own ++ new) := by
  cases h with
  | fresh r =>
    unfold noted at hr
    cases hr
    exact ⟨[.call c], rfl, by simp [Note.subject?], .inside r⟩
  | inside r =>
    cases r with
    | done a =>
      cases hr
      exact ⟨[.answer c (result a)], rfl, by simp [Note.subject?], .settled a⟩
    | step update' rest' =>
      cases hr
      exact ⟨[], (List.append_nil _).symm, by simp, .inside (rest' w.within)⟩
  | settled a => cases hr

/-- A call that is over has noted the call and its answer. -/
theorem Underway.eq_pair {c : Call} {result : α → Except Error Unit}
    {r : Routine (World φ (Observed β)) α} {own : List Note} (h : Underway c result r own) {a : α}
    (hr : r = .done a) : own = Note.pair c (result a) := by
  cases h with
  | fresh r => cases hr
  | inside r => cases r <;> cases hr
  | settled a' =>
    cases hr
    rfl

theorem notes_run_unnoted (r : Routine (World φ β) α) (w : World φ (Observed β)) :
    (r.unnoted.run w).2.notes = w.notes := by
  induction r generalizing w with
  | done a => rfl
  | step update rest ih => exact ih w.within (w.annotate (update w.within))

/-- Run without interruption, a call notes itself and its answer. -/
theorem notes_run_noted (c : Call) (result : α → Except Error Unit) (r : Routine (World φ β) α)
    (w : World φ (Observed β)) :
    ((r.noted c result).run w).2.notes =
      w.notes ++ Note.pair c (result ((r.noted c result).run w).1) := by
  have hrun : (r.noted c result).run w =
      ((r.unnoted.run (w.note (.call c))).1, (r.unnoted.run (w.note (.call c))).2.note
        (.answer c (result (r.unnoted.run (w.note (.call c))).1))) :=
    run_bind r.unnoted _ (w.note (.call c))
  rw [hrun]
  simp [notes_run_unnoted, Note.pair]

end Routine

/-! ## What a run calls -/

/-- Leave the notes alone. -/
def Effect.unnoted {α : Type} (e : Effect φ β α) : Effect φ (Observed β) α :=
  ExceptT.mk e.run.unnoted

/-- Leave the notes alone. -/
def Task.unnoted {α : Type} (t : Task φ β α) : Task φ (Observed β) α :=
  ExceptT.mk fun journal => (t.run.run journal).unnoted

/-- Note a call and its answer. -/
def Task.observed (t : Task φ β Unit) (c : Call) : Task φ (Observed β) Unit :=
  ExceptT.mk fun journal => (t.run.run journal).noted c Prod.fst

/-- Note which events fire and how the hooks answer. -/
def Hooks.observed (h : Hooks φ β) : Hooks φ (Observed β) := fun events name context =>
  ExceptT.mk ((h events name context).run.noted (.hooks events name context) id)

/-- Leave the notes alone. -/
def Backend.unnoted (b : Backend φ β) : Backend φ (Observed β) where
  build d := (b.build d).unnoted
  deploy d request := (b.deploy d request).unnoted
  render d images := (b.render d images).unnoted
  purge d := (b.purge d).unnoted
  command d name arguments := (b.command d name arguments).unnoted

namespace Project

/-- Note which events fire and how the hooks answer. -/
def observed (p : Project φ β) : Project φ (Observed β) where
  config := p.config
  resolve := p.resolve
  backend := p.backend.unnoted
  hooks := p.hooks.observed
  sink text := (p.sink text).unnoted
  processors := p.processors

/-- Note when the action on a dependency begins and how it ends. -/
def Undertaking.observed (u : Undertaking φ β) : Undertaking φ (Observed β) where
  verb := u.verb
  schedule := u.schedule
  options := u.options
  perform d := (u.perform d).observed (.action d)
  batched := u.batched

end Project

namespace Run

/-- What the hooks are told about a dependency names it. -/
theorem hookContext_id (d : Dependency) : (hookContext d)["dependency_id"]? = some d.id := by
  unfold hookContext
  exact Std.TreeMap.getElem?_ofList_of_mem Std.ReflCmp.compare_self (by simp) (by simp)

namespace Plan

/-- Note which events fire, how the hooks answer, when the action on a
dependency begins and how it ends. -/
def observed (p : Plan φ β) : Plan φ (Observed β) where
  verb := p.verb
  hooks := p.hooks.observed
  selection := p.selection
  silent := p.silent
  perform d := (p.perform d).observed (.action d)

/-- How the hooks of a phase are called. -/
def announcement (p : Plan φ β) (phase : Hook.Phase) (d : Dependency) : Call :=
  .hooks (Hook.dependencyEvents phase p.verb d.name) (some d.name) (hookContext d)

theorem subject?_announcement (p : Plan φ β) (phase : Hook.Phase) (d : Dependency) :
    (p.announcement phase d).subject? = some d.id := hookContext_id d

/-- Hooks can tell from the events which phase it is. -/
theorem phase_of_announcement {p : Plan φ β} {phase phase' : Hook.Phase} {d d' : Dependency}
    (h : p.announcement phase d = p.announcement phase' d') : phase = phase' := by
  simp only [announcement, Call.hooks.injEq, Hook.dependencyEvents, List.cons.injEq] at h
  have hevent := congrArg (fun s : String => s.toList.head?) h.1.2.1
  cases phase <;> cases phase' <;> simp [Hook.Phase.key] at hevent ⊢

end Plan

end Run

end Cascade
