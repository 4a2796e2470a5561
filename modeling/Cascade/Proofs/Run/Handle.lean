import Cascade.Run.Project

/-!
# What handling the dependencies comes to

`Project.handle` resolves the dependencies, lets a pool of workers act on
them, and reports.  The theorems here say this without the messages that it
logs on the way: `handle_of_resolved` when the dependencies are resolved,
`handle_of_unresolved` when they are not, and `handle_of_none` when there are
none.
-/

namespace Cascade.Project

open Run

variable {φ β : Type}

/-! ## Sessions -/

/-- A part goes on unless it fails. -/
theorem run_bind {α γ : Type} (s : Session φ β α) (f : α → Session φ β γ) (w : World φ β) :
    (s >>= f).run.run w =
      match s.run.run w with
      | (.ok a, w) => (f a).run.run w
      | (.error e, w) => (.error e, w) := by
  rw [ExceptT.run_bind, StateT.run_bind]
  generalize s.run.run w = answer
  obtain ⟨result, w'⟩ : Except Error α × World φ β := answer
  cases result <;> rfl

theorem fresh_run (w : World φ β) :
    ((modify World.fresh : Session φ β Unit).run.run w : Except Error Unit × World φ β) =
      (.ok (), w.fresh) := rfl

theorem get_run (w : World φ β) :
    ((get : Session φ β (World φ β)).run.run w : Except Error (World φ β) × World φ β) =
      (.ok w, w) := rfl

theorem attempt_run {α : Type} (s : Session φ β α) (w : World φ β) :
    (s.attempt.run.run w : Except Error (Except Error α) × World φ β) =
      (.ok (s.run.run w).1, (s.run.run w).2) := rfl

theorem resolveGraph_run (p : Project φ β) (update : Bool) (w : World φ β) :
    ((p.resolveGraph update).run.run w : Except Error DependencyGraph × World φ β) =
      ((p.resolve update w.stored).1,
        { w.withLog (p.resolve update w.stored).2.1 with
          stored := (p.resolve update w.stored).2.2 }) := rfl

theorem say_run (message : String) (w : World φ β) :
    ((Session.say message).run.run w : Except Error Unit × World φ β) =
      (.ok (), w.withLog [.info .manager message []]) := rfl

theorem withLog_withLog (w : World φ β) (entries entries' : List Log.Entry) :
    (w.withLog entries).withLog entries' = w.withLog (entries ++ entries') := by
  simp [World.withLog]

/-- What is said is logged, and nothing else happens. -/
theorem announce_run (verb : Verb) (selection : Selection) (total : Nat) (w : World φ β) :
    ∃ entries, (announce verb selection total).run.run w = (.ok (), w.withLog entries) := by
  unfold announce
  cases selection.verbose <;>
    simp only [run_bind, say_run, withLog_withLog, Bool.not_true, Bool.not_false, if_true,
      Bool.false_eq_true, if_false] <;>
    exact ⟨_, rfl⟩

theorem aloud_run (silent : Bool) {s : Session φ β Unit} {w : World φ β}
    (h : ∃ entries, s.run.run w = (.ok (), w.withLog entries)) :
    ∃ entries, (Session.aloud silent s).run.run w = (.ok (), w.withLog entries) := by
  cases silent with
  | false => exact h
  | true => exact ⟨[], by simp [Session.aloud, World.withLog]; rfl⟩

/-! ## Handling -/

/-- The world in which the workers begin, once the dependencies are
resolved. -/
def begun (verb : Verb) (o : HandleOptions) (g : DependencyGraph) (log : List Log.Entry)
    (stored : Stored φ) (w : World φ β) : World φ β :=
  let w := ((Session.aloud o.silent (.say "Start resolving dependencies")).run.run w.fresh).2
  ((Session.aloud o.silent (announce verb o.selection g.size)).run.run
    { w.withLog log with stored }).2

/-- The world that is left when the dependencies cannot be resolved. -/
def refused (o : HandleOptions) (log : List Log.Entry) (stored : Stored φ) (w : World φ β) :
    World φ β :=
  let w := ((Session.aloud o.silent (.say "Start resolving dependencies")).run.run w.fresh).2
  { w.withLog log with stored }

/-- The world in which the workers begin is the one before with what was
resolved and some words more. -/
theorem begun_eq (verb : Verb) (o : HandleOptions) (g : DependencyGraph) (log : List Log.Entry)
    (stored : Stored φ) (w : World φ β) :
    ∃ entries, begun verb o g log stored w = { w.fresh.withLog entries with stored } := by
  obtain ⟨first, hfirst⟩ := aloud_run o.silent
    (s := .say "Start resolving dependencies") (w := w.fresh) ⟨_, say_run ..⟩
  unfold begun
  rw [hfirst]
  obtain ⟨second, hsecond⟩ := aloud_run o.silent
    (announce_run verb o.selection g.size { (w.fresh.withLog first).withLog log with stored })
  refine ⟨first ++ log ++ second, ?_⟩
  dsimp only
  rw [hsecond]
  simp [World.withLog]

theorem report_run (verb : Verb) (o : HandleOptions) (g : DependencyGraph)
    (pool : Pool Stage (Shared φ β)) (w : World φ β) :
    ((report verb o g pool).run.run w).1 =
        (match pool.result with
          | .ok () => .ok ⟨g, pool.shared.executed.filter (·.isRoot)⟩
          | .error e => .error e) ∧
      ∃ entries, ((report verb o g pool).run.run w).2 = pool.shared.world.withLog entries := by
  unfold report
  cases pool.result with
  | error e =>
    cases o.silent with
    | false => exact ⟨rfl, _, withLog_withLog ..⟩
    | true => exact ⟨rfl, _, rfl⟩
  | ok _ =>
    cases o.silent with
    | false => exact ⟨rfl, _, withLog_withLog ..⟩
    | true => exact ⟨rfl, _, rfl⟩

theorem resolveFor_of_resolved {p : Project φ β} {o : HandleOptions} {w : World φ β}
    {g : DependencyGraph} {log : List Log.Entry} {stored : Stored φ}
    (hresolve : p.resolve o.selection.update w.stored = (.ok g, log, stored)) :
    (p.resolveFor o).run.run w = (.ok g, { w.withLog log with stored }) := by
  unfold resolveFor
  rw [run_bind, attempt_run, resolveGraph_run, hresolve]
  rfl

theorem resolveFor_of_unresolved {p : Project φ β} {o : HandleOptions} {w : World φ β}
    {e : Error} {log : List Log.Entry} {stored : Stored φ}
    (hresolve : p.resolve o.selection.update w.stored = (.error e, log, stored)) :
    (p.resolveFor o).run.run w =
      (.error (.resolve (withHint e)), { w.withLog log with stored }) := by
  unfold resolveFor
  rw [run_bind, attempt_run, resolveGraph_run, hresolve]
  rfl

/-- Handling begins with resolving, if there is anything to resolve. -/
theorem handle_run (p : Project φ β) (schedule : List Nat) (verb : Verb) (o : HandleOptions)
    (perform : Dependency → Task φ β Unit) (w : World φ β)
    (hdeps : p.config.hasDependencies = true) :
    (p.handle schedule verb o perform).run.run w =
      match (p.resolveFor o).run.run
        ((Session.aloud o.silent (.say "Start resolving dependencies")).run.run w.fresh).2 with
      | (.ok g, w) =>
        let w := ((Session.aloud o.silent (announce verb o.selection g.size)).run.run w).2
        (report verb o g
          (work (p.planFor verb o perform) schedule (p.workersFor o) g w)).run.run w
      | (.error e, w) => (.error e, w) := by
  obtain ⟨first, hfirst⟩ := aloud_run o.silent
    (s := .say "Start resolving dependencies") (w := w.fresh) ⟨_, say_run ..⟩
  unfold handle
  rw [run_bind, fresh_run]
  simp only [hdeps, Bool.not_true, Bool.false_eq_true, if_false, run_bind, hfirst]
  rcases (p.resolveFor o).run.run (w.fresh.withLog first) with ⟨result, w'⟩
  cases result with
  | error e => rfl
  | ok g =>
    obtain ⟨second, hsecond⟩ := aloud_run o.silent (announce_run verb o.selection g.size w')
    simp only [hsecond]
    rfl

/-- Handling resolved dependencies is letting the workers act on them, and
reporting how that went. -/
theorem handle_eq_report {p : Project φ β} (schedule : List Nat) (verb : Verb)
    (o : HandleOptions) (perform : Dependency → Task φ β Unit) (w : World φ β)
    (hdeps : p.config.hasDependencies = true) {g : DependencyGraph} {log : List Log.Entry}
    {stored : Stored φ} (hresolve : p.resolve o.selection.update w.stored = (.ok g, log, stored)) :
    (p.handle schedule verb o perform).run.run w =
      (report verb o g (work (p.planFor verb o perform) schedule (p.workersFor o) g
        (begun verb o g log stored w))).run.run (begun verb o g log stored w) := by
  obtain ⟨first, hfirst⟩ := aloud_run o.silent
    (s := .say "Start resolving dependencies") (w := w.fresh) ⟨_, say_run ..⟩
  have hbegun : begun verb o g log stored w =
      ((Session.aloud o.silent (announce verb o.selection g.size)).run.run
        { (w.fresh.withLog first).withLog log with stored }).2 := by
    unfold begun
    rw [hfirst]
  rw [handle_run p schedule verb o perform w hdeps, hfirst,
    resolveFor_of_resolved (w := w.fresh.withLog first) hresolve, hbegun]

/-- What handling resolved dependencies answers and leaves is told by the
workers. -/
theorem handle_of_resolved {p : Project φ β} (schedule : List Nat) (verb : Verb)
    (o : HandleOptions) (perform : Dependency → Task φ β Unit) (w : World φ β)
    (hdeps : p.config.hasDependencies = true) {g : DependencyGraph} {log : List Log.Entry}
    {stored : Stored φ} (hresolve : p.resolve o.selection.update w.stored = (.ok g, log, stored)) :
    let pool := work (p.planFor verb o perform) schedule (p.workersFor o) g
      (begun verb o g log stored w)
    ((p.handle schedule verb o perform).run.run w).1 =
        (match pool.result with
          | .ok () => .ok ⟨g, pool.shared.executed.filter (·.isRoot)⟩
          | .error e => .error e) ∧
      ∃ entries, ((p.handle schedule verb o perform).run.run w).2 =
        pool.shared.world.withLog entries := by
  intro pool
  rw [handle_eq_report schedule verb o perform w hdeps hresolve]
  exact report_run ..

/-- Handling stops when the dependencies cannot be resolved. -/
theorem handle_eq_refused {p : Project φ β} (schedule : List Nat) (verb : Verb)
    (o : HandleOptions) (perform : Dependency → Task φ β Unit) (w : World φ β)
    (hdeps : p.config.hasDependencies = true) {e : Error} {log : List Log.Entry}
    {stored : Stored φ}
    (hresolve : p.resolve o.selection.update w.stored = (.error e, log, stored)) :
    (p.handle schedule verb o perform).run.run w =
      (.error (.resolve (withHint e)), refused o log stored w) := by
  obtain ⟨first, hfirst⟩ := aloud_run o.silent
    (s := .say "Start resolving dependencies") (w := w.fresh) ⟨_, say_run ..⟩
  rw [handle_run p schedule verb o perform w hdeps, refused, hfirst,
    resolveFor_of_unresolved (w := w.fresh.withLog first) hresolve]

/-- When the dependencies cannot be resolved, then all that handling leaves is
what resolving stored and some words. -/
theorem handle_of_unresolved {p : Project φ β} (schedule : List Nat) (verb : Verb)
    (o : HandleOptions) (perform : Dependency → Task φ β Unit) (w : World φ β)
    (hdeps : p.config.hasDependencies = true) {e : Error} {log : List Log.Entry}
    {stored : Stored φ}
    (hresolve : p.resolve o.selection.update w.stored = (.error e, log, stored)) :
    ∃ entries, (p.handle schedule verb o perform).run.run w =
      (.error (.resolve (withHint e)), { w.fresh.withLog entries with stored }) := by
  obtain ⟨first, hfirst⟩ := aloud_run o.silent
    (s := .say "Start resolving dependencies") (w := w.fresh) ⟨_, say_run ..⟩
  refine ⟨first ++ log, ?_⟩
  rw [handle_eq_refused schedule verb o perform w hdeps hresolve, refused, hfirst]
  simp [World.withLog]

/-- Without dependencies there is nothing to handle. -/
theorem handle_of_none {p : Project φ β} (schedule : List Nat) (verb : Verb) (o : HandleOptions)
    (perform : Dependency → Task φ β Unit) (w : World φ β)
    (hdeps : p.config.hasDependencies = false) :
    (p.handle schedule verb o perform).run.run w = (.ok .nothing, w.fresh) := by
  unfold handle
  rw [run_bind, fresh_run]
  simp only [hdeps, Bool.not_false, if_true]
  rfl

end Cascade.Project
