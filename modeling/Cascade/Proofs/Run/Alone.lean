import Cascade.Proofs.Run.Forward
import Cascade.Proofs.Traversal.Drain

/-!
# A worker that is alone

A pool of one worker does the same whatever the schedule, so what it does can be said
without steps.

* A pool of one.  Two schedules that bring it to its end bring it to the same end
  (`follow_unique`).
* One dependency.  `Plan.solo` is what acting on a dependency comes to when nobody else
  moves, and `run_job` says that the job of a claim is just this.
* All of them.  `Plan.inTurn` goes through a list of dependencies and stops at the first
  failure.  A worker that is alone with a forward traversal goes through its agenda
  (`comesTo_inTurn`), and so does handling with one worker (`handle_alone`).
-/

namespace Cascade

/-! ## A pool of one -/

namespace Pool

variable {ι σ : Type} {p : Provider ι σ} {pool pool' : Pool ι σ}

theorem length_workers_step {i : Nat} (h : pool.step p i = some pool') :
    pool'.workers.length = pool.workers.length := by
  unfold step at h
  split at h
  · obtain ⟨_, _, rfl⟩ := Option.map_eq_some_iff.mp h
    exact List.length_set
  · cases h
    exact List.length_set
  · cases h
    exact List.length_set
  · cases h
  · cases h

/-- In a pool of one worker only its own steps count. -/
theorem follow_single (hone : pool.workers.length = 1) (schedule : List Nat) :
    pool.follow p schedule = pool.follow p (List.replicate (schedule.count 0) 0) := by
  induction schedule generalizing pool with
  | nil => rfl
  | cons i schedule ih =>
    rw [follow_cons]
    by_cases hi : i = 0
    · subst hi
      rw [List.count_cons_self, List.replicate_succ, follow_cons]
      apply ih
      cases hstep : pool.step p 0 with
      | none => exact hone
      | some next => exact (length_workers_step hstep).trans hone
    · have hout : pool.workers[i]? = none := List.getElem?_eq_none (by omega)
      have hstep : pool.step p i = none := by simp [step, hout]
      rw [hstep, Option.getD_none, List.count_cons_of_ne hi]
      exact ih hone

/-- A pool that is finished does not move. -/
theorem follow_of_isFinished (h : pool.isFinished = true) (schedule : List Nat) :
    pool.follow p schedule = pool := by
  induction schedule with
  | nil => rfl
  | cons i schedule ih =>
    have hstep : pool.step p i = none := by
      cases hworker : pool.workers[i]? with
      | none => simp [step, hworker]
      | some worker =>
        have hended := List.all_eq_true.mp h worker (List.mem_of_getElem? hworker)
        cases worker with
        | ended outcome => simp [step, hworker]
        | asking | working => cases hended
    rw [follow_cons, hstep]
    exact ih

/-- There is one way to the end for a single worker. -/
theorem follow_unique (hone : pool.workers.length = 1) {schedule schedule' : List Nat}
    (h : (pool.follow p schedule).isFinished = true)
    (h' : (pool.follow p schedule').isFinished = true) :
    pool.follow p schedule = pool.follow p schedule' := by
  rw [follow_single hone] at h h' ⊢
  rw [follow_single hone schedule']
  -- the longer of the two passes through the end of the shorter
  have hlonger : ∀ m n, (pool.follow p (List.replicate m 0)).isFinished = true → m ≤ n →
      pool.follow p (List.replicate m 0) = pool.follow p (List.replicate n 0) := by
    intro m n hm hle
    obtain ⟨k, rfl⟩ := Nat.exists_eq_add_of_le hle
    rw [List.replicate_add, follow_append, follow_of_isFinished hm]
  rcases Nat.le_total (schedule.count 0) (schedule'.count 0) with hle | hle
  · exact hlonger _ _ h hle
  · exact (hlonger _ _ h' hle).symm

end Pool

namespace Run

variable {φ β : Type}

/-! ## One dependency -/

namespace Plan

/-- What acting on a dependency answers and leaves when nobody else moves. -/
def solo (p : Plan φ β) (d : Dependency) (w : World φ β) : Except Error Unit × World φ β :=
  match (p.call .before d).run w with
  | (.error e, w) => (.error e, w)
  | (.ok (), w) =>
    match (p.performing d).run { w with started := w.started ++ [d.id] } with
    | ((.error cause, journal), w) =>
      match (p.call .error d).run w with
      | (.error e, w) => (.error e, w)
      | (.ok (), w) => (.error (.action p.verb.title d.name journal.content cause), w)
    | ((.ok (), _), w) =>
      match (p.call .after d).run w with
      | (.error e, w) => (.error e, w)
      | (.ok (), w) => (.ok (), if p.silent then w else w.withLog [p.doneEntry d])

/-- What passing over a dependency leaves. -/
def passing (p : Plan φ β) (d : Dependency) (w : World φ β) : World φ β :=
  if p.selection.selects d.name then w.withLog [skipEntry d] else w

/-- Act on dependencies one after the other, up to the first failure.  The answer lists
those on which the action succeeded. -/
def inTurn (p : Plan φ β) :
    List Dependency → World φ β → Except Error (List Dependency) × World φ β
  | [], w => (.ok [], w)
  | d :: rest, w =>
    if p.acts d then
      match p.solo d w with
      | (.error e, w) => (.error e, w)
      | (.ok (), w) => ((p.inTurn rest w).1.map (d :: ·), (p.inTurn rest w).2)
    else p.inTurn rest (p.passing d w)

end Plan

theorem run_onWorld {α : Type} (r : Routine (World φ β) α) (s : Shared φ β) :
    (onWorld r).run s = ((r.run s.world).1, { s with world := (r.run s.world).2 }) := by
  induction r generalizing s with
  | done a => rfl
  | step update rest ih => exact ih s.world { s with world := update s.world }

/-- A release that removes what it should, or nothing, logs nothing. -/
theorem run_conclude {claim : Claim Dependency} {outcome : Except Error Unit} {s : Shared φ β}
    (h : (s.handout.release claim.id outcome.isOk).1 = none) :
    (conclude claim outcome).run s = (verdict outcome,
      { s with handout := (s.handout.release claim.id outcome.isOk).2.notify }) := by
  have hrun : (conclude claim outcome).run s = (verdict outcome,
      { s with
        world := s.world.withLog
          ((s.handout.release claim.id outcome.isOk).1.toList.map (unremovedEntry claim.id))
        handout := (s.handout.release claim.id outcome.isOk).2.notify }) := rfl
  rw [hrun, h]
  simp [World.withLog]

/-- Going forward, a failure removes nothing. -/
theorem run_conclude_error {claim : Claim Dependency} {e : Error} {s : Shared φ β}
    (hforward : s.handout.traversal.direction = .forward) :
    ∃ h, (conclude claim (.error e)).run s =
      (.error (.error e), ⟨s.world, h, s.executed⟩) := by
  have hnone : (s.handout.release claim.id false).1 = none := by
    rw [Handout.release, Traversal.release_false hforward]
  exact ⟨_, run_conclude hnone⟩

theorem run_hear (claim : Claim Dependency) (next : Job (Shared φ β))
    (hooks : Routine (World φ β) (Except Error Unit)) (s : Shared φ β) :
    (hear claim next hooks).run s =
      match hooks.run s.world with
      | (.ok (), world) => next.run { s with world }
      | (.error e, world) => (conclude claim (.error e)).run
          { s with world, handout := s.handout.abort.notify } := by
  rw [hear, Routine.run_bind, run_onWorld]
  rcases hooks.run s.world with ⟨answer, world⟩
  cases answer <;> rfl

theorem run_entered (p : Plan φ β) (claim : Claim Dependency) (s : Shared φ β) :
    (p.entered claim).run s = (conclude claim (.ok ())).run
      { s with
        world := if p.silent then s.world else s.world.withLog [p.doneEntry claim.payload]
        executed := s.executed ++ [claim.payload] } := by
  unfold Plan.entered
  cases p.silent <;> rfl

theorem run_begun (p : Plan φ β) (claim : Claim Dependency) (s : Shared φ β) :
    (p.begun claim).run s =
      match (p.performing claim.payload).run
        { s.world with started := s.world.started ++ [claim.payload.id] } with
      | (answer, world) => (p.judged claim answer).run { s with world } := by
  rw [Plan.begun, Routine.run_bind, run_onWorld, Routine.run_bind, run_onWorld]
  rfl

/-- The job of a claim to act upon is to act on it alone. -/
theorem run_job {p : Plan φ β} {claim : Claim Dependency} {s : Shared φ β}
    (hacts : p.acts claim.payload = true)
    (hforward : s.handout.traversal.direction = .forward)
    (hrelease : (s.handout.release claim.id true).1 = none) :
    match p.solo claim.payload s.world with
    | (.ok (), w) => (p.job claim).run s = (.ok (),
        ⟨w, (s.handout.release claim.id true).2.notify, s.executed ++ [claim.payload]⟩)
    | (.error e, w) => ∃ h, (p.job claim).run s = (.error (.error e), ⟨w, h, s.executed⟩) := by
  rw [Plan.job_eq, Plan.firstPost, if_pos hacts]
  show match p.solo claim.payload s.world with
    | (.ok (), w) => (hear claim (p.begun claim) (p.call .before claim.payload)).run s = _
    | (.error e, w) => ∃ h, (hear claim (p.begun claim) (p.call .before claim.payload)).run s = _
  rw [run_hear, Plan.solo]
  rcases (p.call .before claim.payload).run s.world with ⟨before, w₁⟩
  cases before with
  | error e => exact run_conclude_error hforward
  | ok _ =>
    dsimp only
    rw [run_begun]
    dsimp only
    rcases (p.performing claim.payload).run { w₁ with started := w₁.started ++ [claim.payload.id] }
      with ⟨⟨result, journal⟩, w₂⟩
    cases result with
    | error cause =>
      dsimp only [Plan.judged, Plan.occasion]
      rw [run_hear]
      dsimp only
      rcases (p.call .error claim.payload).run w₂ with ⟨failed, w₃⟩
      cases failed with
      | error e => exact run_conclude_error hforward
      | ok _ => exact run_conclude_error hforward
    | ok _ =>
      dsimp only [Plan.judged, Plan.occasion]
      rw [run_hear]
      dsimp only
      rcases (p.call .after claim.payload).run w₂ with ⟨after, w₃⟩
      cases after with
      | error e => exact run_conclude_error hforward
      | ok _ =>
        dsimp only
        rw [run_entered]
        exact run_conclude hrelease

/-- The job of any other claim is to pass over it. -/
theorem run_job_passing {p : Plan φ β} {claim : Claim Dependency} {s : Shared φ β}
    (hacts : p.acts claim.payload = false)
    (hrelease : (s.handout.release claim.id true).1 = none) :
    (p.job claim).run s = (.ok (), ⟨p.passing claim.payload s.world,
      (s.handout.release claim.id true).2.notify, s.executed⟩) := by
  have hnot : ¬ p.acts claim.payload = true := by simp [hacts]
  rw [Plan.job_eq, Plan.firstPost, if_neg hnot, Plan.passPost, Plan.passing]
  cases p.selection.selects claim.payload.name with
  | false => exact run_conclude hrelease
  | true =>
    show ((log (Plan.skipEntry claim.payload)).bind fun _ => conclude claim (.ok ())).run s = _
    rw [Routine.run_bind]
    exact run_conclude hrelease

/-! ## All of them -/

/-- A worker that is alone asks at once. -/
theorem follow_request (p : Plan φ β) (s : Shared φ β) :
    Pool.follow p.provider ⟨s, [.asking .outside]⟩ [0, 0] =
      ⟨{ s with handout := (s.handout.ask 0).2 },
        [match (s.handout.ask 0).1 with
          | .claim claim => .working (p.job claim)
          | .pending => .asking .parked
          | .exhausted => .ended (.ok ())]⟩ := by
  simp only [Pool.follow_cons, Pool.follow_nil, Pool.step, Plan.provider, List.getElem?_cons_zero,
    Option.map_some, Option.getD_some, Worker.ofProgress, List.set_cons_zero, Handout.ask]
  cases ((s.handout.register 0).inspect 0).1 <;> rfl

/-- A worker that is alone does its job without interruption. -/
theorem follow_claim {p : Plan φ β} {s : Shared φ β} {claim : Claim Dependency}
    {h' : Handout Dependency} (hask : s.handout.ask 0 = (.claim claim, h')) :
    ∃ schedule, Pool.follow p.provider ⟨s, [.asking .outside]⟩ schedule =
      ⟨((p.job claim).run { s with handout := h' }).2,
        [.afterJob .outside ((p.job claim).run { s with handout := h' }).1]⟩ := by
  have hworking : Pool.follow p.provider ⟨{ s with handout := h' }, [.working (p.job claim)]⟩
      (List.replicate ((p.job claim).steps { s with handout := h' } + 1) 0) = _ :=
    Pool.follow_working (p.job claim) rfl
  refine ⟨[0, 0] ++ List.replicate ((p.job claim).steps { s with handout := h' } + 1) 0, ?_⟩
  rw [Pool.follow_append, follow_request, hask]
  exact hworking

/-- What a worker that is alone comes to: the dependencies on which it has acted, or the
error for which it stopped, and the world that it leaves. -/
def ComesTo (p : Plan φ β) (s : Shared φ β) (answer : Except Error (List Dependency))
    (w : World φ β) : Prop :=
  ∃ schedule s',
    Pool.follow p.provider ⟨s, [.asking .outside]⟩ schedule =
      ⟨s', [.ended (verdict (answer.map fun _ => ()))]⟩ ∧
    s'.world = w ∧ ∀ executed, answer = .ok executed → s'.executed = s.executed ++ executed

/-- What comes of a worker that goes on after a job. -/
theorem ComesTo.next {p : Plan φ β} {s s₂ : Shared φ β} {schedule : List Nat}
    {answer : Except Error (List Dependency)} {w : World φ β} (done : List Dependency)
    (hfirst : Pool.follow p.provider ⟨s, [.asking .outside]⟩ schedule =
      ⟨s₂, [.asking .outside]⟩)
    (hdone : s₂.executed = s.executed ++ done) (h : ComesTo p s₂ answer w) :
    ComesTo p s (answer.map (done ++ ·)) w := by
  obtain ⟨schedule', s', hfollow, hworld, hexecuted⟩ := h
  refine ⟨schedule ++ schedule', s', ?_, hworld, ?_⟩
  · rw [Pool.follow_append, hfirst, hfollow]
    cases answer <;> rfl
  · intro executed heq
    cases answer with
    | error e => cases heq
    | ok rest =>
      cases heq
      rw [hexecuted rest rfl, hdone, List.append_assoc]

/-- A worker that is alone with an idle traversal goes through its agenda. -/
theorem comesTo_inTurn (p : Plan φ β) (s : Shared φ β) (hidle : s.handout.traversal.Idle) :
    ComesTo p s (p.inTurn (s.handout.traversal.graph.agenda.map (·.payload)) s.world).1
      (p.inTurn (s.handout.traversal.graph.agenda.map (·.payload)) s.world).2 := by
  induction hagenda : s.handout.traversal.graph.agenda generalizing s with
  | nil =>
    obtain ⟨h', _, ⟨_, _, hask, _⟩ | ⟨claim, _, _, _, hcons⟩⟩ := Handout.ask_cases hidle 0
    · refine ⟨[0, 0], { s with handout := h' }, ?_, rfl, ?_⟩
      · rw [follow_request, hask]
        rfl
      · intro executed h
        cases h
        exact (List.append_nil _).symm
    · rw [hagenda] at hcons
      cases hcons
  | cons claim rest ih =>
    obtain ⟨h', hforward, ⟨hnil, _⟩ | ⟨claim', hask, hrelease, hidle', hcons⟩⟩ :=
      Handout.ask_cases hidle 0
    · rw [hagenda] at hnil
      cases hnil
    rw [hagenda, List.cons.injEq] at hcons
    obtain ⟨rfl, hrest⟩ := hcons
    obtain ⟨schedule, hfollow⟩ := follow_claim (p := p) hask
    rw [List.map_cons, Plan.inTurn]
    cases hacts : p.acts claim.payload with
    | false =>
      rw [run_job_passing hacts hrelease] at hfollow
      have hnext := ih ⟨p.passing claim.payload s.world,
        (h'.release claim.id true).2.notify, s.executed⟩ hidle' hrest.symm
      have hall := hnext.next [] hfollow (List.append_nil _).symm
      have hsame : ∀ answer : Except Error (List Dependency), answer.map ([] ++ ·) = answer := by
        intro answer
        cases answer <;> rfl
      rw [hsame] at hall
      exact hall
    | true =>
      have hjob := run_job (s := { s with handout := h' }) hacts hforward hrelease
      dsimp only at hjob
      rw [if_pos rfl]
      rcases hsolo : p.solo claim.payload s.world with ⟨answer, w⟩
      rw [hsolo] at hjob
      cases answer with
      | error e =>
        obtain ⟨h'', hjob⟩ := hjob
        rw [hjob] at hfollow
        exact ⟨schedule, _, hfollow, rfl, fun executed h => by cases h⟩
      | ok _ =>
        rw [hjob] at hfollow
        exact (ih ⟨w, (h'.release claim.id true).2.notify, s.executed ++ [claim.payload]⟩
          hidle' hrest.symm).next [claim.payload] hfollow rfl

/-- A whole run of one worker over a graph goes through the agenda of the graph. -/
theorem work_alone {p : Plan φ β} (hforward : p.verb.direction = .forward) (schedule : List Nat)
    {g : DependencyGraph} (hg : g.Hierarchy) (hl : g.Laden) (w : World φ β) :
    (Project.work p schedule 1 g w).result =
        (p.inTurn (g.agenda.map (·.payload)) w).1.map (fun _ => ()) ∧
      (Project.work p schedule 1 g w).shared.world = (p.inTurn (g.agenda.map (·.payload)) w).2 ∧
      ∀ executed, (p.inTurn (g.agenda.map (·.payload)) w).1 = .ok executed →
        (Project.work p schedule 1 g w).shared.executed = executed := by
  have hidle : (Handout.start p.verb.direction g).traversal.Idle := by
    rw [hforward]
    exact Traversal.idle_start hg hl
  obtain ⟨schedule', s', hfollow, hworld, hexecuted⟩ :=
    comesTo_inTurn p ⟨w, .start p.verb.direction g, []⟩ hidle
  have hwork : Project.work p schedule 1 g w =
      (Project.pool p 1 g w).follow p.provider (wholeSchedule p schedule 1 g w) := by
    rw [work_eq, crew, ← pool_follow_start]
  have hfinished : ((Project.pool p 1 g w).follow p.provider
      (wholeSchedule p schedule 1 g w)).isFinished = true := by
    rw [← hwork, work_eq]
    exact Crew.isFinished_pool p fun _ => ended_of_mem_crew p schedule 1 hg hl w
  have hfinished' : ((Project.pool p 1 g w).follow p.provider schedule').isFinished = true := by
    rw [show (Project.pool p 1 g w).follow p.provider schedule' = _ from hfollow]
    rfl
  have hend := (hwork.trans (Pool.follow_unique rfl hfinished hfinished')).trans hfollow
  rw [hend]
  refine ⟨?_, hworld, hexecuted⟩
  show Pool.result ⟨s', [.ended (verdict
    ((p.inTurn (g.agenda.map (·.payload)) w).1.map fun _ => ()))]⟩ = _
  cases (p.inTurn (g.agenda.map (·.payload)) w).1 <;> rfl

end Run

namespace Project

open Run

variable {φ β : Type}

/-- Handling with one worker is acting on the dependencies one after the other, whatever the
schedule. -/
theorem handle_alone {g : DependencyGraph} (hg : g.Hierarchy) (hl : g.Laden) (p : Project φ β)
    (schedule : List Nat) {verb : Verb} (hforward : verb.direction = .forward)
    {o : HandleOptions} (hone : p.workersFor o = 1) (perform : Dependency → Task φ β Unit)
    (w : World φ β) (hdeps : p.config.hasDependencies = true) {log : List Log.Entry}
    {stored : Stored φ} (hresolve : p.resolve o.selection.update w.stored = (.ok g, log, stored)) :
    let turns := (p.planFor verb o perform).inTurn (g.agenda.map (·.payload))
      (begun verb o g log stored w)
    ((p.handle schedule verb o perform).run.run w).1 =
        turns.1.map (fun executed => ⟨g, executed.filter (·.isRoot)⟩) ∧
      ∃ entries, ((p.handle schedule verb o perform).run.run w).2 = turns.2.withLog entries := by
  intro turns
  obtain ⟨hanswer, entries, hworld⟩ :=
    handle_of_resolved schedule verb o perform w hdeps hresolve
  rw [hone] at hanswer hworld
  obtain ⟨hresult, hleft, hexecuted⟩ := work_alone (p := p.planFor verb o perform) hforward schedule
    hg hl (begun verb o g log stored w)
  refine ⟨?_, entries, by rw [hworld, hleft]⟩
  rw [hanswer, hresult]
  cases hturns : turns.1 with
  | error e => rfl
  | ok executed =>
    rw [hexecuted executed hturns]
    rfl

end Project

end Cascade
