import Cascade.Proofs.Pool.Mirror
import Cascade.Proofs.Run.Handle
import Cascade.Proofs.Run.Observed
import Cascade.Proofs.Run.Termination

/-!
# Observing changes nothing

Taking notes takes steps, between which other workers may move.  So the run of
an observed project with a schedule need not be the run of the project with the
same one.  But whatever a project does, it does observed as well, with some
schedule: what is observed mirrors what is not.  This is said of a job in
`Plan.mirrors_job`, of the workers in `mirrors_work`, and of a project whose
dependencies are handled in `Project.mirrors_handle`.  So what holds of the
notes of all observed runs is true of all runs.
-/

namespace Cascade

variable {φ β α γ : Type}

/-! ## Routines -/

namespace Routine

/-- What leaves the notes alone does the same. -/
theorem mirrors_unnoted (r : Routine (World φ β) α) : r.unnoted.Mirrors World.within r := by
  induction r with
  | done a => exact .done a
  | step update rest ih => exact .step (fun _ => rfl) fun w => ih w.within

/-- What is noted does the same. -/
theorem mirrors_noted (c : Call) (result : α → Except Error Unit) (r : Routine (World φ β) α) :
    (r.noted c result).Mirrors World.within r := by
  have hanswering : (r.unnoted.answering c result).Mirrors World.within (r.bind .done) :=
    r.mirrors_unnoted.bind fun a => .extra (fun _ => rfl) fun _ => .done a
  rw [bind_done] at hanswering
  exact .extra (fun _ => rfl) fun _ => hanswering

end Routine

namespace Run

/-! ## Jobs -/

/-- What the workers share, without the notes. -/
def Shared.within (s : Shared φ (Observed β)) : Shared φ β :=
  ⟨s.world.within, s.handout, s.executed⟩

theorem mirrors_onWorld {r' : Routine (World φ (Observed β)) α} {r : Routine (World φ β) α}
    (h : r'.Mirrors World.within r) : (onWorld r').Mirrors Shared.within (onWorld r) := by
  induction h with
  | done a => exact .done a
  | step hupdate _ ih =>
    refine .step (fun s => ?_) fun s => ih s.world
    exact congrArg (Shared.mk · s.handout s.executed) (hupdate s.world)
  | extra hupdate _ ih =>
    refine .extra (fun s => ?_) fun s => ih s.world
    exact congrArg (Shared.mk · s.handout s.executed) (hupdate s.world)

theorem mirrors_log (entry : Log.Entry) :
    (log entry : Step φ (Observed β) Unit).Mirrors Shared.within (log entry) :=
  mirrors_onWorld (Routine.mirrors_modify fun _ => rfl)

theorem mirrors_notify : (notify : Step φ (Observed β) Unit).Mirrors Shared.within notify :=
  Routine.mirrors_modify fun _ => rfl

theorem mirrors_release (id : String) (succeeded : Bool) :
    (release id succeeded : Step φ (Observed β) Unit).Mirrors Shared.within
      (release id succeeded) :=
  .step (fun _ => rfl) fun _ => mirrors_notify

theorem mirrors_abort : (abort : Step φ (Observed β) Unit).Mirrors Shared.within abort :=
  .step (fun _ => rfl) fun _ => mirrors_notify

theorem mirrors_conclude (claim : Claim Dependency) (outcome : Except Error Unit) :
    (conclude claim outcome : Job (Shared φ (Observed β))).Mirrors Shared.within
      (conclude claim outcome) :=
  (mirrors_release _ _).bind fun _ => .done _

theorem mirrors_hear (claim : Claim Dependency) {next' : Job (Shared φ (Observed β))}
    {next : Job (Shared φ β)} (hnext : next'.Mirrors Shared.within next)
    {hooks' : Routine (World φ (Observed β)) (Except Error Unit)}
    {hooks : Routine (World φ β) (Except Error Unit)} (hhooks : hooks'.Mirrors World.within hooks) :
    (hear claim next' hooks').Mirrors Shared.within (hear claim next hooks) := by
  refine (mirrors_onWorld hhooks).bind fun answer => ?_
  cases answer with
  | ok _ => exact hnext
  | error e => exact mirrors_abort.bind fun _ => mirrors_conclude claim (.error e)

namespace Plan

variable (p : Plan φ β)

theorem mirrors_call (phase : Hook.Phase) (d : Dependency) :
    (p.observed.call phase d).Mirrors World.within (p.call phase d) :=
  Routine.mirrors_noted ..

theorem mirrors_entered (claim : Claim Dependency) :
    (p.observed.entered claim).Mirrors Shared.within (p.entered claim) := by
  refine .step (fun _ => rfl) fun _ => ?_
  show (if p.silent then _ else _ : Job _).Mirrors Shared.within (if p.silent then _ else _)
  split
  · exact mirrors_conclude claim _
  · exact (mirrors_log _).bind fun _ => mirrors_conclude claim _

theorem mirrors_judged (claim : Claim Dependency) (answer : Except Error Unit × Log.Journal) :
    (p.observed.judged claim answer).Mirrors Shared.within (p.judged claim answer) := by
  obtain ⟨result, journal⟩ := answer
  cases result with
  | ok _ => exact mirrors_hear claim (p.mirrors_entered claim) (p.mirrors_call ..)
  | error e => exact mirrors_hear claim (mirrors_conclude claim _) (p.mirrors_call ..)

theorem mirrors_begun (claim : Claim Dependency) :
    (p.observed.begun claim).Mirrors Shared.within (p.begun claim) :=
  (mirrors_onWorld (Routine.mirrors_modify fun _ => rfl)).bind fun _ =>
    (mirrors_onWorld (Routine.mirrors_noted ..)).bind (p.mirrors_judged claim)

/-- An observed job does what the job does. -/
theorem mirrors_job (claim : Claim Dependency) :
    (p.observed.job claim).Mirrors Shared.within (p.job claim) := by
  have hacts : p.observed.acts claim.payload = p.acts claim.payload := rfl
  have hselects : p.observed.selection = p.selection := rfl
  rw [job_eq, job_eq, firstPost, firstPost, hacts, passPost, passPost, hselects]
  split
  · exact mirrors_hear claim (p.mirrors_begun claim) (p.mirrors_call ..)
  · split
    · exact (mirrors_log _).bind fun _ => mirrors_conclude claim _
    · exact mirrors_conclude claim _

/-- The observed traversal hands out what the traversal does. -/
theorem mirrors_provider : p.observed.provider.Mirrors Shared.within p.provider where
  start := rfl
  ask {worker stage t s progress} h := by
    cases stage with
    | outside =>
      cases h
      exact ⟨_, _, rfl, rfl, .asking _⟩
    | registered =>
      rcases hinspect : t.handout.inspect worker with ⟨offer, handout⟩
      simp only [provider, Shared.within, hinspect] at h ⊢
      cases offer with
      | claim claim =>
        cases h
        exact ⟨_, _, rfl, rfl, .working (p.mirrors_job claim)⟩
      | pending =>
        cases h
        exact ⟨_, _, rfl, rfl, .asking _⟩
      | exhausted =>
        cases h
        exact ⟨_, _, rfl, rfl, .ended _⟩
    | parked =>
      simp only [provider, Shared.within, Option.map_eq_some_iff] at h ⊢
      obtain ⟨handout, hwake, h⟩ := h
      cases h
      exact ⟨_, _, ⟨handout, hwake, rfl⟩, rfl, .asking _⟩

/-! ## Workers -/

/-- Whatever the workers do, they do observed as well. -/
theorem mirrors_work {g : DependencyGraph} (hg : g.Hierarchy) (hl : g.Laden)
    (schedule : List Nat) (workers : Nat) (w : World φ (Observed β)) :
    ∃ schedule', (Project.work p.observed schedule' workers g w).Mirrors Shared.within
      (Project.work p schedule workers g w.within) := by
  have hstart : (Project.pool p.observed workers g w).Mirrors Shared.within
      (Project.pool p workers g w.within) := Pool.mirrors_start p.mirrors_provider workers _
  have hwork : Project.work p schedule workers g w.within =
      (Project.pool p workers g w.within).follow p.provider
        (schedule ++ ((Project.pool p workers g w.within).follow p.provider schedule).finishing
          p.provider (Project.enough workers g)) := by
    rw [Project.work, Pool.finish_eq_follow, Pool.follow_append]
  have hfinished : (Project.work p schedule workers g w.within).isFinished = true := by
    rw [work_eq]
    exact Crew.isFinished_pool p fun _ => ended_of_mem_crew p schedule workers hg hl w.within
  rw [hwork] at hfinished ⊢
  obtain ⟨schedule', hmirrors⟩ := hstart.follow p.mirrors_provider _
  refine ⟨schedule', ?_⟩
  rw [Project.work, Pool.finish_of_isFinished (hmirrors.isFinished.trans hfinished)]
  exact hmirrors

end Plan

end Run

/-! ## Handling -/

/-- A part does in a world with notes what another does without them. -/
def Session.Mirrors (s' : Session φ (Observed β) α) (s : Session φ β α)
    (w : World φ (Observed β)) : Prop :=
  s.run.run w.within = ((s'.run.run w).1, (s'.run.run w).2.within)

namespace Session.Mirrors

variable {s' : Session φ (Observed β) α} {s : Session φ β α} {w : World φ (Observed β)}

theorem bind {f' : α → Session φ (Observed β) γ} {f : α → Session φ β γ} (hs : s'.Mirrors s w)
    (hf : ∀ a, (f' a).Mirrors (f a) (s'.run.run w).2) :
    Session.Mirrors (s' >>= f') (s >>= f) w := by
  unfold Session.Mirrors at hs hf ⊢
  rw [Project.run_bind, Project.run_bind, hs]
  generalize s'.run.run w = answer at hf ⊢
  obtain ⟨result, w'⟩ : Except Error α × World φ (Observed β) := answer
  cases result with
  | error e => rfl
  | ok a => exact hf a

theorem attempt (hs : s'.Mirrors s w) : s'.attempt.Mirrors s.attempt w := by
  unfold Session.Mirrors at hs ⊢
  rw [Project.attempt_run, Project.attempt_run, hs]

end Session.Mirrors

namespace Project

open Run

/-- The workers begin in the same world but for the notes. -/
theorem within_begun (verb : Verb) (o : HandleOptions) (g : DependencyGraph)
    (log : List Log.Entry) (stored : Stored φ) (w : World φ (Observed β)) :
    (begun verb o g log stored w).within = begun verb o g log stored w.within := by
  obtain ⟨⟨skip, only, update, verbose⟩, silent, workers⟩ := o
  cases silent <;> cases verbose <;> rfl

theorem within_refused (o : HandleOptions) (log : List Log.Entry) (stored : Stored φ)
    (w : World φ (Observed β)) :
    (refused o log stored w).within = refused o log stored w.within := by
  obtain ⟨selection, silent, workers⟩ := o
  cases silent <;> rfl

theorem mirrors_report (verb : Verb) (o : HandleOptions) (g : DependencyGraph)
    {pool' : Pool Stage (Shared φ (Observed β))} {pool : Pool Stage (Shared φ β)}
    (h : pool'.Mirrors Shared.within pool) (w : World φ (Observed β)) :
    (report verb o g pool').Mirrors (report verb o g pool) w := by
  unfold report
  rw [h.result, h.warnings, ← h.shared]
  cases pool.result <;> cases o.silent <;> rfl

/-- Whatever a project does with its dependencies, it does observed as well. -/
theorem mirrors_handle (p : Project φ β) (schedule : List Nat) (verb : Verb) (o : HandleOptions)
    (perform : Dependency → Task φ β Unit) (w : World φ (Observed β))
    (hp : ∀ g, (p.resolve o.selection.update w.stored).1 = .ok g → g.Hierarchy ∧ g.Laden) :
    ∃ schedule', (p.observed.handle schedule' verb o fun d =>
      (perform d).observed (.action d)).Mirrors (p.handle schedule verb o perform) w := by
  unfold Session.Mirrors
  cases hdeps : p.config.hasDependencies with
  | false =>
    refine ⟨[], ?_⟩
    rw [handle_of_none schedule verb o perform w.within hdeps,
      handle_of_none (p := p.observed) [] verb o _ w hdeps]
    rfl
  | true =>
    rcases hresolve : p.resolve o.selection.update w.stored with ⟨result, log, stored⟩
    have hresolve' : p.observed.resolve o.selection.update w.stored = (result, log, stored) :=
      hresolve
    cases result with
    | error e =>
      refine ⟨[], ?_⟩
      rw [handle_eq_refused schedule verb o perform w.within hdeps hresolve,
        handle_eq_refused (p := p.observed) [] verb o _ w hdeps hresolve', ← within_refused]
    | ok g =>
      rw [hresolve] at hp
      obtain ⟨hg, hl⟩ := hp g rfl
      obtain ⟨schedule', hwork⟩ := (p.planFor verb o perform).mirrors_work hg hl schedule
        (p.workersFor o) (begun verb o g log stored w)
      refine ⟨schedule', ?_⟩
      rw [handle_eq_report schedule verb o perform w.within hdeps hresolve,
        handle_eq_report (p := p.observed) schedule' verb o _ w hdeps hresolve', ← within_begun]
      exact mirrors_report verb o g hwork _

/-! ## Undertakings -/

theorem mirrors_fireBatch (p : Project φ β) (phase : Hook.Phase) (verb : Verb)
    (context : Dictionary) (w : World φ (Observed β)) :
    (p.observed.fireBatch phase verb context).Mirrors (p.fireBatch phase verb context) w :=
  (Routine.mirrors_noted ..).run w

/-- Batch events fire around an observed run as around the run. -/
theorem mirrors_withBatchHooks (p : Project φ β) (verb : Verb)
    {run' : Session φ (Observed β) Outcome} {run : Session φ β Outcome}
    {w : World φ (Observed β)}
    (hrun : run'.Mirrors run ((p.observed.fireBatch .before verb ∅).run.run w).2) :
    (p.observed.withBatchHooks verb run').Mirrors (p.withBatchHooks verb run) w := by
  refine (mirrors_fireBatch p .before verb ∅ w).bind fun _ => hrun.attempt.bind fun handled => ?_
  cases handled with
  | ok outcome => exact (mirrors_fireBatch ..).bind fun _ => rfl
  | error e => exact (mirrors_fireBatch ..).bind fun _ => rfl

/-- Whatever is done in an undertaking is done observed as well. -/
theorem Undertaking.mirrors_run (u : Undertaking φ β) (p : Project φ β)
    (hp : ∀ update stored g, (p.resolve update stored).1 = .ok g → g.Hierarchy ∧ g.Laden)
    (w : World φ (Observed β)) :
    ∃ schedule, ({ u with schedule }.observed.run p.observed).Mirrors (u.run p) w := by
  unfold Undertaking.run Undertaking.observed
  cases u.batched with
  | false => exact mirrors_handle p u.schedule u.verb u.options u.perform w fun g => hp _ _ g
  | true =>
    obtain ⟨schedule, hhandle⟩ := mirrors_handle p u.schedule u.verb u.options u.perform
      ((p.observed.fireBatch .before u.verb ∅).run.run w).2 fun g => hp _ _ g
    exact ⟨schedule, mirrors_withBatchHooks p u.verb hhandle⟩

end Project

end Cascade
