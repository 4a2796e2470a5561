import Cascade.Proofs.Run.Lifecycle

/-!
# Hooks that fail

A worker whose hooks fail aborts the traversal, gives its dependency back as
failed and ends with the error of the hooks.  The others finish what they are
at, and nobody takes up anything more.

There are three groups.

* After an abort.  Nothing is handed out any more (`Crew.visited_follow`).
* What a course with failing hooks comes to, what that means for the run
  (`Plan.Halted`), and which errors can be that of the run (`Plan.Blames`).
* Handling.  `handle_hook_failure` is the main result: it says how a run ends in
  which hooks have failed, whatever else has failed and however the workers
  moved.
-/

namespace Cascade

open Note (about pair)
open Relation

variable {φ β : Type}

/-! ## After an abort -/

namespace Handout.Session

/-- Once the traversal is aborted, a step hands out nothing. -/
theorem visited_next {α : Type} {s : Session α} (h : s.handout.traversal.aborted = true)
    (m : Move) : (s.next m).handout.traversal.aborted = true ∧
      (s.next m).handout.traversal.visited = s.handout.traversal.visited := by
  cases m with
  | inspect client =>
    have hsame : (s.next (.inspect client)).handout.traversal = s.handout.traversal := by
      rcases s.handout.inspect_cases client with ⟨c, t, ho, _⟩ | ⟨_, hi⟩ | ⟨_, hi⟩
      · rw [(Traversal.Ledger.offered_iff ho).1] at h
        cases h
      · simp only [next, hi]
        rfl
      · simp only [next, hi]
    rw [hsame]
    exact ⟨h, rfl⟩
  | wake client =>
    have hsame : (s.next (.wake client)).handout.traversal = s.handout.traversal := by
      show ((s.handout.wake client).getD s.handout).traversal = _
      unfold Handout.wake
      split <;> rfl
    rw [hsame]
    exact ⟨h, rfl⟩
  | release id succeeded =>
    have hsame : (s.next (.release id succeeded)).handout.traversal =
        (s.handout.traversal.release id succeeded).2 := rfl
    rw [hsame, Traversal.release_eq]
    exact ⟨h, rfl⟩
  | abort => exact ⟨rfl, rfl⟩
  | register client | leave client | notify notice => exact ⟨h, rfl⟩

end Handout.Session

namespace Run

open Traversal (Event Ledger)

namespace Crew

/-- Once the traversal is aborted, nothing is handed out any more. -/
theorem visited_follow {direction : Direction} {g : Graph Dependency} {p : Plan φ β}
    {c : Crew φ β} (hs : c.Sound direction g)
    (h : c.session.handout.traversal.aborted = true) (schedule : List Nat) :
    (c.follow p schedule).session.handout.traversal.visited =
      c.session.handout.traversal.visited := by
  have hkept := follow_induction (p := p) (P := fun c' => c'.Sound direction g ∧
      c'.session.handout.traversal.aborted = true ∧
      c'.session.handout.traversal.visited = c.session.handout.traversal.visited)
    (fun i c₁ c₂ ⟨hs, haborted, hvisited⟩ hturn => by
      refine ⟨hs.turn hturn, ?_⟩
      rcases hs.tied.session_turn hturn with heq | ⟨m, _, heq⟩
      · rw [heq]
        exact ⟨haborted, hvisited⟩
      · obtain ⟨haborted', hvisited'⟩ := Handout.Session.visited_next haborted m
        rw [heq]
        exact ⟨haborted', hvisited'.trans hvisited⟩) schedule ⟨hs, h, rfl⟩
  exact hkept.2.2

end Crew

/-! ## Courses in which hooks fail -/

namespace Plan

variable {p : Plan φ β} {d : Dependency} {own : List Note} {outcome : Except Error Unit}

/-- When hooks fail, so does the job. -/
theorem Course.isOk_of_hookError (h : p.Course d own outcome) {n : Note} (hn : n ∈ own)
    {e : Error} (he : n.hookError? = some e) : outcome.isOk = false := by
  cases h with
  | passed _ => cases hn
  | halted _ _ => rfl
  | done hprior =>
    rw [hprior.hookError?_append hn] at he
    cases he
  | failed _ => rfl

/-- When hooks fail, those after the action have not succeeded. -/
theorem Course.not_closed (h : p.Course d own outcome) {n : Note} (hn : n ∈ own) {e : Error}
    (he : n.hookError? = some e) (d' : Dependency) :
    .answer (p.announcement .after d') (.ok ()) ∉ own := by
  have hphase : p.announcement .after d' ≠ p.announcement .before d := fun heq => by
    cases phase_of_announcement heq
  have haction : p.announcement .after d' ≠ .action d := nofun
  cases h with
  | passed _ => cases hn
  | halted hprior e' =>
    cases hprior with
    | before => simp [pair]
    | after => simp [pair, hphase, haction]
    | error cause journal => simp [pair, hphase]
  | done hprior | failed hprior =>
    rw [hprior.hookError?_append hn] at he
    cases he

/-- The errors that notes blame: hooks failed with it, or it tells of an action
that failed and whose error hooks succeeded. -/
inductive Blames (p : Plan φ β) (g : DependencyGraph) (notes : List Note) : Error → Prop where
  | hooks {phase : Hook.Phase} {claim : Claim Dependency} {e : Error} (hb : g.Bears claim)
      (h : .answer (p.announcement phase claim.payload) (.error e) ∈ notes) : Blames p g notes e
  | action {claim : Claim Dependency} {cause : Error} {journal : Log.Journal}
      (hb : g.Bears claim) (haction : .answer (.action claim.payload) (.error cause) ∈ notes)
      (hhooks : .answer (p.announcement .error claim.payload) (.ok ()) ∈ notes) :
      Blames p g notes (.action p.verb.title claim.payload.name journal.content cause)

/-- What has become of a run in which hooks failed at a dependency: the
traversal is aborted, the dependency does not count as executed, and going
forward nothing above it was begun. -/
structure Halted (p : Plan φ β) (g : DependencyGraph) (notes : List Note)
    (ended : Pool Stage (Shared φ (Observed β))) (claim : Claim Dependency) : Prop where
  aborted : ended.shared.handout.traversal.aborted = true
  executed : ∀ d ∈ ended.shared.executed, d.id ≠ claim.id
  above : p.verb.direction = .forward → ∀ above, TransGen g.HasChild above claim.id →
    ∀ n ∈ notes, n.subject? ≠ some above

/-- The error in which a course ends is one to blame. -/
theorem Course.blames {g : DependencyGraph} {notes : List Note} {claim : Claim Dependency}
    {e : Error} (hb : g.Bears claim)
    (h : p.Course claim.payload (about claim.id notes) (.error e)) : p.Blames g notes e := by
  have hsub : ∀ n ∈ about claim.id notes, n ∈ notes := fun n hn => (Note.mem_about.mp hn).1
  generalize hown : about claim.id notes = own at h
  rw [hown] at hsub
  cases h with
  | @halted occasion prior _ _ =>
    have hmem : .answer (p.announcement occasion.phase claim.payload) (.error e) ∈
        prior ++ pair (p.announcement occasion.phase claim.payload) (.error e) := by simp [pair]
    exact .hooks hb (hsub _ hmem)
  | failed hprior =>
    cases hprior with
    | error cause journal => exact .action hb (hsub _ (by simp [pair])) (hsub _ (by simp [pair]))

end Plan

namespace Crew

variable {p : Plan φ β} {g : DependencyGraph} {base notes : List Note}
  {c : Crew φ (Observed β)}

/-- At the end of a run, a dependency whose hooks failed was released as failed
from an aborted traversal. -/
theorem Chronicled.released_of_hookError (hc : c.Chronicled p g base notes)
    (hs : c.Sound p.verb.direction g) (hg : g.Arranged)
    (hended : ∀ duty ∈ c.duties, ∃ failure, duty = .ended failure) {claim : Claim Dependency}
    (hb : g.Bears claim) {n : Note} (hn : n ∈ about claim.id notes) {e : Error}
    (he : n.hookError? = some e) :
    .released claim.id false ∈ c.session.history ∧ .aborted ∈ c.session.history ∧
      ∀ d ∈ c.account.executed, d.id ≠ claim.id := by
  obtain ⟨hmem, hsubject⟩ := Note.mem_about.mp hn
  obtain ⟨claim', _, _, hsubject', hout⟩ := hc.known n hmem
  rw [hsubject, Option.some.injEq] at hsubject'
  obtain ⟨outcome, hreleased, hconcluded⟩ :=
    hc.concluded_of_ended hs hg hended hb (hsubject' ▸ hout)
  rw [hconcluded.course.isOk_of_hookError hn he] at hreleased
  refine ⟨hreleased, hconcluded.aborted n hn e he, fun d hd hid => ?_⟩
  refine hconcluded.course.not_closed hn he d (Note.mem_about.mpr ⟨hc.executed d hd, ?_⟩)
  rw [← hid]
  exact p.subject?_announcement .after d

/-- A run in which something was released as failed ends with an error that the
notes blame. -/
theorem Chronicled.result_of_released (hc : c.Chronicled p g base notes) (ha : c.Assigned)
    (hb : c.Borne g) (hended : ∀ duty ∈ c.duties, ∃ failure, duty = .ended failure) {id : String}
    (h : .released id false ∈ c.session.history) :
    ∃ e, (c.pool p.observed).result = .error e ∧ p.Blames g notes e := by
  cases hresult : (c.pool p.observed).result with
  | ok _ =>
    obtain ⟨duty, hduty, hfailed⟩ := ha.failed id h
    obtain ⟨failure, rfl⟩ := hended duty hduty
    cases failure with
    | none => cases hfailed
    | some failure =>
      obtain ⟨i, hi⟩ := List.getElem?_of_mem hduty
      rw [Pool.result_eq_ok_iff] at hresult
      exact absurd (ended_error_iff.mpr ⟨_, _, hi, rfl⟩) (hresult i _)
  | error e =>
    obtain ⟨i, fault, hworker, rfl⟩ := Pool.exists_fault_of_result hresult
    obtain ⟨claim, e, hd, rfl⟩ := ended_error_iff.mp hworker
    have hmem := List.mem_of_getElem? hd
    have hconcluded : p.Concluded claim.payload (about claim.id notes) c.session.history
        (.error e) := hc.duties _ hmem
    exact ⟨e, rfl, hconcluded.course.blames (hb.duties _ hmem claim rfl)⟩

/-- However many steps are taken once the traversal is aborted, nothing is handed
out in them, and all that is noted is about what was handed out before. -/
theorem notes_of_aborted (p : Plan φ β) {g : DependencyGraph} (hg : g.Arranged) (workers : Nat)
    (w : World φ (Observed β)) (steps more : List Nat) :
    let reached (steps : List Nat) :=
      (Project.pool p.observed workers g w).follow p.observed.provider steps
    (reached steps).shared.handout.traversal.aborted = true →
      (reached (steps ++ more)).shared.handout.traversal.visited =
        (reached steps).shared.handout.traversal.visited ∧
      ∃ notes, (reached (steps ++ more)).shared.world.notes = w.notes ++ notes ∧
        ∀ n ∈ notes, ∃ id ∈ (reached steps).shared.handout.traversal.visited,
          n.subject? = some id := by
  intro reached haborted
  have hreached (steps : List Nat) : reached steps =
      ((Crew.start p.verb.direction g workers w).follow p.observed steps).pool p.observed :=
    pool_follow_start p.observed steps workers g w
  have hattested (steps : List Nat) := attested_follow p hg workers w steps
  have hvisited : (reached (steps ++ more)).shared.handout.traversal.visited =
      (reached steps).shared.handout.traversal.visited := by
    rw [hreached] at haborted
    rw [hreached, hreached, follow, List.foldl_append]
    exact visited_follow (hattested steps).toSound haborted more
  obtain ⟨notes, hchronicled⟩ := (hattested (steps ++ more)).chronicled
  refine ⟨hvisited, notes, ?_, fun n hn => ?_⟩
  · rw [hreached]
    exact hchronicled.log
  · obtain ⟨claim, _, _, hsubject, hout⟩ := hchronicled.known n hn
    refine ⟨claim.id, ?_, hsubject⟩
    have hbalanced := ((hattested (steps ++ more)).reachable.sound hg.hierarchy hg.laden).balanced
    rw [← hvisited, hreached]
    exact hbalanced.mem_visited.mpr hout

/-- However the workers move, in the end each dependency that was handed out and
is to be acted upon has run to its end.  If hooks have failed, then the run has
stopped with an error that the notes blame. -/
theorem halted_work (p : Plan φ β) {g : DependencyGraph} (hg : g.Arranged) (schedule : List Nat)
    (workers : Nat) (w : World φ (Observed β)) :
    let ended := Project.work p.observed schedule workers g w
    ended.isFinished = true ∧
    ∃ notes, ended.shared.world.notes = w.notes ++ notes ∧
      (∀ claim, g.Bears claim → p.acts claim.payload = true →
        claim.id ∈ ended.shared.handout.traversal.visited →
        ∃ outcome, p.Course claim.payload (about claim.id notes) outcome) ∧
      ∀ claim, g.Bears claim → ∀ phase e,
        .answer (p.announcement phase claim.payload) (.error e) ∈ notes →
        p.Halted g notes ended claim ∧
          ∃ e', ended.result = .error e' ∧ p.Blames g notes e' := by
  intro ended
  have hattested : (crew p.observed schedule workers g w).Attested p g w.notes :=
    attested_follow p hg workers w _
  have hended : ∀ duty ∈ (crew p.observed schedule workers g w).duties,
      ∃ failure, duty = .ended failure := fun _ =>
    ended_of_mem_crew p.observed schedule workers hg.hierarchy hg.laden w
  have hledger := hattested.reachable.sound hg.hierarchy hg.laden
  obtain ⟨notes, hc⟩ := hattested.chronicled
  have hpool : ended = (crew p.observed schedule workers g w).pool p.observed := work_eq ..
  rw [hpool]
  refine ⟨isFinished_pool p.observed hended, notes, hc.log, fun claim hb _ hvisited => ?_,
    fun claim hb phase e hn => ?_⟩
  · obtain ⟨outcome, _, hconcluded⟩ := hc.concluded_of_ended hattested.toSound hg hended hb
      (hledger.balanced.mem_visited.mp hvisited)
    exact ⟨outcome, hconcluded.course⟩
  · have hsubject : (p.announcement phase claim.payload).subject? = some claim.id := by
      rw [p.subject?_announcement, hg.keyed claim hb]
    obtain ⟨hreleased, haborted, hexecuted⟩ := hc.released_of_hookError hattested.toSound hg hended
      hb (Note.mem_about.mpr ⟨hn, hsubject⟩) rfl
    refine ⟨⟨hledger.balanced.aborted_iff.mpr haborted, hexecuted,
      fun hforward above habove n hn hid => ?_⟩,
      hc.result_of_released hattested.toAssigned hattested.toBorne hended hreleased⟩
    obtain ⟨claim', _, _, hsubject', hout⟩ := hc.known n hn
    rw [hid, Option.some.injEq] at hsubject'
    have hnot : .released claim.id true ∉
        (crew p.observed schedule workers g w).session.ledger.history := fun hdone => by
      cases hledger.balanced.released_unique hdone hreleased
    rw [hforward] at hledger
    exact hledger.not_handedOut_above hg.hierarchy.consistent hnot habove (hsubject' ▸ hout)

end Crew

end Run

/-! ## Handling -/

namespace Project

open Run

/-- Handling fails with the error of the workers. -/
theorem handle_of_failed {p : Project φ β} (schedule : List Nat) (verb : Verb)
    (o : HandleOptions) (perform : Dependency → Task φ β Unit) (w : World φ β)
    (hdeps : p.config.hasDependencies = true) {g : DependencyGraph} {log : List Log.Entry}
    {stored : Stored φ} (hresolve : p.resolve o.selection.update w.stored = (.ok g, log, stored))
    {e : Error} (hfailed : (work (p.planFor verb o perform) schedule (p.workersFor o) g
      (begun verb o g log stored w)).result = .error e) :
    ((p.handle schedule verb o perform).run.run w).1 = .error e := by
  rw [(handle_of_resolved schedule verb o perform w hdeps hresolve).1, hfailed]

/-- However the workers move: once the traversal is aborted nothing more is
handed out, and hooks and actions are about what was handed out before; nobody
stays parked; and at the end of the run, each dependency that was handed out and
is to be acted upon has run to its end.  If hooks have failed, then the run has
halted, and handling fails with an error of hooks or with that of an action whose
error hooks succeeded.  Whatever is done is done observed as well. -/
theorem handle_hook_failure {g : DependencyGraph} (hg : g.Arranged) (p : Project φ β)
    (schedule : List Nat) (verb : Verb) (o : HandleOptions)
    (perform : Dependency → Task φ β Unit) (w : World φ (Observed β))
    (hdeps : p.config.hasDependencies = true) {log : List Log.Entry} {stored : Stored φ}
    (hresolve : p.resolve o.selection.update w.stored = (.ok g, log, stored)) :
    let plan := p.planFor verb o perform
    let w₀ := begun verb o g log stored w
    let reached (steps : List Nat) :=
      (pool plan.observed (p.workersFor o) g w₀).follow plan.observed.provider steps
    let handling (steps : List Nat) := p.observed.handle steps verb o fun d =>
      (perform d).observed (.action d)
    let ended := work plan.observed schedule (p.workersFor o) g w₀
    (∃ steps, (handling steps).Mirrors (p.handle schedule verb o perform) w) ∧
    (∀ steps more, (reached steps).shared.handout.traversal.aborted = true →
      (reached (steps ++ more)).shared.handout.traversal.visited =
        (reached steps).shared.handout.traversal.visited ∧
      ∃ notes, (reached (steps ++ more)).shared.world.notes = w.notes ++ notes ∧
        ∀ n ∈ notes, ∃ id ∈ (reached steps).shared.handout.traversal.visited,
          n.subject? = some id) ∧
    (∀ steps, ((pool plan (p.workersFor o) g w₀.within).follow plan.provider steps).Stuck
        plan.provider →
      ((pool plan (p.workersFor o) g w₀.within).follow plan.provider steps).isFinished = true) ∧
    ended.isFinished = true ∧
    ∃ notes, ((handling schedule).run.run w).2.notes = w.notes ++ notes ∧
      (∀ claim, g.Bears claim → plan.acts claim.payload = true →
        claim.id ∈ ended.shared.handout.traversal.visited →
        ∃ outcome, plan.Course claim.payload (about claim.id notes) outcome) ∧
      ∀ claim, g.Bears claim → ∀ phase e,
        .answer (plan.announcement phase claim.payload) (.error e) ∈ notes →
        plan.Halted g notes ended claim ∧
          ∃ e', ((handling schedule).run.run w).1 = .error e' ∧ plan.Blames g notes e' := by
  intro plan w₀ reached handling ended
  have hbase : w₀.notes = w.notes := by
    obtain ⟨entries, hbegun⟩ := begun_eq verb o g log stored w
    show (begun verb o g log stored w).notes = _
    rw [hbegun]
    rfl
  obtain ⟨_, entries, hworld⟩ := handle_of_resolved (p := p.observed) schedule verb o
    (fun d => (perform d).observed (.action d)) w hdeps hresolve
  obtain ⟨hfinished, notes, hnotes, hcourses, hhalted⟩ :=
    Crew.halted_work plan hg schedule (p.workersFor o) w₀
  refine ⟨mirrors_handle p schedule verb o perform w fun g' h => ?_,
    fun steps more haborted => ?_,
    Crew.isFinished_of_stuck plan hg.hierarchy hg.laden _ w₀.within, hfinished, notes, ?_,
    hcourses, fun claim hb phase e hn => ?_⟩
  · rw [hresolve] at h
    cases h
    exact ⟨hg.hierarchy, hg.laden⟩
  · rw [← hbase]
    exact Crew.notes_of_aborted plan hg _ w₀ steps more haborted
  · rw [hworld, World.notes_withLog, ← hbase]
    exact hnotes
  · obtain ⟨hhalts, e', hresult, hblames⟩ := hhalted claim hb phase e hn
    exact ⟨hhalts, e', handle_of_failed schedule verb o _ w hdeps hresolve hresult, hblames⟩

/-- Two workers build the application and its library: the hooks before the
library fail, the application is never handed out, and the error of the hooks is
that of the run. -/
theorem handle_hook_failure_guarded :
    let perform : Dependency → Task MemoryFiles Unit Unit := fun _ => pure ()
    let plan := guardedTiers.planFor .build twoWorkers perform
    let handling := guardedTiers.observed.handle [0, 1, 0, 1] .build twoWorkers fun d =>
      (perform d).observed (.action d)
    let ended := work plan.observed [0, 1, 0, 1] (guardedTiers.workersFor twoWorkers) tiers
      (begun .build twoWorkers tiers [] ⟨.empty, .memory ∅⟩ unnotedWorld)
    (ended.shared.handout.traversal.visited = ["lib"] ∧
      (handling.run.run unnotedWorld).2.notes.map (fun n => (n.subject?, n.hookError?.isSome)) =
        [(some "lib", false), (some "lib", true)] ∧
      (handling.run.run unnotedWorld).1.isOk = false) ∧
    ∃ notes, (handling.run.run unnotedWorld).2.notes = [] ++ notes ∧
      ∀ claim, tiers.Bears claim → ∀ phase e,
        .answer (plan.announcement phase claim.payload) (.error e) ∈ notes →
        plan.Halted tiers notes ended claim ∧
          ∃ e', (handling.run.run unnotedWorld).1 = .error e' ∧ plan.Blames tiers notes e' := by
  intro perform plan handling ended
  obtain ⟨_, _, _, _, notes, hnotes, _, hhalted⟩ := handle_hook_failure arranged_tiers guardedTiers
    [0, 1, 0, 1] .build twoWorkers perform unnotedWorld rfl rfl
  exact ⟨⟨by decide +kernel, by decide +kernel, by decide +kernel⟩, notes, hnotes, hhalted⟩

end Project

end Cascade
