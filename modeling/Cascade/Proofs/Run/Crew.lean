import Cascade.Proofs.Pool.Finish
import Cascade.Proofs.Traversal.Session
import Cascade.Run.Node

/-!
# The workers of a run

The pool of a run knows a worker's work only as a routine that is left.  A
`Crew` is that pool with what the routine stands for written out: the post at
which each worker stands, the session in which it asks for work and gives it
back, and the deeds that were done so far.  `Crew.pool` forgets all this
again, and `pool_step` says that the steps of the crew are the steps of the
pool.

A step of a worker is one turn and whatever comes to its end with it: hooks
that have answered, an action that is over.  `Turn` and `Labour` list what
one turn can do, and `Crew.step_induction` is the way to show that something
is kept by every step.
-/

namespace Cascade.Run

open Handout (Move)
open Relation

variable {φ β : Type}

/-! ## Posts and duties -/

/-- What became of a dependency that was handed out. -/
inductive Fate (φ β : Type) where
  /-- It is not one to act upon. -/
  | passed
  /-- The hooks before the action failed. -/
  | stopped (e : Error)
  /-- The action came to its end after its steps had seen these worlds. -/
  | acted (seen : List (World φ β)) (result : Except Error Unit)

/-- A dependency that was handed out, and what became of it. -/
structure Deed (φ β : Type) where
  claim : Claim Dependency
  fate : Fate φ β

/-- An occasion on which hooks fire: before the action, after it, or after it
failed, when the job is going to fail with an error. -/
inductive Occasion where
  | before
  | after
  | error (e : Error)

/-- How far a worker's job has come. -/
inductive Post (φ β : Type) where
  /-- About to say that the dependency is skipped. -/
  | passing
  /-- This is left of the hooks. -/
  | firing (occasion : Occasion) (hooks : Routine (World φ β) (Except Error Unit))
  /-- About to note that the action begins. -/
  | beginning
  /-- This is left of the action, whose steps have seen these worlds. -/
  | acting (seen : List (World φ β))
      (left : Routine (World φ β) (Except Error Unit × Log.Journal))
  /-- About to count the dependency as executed. -/
  | entering
  /-- About to say that the action succeeded. -/
  | announcing
  /-- About to abort the traversal. -/
  | aborting (e : Error)
  /-- About to notify the others that the traversal is aborted. -/
  | warning (e : Error)
  | releasing (outcome : Except Error Unit)
  /-- About to notify the others of the release. -/
  | notifying (outcome : Except Error Unit)
  | leaving (outcome : Except Error Unit)

/-- What a worker is doing. -/
inductive Duty (φ β : Type) where
  | asking (stage : Stage)
  | working (claim : Claim Dependency) (post : Post φ β)
  /-- It ended, either for want of work or with the job that failed. -/
  | ended (failure : Option (Claim Dependency × Error))

/-- The phase of the hooks that fire. -/
def Occasion.phase : Occasion → Hook.Phase
  | .before => .before
  | .after => .after
  | .error _ => .error

/-- The post that follows when the hooks have succeeded. -/
def Occasion.next : Occasion → Post φ β
  | .before => .beginning
  | .after => .entering
  | .error e => .releasing (.error e)

namespace Plan

/-- Whether a dependency is one to act upon. -/
def acts (p : Plan φ β) (d : Dependency) : Bool :=
  p.selection.selects d.name && !p.selection.skip.contains d.name

/-- The hooks of a phase. -/
def call (p : Plan φ β) (phase : Hook.Phase) (d : Dependency) :
    Routine (World φ β) (Except Error Unit) :=
  (p.hooks (Hook.dependencyEvents phase p.verb d.name) (some d.name) (hookContext d)).run

/-- The action on a dependency, with the journal that it begins. -/
def performing (p : Plan φ β) (d : Dependency) :
    Routine (World φ β) (Except Error Unit × Log.Journal) :=
  (p.perform d).run.run (.new d.name p.selection.verbose)

/-- The occasion that the end of an action is. -/
def occasion (p : Plan φ β) (d : Dependency) : Except Error Unit × Log.Journal → Occasion
  | (.ok (), _) => .after
  | (.error cause, journal) => .error (.action p.verb.title d.name journal.content cause)

/-- The post at which a dependency is passed over. -/
def passPost (p : Plan φ β) (d : Dependency) : Post φ β :=
  if p.selection.selects d.name then .passing else .releasing (.ok ())

/-- What is logged about a dependency that is skipped. -/
def skipEntry (d : Dependency) : Log.Entry :=
  .info .manager ("Skip dependency " ++ d.name) []

/-- What is logged about an action that succeeded. -/
def doneEntry (p : Plan φ β) (d : Dependency) : Log.Entry :=
  .info .manager (p.verb.title ++ " dependency " ++ d.name ++ " completed") []

end Plan

/-- The worker stands before a step. -/
def Post.Settled : Post φ β → Prop
  | .firing _ (.done _) => False
  | .acting _ (.done _) => False
  | _ => True

/-- Whether a worker stands before a step of its own. -/
def Duty.Settled : Duty φ β → Prop
  | .working _ post => post.Settled
  | _ => True

/-! ## The routine at a post -/

/-- How a job ends. -/
def verdict : Except Error Unit → Except Fault Unit
  | .ok () => .ok ()
  | .error e => .error (.error e)

/-- Release a claim and end the job. -/
def conclude (claim : Claim Dependency) (outcome : Except Error Unit) : Job (Shared φ β) :=
  (release claim.id outcome.isOk).bind fun _ => .done (verdict outcome)

/-- Go on once the hooks have answered. -/
def hear (claim : Claim Dependency) (next : Job (Shared φ β))
    (hooks : Routine (World φ β) (Except Error Unit)) : Job (Shared φ β) :=
  (onWorld hooks).bind fun
    | .ok () => next
    | .error e => abort.bind fun _ => conclude claim (.error e)

namespace Plan

/-- What is left to do once the hooks after an action have succeeded. -/
def entered (p : Plan φ β) (claim : Claim Dependency) : Job (Shared φ β) :=
  (Routine.modify fun s => { s with executed := s.executed ++ [claim.payload] }).bind fun _ =>
    if p.silent then conclude claim (.ok ())
    else (log (p.doneEntry claim.payload)).bind fun _ => conclude claim (.ok ())

/-- What is left to do once the action is over. -/
def judged (p : Plan φ β) (claim : Claim Dependency)
    (answer : Except Error Unit × Log.Journal) : Job (Shared φ β) :=
  match p.occasion claim.payload answer with
  | .error e => hear claim (conclude claim (.error e)) (p.call .error claim.payload)
  | _ => hear claim (p.entered claim) (p.call .after claim.payload)

/-- What is left to do once the hooks before the action have succeeded. -/
def begun (p : Plan φ β) (claim : Claim Dependency) : Job (Shared φ β) :=
  (onWorld (.modify fun w => { w with started := w.started ++ [claim.payload.id] })).bind
    fun _ => (onWorld (p.performing claim.payload)).bind (p.judged claim)

/-- What is left to do once the hooks of an occasion have succeeded. -/
def onward (p : Plan φ β) (claim : Claim Dependency) : Occasion → Job (Shared φ β)
  | .before => p.begun claim
  | .after => p.entered claim
  | .error e => conclude claim (.error e)

end Plan

/-- The routine that is left at a post. -/
def Post.job (p : Plan φ β) (claim : Claim Dependency) : Post φ β → Job (Shared φ β)
  | .passing =>
    (log (Plan.skipEntry claim.payload)).bind fun _ => conclude claim (.ok ())
  | .firing occasion hooks => hear claim (p.onward claim occasion) hooks
  | .beginning => p.begun claim
  | .acting _ left => (onWorld left).bind (p.judged claim)
  | .entering => p.entered claim
  | .announcing => (log (p.doneEntry claim.payload)).bind fun _ => conclude claim (.ok ())
  | .aborting e => abort.bind fun _ => conclude claim (.error e)
  | .warning e => notify.bind fun _ => conclude claim (.error e)
  | .releasing outcome => conclude claim outcome
  | .notifying outcome => notify.bind fun _ => .done (verdict outcome)
  | .leaving outcome => .done (verdict outcome)

/-- The worker that has a duty. -/
def Duty.worker (p : Plan φ β) : Duty φ β → Worker Stage (Shared φ β)
  | .asking stage => .asking stage
  | .working claim post => .working (post.job p claim)
  | .ended none => .ended (.ok ())
  | .ended (some (_, e)) => .ended (.error (.error e))

/-- The post at which a worker takes up a claim. -/
def Plan.firstPost (p : Plan φ β) (d : Dependency) : Post φ β :=
  if p.acts d then .firing .before (p.call .before d) else p.passPost d

theorem Plan.judged_eq (p : Plan φ β) (claim : Claim Dependency)
    (answer : Except Error Unit × Log.Journal) :
    p.judged claim answer =
      hear claim (p.onward claim (p.occasion claim.payload answer))
        (p.call (p.occasion claim.payload answer).phase claim.payload) := by
  obtain ⟨result, journal⟩ := answer
  cases result <;> rfl

/-- A composition that may fail goes on only if its first part does not. -/
theorem run_bind_bind {σ α γ δ : Type} (x : ExceptT Error (Routine σ) α)
    (f : α → ExceptT Error (Routine σ) γ) (k : Except Error γ → Routine σ δ) :
    (x >>= f).run.bind k = x.run.bind fun
      | .ok a => (f a).run.bind k
      | .error e => k (.error e) := by
  rw [ExceptT.run_bind, Routine.bind_eq, Routine.bind_assoc]
  congr
  funext answer
  cases answer <;> rfl

/-- What cannot fail is not asked whether it did. -/
theorem run_lift_bind {σ α γ δ : Type} (r : Routine σ α)
    (f : α → ExceptT Error (Routine σ) γ) (k : Except Error γ → Routine σ δ) :
    (ExceptT.lift r >>= f).run.bind k = r.bind fun a => (f a).run.bind k := by
  rw [run_bind_bind, ExceptT.run_lift, map_eq_pure_bind, Routine.bind_eq, Routine.bind_assoc]
  rfl

/-- Firing hooks and going on as they answer. -/
theorem fire_bind (p : Plan φ β) (phase : Hook.Phase) (claim : Claim Dependency)
    (next : Job (Shared φ β)) :
    ((p.fire phase claim.payload).run.bind fun
      | .ok () => next
      | .error e => conclude claim (.error e)) =
    hear claim next (p.call phase claim.payload) := by
  simp only [Plan.fire, hear, Plan.call, ExceptT.run_mk, Routine.bind_eq, Routine.bind_assoc]
  congr
  funext answer
  cases answer <;> rfl

/-- Firing hooks, going on, and releasing the claim as it turns out. -/
theorem fire_bind_conclude (p : Plan φ β) (phase : Hook.Phase) (claim : Claim Dependency)
    (x : ExceptT Error (Routine (Shared φ β)) Unit) :
    (p.fire phase claim.payload >>= fun _ => x).run.bind (conclude claim) =
      hear claim (x.run.bind (conclude claim)) (p.call phase claim.payload) := by
  rw [← fire_bind, run_bind_bind]
  congr
  funext answer
  cases answer <;> rfl

/-- Acting and releasing the claim as it turns out. -/
theorem act_bind (p : Plan φ β) (claim : Claim Dependency) :
    (p.act claim.payload).run.bind (conclude claim) =
      hear claim (p.begun claim) (p.call .before claim.payload) := by
  rw [Plan.act, fire_bind_conclude]
  congr 1
  rw [run_lift_bind, Plan.begun]
  congr 1
  funext _
  rw [run_lift_bind]
  congr 1
  funext (result, journal)
  cases result with
  | error cause =>
    dsimp only
    rw [fire_bind_conclude]
    rfl
  | ok _ =>
    dsimp only
    rw [fire_bind_conclude, run_lift_bind]
    unfold Plan.judged Plan.entered
    cases p.silent <;> rfl

/-- The job of a claim is the routine at its first post. -/
theorem Plan.job_eq (p : Plan φ β) (claim : Claim Dependency) :
    p.job claim = (p.firstPost claim.payload).job p claim := by
  unfold Plan.job Plan.firstPost Plan.acts Plan.passPost
  dsimp only
  cases hsel : p.selection.selects claim.payload.name with
  | false => simp; rfl
  | true =>
    cases hskip : p.selection.skip.contains claim.payload.name with
    | true => simp; rfl
    | false =>
      simp only [Bool.not_true, Bool.not_false, Bool.and_self, Bool.false_eq_true, if_false,
        if_true, Post.job, Plan.onward]
      rw [← act_bind, Routine.bind_eq]
      congr 1
      funext answer
      cases answer <;> rfl

/-! ## Crews -/

/-- What the work of a crew has come to. -/
structure Account (φ β : Type) where
  world : World φ β
  /-- The dependencies on which the action succeeded, in order. -/
  executed : List Dependency
  deeds : List (Deed φ β)

namespace Account

/-- Change the world. -/
def within (a : Account φ β) (f : World φ β → World φ β) : Account φ β :=
  { a with world := f a.world }

/-- Add entries to the log. -/
def withLog (a : Account φ β) (entries : List Log.Entry) : Account φ β :=
  a.within (·.withLog entries)

/-- Record a deed. -/
def record (a : Account φ β) (deed : Deed φ β) : Account φ β :=
  { a with deeds := a.deeds ++ [deed] }

/-- Count a dependency as executed. -/
def enter (a : Account φ β) (d : Dependency) : Account φ β :=
  { a with executed := a.executed ++ [d] }

/-- What the workers of a pool share. -/
def shared (a : Account φ β) (h : Handout Dependency) : Shared φ β := ⟨a.world, h, a.executed⟩

end Account

/-- The workers of a run, with the session in which they ask for work. -/
structure Crew (φ β : Type) where
  account : Account φ β
  session : Handout.Session Dependency
  duties : List (Duty φ β)

/-- One turn of a job that leaves the session alone. -/
inductive Labour (p : Plan φ β) (claim : Claim Dependency) (a : Account φ β) :
    Post φ β → Account φ β → Post φ β → Prop where
  | pass : Labour p claim a .passing (a.withLog [Plan.skipEntry claim.payload])
      (.releasing (.ok ()))
  | hook (occasion update rest) : Labour p claim a (.firing occasion (.step update rest))
      (a.within update) (.firing occasion (rest a.world))
  | heard (occasion) : Labour p claim a (.firing occasion (.done (.ok ()))) a occasion.next
  | stop (e) : Labour p claim a (.firing .before (.done (.error e)))
      (a.record ⟨claim, .stopped e⟩) (.aborting e)
  | fail {occasion} (e) (h : occasion ≠ .before) :
      Labour p claim a (.firing occasion (.done (.error e))) a (.aborting e)
  | begin : Labour p claim a .beginning
      (a.within fun w => { w with started := w.started ++ [claim.payload.id] })
      (.acting [] (p.performing claim.payload))
  | act (seen update rest) : Labour p claim a (.acting seen (.step update rest))
      (a.within update) (.acting (seen ++ [a.world]) (rest a.world))
  | acted (seen answer) : Labour p claim a (.acting seen (.done answer))
      (a.record ⟨claim, .acted seen answer.1⟩)
      (.firing (p.occasion claim.payload answer)
        (p.call (p.occasion claim.payload answer).phase claim.payload))
  | enter : Labour p claim a .entering (a.enter claim.payload)
      (if p.silent then .releasing (.ok ()) else .announcing)
  | announce : Labour p claim a .announcing (a.withLog [p.doneEntry claim.payload])
      (.releasing (.ok ()))

/-- What a worker does when its job has ended. -/
def Duty.afterJob (claim : Claim Dependency) : Except Error Unit → Duty φ β
  | .ok () => .asking .outside
  | .error e => .ended (some (claim, e))

namespace Crew

/-- A crew that is about to ask for work. -/
def start (direction : Direction) (graph : Graph Dependency) (workers : Nat) (w : World φ β) :
    Crew φ β :=
  ⟨⟨w, [], []⟩, .start direction graph, List.replicate workers (.asking .outside)⟩

/-- The pool that the crew is. -/
def pool (p : Plan φ β) (c : Crew φ β) : Pool Stage (Shared φ β) :=
  ⟨c.account.shared c.session.handout, c.duties.map (·.worker p)⟩

/-- Give a worker a duty. -/
def assign (c : Crew φ β) (i : Nat) (duty : Duty φ β) : Crew φ β :=
  { c with duties := c.duties.set i duty }

/-- Take a step in the session. -/
def move (c : Crew φ β) (m : Move) : Crew φ β := { c with session := c.session.next m }

/-- What is logged when a claim is released. -/
def releaseEntries (c : Crew φ β) (id : String) (succeeded : Bool) : List Log.Entry :=
  (c.session.handout.release id succeeded).1.toList.map (unremovedEntry id)

/-- Release a claim, and log it if the node cannot be taken out. -/
def release (c : Crew φ β) (id : String) (succeeded : Bool) : Crew φ β :=
  { c with
    account := c.account.withLog (c.releaseEntries id succeeded)
    session := c.session.next (.release id succeeded) }

@[simp]
theorem session_assign (c : Crew φ β) (i : Nat) (duty : Duty φ β) :
    (c.assign i duty).session = c.session := rfl

@[simp]
theorem duties_assign (c : Crew φ β) (i : Nat) (duty : Duty φ β) :
    (c.assign i duty).duties = c.duties.set i duty := rfl

@[simp]
theorem account_assign (c : Crew φ β) (i : Nat) (duty : Duty φ β) :
    (c.assign i duty).account = c.account := rfl

@[simp]
theorem session_move (c : Crew φ β) (m : Move) : (c.move m).session = c.session.next m := rfl

@[simp]
theorem duties_move (c : Crew φ β) (m : Move) : (c.move m).duties = c.duties := rfl

@[simp]
theorem account_move (c : Crew φ β) (m : Move) : (c.move m).account = c.account := rfl

@[simp]
theorem session_release (c : Crew φ β) (id : String) (succeeded : Bool) :
    (c.release id succeeded).session = c.session.next (.release id succeeded) := rfl

@[simp]
theorem duties_release (c : Crew φ β) (id : String) (succeeded : Bool) :
    (c.release id succeeded).duties = c.duties := rfl

/-- One turn of a worker. -/
inductive Turn (p : Plan φ β) (i : Nat) (c : Crew φ β) : Crew φ β → Prop where
  | register (h : c.duties[i]? = some (.asking .outside)) :
      Turn p i c ((c.move (.register i)).assign i (.asking .registered))
  | pass {claim} (h : c.duties[i]? = some (.asking .registered))
      (ho : (c.session.handout.inspect i).1 = .claim claim) (hp : p.acts claim.payload = false) :
      Turn p i c { (c.move (.inspect i)).assign i (.working claim (p.passPost claim.payload)) with
        account := c.account.record ⟨claim, .passed⟩ }
  | take {claim} (h : c.duties[i]? = some (.asking .registered))
      (ho : (c.session.handout.inspect i).1 = .claim claim) (hp : p.acts claim.payload = true) :
      Turn p i c ((c.move (.inspect i)).assign i
        (.working claim (.firing .before (p.call .before claim.payload))))
  | park (h : c.duties[i]? = some (.asking .registered))
      (ho : (c.session.handout.inspect i).1 = .pending) :
      Turn p i c ((c.move (.inspect i)).assign i (.asking .parked))
  | exhaust (h : c.duties[i]? = some (.asking .registered))
      (ho : (c.session.handout.inspect i).1 = .exhausted) :
      Turn p i c ((c.move (.inspect i)).assign i (.ended none))
  | wake (h : c.duties[i]? = some (.asking .parked))
      (hw : c.session.handout.waiting? i = some true) :
      Turn p i c ((c.move (.wake i)).assign i (.asking .registered))
  | work {claim post account post'} (h : c.duties[i]? = some (.working claim post))
      (hl : Labour p claim c.account post account post') :
      Turn p i c { c.assign i (.working claim post') with account }
  | abort {claim e} (h : c.duties[i]? = some (.working claim (.aborting e))) :
      Turn p i c ((c.move .abort).assign i (.working claim (.warning e)))
  | warn {claim e} (h : c.duties[i]? = some (.working claim (.warning e))) :
      Turn p i c ((c.move (.notify .abort)).assign i (.working claim (.releasing (.error e))))
  | release {claim outcome} (h : c.duties[i]? = some (.working claim (.releasing outcome))) :
      Turn p i c ((c.release claim.id outcome.isOk).assign i (.working claim (.notifying outcome)))
  | notify {claim outcome} (h : c.duties[i]? = some (.working claim (.notifying outcome))) :
      Turn p i c ((c.move (.notify .release)).assign i (.working claim (.leaving outcome)))
  | leave {claim outcome} (h : c.duties[i]? = some (.working claim (.leaving outcome))) :
      Turn p i c (c.assign i (.afterJob claim outcome))

/-! ## Steps -/

/-- Where a worker stands when hooks are fired: past them if they have
answered. -/
def hearing (claim : Claim Dependency) (a : Account φ β) (occasion : Occasion) :
    Routine (World φ β) (Except Error Unit) → Account φ β × Post φ β
  | .done (.ok ()) => (a, occasion.next)
  | .done (.error e) =>
    match occasion with
    | .before => (a.record ⟨claim, .stopped e⟩, .aborting e)
    | _ => (a, .aborting e)
  | hooks => (a, .firing occasion hooks)

/-- Go past hooks that have answered and an action that is over. -/
def settle (p : Plan φ β) (claim : Claim Dependency) (a : Account φ β) :
    Post φ β → Account φ β × Post φ β
  | .firing occasion hooks => hearing claim a occasion hooks
  | .acting seen (.done answer) =>
    let occasion := p.occasion claim.payload answer
    hearing claim (a.record ⟨claim, .acted seen answer.1⟩) occasion
      (p.call occasion.phase claim.payload)
  | post => (a, post)

/-- The step of a job that leaves the session alone. -/
def labour (p : Plan φ β) (claim : Claim Dependency) (a : Account φ β) :
    Post φ β → Option (Account φ β × Post φ β)
  | .passing => some (a.withLog [Plan.skipEntry claim.payload], .releasing (.ok ()))
  | .firing occasion (.step update rest) =>
    some (a.within update, .firing occasion (rest a.world))
  | .beginning =>
    some (a.within fun w => { w with started := w.started ++ [claim.payload.id] },
      .acting [] (p.performing claim.payload))
  | .acting seen (.step update rest) =>
    some (a.within update, .acting (seen ++ [a.world]) (rest a.world))
  | .entering =>
    some (a.enter claim.payload, if p.silent then .releasing (.ok ()) else .announcing)
  | .announcing => some (a.withLog [p.doneEntry claim.payload], .releasing (.ok ()))
  | _ => none

/-- Let a worker stand at a post, or past it. -/
def stand (p : Plan φ β) (c : Crew φ β) (i : Nat) (claim : Claim Dependency) (post : Post φ β) :
    Crew φ β :=
  { c.assign i (.working claim (settle p claim c.account post).2) with
    account := (settle p claim c.account post).1 }

/-- Let a worker take up a claim. -/
def takeUp (p : Plan φ β) (c : Crew φ β) (i : Nat) (claim : Claim Dependency) : Crew φ β :=
  if p.acts claim.payload then
    c.stand p i claim (.firing .before (p.call .before claim.payload))
  else
    { c.assign i (.working claim (p.passPost claim.payload)) with
      account := c.account.record ⟨claim, .passed⟩ }

/-- One atomic step of a worker.  There is none when it has ended or has to
wait. -/
def step (p : Plan φ β) (c : Crew φ β) (i : Nat) : Option (Crew φ β) :=
  match c.duties[i]? with
  | some (.asking .outside) => some ((c.move (.register i)).assign i (.asking .registered))
  | some (.asking .registered) =>
    match (c.session.handout.inspect i).1 with
    | .claim claim => some ((c.move (.inspect i)).takeUp p i claim)
    | .pending => some ((c.move (.inspect i)).assign i (.asking .parked))
    | .exhausted => some ((c.move (.inspect i)).assign i (.ended none))
  | some (.asking .parked) =>
    if c.session.handout.waiting? i = some true then
      some ((c.move (.wake i)).assign i (.asking .registered))
    else none
  | some (.working claim (.aborting e)) =>
    some ((c.move .abort).assign i (.working claim (.warning e)))
  | some (.working claim (.warning e)) =>
    some ((c.move (.notify .abort)).assign i (.working claim (.releasing (.error e))))
  | some (.working claim (.releasing outcome)) =>
    some ((c.release claim.id outcome.isOk).assign i (.working claim (.notifying outcome)))
  | some (.working claim (.notifying outcome)) =>
    some ((c.move (.notify .release)).assign i (.working claim (.leaving outcome)))
  | some (.working claim (.leaving outcome)) => some (c.assign i (.afterJob claim outcome))
  | some (.working claim post) =>
    (labour p claim c.account post).map fun (account, post) =>
      { c with account }.stand p i claim post
  | some (.ended _) | none => none

/-- Take one step of each worker that a schedule names, in its order.  A
worker that cannot move is passed over. -/
def follow (p : Plan φ β) (c : Crew φ β) (schedule : List Nat) : Crew φ β :=
  schedule.foldl (fun c i => (c.step p i).getD c) c

/-! ## The crew is the pool -/

@[simp]
theorem follow_nil (p : Plan φ β) (c : Crew φ β) : c.follow p [] = c := rfl

@[simp]
theorem follow_cons (p : Plan φ β) (c : Crew φ β) (i : Nat) (schedule : List Nat) :
    c.follow p (i :: schedule) = ((c.step p i).getD c).follow p schedule := rfl

/-- Letting a worker stand past hooks that have answered changes neither what
is left for it to do nor what the pool shares. -/
theorem hearing_spec (p : Plan φ β) (claim : Claim Dependency) (a : Account φ β)
    (occasion : Occasion) (hooks : Routine (World φ β) (Except Error Unit)) :
    (hearing claim a occasion hooks).2.Settled ∧
      (hearing claim a occasion hooks).2.job p claim =
        hear claim (p.onward claim occasion) hooks ∧
      ∀ h, (hearing claim a occasion hooks).1.shared h = a.shared h := by
  cases hooks with
  | step update rest => exact ⟨trivial, rfl, fun _ => rfl⟩
  | done answer =>
    cases answer with
    | ok _ => cases occasion <;> exact ⟨trivial, rfl, fun _ => rfl⟩
    | error e => cases occasion <;> exact ⟨trivial, rfl, fun _ => rfl⟩

theorem settle_spec (p : Plan φ β) (claim : Claim Dependency) (a : Account φ β)
    (post : Post φ β) :
    (settle p claim a post).2.Settled ∧
      (settle p claim a post).2.job p claim = post.job p claim ∧
      ∀ h, (settle p claim a post).1.shared h = a.shared h := by
  cases post with
  | firing occasion hooks => exact hearing_spec p claim a occasion hooks
  | acting seen left =>
    cases left with
    | step update rest => exact ⟨trivial, rfl, fun _ => rfl⟩
    | done answer =>
      obtain ⟨hsettled, hjob, hshared⟩ := hearing_spec p claim
        (a.record ⟨claim, .acted seen answer.1⟩) (p.occasion claim.payload answer)
        (p.call (p.occasion claim.payload answer).phase claim.payload)
      refine ⟨hsettled, ?_, hshared⟩
      show _ = p.judged claim answer
      rw [Plan.judged_eq]
      exact hjob
  | _ => exact ⟨trivial, rfl, fun _ => rfl⟩

/-- A step of a job is the first step of the routine that is left. -/
theorem labour_job {p : Plan φ β} {claim : Claim Dependency} {a a' : Account φ β}
    {post post' : Post φ β} (h : labour p claim a post = some (a', post')) :
    ∃ update rest, post.job p claim = .step update rest ∧
      ∀ h, update (a.shared h) = a'.shared h ∧ rest (a.shared h) = post'.job p claim := by
  cases post with
  | firing occasion hooks =>
    cases hooks with
    | done answer => cases h
    | step update rest =>
      cases h
      exact ⟨_, _, rfl, fun _ => ⟨rfl, rfl⟩⟩
  | acting seen left =>
    cases left with
    | done answer => cases h
    | step update rest =>
      cases h
      exact ⟨_, _, rfl, fun _ => ⟨rfl, rfl⟩⟩
  | entering =>
    cases h
    refine ⟨_, _, rfl, fun _ => ⟨rfl, ?_⟩⟩
    cases p.silent <;> rfl
  | passing | beginning | announcing =>
    cases h
    exact ⟨_, _, rfl, fun _ => ⟨rfl, rfl⟩⟩
  | _ => cases h

/-- Every worker stands before a step. -/
def Settled (c : Crew φ β) : Prop := ∀ duty ∈ c.duties, duty.Settled

theorem pool_assign (p : Plan φ β) (c : Crew φ β) (i : Nat) (duty : Duty φ β) :
    (c.assign i duty).pool p =
      ⟨c.account.shared c.session.handout, (c.duties.map (·.worker p)).set i (duty.worker p)⟩ := by
  simp [pool, assign, List.map_set]

theorem pool_stand (p : Plan φ β) (c : Crew φ β) (i : Nat) (claim : Claim Dependency)
    (post : Post φ β) :
    (c.stand p i claim post).pool p = (c.assign i (.working claim post)).pool p := by
  obtain ⟨_, hjob, hshared⟩ := settle_spec p claim c.account post
  simp only [stand, pool, assign, List.map_set, Duty.worker, hjob, hshared]

theorem pool_takeUp (p : Plan φ β) (c : Crew φ β) (i : Nat) (claim : Claim Dependency) :
    (c.takeUp p i claim).pool p =
      (c.assign i (.working claim (p.firstPost claim.payload))).pool p := by
  unfold takeUp Plan.firstPost
  split
  · exact pool_stand ..
  · rfl

theorem handout_inspect (s : Handout.Session Dependency) (i : Nat) :
    (s.next (.inspect i)).handout = (s.handout.inspect i).2 := by
  rcases s.handout.inspect_cases i with ⟨c, t, _, hi⟩ | ⟨_, hi⟩ | ⟨_, hi⟩ <;>
    simp only [Handout.Session.next, hi]

theorem handout_wake {s : Handout.Session Dependency} {i : Nat}
    (hw : s.handout.waiting? i = some true) :
    s.handout.wake i = some (s.next (.wake i)).handout := by
  simp only [Handout.Session.next, Handout.wake_eq_some hw, Option.getD_some]

theorem workers_pool (p : Plan φ β) (c : Crew φ β) (i : Nat) :
    (c.pool p).workers[i]? = (c.duties[i]?).map (·.worker p) := by
  simp [pool]

/-- The workers of the pool that met an error are those of the crew whose job
failed. -/
theorem ended_error_iff {p : Plan φ β} {c : Crew φ β} {i : Nat} {fault : Fault} :
    (c.pool p).workers[i]? = some (.ended (.error fault)) ↔
      ∃ claim e, c.duties[i]? = some (.ended (some (claim, e))) ∧ fault = .error e := by
  rw [workers_pool]
  constructor
  · intro h
    obtain ⟨duty, hd, hworker⟩ := Option.map_eq_some_iff.mp h
    cases duty with
    | asking stage => cases hworker
    | working claim post => cases hworker
    | ended failure =>
      cases failure with
      | none => cases hworker
      | some failure =>
        cases hworker
        exact ⟨failure.1, failure.2, hd, rfl⟩
  · rintro ⟨claim, e, hd, rfl⟩
    rw [hd]
    rfl

/-- A step of a job that leaves the session alone is a step of the pool. -/
theorem pool_step_labour {p : Plan φ β} {c : Crew φ β} {i : Nat} {claim : Claim Dependency}
    {post post' : Post φ β} {account : Account φ β}
    (hd : c.duties[i]? = some (.working claim post))
    (hl : labour p claim c.account post = some (account, post')) :
    (c.pool p).step p.provider i =
      some (({ c with account }.stand p i claim post').pool p) := by
  obtain ⟨update, rest, hjob, hnext⟩ := labour_job hl
  obtain ⟨hupdate, hrest⟩ := hnext c.session.handout
  unfold Pool.step
  rw [workers_pool, hd, pool_stand, pool_assign]
  simp only [Option.map_some, Duty.worker, hjob]
  rw [← hrest, ← hupdate]
  rfl

/-- A worker that asks takes the same step in the pool. -/
theorem pool_step_asking (p : Plan φ β) {c : Crew φ β} {i : Nat} {stage : Stage}
    (hd : c.duties[i]? = some (.asking stage)) :
    (c.pool p).step p.provider i = (c.step p i).map (·.pool p) := by
  unfold Pool.step
  rw [workers_pool, hd]
  cases stage with
  | outside =>
    simp only [step, hd, Option.map_some, pool_assign]
    rfl
  | registered =>
    have hshared : (c.pool p).shared.handout.inspect i =
        ((c.session.handout.inspect i).1, (c.session.next (.inspect i)).handout) := by
      rw [handout_inspect]
      rfl
    simp only [step, hd, Option.map_some, Duty.worker, Plan.provider, hshared]
    cases ho : (c.session.handout.inspect i).1 with
    | claim claim =>
      simp only [Option.map_some, pool_takeUp, pool_assign, Worker.ofProgress, Plan.job_eq]
      rfl
    | pending =>
      simp only [Option.map_some, pool_assign]
      rfl
    | exhausted =>
      simp only [Option.map_some, pool_assign]
      rfl
  | parked =>
    simp only [step, hd, Option.map_some, Duty.worker, Plan.provider]
    by_cases hw : c.session.handout.waiting? i = some true
    · have hwake : (c.pool p).shared.handout.wake i =
          some (c.session.next (.wake i)).handout := handout_wake hw
      simp only [hw, hwake, Option.map_some, if_true, pool_assign]
      rfl
    · have hwake : (c.pool p).shared.handout.wake i = none := Handout.wake_eq_none hw
      simp only [hw, hwake, Option.map_none, if_false]

/-- The steps of a crew are those of the pool. -/
theorem pool_step (p : Plan φ β) {c : Crew φ β} (hc : c.Settled) (i : Nat) :
    (c.pool p).step p.provider i = (c.step p i).map (·.pool p) := by
  cases hd : c.duties[i]? with
  | none =>
    unfold Pool.step
    simp [workers_pool, step, hd]
  | some duty =>
    cases duty with
    | asking stage => exact pool_step_asking p hd
    | ended failure =>
      unfold Pool.step
      cases failure <;> simp [workers_pool, step, hd, Duty.worker]
    | working claim post =>
      have hsettled : post.Settled := hc _ (List.mem_of_getElem? hd)
      cases post with
      | aborting _ | warning _ | releasing _ | notifying _ =>
        unfold Pool.step
        simp only [workers_pool, step, hd, Option.map_some, pool_assign, Duty.worker, Post.job]
        rfl
      | leaving outcome =>
        unfold Pool.step
        simp only [workers_pool, step, hd, Option.map_some, pool_assign]
        cases outcome <;> rfl
      | firing occasion hooks =>
        cases hooks with
        | done answer => exact hsettled.elim
        | step update rest =>
          rw [pool_step_labour hd rfl]
          simp [step, hd, labour]
      | acting seen left =>
        cases left with
        | done answer => exact hsettled.elim
        | step update rest =>
          rw [pool_step_labour hd rfl]
          simp [step, hd, labour]
      | passing | beginning | entering | announcing =>
        rw [pool_step_labour hd rfl]
        simp [step, hd, labour]

/-! ## Turns -/

theorem assign_self {c : Crew φ β} {i : Nat} {duty : Duty φ β} (h : c.duties[i]? = some duty) :
    c.assign i duty = c := by
  obtain ⟨hi, hget⟩ := List.getElem?_eq_some_iff.mp h
  unfold assign
  rw [← hget, List.set_getElem_self]

theorem assign_assign (c : Crew φ β) (i : Nat) (duty duty' : Duty φ β) :
    (c.assign i duty).assign i duty' = c.assign i duty' := by
  simp only [assign, List.set_set]

/-- Going past hooks that have answered is a turn. -/
theorem turns_hearing (p : Plan φ β) {c : Crew φ β} {i : Nat} {claim : Claim Dependency}
    {occasion : Occasion} {hooks : Routine (World φ β) (Except Error Unit)}
    (h : c.duties[i]? = some (.working claim (.firing occasion hooks))) :
    ReflTransGen (Turn p i) c
      { c.assign i (.working claim (hearing claim c.account occasion hooks).2) with
        account := (hearing claim c.account occasion hooks).1 } := by
  cases hooks with
  | step update rest =>
    have hself : c.assign i (.working claim (.firing occasion (.step update rest))) = c :=
      assign_self h
    simp only [hearing, hself]
    exact .refl
  | done answer =>
    refine .single (.work h ?_)
    cases answer with
    | ok _ => exact .heard occasion
    | error e =>
      cases occasion with
      | before => exact .stop e
      | after => exact .fail e nofun
      | error cause => exact .fail e nofun

/-- Letting a worker stand past what has come to its end takes turns of this
worker alone. -/
theorem turns_stand (p : Plan φ β) {c : Crew φ β} {i : Nat} (hi : i < c.duties.length)
    (claim : Claim Dependency) (post : Post φ β) :
    ReflTransGen (Turn p i) (c.assign i (.working claim post)) (c.stand p i claim post) := by
  have hduty (post' : Post φ β) :
      (c.assign i (.working claim post')).duties[i]? = some (.working claim post') := by
    simp [hi]
  cases post with
  | firing occasion hooks =>
    have hturns := turns_hearing p (hduty (.firing occasion hooks))
    rw [assign_assign] at hturns
    exact hturns
  | acting seen left =>
    cases left with
    | step update rest => exact .refl
    | done answer =>
      have hacted := Turn.work (hduty (.acting seen (.done answer))) (.acted (p := p) seen answer)
      rw [assign_assign] at hacted
      refine .head hacted ?_
      have hturns := turns_hearing p (c := { c.assign i (.working claim (.firing _ _)) with
        account := c.account.record ⟨claim, .acted seen answer.1⟩ })
        (hduty (.firing (p.occasion claim.payload answer)
          (p.call (p.occasion claim.payload answer).phase claim.payload)))
      simp only [assign, List.set_set] at hturns
      exact hturns
  | _ => exact .refl

theorem labour_sound {p : Plan φ β} {claim : Claim Dependency} {a a' : Account φ β}
    {post post' : Post φ β} (h : labour p claim a post = some (a', post')) :
    Labour p claim a post a' post' := by
  cases post with
  | firing occasion hooks =>
    cases hooks with
    | done answer => cases h
    | step update rest =>
      cases h
      exact .hook ..
  | acting seen left =>
    cases left with
    | done answer => cases h
    | step update rest =>
      cases h
      exact .act ..
  | passing =>
    cases h
    exact .pass
  | beginning =>
    cases h
    exact .begin
  | entering =>
    cases h
    exact .enter
  | announcing =>
    cases h
    exact .announce
  | _ => cases h

/-- A step of a worker is one turn that leaves it before its next step, or
one after which the worker goes past what has come to its end. -/
theorem step_cases {p : Plan φ β} {c c' : Crew φ β} {i : Nat} (h : c.step p i = some c') :
    (∃ duty : Duty φ β, duty.Settled ∧ c'.duties = c.duties.set i duty ∧ Turn p i c c') ∨
    ∃ (c₁ : Crew φ β) (claim : Claim Dependency) (post : Post φ β),
      c₁.duties = c.duties ∧ c' = c₁.stand p i claim post ∧
      Turn p i c (c₁.assign i (.working claim post)) := by
  unfold step at h
  split at h
  · rename_i hd
    cases h
    exact Or.inl ⟨.asking .registered, trivial, rfl, .register hd⟩
  · rename_i hd
    split at h
    · rename_i claim ho
      cases h
      unfold takeUp
      split
      · rename_i hp
        exact Or.inr ⟨c.move (.inspect i), claim, _, rfl, rfl, .take hd ho hp⟩
      · rename_i hp
        refine Or.inl ⟨.working claim (p.passPost claim.payload), ?_, rfl,
        .pass hd ho (by simpa using hp)⟩
        unfold Plan.passPost
        split <;> trivial
    · rename_i ho
      cases h
      exact Or.inl ⟨.asking .parked, trivial, rfl, .park hd ho⟩
    · rename_i ho
      cases h
      exact Or.inl ⟨.ended none, trivial, rfl, .exhaust hd ho⟩
  · rename_i hd
    split at h
    · rename_i hw
      cases h
      exact Or.inl ⟨.asking .registered, trivial, rfl, .wake hd hw⟩
    · cases h
  · rename_i hd
    cases h
    exact Or.inl ⟨.working _ (.warning _), trivial, rfl, .abort hd⟩
  · rename_i hd
    cases h
    exact Or.inl ⟨.working _ (.releasing _), trivial, rfl, .warn hd⟩
  · rename_i hd
    cases h
    exact Or.inl ⟨.working _ (.notifying _), trivial, rfl, .release hd⟩
  · rename_i hd
    cases h
    exact Or.inl ⟨.working _ (.leaving _), trivial, rfl, .notify hd⟩
  · rename_i claim outcome hd
    cases h
    refine Or.inl ⟨.afterJob claim outcome, ?_, rfl, .leave hd⟩
    cases outcome <;> trivial
  · rename_i claim post _ _ _ _ _ hd
    obtain ⟨⟨account, post'⟩, hl, rfl⟩ := Option.map_eq_some_iff.mp h
    exact Or.inr ⟨{ c with account }, claim, post', rfl, rfl, .work hd (labour_sound hl)⟩
  · cases h
  · cases h

theorem lt_length_of_step {p : Plan φ β} {c c' : Crew φ β} {i : Nat}
    (h : c.step p i = some c') : i < c.duties.length := by
  by_contra hi
  have hnone : c.duties[i]? = none := by simp; omega
  simp [step, hnone] at h

/-- A step of a worker is made of turns of this worker. -/
theorem turns_of_step {p : Plan φ β} {c c' : Crew φ β} {i : Nat} (h : c.step p i = some c') :
    ReflTransGen (Turn p i) c c' := by
  rcases step_cases h with ⟨_, _, _, hturn⟩ | ⟨c₁, claim, post, hduties, rfl, hturn⟩
  · exact .single hturn
  · exact .head hturn (turns_stand p (hduties ▸ lt_length_of_step h) claim post)

/-- What every turn keeps is kept by every step. -/
theorem step_induction {p : Plan φ β} {P : Crew φ β → Prop}
    (hturn : ∀ i c c', P c → Turn p i c c' → P c') {c c' : Crew φ β} {i : Nat} (hc : P c)
    (h : c.step p i = some c') : P c' := by
  have hturns := turns_of_step h
  clear h
  induction hturns with
  | refl => exact hc
  | tail _ hlast ih => exact hturn _ _ _ ih hlast

/-- What every turn keeps holds after any schedule. -/
theorem follow_induction {p : Plan φ β} {P : Crew φ β → Prop}
    (hturn : ∀ i c c', P c → Turn p i c c' → P c') (schedule : List Nat) {c : Crew φ β}
    (hc : P c) : P (c.follow p schedule) := by
  induction schedule generalizing c with
  | nil => exact hc
  | cons i rest ih =>
    rw [follow_cons]
    cases hstep : c.step p i with
    | none => exact ih hc
    | some c' => exact ih (step_induction hturn hc hstep)

theorem length_turn {p : Plan φ β} {c c' : Crew φ β} {i : Nat} (h : Turn p i c c') :
    c'.duties.length = c.duties.length := by
  cases h <;> simp

/-- No worker is hired or dismissed. -/
theorem length_follow (p : Plan φ β) (c : Crew φ β) (schedule : List Nat) :
    (c.follow p schedule).duties.length = c.duties.length :=
  follow_induction (P := fun c' => c'.duties.length = c.duties.length)
    (fun _ _ _ hc h => (length_turn h).trans hc) schedule rfl

/-! ## Runs -/

theorem settled_start (direction : Direction) (graph : Graph Dependency) (workers : Nat)
    (w : World φ β) : (start direction graph workers w).Settled := by
  intro duty h
  cases List.eq_of_mem_replicate h
  trivial

/-- After a step every worker stands before a step again. -/
theorem Settled.step {p : Plan φ β} {c c' : Crew φ β} {i : Nat} (hc : c.Settled)
    (h : c.step p i = some c') : c'.Settled := by
  have hset (duty : Duty φ β) (hduty : duty.Settled) :
      ∀ d ∈ c.duties.set i duty, d.Settled := by
    intro d hd
    rcases List.mem_or_eq_of_mem_set hd with hold | rfl
    · exact hc d hold
    · exact hduty
  rcases step_cases h with ⟨duty, hduty, hduties, _⟩ | ⟨c₁, claim, post, hduties, rfl, _⟩
  · rw [Settled, hduties]
    exact hset duty hduty
  · show ∀ d ∈ c₁.duties.set i _, d.Settled
    rw [hduties]
    exact hset _ (settle_spec p claim c₁.account post).1

/-- A run of a crew is a run of its pool. -/
theorem pool_follow (p : Plan φ β) {c : Crew φ β} (hc : c.Settled) (schedule : List Nat) :
    (c.pool p).follow p.provider schedule = (c.follow p schedule).pool p ∧
      (c.follow p schedule).Settled := by
  induction schedule generalizing c with
  | nil => exact ⟨rfl, hc⟩
  | cons i rest ih =>
    rw [Pool.follow_cons, follow_cons, pool_step p hc]
    cases hstep : c.step p i with
    | none => exact ih hc
    | some c' => exact ih (hc.step hstep)

end Crew

end Cascade.Run
