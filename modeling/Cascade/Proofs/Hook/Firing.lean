import Cascade.Proofs.Hook.Event
import Cascade.Proofs.Pool.Routine
import Cascade.Run.Node
import Cascade.Script.Hooks
import Mathlib.Data.List.Forall2

/-!
# Which commands run when hooks fire

Of the entries of a project, those wait for a trigger that list one of its events.  When it
fires, their commands run in order, up to the first that does not succeed, and each is told
the most specific event that its entry lists (`hooks_fire`).  This is seen on hooks that keep
what they call, and that do nothing else than the hooks themselves (`HookSetting.recording`).

A command is told the event in a variable.  The context is told in variables as well, and
one of these may take the place of the event (`event_overridden`).
-/

namespace Cascade

variable {φ β : Type}

/-- An effect goes on unless it fails. -/
theorem Effect.run_bind {α γ : Type} (e : Effect φ β α) (f : α → Effect φ β γ) (w : World φ β) :
    (e >>= f).run.run w = match e.run.run w with
      | (.ok a, w) => (f a).run.run w
      | (.error failure, w) => (.error failure, w) := by
  change (e.run.bind (ExceptT.bindCont f)).run w = _
  rw [Routine.run_bind]
  rcases e.run.run w with ⟨result, w'⟩
  cases result <;> rfl

/-! ## Waiting for events -/

namespace Hook

/-- The entries that list an event of a trigger. -/
def Trigger.waiting (t : Trigger) (entries : List HookEntry) : List HookEntry :=
  entries.filter fun entry => entry.events.any t.events.contains

/-- Of the events of a trigger, this is the most specific one that an entry lists. -/
def Trigger.MostSpecific (t : Trigger) (entry : HookEntry) (event : String) : Prop :=
  ∃ before after, t.events = before ++ event :: after ∧ event ∈ entry.events ∧
    ∀ other ∈ before, other ∉ entry.events

/-- No part of a context is told in the variable of the event. -/
def SparesEvent (context : Dictionary) : Prop :=
  ∀ key ∈ context, variableName key ≠ "DEPDAG_EVENT"

theorem mostSpecific_of_firedFor? {t : Trigger} {entry : HookEntry} {event : String}
    (h : firedFor? entry t.events = some event) : t.MostSpecific entry event := by
  obtain ⟨hevent, before, after, heq, hbefore⟩ := List.find?_eq_some_iff_append.mp h
  refine ⟨before, after, heq, List.contains_iff_mem.mp hevent, fun other hother hlisted => ?_⟩
  have hnot := hbefore other hother
  rw [List.contains_iff_mem.mpr hlisted] at hnot
  cases hnot

/-- An entry fires if it lists an event of the trigger. -/
theorem isSome_firedFor? (entry : HookEntry) (events : List String) :
    (firedFor? entry events).isSome = entry.events.any events.contains := by
  rw [Bool.eq_iff_iff, firedFor?, List.find?_isSome, List.any_eq_true]
  simp only [List.contains_iff_mem]
  exact ⟨fun ⟨event, hfired, hlisted⟩ => ⟨event, hlisted, hfired⟩,
    fun ⟨event, hlisted, hfired⟩ => ⟨event, hfired, hlisted⟩⟩

theorem map_fst_firings (t : Trigger) (entries : List HookEntry) :
    (firings entries t.events).map Prod.fst = t.waiting entries := by
  induction entries with
  | nil => rfl
  | cons entry entries ih =>
    have hwaits := isSome_firedFor? entry t.events
    unfold firings Trigger.waiting at ih ⊢
    rw [List.filterMap_cons, List.filter_cons, ← hwaits]
    cases firedFor? entry t.events with
    | none => exact ih
    | some event => exact congrArg (entry :: ·) ih

theorem mostSpecific_of_mem_firings {t : Trigger} {entries : List HookEntry}
    {firing : HookEntry × String} (h : firing ∈ firings entries t.events) :
    t.MostSpecific firing.1 firing.2 := by
  obtain ⟨entry, _, hfired⟩ := List.mem_filterMap.mp h
  obtain ⟨event, hevent, rfl⟩ := Option.map_eq_some_iff.mp hfired
  exact mostSpecific_of_firedFor? hevent

end Hook

namespace Script

/-! ## Recording what is called -/

/-- The value of a variable for the script that is called. -/
def Call.value? (c : Call) (name : String) : Option String :=
  (c.environment.filter (·.1 = name)).getLast?.map (·.2)

/-- Something that was called, and what came of it. -/
structure Served where
  call : Call
  result : Except Failure Ended

/-- Whether a script ran to its end, and with success. -/
def Served.succeeded (s : Served) : Bool :=
  match s.result with
  | .ok ended => ended.code = 0
  | .error _ => false

/-- A shell that keeps what it is called for. -/
def Runner.recording (runner : Runner φ) : Runner (φ × List Served) := fun call files =>
  let (result, files') := runner call files.1
  (result, files', files.2 ++ [⟨call, result⟩])

/-- The world without what was kept. -/
def forget (w : World (φ × List Served) β) : World φ β :=
  { w with stored := ⟨w.stored.files.1, w.stored.store⟩ }

namespace HookSetting

/-- The hooks that keep what they call. -/
def recording (h : HookSetting φ) : HookSetting (φ × List Served) :=
  ⟨h.runner.recording, h.directory, h.entries⟩

/-- How the command of an entry is called. -/
def callOf (h : HookSetting φ) (dependency : Option String) (context : Dictionary)
    (firing : HookEntry × String) : Call :=
  ⟨firing.1.command, h.directory, Hook.environment firing.2 dependency context⟩

/-- What follows a call sees the files that it leaves. -/
theorem run_bind_run {α : Type} (runner : Runner φ) (call : Call)
    (f : Except Failure Ended → Effect φ Console α) (w : World φ Console) :
    (run runner call >>= f : Effect φ Console α).run.run w =
      (f (runner call w.stored.files).1).run.run
        { w with stored := { w.stored with files := (runner call w.stored.files).2 } } := by
  rw [Effect.run_bind]
  rfl

/-- What hooks answer that come to an end with the command of an entry. -/
def verdict (firing : HookEntry × String) : Except Failure Ended → Except Error Unit
  | .error failure =>
    .error (.other (failure.within ("spawning hook '" ++ firing.1.command ++ "'")))
  | .ok ended =>
    if ended.code = 0 then .ok () else .error (failed firing.2 firing.1.command ended.code)

/-- The world after the command of an entry, given what the shell answers to it. -/
def afterEntry (firing : HookEntry × String) (w : World φ Console)
    (answer : Except Failure Ended × φ) : World φ Console :=
  let w' := { w.withLog [startEntry firing.2 firing.1.command] with
    stored := { w.stored with files := answer.2 } }
  match answer.1 with
  | .error _ => w'
  | .ok ended => ((passOn ended).run.run w').2

theorem files_afterEntry (firing : HookEntry × String) (w : World φ Console)
    (answer : Except Failure Ended × φ) :
    (afterEntry firing w answer).stored.files = answer.2 := by
  rcases answer with ⟨result, files⟩
  cases result <;> rfl

theorem forget_afterEntry (firing : HookEntry × String) (w : World (φ × List Served) Console)
    (answer : Except Failure Ended × φ) (served : List Served) :
    forget (afterEntry firing w (answer.1, answer.2, served)) =
      afterEntry firing (forget w) answer := by
  rcases answer with ⟨result, files⟩
  cases result <;> rfl

variable (h : HookSetting φ) (dependency : Option String) (context : Dictionary)

/-- The command of an entry is called once, and settles the answer. -/
theorem runEntry_run (firing : HookEntry × String) (w : World φ Console) :
    (h.runEntry dependency context firing.1 firing.2).run.run w =
      (verdict firing (h.runner (h.callOf dependency context firing) w.stored.files).1,
        afterEntry firing w (h.runner (h.callOf dependency context firing) w.stored.files)) := by
  unfold runEntry
  have hfiles : (w.withLog [startEntry firing.2 firing.1.command]).stored = w.stored := rfl
  rw [Effect.run_bind]
  change (run h.runner (h.callOf dependency context firing) >>= _ :
    Effect φ Console Unit).run.run (w.withLog [startEntry firing.2 firing.1.command]) = _
  rw [run_bind_run, hfiles]
  generalize h.runner (h.callOf dependency context firing) w.stored.files = answer
  rcases answer with ⟨result, files⟩
  cases result with
  | error failure => rfl
  | ok ended =>
    dsimp only
    rw [Effect.run_bind]
    by_cases hcode : ended.code = 0
    · rw [verdict, if_pos hcode, if_neg (not_not_intro hcode)]
      rfl
    · rw [verdict, if_neg hcode, if_pos hcode]
      rfl

/-- Hooks that keep what they call add one call, and do what the hooks do. -/
theorem runEntry_recording (firing : HookEntry × String) (w : World (φ × List Served) Console) :
    ∃ s w', s.call = h.callOf dependency context firing ∧
      w'.stored.files.2 = w.stored.files.2 ++ [s] ∧
      (h.recording.runEntry dependency context firing.1 firing.2).run.run w =
        (verdict firing s.result, w') ∧
      (h.runEntry dependency context firing.1 firing.2).run.run (forget w) =
        (verdict firing s.result, forget w') := by
  refine ⟨⟨h.callOf dependency context firing,
    (h.runner (h.callOf dependency context firing) w.stored.files.1).1⟩, _, rfl, ?_,
    h.recording.runEntry_run dependency context firing w, ?_⟩
  · rw [files_afterEntry]
    rfl
  · rw [h.runEntry_run]
    exact congrArg (Prod.mk _) (forget_afterEntry firing w _ _).symm

/-! ## Until the first failure -/

/-- The commands of entries are called one after the other, until one does not succeed. -/
inductive Course : List (HookEntry × String) → List Served → Except Error Unit → Prop where
  | done : Course [] [] (.ok ())
  | next {firing : HookEntry × String} {firings : List (HookEntry × String)} {s : Served}
      {served : List Served} {outcome : Except Error Unit}
      (call : s.call = h.callOf dependency context firing)
      (succeeded : verdict firing s.result = .ok ())
      (rest : Course firings served outcome) : Course (firing :: firings) (s :: served) outcome
  | stop {firing : HookEntry × String} {firings : List (HookEntry × String)} {s : Served}
      {e : Error} (call : s.call = h.callOf dependency context firing)
      (failed : verdict firing s.result = .error e) : Course (firing :: firings) [s] (.error e)

/-- Whatever the world, the calls that are kept are those of one course, and the hooks that
keep none end as it does. -/
theorem exists_course (firings : List (HookEntry × String))
    (w : World (φ × List Served) Console) :
    ∃ served outcome w', h.Course dependency context firings served outcome ∧
      w'.stored.files.2 = w.stored.files.2 ++ served ∧
      (firings.forM fun firing =>
        h.recording.runEntry dependency context firing.1 firing.2).run.run w = (outcome, w') ∧
      (firings.forM fun firing =>
        h.runEntry dependency context firing.1 firing.2).run.run (forget w) =
          (outcome, forget w') := by
  induction firings generalizing w with
  | nil => exact ⟨[], .ok (), w, .done, (List.append_nil _).symm, rfl, rfl⟩
  | cons firing firings ih =>
    obtain ⟨s, w₁, hcall, hkept, hrecording, hrun⟩ :=
      h.runEntry_recording dependency context firing w
    change ∃ served outcome w', _ ∧ _ ∧
      (h.recording.runEntry dependency context firing.1 firing.2 >>= fun _ =>
        firings.forM _ : Effect _ Console Unit).run.run w = _ ∧
      (h.runEntry dependency context firing.1 firing.2 >>= fun _ =>
        firings.forM _ : Effect _ Console Unit).run.run (forget w) = _
    rw [Effect.run_bind, hrecording, Effect.run_bind, hrun]
    cases hverdict : verdict firing s.result with
    | error e => exact ⟨[s], .error e, w₁, .stop hcall hverdict, hkept, rfl, rfl⟩
    | ok _ =>
      obtain ⟨served, outcome, w₂, hcourse, hserved, hrest⟩ := ih w₁
      refine ⟨s :: served, outcome, w₂, .next hcall hverdict hcourse, ?_, hrest⟩
      rw [hserved, hkept, List.append_assoc]
      rfl

/-! ## What the commands are told -/

/-- The command of an entry was called for a trigger, and told the most specific event that
the entry lists. -/
structure Serves (t : Hook.Trigger) (entry : HookEntry) (s : Served) : Prop where
  script : s.call.script = entry.command
  directory : s.call.directory = h.directory
  told : ∃ event, t.MostSpecific entry event ∧
    (Hook.SparesEvent context → s.call.value? "DEPDAG_EVENT" = some event)

/-- How hooks end: either all commands have succeeded, or the last one that ran is the only
one that has not, and its error is the answer. -/
inductive Ends (t : Hook.Trigger) :
    List HookEntry → List HookEntry → List Served → Except Error Unit → Prop where
  | all {ran : List HookEntry} {served : List Served}
      (succeeded : ∀ s ∈ served, s.succeeded = true) : Ends t ran [] served (.ok ())
  | failure {ran rest : List HookEntry} {entry : HookEntry} {served : List Served} {s : Served}
      {event : String} {e : Error} (succeeded : ∀ s ∈ served, s.succeeded = true)
      (failed : s.succeeded = false) (told : t.MostSpecific entry event)
      (error : verdict (entry, event) s.result = .error e) :
      Ends t (ran ++ [entry]) rest (served ++ [s]) (.error e)

theorem succeeded_of_verdict {firing : HookEntry × String} {s : Served} :
    s.succeeded = (verdict firing s.result).isOk := by
  unfold Served.succeeded verdict
  cases s.result with
  | error failure => rfl
  | ok ended => by_cases hcode : ended.code = 0 <;> simp [hcode, Except.isOk, Except.toBool]

theorem Ends.cons {t : Hook.Trigger} {ran rest : List HookEntry} {served : List Served}
    {outcome : Except Error Unit} (h : Ends t ran rest served outcome) (entry : HookEntry)
    {s : Served} (hs : s.succeeded = true) : Ends t (entry :: ran) rest (s :: served) outcome := by
  cases h with
  | all hsucceeded => exact .all (List.forall_mem_cons.mpr ⟨hs, hsucceeded⟩)
  | @failure ran _ last served _ _ _ hsucceeded hfailed htold herror =>
    rw [← List.cons_append, ← List.cons_append]
    exact .failure (List.forall_mem_cons.mpr ⟨hs, hsucceeded⟩) hfailed htold herror

variable {h dependency context}

/-- The event is told, unless the context takes its place. -/
theorem value_event (firing : HookEntry × String) (hspares : Hook.SparesEvent context) :
    (h.callOf dependency context firing).value? "DEPDAG_EVENT" = some firing.2 := by
  have hlast {rest : List (String × String)}
      (hrest : ∀ binding ∈ rest, binding.1 ≠ "DEPDAG_EVENT") :
      (([("DEPDAG_EVENT", firing.2), ("DEPDAG_DEPENDENCY_NAME", dependency.getD "")] ++
        rest).filter (·.1 = "DEPDAG_EVENT")).getLast?.map (·.2) = some firing.2 := by
    have hnone : rest.filter (·.1 = "DEPDAG_EVENT") = [] := by
      rw [List.filter_eq_nil_iff]
      simpa using hrest
    rw [List.filter_append, hnone, List.append_nil]
    rfl
  refine hlast fun binding hbinding => ?_
  obtain ⟨⟨key, value⟩, hmem, rfl⟩ := List.mem_map.mp hbinding
  refine hspares key ?_
  rw [Std.TreeMap.mem_iff_isSome_getElem?, Std.TreeMap.mem_toList_iff_getElem?_eq_some.mp hmem]
  rfl

theorem serves_of_call {t : Hook.Trigger} {firing : HookEntry × String}
    (hfiring : t.MostSpecific firing.1 firing.2) {s : Served}
    (hcall : s.call = h.callOf dependency context firing) :
    h.Serves context t firing.1 s := by
  refine ⟨by rw [hcall]; rfl, by rw [hcall]; rfl, firing.2, hfiring, fun hspares => ?_⟩
  rw [hcall]
  exact value_event firing hspares

/-- What is called is called for the first of the entries that wait. -/
theorem Course.ends {t : Hook.Trigger} {firings : List (HookEntry × String)}
    {served : List Served} {outcome : Except Error Unit}
    (hcourse : h.Course dependency context firings served outcome)
    (hfirings : ∀ firing ∈ firings, t.MostSpecific firing.1 firing.2) :
    ∃ ran rest, firings.map Prod.fst = ran ++ rest ∧
      List.Forall₂ (h.Serves context t) ran served ∧ Ends t ran rest served outcome := by
  induction hcourse with
  | done => exact ⟨[], [], rfl, .nil, .all (by simp)⟩
  | @next firing firings s served outcome hcall hsucceeded _ ih =>
    obtain ⟨hfiring, hfirings⟩ := List.forall_mem_cons.mp hfirings
    obtain ⟨ran, rest, hran, hserves, hends⟩ := ih hfirings
    have hs : s.succeeded = true := by
      rw [succeeded_of_verdict, hsucceeded]
      rfl
    exact ⟨firing.1 :: ran, rest, congrArg (firing.1 :: ·) hran,
      .cons (serves_of_call hfiring hcall) hserves, hends.cons firing.1 hs⟩
  | @stop firing firings s e hcall herror =>
    obtain ⟨hfiring, _⟩ := List.forall_mem_cons.mp hfirings
    have hs : s.succeeded = false := by
      rw [succeeded_of_verdict, herror]
      rfl
    have hends : Ends t ([] ++ [firing.1]) (firings.map Prod.fst) ([] ++ [s]) (.error e) :=
      .failure (by simp) hs hfiring herror
    exact ⟨[firing.1], firings.map Prod.fst, rfl, .cons (serves_of_call hfiring hcall) .nil, hends⟩

end HookSetting

open Hook HookSetting

/-! ## Contexts -/

theorem sparesEvent_ofList {bindings : List (String × String)}
    (h : ∀ binding ∈ bindings, variableName binding.1 ≠ "DEPDAG_EVENT") :
    SparesEvent (Std.TreeMap.ofList bindings) := by
  intro key hkey
  rw [Std.TreeMap.mem_ofList, List.contains_iff_mem] at hkey
  obtain ⟨binding, hbinding, rfl⟩ := List.mem_map.mp hkey
  exact h binding hbinding

/-- What the hooks are told about a dependency takes the place of no event. -/
theorem sparesEvent_hookContext (d : Dependency) : SparesEvent (Run.hookContext d) := by
  refine sparesEvent_ofList ?_
  simp only [List.forall_mem_cons]
  refine ⟨?_, ?_, ?_, ?_, by simp⟩ <;> decide

/-! ## Firing -/

/-- When something fires, the commands of the entries run that list one of its events: in
their order, once for each entry, and up to the first that does not succeed, whose error is
the answer.  Each is told the most specific event that its entry lists, unless the context
takes the place of the event.

An event tells the phase, the verb, and whether it fires around a dependency or around a
whole run.  The event that names a dependency fires for that dependency alone. -/
theorem hooks_fire (h : HookSetting φ) (t : Trigger) (dependency : Option String)
    (context : Dictionary) (w : World (φ × List Served) Console) :
    (∃ ran rest served outcome w',
      (h.recording.hooks t.events dependency context).run.run w = (outcome, w') ∧
      (h.hooks t.events dependency context).run.run (forget w) = (outcome, forget w') ∧
      w'.stored.files.2 = w.stored.files.2 ++ served ∧
      t.waiting h.entries = ran ++ rest ∧
      List.Forall₂ (h.Serves context t) ran served ∧ Ends t ran rest served outcome) ∧
    (∀ t' : Trigger, ∀ event ∈ t.events, event ∈ t'.events →
      t.phase = t'.phase ∧ t.verb = t'.verb ∧ t.isBatch = t'.isBatch) ∧
    ∀ phase verb name, namedEvent phase verb name ∈ t.events ↔ t = .dependency phase verb name := by
  refine ⟨?_, fun _ _ hevent hevent' => Trigger.of_shared hevent hevent', fun phase verb name =>
    ⟨Trigger.of_named, ?_⟩⟩
  · obtain ⟨served, outcome, w', hcourse, hkept, hrecording, hrun⟩ :=
      h.exists_course dependency context (firings h.entries t.events) w
    obtain ⟨ran, rest, hran, hserves, hends⟩ :=
      hcourse.ends fun _ hfiring => mostSpecific_of_mem_firings hfiring
    rw [map_fst_firings] at hran
    exact ⟨ran, rest, served, outcome, w', hrecording, hrun, hkept, hran, hserves, hends⟩
  · rintro rfl
    exact List.mem_cons_self ..

/-- A shell in which one script does not succeed, and that changes no files. -/
def picky : Runner Unit := fun call files =>
  (.ok ⟨.exited (if call.script = "refuse" then 3 else 0), .empty, .empty⟩, files)

/-- Three hooks wait for the build of the API, and one of them for that alone.  Another one
waits for its deployment. -/
def watchers : HookSetting Unit :=
  ⟨picky, ⟨"/app"⟩, [⟨["after:deployDependency"], "skip"⟩,
    ⟨["dependencies.beforeBuild", "before:buildDependency:api"], "note"⟩,
    ⟨["before:buildDependency"], "refuse"⟩, ⟨["before:buildDependency"], "never"⟩]⟩

/-- A world without anything, in which nothing was called. -/
def blank : World (Unit × List Served) Console := ⟨⟨((), []), .memory ∅⟩, [], ∅, [], .empty⟩

/-- The API. -/
def api : Dependency := ⟨"/api", "api", ⟨"/api"⟩, .empty, ⟨"/api", false, []⟩, .standard, true, []⟩

/-- What fires before it is built. -/
def building : Trigger := .dependency .before .build "api"

/-- Of the three commands two run, and each is told its event. -/
theorem hooks_fire_api : SparesEvent (Run.hookContext api) ∧
    ∃ ran served outcome w', (watchers.recording.hooks building.events (some "api")
        (Run.hookContext api)).run.run blank = (outcome, w') ∧
      w'.stored.files.2 = served ∧ served.map (·.call.script) = ["note", "refuse"] ∧
      List.Forall₂ (fun entry s => s.call.script = entry.command ∧ ∃ event,
        building.MostSpecific entry event ∧ s.call.value? "DEPDAG_EVENT" = some event)
          ran served := by
  have hspares := sparesEvent_hookContext api
  obtain ⟨⟨ran, rest, served, outcome, w', hrun, _, hkept, _, hserves, _⟩, _⟩ :=
    hooks_fire watchers building (some "api") (Run.hookContext api) blank
  have hserved : w'.stored.files.2 = served := hkept
  have hscripts : ((watchers.recording.hooks building.events (some "api")
      (Run.hookContext api)).run.run blank).2.stored.files.2.map (·.call.script) =
        ["note", "refuse"] := by decide +kernel
  rw [hrun, hserved] at hscripts
  refine ⟨hspares, ran, served, outcome, w', hrun, hserved, hscripts, hserves.imp fun _ s hs => ?_⟩
  obtain ⟨event, hspecific, htold⟩ := hs.told
  exact ⟨hs.script, event, hspecific, htold hspares⟩

/-- A hook that tells the event which it is told. -/
def teller : HookEntry := ⟨["before:buildDependency"], "echo $DEPDAG_EVENT"⟩

/-- A part of the context that has the name of the event is told instead of the event. -/
theorem event_overridden : building.MostSpecific teller "before:buildDependency" ∧
    (((HookSetting.mk picky ⟨"/app"⟩ [teller]).recording.hooks building.events (some "api")
      (Std.TreeMap.ofList [("event", "other")])).run.run blank).2.stored.files.2.map
        (·.call.value? "DEPDAG_EVENT") = [some "other"] := by
  constructor
  · exact ⟨["before:buildDependency:api"], ["dependencies.beforeBuild"], by decide, by decide,
      by decide⟩
  · decide +kernel

end Script

end Cascade
