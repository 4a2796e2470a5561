import Cascade.Proofs.Dependency.Exact
import Cascade.Proofs.Run.Alone
import Cascade.Proofs.Run.Lifecycle
import Cascade.Proofs.Run.Scripts
import Cascade.Program

/-!
# Running a command

A command is run by a worker that is alone, on the dependencies that have a name.  Whether
there was one is told by the record of what has begun, and this record is also empty if the
dependencies were not resolved, or if the hooks before the first of those with the name
failed.  So the answer is the error of the run only if the command was begun
(`Project.runCommand_answer`); all that happens before is answered like a name that nobody
has (`Project.runCommand_hides_failures`).

Hooks and commands do not see the record: `Project.Discreet` says that they leave it alone.
The project of a command line is one of which all this is true (`discreet_projectOf`,
`arranges_projectOf`).
-/

namespace Cascade

namespace Run.Plan

variable {φ β : Type} {p : Plan φ β}

/-! ## The record of what has begun -/

/-- The hooks and the actions of a plan leave the record of what has begun alone. -/
structure Discreet (p : Plan φ β) : Prop where
  hooks : ∀ phase d w, ((p.call phase d).run w).2.started = w.started
  action : ∀ d w, ((p.performing d).run w).2.started = w.started

/-- Dependencies that are not selected leave no trace. -/
theorem inTurn_append_of_unselected {before : List Dependency}
    (h : ∀ d ∈ before, p.selection.selects d.name = false) (rest : List Dependency)
    (w : World φ β) : p.inTurn (before ++ rest) w = p.inTurn rest w := by
  induction before with
  | nil => rfl
  | cons d before ih =>
    have hd := h d (List.mem_cons_self ..)
    rw [List.cons_append, inTurn, acts, passing, hd, Bool.false_and, if_neg Bool.false_ne_true,
      if_neg Bool.false_ne_true]
    exact ih fun d' hd' => h d' (List.mem_cons_of_mem d hd')

/-- If the hooks before it succeed, an action is begun, whatever comes of it. -/
theorem Discreet.started_solo (hp : p.Discreet) {d : Dependency} {w w₁ : World φ β}
    (hbefore : (p.call .before d).run w = (.ok (), w₁)) :
    (p.solo d w).2.started = w.started ++ [d.id] := by
  have hhooks := hp.hooks .before d w
  rw [hbefore] at hhooks
  have haction := hp.action d { w₁ with started := w₁.started ++ [d.id] }
  rw [solo, hbefore]
  dsimp only
  rcases hperforming : (p.performing d).run { w₁ with started := w₁.started ++ [d.id] } with
    ⟨⟨result, journal⟩, w₂⟩
  rw [hperforming] at haction
  have hw₂ : w₂.started = w.started ++ [d.id] :=
    haction.trans (congrArg (· ++ [d.id]) hhooks)
  cases result with
  | error cause =>
    have herror := hp.hooks .error d w₂
    rcases hcall : (p.call .error d).run w₂ with ⟨answer, w₃⟩
    rw [hcall] at herror
    cases answer <;> simpa [hcall] using herror.trans hw₂
  | ok _ =>
    have hafter := hp.hooks .after d w₂
    rcases hcall : (p.call .after d).run w₂ with ⟨answer, w₃⟩
    rw [hcall] at hafter
    cases answer with
    | error e => simpa [hcall] using hafter.trans hw₂
    | ok _ =>
      simp only [hcall]
      split <;> exact hafter.trans hw₂

/-- If they fail, this is all that happens. -/
theorem Discreet.solo_of_halted (hp : p.Discreet) {d : Dependency} {w w₁ : World φ β} {e : Error}
    (hbefore : (p.call .before d).run w = (.error e, w₁)) :
    p.solo d w = (.error e, w₁) ∧ w₁.started = w.started := by
  have hhooks := hp.hooks .before d w
  rw [hbefore] at hhooks
  exact ⟨by rw [solo, hbefore], hhooks⟩

/-- What has begun stays on the record. -/
theorem Discreet.started_inTurn (hp : p.Discreet) (ds : List Dependency) (w : World φ β) :
    w.started <+: (p.inTurn ds w).2.started := by
  induction ds generalizing w with
  | nil => exact List.prefix_refl _
  | cons d ds ih =>
    rw [inTurn]
    split
    · have hsolo : w.started <+: (p.solo d w).2.started := by
        rcases hbefore : (p.call .before d).run w with ⟨answer, w₁⟩
        cases answer with
        | error e =>
          obtain ⟨hhalted, hstarted⟩ := hp.solo_of_halted hbefore
          rw [hhalted, ← hstarted]
        | ok _ =>
          rw [hp.started_solo hbefore]
          exact List.prefix_append ..
      revert hsolo
      rcases p.solo d w with ⟨answer, w'⟩
      intro hsolo
      cases answer with
      | error e => exact hsolo
      | ok _ => exact hsolo.trans (ih w')
    · have hpassing : (p.passing d w).started = w.started := by
        unfold passing
        split <;> rfl
      rw [← hpassing]
      exact ih (p.passing d w)

/-- If the hooks before the first action succeed, it is on the record. -/
theorem Discreet.mem_started_of_begun (hp : p.Discreet) {d : Dependency}
    (rest : List Dependency) {w w₁ : World φ β} (hacts : p.acts d = true)
    (hbefore : (p.call .before d).run w = (.ok (), w₁)) :
    d.id ∈ (p.inTurn (d :: rest) w).2.started := by
  have hsolo := hp.started_solo hbefore
  have hmem : d.id ∈ (p.solo d w).2.started := by simp [hsolo]
  rw [inTurn, if_pos hacts]
  revert hmem
  rcases p.solo d w with ⟨answer, w'⟩
  intro hmem
  cases answer with
  | error e => exact hmem
  | ok _ => exact (hp.started_inTurn rest w').subset hmem

end Run.Plan

namespace Project

open Run

variable {φ β : Type}

/-! ## What a command answers -/

/-- How the dependencies are handled for a command. -/
def CommandRequest.options (r : CommandRequest) : HandleOptions :=
  ⟨⟨[], [r.dependency], r.update, r.verbose⟩, true, 1⟩

/-- What the worker goes by that runs a command. -/
def commandPlan (p : Project φ β) (r : CommandRequest) : Plan φ β :=
  p.planFor .command r.options fun d => p.backend.command d r.command r.arguments

/-- Handle the dependencies for a command. -/
def handleCommand (p : Project φ β) (r : CommandRequest) : Session φ β Outcome :=
  p.handle [] .command r.options fun d => p.backend.command d r.command r.arguments

/-- Neither the hooks of a project nor the commands of its dependencies touch the record of
what has begun. -/
structure Discreet (p : Project φ β) : Prop where
  hooks : ∀ events name context w,
    ((p.hooks events name context).run.run w).2.started = w.started
  command : ∀ d command arguments journal w,
    (((p.backend.command d command arguments).run.run journal).run w).2.started = w.started

theorem Discreet.commandPlan {p : Project φ β} (hp : p.Discreet) (r : CommandRequest) :
    (p.commandPlan r).Discreet :=
  ⟨fun _ _ _ => hp.hooks .., fun _ _ => hp.command ..⟩

/-- What the configuration of a project makes of hooks and commands leaves the record alone. -/
theorem discreet_projectOf (processors : Nat) (allowCyclic : Bool) (root : Path)
    (config : Config) : (Program.projectOf processors allowCyclic root config).Discreet := by
  have hallows : Script.Allows (fun _ => True)
      fun w w' : World TreeFiles Script.Console => w'.started = w.started :=
    ⟨fun _ _ _ => rfl, fun _ _ _ => rfl, fun _ _ _ => rfl⟩
  have hspares {α : Type} {P : α → Prop} {r : Routine (World TreeFiles Script.Console) α}
      (hr : r.Obeys (fun _ => True) (fun w w' => w'.started = w.started) P)
      (w : World TreeFiles Script.Console) : (r.run w).2.started = w.started := by
    have htrans (w₁ w₂ w₃ : World TreeFiles Script.Console) (h : w₂.started = w₁.started)
        (h' : w₃.started = w₂.started) : w₃.started = w₁.started := h'.trans h
    exact (hr.run (fun _ _ _ _ => trivial) (fun _ _ => rfl) htrans trivial).2.1
  exact ⟨fun events name context w => hspares (hallows.hooks _ events name context) w,
    fun d command arguments journal w =>
      hspares ((hallows.backend _).command d command arguments journal) w⟩

/-- The graphs that it resolves are arranged. -/
theorem arranges_projectOf (processors : Nat) (allowCyclic : Bool) (root : Path)
    (config : Config) : (Program.projectOf processors allowCyclic root config).Arranges :=
  Resolves.arranges ⟨root, allowCyclic, rfl⟩

/-- A command is to be run on the dependencies that have the name. -/
theorem acts_commandPlan (p : Project φ β) (r : CommandRequest) (d : Dependency) :
    (p.commandPlan r).acts d = true ↔ d.name = r.dependency := by
  simp [Plan.acts, Selection.selects, commandPlan, planFor, CommandRequest.options]

theorem selects_commandPlan (p : Project φ β) (r : CommandRequest) {d : Dependency}
    (h : d.name ≠ r.dependency) : (p.commandPlan r).selection.selects d.name = false := by
  simpa [Selection.selects, commandPlan, planFor, CommandRequest.options] using h

/-- A command answers what handling the dependencies does, if anything has begun. -/
theorem runCommand_run_fst (p : Project φ β) (r : CommandRequest) (w : World φ β) :
    ((p.runCommand r).run.run w).1 =
      if ((p.handleCommand r).run.run w).2.started.isEmpty then
        .error (.dependencyNotFound r.dependency)
      else ((p.handleCommand r).run.run w).1.map fun _ => () :=
  congrArg Prod.fst (p.runCommand_run r w)

/-- If nothing has begun, then no dependency was found. -/
theorem runCommand_of_idle {p : Project φ β} {r : CommandRequest} {w : World φ β}
    (h : ((p.handleCommand r).run.run w).2.started = []) :
    ((p.runCommand r).run.run w).1 = .error (.dependencyNotFound r.dependency) := by
  rw [runCommand_run_fst, h]
  rfl

theorem started_begun (verb : Verb) (o : HandleOptions) (g : DependencyGraph)
    (log : List Log.Entry) (stored : Stored φ) (w : World φ β) :
    (begun verb o g log stored w).started = [] := by
  obtain ⟨entries, hbegun⟩ := begun_eq verb o g log stored w
  rw [hbegun]
  rfl

/-- The error of dependencies that cannot be resolved is lost. -/
theorem runCommand_of_unresolved {p : Project φ β} {r : CommandRequest} {w : World φ β}
    (hdeps : p.config.hasDependencies = true) {e : Error} {log : List Log.Entry}
    {stored : Stored φ} (hresolve : p.resolve r.update w.stored = (.error e, log, stored)) :
    ((p.handleCommand r).run.run w).1 = .error (.resolve (withHint e)) ∧
      ((p.runCommand r).run.run w).1 = .error (.dependencyNotFound r.dependency) := by
  obtain ⟨entries, hhandled⟩ := handle_of_unresolved [] .command r.options
    (fun d => p.backend.command d r.command r.arguments) w hdeps hresolve
  refine ⟨by rw [handleCommand, hhandled], ?_⟩
  apply runCommand_of_idle
  rw [handleCommand, hhandled]
  rfl

section Resolved

variable {p : Project φ β} {r : CommandRequest} {w : World φ β} {g : DependencyGraph}
  {log : List Log.Entry} {stored : Stored φ}

/-- Once the dependencies are resolved, a worker that is alone goes through them. -/
theorem handleCommand_of_resolved (hg : g.Arranged) (hdeps : p.config.hasDependencies = true)
    (hresolve : p.resolve r.update w.stored = (.ok g, log, stored)) :
    let turns := (p.commandPlan r).inTurn (g.agenda.map (·.payload))
      (begun .command r.options g log stored w)
    ((p.handleCommand r).run.run w).1 =
        turns.1.map (fun executed => ⟨g, executed.filter (·.isRoot)⟩) ∧
      ((p.handleCommand r).run.run w).2.started = turns.2.started := by
  intro turns
  have hforward : Verb.command.direction = .forward := rfl
  obtain ⟨hanswer, entries, hworld⟩ := handle_alone hg.hierarchy hg.laden p [] hforward
    (o := r.options) rfl (fun d => p.backend.command d r.command r.arguments) w hdeps hresolve
  exact ⟨hanswer, by rw [handleCommand, hworld]; rfl⟩

/-- If no dependency has the name, then none is found. -/
theorem runCommand_of_unnamed (hg : g.Arranged) (hdeps : p.config.hasDependencies = true)
    (hresolve : p.resolve r.update w.stored = (.ok g, log, stored))
    (hnone : ∀ claim, g.Bears claim → claim.payload.name ≠ r.dependency) :
    ((p.runCommand r).run.run w).1 = .error (.dependencyNotFound r.dependency) := by
  obtain ⟨_, hstarted⟩ := handleCommand_of_resolved hg hdeps hresolve
  have hunselected : ∀ d ∈ g.agenda.map (·.payload),
      (p.commandPlan r).selection.selects d.name = false := by
    intro d hd
    obtain ⟨claim, hclaim, rfl⟩ := List.mem_map.mp hd
    exact selects_commandPlan p r (hnone claim (hg.hierarchy.mem_agenda.mp hclaim))
  have hturns := Plan.inTurn_append_of_unselected hunselected []
    (begun .command r.options g log stored w)
  rw [List.append_nil] at hturns
  apply runCommand_of_idle
  rw [hstarted, hturns]
  exact started_begun ..

variable {before rest : List Dependency} {d : Dependency}

/-- What comes before the first dependency of the name does not count. -/
theorem inTurn_of_first (hsplit : g.agenda.map (·.payload) = before ++ d :: rest)
    (hbefore : ∀ b ∈ before, b.name ≠ r.dependency) (w₀ : World φ β) :
    (p.commandPlan r).inTurn (g.agenda.map (·.payload)) w₀ =
      (p.commandPlan r).inTurn (d :: rest) w₀ := by
  rw [hsplit]
  exact Plan.inTurn_append_of_unselected
    (fun b hb => selects_commandPlan p r (hbefore b hb)) (d :: rest) w₀

/-- The error of the hooks before the first dependency of the name is lost. -/
theorem runCommand_of_halted (hp : p.Discreet) (hg : g.Arranged)
    (hdeps : p.config.hasDependencies = true)
    (hresolve : p.resolve r.update w.stored = (.ok g, log, stored))
    (hsplit : g.agenda.map (·.payload) = before ++ d :: rest)
    (hbefore : ∀ b ∈ before, b.name ≠ r.dependency) (hname : d.name = r.dependency)
    {e : Error} {w₁ : World φ β}
    (hhooks : ((p.commandPlan r).call .before d).run (begun .command r.options g log stored w) =
      (.error e, w₁)) :
    ((p.handleCommand r).run.run w).1 = .error e ∧
      ((p.runCommand r).run.run w).1 = .error (.dependencyNotFound r.dependency) := by
  obtain ⟨hhandled, hstarted⟩ := handleCommand_of_resolved hg hdeps hresolve
  obtain ⟨hhalted, hw₁⟩ := (hp.commandPlan r).solo_of_halted hhooks
  rw [inTurn_of_first hsplit hbefore, Plan.inTurn, if_pos ((acts_commandPlan p r d).mpr hname),
    hhalted] at hhandled hstarted
  refine ⟨hhandled, runCommand_of_idle ?_⟩
  exact hstarted.trans (hw₁.trans (started_begun ..))

/-- Once the command is begun, the answer is what comes of it. -/
theorem runCommand_of_begun (hp : p.Discreet) (hg : g.Arranged)
    (hdeps : p.config.hasDependencies = true)
    (hresolve : p.resolve r.update w.stored = (.ok g, log, stored))
    (hsplit : g.agenda.map (·.payload) = before ++ d :: rest)
    (hbefore : ∀ b ∈ before, b.name ≠ r.dependency) (hname : d.name = r.dependency)
    {w₁ : World φ β}
    (hhooks : ((p.commandPlan r).call .before d).run (begun .command r.options g log stored w) =
      (.ok (), w₁)) :
    ((p.runCommand r).run.run w).1 = ((p.commandPlan r).inTurn (d :: rest)
      (begun .command r.options g log stored w)).1.map fun _ => () := by
  obtain ⟨hhandled, hstarted⟩ := handleCommand_of_resolved hg hdeps hresolve
  have hmem := (hp.commandPlan r).mem_started_of_begun rest
    ((acts_commandPlan p r d).mpr hname) hhooks
  rw [inTurn_of_first hsplit hbefore] at hhandled hstarted
  rw [← hstarted] at hmem
  have hsome : ((p.handleCommand r).run.run w).2.started.isEmpty = false := by
    simpa using List.ne_nil_of_mem hmem
  rw [runCommand_run_fst, hsome, if_neg Bool.false_ne_true, hhandled]
  cases ((p.commandPlan r).inTurn (d :: rest) (begun .command r.options g log stored w)).1 <;> rfl

end Resolved

/-- What running a command answers.  If the dependencies are not resolved, or the hooks fail
before the first dependency that has the name, then handling the dependencies fails with this
error, but the answer is that there is no such dependency, as it is if really none has the
name.  Once the hooks before the first one have succeeded, the answer is what comes of acting
on those that have the name one after the other. -/
theorem runCommand_answer {p : Project φ β} (hp : p.Discreet) (hg : p.Arranges)
    (r : CommandRequest) (w : World φ β) :
    let handled := ((p.handleCommand r).run.run w).1
    let answer := ((p.runCommand r).run.run w).1
    let missing := Except.error (.dependencyNotFound r.dependency)
    (p.config.hasDependencies = false → answer = missing) ∧
    (p.config.hasDependencies = true →
      (∀ e log stored, p.resolve r.update w.stored = (.error e, log, stored) →
        handled = .error (.resolve (withHint e)) ∧ answer = missing) ∧
      ∀ g log stored, p.resolve r.update w.stored = (.ok g, log, stored) →
        let w₀ := begun .command r.options g log stored w
        ((∀ claim, g.Bears claim → claim.payload.name ≠ r.dependency) → answer = missing) ∧
        ∀ before d rest, g.agenda.map (·.payload) = before ++ d :: rest →
          (∀ b ∈ before, b.name ≠ r.dependency) → d.name = r.dependency →
          (∀ e w₁, ((p.commandPlan r).call .before d).run w₀ = (.error e, w₁) →
            handled = .error e ∧ answer = missing) ∧
          (∀ w₁, ((p.commandPlan r).call .before d).run w₀ = (.ok (), w₁) →
            answer = ((p.commandPlan r).inTurn (d :: rest) w₀).1.map fun _ => ())) := by
  intro handled answer missing
  refine ⟨fun hdeps => ?_, fun hdeps => ⟨fun e log stored hresolve =>
    runCommand_of_unresolved hdeps hresolve, fun g log stored hresolve => ?_⟩⟩
  · apply runCommand_of_idle
    rw [handleCommand, handle_of_none _ _ _ _ _ hdeps]
    rfl
  · intro w₀
    have harranged : g.Arranged := hg r.update w.stored g (by rw [hresolve])
    exact ⟨fun hnone => runCommand_of_unnamed harranged hdeps hresolve hnone,
      fun before d rest hsplit hbefore hname =>
        ⟨fun e w₁ hhooks =>
          runCommand_of_halted hp harranged hdeps hresolve hsplit hbefore hname hhooks,
        fun w₁ hhooks =>
          runCommand_of_begun hp harranged hdeps hresolve hsplit hbefore hname hhooks⟩⟩

/-! ## Failures that are not told -/

/-- A project that declares an application above its library, with hooks that fail before a
command of the library is run. -/
def guardedCommand : Project Unit Unit :=
  { tiersProject with
    hooks := fun events _ _ =>
      if "before:commandDependency:lib" ∈ events then throw (.other (.ofText "not yet"))
      else pure () }

/-- A command of one dependency. -/
def testing (name : String) : CommandRequest := ⟨name, "test", [], false, false⟩

theorem arranges_guardedCommand : guardedCommand.Arranges := by
  rintro update stored g h
  cases h
  exact arranged_tiers

theorem discreet_guardedCommand : guardedCommand.Discreet where
  hooks events name context w := by
    unfold guardedCommand
    dsimp only
    split <;> rfl
  command _ _ _ _ _ := rfl

/-- The command of the application is run.  That of the library is stopped by the hooks, and
the answer is that there is no library. -/
theorem runCommand_answer_guarded :
    let w : World Unit Unit := ⟨⟨(), .memory ∅⟩, [], ∅, [], ()⟩
    ((guardedCommand.runCommand (testing "app")).run.run w).1 = .ok () ∧
      ((guardedCommand.handleCommand (testing "lib")).run.run w).1 =
        .error (.other (.ofText "not yet")) ∧
      ((guardedCommand.runCommand (testing "lib")).run.run w).1 =
        .error (.dependencyNotFound "lib") := by
  intro w
  have hagenda : tiers.agenda.map (·.payload) = [named "lib" false, named "app" true] := by
    rfl
  have happ := ((runCommand_answer discreet_guardedCommand arranges_guardedCommand
    (testing "app") w).2 (by decide)).2 tiers [] _ rfl
  have hlib := ((runCommand_answer discreet_guardedCommand arranges_guardedCommand
    (testing "lib") w).2 (by decide)).2 tiers [] _ rfl
  refine ⟨?_, (hlib.2 [] (named "lib" false) [named "app" true] hagenda (by simp) rfl).1 _ _ rfl⟩
  exact (happ.2 [named "lib" false] (named "app" true) [] hagenda (by decide) rfl).2 _ rfl

/-- A project that declares one of two directories that declare each other. -/
def ringProject : Project MemoryFiles Unit where
  config := Resolver.ring.config
  resolve := Resolver.ring.strict.resolve
  backend := guardedTiers.backend
  hooks := .none
  sink _ := pure ()
  processors := 1

/-- A cycle among the declarations is answered as if there were no dependency of the name,
and so is the failure of the hooks before a dependency that there is. -/
theorem runCommand_hides_failures :
    let w : World MemoryFiles Unit := ⟨⟨Resolver.ringFiles, .memory ∅⟩, [], ∅, [], ()⟩
    let w' : World Unit Unit := ⟨⟨(), .memory ∅⟩, [], ∅, [], ()⟩
    (((ringProject.handleCommand (testing "a")).run.run w).1.map fun _ => ()) =
        .error (.resolve (.cyclicHint ["/b", "/a", "/b"])) ∧
      ((ringProject.runCommand (testing "a")).run.run w).1 = .error (.dependencyNotFound "a") ∧
      tiers.Bears ⟨"lib", named "lib" false⟩ ∧
      (((guardedCommand.handleCommand (testing "lib")).run.run w').1.map fun _ => ()) =
        .error (.other (.ofText "not yet")) ∧
      ((guardedCommand.runCommand (testing "lib")).run.run w').1 =
        .error (.dependencyNotFound "lib") :=
  ⟨by decide +kernel, by decide +kernel, bears_lib, by decide +kernel, by decide +kernel⟩

end Project

end Cascade
