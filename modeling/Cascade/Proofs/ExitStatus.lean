import Cascade.Program

/-!
# The exit status of a failure

An error is passed on inside wrappers, each of which tells what was going on, and is
reported inside contexts.  Two searches look for the status of a failed command behind
them: one goes through the wrappers of one error, and the other goes along the chain of
links, in which a wrapper hides the errors inside it.  `exitStatus_within` says what
both find together, and that neither wrappers nor contexts matter.
-/

namespace Cascade

namespace Error

/-! ## Wrappers -/

/-- What an error is wrapped in when it is passed on. -/
inductive Wrapper where
  | action (verb dependency log : String)
  | resolve

/-- An error inside one wrapper. -/
def Wrapper.around : Wrapper → Error → Error
  | .action verb dependency log, cause => .action verb dependency log cause
  | .resolve, cause => .resolve cause

/-- An error inside wrappers, which are listed from the outermost to the innermost. -/
def within (wrappers : List Wrapper) (cause : Error) : Error :=
  wrappers.foldr Wrapper.around cause

/-- Whether an error is a cause of its own, and neither a wrapper nor a failure that came
from elsewhere. -/
def isCause : Error → Bool
  | .resolve _ | .action .. | .other _ | .wrapped .. => false
  | _ => true

/-! ## The two searches -/

/-- The search through wrappers finds what the cause inside them has. -/
theorem commandStatus_within (wrappers : List Wrapper) (cause : Error) :
    (within wrappers cause).commandStatus = cause.commandStatus := by
  induction wrappers with
  | nil => rfl
  | cons wrapper wrappers ih => cases wrapper <;> exact ih

/-- Below a cause inside wrappers, the chain is nothing but texts. -/
theorem error_of_mem_causes_within {cause : Error} (hcause : cause.isCause = true)
    (wrappers : List Wrapper) {link : Link} (hlink : link ∈ (within wrappers cause).causes) :
    link.error = none := by
  induction wrappers with
  | nil =>
    cases cause with
    | io text | format text =>
      rw [List.mem_singleton.mp hlink]
      rfl
    | resolve | action | other | wrapped => cases hcause
    | _ => cases hlink
  | cons wrapper wrappers ih =>
    cases wrapper with
    | action =>
      rcases List.mem_cons.mp hlink with rfl | hlink
      · rfl
      · exact ih hlink
    | resolve => cases hlink

/-- The only error in the chain of a cause inside wrappers and contexts is the outermost. -/
theorem errors_linksWithin_within {cause : Error} (hcause : cause.isCause = true)
    (wrappers : List Wrapper) (contexts : List String) :
    ((within wrappers cause).linksWithin contexts).filterMap (·.error) =
      [within wrappers cause] := by
  have hcontexts : (contexts.map Link.ofText).filterMap (·.error) = [] := by
    rw [List.filterMap_map]
    exact List.filterMap_eq_nil_iff.mpr fun _ _ => rfl
  have hcauses : (within wrappers cause).causes.filterMap (·.error) = [] :=
    List.filterMap_eq_nil_iff.mpr fun _ hlink => error_of_mem_causes_within hcause wrappers hlink
  rw [linksWithin, links, List.filterMap_append, hcontexts, List.nil_append, List.filterMap_cons,
    hcauses]

/-! ## The status -/

/-- A failure never exits like a success. -/
theorem one_le_exitStatus (passThrough : Bool) (contexts : List String) (e : Error) :
    1 ≤ e.exitStatus passThrough contexts := by
  unfold exitStatus
  split
  · split
    · split
      · assumption
      · exact Int.le_refl 1
    · exact Int.le_refl 1
  · exact Int.le_refl 1

/-- The status that a cause calls for where the status of a command goes through: that of
the command if it is positive, as it is not after a signal. -/
def ownStatus : Error → Int
  | .commandFailed _ status => if 0 < status then status else 1
  | _ => 1

/-- The status of a cause inside wrappers and contexts is told by the cause alone. -/
theorem exitStatus_eq_of_isCause {cause : Error} (hcause : cause.isCause = true)
    (passThrough : Bool) (wrappers : List Wrapper) (contexts : List String) :
    (within wrappers cause).exitStatus passThrough contexts =
      if passThrough then cause.ownStatus else 1 := by
  unfold exitStatus
  rw [errors_linksWithin_within hcause, List.findSome?_singleton, commandStatus_within]
  cases cause with
  | resolve | action | other | wrapped => cases hcause
  | _ => rfl

/-- The exit status of a failure: what its cause calls for if the request was to run one
command, and otherwise 1, inside whatever wrappers and contexts. -/
theorem exitStatus_within (request : Cli.Request) {cause : Error} (hcause : cause.isCause = true)
    (wrappers : List Wrapper) (contexts : List String) :
    let status := (within wrappers cause).exitStatus (Program.passesStatus request) contexts
    1 ≤ status ∧
      (status = match request with
        | .run _ => cause.ownStatus
        | _ => 1) ∧
      ∀ wrappers' contexts',
        (within wrappers' cause).exitStatus (Program.passesStatus request) contexts' = status := by
  intro status
  refine ⟨one_le_exitStatus .., ?_, fun wrappers' contexts' => ?_⟩
  · refine (exitStatus_eq_of_isCause hcause ..).trans ?_
    cases request <;> rfl
  · exact (exitStatus_eq_of_isCause hcause ..).trans (exitStatus_eq_of_isCause hcause ..).symm

/-- A command that exited with 7, and one that was ended by signal 9, behind the failure of an
action behind that of a resolution. -/
theorem exitStatus_within_resolved :
    let failed (code : Int) : Error :=
      within [.resolve, .action "Command" "api" ""] (.commandFailed "test" code)
    let run : Cli.Request := .run ⟨"api", "test", [], false, false⟩
    (Error.commandFailed "test" 7).isCause = true ∧
      (failed 7).exitStatus (Program.passesStatus run) ["loading", "starting"] = 7 ∧
      (failed (-9)).exitStatus (Program.passesStatus run) ["starting"] = 1 ∧
      (failed 7).exitStatus (Program.passesStatus .update) [] = 1 := by
  intro failed run
  exact ⟨rfl, (exitStatus_within run rfl _ _).2.1, (exitStatus_within run rfl _ _).2.1,
    (exitStatus_within .update rfl _ _).2.1⟩

end Error

/-- A run exits with 0 if and only if nothing failed. -/
theorem Program.exitStatus_eq_zero_iff (i : Cli.Invocation) (r : Result) :
    exitStatus i r = 0 ↔ r.error = none := by
  unfold exitStatus
  cases r.error with
  | none => exact ⟨fun _ => rfl, fun _ => rfl⟩
  | some e =>
    have hpositive := e.one_le_exitStatus (passesStatus i.request) []
    constructor
    · intro hzero
      have hzero : e.exitStatus (passesStatus i.request) [] = 0 := hzero
      omega
    · exact nofun

end Cascade
