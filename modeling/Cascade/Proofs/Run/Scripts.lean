import Cascade.Proofs.Run.Action
import Cascade.Script.Backend
import Cascade.Script.Hooks

/-!
# What scripts do to the world

Whatever a script does, its steps only log, change files, and write to the console.  So if
these three are in a relation, then so is every step of the actions and commands that are
scripts (`Allows.backend`) and of the hooks that are (`Allows.hooks`).
-/

namespace Cascade

/-- An effect goes on unless it fails. -/
theorem Effect.obeys_bind {φ β α γ : Type} {I : World φ β → Prop}
    {R : World φ β → World φ β → Prop} {e : Effect φ β α} {f : α → Effect φ β γ}
    (he : e.run.Obeys I R fun _ => True) (hf : ∀ a, (f a).run.Obeys I R fun _ => True) :
    (e >>= f).run.Obeys I R fun _ => True := by
  refine he.bind fun result _ => ?_
  cases result with
  | error failure => trivial
  | ok a => exact hf a

namespace Script

variable {φ : Type}

/-- The relation `R` allows all that a script may do as long as `I` holds. -/
structure Allows (I : World φ Console → Prop) (R : World φ Console → World φ Console → Prop) :
    Prop where
  log : ∀ w entries, I w → R w (w.withLog entries)
  files : ∀ w files, I w → R w { w with stored := { w.stored with files } }
  console : ∀ w outside, I w → R w { w with outside }

namespace Allows

variable {I : World φ Console → Prop} {R : World φ Console → World φ Console → Prop}

theorem run (h : Allows I R) (runner : Runner φ) (call : Call) :
    (Script.run runner call).run.Obeys I R fun _ => True :=
  fun w hw => ⟨h.files w _ hw, trivial⟩

theorem passOn (h : Allows I R) (ended : Ended) :
    (Script.passOn ended).run.Obeys I R fun _ => True :=
  fun w hw => ⟨h.console w _ hw, trivial⟩

/-! ## Actions and commands -/

theorem logOutput (h : Allows I R) (lines : List (List UInt8)) :
    (Script.logOutput lines : Task φ Console (List String)).Obeys I R := by
  induction lines with
  | nil => exact Task.obeys_pure _
  | cons line lines ih =>
    unfold Script.logOutput
    cases decodeLine line with
    | error fault => exact fun _ => trivial
    | ok s => exact (Task.obeys_remark h.log _).bind fun _ => ih.bind fun _ => Task.obeys_pure _

theorem logErrors (h : Allows I R) (lines : List (List UInt8)) :
    (Script.logErrors lines : Task φ Console Unit).Obeys I R := by
  induction lines with
  | nil => exact Task.obeys_pure _
  | cons line lines ih =>
    unfold Script.logErrors
    cases decodeLine line with
    | error fault => exact Task.obeys_pure _
    | ok s => exact (Task.obeys_remark h.log _).bind fun _ => ih

theorem runScript (h : Allows I R) (s : Setting φ) (destination : Destination) (d : Dependency)
    (script : String) (more : List (String × String)) :
    (s.runScript destination d script more).Obeys I R := by
  unfold Setting.runScript
  refine (Task.obeys_log h.log _).bind fun _ => ?_
  refine (Task.obeys_ofEffect (h.run _ _)).bind fun result => ?_
  cases result with
  | error failure => exact fun _ => trivial
  | ok ended =>
    have hend : ∀ lines : List String, (do
        if ended.code ≠ 0 then throw (.commandFailed script ended.code)
        return lines : Task φ Console (List String)).Obeys I R := by
      intro lines
      dsimp only
      split
      · exact fun _ => trivial
      · exact Task.obeys_pure _
    cases destination with
    | journal => exact (h.logOutput _).bind fun lines => (h.logErrors _).bind fun _ => hend lines
    | console => exact (Task.obeys_ofEffect (h.passOn ended)).bind fun _ => hend []

theorem runAction (h : Allows I R) (s : Setting φ) (d : Dependency) (script? : Option String)
    (more : List (String × String)) : (s.runAction d script? more).Obeys I R := by
  cases script? with
  | none => exact Task.obeys_pure _
  | some script => exact h.runScript s .journal d script more

/-- An action that drops what its script answers. -/
theorem discard_runAction (h : Allows I R) (s : Setting φ) (d : Dependency)
    (script? : Option String) (more : List (String × String)) :
    (discard (s.runAction d script? more) : Task φ Console Unit).Obeys I R :=
  (h.runAction s d script? more).bind fun _ => Task.obeys_pure _

/-- What a backend of scripts does is allowed. -/
theorem backend (h : Allows I R) (s : Setting φ) : s.backend.Obeys I R where
  build d := (h.discard_runAction s d _ _).bind fun _ => Task.obeys_pure _
  deploy d _ := h.discard_runAction s d _ _
  render d _ := (h.runAction s d _ _).bind fun _ => Task.obeys_pure _
  purge d := h.discard_runAction s d _ _
  command d name arguments := by
    have hscript : Task.Obeys I R (ExceptT.mk (pure (commandScript d name arguments))) :=
      fun _ => trivial
    exact hscript.bind fun script =>
      (h.runScript s .console d script []).bind fun _ => Task.obeys_pure _

/-! ## Hooks -/

theorem runEntry (h : Allows I R) (s : HookSetting φ) (dependency : Option String)
    (context : Dictionary) (entry : HookEntry) (event : String) :
    (s.runEntry dependency context entry event).run.Obeys I R fun _ => True := by
  unfold HookSetting.runEntry
  refine Effect.obeys_bind (fun w hw => ⟨h.log w _ hw, trivial⟩) fun _ => ?_
  refine Effect.obeys_bind (h.run _ _) fun result => ?_
  cases result with
  | error failure => trivial
  | ok ended =>
    refine Effect.obeys_bind (h.passOn ended) fun _ => ?_
    split <;> trivial

/-- What hooks do that are scripts is allowed. -/
theorem hooks (h : Allows I R) (s : HookSetting φ) (events : List String)
    (dependency : Option String) (context : Dictionary) :
    (s.hooks events dependency context).run.Obeys I R fun _ => True := by
  unfold HookSetting.hooks
  induction Hook.firings s.entries events with
  | nil => trivial
  | cons firing firings ih => exact Effect.obeys_bind (h.runEntry s _ _ _ _) fun _ => ih

end Allows

end Script

end Cascade
