import Cascade.Proofs.Failure
import Cascade.Proofs.Pool.Routine
import Cascade.Proofs.Store.Entries
import Cascade.Run.Action

/-!
# What actions do to the store

There are three groups.

* Tasks.  `Task.Obeys` says what every step of a task guarantees, whatever is
  in its journal.
* Guarded actions.  Building and deploying have one shape, `Action.guarded`:
  they ask whether there is anything to do, call the backend, and record the
  digest that was taken before.  `Action.recorded` is that digest, said in terms
  of the worlds that the steps of the action see, and `marks_guarded` that
  nothing else is done to the store.
* Purging forgets what was recorded after the backend is through, whatever
  came of it (`marks_purge`).
-/

namespace Cascade

variable {φ β α γ : Type}

/-! ## Tasks -/

namespace Task

theorem run_bind (t : Task φ β α) (f : α → Task φ β γ) (journal : Log.Journal) :
    (t >>= f).run.run journal = (t.run.run journal).bind fun (result, journal) =>
      match result with
      | .ok a => (f a).run.run journal
      | .error e => .done (.error e, journal) := by
  rw [ExceptT.run_bind, StateT.run_bind, Routine.bind_eq]
  congr 1
  funext (result, journal)
  cases result <;> rfl

/-- Every step of the task is in `R` as long as `I` holds before each. -/
def Obeys (I : World φ β → Prop) (R : World φ β → World φ β → Prop) (t : Task φ β α) : Prop :=
  ∀ journal, (t.run.run journal).Obeys I R fun _ => True

variable {I : World φ β → Prop} {R : World φ β → World φ β → Prop}

theorem Obeys.mono {t : Task φ β α} {I' : World φ β → Prop} {R' : World φ β → World φ β → Prop}
    (ht : t.Obeys I R) (hI : ∀ w, I' w → I w) (hR : ∀ w w', I' w → R w w' → R' w w') :
    t.Obeys I' R' :=
  fun journal => (ht journal).mono hI hR fun _ h => h

theorem obeys_pure (a : α) : (pure a : Task φ β α).Obeys I R := fun _ => trivial

theorem Obeys.bind {t : Task φ β α} {f : α → Task φ β γ} (ht : t.Obeys I R)
    (hf : ∀ a, (f a).Obeys I R) : (t >>= f).Obeys I R := by
  intro journal
  rw [run_bind]
  refine (ht journal).bind fun (result, journal) _ => ?_
  cases result with
  | ok a => exact hf a journal
  | error e => trivial

theorem obeys_atomic {f : World φ β → Except Error α × World φ β}
    (h : ∀ w, I w → R w (f w).2) : (atomic f).Obeys I R :=
  fun _ w hw => ⟨h w hw, trivial⟩

theorem obeys_ofEffect {e : Effect φ β α} (h : e.run.Obeys I R fun _ => True) :
    (ofEffect e).Obeys I R :=
  fun _ => h.bind fun _ _ => trivial

theorem Obeys.attempt {t : Task φ β α} (ht : t.Obeys I R) : t.attempt.Obeys I R :=
  fun journal => (ht journal).bind fun _ _ => trivial

/-- What to say about a task that succeeds when its steps see given worlds,
from its answer, its journal and the worlds that it did not see. -/
def along {μ : Type} (t : Task φ β α) (say : α → Log.Journal → List (World φ β) → Option μ)
    (journal : Log.Journal) (seen : List (World φ β)) : Option μ :=
  ((t.run.run journal).along seen).bind fun ((result, journal), left) =>
    match result with
    | .ok a => say a journal left
    | .error _ => none

theorem along_atomic {μ : Type} (f : World φ β → Except Error α × World φ β)
    (say : α → Log.Journal → List (World φ β) → Option μ) (journal : Log.Journal) (w : World φ β)
    (seen : List (World φ β)) : (atomic f).along say journal (w :: seen) =
      match (f w).1 with
      | .ok a => say a journal seen
      | .error _ => none := rfl

/-- A task of which no step was taken has said nothing. -/
theorem along_nil {μ : Type} (t : Task φ β α)
    {say : α → Log.Journal → List (World φ β) → Option μ}
    (hsay : ∀ a journal, say a journal [] = none) (journal : Log.Journal) :
    t.along say journal [] = none := by
  unfold along
  cases t.run.run journal with
  | step update rest => rfl
  | done answer =>
    obtain ⟨result, journal⟩ := answer
    cases result with
    | ok a => exact hsay a journal
    | error e => rfl

theorem map_along {μ ν : Type} (t : Task φ β α)
    (say : α → Log.Journal → List (World φ β) → Option μ) (g : μ → ν) (journal : Log.Journal)
    (seen : List (World φ β)) : (t.along say journal seen).map g =
      t.along (fun a journal left => (say a journal left).map g) journal seen := by
  unfold along
  rw [Option.map_bind]
  congr 1
  funext ((result, journal), left)
  cases result <;> rfl

/-- When only the second part of a task does what counts, the mark is the one
that this part leaves, if it comes to it. -/
theorem bind_marks {μ : Type} {S : μ → World φ β → World φ β → Prop} {P : α → Prop}
    {t : Task φ β α} {f : α → Task φ β γ} {journal : Log.Journal}
    (ht : (t.run.run journal).Obeys I R fun answer => ∀ a, answer.1 = .ok a → P a)
    (mark : α → Log.Journal → List (World φ β) → Option μ)
    (hf : ∀ a journal, P a → ((f a).run.run journal).Marks I R S (mark a journal))
    (hnone : ∀ a journal, mark a journal [] = none) :
    ((t >>= f).run.run journal).Marks I R S (t.along mark journal) := by
  rw [run_bind]
  refine ht.bind_marks (fun (result, journal) left =>
    match result with
    | .ok a => mark a journal left
    | .error _ => none) (fun (result, journal) h => ?_) fun (result, journal) => ?_
  · cases result with
    | ok a => exact hf a journal (h a rfl)
    | error e => trivial
  · cases result with
    | ok a => exact hnone a journal
    | error e => rfl

theorem obeys_inspect (h : ∀ w, I w → R w w) (f : World φ β → α) :
    (inspect f : Task φ β α).Obeys I R :=
  obeys_atomic h

theorem obeys_log (h : ∀ w entries, I w → R w (w.withLog entries)) (entry : Log.Entry) :
    (log entry : Task φ β Unit).Obeys I R :=
  obeys_ofEffect fun w hw => ⟨h w _ hw, trivial⟩

theorem obeys_remark (h : ∀ w entries, I w → R w (w.withLog entries)) (r : Log.Remark) :
    (remark r : Task φ β Unit).Obeys I R :=
  fun _ w hw => ⟨h w _ hw, trivial⟩

end Task

/-- Every step of what a backend does is in `R` as long as `I` holds before
each. -/
structure Backend.Obeys (I : World φ β → Prop) (R : World φ β → World φ β → Prop)
    (b : Backend φ β) : Prop where
  build : ∀ d, (b.build d).Obeys I R
  deploy : ∀ d request, (b.deploy d request).Obeys I R
  render : ∀ d images, (b.render d images).Obeys I R
  purge : ∀ d, (b.purge d).Obeys I R
  command : ∀ d name arguments, (b.command d name arguments).Obeys I R

theorem Backend.Obeys.mono {I I' : World φ β → Prop} {R R' : World φ β → World φ β → Prop}
    {b : Backend φ β} (hb : b.Obeys I R) (hI : ∀ w, I' w → I w)
    (hR : ∀ w w', I' w → R w w' → R' w w') : b.Obeys I' R' where
  build d := (hb.build d).mono hI hR
  deploy d request := (hb.deploy d request).mono hI hR
  render d images := (hb.render d images).mono hI hR
  purge d := (hb.purge d).mono hI hR
  command d name arguments := (hb.command d name arguments).mono hI hR

/-! ## Worlds -/

/-- Nothing happens to the entries of a store of some kind. -/
def World.Keeps [FileSystem φ] (kind : Stored φ → Prop) (w w' : World φ β) : Prop :=
  kind w'.stored ∧ w'.stored.entry = w.stored.entry

/-- One entry of a store of some kind is set or, with `none`, dropped. -/
def World.Sets [FileSystem φ] (kind : Stored φ → Prop) (id : String) (value : Option String)
    (w w' : World φ β) : Prop :=
  kind w'.stored ∧ w'.stored.entry = Function.update w.stored.entry id value

namespace Action

/-! ## What the backend is asked for -/

/-- What building asks of the backend. -/
def buildCalls (b : Backend φ β) (d : Dependency) : Task φ β Unit :=
  discard (buildImages b d false)

/-- What deploying asks of the backend. -/
def deployCalls (b : Backend φ β) (flags : DeployFlags) (d : Dependency) : Task φ β Unit := do
  let images ← buildImages b d flags.skipBuild
  if !flags.skipDeploy then b.deploy d ⟨flags.forceDeploy, images⟩

/-- What purging asks of the backend. -/
def purgeCalls (b : Backend φ β) (d : Dependency) : Task φ β Unit := do
  match ← (b.purge d).attempt with
  | .ok () => pure ()
  | .error e =>
    .log ⟨.error, .manager, "error purging dependency",
      [.shown "dependency" d.name, .shown "error" e.message]⟩
    .remark (.warn ("Error purging dependency " ++ d.id ++ ": " ++ e.message))

section Calls

variable {I : World φ β → Prop} {R : World φ β → World φ β → Prop} {b : Backend φ β}

theorem obeys_buildImages (hb : b.Obeys I R) (hR : ∀ w w', I w → w'.stored = w.stored → R w w')
    (d : Dependency) (skip : Bool) : (buildImages b d skip).Obeys I R := by
  unfold buildImages
  split
  · exact (Task.obeys_remark (fun w _ hw => hR w _ hw rfl) _).bind fun _ => Task.obeys_pure _
  · refine (hb.build d).bind fun images => ?_
    exact (Task.obeys_atomic fun w hw => hR w _ hw rfl).bind fun _ => Task.obeys_pure _

theorem obeys_buildCalls (hb : b.Obeys I R) (hR : ∀ w w', I w → w'.stored = w.stored → R w w')
    (d : Dependency) : (buildCalls b d).Obeys I R :=
  (obeys_buildImages hb hR d false).bind fun _ => Task.obeys_pure _

theorem obeys_deployCalls (hb : b.Obeys I R) (hR : ∀ w w', I w → w'.stored = w.stored → R w w')
    (flags : DeployFlags) (d : Dependency) : (deployCalls b flags d).Obeys I R := by
  refine (obeys_buildImages hb hR d flags.skipBuild).bind fun images => ?_
  cases flags.skipDeploy with
  | false => exact hb.deploy d _
  | true => exact Task.obeys_pure _

theorem obeys_purgeCalls (hb : b.Obeys I R) (hR : ∀ w w', I w → w'.stored = w.stored → R w w')
    (d : Dependency) : (purgeCalls b d).Obeys I R := by
  refine (hb.purge d).attempt.bind fun result => ?_
  cases result with
  | ok _ => exact Task.obeys_pure _
  | error e =>
    exact (Task.obeys_log (fun w _ hw => hR w _ hw rfl) _).bind fun _ =>
      Task.obeys_remark (fun w _ hw => hR w _ hw rfl) _

/-- Rendering does nothing to the store. -/
theorem obeys_render {sink : String → Effect φ β Unit} (hb : b.Obeys I R)
    (hsink : ∀ text, (sink text).run.Obeys I R fun _ => True)
    (hR : ∀ w w', I w → w'.stored = w.stored → R w w') (skip : Bool) (d : Dependency) :
    (render b sink skip d).Obeys I R := by
  refine ((obeys_buildImages hb hR d skip).bind fun _ => Task.obeys_pure _).bind fun _ => ?_
  refine (Task.obeys_inspect (fun w hw => hR w _ hw rfl) _).bind fun images => ?_
  exact (hb.render d images).bind fun text => Task.obeys_ofEffect (hsink text)

end Calls

variable [FileSystem φ] {kind : Stored φ → Prop} {legal : String → String → Prop}

/-! ## Guarded actions -/

/-- Ask whether there is anything to do, do it, and record the digest that
was taken before. -/
def guarded (d : Dependency) (force : Bool) (message : String) (calls : Task φ β Unit) :
    Task φ β Unit := do
  match ← prepare d force with
  | none => .remark (.info message)
  | some hash =>
    calls
    recordHash d hash

theorem build_eq (b : Backend φ β) (force : Bool) (d : Dependency) :
    build b force d =
      guarded d force "dependency unchanged since last build" (buildCalls b d) := rfl

theorem deploy_eq (b : Backend φ β) (flags : DeployFlags) (d : Dependency) :
    deploy b flags d =
      guarded d flags.force "dependency unchanged since last deploy" (deployCalls b flags d) := by
  unfold deploy guarded deployCalls
  congr 1
  funext found
  cases found with
  | none => rfl
  | some hash =>
    simp only [bind_assoc]
    congr 1
    funext images
    cases flags.skipDeploy <;> simp

/-- The digest that has been recorded once the steps of some calls, and the
one that records, have seen some worlds: the calls succeeded, and the store took
the digest. -/
def recordedBy (d : Dependency) (hash : String) (calls : Task φ β Unit) (journal : Log.Journal)
    (seen : List (World φ β)) : Option String :=
  calls.along (fun _ _ left => left.head?.bind fun w =>
    if (d.recordHash hash w.stored).1.isOk then some hash else none) journal seen

/-- The digest that a guarded action has recorded once its steps have seen
some worlds.  There was something to do in the first of them. -/
def recorded (d : Dependency) (force : Bool) (calls : Task φ β Unit) (journal : Log.Journal) :
    List (World φ β) → Option String
  | [] => none
  | w :: seen =>
    match d.prepare w.stored force with
    | .ok (some hash) => recordedBy d hash calls journal seen
    | _ => none

theorem directoryHash_of_prepare {d : Dependency} {s : Stored φ} {force : Bool} {hash : String}
    (h : d.prepare s force = .ok (some hash)) : d.directoryHash s.files = .ok hash := by
  obtain ⟨hash', hdigest, h⟩ := Failure.bind_eq_ok.mp h
  split at h
  · cases h
    exact hdigest
  · obtain ⟨recorded, _, h⟩ := Failure.bind_eq_ok.mp h
    simp only [pure, Except.pure, Except.ok.injEq] at h
    split at h
    · cases h
    · cases h
      exact hdigest

/-- There is nothing to do if the digest of a directory is the one that is
stored. -/
theorem prepare_eq_none {d : Dependency} {s : Stored φ} {force : Bool}
    (h : d.prepare s force = .ok none) : ∃ hash, d.directoryHash s.files = .ok hash ∧
      s.store.load s.files d.id = .ok (some hash) := by
  obtain ⟨hash, hdigest, h⟩ := Failure.bind_eq_ok.mp h
  refine ⟨hash, hdigest, ?_⟩
  split at h
  · cases h
  · obtain ⟨recorded, hload, h⟩ := Failure.bind_eq_ok.mp h
    simp only [pure, Except.pure, Except.ok.injEq] at h
    split at h
    · rename_i hsame
      rw [← hsame]
      exact Failure.mapError_eq_ok.mp hload
    · cases h

/-- There is nothing to do when the digest is recorded, unless it is forced. -/
theorem prepare_of_recorded {d : Dependency} {s : Stored φ} {hash : String}
    (hdigest : d.directoryHash s.files = .ok hash)
    (hload : s.store.load s.files d.id = .ok (some hash)) : d.prepare s false = .ok none := by
  unfold Dependency.prepare
  rw [hdigest, hload]
  change Except.ok (if some hash = some hash then none else some hash) = _
  rw [if_pos rfl]

theorem sets_recordHash (hk : Stored.Keeping kind legal) {d : Dependency} {hash : String}
    (hlegal : legal d.id hash) {s : Stored φ} (hs : kind s) :
    kind (d.recordHash hash s).2 ∧ (d.recordHash hash s).2.entry =
      if (d.recordHash hash s).1.isOk then Function.update s.entry d.id (some hash)
      else s.entry := by
  have hok : (d.recordHash hash s).1.isOk = (s.save d.id hash).1.isOk :=
    Failure.isOk_mapError ..
  rw [hok]
  exact hk.save hs hlegal

theorem marks_recordHash (hk : Stored.Keeping kind legal) {d : Dependency} {hash : String}
    (hlegal : legal d.id hash) (journal : Log.Journal) :
    ((recordHash d hash : Task φ β Unit).run.run journal).Marks (fun w => kind w.stored)
      (World.Keeps kind) (World.Sets kind d.id) fun seen => (seen.head?.bind fun w =>
        if (d.recordHash hash w.stored).1.isOk then some hash else none).map some := by
  intro w hw
  refine ⟨?_, trivial⟩
  have hsets := sets_recordHash hk hlegal hw
  simp only [List.head?_cons, List.head?_nil, Option.bind_some, Option.bind_none]
  split at hsets
  · rename_i hok
    rw [if_pos hok]
    exact Or.inr ⟨some hash, rfl, rfl, hsets⟩
  · rename_i hok
    rw [if_neg hok]
    exact Or.inl ⟨hsets, rfl⟩

/-- A guarded action records one digest and does nothing else to the store,
if its calls do nothing to it. -/
theorem marks_guarded (hk : Stored.Keeping kind legal) {d : Dependency} {calls : Task φ β Unit}
    (hcalls : calls.Obeys (fun w => kind w.stored) (World.Keeps kind))
    (hlegal : ∀ {files : φ} {hash}, d.directoryHash files = .ok hash → legal d.id hash)
    (force : Bool) (message : String) (journal : Log.Journal) :
    ((guarded d force message calls).run.run journal).Marks (fun w => kind w.stored)
      (World.Keeps kind) (World.Sets kind d.id)
      fun seen => (recorded d force calls journal seen).map some := by
  have hprepare : ((prepare d force).run.run journal : Routine (World φ β) _).Obeys
      (fun w => kind w.stored) (World.Keeps kind) fun answer =>
        ∀ found, answer.1 = .ok found → ∀ hash, found = some hash → legal d.id hash := by
    refine fun w hw => ⟨⟨hw, rfl⟩, fun found h hash hfound => ?_⟩
    cases hfound
    exact hlegal (directoryHash_of_prepare h)
  have hmark : (fun seen => (recorded d force calls journal seen).map some) =
      (prepare d force).along (fun found journal left => found.bind fun hash =>
        (recordedBy d hash calls journal left).map some) journal := by
    funext seen
    cases seen with
    | nil => rfl
    | cons w seen =>
      rw [recorded, prepare, Task.along_atomic]
      cases d.prepare w.stored force with
      | error e => rfl
      | ok found => cases found <;> rfl
  rw [guarded, hmark]
  refine Task.bind_marks hprepare _ (fun found journal hfound => ?_) fun found journal => ?_
  · cases found with
    | none => exact (Task.obeys_remark (fun _ _ h => ⟨h, rfl⟩) _ journal).marks none
    | some hash =>
      have hmarks := Task.bind_marks (S := World.Sets kind d.id)
        ((hcalls journal).mono (fun _ h => h) (fun _ _ _ h => h) fun _ _ _ _ => trivial) _
        (fun _ journal _ => marks_recordHash hk (hfound hash rfl) journal) fun _ _ => rfl
      simpa only [recordedBy, Task.map_along, Option.bind_some] using hmarks
  · cases found with
    | none => rfl
    | some hash =>
      rw [Option.bind_some, recordedBy, Task.along_nil _ fun _ _ => rfl, Option.map_none]

/-- The digest that a guarded action is to record once its steps have seen
some worlds: the one that was taken in the first of them, if there was something
to do and all calls have succeeded. -/
def earned (d : Dependency) (force : Bool) (calls : Task φ β Unit) (journal : Log.Journal) :
    List (World φ β) → Option String
  | [] => none
  | w :: seen =>
    match d.prepare w.stored force with
    | .ok (some hash) => calls.along (fun _ _ _ => some hash) journal seen
    | _ => none

theorem along_prepare (d : Dependency) (force : Bool) (journal : Log.Journal) (w : World φ β)
    (seen : List (World φ β)) : ((prepare d force).run.run journal).along (w :: seen) =
      some ((d.prepare w.stored force, journal), seen) := rfl

/-- What was recorded was earned. -/
theorem earned_of_recorded {d : Dependency} {force : Bool} {calls : Task φ β Unit}
    {journal : Log.Journal} {seen : List (World φ β)} {hash : String}
    (h : recorded d force calls journal seen = some hash) :
    earned d force calls journal seen = some hash := by
  cases seen with
  | nil => cases h
  | cons w seen =>
    rw [recorded] at h
    rw [earned]
    cases hprepare : d.prepare w.stored force with
    | error e =>
      rw [hprepare] at h
      cases h
    | ok found =>
      rw [hprepare] at h
      cases found with
      | none => cases h
      | some hash' =>
        change recordedBy d hash' calls journal seen = some hash at h
        change calls.along (fun _ _ _ => some hash') journal seen = some hash
        unfold recordedBy Task.along at h
        unfold Task.along
        obtain ⟨⟨⟨result, journal'⟩, left⟩, hend, hsay⟩ := Option.bind_eq_some_iff.mp h
        rw [hend]
        cases result with
        | error e => cases hsay
        | ok _ =>
          obtain ⟨w', _, hrecord⟩ := Option.bind_eq_some_iff.mp hsay
          split at hrecord
          · exact hrecord
          · cases hrecord

/-- How a guarded action has come to its end: nothing was to be recorded, which is a
success only if there was nothing to do, or it has earned the digest that its first step
took, and the store was asked once to record it. -/
theorem guarded_cases {d : Dependency} {force : Bool} {message : String}
    {calls : Task φ β Unit} {journal : Log.Journal} {seen : List (World φ β)}
    {answer : Except Error Unit × Log.Journal}
    (hdone : ((guarded d force message calls).run.run journal).after seen = some (.done answer)) :
    ∃ w ∈ seen.head?,
      (earned d force calls journal seen = none ∧ recorded d force calls journal seen = none ∧
        (answer.1 = .ok () → d.prepare w.stored force = .ok none)) ∨
      ∃ hash, d.directoryHash w.stored.files = .ok hash ∧
        earned d force calls journal seen = some hash ∧
        ∃ w' ∈ seen, answer.1 = (d.recordHash hash w'.stored).1 ∧
          recorded d force calls journal seen =
            if (d.recordHash hash w'.stored).1.isOk then some hash else none := by
  have halong := Routine.along_eq_of_after hdone
  rw [guarded, Task.run_bind, Routine.along_bind] at halong
  cases seen with
  | nil => cases halong
  | cons w seen =>
    refine ⟨w, rfl, ?_⟩
    rw [along_prepare, Option.bind_some] at halong
    rw [earned, recorded]
    cases hprepare : d.prepare w.stored force with
    | error e =>
      rw [hprepare] at halong
      cases halong
      exact Or.inl ⟨rfl, rfl, nofun⟩
    | ok found =>
      rw [hprepare] at halong
      cases found with
      | none => exact Or.inl ⟨rfl, rfl, fun _ => rfl⟩
      | some hash =>
        dsimp only at halong ⊢
        rw [Task.run_bind, Routine.along_bind] at halong
        unfold recordedBy Task.along
        rcases hend : (calls.run.run journal).along seen with _ | ⟨⟨result, journal'⟩, left⟩
        · rw [hend] at halong
          cases halong
        rw [hend] at halong
        cases result with
        | error e =>
          cases halong
          exact Or.inl ⟨rfl, rfl, nofun⟩
        | ok _ =>
          cases left with
          | nil => cases halong
          | cons w' left =>
            have hmem : w' ∈ seen := (Routine.suffix_of_along hend).subset (List.mem_cons_self ..)
            exact Or.inr ⟨hash, directoryHash_of_prepare hprepare, rfl, w',
              List.mem_cons_of_mem _ hmem,
              congrArg (fun answer => answer.1.1) (Option.some.inj halong).symm, rfl⟩

/-- At its end, a guarded action has recorded the digest that it is to record,
if the store cannot fail. -/
theorem recorded_of_done {d : Dependency} {force : Bool} {message : String}
    {calls : Task φ β Unit} {journal : Log.Journal} {seen : List (World φ β)}
    {answer : Except Error Unit × Log.Journal}
    (hdone : ((guarded d force message calls).run.run journal).after seen = some (.done answer))
    (hstore : ∀ w ∈ seen, ∀ hash, (d.recordHash hash w.stored).1.isOk = true) :
    recorded d force calls journal seen = earned d force calls journal seen := by
  obtain ⟨_, _, ⟨hearned, hrecorded, _⟩ | ⟨hash, _, hearned, w, hw, _, hrecorded⟩⟩ :=
    guarded_cases hdone
  · rw [hearned, hrecorded]
  · rw [hearned, hrecorded, if_pos (hstore w hw hash)]

/-- When a guarded action has succeeded, its first step has seen a world in which
there was nothing to do, or the digest that it took there is recorded. -/
theorem guarded_of_done {d : Dependency} {force : Bool} {message : String}
    {calls : Task φ β Unit} {journal journal' : Log.Journal} {seen : List (World φ β)}
    (hdone : ((guarded d force message calls).run.run journal).after seen =
      some (.done (.ok (), journal'))) :
    ∃ w ∈ seen.head?, (d.prepare w.stored force = .ok none ∧
        recorded d force calls journal seen = none) ∨
      ∃ hash, d.directoryHash w.stored.files = .ok hash ∧
        recorded d force calls journal seen = some hash := by
  obtain ⟨w, hw, ⟨_, hrecorded, hnothing⟩ | ⟨hash, hdigest, _, w', _, hanswer, hrecorded⟩⟩ :=
    guarded_cases hdone
  · exact ⟨w, hw, Or.inl ⟨hnothing rfl, hrecorded⟩⟩
  · refine ⟨w, hw, Or.inr ⟨hash, hdigest, ?_⟩⟩
    rw [hrecorded, ← hanswer]
    rfl

/-- A guarded action succeeds and calls nobody as long as there is nothing to
do. -/
theorem obeys_guarded_unchanged {d : Dependency} {force : Bool} {message : String}
    {calls : Task φ β Unit} {I : World φ β → Prop}
    (hunchanged : ∀ w, I w → d.prepare w.stored force = .ok none)
    (hlog : ∀ w entries, I w → I (w.withLog entries)) (journal : Log.Journal) :
    ((guarded d force message calls).run.run journal).Obeys I (fun _ w => I w)
      fun answer => answer.1 = .ok () := by
  have hprepare : ((prepare d force).run.run journal : Routine (World φ β) _).Obeys I
      (fun _ w => I w) fun answer => answer.1 = .ok none :=
    fun w hw => ⟨hw, hunchanged w hw⟩
  rw [guarded, Task.run_bind]
  refine hprepare.bind fun (found, journal) hfound => ?_
  dsimp only at hfound
  subst hfound
  exact fun w hw => ⟨hlog w _ hw, rfl⟩

/-! ## Purging -/

/-- Forget what was recorded; a failure is noted. -/
def forget (d : Dependency) : Task φ β Unit := do
  match ← (forgetHash d).attempt with
  | .ok () => pure ()
  | .error e => .remark (.warn ("Error removing cached hash: " ++ e.message))

theorem purge_eq (b : Backend φ β) (d : Dependency) :
    purge b d = purgeCalls b d >>= fun _ => forget d := by
  unfold purge purgeCalls forget
  rw [bind_assoc]
  congr 1
  funext result
  cases result with
  | ok _ => rfl
  | error e => exact (bind_assoc ..).symm

/-- What purging has done to the entry of a dependency once its steps have seen
some worlds: it is dropped when the backend is through, unless the store fails. -/
def forgotten (b : Backend φ β) (d : Dependency) (journal : Log.Journal)
    (seen : List (World φ β)) : Option (Option String) :=
  (purgeCalls b d).along (fun _ _ left => left.head?.bind fun w =>
    if (d.forgetHash w.stored).1.isOk then some none else none) journal seen

theorem forgotten_nil (b : Backend φ β) (d : Dependency) (journal : Log.Journal) :
    forgotten b d journal [] = none :=
  Task.along_nil _ (fun _ _ => rfl) journal

/-- Purging records nothing. -/
theorem eq_none_of_forgotten {b : Backend φ β} {d : Dependency} {journal : Log.Journal}
    {seen : List (World φ β)} {value : Option String}
    (h : forgotten b d journal seen = some value) : value = none := by
  unfold forgotten Task.along at h
  obtain ⟨⟨⟨result, journal'⟩, left⟩, _, hsay⟩ := Option.bind_eq_some_iff.mp h
  cases result with
  | error e => cases hsay
  | ok _ =>
    obtain ⟨w, _, hforget⟩ := Option.bind_eq_some_iff.mp hsay
    split at hforget
    · cases hforget
      rfl
    · cases hforget

theorem sets_forgetHash (hk : Stored.Keeping kind legal) (d : Dependency) {s : Stored φ}
    (hs : kind s) : kind (d.forgetHash s).2 ∧ (d.forgetHash s).2.entry =
      if (d.forgetHash s).1.isOk then Function.update s.entry d.id none else s.entry := by
  have hok : (d.forgetHash s).1.isOk = (s.remove d.id).1.isOk := Failure.isOk_mapError ..
  rw [hok]
  exact hk.remove hs d.id

theorem marks_forget (hk : Stored.Keeping kind legal) (d : Dependency) (journal : Log.Journal) :
    ((forget d : Task φ β Unit).run.run journal).Marks (fun w => kind w.stored)
      (World.Keeps kind) (World.Sets kind d.id) fun seen => seen.head?.bind fun w =>
        if (d.forgetHash w.stored).1.isOk then some none else none := by
  intro w hw
  have hsets := sets_forgetHash hk d hw
  simp only [List.head?_cons, List.head?_nil, Option.bind_some, Option.bind_none]
  refine ⟨?_, ?_⟩
  · split at hsets
    · rename_i hok
      rw [if_pos hok]
      exact Or.inr ⟨none, trivial, rfl, hsets⟩
    · rename_i hok
      rw [if_neg hok]
      exact Or.inl ⟨hsets, rfl⟩
  · -- whatever follows, it notes a failure at most
    have hrest : ∀ result : Except Error Unit, ((match result with
        | .ok () => pure ()
        | .error e => .remark (.warn ("Error removing cached hash: " ++ e.message)) :
          Task φ β Unit).run.run journal).Obeys (fun w => kind w.stored) (World.Keeps kind)
          fun _ => True := by
      intro result
      cases result with
      | ok _ => exact Task.obeys_pure () journal
      | error e => exact Task.obeys_remark (fun _ _ h => ⟨h, rfl⟩) _ journal
    exact (hrest _).marks _

omit [FileSystem φ] in
/-- Whatever the backend answers, purging goes on. -/
theorem purgeCalls_ok (b : Backend φ β) (d : Dependency) (journal : Log.Journal) :
    ((purgeCalls b d).run.run journal).Obeys (fun _ => True) (fun _ _ => True)
      fun answer => answer.1 = .ok () := by
  have hattempt : (((b.purge d).attempt).run.run journal).Obeys (fun _ => True) (fun _ _ => True)
      fun answer => ∃ result, answer.1 = .ok result := by
    refine Routine.Obeys.bind (P := fun _ => True) ?_ fun answer _ => ⟨answer.1, rfl⟩
    exact Routine.obeys_trivial _
  unfold purgeCalls
  rw [Task.run_bind]
  refine hattempt.bind fun (answer, journal) ⟨result, hanswer⟩ => ?_
  dsimp only at hanswer
  subst hanswer
  cases result with
  | ok _ => exact rfl
  | error e => exact fun _ _ => ⟨trivial, fun _ _ => ⟨trivial, rfl⟩⟩

/-- At its end, purging has dropped the entry, if the store cannot fail. -/
theorem forgotten_of_done {b : Backend φ β} {d : Dependency} {journal : Log.Journal}
    {seen : List (World φ β)} {answer : Except Error Unit × Log.Journal}
    (hdone : ((purge b d).run.run journal).after seen = some (.done answer))
    (hstore : ∀ w ∈ seen, (d.forgetHash w.stored).1.isOk = true) :
    forgotten b d journal seen = some none := by
  have halong := Routine.along_eq_of_after hdone
  rw [purge_eq, Task.run_bind, Routine.along_bind] at halong
  unfold forgotten Task.along
  rcases hend : ((purgeCalls b d).run.run journal).along seen with _ | ⟨⟨result, journal'⟩, left⟩
  · rw [hend] at halong
    cases halong
  have hresult := (purgeCalls_ok b d journal).along (fun _ _ => trivial) hend
  dsimp only at hresult
  subst hresult
  rw [hend] at halong
  cases left with
  | nil => cases halong
  | cons w left =>
    exact if_pos (hstore w ((Routine.suffix_of_along hend).subset (List.mem_cons_self ..)))

/-- Purging drops one entry and does nothing else to the store, if the
backend does nothing to it. -/
theorem marks_purge (hk : Stored.Keeping kind legal) {b : Backend φ β}
    (hb : b.Obeys (fun w => kind w.stored) (World.Keeps kind)) (d : Dependency)
    (journal : Log.Journal) :
    ((purge b d).run.run journal).Marks (fun w => kind w.stored) (World.Keeps kind)
      (World.Sets kind d.id) (forgotten b d journal) := by
  rw [purge_eq]
  have hcalls := obeys_purgeCalls hb (fun w w' hw h => ⟨h ▸ hw, by rw [h]⟩) d journal
  exact Task.bind_marks (hcalls.mono (fun _ h => h) (fun _ _ _ h => h) fun _ _ _ _ => trivial) _
    (fun _ journal _ => marks_forget hk d journal) fun _ _ => rfl

end Action

end Cascade
