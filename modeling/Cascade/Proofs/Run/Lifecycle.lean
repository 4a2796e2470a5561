import Cascade.Files.Memory
import Cascade.Proofs.Graph.Names
import Cascade.Proofs.Run.Chronicle
import Cascade.Proofs.Run.Faithful

/-!
# Hooks and actions in their order

What is noted in a run about one dependency is a part of
`before, action, after` or `before, action, error`, whatever fails and however
the workers move, and the notes about different dependencies follow the order
of the run: `Plan.Walk` says this of the notes of workers, and
`Undertaking.Trace` of those of an undertaking, batch events included.

There are three groups.

* Walks.  `Crew.Chronicled.walk` reads a walk from the chronicle of a crew that
  has come to its end.
* Batch events.  `withBatchHooks_of_error` and `withBatchHooks_of_ok` are what a
  run between batch events comes to.
* Undertakings.  `run_trace` is the main result: every run is an observed one
  without its notes, and the notes of an observed one are a trace.
-/

namespace Cascade

open Note (about pair)
open Relation

variable {φ β : Type}

/-! ## Walks -/

namespace Run

/-- What workers note on their walk over the dependencies of a graph. -/
structure Plan.Walk (p : Plan φ β) (g : DependencyGraph) (notes : List Note) : Prop where
  /-- All notes are about dependencies to act upon. -/
  acted : ∀ n ∈ notes, ∃ claim, g.Bears claim ∧ p.acts claim.payload = true ∧
    n.subject? = some claim.id
  /-- Nothing is noted about a dependency that is not one to act upon. -/
  passed : ∀ claim, g.Bears claim → p.acts claim.payload = false → about claim.id notes = []
  /-- Nothing is noted about a dependency, or a whole course. -/
  courses : ∀ claim, g.Bears claim → about claim.id notes = [] ∨
    ∃ outcome, p.Course claim.payload (about claim.id notes) outcome
  /-- Going forward, a dependency is begun when the actions on all that is below
  it, and the hooks after them, have succeeded. -/
  forward : p.verb.direction = .forward → ∀ d e, g.Bears d → g.Bears e →
    p.acts e.payload = true → TransGen g.HasChild d.id e.id → ∀ pre post,
    notes = pre ++ .call (p.announcement .before d.payload) :: post →
    .answer (.action e.payload) (.ok ()) ∈ pre ∧
      .answer (p.announcement .after e.payload) (.ok ()) ∈ pre
  /-- In reverse, a dependency is begun when the last has been noted about all
  that is above it. -/
  reverse : p.verb.direction = .reverse → ∀ d e, g.Bears d → g.Bears e →
    p.acts d.payload = true → TransGen g.HasChild d.id e.id → ∀ pre post,
    notes = pre ++ .call (p.announcement .before e.payload) :: post →
    (∃ outcome, p.Course d.payload (about d.id pre) outcome) ∧
      ∀ n ∈ post, n.subject? ≠ some d.id

/-- A course that ends well on a dependency to act upon has noted that the
action and the hooks after it succeeded. -/
theorem Plan.Course.done_of_isOk {p : Plan φ β} {d : Dependency} {own : List Note}
    {outcome : Except Error Unit} (h : p.Course d own outcome) (hok : outcome.isOk = true)
    (hacts : p.acts d = true) : .answer (.action d) (.ok ()) ∈ own ∧
      .answer (p.announcement .after d) (.ok ()) ∈ own := by
  cases h with
  | passed hpassed =>
    rw [hacts] at hpassed
    cases hpassed
  | halted _ e => cases hok
  | done hprior =>
    cases hprior
    exact ⟨by simp [pair], by simp [pair]⟩
  | failed _ => cases hok

namespace Crew

/-- A run that has come to its end has noted a walk. -/
theorem Chronicled.walk {p : Plan φ β} {g : DependencyGraph} {base notes : List Note}
    {c : Crew φ (Observed β)} (hc : c.Chronicled p g base notes)
    (hs : c.Sound p.verb.direction g) (hg : g.Arranged)
    (hended : ∀ duty ∈ c.duties, ∃ failure, duty = .ended failure) : p.Walk g notes := by
  have hh := hg.hierarchy
  have hne {d e : Claim Dependency} (h : TransGen g.HasChild d.id e.id) : d.id ≠ e.id :=
    fun he => Graph.Acyclic.not_transGen_hasChild hh.acyclic _ (he ▸ h)
  have hsubject (phase : Hook.Phase) {claim : Claim Dependency} (hb : g.Bears claim) :
      (Note.call (p.announcement phase claim.payload)).subject? = some claim.id := by
    rw [← hg.keyed claim hb]
    exact p.subject?_announcement phase claim.payload
  refine ⟨fun n hn => ?_, fun claim hb hpassed => ?_, fun claim hb => ?_,
    fun hforward d e hd he hacts hbelow pre post hsplit => ?_,
    fun hreverse d e hd he hacts habove pre post hsplit => ?_⟩
  · obtain ⟨claim, hb, hacts, hid, _⟩ := hc.known n hn
    exact ⟨claim, hb, hacts, hid⟩
  · refine Note.about_append_of_ne (fun n hn hid => ?_) []
    obtain ⟨claim', hb', hacts, hid', _⟩ := hc.known n hn
    rw [hid, Option.some.injEq] at hid'
    obtain rfl := hb'.unique hh.consistent hb hid'.symm
    rw [hpassed] at hacts
    cases hacts
  · rcases List.eq_nil_or_concat (about claim.id notes) with hnil | ⟨_, n, hlast⟩
    · exact Or.inl hnil
    · have hn : n ∈ about claim.id notes := by
        rw [hlast]
        simp
      obtain ⟨hn, hid⟩ := Note.mem_about.mp hn
      obtain ⟨claim', _, _, hid', hout⟩ := hc.known n hn
      rw [hid, Option.some.injEq] at hid'
      obtain ⟨outcome, _, hconcluded⟩ := hc.concluded_of_ended hs hg hended hb (hid' ▸ hout)
      exact Or.inr ⟨outcome, hconcluded.course⟩
  · have hbefore : TransGen (g.Before p.verb.direction) e.id d.id :=
      hforward ▸ Graph.transGen_before_forward hbelow
    have hn : .call (p.announcement .before d.payload) ∈ notes := by simp [hsplit]
    obtain ⟨claim, outcome, hb, hid, hprunes, hconcluded⟩ :=
      hc.concluded_before hs hg hn (hsubject .before hd) hbefore
    obtain rfl := hb.unique hh.consistent he hid
    have hok : outcome.isOk = true := by simpa [hforward, Traversal.prunes] using hprunes
    obtain ⟨haction, hafter⟩ := hconcluded.course.done_of_isOk hok hacts
    rw [(hc.about_pre hsplit (hsubject .before hd) (hne hbelow) hbefore).1] at haction hafter
    exact ⟨(Note.mem_about.mp haction).1, (Note.mem_about.mp hafter).1⟩
  · have hroot : g.position? d.id ≠ some Graph.root := fun h => by
      obtain ⟨q, b, hq, hbare, hid, _⟩ := hd
      have hat : g.idAt? q = some d.id := by rw [Graph.idAt?, hbare, Option.map_some, hid]
      exact hq (hh.consistent.position_unique hat (hh.consistent.registered.mp h))
    have hbefore : TransGen (g.Before p.verb.direction) d.id e.id :=
      hreverse ▸ hh.transGen_before_reverse habove hroot
    have hn : .call (p.announcement .before e.payload) ∈ notes := by simp [hsplit]
    obtain ⟨claim, outcome, hb, hid, _, hconcluded⟩ :=
      hc.concluded_before hs hg hn (hsubject .before he) hbefore
    obtain rfl := hb.unique hh.consistent hd hid
    obtain ⟨hpre, hpost⟩ := hc.about_pre hsplit (hsubject .before he) (hne habove).symm hbefore
    exact ⟨⟨outcome, hpre ▸ hconcluded.course⟩, hpost⟩

/-- Workers note a walk, however they move. -/
theorem walk_work (p : Plan φ β) {g : DependencyGraph} (hg : g.Arranged) (schedule : List Nat)
    (workers : Nat) (w : World φ (Observed β)) :
    ∃ notes, (Project.work p.observed schedule workers g w).shared.world.notes =
      w.notes ++ notes ∧ p.Walk g notes := by
  have hattested : (crew p.observed schedule workers g w).Attested p g w.notes :=
    attested_follow p hg workers w _
  obtain ⟨notes, hchronicled⟩ := hattested.chronicled
  refine ⟨notes, ?_, hchronicled.walk hattested.toSound hg fun _ =>
    ended_of_mem_crew p.observed schedule workers hg.hierarchy hg.laden w⟩
  rw [work_eq]
  exact hchronicled.log

end Crew

end Run

namespace Project

open Run

/-! ## Batch events -/

/-- How the hooks before a run are called. -/
def openingCall (verb : Verb) : Call := .hooks [Hook.batchEvent .before verb] none ∅

/-- How the hooks after a run are called, or those upon its failure. -/
def closingCall (verb : Verb) : Except Error Outcome → Call
  | .ok outcome => .hooks [Hook.batchEvent .after verb] none
      (Std.TreeMap.ofList [("dependencies", ",".intercalate (outcome.roots.map (·.name)))])
  | .error e => .hooks [Hook.batchEvent .error verb] none
      (Std.TreeMap.ofList [("error", e.message)])

/-- Fire the batch event that closes a run. -/
def fireClosing (p : Project φ β) (verb : Verb) : Except Error Outcome → Session φ β Unit
  | .ok outcome => p.fireBatch .after verb
      (Std.TreeMap.ofList [("dependencies", ",".intercalate (outcome.roots.map (·.name)))])
  | .error e => p.fireBatch .error verb (Std.TreeMap.ofList [("error", e.message)])

/-- If the hooks before a run fail, nothing else happens. -/
theorem withBatchHooks_of_error {p : Project φ β} {verb : Verb} {w w₁ : World φ β} {e : Error}
    (h : (p.fireBatch .before verb ∅).run.run w = (.error e, w₁)) (run : Session φ β Outcome) :
    (p.withBatchHooks verb run).run.run w = (.error e, w₁) := by
  unfold withBatchHooks
  rw [run_bind, h]

/-- If the hooks before a run succeed, then it is done, and its result stands
unless the event that closes it fails. -/
theorem withBatchHooks_of_ok {p : Project φ β} {verb : Verb} {w w₁ w₂ : World φ β}
    (h : (p.fireBatch .before verb ∅).run.run w = (.ok (), w₁)) (run : Session φ β Outcome)
    {handled : Except Error Outcome} (hrun : run.run.run w₁ = (handled, w₂)) :
    (p.withBatchHooks verb run).run.run w =
      (((p.fireClosing verb handled).run.run w₂).1.bind fun _ => handled,
        ((p.fireClosing verb handled).run.run w₂).2) := by
  unfold withBatchHooks
  rw [run_bind, h]
  dsimp only
  rw [run_bind, attempt_run, hrun]
  cases handled with
  | ok outcome =>
    dsimp only
    rw [run_bind, fireClosing]
    rcases (p.fireBatch .after verb _).run.run w₂ with ⟨closed, w₃⟩
    cases closed <;> rfl
  | error e =>
    dsimp only
    rw [run_bind, fireClosing]
    rcases (p.fireBatch .error verb _).run.run w₂ with ⟨closed, w₃⟩
    cases closed <;> rfl

/-- A batch event is noted, and how its hooks answer. -/
theorem notes_fireBatch (p : Project φ β) (phase : Hook.Phase) (verb : Verb)
    (context : Dictionary) (w : World φ (Observed β)) :
    ((p.observed.fireBatch phase verb context).run.run w).2.notes = w.notes ++
      pair (.hooks [Hook.batchEvent phase verb] none context)
        ((p.observed.fireBatch phase verb context).run.run w).1 :=
  Routine.notes_run_noted ..

theorem notes_fireClosing (p : Project φ β) (verb : Verb) (handled : Except Error Outcome)
    (w : World φ (Observed β)) :
    ((p.observed.fireClosing verb handled).run.run w).2.notes = w.notes ++
      pair (closingCall verb handled) ((p.observed.fireClosing verb handled).run.run w).1 := by
  cases handled <;> exact notes_fireBatch ..

/-! ## Undertakings -/

/-- The graphs that a project resolves are arranged. -/
def Arranges (p : Project φ β) : Prop :=
  ∀ update stored g, (p.resolve update stored).1 = .ok g → g.Arranged

/-- The graphs that a project resolves from its configuration are arranged. -/
theorem Resolves.arranges [FileSystem φ] {p : Project φ β} (hp : p.Resolves) : p.Arranges := by
  intro update stored g h
  obtain ⟨root, cyclic, hresolve⟩ := hp
  rw [hresolve] at h
  have hsound : g.Sound := Resolver.sound_of_resolve h
  exact hsound.arranged

namespace Undertaking

/-- Handle the dependencies and take notes. -/
def handling (u : Undertaking φ β) (p : Project φ β) : Session φ (Observed β) Outcome :=
  p.observed.handle u.schedule u.verb u.options u.observed.perform

/-- What is noted when the dependencies are handled: a walk over those that
are resolved, and nothing if none are. -/
def Walked (u : Undertaking φ β) (p : Project φ β) (w : World φ (Observed β))
    (notes : List Note) : Prop :=
  match p.observed.resolved? u.options.selection.update w with
  | some g => (p.planFor u.verb u.options u.perform).Walk g notes
  | none => notes = []

/-- What is noted in an undertaking, and its answer. -/
inductive Trace (u : Undertaking φ β) (p : Project φ β) (w : World φ (Observed β)) :
    List Note → Except Error Outcome → Prop where
  /-- No batch events fire. -/
  | plain {walk : List Note} (h : u.batched = false) (hwalk : u.Walked p w walk) :
      Trace u p w walk ((u.handling p).run.run w).1
  /-- The hooks before it fail, and nothing else happens. -/
  | stopped (h : u.batched = true) (e : Error) :
      Trace u p w (pair (openingCall u.verb) (.error e)) (.error e)
  /-- The dependencies are handled in the world that the hooks before it leave,
  and one event closes it. -/
  | around {w' : World φ (Observed β)} {walk : List Note} {closed : Except Error Unit}
      (h : u.batched = true) (hopening : u.observed.opening p.observed w = some w')
      (hwalk : u.Walked p w' walk) :
      Trace u p w
        (pair (openingCall u.verb) (.ok ()) ++ walk ++
          pair (closingCall u.verb ((u.handling p).run.run w').1) closed)
        (closed.bind fun _ => ((u.handling p).run.run w').1)

end Undertaking

/-- When the dependencies are handled, a walk over them is noted. -/
theorem notes_handling (p : Project φ β) (hp : p.Arranges) (u : Undertaking φ β)
    (w : World φ (Observed β)) :
    ∃ notes, ((u.handling p).run.run w).2.notes = w.notes ++ notes ∧ u.Walked p w notes := by
  unfold Undertaking.handling Undertaking.Walked resolved?
  cases hdeps : p.config.hasDependencies with
  | false =>
    have hdeps' : p.observed.config.hasDependencies = false := hdeps
    rw [handle_of_none u.schedule u.verb u.options u.observed.perform w hdeps']
    exact ⟨[], (List.append_nil _).symm, by simp [hdeps']⟩
  | true =>
    have hdeps' : p.observed.config.hasDependencies = true := hdeps
    rcases hres : p.observed.resolve u.options.selection.update w.stored with ⟨result, log, stored⟩
    cases result with
    | error e =>
      obtain ⟨entries, hrun⟩ := handle_of_unresolved u.schedule u.verb u.options
        u.observed.perform w hdeps' hres
      rw [hrun]
      exact ⟨[], (List.append_nil _).symm, by simp [hdeps', Except.toOption]⟩
    | ok g =>
      have hok : (p.resolve u.options.selection.update w.stored).1 = .ok g := by
        rw [show p.resolve u.options.selection.update w.stored = _ from hres]
      have hg : g.Arranged := hp _ _ g hok
      obtain ⟨_, entries, hrun⟩ := handle_of_resolved u.schedule u.verb u.options
        u.observed.perform w hdeps' hres
      obtain ⟨entries', hbegun⟩ := begun_eq u.verb u.options g log stored w
      obtain ⟨notes, hnotes, hwalk⟩ := Crew.walk_work (p.planFor u.verb u.options u.perform) hg
        u.schedule (p.workersFor u.options) (begun u.verb u.options g log stored w)
      refine ⟨notes, ?_, by simpa [hdeps', Except.toOption] using hwalk⟩
      rw [hrun, World.notes_withLog]
      refine hnotes.trans ?_
      rw [hbegun]
      rfl

/-- Whatever fails and however the workers move, what is noted in an undertaking
is a trace, and whatever is done in one is done in one that is observed.  Batch
events fire around all that is undertaken for an order, unless it is to run a
command. -/
theorem run_trace [FileSystem φ] (p : Project φ β) (hp : p.Arranges) (u : Undertaking φ β)
    (w : World φ (Observed β)) :
    (∀ schedule order, p.undertaking? schedule order = some u →
      (u.batched = true ↔ ∀ request, order ≠ .command request)) ∧
    (∃ schedule, ({ u with schedule }.observed.run p.observed).Mirrors (u.run p) w) ∧
    ∃ notes, ((u.observed.run p.observed).run.run w).2.notes = w.notes ++ notes ∧
      u.Trace p w notes ((u.observed.run p.observed).run.run w).1 := by
  refine ⟨fun schedule order hu => by cases order <;> cases hu <;> simp, u.mirrors_run p
    (fun update stored g h => ⟨(hp update stored g h).hierarchy, (hp update stored g h).laden⟩) w,
    ?_⟩
  cases hbatched : u.batched with
  | false =>
    have hrun : u.observed.run p.observed = u.handling p := by
      have hbatched' : u.observed.batched = false := hbatched
      rw [Undertaking.run, hbatched']
      rfl
    obtain ⟨notes, hnotes, hwalk⟩ := notes_handling p hp u w
    rw [hrun]
    exact ⟨notes, hnotes, .plain hbatched hwalk⟩
  | true =>
    have hbatched' : u.observed.batched = true := hbatched
    have hrun : u.observed.run p.observed = p.observed.withBatchHooks u.verb (u.handling p) := by
      rw [Undertaking.run, hbatched']
      rfl
    rw [hrun]
    have hopening := notes_fireBatch p .before u.verb ∅ w
    rcases hfired : (p.observed.fireBatch .before u.verb ∅).run.run w with ⟨opened, w₁⟩
    rw [hfired] at hopening
    cases opened with
    | error e =>
      rw [withBatchHooks_of_error hfired]
      exact ⟨_, hopening, .stopped hbatched e⟩
    | ok _ =>
      obtain ⟨walk, hwalk, hwalked⟩ := notes_handling p hp u w₁
      have hopened : u.observed.opening p.observed w = some w₁ := by
        rw [Undertaking.opening, hbatched']
        simp only [if_true]
        rw [show p.observed.fireBatch .before u.observed.verb ∅ =
          p.observed.fireBatch .before u.verb ∅ from rfl, hfired]
      rw [withBatchHooks_of_ok hfired (u.handling p) Prod.mk.eta.symm]
      refine ⟨_, ?_, .around hbatched hopened hwalked⟩
      refine (notes_fireClosing p u.verb _ _).trans ?_
      rw [hwalk, hopening]
      simp only [List.append_assoc]
      rfl

/-! ## Hooks that fail before a library -/

/-- A project that declares an application above its library, with hooks that
fail before the library is built. -/
def guardedTiers : Project MemoryFiles Unit where
  config := tiersProject.config
  resolve _ stored := (.ok tiers, [], stored)
  backend := ⟨fun _ => pure ∅, fun _ _ => pure (), fun _ _ => pure "", fun _ => pure (),
    fun _ _ _ => pure ()⟩
  hooks events _ _ :=
    if "before:buildDependency:lib" ∈ events then throw (.other (.ofText "not yet")) else pure ()
  sink _ := pure ()
  processors := 2

/-- A world in which nothing was noted yet. -/
def unnotedWorld : World MemoryFiles (Observed Unit) := ⟨⟨.empty, .memory ∅⟩, [], ∅, [], ⟨(), []⟩⟩

theorem arranged_tiers : tiers.Arranged := DependencyGraph.arranged_insertAll "root" _ (by decide)

/-- Two workers build the application and its library: the hooks before the
library fail, and nothing else is noted between the batch events. -/
theorem run_trace_guarded :
    let u : Undertaking MemoryFiles Unit :=
      ⟨.build, [0, 1, 0, 1], twoWorkers, fun _ => pure (), true⟩
    let left := ((u.observed.run guardedTiers.observed).run.run unnotedWorld).2
    left.notes.map (fun n => (n.subject?, n.hookError?.isSome)) =
        [(none, false), (none, false), (some "lib", false), (some "lib", true),
          (none, false), (none, false)] ∧
      ∃ notes, left.notes = notes ∧ u.Trace guardedTiers unnotedWorld notes
        ((u.observed.run guardedTiers.observed).run.run unnotedWorld).1 := by
  intro u left
  have harranges : guardedTiers.Arranges := by
    rintro update stored g h
    cases h
    exact arranged_tiers
  obtain ⟨_, _, notes, hnotes, htrace⟩ := run_trace guardedTiers harranges u unnotedWorld
  exact ⟨by decide +kernel, notes, hnotes, htrace⟩

end Project

end Cascade
