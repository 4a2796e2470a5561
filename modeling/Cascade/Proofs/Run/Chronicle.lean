import Cascade.Proofs.Run.Forward
import Cascade.Proofs.Run.Observed

/-!
# What is noted in a run

`Plan.Course` lists what can be noted about a dependency from the time it is
handed out until it is released, and the outcome that this leads to.
`Crew.Chronicled` is the invariant that makes the notes of a run a chronicle of
it: what is noted about a dependency is the part of a course that fits the
post of the worker that is at it (`Post.Agrees`), a whole course once it was
released, and nothing if it was not handed out.

Notes about different dependencies may be mixed.  What comes before a
dependency in the order of the run is released before the dependency is handed
out, so it is not noted anything about after that: the notes are `ordered`.
-/

namespace Cascade

open Relation

variable {φ β : Type}

/-- A hierarchy of dependencies, each at the node that has its ID. -/
structure DependencyGraph.Arranged (g : DependencyGraph) : Prop where
  hierarchy : g.Hierarchy
  laden : g.Laden
  keyed : ∀ claim, g.Bears claim → claim.payload.id = claim.id

/-- The graphs that a resolver makes are arranged. -/
theorem DependencyGraph.Sound.arranged {g : DependencyGraph} (hg : g.Sound) : g.Arranged :=
  ⟨hg.hierarchy, hg.laden, fun claim hb => (hg.located claim hb.carries).1⟩

/-- Inserting dependencies under their own IDs makes an arranged graph. -/
theorem DependencyGraph.arranged_insertAll (rootId : String)
    (insertions : List (String × String × Dependency)) (h : ∀ i ∈ insertions, i.2.2.id = i.2.1) :
    DependencyGraph.Arranged ((Graph.new rootId).insertAll insertions) := by
  have hg : ((Graph.new rootId).insertAll insertions).Grown rootId := .insertAll .new insertions
  refine ⟨hg.hierarchy, hg.laden, fun claim hb => ?_⟩
  rcases hb.carries.of_insertAll with hnew | ⟨i, hmem, rfl⟩
  · exact (Graph.not_carries_new rootId claim hnew).elim
  · exact h i hmem

namespace Note

@[simp]
theorem mem_about {id : String} {notes : List Note} {n : Note} :
    n ∈ about id notes ↔ n ∈ notes ∧ n.subject? = some id := by
  simp [about]

theorem about_append (id : String) (notes notes' : List Note) :
    about id (notes ++ notes') = about id notes ++ about id notes' := List.filter_append ..

/-- Notes about one dependency are all about this one. -/
theorem about_eq_self {id : String} {notes : List Note}
    (h : ∀ n ∈ notes, n.subject? = some id) : about id notes = notes := by
  rw [about, List.filter_eq_self]
  exact fun n hn => decide_eq_true (h n hn)

/-- Nothing is noted about a dependency by notes about others. -/
theorem about_append_of_ne {id : String} {new : List Note}
    (h : ∀ n ∈ new, n.subject? ≠ some id) (notes : List Note) :
    about id (notes ++ new) = about id notes := by
  have hnone : about id new = [] := by
    rw [about, List.filter_eq_nil_iff]
    exact fun n hn hsubject => h n hn (of_decide_eq_true hsubject)
  rw [about_append, hnone, List.append_nil]

end Note

namespace Run

open Note (about pair about_append about_eq_self about_append_of_ne)
open Routine (Underway)
open Traversal (Event Ledger Finished prunes)

/-! ## Courses -/

namespace Plan

/-- What was noted about a dependency when hooks fire on an occasion: nothing
if it is the first, and otherwise that the hooks before the action answered
well and how the action ended. -/
inductive Prior (p : Plan φ β) (d : Dependency) : Occasion → List Note → Prop where
  | before : Prior p d .before []
  | after : Prior p d .after (pair (p.announcement .before d) (.ok ()) ++ pair (.action d) (.ok ()))
  | error (cause : Error) (journal : Log.Journal) :
      Prior p d (.error (.action p.verb.title d.name journal.content cause))
        (pair (p.announcement .before d) (.ok ()) ++ pair (.action d) (.error cause))

/-- All that is noted about a dependency that was handed out, and the outcome
that this leads to. -/
inductive Course (p : Plan φ β) (d : Dependency) : List Note → Except Error Unit → Prop where
  /-- It is not one to act upon. -/
  | passed (h : p.acts d = false) : Course p d [] (.ok ())
  /-- The hooks of an occasion failed. -/
  | halted {occasion : Occasion} {prior : List Note} (h : p.Prior d occasion prior) (e : Error) :
      Course p d (prior ++ pair (p.announcement occasion.phase d) (.error e)) (.error e)
  /-- The action and the hooks after it succeeded. -/
  | done {prior : List Note} (h : p.Prior d .after prior) :
      Course p d (prior ++ pair (p.announcement .after d) (.ok ())) (.ok ())
  /-- The action failed, and the hooks upon its failure succeeded. -/
  | failed {e : Error} {prior : List Note} (h : p.Prior d (.error e) prior) :
      Course p d (prior ++ pair (p.announcement .error d) (.ok ())) (.error e)

/-- A whole course was noted, and if hooks failed in it, then the traversal is
aborted. -/
structure Concluded (p : Plan φ β) (d : Dependency) (own : List Note) (history : List Event)
    (outcome : Except Error Unit) : Prop where
  course : p.Course d own outcome
  aborted : ∀ n ∈ own, ∀ e, n.hookError? = some e → .aborted ∈ history

variable {p : Plan φ β} {d : Dependency} {own : List Note} {history history' : List Event}
  {outcome : Except Error Unit}

theorem Concluded.mono (h : p.Concluded d own history outcome) (hsub : history ⊆ history') :
    p.Concluded d own history' outcome :=
  ⟨h.course, fun n hn e he => hsub (h.aborted n hn e he)⟩

/-- Once the traversal is aborted, a course is concluded. -/
theorem Course.concluded (h : p.Course d own outcome) (haborted : .aborted ∈ history) :
    p.Concluded d own history outcome :=
  ⟨h, fun _ _ _ _ => haborted⟩

/-- Until hooks fire on an occasion none have failed. -/
theorem Prior.hookError? {occasion : Occasion} (h : p.Prior d occasion own) {n : Note}
    (hn : n ∈ own) : n.hookError? = none := by
  cases h with
  | before => cases hn
  | after | error cause journal =>
    simp only [pair, List.cons_append, List.nil_append, List.mem_cons, List.not_mem_nil,
      or_false] at hn
    rcases hn with rfl | rfl | rfl | rfl <;> rfl

/-- The hooks of an occasion have succeeded, and none have failed. -/
theorem Prior.hookError?_append {occasion : Occasion} {prior : List Note}
    (h : p.Prior d occasion prior) {n : Note}
    (hn : n ∈ prior ++ pair (p.announcement occasion.phase d) (.ok ())) : n.hookError? = none := by
  rcases List.mem_append.mp hn with hprior | hpair
  · exact h.hookError? hprior
  · simp only [pair, List.mem_cons, List.not_mem_nil, or_false] at hpair
    rcases hpair with rfl | rfl <;> rfl

/-- The end of an action is an occasion for hooks. -/
theorem prior_occasion (p : Plan φ β) (d : Dependency) (answer : Except Error Unit × Log.Journal) :
    p.Prior d (p.occasion d answer)
      (pair (p.announcement .before d) (.ok ()) ++ pair (.action d) answer.1) := by
  obtain ⟨result, journal⟩ := answer
  cases result with
  | ok _ => exact .after
  | error cause => exact .error cause journal

end Plan

/-! ## Posts and notes -/

/-- What was noted about a dependency when a worker stands at a post. -/
def Post.Agrees (p : Plan φ β) (d : Dependency) (own : List Note) (history : List Event) :
    Post φ (Observed β) → Prop
  | .firing occasion hooks => p.acts d = true ∧ ∃ prior mine, p.Prior d occasion prior ∧
      own = prior ++ mine ∧ Underway (p.announcement occasion.phase d) id hooks mine
  | .beginning => p.acts d = true ∧ own = pair (p.announcement .before d) (.ok ())
  | .acting _ left => p.acts d = true ∧ ∃ mine,
      own = pair (p.announcement .before d) (.ok ()) ++ mine ∧
        Underway (.action d) Prod.fst left mine
  | .entering => p.Concluded d own history (.ok ()) ∧
      .answer (p.announcement .after d) (.ok ()) ∈ own
  | .passing | .announcing => p.Concluded d own history (.ok ())
  | .aborting e => p.Course d own (.error e)
  | .warning e => p.Concluded d own history (.error e)
  | .releasing outcome | .notifying outcome | .leaving outcome =>
    p.Concluded d own history outcome

/-- What was noted about the dependency that a worker is at. -/
def Duty.Agrees (p : Plan φ β) (notes : List Note) (history : List Event) :
    Duty φ (Observed β) → Prop
  | .working claim post => post.Agrees p claim.payload (about claim.id notes) history
  | .ended (some (claim, e)) =>
    p.Concluded claim.payload (about claim.id notes) history (.error e)
  | _ => True

section

variable {p : Plan φ β} {d : Dependency} {own notes : List Note} {history history' : List Event}

theorem Post.Agrees.mono {post : Post φ (Observed β)} (h : post.Agrees p d own history)
    (hsub : history ⊆ history') : post.Agrees p d own history' := by
  cases post with
  | firing _ _ | beginning | acting _ _ | aborting _ => exact h
  | entering => exact ⟨h.1.mono hsub, h.2⟩
  | _ => exact Plan.Concluded.mono h hsub

theorem Duty.Agrees.mono {duty : Duty φ (Observed β)} (h : duty.Agrees p notes history)
    (hsub : history ⊆ history') : duty.Agrees p notes history' := by
  cases duty with
  | asking stage => trivial
  | working claim post => exact Post.Agrees.mono h hsub
  | ended failure =>
    cases failure with
    | none => trivial
    | some failure => exact Plan.Concluded.mono h hsub

/-- Where a worker goes on when hooks have succeeded. -/
theorem Post.agrees_next {occasion : Occasion} {prior : List Note} (hacts : p.acts d = true)
    (h : p.Prior d occasion prior)
    (hown : own = prior ++ pair (p.announcement occasion.phase d) (.ok ())) :
    (occasion.next : Post φ (Observed β)).Agrees p d own history := by
  have hquiet : ∀ n ∈ own, ∀ e, n.hookError? = some e → .aborted ∈ history := fun n hn e he => by
    rw [hown] at hn
    rw [h.hookError?_append hn] at he
    cases he
  subst hown
  cases occasion with
  | before =>
    cases h
    exact ⟨hacts, rfl⟩
  | after => exact ⟨⟨.done h, hquiet⟩, by simp [pair, Occasion.phase]⟩
  | error e => exact ⟨.failed h, hquiet⟩

/-- Notes about another dependency do not concern a worker. -/
theorem Duty.Agrees.append {duty : Duty φ (Observed β)} (h : duty.Agrees p notes history)
    {new : List Note}
    (hnew : ∀ n ∈ new, ∀ claim, duty.claim? = some claim → n.subject? ≠ some claim.id) :
    duty.Agrees p (notes ++ new) history := by
  have hsame : ∀ claim, duty.claim? = some claim →
      about claim.id (notes ++ new) = about claim.id notes := fun claim hclaim =>
    about_append_of_ne (fun n hn => hnew n hn claim hclaim) notes
  cases duty with
  | asking stage => trivial
  | working claim post =>
    simp only [Duty.Agrees] at h ⊢
    rwa [hsame claim rfl]
  | ended failure =>
    cases failure with
    | none => trivial
    | some failure =>
      simp only [Duty.Agrees] at h ⊢
      rwa [hsame failure.1 rfl]

end

namespace Crew

/-! ## The chronicle -/

/-- The notes that were taken are a chronicle of the run. -/
structure Chronicled (p : Plan φ β) (g : DependencyGraph) (base notes : List Note)
    (c : Crew φ (Observed β)) : Prop where
  log : c.account.world.notes = base ++ notes
  /-- Notes are about dependencies to act upon that were handed out. -/
  known : ∀ n ∈ notes, ∃ claim, g.Bears claim ∧ p.acts claim.payload = true ∧
    n.subject? = some claim.id ∧ .handedOut claim.id ∈ c.session.history
  duties : ∀ duty ∈ c.duties, duty.Agrees p notes c.session.history
  released : ∀ {id succeeded}, .released id succeeded ∈ c.session.history →
    ∃ claim outcome, g.Bears claim ∧ claim.id = id ∧ outcome.isOk = succeeded ∧
      p.Concluded claim.payload (about claim.id notes) c.session.history outcome
  /-- Nothing is noted about what comes before a dependency once something is
  noted about that one. -/
  ordered : notes.Pairwise fun m n => ∀ id other, m.subject? = some id →
    n.subject? = some other → ¬ TransGen (g.Before p.verb.direction) other id
  executed : ∀ d ∈ c.account.executed, .answer (p.announcement .after d) (.ok ()) ∈ notes

/-- No two workers are at the same dependency. -/
theorem Assigned.ne {c : Crew φ β} (ha : c.Assigned) {i k : Nat} (hne : i ≠ k)
    {duty duty' : Duty φ β} (hi : c.duties[i]? = some duty) (hk : c.duties[k]? = some duty')
    {claim claim' : Claim Dependency} (hclaim : duty.claim? = some claim)
    (hclaim' : duty'.claim? = some claim') : claim.id ≠ claim'.id := by
  have hdistinct := ha.distinct
  rw [List.Nodup, List.pairwise_filterMap, List.pairwise_iff_getElem] at hdistinct
  obtain ⟨hlti, rfl⟩ := List.getElem?_eq_some_iff.mp hi
  obtain ⟨hltk, rfl⟩ := List.getElem?_eq_some_iff.mp hk
  have hid : (c.duties[i].claim?.map (·.id)) = some claim.id := by rw [hclaim]; rfl
  have hid' : (c.duties[k].claim?.map (·.id)) = some claim'.id := by rw [hclaim']; rfl
  rcases Nat.lt_or_gt_of_ne hne with hlt | hlt
  · exact hdistinct i k hlti hltk hlt _ hid _ hid'
  · exact (hdistinct k i hltk hlti hlt _ hid' _ hid).symm

/-- What comes before a dependency that was handed out is not held any more. -/
theorem Sound.not_before_of_held {direction : Direction} {g : DependencyGraph}
    {c : Crew φ (Observed β)} (hs : c.Sound direction g) (hg : g.Arranged)
    {id other : String} (hout : .handedOut id ∈ c.session.history)
    (hheld : other ∈ c.session.held) : ¬ TransGen (g.Before direction) other id := by
  intro hbefore
  have hledger := hs.reachable.sound hg.hierarchy hg.laden
  obtain ⟨pre, post, hsplit⟩ := List.append_of_mem hout
  obtain ⟨_, succeeded, hreleased, _⟩ :=
    hledger.finished_before hg.hierarchy.consistent hsplit hbefore
  refine hledger.balanced.not_released_of_held hheld (Traversal.mem_released.mpr ⟨succeeded, ?_⟩)
  show _ ∈ c.session.history
  rw [hsplit]
  exact List.mem_append_left _ hreleased

namespace Chronicled

variable {p : Plan φ β} {g : DependencyGraph} {base notes : List Note}
  {c c' : Crew φ (Observed β)} {i : Nat}

theorem start (p : Plan φ β) (g : DependencyGraph) (workers : Nat) (w : World φ (Observed β)) :
    (Crew.start p.verb.direction g workers w).Chronicled p g w.notes [] where
  log := (List.append_nil _).symm
  known := List.forall_mem_nil _
  duties duty h := by
    cases List.eq_of_mem_replicate h
    trivial
  released h := (List.not_mem_nil h).elim
  ordered := .nil
  executed := List.forall_mem_nil _

/-- A worker that has got a new duty without noting anything. -/
theorem assign (hc : c.Chronicled p g base notes) (events : List Event) (entered : List Dependency)
    {duty' : Duty φ (Observed β)} (hduties : c'.duties = c.duties.set i duty')
    (hlog : c'.account.world.notes = c.account.world.notes)
    (hhistory : c'.session.history = c.session.history ++ events)
    (hexecuted : c'.account.executed = c.account.executed ++ entered)
    (hagrees : duty'.Agrees p notes c'.session.history)
    (hreleased : ∀ {id succeeded}, .released id succeeded ∈ events →
      ∃ claim outcome, g.Bears claim ∧ claim.id = id ∧ outcome.isOk = succeeded ∧
        p.Concluded claim.payload (about claim.id notes) c'.session.history outcome)
    (hentered : ∀ d ∈ entered, .answer (p.announcement .after d) (.ok ()) ∈ notes) :
    c'.Chronicled p g base notes := by
  have hsub : c.session.history ⊆ c'.session.history := by
    rw [hhistory]
    exact List.subset_append_left ..
  refine ⟨hlog.trans hc.log, fun n hn => ?_, fun duty h => ?_, fun {id succeeded} h => ?_,
    hc.ordered, fun d h => ?_⟩
  · obtain ⟨claim, hb, hacts, hsubject, hout⟩ := hc.known n hn
    exact ⟨claim, hb, hacts, hsubject, hsub hout⟩
  · rw [hduties] at h
    rcases List.mem_or_eq_of_mem_set h with hold | rfl
    · exact (hc.duties duty hold).mono hsub
    · exact hagrees
  · rw [hhistory, List.mem_append] at h
    rcases h with hold | hnew
    · obtain ⟨claim, outcome, hb, hid, hok, hconcluded⟩ := hc.released hold
      exact ⟨claim, outcome, hb, hid, hok, hconcluded.mono hsub⟩
    · exact hreleased hnew
  · rw [hexecuted, List.mem_append] at h
    exact h.elim (hc.executed d) (hentered d)

/-- A worker that has got a new duty, while nothing else has happened. -/
theorem assign_same (hc : c.Chronicled p g base notes) {duty' : Duty φ (Observed β)}
    (hduties : c'.duties = c.duties.set i duty')
    (hlog : c'.account.world.notes = c.account.world.notes)
    (hhistory : c'.session.history = c.session.history)
    (hexecuted : c'.account.executed = c.account.executed)
    (hagrees : duty'.Agrees p notes c.session.history) : c'.Chronicled p g base notes :=
  hc.assign [] [] hduties hlog (by simpa using hhistory) (by simpa using hexecuted)
    (hhistory ▸ hagrees) (fun h => (List.not_mem_nil h).elim) (List.forall_mem_nil _)

/-- A worker at a job notes something about its dependency. -/
theorem jot (hc : c.Chronicled p g base notes) (hs : c.Sound p.verb.direction g)
    (hg : g.Arranged) (ha : c.Assigned) (hb : c.Borne g)
    {claim : Claim Dependency} {post post' : Post φ (Observed β)}
    {account : Account φ (Observed β)} {new : List Note}
    (hd : c.duties[i]? = some (.working claim post)) (hholds : post.holds = true)
    (hacts : p.acts claim.payload = true)
    (hlog : account.world.notes = c.account.world.notes ++ new)
    (hexecuted : account.executed = c.account.executed)
    (hnew : ∀ n ∈ new, n.subject? = some claim.id)
    (hagrees : post'.Agrees p claim.payload (about claim.id notes ++ new) c.session.history) :
    ({ c.assign i (.working claim post') with account } : Crew φ (Observed β)).Chronicled p g base
      (notes ++ new) := by
  have hmem := List.mem_of_getElem? hd
  have hout : .handedOut claim.id ∈ c.session.history := ha.handedOut _ hmem claim rfl
  have hheld : claim.id ∈ c.session.held := hs.tied.mem_held hd hholds
  have hknown : ∀ n ∈ notes ++ new, ∃ claim, g.Bears claim ∧ p.acts claim.payload = true ∧
      n.subject? = some claim.id ∧ .handedOut claim.id ∈ c.session.history := by
    intro n hn
    rcases List.mem_append.mp hn with hold | hn
    · exact hc.known n hold
    · exact ⟨claim, hb.duties _ hmem claim rfl, hacts, hnew n hn, hout⟩
  -- the new notes are about a claim that is held, which comes before nothing handed out
  have hlater : ∀ m ∈ notes ++ new, ∀ n ∈ new, ∀ id other, m.subject? = some id →
      n.subject? = some other → ¬ TransGen (g.Before p.verb.direction) other id := by
    intro m hm n hn id other hid hother
    obtain ⟨claim', _, _, hsubject, hout'⟩ := hknown m hm
    rw [hid, Option.some.injEq] at hsubject
    rw [hnew n hn, Option.some.injEq] at hother
    exact hs.not_before_of_held hg (hsubject ▸ hout') (hother ▸ hheld)
  refine ⟨?_, hknown, fun duty h => ?_, fun {id succeeded} h => ?_, ?_, fun d h => ?_⟩
  · show account.world.notes = base ++ (notes ++ new)
    rw [hlog, hc.log, List.append_assoc]
  · obtain ⟨k, hk⟩ := List.getElem?_of_mem h
    rcases cases_of_getElem?_set hk with ⟨rfl, rfl⟩ | ⟨hne, hother⟩
    · show post'.Agrees p claim.payload (about claim.id (notes ++ new)) c.session.history
      rwa [about_append, about_eq_self hnew]
    · refine (hc.duties duty (List.mem_of_getElem? hother)).append fun n hn claim' hclaim' => ?_
      rw [hnew n hn, ne_eq, Option.some.injEq]
      exact ha.ne (Ne.symm hne) hd hother rfl hclaim'
  · obtain ⟨claim', outcome, hb', hid, hok, hconcluded⟩ := hc.released h
    refine ⟨claim', outcome, hb', hid, hok, ?_⟩
    have hne : claim.id ≠ claim'.id := fun he =>
      (hs.reachable.sound hg.hierarchy hg.laden).balanced.not_released_of_held hheld
        (Traversal.mem_released.mpr ⟨succeeded, by rw [he, hid]; exact h⟩)
    have hothers : ∀ n ∈ new, n.subject? ≠ some claim'.id := fun n hn => by
      rw [hnew n hn]
      simpa using hne
    rwa [about_append_of_ne hothers]
  · rw [List.pairwise_append]
    refine ⟨hc.ordered, ?_, fun m hm n hn => hlater m (List.mem_append_left _ hm) n hn⟩
    exact List.pairwise_of_forall_mem_list fun m hm n hn =>
      hlater m (List.mem_append_right _ hm) n hn
  · have hold : d ∈ c.account.executed := hexecuted ▸ h
    exact List.mem_append_left _ (hc.executed d hold)

/-- What is offered has not been noted anything about. -/
theorem about_offered (hc : c.Chronicled p g base notes) (hs : c.Sound p.verb.direction g)
    (hg : g.Arranged) {claim : Claim Dependency}
    (ho : (c.session.handout.inspect i).1 = .claim claim) : about claim.id notes = [] := by
  have hnone : ∀ n ∈ notes, n.subject? ≠ some claim.id := fun n hn hsubject => by
    obtain ⟨claim', _, _, hsubject', hout⟩ := hc.known n hn
    rw [hsubject, Option.some.injEq] at hsubject'
    exact hs.not_handedOut_of_offered hg.hierarchy hg.laden ho (hsubject' ▸ hout)
  exact about_append_of_ne hnone []

/-- A turn of a job keeps the chronicle. -/
theorem labour (hc : c.Chronicled p g base notes) (hs : c.Sound p.verb.direction g)
    (hg : g.Arranged) (ha : c.Assigned) (hb : c.Borne g)
    {claim : Claim Dependency} {post post' : Post φ (Observed β)}
    {account : Account φ (Observed β)} (hd : c.duties[i]? = some (.working claim post))
    (h : Labour p.observed claim c.account post account post') :
    ∃ notes', ({ c.assign i (.working claim post') with account } : Crew φ (Observed β)).Chronicled
      p g base notes' := by
  have hmem := List.mem_of_getElem? hd
  have hid : claim.payload.id = claim.id := hg.keyed claim (hb.duties _ hmem claim rfl)
  have hpost : post.Agrees p claim.payload (about claim.id notes) c.session.history :=
    hc.duties _ hmem
  cases h with
  | pass => exact ⟨notes, hc.assign_same rfl rfl rfl rfl hpost⟩
  | hook occasion update rest =>
    obtain ⟨hacts, prior, mine, hprior, hown, hunderway⟩ := hpost
    obtain ⟨new, hlog, hnew, hrest⟩ := hunderway.step rfl c.account.world
    rw [Plan.subject?_announcement, hid] at hnew
    refine ⟨notes ++ new, hc.jot hs hg ha hb hd rfl hacts hlog rfl hnew
      ⟨hacts, prior, mine ++ new, hprior, ?_, hrest⟩⟩
    rw [hown, List.append_assoc]
  | heard occasion =>
    obtain ⟨hacts, prior, mine, hprior, hown, hunderway⟩ := hpost
    rw [hunderway.eq_pair rfl] at hown
    exact ⟨notes, hc.assign_same rfl rfl rfl rfl (Post.agrees_next hacts hprior hown)⟩
  | stop e | fail e =>
    obtain ⟨_, prior, mine, hprior, hown, hunderway⟩ := hpost
    have hcourse : p.Course claim.payload (about claim.id notes) (.error e) := by
      rw [hown, hunderway.eq_pair rfl]
      exact .halted hprior e
    exact ⟨notes, hc.assign_same rfl rfl rfl rfl hcourse⟩
  | begin =>
    obtain ⟨hacts, hown⟩ := hpost
    exact ⟨notes, hc.assign_same rfl rfl rfl rfl
      ⟨hacts, [], by rw [hown, List.append_nil], .fresh (p.performing claim.payload)⟩⟩
  | act seen update rest =>
    obtain ⟨hacts, mine, hown, hunderway⟩ := hpost
    obtain ⟨new, hlog, hnew, hrest⟩ := hunderway.step rfl c.account.world
    have hnew' : ∀ n ∈ new, n.subject? = some claim.id := hid ▸ hnew
    refine ⟨notes ++ new, hc.jot hs hg ha hb hd rfl hacts hlog rfl hnew'
      ⟨hacts, mine ++ new, ?_, hrest⟩⟩
    rw [hown, List.append_assoc]
  | acted seen answer =>
    obtain ⟨hacts, mine, hown, hunderway⟩ := hpost
    rw [hunderway.eq_pair rfl] at hown
    exact ⟨notes, hc.assign_same rfl rfl rfl rfl ⟨hacts, _, [],
      p.prior_occasion claim.payload answer, by rw [hown, List.append_nil],
      .fresh (p.call (p.occasion claim.payload answer).phase claim.payload)⟩⟩
  | enter =>
    have hnext : (if p.silent then .releasing (.ok ()) else .announcing :
        Post φ (Observed β)).Agrees p claim.payload (about claim.id notes) c.session.history := by
      split <;> exact hpost.1
    refine ⟨notes, hc.assign [] [claim.payload] rfl rfl (List.append_nil _).symm rfl hnext
      (fun h => (List.not_mem_nil h).elim) fun d hd => ?_⟩
    rw [List.mem_singleton.mp hd]
    exact (Note.mem_about.mp hpost.2).1
  | announce => exact ⟨notes, hc.assign_same rfl rfl rfl rfl hpost⟩

/-- Every turn keeps the chronicle. -/
theorem turn (hc : c.Chronicled p g base notes) (hs : c.Sound p.verb.direction g)
    (hg : g.Arranged) (ha : c.Assigned) (hb : c.Borne g)
    (h : Turn p.observed i c c') : ∃ notes', c'.Chronicled p g base notes' := by
  cases h with
  | register hd | wake hd => exact ⟨notes, hc.assign_same rfl rfl rfl rfl trivial⟩
  | park hd ho | exhaust hd ho =>
    exact ⟨notes, hc.assign_same rfl rfl (by simp [history_inspect, ho]) rfl trivial⟩
  | @pass claim hd ho hp =>
    have hown := hc.about_offered hs hg ho
    have hconcluded : p.Concluded claim.payload (about claim.id notes)
        (c.session.next (.inspect i)).history (.ok ()) := by
      rw [hown]
      exact ⟨.passed hp, List.forall_mem_nil _⟩
    have hnext : (p.observed.passPost claim.payload).Agrees p claim.payload
        (about claim.id notes) (c.session.next (.inspect i)).history := by
      unfold Plan.passPost
      split <;> exact hconcluded
    exact ⟨notes, hc.assign [.handedOut claim.id] [] rfl rfl (by simp [history_inspect, ho])
      (List.append_nil _).symm hnext (by simp) (List.forall_mem_nil _)⟩
  | @take claim hd ho hp =>
    have hown := hc.about_offered hs hg ho
    exact ⟨notes, hc.assign [.handedOut claim.id] [] rfl rfl (by simp [history_inspect, ho])
      (List.append_nil _).symm ⟨hp, [], [], .before, hown, .fresh (p.call .before claim.payload)⟩
      (by simp) (List.forall_mem_nil _)⟩
  | work hd hlabour => exact hc.labour hs hg ha hb hd hlabour
  | @abort claim e hd =>
    have hcourse : p.Course claim.payload (about claim.id notes) (.error e) :=
      hc.duties _ (List.mem_of_getElem? hd)
    exact ⟨notes, hc.assign [.aborted] [] rfl rfl rfl (List.append_nil _).symm
      (hcourse.concluded (by simp [Handout.Session.next])) (by simp) (List.forall_mem_nil _)⟩
  | warn hd | notify hd =>
    have hagrees := hc.duties _ (List.mem_of_getElem? hd)
    exact ⟨notes, hc.assign_same rfl rfl rfl rfl hagrees⟩
  | @release claim outcome hd =>
    have hmem := List.mem_of_getElem? hd
    have hconcluded : p.Concluded claim.payload (about claim.id notes)
        (c.session.history ++ [.released claim.id outcome.isOk]) outcome :=
      Plan.Concluded.mono (hc.duties _ hmem) (List.subset_append_left ..)
    refine ⟨notes, hc.assign [.released claim.id outcome.isOk] [] rfl rfl rfl
      (List.append_nil _).symm hconcluded (fun {id succeeded} h => ?_) (List.forall_mem_nil _)⟩
    rw [List.mem_singleton, Event.released.injEq] at h
    exact ⟨claim, outcome, hb.duties _ hmem claim rfl, h.1.symm, h.2.symm, hconcluded⟩
  | @leave claim outcome hd =>
    have hagrees := hc.duties _ (List.mem_of_getElem? hd)
    refine ⟨notes, hc.assign_same (rfl : _ = c.duties.set i (.afterJob claim outcome)) rfl rfl rfl
      ?_⟩
    cases outcome with
    | ok _ => trivial
    | error e => exact hagrees

/-! ## What a chronicle tells -/

/-- Once something is noted about a dependency, what comes before it is
concluded. -/
theorem concluded_before (hc : c.Chronicled p g base notes) (hs : c.Sound p.verb.direction g)
    (hg : g.Arranged) {n : Note} (hn : n ∈ notes) {id other : String}
    (hid : n.subject? = some id) (hbefore : TransGen (g.Before p.verb.direction) other id) :
    ∃ claim outcome, g.Bears claim ∧ claim.id = other ∧
      prunes p.verb.direction outcome.isOk = true ∧
      p.Concluded claim.payload (about claim.id notes) c.session.history outcome := by
  obtain ⟨claim, _, _, hsubject, hout⟩ := hc.known n hn
  rw [hid, Option.some.injEq] at hsubject
  obtain ⟨pre, post, hsplit⟩ := List.append_of_mem (hsubject ▸ hout)
  have hledger := hs.reachable.sound hg.hierarchy hg.laden
  obtain ⟨_, succeeded, hreleased, hprunes⟩ :=
    hledger.finished_before hg.hierarchy.consistent hsplit hbefore
  have hmem : .released other succeeded ∈ c.session.history := by
    rw [hsplit]
    exact List.mem_append_left _ hreleased
  obtain ⟨claim', outcome, hb, hid', rfl, hconcluded⟩ := hc.released hmem
  exact ⟨claim', outcome, hb, hid', hprunes, hconcluded⟩

/-- All that is noted about what comes before a dependency is noted before
anything is noted about that one. -/
theorem about_pre (hc : c.Chronicled p g base notes) {pre post : List Note} {n : Note}
    (hsplit : notes = pre ++ n :: post) {id other : String} (hid : n.subject? = some id)
    (hne : id ≠ other) (hbefore : TransGen (g.Before p.verb.direction) other id) :
    about other notes = about other pre ∧ ∀ m ∈ post, m.subject? ≠ some other := by
  have hordered := hc.ordered
  rw [hsplit, List.pairwise_append, List.pairwise_cons] at hordered
  have hpost : ∀ m ∈ post, m.subject? ≠ some other := fun m hm hother =>
    hordered.2.1.1 m hm id other hid hother hbefore
  refine ⟨?_, hpost⟩
  have hrest : ∀ m ∈ n :: post, m.subject? ≠ some other := by
    intro m hm
    rcases List.mem_cons.mp hm with rfl | hm
    · rw [hid]
      simpa using hne
    · exact hpost m hm
  rw [hsplit, about_append_of_ne hrest]

/-- At the end of a run all that was handed out is concluded. -/
theorem concluded_of_ended (hc : c.Chronicled p g base notes) (hs : c.Sound p.verb.direction g)
    (hg : g.Arranged)
    (hended : ∀ duty ∈ c.duties, ∃ failure, duty = .ended failure) {claim : Claim Dependency}
    (hb : g.Bears claim) (hout : .handedOut claim.id ∈ c.session.history) :
    ∃ outcome, .released claim.id outcome.isOk ∈ c.session.history ∧
      p.Concluded claim.payload (about claim.id notes) c.session.history outcome := by
  have hheld : c.session.held = [] := by
    have hperm := hs.tied.held
    rw [Recorded.eq_nil_of_ended (fun _ => rfl) hended] at hperm
    exact hperm.eq_nil
  have hbalanced := (hs.reachable.sound hg.hierarchy hg.laden).balanced
  rcases hbalanced.handedOut_iff.mp hout with hreleased | hholds
  · obtain ⟨succeeded, hmem⟩ := Traversal.mem_released.mp hreleased
    obtain ⟨claim', outcome, hb', hid, rfl, hconcluded⟩ := hc.released hmem
    obtain rfl := hb'.unique hg.hierarchy.consistent hb hid
    exact ⟨outcome, hmem, hconcluded⟩
  · have hnil : claim.id ∈ c.session.held := hholds
    rw [hheld] at hnil
    cases hnil

end Chronicled

/-! ## Runs -/

/-- What holds at any time of a run that is observed. -/
structure Attested (p : Plan φ β) (g : DependencyGraph) (base : List Note)
    (c : Crew φ (Observed β)) : Prop extends c.Sound p.verb.direction g, c.Borne g, c.Assigned where
  chronicled : ∃ notes, c.Chronicled p g base notes

theorem attested_follow (p : Plan φ β) {g : DependencyGraph} (hg : g.Arranged) (workers : Nat)
    (w : World φ (Observed β)) (schedule : List Nat) :
    ((Crew.start p.verb.direction g workers w).follow p.observed schedule).Attested p g
      w.notes := by
  refine follow_induction (P := fun c => c.Attested p g w.notes) (fun i c c' hc h => ?_) schedule
    ⟨.start .., .start .., .start .., [], .start ..⟩
  obtain ⟨notes, hchronicled⟩ := hc.chronicled
  exact ⟨hc.toSound.turn h, hc.toBorne.turn hc.toSound hg.hierarchy hg.laden h,
    hc.toAssigned.turn hc.toSound hg.hierarchy hg.laden h,
    hchronicled.turn hc.toSound hg hc.toAssigned hc.toBorne h⟩

end Crew

end Run

end Cascade
