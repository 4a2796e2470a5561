import Cascade.Proofs.Run.Alone

/-!
# Acting on the dependencies in turn

With one worker a forward run acts on the dependencies one after the other, in the order in
which one walk over the graph, children first, first visits them.

`Plan.Smooth` are the courses in which no hook and no action fails.  Each of them acts on all
that is selected and not skipped, between the hooks (`Plan.Smooth.inTurn_eq`), and a run that
is not smooth has met a failure (`Plan.smooth_or_fails`).
-/

namespace Cascade

namespace Run

variable {φ β : Type}

namespace Plan

/-- Dependencies are acted upon one after the other, each between its hooks, and neither hooks
nor actions fail.  Those that are not selected or skipped are passed over. -/
inductive Smooth (p : Plan φ β) : List Dependency → World φ β → World φ β → Prop
  | done {w} : Smooth p [] w w
  | passed {d rest w w'} (hacts : p.acts d = false)
      (next : Smooth p rest (p.passing d w) w') : Smooth p (d :: rest) w w'
  | acted {d rest w w₁ journal w₂ w₃ w'} (hacts : p.acts d = true)
      (before : (p.call .before d).run w = (.ok (), w₁))
      (action : (p.performing d).run { w₁ with started := w₁.started ++ [d.id] } =
        ((.ok (), journal), w₂))
      (after : (p.call .after d).run w₂ = (.ok (), w₃))
      (next : Smooth p rest (if p.silent then w₃ else w₃.withLog [p.doneEntry d]) w') :
      Smooth p (d :: rest) w w'

/-- Acting on a dependency succeeds just if its hooks and its action do. -/
theorem solo_eq_ok_iff {p : Plan φ β} {d : Dependency} {w w' : World φ β} :
    p.solo d w = (.ok (), w') ↔ ∃ w₁ journal w₂ w₃,
      (p.call .before d).run w = (.ok (), w₁) ∧
      (p.performing d).run { w₁ with started := w₁.started ++ [d.id] } =
        ((.ok (), journal), w₂) ∧
      (p.call .after d).run w₂ = (.ok (), w₃) ∧
      w' = if p.silent then w₃ else w₃.withLog [p.doneEntry d] := by
  constructor
  · intro h
    unfold solo at h
    split at h
    · cases h
    · rename_i w₁ hbefore
      split at h
      · split at h <;> cases h
      · rename_i journal w₂ haction
        split at h
        · cases h
        · rename_i w₃ hafter
          cases h
          exact ⟨w₁, journal, w₂, w₃, hbefore, haction, hafter, rfl⟩
  · rintro ⟨w₁, journal, w₂, w₃, hbefore, haction, hafter, rfl⟩
    simp only [solo, hbefore, haction, hafter]

/-- In a smooth course the action succeeds on all that is to be acted upon. -/
theorem Smooth.inTurn_eq {p : Plan φ β} {ds : List Dependency} {w w' : World φ β}
    (h : p.Smooth ds w w') : p.inTurn ds w = (.ok (ds.filter p.acts), w') := by
  induction h with
  | done => rfl
  | passed hacts _ ih =>
    rw [inTurn, if_neg (by simp [hacts]), ih, List.filter_cons_of_neg (by simp [hacts])]
  | acted hacts before action after _ ih =>
    have hsolo := solo_eq_ok_iff.mpr ⟨_, _, _, _, before, action, after, rfl⟩
    rw [inTurn, if_pos hacts, hsolo]
    dsimp only
    rw [ih, List.filter_cons_of_pos hacts]
    rfl

/-- Either all goes smoothly, or all does up to a dependency on which a hook or the action
fails, and that failure is the answer. -/
theorem smooth_or_fails (p : Plan φ β) (ds : List Dependency) (w : World φ β) :
    (∃ w', p.Smooth ds w w') ∨
      ∃ before d rest w₁ e w₂, ds = before ++ d :: rest ∧ p.Smooth before w w₁ ∧
        p.acts d = true ∧ p.solo d w₁ = (.error e, w₂) ∧ p.inTurn ds w = (.error e, w₂) := by
  induction ds generalizing w with
  | nil => exact Or.inl ⟨w, .done⟩
  | cons d ds ih =>
    cases hacts : p.acts d with
    | false =>
      have hturn : p.inTurn (d :: ds) w = p.inTurn ds (p.passing d w) := by
        rw [inTurn, if_neg (by simp [hacts])]
      rcases ih (p.passing d w) with
        ⟨w', h⟩ | ⟨before, d', rest, w₁, e, w₂, rfl, h, hd', hsolo, heq⟩
      · exact Or.inl ⟨w', .passed hacts h⟩
      · exact Or.inr ⟨d :: before, d', rest, w₁, e, w₂, rfl, .passed hacts h, hd', hsolo,
          hturn.trans heq⟩
    | true =>
      rcases hsolo : p.solo d w with ⟨answer, w₀⟩
      cases answer with
      | error e =>
        refine Or.inr ⟨[], d, ds, w, e, w₀, rfl, .done, hacts, hsolo, ?_⟩
        rw [inTurn, if_pos hacts, hsolo]
      | ok _ =>
        obtain ⟨w₁, journal, w₂, w₃, hbefore, haction, hafter, hw₀⟩ := solo_eq_ok_iff.mp hsolo
        have hturn : p.inTurn (d :: ds) w =
            ((p.inTurn ds w₀).1.map (d :: ·), (p.inTurn ds w₀).2) := by
          rw [inTurn, if_pos hacts, hsolo]
        rcases ih w₀ with ⟨w', h⟩ | ⟨before, d', rest, w₁', e, w₂', rfl, h, hd', hsolo', heq⟩
        · exact Or.inl ⟨w', .acted hacts hbefore haction hafter (hw₀ ▸ h)⟩
        · refine Or.inr ⟨d :: before, d', rest, w₁', e, w₂', rfl,
            .acted hacts hbefore haction hafter (hw₀ ▸ h), hd', hsolo', ?_⟩
          rw [hturn, heq]
          rfl

end Plan

end Run

namespace Project

open Run

variable {φ β : Type}

/-- A forward traversal with one client hands out the dependencies in the order in which a
walk over the graph, children first, first visits them, the root left out, and then nothing is
left.  With one worker, handling goes through the dependencies in this order.  If no hook and
no action fails on the way, then the action is performed on those that are selected and not
skipped, one after the other, and the answer lists those among them that the root project
declares, in this order; otherwise the answer is the first failure.  What is asked of the graph
holds of all that have grown by insertions. -/
theorem handle_in_order {g : DependencyGraph} (hg : g.Hierarchy) (hl : g.Laden)
    (p : Project φ β) (schedule : List Nat) {verb : Verb} (hforward : verb.direction = .forward)
    {o : HandleOptions} (hone : p.workersFor o = 1) (perform : Dependency → Task φ β Unit)
    (w : World φ β) (hdeps : p.config.hasDependencies = true) {log : List Log.Entry}
    {stored : Stored φ} (hresolve : p.resolve o.selection.update w.stored = (.ok g, log, stored)) :
    let plan := p.planFor verb o perform
    let w₀ := begun verb o g log stored w
    let deps := g.agenda.map (·.payload)
    let run := (p.handle schedule verb o perform).run.run w
    (∀ client, ∃ left,
      (Handout.start .forward g).drain client = (g.idsAt g.firstVisits, false, left) ∧
        left.traversal.graph.ids = [] ∧ (left.ask client).1 = .exhausted) ∧
    g.agenda.map (·.id) = g.idsAt g.firstVisits ∧
    ((∃ w' entries, plan.Smooth deps w₀ w' ∧
        run = (.ok ⟨g, (deps.filter plan.acts).filter (·.isRoot)⟩, w'.withLog entries)) ∨
      ∃ before d rest w₁ e w₂ entries, deps = before ++ d :: rest ∧ plan.Smooth before w₀ w₁ ∧
        plan.acts d = true ∧ plan.solo d w₁ = (.error e, w₂) ∧
        run = (.error e, w₂.withLog entries)) := by
  intro plan w₀ deps run
  refine ⟨fun client => Handout.drain_eq hg hl client, hl.ids_agenda, ?_⟩
  obtain ⟨hanswer, entries, hworld⟩ :=
    handle_alone hg hl p schedule hforward hone perform w hdeps hresolve
  rcases plan.smooth_or_fails deps w₀ with
    ⟨w', hsmooth⟩ | ⟨before, d, rest, w₁, e, w₂, hsplit, hbefore, hacts, hsolo, hturn⟩
  · have hturn : (p.planFor verb o perform).inTurn (g.agenda.map (·.payload)) w₀ = _ :=
      hsmooth.inTurn_eq
    refine Or.inl ⟨w', entries, hsmooth, ?_⟩
    rw [hturn] at hanswer hworld
    exact Prod.ext hanswer hworld
  · refine Or.inr ⟨before, d, rest, w₁, e, w₂, entries, hsplit, hbefore, hacts, hsolo, ?_⟩
    rw [show (p.planFor verb o perform).inTurn (g.agenda.map (·.payload)) w₀ = _ from hturn]
      at hanswer hworld
    exact Prod.ext hanswer hworld

/-! ## Two applications that share a library -/

/-- Two applications above one library. -/
def storefront : DependencyGraph :=
  (Graph.new "root").insertAll [("root", "web", named "web" true), ("web", "db", named "db" false),
    ("root", "api", named "api" true), ("api", "db", named "db" false)]

theorem grown_storefront : storefront.Grown "root" := .insertAll .new _

/-- A project that declares the two applications. -/
def storefrontProject : Project Unit Unit :=
  { tiersProject with resolve := fun _ stored => (.ok storefront, [], stored) }

/-- One worker, which skips the library. -/
def skippingLibrary : HandleOptions := ⟨⟨["db"], [], false, false⟩, true, 1⟩

/-- The library comes first although it is declared below both applications, and is skipped;
the applications follow in the order of their declaration. -/
theorem handle_in_order_storefront :
    let w : World Unit Unit := ⟨⟨(), .memory ∅⟩, [], ∅, [], ()⟩
    let answer := ((storefrontProject.handle [1, 0, 0] .render skippingLibrary
      fun _ => pure ()).run.run w).1
    (∃ left, (Handout.start .forward storefront).drain 0 = (["db", "web", "api"], false, left)) ∧
      ∃ outcome, answer = .ok outcome ∧ outcome.roots.map (·.name) = ["web", "api"] := by
  intro w answer
  have hg := grown_storefront.hierarchy
  have hl : storefront.Laden := grown_storefront.laden
  have hforward : Verb.render.direction = .forward := rfl
  obtain ⟨hdrain, _, hrun⟩ := handle_in_order hg hl storefrontProject [1, 0, 0] hforward
    (o := skippingLibrary) rfl (fun _ => pure ()) w (by decide) rfl
  refine ⟨?_, ?_⟩
  · obtain ⟨left, hleft, _⟩ := hdrain 0
    have hvisits : storefront.idsAt storefront.firstVisits = ["db", "web", "api"] := by
      decide +kernel
    rw [hvisits] at hleft
    exact ⟨left, hleft⟩
  · rcases hrun with ⟨w', entries, _, hrun⟩ | ⟨_, d, _, w₁, e, w₂, _, _, _, _, hsolo, _⟩
    · exact ⟨_, congrArg Prod.fst hrun, by decide +kernel⟩
    · -- without hooks, an action that does nothing cannot fail
      have hok : ((storefrontProject.planFor .render skippingLibrary
          fun _ => pure ()).solo d w₁).1 = .ok () := rfl
      rw [hsolo] at hok
      cases hok

end Project

end Cascade
