import Cascade.Dependency.Resolve
import Cascade.Proofs.Failure
import Cascade.Proofs.Graph.Payload
import Cascade.Proofs.Store.Entries

/-!
# The graphs that resolving makes

Whatever resolving finds, it drafts a hierarchy in which every node but the
root carries a dependency that is known by its directory (`Draft.Sound`).
Resolving changes no hash but that it forgets, if asked to, those of what is not
a dependency (`resolve_entries`).
-/

namespace Cascade

/-- The ID of a claimed dependency is its own, and names its directory. -/
def Located (claim : Claim Dependency) : Prop :=
  claim.payload.id = claim.id ∧ claim.payload.path.text = claim.id

/-- A graph of dependencies that are known by their directories. -/
structure DependencyGraph.Sound (g : DependencyGraph) : Prop where
  hierarchy : g.Hierarchy
  laden : g.Laden
  located : ∀ claim, g.Carries claim → Located claim

namespace Resolver

variable {φ : Type} [FileSystem φ] {α β : Type}

/-! ## Changes of a draft -/

/-- A change goes on unless it fails. -/
theorem Drafting.run_bind (m : Drafting α) (f : α → Drafting β) (draft : Draft) :
    (m >>= f).run.run draft = match m.run.run draft with
      | (.ok a, draft) => (f a).run.run draft
      | (.error e, draft) => (.error e, draft) := by
  simp only [ExceptT.run_bind, StateT.run_bind]
  rcases m.run.run draft with ⟨result, draft'⟩
  cases result <;> rfl

/-- Whatever comes of a change of a sound draft, the draft stays sound, and an
answer is as it should be. -/
def Drafting.Ensures (m : Drafting α) (Q : α → Prop) : Prop :=
  ∀ draft : Draft, draft.graph.Sound → (m.run.run draft).2.graph.Sound ∧
    ∀ a, (m.run.run draft).1 = .ok a → Q a

theorem ensures_pure {Q : α → Prop} {a : α} (h : Q a) : Drafting.Ensures (pure a) Q :=
  fun _ hdraft => ⟨hdraft, fun _ heq => by cases heq; exact h⟩

theorem ensures_throw {Q : α → Prop} (e : Error) : Drafting.Ensures (throw e) Q :=
  fun _ hdraft => ⟨hdraft, fun _ heq => by cases heq⟩

theorem ensures_lift {Q : α → Prop} (x : Except Error α) (h : ∀ a, x = .ok a → Q a) :
    Drafting.Ensures (liftM x) Q :=
  fun _ hdraft => ⟨hdraft, h⟩

theorem Drafting.Ensures.bind {m : Drafting α} {f : α → Drafting β} {Q : α → Prop}
    {R : β → Prop} (hm : m.Ensures Q) (hf : ∀ a, Q a → (f a).Ensures R) :
    Drafting.Ensures (m >>= f) R := by
  intro draft hdraft
  obtain ⟨hsound, hanswer⟩ := hm draft hdraft
  rw [Drafting.run_bind]
  revert hsound hanswer
  rcases m.run.run draft with ⟨result, draft'⟩
  intro hsound hanswer
  cases result with
  | error e => exact ⟨hsound, fun _ heq => by cases heq⟩
  | ok a => exact hf a (hanswer a rfl) draft' hsound

theorem ensures_get : Drafting.Ensures get fun draft => draft.graph.Sound :=
  fun _ hdraft => ⟨hdraft, fun _ heq => by cases heq; exact hdraft⟩

theorem ensures_modify {f : Draft → Draft}
    (h : ∀ draft, draft.graph.Sound → (f draft).graph.Sound) :
    Drafting.Ensures (modify f) fun _ => True :=
  fun draft hdraft => ⟨h draft hdraft, fun _ _ => trivial⟩

theorem ensures_forM {l : List α} {f : α → Drafting PUnit}
    (h : ∀ a, (f a).Ensures fun _ => True) : Drafting.Ensures (l.forM f) fun _ => True := by
  induction l with
  | nil => exact ensures_pure trivial
  | cons a l ih => exact (h a).bind fun _ _ => ih

/-! ## Resolving -/

/-- What is found in a directory is known by it, or was known before. -/
theorem located_dependencyAt {files : φ} {g : DependencyGraph} {isRoot : Bool} {name : String}
    {d : Declaration} {path : Path} {found : Dependency × Bool} (hg : g.Sound)
    (h : dependencyAt files g isRoot name d path = .ok found) : Located ⟨path.text, found.1⟩ := by
  unfold dependencyAt at h
  split at h
  · rename_i dependency hfind
    cases h
    obtain ⟨n, hn, hpayload⟩ := Option.bind_eq_some_iff.mp hfind
    obtain ⟨q, hq, hnode⟩ := Option.bind_eq_some_iff.mp hn
    have hid := hg.hierarchy.consistent.registered.mp hq
    rw [Graph.idAt?_of_node? hnode, Option.some.injEq] at hid
    exact hg.located ⟨path.text, dependency⟩ ⟨q, _, Graph.bare?_of_node? hnode, hid, hpayload⟩
  · obtain ⟨config, _, h⟩ := Failure.bind_eq_ok.mp h
    obtain ⟨dependency, hnew, h⟩ := Failure.bind_eq_ok.mp h
    obtain ⟨exclusion, _, hnew⟩ := Failure.bind_eq_ok.mp hnew
    cases h
    cases hnew
    exact ⟨rfl, rfl⟩

theorem sound_new : DependencyGraph.Sound (Graph.new DependencyGraph.rootId) where
  hierarchy := Graph.hierarchy_new _
  laden := Graph.laden_new _
  located claim h := (Graph.not_carries_new _ claim h).elim

/-- Putting a dependency below another keeps a graph sound. -/
theorem sound_insert {g g' : DependencyGraph} {parentId childId : String} {d : Dependency}
    {position : Nat} (hg : g.Sound) (hd : Located ⟨childId, d⟩)
    (h : g.insert parentId childId d = .ok (position, g')) : g'.Sound where
  hierarchy := hg.hierarchy.insert h
  laden := Graph.Laden.insert hg.laden h
  located claim hb := by
    rcases Graph.Carries.of_insert h hb with hold | rfl
    · exact hg.located claim hold
    · exact hd

/-- A change that keeps the IDs and the directories of dependencies keeps a
graph sound. -/
theorem sound_modifyPayload {g : DependencyGraph} (hg : g.Sound) (id : String)
    {f : Dependency → Dependency} (hf : ∀ d, (f d).id = d.id ∧ (f d).path = d.path) :
    DependencyGraph.Sound (g.modifyPayload id f) where
  hierarchy := hg.hierarchy.modifyPayload id f
  laden := Graph.Laden.modifyPayload hg.laden id f
  located claim hb := by
    rcases hb.of_modifyPayload with hold | ⟨payload, hold, hnew⟩
    · exact hg.located claim hold
    · obtain ⟨hid, hpath⟩ := hg.located _ hold
      rw [Located, hnew, (hf payload).1, (hf payload).2]
      exact ⟨hid, hpath⟩

theorem sound_adopt {g : DependencyGraph} (hg : g.Sound) (parentId childId : String) :
    (adopt g parentId childId).Sound := by
  unfold adopt
  split
  · exact sound_modifyPayload hg _ fun d => ⟨rfl, rfl⟩
  · refine sound_modifyPayload hg _ fun d => ?_
    unfold Dependency.addChild
    split <;> exact ⟨rfl, rfl⟩

/-- Resolving configurations keeps a draft sound. -/
theorem ensures_resolveConfig (r : Resolver) (files : φ) (depth : Nat) (parentId : String)
    (directory : Path) (config : Config) :
    (r.resolveConfig files depth parentId directory config).Ensures fun _ => True := by
  induction depth generalizing parentId directory config with
  | zero => exact ensures_throw _
  | succ depth ih =>
    rw [resolveConfig]
    refine ensures_forM fun (name, declaration) => ?_
    refine (ensures_lift (Q := fun _ => True) _ fun _ _ => trivial).bind fun path _ => ?_
    refine ensures_get.bind fun draft hdraft => ?_
    refine (ensures_lift (Q := fun found => Located ⟨path.text, found.1⟩) _ fun found h =>
      located_dependencyAt hdraft h).bind fun (dependency, isNew) hfound => ?_
    refine ensures_get.bind fun draft hdraft => ?_
    split
    · rename_i cycle hcyclic
      split
      · exact ensures_modify fun _ h => h
      · exact ensures_throw _
    · exact ensures_throw _
    · rename_i position graph hinsert
      have hgraph := sound_adopt (sound_insert hdraft hfound hinsert) parentId path.text
      refine (ensures_modify fun _ _ => hgraph).bind fun _ _ => ?_
      cases isNew with
      | false => exact ensures_pure trivial
      | true => exact ih _ _ _

theorem sound_of_resolveAll {r : Resolver} {files : φ} {draft : Draft}
    (h : (r.resolveAll files).run.run .empty = (.ok (), draft)) : draft.graph.Sound := by
  have hall : (r.resolveAll files).Ensures fun _ => True :=
    (ensures_lift (Q := fun _ => True) _ fun _ _ => trivial).bind fun _ _ =>
      ensures_resolveConfig _ _ _ _ _ _
  have hsound := (hall .empty sound_new).1
  rwa [h] at hsound

/-! ## The hashes -/

variable {kind : Stored φ → Prop} {legal : String → String → Prop} {s : Stored φ}

theorem refresh_entries (hk : Stored.Keeping kind legal) (hs : kind s) (g : DependencyGraph) :
    kind (refresh g s).2 ∧ (refresh g s).2.entry =
      if (refresh g s).1.isOk then fun id => if id ∈ g.ids then s.entry id else none
      else s.entry := by
  have hok : (refresh g s).1.isOk = (s.prune g.ids).1.isOk := by
    unfold refresh
    rcases s.prune g.ids with ⟨result, _⟩
    cases result <;> rfl
  rw [hok]
  exact hk.prune hs g.ids

/-- The graph that is resolved is sound. -/
theorem sound_of_resolve {r : Resolver} {update : Bool} {g : DependencyGraph}
    (h : (r.resolve update s).1 = .ok g) : g.Sound := by
  unfold resolve at h
  split at h
  · cases h
  · rename_i draft hall
    have hsound := sound_of_resolveAll hall
    cases update with
    | false =>
      cases h
      exact hsound
    | true =>
      rw [if_pos rfl] at h
      split at h <;> cases h
      exact hsound

/-- Resolving forgets the hashes of what is not in the graph, if it is asked
to and succeeds, and no others. -/
theorem resolve_entries (hk : Stored.Keeping kind legal) (hs : kind s) (r : Resolver)
    (update : Bool) : kind (r.resolve update s).2.2 ∧ (r.resolve update s).2.2.entry =
      match (r.resolve update s).1 with
      | .ok g => if update then fun id => if id ∈ g.ids then s.entry id else none else s.entry
      | .error _ => s.entry := by
  unfold resolve
  split
  · exact ⟨hs, rfl⟩
  · rename_i draft _
    cases update with
    | false => exact ⟨hs, rfl⟩
    | true =>
      have hrefresh := refresh_entries hk hs draft.graph
      simp only [if_true]
      split
      · rename_i hresult
        rw [hresult] at hrefresh
        exact hrefresh
      · rename_i hresult
        rw [hresult] at hrefresh
        exact hrefresh

end Resolver

end Cascade
