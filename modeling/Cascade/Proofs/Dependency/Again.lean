import Cascade.Proofs.Dependency.Resolve
import Cascade.Proofs.Graph.Names

/-!
# Resolving again

What was resolved once is resolved again, in other files, if these have all
directories of dependencies at the same places and with the same configurations.
-/

namespace Cascade

namespace Resolver

variable {φ : Type} [FileSystem φ] {α β : Type}

/-- What comes of one change of a draft also comes of another one, if the nodes of
the draft are good in the end. -/
def Drafting.Again (good : String → Prop) (m n : Drafting α) : Prop :=
  ∀ draft draft' a, m.run.run draft = (.ok a, draft') →
    (∀ id p, draft.graph.position? id = some p → draft'.graph.position? id = some p) ∧
      ((∀ id p, draft'.graph.position? id = some p → good id) →
        n.run.run draft = (.ok a, draft'))

variable {good : String → Prop}

theorem again_forM {l : List α} {f g : α → Drafting PUnit}
    (h : ∀ a, Drafting.Again good (f a) (g a)) : Drafting.Again good (l.forM f) (l.forM g) := by
  induction l with
  | nil =>
    intro draft draft' a hrun
    cases hrun
    exact ⟨fun _ _ h => h, fun _ => rfl⟩
  | cons a l ih =>
    intro draft draft' u hrun
    have hcons (f : α → Drafting PUnit) : (a :: l).forM f = f a >>= fun _ => l.forM f := rfl
    rw [hcons, Drafting.run_bind] at hrun ⊢
    cases hfirst : (f a).run.run draft with
    | mk result middle =>
      rw [hfirst] at hrun
      cases result with
      | error e => cases hrun
      | ok first =>
        obtain ⟨hkept, hagain⟩ := h a draft middle first hfirst
        obtain ⟨hkept', hagain'⟩ := ih middle draft' u hrun
        refine ⟨fun id p hp => hkept' id p (hkept id p hp), fun hgood => ?_⟩
        rw [hagain fun id p hp => hgood id p (hkept' id p hp)]
        exact hagain' hgood

/-! ## Resolving -/

theorem position?_adopt (g : DependencyGraph) (parentId childId id : String) :
    (adopt g parentId childId).position? id = g.position? id := by
  unfold adopt
  split <;> exact Graph.position?_modifyPayload ..

/-- A cycle is closed by a node that was there before. -/
theorem exists_position?_of_cyclic {g : DependencyGraph} {parentId childId : String}
    {d : Dependency} {cycle : List String}
    (h : g.insert parentId childId d = .error (.cyclic cycle)) :
    ∃ p, g.position? childId = some p := by
  unfold Graph.insert at h
  split at h
  · cases h
  split at h
  · rename_i p hp
    exact ⟨p, hp⟩
  · cases h

/-- Resolve one declaration, and then those of what it declares if that is new. -/
def declare (r : Resolver) (files : φ) (depth : Nat) (parentId : String) (directory : Path)
    (declared : String × Declaration) : Drafting Unit := do
  let path ← locate files directory declared.1 declared.2
  let (dependency, isNew) ← dependencyAt files (← get).graph
    (decide (parentId = DependencyGraph.rootId)) declared.1 declared.2 path
  match (← get).graph.insert parentId path.text dependency with
  | .error (.cyclic cycle) =>
    if r.allowCyclic then
      modify fun draft => { draft with log := draft.log ++ [skippedEntry declared.1 cycle] }
    else throw (.cyclic cycle)
  | .error e => throw e
  | .ok (_, graph) =>
    modify fun draft => { draft with graph := adopt graph parentId path.text }
    if isNew then resolveConfig r files depth path.text path dependency.config

theorem resolveConfig_succ (r : Resolver) (files : φ) (depth : Nat) (parentId : String)
    (directory : Path) (config : Config) :
    r.resolveConfig files (depth + 1) parentId directory config =
      config.dependencies.toList.forM (r.declare files depth parentId directory) := rfl

/-- What comes of a declaration once its directory and what is there are known. -/
def settle (r : Resolver) (files : φ) (depth : Nat) (parentId name : String) (path : Path)
    (found : Dependency × Bool) (draft : Draft) : Except Error Unit × Draft :=
  match draft.graph.insert parentId path.text found.1 with
  | .error (.cyclic cycle) =>
    if r.allowCyclic then (.ok (), { draft with log := draft.log ++ [skippedEntry name cycle] })
    else (.error (.cyclic cycle), draft)
  | .error e => (.error e, draft)
  | .ok (_, graph) =>
    if found.2 then (r.resolveConfig files depth path.text path found.1.config).run.run
      { draft with graph := adopt graph parentId path.text }
    else (.ok (), { draft with graph := adopt graph parentId path.text })

theorem declare_run (r : Resolver) (files : φ) (depth : Nat) (parentId : String)
    (directory : Path) (declared : String × Declaration) (draft : Draft) :
    (r.declare files depth parentId directory declared).run.run draft =
      match locate files directory declared.1 declared.2 with
      | .error e => (.error e, draft)
      | .ok path =>
        match dependencyAt files draft.graph (decide (parentId = DependencyGraph.rootId))
          declared.1 declared.2 path with
        | .error e => (.error e, draft)
        | .ok found => r.settle files depth parentId declared.1 path found draft := by
  unfold declare
  rw [Drafting.run_bind]
  cases locate files directory declared.1 declared.2 with
  | error e => rfl
  | ok path =>
    change ((get : Drafting Draft) >>= _).run.run draft = _
    rw [Drafting.run_bind]
    change (liftM (dependencyAt files draft.graph _ _ _ path) >>= _ :
      Drafting Unit).run.run draft = _
    rw [Drafting.run_bind]
    dsimp only
    cases dependencyAt files draft.graph (decide (parentId = DependencyGraph.rootId))
      declared.1 declared.2 path with
    | error e => rfl
    | ok found =>
      change ((get : Drafting Draft) >>= _).run.run draft =
        r.settle files depth parentId declared.1 path found draft
      rw [Drafting.run_bind]
      unfold settle
      change (match draft.graph.insert parentId path.text found.1 with
        | .error (.cyclic cycle) => _
        | .error e => _
        | .ok (_, graph) => _ : Drafting Unit).run.run draft = _
      cases draft.graph.insert parentId path.text found.1 with
      | error e =>
        cases e with
        | cyclic cycle => cases r.allowCyclic <;> rfl
        | _ => rfl
      | ok placed => cases found.2 <;> rfl

/-- Other files that have all that is good where it was and as it was configured,
and no fewer entries. -/
structure Retains (good : String → Prop) (files files' : φ) : Prop where
  size : FileSystem.size files ≤ FileSystem.size files'
  canonical {p path : Path} : good path.text → FileSystem.canonical files p = .ok path →
    FileSystem.canonical files' p = .ok path
  config {path : Path} {config : Config} : good path.text →
    Config.loadDirectory files path = .ok config → Config.loadDirectory files' path = .ok config

variable {files files' : φ}

theorem Retains.locate (hr : Retains good files files') {directory path : Path} {name : String}
    {d : Declaration} (hgood : good path.text) (h : locate files directory name d = .ok path) :
    locate files' directory name d = .ok path :=
  Failure.mapError_eq_ok.mpr (hr.canonical hgood (Failure.mapError_eq_ok.mp h))

theorem Retains.dependencyAt (hr : Retains good files files') {g : DependencyGraph}
    {isRoot : Bool} {name : String} {d : Declaration} {path : Path} {found : Dependency × Bool}
    (hgood : good path.text) (h : dependencyAt files g isRoot name d path = .ok found) :
    dependencyAt files' g isRoot name d path = .ok found := by
  unfold Resolver.dependencyAt at h ⊢
  split at h
  · exact h
  · obtain ⟨config, hconfig, h⟩ := Failure.bind_eq_ok.mp h
    exact Failure.bind_eq_ok.mpr ⟨config, hr.config hgood hconfig, h⟩

/-- Settling a declaration makes its directory a node, and comes to the same again if
resolving what it declares does. -/
theorem again_settle {r r' : Resolver} (hallow : r.allowCyclic = true → r'.allowCyclic = true)
    {depth depth' : Nat}
    (hagain : ∀ parentId directory config, Drafting.Again good
      (r.resolveConfig files depth parentId directory config)
      (r'.resolveConfig files' depth' parentId directory config))
    {parentId name : String} {path : Path} {found : Dependency × Bool} {draft draft' : Draft}
    (h : r.settle files depth parentId name path found draft = (.ok (), draft')) :
    (∀ id p, draft.graph.position? id = some p → draft'.graph.position? id = some p) ∧
      (∃ p, draft'.graph.position? path.text = some p) ∧
      ((∀ id p, draft'.graph.position? id = some p → good id) →
        r'.settle files' depth' parentId name path found draft = (.ok (), draft')) := by
  unfold settle at h ⊢
  cases hinsert : draft.graph.insert parentId path.text found.1 with
  | error e =>
    rw [hinsert] at h
    cases e with
    | cyclic cycle =>
      cases hallowed : r.allowCyclic with
      | false => simp [hallowed] at h
      | true =>
        simp only [hallowed, hallow hallowed, if_true] at h ⊢
        cases h
        exact ⟨fun _ _ hp => hp, exists_position?_of_cyclic hinsert, fun _ => rfl⟩
    | _ => cases h
  | ok placed =>
    obtain ⟨position, graph⟩ := placed
    rw [hinsert] at h
    obtain ⟨hchild, hkept⟩ := Graph.position?_of_insert hinsert
    have hadopted : ∀ id p, graph.position? id = some p →
        (adopt graph parentId path.text).position? id = some p :=
      fun id p hp => (position?_adopt ..).trans hp
    cases hnew : found.2 with
    | false =>
      simp only [hnew, Bool.false_eq_true, if_false] at h ⊢
      cases h
      exact ⟨fun id p hp => hadopted id p (hkept id p hp), ⟨_, hadopted _ _ hchild⟩, fun _ => rfl⟩
    | true =>
      simp only [hnew, if_true] at h ⊢
      obtain ⟨hkept', hrest⟩ := hagain _ _ _ _ _ _ h
      exact ⟨fun id p hp => hkept' id p (hadopted id p (hkept id p hp)),
        ⟨_, hkept' _ _ (hadopted _ _ hchild)⟩, hrest⟩

/-- What was resolved is resolved again in other files that retain all of it, and if no
less is allowed. -/
theorem again_resolveConfig (hr : Retains good files files') {r r' : Resolver}
    (hallow : r.allowCyclic = true → r'.allowCyclic = true) {depth depth' : Nat}
    (hdepth : depth ≤ depth') (parentId : String) (directory : Path) (config : Config) :
    Drafting.Again good (r.resolveConfig files depth parentId directory config)
      (r'.resolveConfig files' depth' parentId directory config) := by
  induction depth generalizing depth' parentId directory config with
  | zero => nofun
  | succ depth ih =>
    obtain ⟨depth', rfl⟩ := Nat.exists_eq_add_one_of_ne_zero (Nat.ne_zero_of_lt hdepth)
    have hbelow : depth ≤ depth' := Nat.le_of_succ_le_succ hdepth
    rw [resolveConfig_succ, resolveConfig_succ]
    refine again_forM fun declared draft draft' u hrun => ?_
    rw [declare_run] at hrun ⊢
    cases hlocate : locate files directory declared.1 declared.2 with
    | error e =>
      rw [hlocate] at hrun
      cases hrun
    | ok path =>
      rw [hlocate] at hrun
      dsimp only at hrun
      cases hfound : dependencyAt files draft.graph (decide (parentId = DependencyGraph.rootId))
          declared.1 declared.2 path with
      | error e =>
        rw [hfound] at hrun
        cases hrun
      | ok found =>
        rw [hfound] at hrun
        obtain ⟨hkept, ⟨p, hp⟩, hagain⟩ := again_settle hallow (ih hbelow) hrun
        refine ⟨hkept, fun hgood => ?_⟩
        rw [hr.locate (hgood _ p hp) hlocate]
        dsimp only
        rw [hr.dependencyAt (hgood _ p hp) hfound]
        exact hagain hgood

/-- Resolving a project starts with its own configuration. -/
theorem resolveAll_run {r : Resolver} {root : Path}
    (hroot : FileSystem.canonical files r.root = .ok root) (draft : Draft) :
    (r.resolveAll files).run.run draft = (r.resolveConfig files (levels files)
      DependencyGraph.rootId root r.config).run.run draft := by
  unfold resolveAll
  rw [Drafting.run_bind, hroot]
  rfl

/-- All dependencies of a project are resolved again in other files that retain
them, the root directory and its ID. -/
theorem resolveAll_again (hr : Retains good files files') {r : Resolver} {draft : Draft}
    (h : (r.resolveAll files).run.run .empty = (.ok (), draft)) {root : Path}
    (hroot : FileSystem.canonical files r.root = .ok root) (hgood : good root.text)
    (hrootId : good DependencyGraph.rootId) (hids : ∀ id ∈ draft.graph.ids, good id) :
    (r.resolveAll files').run.run .empty = (.ok (), draft) := by
  have hsound := sound_of_resolveAll h
  rw [resolveAll_run hroot] at h
  rw [resolveAll_run (hr.canonical hgood hroot)]
  have hlevels : levels files ≤ levels files' := Nat.add_le_add_left hr.size _
  obtain ⟨hkept, hagain⟩ := again_resolveConfig hr (fun hallow => hallow) hlevels _ _ _ _ _ _ h
  refine hagain fun id p hp => ?_
  have hcons := hsound.hierarchy.consistent
  by_cases hroot : p = Graph.root
  · -- the root keeps its ID
    have hnew : Draft.empty.graph.position? DependencyGraph.rootId = some Graph.root := by decide
    have hid := hcons.registered.mp (hkept _ _ hnew)
    subst hroot
    rw [hcons.registered.mp hp] at hid
    cases hid
    exact hrootId
  · exact hids id (hcons.mem_ids.mpr ⟨p, hroot, hcons.registered.mp hp⟩)

/-- Resolving finds the root directory first. -/
theorem exists_root {r : Resolver} {draft draft' : Draft}
    (h : (r.resolveAll files).run.run draft = (.ok (), draft')) :
    ∃ root, FileSystem.canonical files r.root = .ok root := by
  unfold resolveAll at h
  rw [Drafting.run_bind] at h
  cases hroot : FileSystem.canonical files r.root with
  | ok root => exact ⟨root, rfl⟩
  | error e =>
    rw [hroot] at h
    cases h

/-- What was resolved was drafted. -/
theorem exists_draft {r : Resolver} {update : Bool} {s : Stored φ} {g : DependencyGraph}
    (h : (r.resolve update s).1 = .ok g) :
    ∃ draft, (r.resolveAll s.files).run.run .empty = (.ok (), draft) ∧ draft.graph = g := by
  unfold resolve at h
  split at h
  · cases h
  · rename_i draft hdraft
    refine ⟨draft, hdraft, ?_⟩
    split at h
    · split at h
      · cases h
      · cases h
        rfl
    · cases h
      rfl

/-- A project is resolved again with a store that retains all of it, and nothing comes
of it if there is no hash to drop. -/
theorem resolve_again {r : Resolver} {update : Bool} {s s' : Stored φ} {g : DependencyGraph}
    (h : (r.resolve update s).1 = .ok g) (hr : Retains good s.files s'.files)
    (hgood : ∀ root, FileSystem.canonical s.files r.root = .ok root → good root.text)
    (hrootId : good DependencyGraph.rootId) (hids : ∀ id ∈ g.ids, good id)
    (hprune : update = true → s'.prune g.ids = (.ok [], s')) :
    ∃ log, r.resolve update s' = (.ok g, log, s') := by
  obtain ⟨draft, hdraft, rfl⟩ := exists_draft h
  obtain ⟨root, hroot⟩ := exists_root hdraft
  have hagain := resolveAll_again hr hdraft hroot (hgood root hroot) hrootId hids
  unfold resolve
  rw [hagain]
  cases update with
  | false => exact ⟨_, rfl⟩
  | true =>
    have hrefresh : ∃ log, refresh draft.graph s' = (.ok log, s') := by
      unfold refresh
      rw [hprune rfl]
      exact ⟨_, rfl⟩
    obtain ⟨log, hlog⟩ := hrefresh
    simp only [if_true, hlog]
    exact ⟨_, rfl⟩

end Resolver

end Cascade
