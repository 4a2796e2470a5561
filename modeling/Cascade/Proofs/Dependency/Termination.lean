import Cascade.Proofs.Dependency.Exact

/-!
# Resolving ends

The configurations of a project may declare each other in circles, and nothing in them
says how deep they go.  `resolveWithin` follows them only so deep, and comes to no end if
that is not deep enough; once it comes to one, going deeper makes no difference
(`enterWithin_mono`).  It keeps an account of what it loads.  If the directories that are
declared lie at finitely many places, and are spelled in one way, it comes to an end
(`resolve_ends`), and with the same result as `resolveAll`, whose bound is never reached.

A configuration is entered only if its directory is not a node yet, and the directory is
made a node before the configuration is entered.  So with each step down there is less
`room` for further ones.
-/

namespace Cascade.Resolver

open Cascade.Graph DependencyGraph

variable {φ : Type} [FileSystem φ] {α β : Type}

/-! ## Resolving within a limit -/

/-- A draft, with the directories whose configurations were loaded. -/
structure Account where
  draft : Draft
  loaded : List String

namespace Account

/-- The account of a project of which nothing was resolved. -/
def empty : Account := ⟨.empty, []⟩

/-- Load the configuration of a directory. -/
def load (a : Account) (id : String) : Account := { a with loaded := a.loaded ++ [id] }

/-- Replace the graph. -/
def place (a : Account) (graph : DependencyGraph) : Account :=
  { a with draft := { a.draft with graph } }

/-- Log an entry. -/
def log (a : Account) (entry : Log.Entry) : Account :=
  { a with draft := { a.draft with log := a.draft.log ++ [entry] } }

end Account

/-- A change of an account that may fail, or not come to an end. -/
abbrev Accounting (α : Type) := ExceptT Error (StateT Account Option) α

/-- What comes to no end. -/
def Accounting.endless : Accounting α := ExceptT.mk fun _ => none

/-- `dependencyAt`, where it is noted that a configuration is loaded. -/
def dependencyNoted (files : φ) (isRoot : Bool) (name : String) (d : Declaration) (path : Path) :
    Accounting (Dependency × Bool) := do
  match ((← get).draft.graph.find? path.text).bind (·.payload) with
  | some dependency => return (dependency, false)
  | none =>
    modify (·.load path.text)
    let config ← Config.loadDirectory files path
    return (← Dependency.new path.text name path config d isRoot, true)

/-- Resolve the declarations of one configuration, and then those of each new dependency,
if that leads no more than `limit` configurations deep. -/
def enterWithin (r : Resolver) (files : φ) :
    Nat → String → Path → Config → Accounting Unit
  | 0, _, _, _ => .endless
  | limit + 1, parentId, directory, config =>
    config.dependencies.toList.forM fun (name, declaration) => do
      let path ← locate files directory name declaration
      let isRoot := decide (parentId = rootId)
      let (dependency, isNew) ← dependencyNoted files isRoot name declaration path
      match (← get).draft.graph.insert parentId path.text dependency with
      | .error (.cyclic cycle) =>
        if r.allowCyclic then modify (·.log (skippedEntry name cycle)) else throw (.cyclic cycle)
      | .error e => throw e
      | .ok (_, graph) =>
        modify (·.place (adopt graph parentId path.text))
        if isNew then enterWithin r files limit path.text path dependency.config

/-- Resolve all dependencies of the project. -/
def resolveWithin (r : Resolver) (files : φ) (limit : Nat) : Accounting Unit := do
  let root ← (FileSystem.canonical files r.root).mapError Error.other
  r.enterWithin files limit rootId root r.config

/-! ## Running -/

/-- A change goes on if it ends and does not fail. -/
theorem Accounting.run_bind (m : Accounting α) (f : α → Accounting β) (a : Account) :
    (m >>= f).run.run a = (m.run.run a).bind fun
      | (.ok x, a) => (f x).run.run a
      | (.error e, a) => some (.error e, a) := by
  simp only [ExceptT.run_bind, StateT.run_bind]
  rcases m.run.run a with _ | ⟨result, a'⟩
  · rfl
  · cases result <;> rfl

/-- Load the configuration of a directory unless its dependency is known. -/
def Account.visit (a : Account) (id : String) : Account :=
  { a with loaded := if ((a.draft.graph.find? id).bind (·.payload)).isSome then a.loaded
      else a.loaded ++ [id] }

theorem dependencyNoted_run (files : φ) (isRoot : Bool) (name : String) (d : Declaration)
    (path : Path) (a : Account) : (dependencyNoted files isRoot name d path).run.run a =
      some (dependencyAt files a.draft.graph isRoot name d path, a.visit path.text) := by
  unfold dependencyNoted dependencyAt Account.visit
  rw [Accounting.run_bind]
  change ((match (a.draft.graph.find? path.text).bind (·.payload) with
    | some dependency => _
    | none => _ : Accounting (Dependency × Bool)).run.run a) = _
  cases (a.draft.graph.find? path.text).bind (·.payload) with
  | some dependency => rfl
  | none =>
    rw [Accounting.run_bind]
    change (liftM (Config.loadDirectory files path) >>= _ :
      Accounting (Dependency × Bool)).run.run (a.load path.text) = _
    rw [Accounting.run_bind]
    cases Config.loadDirectory files path with
    | error e => rfl
    | ok config =>
      change (liftM (Dependency.new path.text name path config d isRoot) >>= _ :
        Accounting (Dependency × Bool)).run.run (a.load path.text) =
          some (Dependency.new path.text name path config d isRoot >>= _, a.load path.text)
      rw [Accounting.run_bind]
      cases Dependency.new path.text name path config d isRoot <;> rfl

/-- Resolve one declaration, and then those of its dependency if that is new. -/
def declareWithin (r : Resolver) (files : φ) (limit : Nat) (parentId : String) (directory : Path)
    (declared : String × Declaration) : Accounting Unit := do
  let path ← locate files directory declared.1 declared.2
  let (dependency, isNew) ←
    dependencyNoted files (decide (parentId = rootId)) declared.1 declared.2 path
  match (← get).draft.graph.insert parentId path.text dependency with
  | .error (.cyclic cycle) =>
    if r.allowCyclic then modify (·.log (skippedEntry declared.1 cycle))
    else throw (.cyclic cycle)
  | .error e => throw e
  | .ok (_, graph) =>
    modify (·.place (adopt graph parentId path.text))
    if isNew then r.enterWithin files limit path.text path dependency.config

theorem enterWithin_succ (r : Resolver) (files : φ) (limit : Nat) (parentId : String)
    (directory : Path) (config : Config) :
    r.enterWithin files (limit + 1) parentId directory config =
      config.dependencies.toList.forM (r.declareWithin files limit parentId directory) := rfl

/-- What comes of a declaration once its directory and what is there are known. -/
def settleWithin (r : Resolver) (files : φ) (limit : Nat) (parentId name : String) (path : Path)
    (found : Dependency × Bool) (a : Account) : Option (Except Error Unit × Account) :=
  match a.draft.graph.insert parentId path.text found.1 with
  | .error (.cyclic cycle) =>
    if r.allowCyclic then some (.ok (), a.log (skippedEntry name cycle))
    else some (.error (.cyclic cycle), a)
  | .error e => some (.error e, a)
  | .ok (_, graph) =>
    if found.2 then (r.enterWithin files limit path.text path found.1.config).run.run
      (a.place (adopt graph parentId path.text))
    else some (.ok (), a.place (adopt graph parentId path.text))

theorem declareWithin_run (r : Resolver) (files : φ) (limit : Nat) (parentId : String)
    (directory : Path) (declared : String × Declaration) (a : Account) :
    (r.declareWithin files limit parentId directory declared).run.run a =
      match locate files directory declared.1 declared.2 with
      | .error e => some (.error e, a)
      | .ok path =>
        match dependencyAt files a.draft.graph (decide (parentId = rootId))
          declared.1 declared.2 path with
        | .error e => some (.error e, a.visit path.text)
        | .ok found =>
          r.settleWithin files limit parentId declared.1 path found (a.visit path.text) := by
  unfold declareWithin
  rw [Accounting.run_bind]
  cases locate files directory declared.1 declared.2 with
  | error e => rfl
  | ok path =>
    change (dependencyNoted files (decide (parentId = rootId)) declared.1 declared.2 path >>= _ :
      Accounting Unit).run.run a = _
    rw [Accounting.run_bind, dependencyNoted_run, Option.bind_some]
    dsimp only
    cases dependencyAt files a.draft.graph (decide (parentId = rootId))
      declared.1 declared.2 path with
    | error e => rfl
    | ok found =>
      change ((get : Accounting Account) >>= _).run.run (a.visit path.text) =
        r.settleWithin files limit parentId declared.1 path found (a.visit path.text)
      rw [Accounting.run_bind]
      unfold settleWithin
      change (match (a.visit path.text).draft.graph.insert parentId path.text found.1 with
        | .error (.cyclic cycle) => _
        | .error e => _
        | .ok (_, graph) => _ : Accounting Unit).run.run (a.visit path.text) = _
      cases (a.visit path.text).draft.graph.insert parentId path.text found.1 with
      | error e =>
        cases e with
        | cyclic cycle => cases r.allowCyclic <;> rfl
        | _ => rfl
      | ok placed => cases found.2 <;> rfl

/-! ## Going deeper -/

/-- If each of some changes comes to the same end as another one, so do all of them. -/
theorem forM_mono {f g : α → Accounting Unit}
    (h : ∀ x a outcome, (f x).run.run a = some outcome → (g x).run.run a = some outcome)
    {l : List α} {a : Account} {outcome : Except Error Unit × Account}
    (hrun : (l.forM f).run.run a = some outcome) : (l.forM g).run.run a = some outcome := by
  induction l generalizing a with
  | nil => exact hrun
  | cons x l ih =>
    change (f x >>= fun _ => l.forM f).run.run a = _ at hrun
    change (g x >>= fun _ => l.forM g).run.run a = _
    rw [Accounting.run_bind] at hrun ⊢
    obtain ⟨⟨result, a'⟩, hfirst, hrest⟩ := Option.bind_eq_some_iff.mp hrun
    rw [h x a _ hfirst, Option.bind_some]
    cases result with
    | error e => exact hrest
    | ok _ => exact ih hrest

/-- What comes to an end within a limit comes to it within any higher one. -/
theorem enterWithin_mono {r : Resolver} {files : φ} {limit limit' : Nat} (hle : limit ≤ limit')
    {parentId : String} {directory : Path} {config : Config} {a : Account}
    {outcome : Except Error Unit × Account}
    (h : (r.enterWithin files limit parentId directory config).run.run a = some outcome) :
    (r.enterWithin files limit' parentId directory config).run.run a = some outcome := by
  induction limit generalizing limit' parentId directory config a outcome with
  | zero => cases h
  | succ limit ih =>
    obtain ⟨limit', rfl⟩ : ∃ n, limit' = n + 1 := ⟨limit' - 1, by omega⟩
    rw [enterWithin_succ] at h ⊢
    refine forM_mono (fun named a outcome hrun => ?_) h
    rw [declareWithin_run] at hrun ⊢
    cases hlocate : locate files directory named.1 named.2 with
    | error e =>
      rw [hlocate] at hrun
      exact hrun
    | ok path =>
      rw [hlocate] at hrun
      dsimp only at hrun ⊢
      cases hfound : dependencyAt files a.draft.graph (decide (parentId = rootId))
        named.1 named.2 path with
      | error e =>
        rw [hfound] at hrun
        exact hrun
      | ok found =>
        rw [hfound] at hrun
        dsimp only at hrun ⊢
        unfold settleWithin at hrun ⊢
        split at hrun
        · exact hrun
        · exact hrun
        · cases hnew : found.2 with
          | true =>
            rw [hnew] at hrun
            exact ih (Nat.le_of_succ_le_succ hle) hrun
          | false =>
            rw [hnew] at hrun
            exact hrun

/-! ## What may be met -/

/-- The configurations that may be met on the way down from the project, with the
directories that they are in. -/
inductive Meets (r : Resolver) (files : φ) : Path → Config → Prop where
  | project {root : Path} (h : FileSystem.canonical files r.root = .ok root) :
      Meets r files root r.config
  | dependency {directory path : Path} {config config' : Config} {named : String × Declaration}
      (h : Meets r files directory config) (hnamed : named ∈ config.dependencies.toList)
      (hlocate : locate files directory named.1 named.2 = .ok path)
      (hload : Config.loadDirectory files path = .ok config') : Meets r files path config'

/-- A configuration that may be met declares this directory. -/
def Means (r : Resolver) (files : φ) (path : Path) : Prop :=
  ∃ directory config named, r.Meets files directory config ∧
    named ∈ config.dependencies.toList ∧ locate files directory named.1 named.2 = .ok path

/-- All directories that may be met lie at some of these places, and each of them has one
spelling. -/
structure Surveyed (r : Resolver) (files : φ) (places : Finset (List String)) : Prop where
  place {path : Path} : r.Means files path → path.components ∈ places
  spelled {path path' : Path} : r.Means files path → r.Means files path' →
    path.components = path'.components → path = path'

variable {r : Resolver} {files : φ}

/-- A finite set holds the IDs of all directories that may be met.  It has no more elements
than there are places, or entries. -/
theorem Surveyed.exists_cover [FiniteFiles φ] {places : Finset (List String)}
    (h : r.Surveyed files places) : ∃ cover : Finset String, cover.card ≤ places.card ∧
      cover.card ≤ FileSystem.size files ∧ ∀ path, r.Means files path → path.text ∈ cover := by
  have hapart : ∀ id id', r.Means files ⟨id⟩ → r.Means files ⟨id'⟩ →
      (Path.mk id).components = (Path.mk id').components → id = id' :=
    fun id id' hid hid' heq => Path.mk.inj (h.spelled hid hid' heq)
  obtain ⟨cover, hcard, hcover⟩ := exists_cover_of_places places
    (fun id => r.Means files ⟨id⟩) (fun id hid => h.place hid) hapart
  obtain ⟨cover', hcard', hcover'⟩ := Cascade.exists_cover files
    (fun id => r.Means files ⟨id⟩) (fun id hid => by
      obtain ⟨directory, config, named, _, _, hlocate⟩ := hid
      exact ⟨_, Failure.mapError_eq_ok.mp hlocate⟩) hapart
  refine ⟨cover ∩ cover', ?_, ?_, fun path hpath => ?_⟩
  · exact (Finset.card_le_card Finset.inter_subset_left).trans hcard
  · exact (Finset.card_le_card Finset.inter_subset_right).trans hcard'
  · exact Finset.mem_inter.mpr ⟨hcover path.text hpath, hcover' path.text hpath⟩

/-- What may be met is what an ID of a closed list stands for. -/
theorem Meets.configOf_of_closed {ids : List String} (hclosed : r.closed files ids = true)
    {directory : Path} {config : Config} (h : r.Meets files directory config) :
    ∃ id ∈ ids, r.configOf files id = .ok (directory, config) ∧
      ∀ named ∈ config.dependencies.toList, ∀ path,
        locate files directory named.1 named.2 = .ok path →
          path.text ∈ ids ∧ path.text ≠ rootId := by
  have hdeclared {id : String} (hid : id ∈ ids) {directory config}
      (hconfig : r.configOf files id = .ok (directory, config)) :
      ∀ named ∈ config.dependencies.toList, ∀ path,
        locate files directory named.1 named.2 = .ok path →
          path.text ∈ ids ∧ path.text ≠ rootId := by
    intro named hnamed path hlocate
    obtain ⟨children, hchildren, hall⟩ := exists_declared_of_closed hclosed hid
    obtain ⟨found, hfound, hrest⟩ := Failure.bind_eq_ok.mp hchildren
    rw [hconfig] at hfound
    cases hfound
    obtain ⟨_, _, hmapM⟩ := Failure.bind_eq_ok.mp hrest
    exact hall _ (Failure.mem_of_mapM hmapM hnamed (Failure.map_eq_ok.mpr ⟨path, hlocate, rfl⟩))
  induction h with
  | @project root hroot =>
    have hconfig : r.configOf files rootId = .ok (root, r.config) := by
      rw [configOf, if_pos rfl, hroot]
      rfl
    have hmem := List.contains_iff_mem.mp (Bool.and_eq_true_iff.mp hclosed).1
    exact ⟨rootId, hmem, hconfig, hdeclared hmem hconfig⟩
  | @dependency _ path _ config' _ _ hnamed hlocate hload ih =>
    obtain ⟨_, _, _, hall⟩ := ih
    obtain ⟨hmem, hne⟩ := hall _ hnamed path hlocate
    have hconfig : r.configOf files path.text = .ok (path, config') := by
      rw [configOf, if_neg hne, show (⟨path.text⟩ : Path) = path from rfl, hload]
      rfl
    exact ⟨path.text, hmem, hconfig, hdeclared hmem hconfig⟩

/-- The directories of a closed list of IDs that are spelled apart are surveyed. -/
theorem surveyed_of_closed {ids : List String} (h : r.closed files ids = true)
    (hspelled : ∀ id ∈ ids, ∀ id' ∈ ids,
      (Path.mk id).components = (Path.mk id').components → id = id') :
    r.Surveyed files ((ids.erase rootId).map fun id => (Path.mk id).components).toFinset := by
  have hmem {path : Path} (hpath : r.Means files path) : path.text ∈ ids ∧ path.text ≠ rootId := by
    obtain ⟨directory, config, named, hmeets, hnamed, hlocate⟩ := hpath
    obtain ⟨_, _, _, hall⟩ := hmeets.configOf_of_closed h
    exact hall named hnamed path hlocate
  refine ⟨fun hpath => ?_, fun hpath hpath' heq => ?_⟩
  · obtain ⟨hid, hne⟩ := hmem hpath
    rw [List.mem_toFinset]
    exact List.mem_map.mpr ⟨_, (List.mem_erase_of_ne hne).mpr hid, rfl⟩
  · exact congrArg Path.mk (hspelled _ (hmem hpath).1 _ (hmem hpath').1 heq)

/-! ## Accounts in order -/

/-- Each directory was loaded once.  The ID of the root counts as no directory. -/
def Account.Once (a : Account) : Prop := ∀ id, id ≠ rootId → a.loaded.count id ≤ 1

/-- The graph is sound, and what was loaded became a node, so that it was loaded once. -/
structure Account.Orderly (a : Account) : Prop where
  sound : a.draft.graph.Sound
  root : a.draft.graph.position? rootId = some Graph.root
  known {id : String} : id ∈ a.loaded → id ≠ rootId → a.draft.graph.Knows id
  once : a.Once

namespace Account

variable {a : Account}

theorem orderly_empty : empty.Orderly where
  sound := sound_new
  root := by decide
  known h := by cases h
  once id _ := Nat.zero_le _

namespace Orderly

theorem log (h : a.Orderly) (entry : Log.Entry) : (a.log entry).Orderly :=
  ⟨h.sound, h.root, h.known, h.once⟩

/-- What is loaded now was not loaded before. -/
theorem once_visit (h : a.Orderly) (id : String) : (a.visit id).Once := by
  intro id' hne
  unfold visit
  dsimp only
  split
  · exact h.once id' hne
  · rename_i hunknown
    rw [List.count_append]
    by_cases heq : id' = id
    · subst heq
      have hnot : id' ∉ a.loaded := by
        intro hmem
        obtain ⟨d, hd⟩ := h.sound.exists_payload h.root hne (h.known hmem hne)
        rw [hd] at hunknown
        exact hunknown rfl
      rw [List.count_eq_zero_of_not_mem hnot, List.count_singleton_self]
    · rw [List.count_singleton, if_neg (by simpa using Ne.symm heq)]
      exact h.once id' hne

theorem mem_loaded_visit {id id' : String} (h : id' ∈ (a.visit id).loaded) :
    id' ∈ a.loaded ∨ id' = id := by
  unfold visit at h
  dsimp only at h
  split at h
  · exact Or.inl h
  · simpa using h

/-- What was loaded is noted in the graph, so that all is in order again. -/
theorem place_visit (h : a.Orderly) {id : String} {graph : DependencyGraph}
    (hsound : graph.Sound) (hroot : graph.position? rootId = some Graph.root)
    (hkept : ∀ {id}, a.draft.graph.Knows id → graph.Knows id)
    (hid : id ≠ rootId → graph.Knows id) : ((a.visit id).place graph).Orderly where
  sound := hsound
  root := hroot
  known {id'} hmem hne := by
    rcases mem_loaded_visit hmem with hold | rfl
    · exact hkept (h.known hold hne)
    · exact hid hne
  once := h.once_visit id

end Orderly

end Account

/-! ## Coming to an end -/

/-- What comes of an account in order: another one, or an error.  It is what comes of a
bounded change of its draft. -/
inductive Concludes (a : Account) :
    Option (Except Error Unit × Account) → Except Error Unit × Draft → Prop where
  | ok {a' : Account} (orderly : a'.Orderly)
      (kept : ∀ {id}, a.draft.graph.Knows id → a'.draft.graph.Knows id) :
      Concludes a (some (.ok (), a')) (.ok (), a'.draft)
  | error (e : Error) {a' : Account} (once : a'.Once) :
      Concludes a (some (.error e, a')) (.error e, a'.draft)

/-- What comes of a later account comes of an earlier one. -/
theorem Concludes.trans {a a' : Account} {within : Option (Except Error Unit × Account)}
    {bounded : Except Error Unit × Draft} (h : Concludes a' within bounded)
    (hkept : ∀ {id}, a.draft.graph.Knows id → a'.draft.graph.Knows id) :
    Concludes a within bounded := by
  cases h with
  | ok horderly hkept' => exact .ok horderly fun hid => hkept' (hkept hid)
  | error e honce => exact .error e honce

variable {cover : Finset String}

/-- Entering configurations comes to an end, and to what it comes to in `resolveConfig`, as
long as there is no more room than they may go deep. -/
def Concluding (r : Resolver) (files : φ) (cover : Finset String) (limit depth : Nat) : Prop :=
  ∀ {id directory config} (a : Account), r.Meets files directory config →
    a.Orderly → a.draft.graph.Knows id → room cover a.draft.graph < limit →
    room cover a.draft.graph < depth →
    Concludes a ((r.enterWithin files limit id directory config).run.run a)
      ((r.resolveConfig files depth id directory config).run.run a.draft)

/-- A new dependency has the configuration that was loaded. -/
theorem loadDirectory_of_new {g : DependencyGraph} {isRoot : Bool} {name : String}
    {d : Declaration} {path : Path} {found : Dependency × Bool}
    (h : dependencyAt files g isRoot name d path = .ok found) (hnew : found.2 = true) :
    Config.loadDirectory files path = .ok found.1.config := by
  unfold dependencyAt at h
  split at h
  · cases h
    cases hnew
  · obtain ⟨config, hconfig, h⟩ := Failure.bind_eq_ok.mp h
    obtain ⟨dependency, hdependency, h⟩ := Failure.bind_eq_ok.mp h
    obtain ⟨exclusion, _, heq⟩ := Failure.bind_eq_ok.mp hdependency
    cases h
    cases heq
    exact hconfig

/-- A declaration is settled: its directory becomes a node, and its configuration is entered
if it was none before.  Then there is less room. -/
theorem Concluding.settle {limit depth : Nat} (hbelow : r.Concluding files cover limit depth)
    (hcover : ∀ path, r.Means files path → path.text ∈ cover) {id : String}
    {directory path : Path} {config : Config} {named : String × Declaration}
    (hmeets : r.Meets files directory config) (hnamed : named ∈ config.dependencies.toList)
    (hlocate : locate files directory named.1 named.2 = .ok path) {a : Account} (ha : a.Orderly)
    (hid : a.draft.graph.Knows id) (hlimit : room cover a.draft.graph < limit + 1)
    (hdepth : room cover a.draft.graph < depth + 1) {found : Dependency × Bool}
    (hfound : dependencyAt files a.draft.graph
      (decide (id = rootId)) named.1 named.2 path = .ok found) :
    Concludes a (r.settleWithin files limit id named.1 path found (a.visit path.text))
      (r.settle files depth id named.1 path found a.draft) := by
  unfold settleWithin Resolver.settle
  change Concludes a (match a.draft.graph.insert id path.text found.1 with
    | .error (.cyclic cycle) => _
    | .error e => _
    | .ok (_, graph) => _) _
  rcases ha.sound.hierarchy.consistent.insert_cases hid path.text found.1 with
    ⟨position, graph, hinsert⟩ | ⟨rest, hinsert, hknown, _⟩
  · rw [hinsert]
    dsimp only
    have hlocated := located_dependencyAt ha.sound hfound
    have hknows {x : String} : (adopt graph id path.text).Knows x ↔
        a.draft.graph.Knows x ∨ x = path.text := by
      rw [knows_adopt, knows_insert hinsert]
    have hplaced : ((a.visit path.text).place (adopt graph id path.text)).Orderly := by
      refine ha.place_visit (sound_adopt (sound_insert ha.sound hlocated hinsert) _ _) ?_
        (fun hx => hknows.mpr (Or.inl hx)) fun _ => hknows.mpr (Or.inr rfl)
      rw [position?_adopt]
      exact (position?_of_insert hinsert).2 _ _ ha.root
    cases hnew : found.2 with
    | false => exact .ok hplaced fun hx => hknows.mpr (Or.inl hx)
    | true =>
      have hne := ha.sound.ne_rootId_of_insert ha.root hinsert
      have hfirst : ¬ a.draft.graph.Knows path.text := by
        intro hknown
        obtain ⟨d, hd⟩ := ha.sound.exists_payload ha.root hne hknown
        rw [dependencyAt, hd] at hfound
        cases hfound
        cases hnew
      have hless : room cover (adopt graph id path.text) < room cover a.draft.graph :=
        room_lt (fun hx => hknows.mpr (Or.inl hx))
          (hcover path ⟨directory, config, named, hmeets, hnamed, hlocate⟩) hfirst
          (hknows.mpr (Or.inr rfl))
      have hdown : r.Meets files path found.1.config :=
        .dependency hmeets hnamed hlocate (loadDirectory_of_new hfound hnew)
      have hentered := hbelow ((a.visit path.text).place (adopt graph id path.text))
        hdown hplaced (hknows.mpr (Or.inr rfl)) (Nat.lt_of_lt_of_le hless (by omega))
        (Nat.lt_of_lt_of_le hless (by omega))
      exact hentered.trans fun hx => hknows.mpr (Or.inl hx)
  · rw [hinsert]
    dsimp only
    cases r.allowCyclic with
    | true =>
      have hlogged : ((a.visit path.text).place a.draft.graph).Orderly :=
        ha.place_visit ha.sound ha.root (fun hx => hx) fun _ => hknown
      exact .ok (hlogged.log _) fun hx => hx
    | false => exact .error _ (ha.once_visit _)

/-- One declaration is followed. -/
theorem Concluding.declare {limit depth : Nat} (hbelow : r.Concluding files cover limit depth)
    (hcover : ∀ path, r.Means files path → path.text ∈ cover) {id : String}
    {directory : Path} {config : Config} {named : String × Declaration}
    (hmeets : r.Meets files directory config) (hnamed : named ∈ config.dependencies.toList)
    {a : Account} (ha : a.Orderly) (hid : a.draft.graph.Knows id)
    (hlimit : room cover a.draft.graph < limit + 1)
    (hdepth : room cover a.draft.graph < depth + 1) :
    Concludes a ((r.declareWithin files limit id directory named).run.run a)
      ((r.declare files depth id directory named).run.run a.draft) := by
  rw [declareWithin_run, declare_run]
  cases hlocate : locate files directory named.1 named.2 with
  | error e => exact .error e ha.once
  | ok path =>
    dsimp only
    cases hfound : dependencyAt files a.draft.graph (decide (id = rootId)) named.1 named.2 path with
    | error e => exact .error e (ha.once_visit _)
    | ok found => exact hbelow.settle hcover hmeets hnamed hlocate ha hid hlimit hdepth hfound

/-- Declarations are followed one after the other. -/
theorem Concluding.forM {limit depth : Nat} (hbelow : r.Concluding files cover limit depth)
    (hcover : ∀ path, r.Means files path → path.text ∈ cover) {id : String}
    {directory : Path} {config : Config} (hmeets : r.Meets files directory config)
    {l : List (String × Declaration)} (hl : ∀ named ∈ l, named ∈ config.dependencies.toList)
    {a : Account} (ha : a.Orderly) (hid : a.draft.graph.Knows id)
    (hlimit : room cover a.draft.graph < limit + 1)
    (hdepth : room cover a.draft.graph < depth + 1) :
    Concludes a ((l.forM (r.declareWithin files limit id directory)).run.run a)
      ((l.forM (r.declare files depth id directory)).run.run a.draft) := by
  induction l generalizing a with
  | nil => exact .ok ha fun hx => hx
  | cons named l ih =>
    change Concludes a
      ((r.declareWithin files limit id directory named >>= fun _ => l.forM _).run.run a)
      ((r.declare files depth id directory named >>= fun _ => l.forM _).run.run a.draft)
    rw [Accounting.run_bind, Drafting.run_bind]
    have hfirst :=
      hbelow.declare hcover hmeets (hl named (List.mem_cons_self ..)) ha hid hlimit hdepth
    revert hfirst
    generalize (r.declareWithin files limit id directory named).run.run a = within
    generalize (r.declare files depth id directory named).run.run a.draft = bounded
    intro hfirst
    cases hfirst with
    | ok horderly hkept =>
      have hless : room cover _ ≤ room cover a.draft.graph := room_le hkept
      exact (ih (fun n hn => hl n (List.mem_cons_of_mem _ hn)) horderly (hkept hid)
        (by omega) (by omega)).trans hkept
    | error e honce => exact .error e honce

/-- As deep as there is room, entering a configuration comes to an end. -/
theorem concluding (hcover : ∀ path, r.Means files path → path.text ∈ cover) (limit depth : Nat) :
    r.Concluding files cover limit depth := by
  induction limit generalizing depth with
  | zero =>
    intro id directory config a _ _ _ hlimit
    omega
  | succ limit ih =>
    intro id directory config a hmeets ha hid hlimit hdepth
    obtain ⟨depth, rfl⟩ : ∃ n, depth = n + 1 := ⟨depth - 1, by omega⟩
    rw [enterWithin_succ, resolveConfig_succ]
    exact Concluding.forM (ih depth) hcover hmeets (fun _ hn => hn) ha hid hlimit hdepth

/-- However the configurations of a project declare each other, resolving it ends: within a
limit that is higher than the number of places of declared directories, it comes to the same
end as within any higher one, and as `resolveAll`.  So configurations are entered no deeper
inside each other than that number and one for the project.  The configuration of each
directory is loaded once at most.  (The ID of the root is no path of a directory.) -/
theorem resolve_ends [FiniteFiles φ] {places : Finset (List String)}
    (h : r.Surveyed files places) : ∃ result a,
      (∀ limit > places.card,
        (r.resolveWithin files limit).run.run Account.empty = some (result, a)) ∧
      (r.resolveAll files).run.run Draft.empty = (result, a.draft) ∧
      ∀ id, id ≠ rootId → a.loaded.count id ≤ 1 := by
  obtain ⟨cover, hplaces, hsize, hcover⟩ := h.exists_cover
  unfold resolveWithin
  simp only [Accounting.run_bind]
  cases hroot : FileSystem.canonical files r.root with
  | error failure =>
    refine ⟨.error (.other failure), .empty, fun _ _ => rfl, ?_, fun _ _ => Nat.zero_le _⟩
    unfold resolveAll
    rw [Drafting.run_bind, hroot]
    rfl
  | ok root =>
    rw [resolveAll_run hroot]
    have hroom : room cover Draft.empty.graph ≤ cover.card := room_le_card
    have hconcludes := concluding hcover (places.card + 1) (levels files) .empty (.project hroot)
      Account.orderly_empty (knows_new.mpr rfl)
      (show room cover Draft.empty.graph < places.card + 1 by omega)
      (show room cover Draft.empty.graph < FileSystem.levels + FileSystem.size files by
        unfold FileSystem.levels; omega)
    have hmore {outcome : Except Error Unit × Account} (limit : Nat) (hlimit : limit > places.card)
        (hends : (r.enterWithin files (places.card + 1) rootId root r.config).run.run .empty =
          some outcome) :
        (r.enterWithin files limit rootId root r.config).run.run .empty = some outcome :=
      enterWithin_mono hlimit hends
    revert hconcludes
    generalize (r.enterWithin files (places.card + 1) rootId root r.config).run.run
      Account.empty = within at hmore ⊢
    change Concludes _ within ((r.resolveConfig files (levels files) rootId root
      r.config).run.run Draft.empty) → _
    generalize (r.resolveConfig files (levels files) rootId root r.config).run.run Draft.empty =
      bounded
    intro hconcludes
    cases hconcludes with
    | @ok a horderly _ =>
      exact ⟨.ok (), a, fun limit hlimit => hmore limit hlimit rfl, rfl, horderly.once⟩
    | @error e a honce =>
      exact ⟨.error e, a, fun limit hlimit => hmore limit hlimit rfl, rfl, honce⟩

/-- A tree of a project and two directories.  These declare each other, and one of them
itself and the other one the project. -/
def tangledFiles : MemoryFiles :=
  ((MemoryFiles.empty.addDirectory ⟨"/app"⟩).addFile ⟨"/a/Depdag.toml"⟩
    "[dependency.b]\npath = \"/b\"\n[dependency.self]\npath = \"/a\"\n".toUTF8).addFile
      ⟨"/b/Depdag.toml"⟩
      "[dependency.a]\npath = \"/a\"\n[dependency.app]\npath = \"/app\"\n".toUTF8

/-- The project declares one of them, and itself. -/
def tangled : Resolver := ⟨⟨"/app"⟩, declaring [("a", "/a"), ("self", "/app")], true⟩

theorem resolve_ends_tangled : ∃ places, tangled.Surveyed tangledFiles places ∧
    ∃ a, (tangled.resolveWithin tangledFiles 4).run.run .empty = some (.ok (), a) ∧
      ∀ id, id ≠ rootId → a.loaded.count id ≤ 1 := by
  have hclosed : tangled.closed tangledFiles [rootId, "/a", "/b", "/app"] = true := by
    decide +kernel
  have hsurveyed := surveyed_of_closed hclosed (by decide +kernel)
  obtain ⟨result, a, hends, hbounded, honce⟩ := resolve_ends hsurveyed
  have hok : ((tangled.resolveAll tangledFiles).run.run Draft.empty).1.isOk = true := by
    decide +kernel
  rw [hbounded] at hok
  cases result with
  | error e => cases hok
  | ok _ => exact ⟨_, hsurveyed, a, hends 4 (by decide +kernel), honce⟩

end Cascade.Resolver
