import Cascade.Proofs.Dependency.Again
import Cascade.Proofs.Dependency.Declared

/-!
# What resolving a configuration does to a graph

Resolving descends into a directory when it is new.  When it comes back, the directory
and all that was new below it are complete: each of them has the children that it
declares, in the order of the declarations, but for those that lead back to it
(`Gains`).  What was known before is as it was, apart from the node that the
configuration belongs to (`Settles`).

The induction is on the depth and, for one configuration, along its declarations.  The
depth suffices because every descent makes one more ID known, of which there are finitely
many (`room`).
-/

namespace Cascade

open Relation Cascade.Graph DependencyGraph

/-! ## Lists without repetitions -/

namespace Graph

/-- What is added is there in the end. -/
theorem mem_foldl_addOnce {ids base : List String} {id : String} :
    id ∈ ids.foldl addOnce base ↔ id ∈ base ∨ id ∈ ids := by
  induction ids generalizing base with
  | nil => simp
  | cons first rest ih =>
    rw [List.foldl_cons, ih, mem_addOnce, List.mem_cons, or_assoc]

/-- Adding to the empty list drops repetitions. -/
theorem foldl_addOnce_nil (ids : List String) : ids.foldl addOnce [] = ids.eraseDups := by
  induction ids using List.reverseRecOn with
  | nil => rfl
  | append_singleton ids id ih =>
    have hmem : id ∈ ids.eraseDups ↔ id ∈ ids := List.mem_eraseDups
    rw [List.foldl_concat, ih, addOnce, List.eraseDups_append, List.removeAll]
    by_cases h : id ∈ ids
    · simp [hmem.mpr h, h]
    · simp [mt hmem.mp h, h, List.eraseDups_cons]

end Graph

/-- Nothing is put above the root. -/
theorem DependencyGraph.Sound.ne_rootId_of_insert {g g' : DependencyGraph} (hg : g.Sound)
    (hroot : g.position? rootId = some Graph.root) {parentId childId : String} {d : Dependency}
    {position : Nat} (h : g.insert parentId childId d = .ok (position, g')) :
    childId ≠ rootId := by
  rintro rfl
  obtain ⟨p, hp, ⟨c, hc, hpath, _⟩ | ⟨hnone, _⟩⟩ := insert_eq_ok_cases h
  · have hhier := hg.hierarchy
    have hpocc := occupied_of_idAt? (hhier.consistent.registered.mp hp)
    obtain rfl : c = Graph.root := Option.some.inj (hc.symm.trans hroot)
    exact findPath_none hhier.consistent hhier.acyclic hhier.consistent.root_occupied hpath
      (hhier.reaches hpocc)
  · cases hroot.symm.trans hnone

/-- A node with an ID other than the root's carries a dependency. -/
theorem DependencyGraph.Sound.exists_payload {g : DependencyGraph} (hg : g.Sound)
    (hroot : g.position? rootId = some Graph.root) {id : String} (hne : id ≠ rootId)
    (hid : g.Knows id) : ∃ d, (g.find? id).bind (·.payload) = some d := by
  obtain ⟨p, hp⟩ := hid
  have hcons := hg.hierarchy.consistent
  obtain ⟨n, hn, _⟩ := hcons.exists_node? hp
  have hp' : p ≠ Graph.root := by
    rintro rfl
    exact hne (hcons.id_unique hp hroot)
  obtain ⟨d, hd⟩ := Laden.exists_payload hg.laden hp' hn
  refine ⟨d, ?_⟩
  rw [find?, hp, Option.bind_some, hn, Option.bind_some, hd]

namespace Resolver

variable {φ : Type} [FileSystem φ] {r : Resolver} {files : φ}

/-! ## Graphs in which everything is declared -/

/-- A sound graph from the root whose nodes can be reached and whose edges are
declared. -/
structure Drafted (r : Resolver) (files : φ) (g : DependencyGraph) : Prop where
  sound : g.Sound
  root : g.position? rootId = some Graph.root
  reachable {id : String} : g.Knows id → r.Reachable files id
  declares {id child : String} : g.HasChild id child → r.Declares files id child

theorem drafted_new : r.Drafted files (Graph.new rootId) where
  sound := sound_new
  root := by decide
  reachable hid := knows_new.mp hid ▸ reachable_root
  declares := by
    rintro id child ⟨p, c, _, _, hedge⟩
    cases p with
    | zero => cases hedge
    | succ p => cases hedge

namespace Drafted

variable {g g' : DependencyGraph}

theorem consistent (hg : r.Drafted files g) : g.Consistent := hg.sound.hierarchy.consistent

end Drafted

@[simp]
theorem knows_adopt (g : DependencyGraph) (parentId childId id : String) :
    (adopt g parentId childId).Knows id ↔ g.Knows id := by
  simp [Knows, position?_adopt]

@[simp]
theorem childIds_adopt (g : DependencyGraph) (parentId childId id : String) :
    (adopt g parentId childId).childIds id = g.childIds id := by
  unfold adopt
  split <;>
  · refine childIds_congr (position?_modifyPayload ..) (idAt?_modifyPayload _ _ _) ?_
    exact childrenOf_modifyPayload _ _ _

/-- A declared directory that is put below the one that declares it. -/
theorem Drafted.insert {g g' : DependencyGraph} (hg : r.Drafted files g)
    {parentId childId : String} {d : Dependency} {position : Nat}
    (hd : Located ⟨childId, d⟩) (hdeclares : r.Declares files parentId childId)
    (h : g.insert parentId childId d = .ok (position, g')) :
    r.Drafted files (adopt g' parentId childId) where
  sound := sound_adopt (sound_insert hg.sound hd h) _ _
  root := by
    rw [position?_adopt]
    exact (position?_of_insert h).2 _ _ hg.root
  reachable {id} hid := by
    rw [knows_adopt, knows_insert h] at hid
    rcases hid with hid | rfl
    · exact hg.reachable hid
    · exact (hg.reachable (knows_of_insert h)).declares hdeclares
  declares {id child} hchild := by
    have hcons := (sound_adopt (sound_insert hg.sound hd h) parentId childId).hierarchy.consistent
    rw [← hcons.mem_childIds, childIds_adopt, hg.consistent.childIds_insert h] at hchild
    split at hchild
    · rename_i heq
      subst heq
      rcases mem_addOnce.mp hchild with hold | rfl
      · exact hg.declares (hg.consistent.mem_childIds.mp hold)
      · exact hdeclares
    · exact hg.declares (hg.consistent.mem_childIds.mp hchild)

/-! ## What a node gains -/

/-- A node has, after some children, those of some IDs that were kept.  All are kept but
those that lead back to it, and these only if cycles are allowed. -/
def Gains (r : Resolver) (g : DependencyGraph) (id : String) (ids before : List String) : Prop :=
  ∃ kept, kept.Sublist ids ∧ g.childIds id = kept.foldl addOnce before ∧
    (r.allowCyclic = false → kept = ids) ∧ ∀ child ∈ ids, child ∉ kept → g.Leads child id

/-- A node has the children that it declares. -/
def Complete (r : Resolver) (files : φ) (g : DependencyGraph) (id : String) : Prop :=
  r.Gains g id (r.targets files id) []

/-- One node gains some IDs, all that is new is complete, and nothing else changes. -/
structure Settles (r : Resolver) (files : φ) (id : String) (ids : List String)
    (g g' : DependencyGraph) : Prop where
  knows {x : String} : g.Knows x → g'.Knows x
  others {x : String} : g.Knows x → x ≠ id → g'.childIds x = g.childIds x
  gains : r.Gains g' id ids (g.childIds id)
  complete {x : String} : g'.Knows x → ¬ g.Knows x → r.Complete files g' x

namespace Settles

variable {id : String} {ids : List String} {g g' g'' : DependencyGraph}

theorem refl : r.Settles files id [] g g where
  knows := fun h => h
  others := fun _ _ => rfl
  gains := ⟨[], .slnil, rfl, fun _ => rfl, by simp⟩
  complete := fun h hnot => absurd h hnot

/-- No child is lost. -/
theorem hasChild (h : r.Settles files id ids g g') (hg : g.Consistent) (hg' : g'.Consistent)
    {x y : String} (hchild : g.HasChild x y) : g'.HasChild x y := by
  have hx : g.Knows x := by
    obtain ⟨p, _, hp, _⟩ := hchild
    exact ⟨p, hp⟩
  rw [← hg'.mem_childIds]
  rw [← hg.mem_childIds] at hchild
  by_cases hne : x = id
  · subst hne
    obtain ⟨kept, _, hkept, _⟩ := h.gains
    rw [hkept, mem_foldl_addOnce]
    exact Or.inl hchild
  · rwa [h.others hx hne]

theorem leads (h : r.Settles files id ids g g') (hg : g.Consistent) (hg' : g'.Consistent)
    {x y : String} (hleads : g.Leads x y) : g'.Leads x y :=
  ReflTransGen.mono (fun _ _ => h.hasChild hg hg') _ _ hleads

/-- What is gained stays, as long as the node has the same children. -/
theorem gains_mono (h : r.Settles files id ids g g') (hg : g.Consistent) (hg' : g'.Consistent)
    {x : String} {all before : List String} (hsame : g'.childIds x = g.childIds x)
    (hgains : r.Gains g x all before) : r.Gains g' x all before := by
  obtain ⟨kept, hsub, hkept, hstrict, hleads⟩ := hgains
  exact ⟨kept, hsub, hsame.trans hkept, hstrict,
    fun child hc hnot => h.leads hg hg' (hleads child hc hnot)⟩

theorem trans {ids' : List String} (h : r.Settles files id ids g g')
    (h' : r.Settles files id ids' g' g'') (hg' : g'.Consistent) (hg'' : g''.Consistent)
    (hid : g.Knows id) : r.Settles files id (ids ++ ids') g g'' where
  knows hx := h'.knows (h.knows hx)
  others hx hne := (h'.others (h.knows hx) hne).trans (h.others hx hne)
  gains := by
    obtain ⟨kept, hsub, hkept, hstrict, hleads⟩ := h.gains
    obtain ⟨kept', hsub', hkept', hstrict', hleads'⟩ := h'.gains
    refine ⟨kept ++ kept', hsub.append hsub', ?_, fun hs => ?_, fun child hc hnot => ?_⟩
    · rw [List.foldl_append, ← hkept, hkept']
    · rw [hstrict hs, hstrict' hs]
    · rw [List.mem_append, not_or] at hnot
      rcases List.mem_append.mp hc with hc | hc
      · exact h'.leads hg' hg'' (hleads child hc hnot.1)
      · exact hleads' child hc hnot.2
  complete {x} hx hnot := by
    by_cases hmiddle : g'.Knows x
    · have hne : x ≠ id := by
        rintro rfl
        exact hnot hid
      exact h'.gains_mono hg' hg'' (h'.others hmiddle hne) (h.complete hmiddle hnot)
    · exact h'.complete hx hmiddle

end Settles

/-! ## Declarations -/

/-- A list of IDs that leads from one back to it along declarations. -/
structure Circular (r : Resolver) (files : φ) (cycle : List String) : Prop where
  closed : cycle.head? = cycle.getLast?
  two_le : 2 ≤ cycle.length
  declares : cycle.IsChain (r.Declares files)
  reachable : ∀ id ∈ cycle, r.Reachable files id

/-- What comes of resolving declarations: a draft in which they are settled, or a cycle
if these are not allowed. -/
def Outcome (r : Resolver) (files : φ) (id : String) (ids : List String)
    (g : DependencyGraph) : Except Error Unit × Draft → Prop
  | (.ok (), draft) => r.Drafted files draft.graph ∧ r.Settles files id ids g draft.graph
  | (.error e, _) =>
    r.allowCyclic = false ∧ ∃ cycle, e = .cyclic cycle ∧ r.Circular files cycle

theorem Outcome.imp {id id' : String} {ids ids' : List String} {g g' : DependencyGraph}
    {outcome : Except Error Unit × Draft} (h : r.Outcome files id ids g outcome)
    (hsettles : ∀ g'', r.Drafted files g'' → r.Settles files id ids g g'' →
      r.Settles files id' ids' g' g'') :
    r.Outcome files id' ids' g' outcome := by
  obtain ⟨result, draft⟩ := outcome
  cases result with
  | ok _ => exact ⟨h.1, hsettles _ h.1 h.2⟩
  | error e => exact h

/-! ## Room -/

open Classical in
/-- How many IDs of a finite set are not known yet. -/
noncomputable def room (cover : Finset String) (g : DependencyGraph) : Nat :=
  (cover.filter fun id => ¬ g.Knows id).card

section Room

variable {cover : Finset String} {g g' : DependencyGraph}

theorem room_le_card : room cover g ≤ cover.card := by
  classical
  exact Finset.card_filter_le ..

/-- What is known stays known, so that there is no more room afterwards. -/
theorem room_le (hknows : ∀ {x}, g.Knows x → g'.Knows x) : room cover g' ≤ room cover g := by
  classical
  refine Finset.card_le_card fun x hx => ?_
  rw [Finset.mem_filter] at hx ⊢
  exact ⟨hx.1, mt hknows hx.2⟩

/-- An ID that is known for the first time leaves less room. -/
theorem room_lt (hknows : ∀ {x}, g.Knows x → g'.Knows x) {id : String} (hid : id ∈ cover)
    (hnew : ¬ g.Knows id) (hknown : g'.Knows id) : room cover g' < room cover g := by
  classical
  refine Finset.card_lt_card (Finset.ssubset_iff_of_subset ?_ |>.mpr ⟨id, ?_, ?_⟩)
  · intro x hx
    rw [Finset.mem_filter] at hx ⊢
    exact ⟨hx.1, mt hknows hx.2⟩
  · exact Finset.mem_filter.mpr ⟨hid, hnew⟩
  · exact fun h => (Finset.mem_filter.mp h).2 hknown

end Room

/-! ## What is found in a directory -/

/-- A directory that is known is not read again. -/
theorem Drafted.dependencyAt_known {g : DependencyGraph} (hg : r.Drafted files g) {path : Path}
    (hne : path.text ≠ rootId) (hpath : g.Knows path.text) (isRoot : Bool) (name : String)
    (declaration : Declaration) :
    ∃ d, dependencyAt files g isRoot name declaration path = .ok (d, false) := by
  obtain ⟨d, hd⟩ := hg.sound.exists_payload hg.root hne hpath
  exact ⟨d, by rw [dependencyAt, hd]⟩

/-- A new directory has the configuration that is in it. -/
theorem dependencyAt_new {g : DependencyGraph} {path : Path} (hpath : ¬ g.Knows path.text)
    {config : Config} (hconfig : Config.loadDirectory files path = .ok config) {name : String}
    {declaration : Declaration} {exclusion : Exclusion}
    (hexclusion : Config.exclusionOf name declaration = .ok exclusion) (isRoot : Bool) :
    ∃ d, dependencyAt files g isRoot name declaration path = .ok (d, true) ∧
      d.config = config := by
  have hnone : g.find? path.text = none := by
    rw [find?, Option.bind_eq_none_iff]
    exact fun p hp => absurd ⟨p, hp⟩ hpath
  refine ⟨⟨path.text, name, path, config, declaration, exclusion, isRoot, []⟩, ?_, rfl⟩
  rw [dependencyAt, hnone, Option.bind_none]
  refine Failure.bind_eq_ok.mpr ⟨config, hconfig, Failure.bind_eq_ok.mpr ⟨_, ?_, rfl⟩⟩
  exact Failure.bind_eq_ok.mpr ⟨exclusion, hexclusion, rfl⟩

/-- The patterns of a configuration that makes sense can be compiled. -/
theorem exists_exclusion {config : Config} (h : config.check = .ok ()) :
    ∀ named ∈ config.dependencies.toList, ∃ e, Config.exclusionOf named.1 named.2 = .ok e := by
  intro named hnamed
  obtain ⟨_, hdependencies, _⟩ := Failure.bind_eq_ok.mp h
  have hchecked : Config.checkDeclaration named.1 named.2 = .ok () :=
    Failure.eq_ok_of_forM hdependencies named hnamed
  obtain ⟨_, _, hchecked⟩ := Failure.bind_eq_ok.mp hchecked
  obtain ⟨_, _, hchecked⟩ := Failure.bind_eq_ok.mp hchecked
  cases hexclusion : Config.exclusionOf named.1 named.2 with
  | error e =>
    rw [hexclusion] at hchecked
    cases hchecked
  | ok e => exact ⟨e, rfl⟩

/-! ## Descending -/

variable {cover : Finset String}

/-- Configurations are resolved as they should be, at most `depth` deep. -/
def Descends (r : Resolver) (files : φ) (cover : Finset String) (depth : Nat) : Prop :=
  ∀ {id directory config} (draft : Draft), r.configOf files id = .ok (directory, config) →
    r.Drafted files draft.graph → draft.graph.Knows id → room cover draft.graph < depth →
    r.Outcome files id (r.targets files id) draft.graph
      ((r.resolveConfig files depth id directory config).run.run draft)

/-- An edge to a node that is known is kept. -/
theorem settles_insert_known {g g' : DependencyGraph} (hg : r.Drafted files g)
    {parentId childId : String} {d : Dependency} {position : Nat} (hchild : g.Knows childId)
    (h : g.insert parentId childId d = .ok (position, g')) :
    r.Settles files parentId [childId] g (adopt g' parentId childId) where
  knows hx := (knows_adopt ..).mpr ((knows_insert h _).mpr (Or.inl hx))
  others {x} _ hne := by
    rw [childIds_adopt, hg.consistent.childIds_insert h, if_neg hne]
  gains := by
    refine ⟨[childId], List.Sublist.refl _, ?_, fun _ => rfl, fun _ hc hnot => absurd hc hnot⟩
    rw [childIds_adopt, hg.consistent.childIds_insert h, if_pos rfl]
    rfl
  complete {x} hx hnot := by
    rw [knows_adopt, knows_insert h] at hx
    rcases hx with hx | rfl
    · exact absurd hx hnot
    · exact absurd hchild hnot

/-- An edge to a new node is kept, and the node is complete when it was descended
into. -/
theorem settles_insert_new {g g' g'' : DependencyGraph} (hg : r.Drafted files g)
    {parentId childId : String} {d : Dependency} {position : Nat} (hchild : ¬ g.Knows childId)
    (h : g.insert parentId childId d = .ok (position, g'))
    (hbelow : r.Settles files childId (r.targets files childId) (adopt g' parentId childId) g'') :
    r.Settles files parentId [childId] g g'' := by
  have hparent : g.Knows parentId := knows_of_insert h
  have hne : parentId ≠ childId := by
    rintro rfl
    exact hchild hparent
  have hknows {x : String} : (adopt g' parentId childId).Knows x ↔ g.Knows x ∨ x = childId := by
    rw [knows_adopt, knows_insert h]
  have hchildren (x : String) : (adopt g' parentId childId).childIds x =
      if x = parentId then addOnce (g.childIds parentId) childId else g.childIds x := by
    rw [childIds_adopt, hg.consistent.childIds_insert h]
  have hframe {x : String} (hx : g.Knows x) :
      g''.childIds x = (adopt g' parentId childId).childIds x := by
    refine hbelow.others (hknows.mpr (Or.inl hx)) ?_
    rintro rfl
    exact hchild hx
  constructor
  · exact fun hx => hbelow.knows (hknows.mpr (Or.inl hx))
  · intro x hx hxp
    rw [hframe hx, hchildren, if_neg hxp]
  · refine ⟨[childId], List.Sublist.refl _, ?_, fun _ => rfl, fun _ hc hnot => absurd hc hnot⟩
    rw [hframe hparent, hchildren, if_pos rfl]
    rfl
  · intro x hx hnot
    by_cases hmiddle : (adopt g' parentId childId).Knows x
    · rcases hknows.mp hmiddle with hold | rfl
      · exact absurd hold hnot
      · have hgains := hbelow.gains
        rwa [hchildren, if_neg (Ne.symm hne), childIds_of_not_knows hchild] at hgains
    · exact hbelow.complete hx hmiddle

/-- A declaration that leads back is passed over if cycles are allowed. -/
theorem settles_skipped {g : DependencyGraph} (hallow : r.allowCyclic = true)
    {parentId childId : String} (hleads : g.Leads childId parentId) :
    r.Settles files parentId [childId] g g where
  knows hx := hx
  others _ _ := rfl
  gains := by
    refine ⟨[], List.nil_sublist _, rfl, fun hs => ?_, fun child hc _ => ?_⟩
    · cases hallow.symm.trans hs
    · rwa [List.mem_singleton.mp hc]
  complete hx hnot := absurd hx hnot

/-- All of a walk along declarations can be reached if its start can. -/
theorem reachable_of_isChain {id : String} {rest : List String} (hid : r.Reachable files id)
    (h : (id :: rest).IsChain (r.Declares files)) : ∀ x ∈ id :: rest, r.Reachable files x := by
  induction rest generalizing id with
  | nil =>
    intro x hx
    exact List.mem_singleton.mp hx ▸ hid
  | cons next rest ih =>
    obtain ⟨hdeclares, hchain⟩ := List.isChain_cons_cons.mp h
    intro x hx
    rcases List.mem_cons.mp hx with rfl | hx
    · exact hid
    · exact ih (hid.declares hdeclares) hchain x hx

/-- A declaration that leads back is refused. -/
theorem circular_of_refused {g : DependencyGraph} (hg : r.Drafted files g)
    {parentId childId : String} (hparent : g.Knows parentId)
    (hdeclares : r.Declares files parentId childId) {rest : List String}
    (hlast : (childId :: rest).getLast? = some parentId)
    (hchain : (childId :: rest).IsChain g.HasChild) :
    r.Circular files (parentId :: childId :: rest) := by
  have hwalk : (parentId :: childId :: rest).IsChain (r.Declares files) :=
    List.isChain_cons_cons.mpr ⟨hdeclares, hchain.imp fun _ _ => hg.declares⟩
  constructor
  · rw [List.getLast?_cons_cons, hlast]
    rfl
  · rw [List.length_cons, List.length_cons]
    omega
  · exact hwalk
  · exact reachable_of_isChain (hg.reachable hparent) hwalk

/-- A directory that can be reached is found, with its configuration if it is new. -/
theorem Drafted.exists_dependencyAt {g : DependencyGraph} (hg : r.Drafted files g)
    (h : r.Resolvable files) {path : Path} (hpath : r.Reachable files path.text)
    (hne : path.text ≠ rootId) {name : String} {declaration : Declaration}
    (hexclusion : ∃ e, Config.exclusionOf name declaration = .ok e) (isRoot : Bool) :
    ∃ found, dependencyAt files g isRoot name declaration path = .ok found ∧
      ((g.Knows path.text ∧ found.2 = false) ∨ (¬ g.Knows path.text ∧ found.2 = true ∧
        r.configOf files path.text = .ok (path, found.1.config))) := by
  by_cases hknown : g.Knows path.text
  · obtain ⟨d, hd⟩ := hg.dependencyAt_known hne hknown isRoot name declaration
    exact ⟨_, hd, Or.inl ⟨hknown, rfl⟩⟩
  · obtain ⟨ids, hids⟩ := h.readable hpath
    obtain ⟨⟨directory, config⟩, hconfig, _⟩ := Failure.bind_eq_ok.mp hids
    obtain ⟨e, he⟩ := hexclusion
    rw [configOf, if_neg hne] at hconfig
    obtain ⟨_, hload, heq⟩ := Failure.bind_eq_ok.mp hconfig
    cases heq
    obtain ⟨d, hd, rfl⟩ := dependencyAt_new hknown hload he isRoot
    refine ⟨_, hd, Or.inr ⟨hknown, rfl, ?_⟩⟩
    rw [configOf, if_neg hne, hload]
    rfl

/-- A declaration is settled: its directory is put below the node, and is descended into
if it is new. -/
theorem Descends.declare (h : r.Resolvable files)
    (hcover : ∀ id, r.Reachable files id → id ≠ rootId → id ∈ cover) {depth : Nat}
    (hbelow : r.Descends files cover depth) {id : String} {directory path : Path}
    {named : String × Declaration} {draft : Draft} (hg : r.Drafted files draft.graph)
    (hid : draft.graph.Knows id) (hroom : room cover draft.graph < depth + 1)
    (hlocate : locate files directory named.1 named.2 = .ok path)
    (hexclusion : ∃ e, Config.exclusionOf named.1 named.2 = .ok e)
    (hdeclares : r.Declares files id path.text) :
    r.Outcome files id [path.text] draft.graph
      ((r.declare files depth id directory named).run.run draft) := by
  have hreachable : r.Reachable files path.text := (hg.reachable hid).declares hdeclares
  have hne : path.text ≠ rootId := fun heq => h.not_root (hg.reachable hid) (heq ▸ hdeclares)
  obtain ⟨found, hfound, hcases⟩ := hg.exists_dependencyAt h hreachable hne hexclusion
    (decide (id = rootId))
  have hlocated : Located ⟨path.text, found.1⟩ := located_dependencyAt hg.sound hfound
  rw [declare_run, hlocate]
  dsimp only
  rw [hfound]
  unfold settle
  rcases hg.consistent.insert_cases hid path.text found.1 with
    ⟨position, graph, hinsert⟩ | ⟨rest, hinsert, hknown, hlast, hchain⟩
  · have hdrafted := hg.insert hlocated hdeclares hinsert
    dsimp only
    rw [hinsert]
    dsimp only
    rcases hcases with ⟨hknown, hold⟩ | ⟨hunknown, hnew, hconfig⟩
    · rw [hold]
      exact ⟨hdrafted, settles_insert_known hg hknown hinsert⟩
    · rw [hnew]
      have hpath : (adopt graph id path.text).Knows path.text := by
        rw [knows_adopt, knows_insert hinsert]
        exact Or.inr rfl
      have hless : room cover (adopt graph id path.text) < room cover draft.graph := by
        refine room_lt (fun {x} hx => ?_) (hcover _ hreachable hne) hunknown hpath
        rw [knows_adopt, knows_insert hinsert]
        exact Or.inl hx
      have houtcome := hbelow { draft with graph := adopt graph id path.text } hconfig hdrafted
        hpath (Nat.lt_of_lt_of_le hless (Nat.le_of_lt_succ hroom))
      exact houtcome.imp fun _ _ hs => settles_insert_new hg hunknown hinsert hs
  · dsimp only
    rw [hinsert]
    cases hallow : r.allowCyclic with
    | true =>
      rw [List.getLast?_eq_some_getLast (List.cons_ne_nil _ _)] at hlast
      exact ⟨hg, settles_skipped hallow
        (List.relationReflTransGen_of_exists_isChain_cons rest hchain (Option.some.inj hlast))⟩
    | false => exact ⟨hallow, _, rfl, circular_of_refused hg hid hdeclares hlast hchain⟩

/-- Declarations are settled one after the other. -/
theorem Descends.forM (h : r.Resolvable files)
    (hcover : ∀ id, r.Reachable files id → id ≠ rootId → id ∈ cover) {depth : Nat}
    (hbelow : r.Descends files cover depth) {id : String} {directory : Path}
    {named : List (String × Declaration)} {ids : List String} {draft : Draft}
    (hg : r.Drafted files draft.graph) (hid : draft.graph.Knows id)
    (hroom : room cover draft.graph < depth + 1)
    (hids : (named.mapM fun named => (·.text) <$> locate files directory named.1 named.2) = .ok ids)
    (hexclusion : ∀ n ∈ named, ∃ e, Config.exclusionOf n.1 n.2 = .ok e)
    (hdeclares : ∀ child ∈ ids, r.Declares files id child) :
    r.Outcome files id ids draft.graph
      ((named.forM (r.declare files depth id directory)).run.run draft) := by
  induction named generalizing ids draft with
  | nil =>
    cases hids
    exact ⟨hg, .refl⟩
  | cons first rest ih =>
    rw [List.mapM_cons] at hids
    obtain ⟨child, hchild, hids⟩ := Failure.bind_eq_ok.mp hids
    obtain ⟨ids', hids', hids⟩ := Failure.bind_eq_ok.mp hids
    cases hids
    obtain ⟨path, hlocate, rfl⟩ := Failure.map_eq_ok.mp hchild
    have hfirst := hbelow.declare h hcover hg hid hroom hlocate
      (hexclusion _ (List.mem_cons_self ..)) (hdeclares _ (List.mem_cons_self ..))
    change r.Outcome files id _ draft.graph
      ((r.declare files depth id directory first >>= fun _ => rest.forM _).run.run draft)
    rw [Drafting.run_bind]
    revert hfirst
    rcases (r.declare files depth id directory first).run.run draft with ⟨result, draft'⟩
    intro hfirst
    cases result with
    | error e => exact hfirst
    | ok _ =>
      obtain ⟨hg', hsettles⟩ := hfirst
      have hrest := ih hg' (hsettles.knows hid)
        (Nat.lt_of_le_of_lt (room_le hsettles.knows) hroom) hids'
        (fun n hn => hexclusion n (List.mem_cons_of_mem _ hn))
        fun child hc => hdeclares child (List.mem_cons_of_mem _ hc)
      exact hrest.imp fun _ hg'' hs => hsettles.trans hs hg'.consistent hg''.consistent hid

/-- Configurations are resolved as they should be, as deep as there is room. -/
theorem descends (h : r.Resolvable files)
    (hcover : ∀ id, r.Reachable files id → id ≠ rootId → id ∈ cover) (depth : Nat) :
    r.Descends files cover depth := by
  induction depth with
  | zero =>
    intro id directory config draft _ _ _ hroom
    omega
  | succ depth ih =>
    intro id directory config draft hconfig hg hid hroom
    obtain ⟨ids, hids⟩ := h.readable (hg.reachable hid)
    rw [resolveConfig_succ, targets_of_declared hids]
    obtain ⟨⟨directory', config'⟩, hconfig', hids'⟩ := Failure.bind_eq_ok.mp hids
    rw [hconfig] at hconfig'
    cases hconfig'
    obtain ⟨_, hcheck, hmapM⟩ := Failure.bind_eq_ok.mp hids'
    refine ih.forM h hcover hg hid hroom hmapM (exists_exclusion hcheck) fun child hc => ?_
    rwa [Declares, targets_of_declared hids]

end Resolver

end Cascade
