import Cascade.Proofs.Dependency.Descent

/-!
# Resolving is exact

If all that can be reached is in order, the graph that is resolved is the one that is
declared.  Without cycles among the declarations this is so literally
(`resolve_strict`), and with cycles they are reported.  If cycles are allowed, every
directory is there all the same, and the edges that are missing are those that would
close a cycle (`resolve_lenient`).
-/

namespace Cascade.Resolver

open Relation Cascade.Graph DependencyGraph

variable {φ : Type} [FileSystem φ] {r : Resolver} {files : φ}

/-! ## Graphs that are resolved -/

/-- The graph that is declared: its nodes are what can be reached, its edges what is
declared, and the children of a node are in the order of the declarations. -/
structure Exact (r : Resolver) (files : φ) (g : DependencyGraph) : Prop where
  nodup_ids : g.ids.Nodup
  mem_ids (id : String) : id ∈ g.ids ↔ id ≠ rootId ∧ r.Reachable files id
  hasChild (id child : String) :
    g.HasChild id child ↔ r.Reachable files id ∧ r.Declares files id child
  childIds {id : String} : r.Reachable files id → g.childIds id = (r.targets files id).eraseDups

/-- The graph that is declared but for edges that would close a cycle. -/
structure Maximal (r : Resolver) (files : φ) (g : DependencyGraph) : Prop where
  acyclic (id : String) : ¬ TransGen g.HasChild id id
  nodup_ids : g.ids.Nodup
  mem_ids (id : String) : id ∈ g.ids ↔ id ≠ rootId ∧ r.Reachable files id
  declares {id child : String} : g.HasChild id child → r.Declares files id child
  missing {id child : String} : r.Reachable files id → r.Declares files id child →
    (¬ g.HasChild id child ↔ g.Leads child id)

variable {g : DependencyGraph}

/-- Every node of a graph that was made from the root alone is complete. -/
theorem Settles.complete_new
    (h : r.Settles files rootId (r.targets files rootId) (Graph.new rootId) g) {id : String}
    (hid : g.Knows id) : r.Complete files g id := by
  by_cases hroot : id = rootId
  · subst hroot
    exact h.gains
  · exact h.complete hid (mt knows_new.mp hroot)

/-- All that can be reached is known. -/
theorem Drafted.knows_iff (hg : r.Drafted files g)
    (hall : ∀ {id}, g.Knows id → r.Complete files g id) {id : String} :
    g.Knows id ↔ r.Reachable files id := by
  refine ⟨hg.reachable, fun h => ?_⟩
  induction h with
  | refl => exact ⟨_, hg.root⟩
  | tail _ hdeclares ih =>
    rename_i parent child _
    obtain ⟨kept, _, hkept, _, hleads⟩ := hall ih
    by_cases hmem : child ∈ kept
    · have hchild : g.HasChild parent child := by
        rw [← hg.consistent.mem_childIds, hkept, mem_foldl_addOnce]
        exact Or.inr hmem
      obtain ⟨_, c, _, hc, _⟩ := hchild
      exact ⟨c, hc⟩
    · exact (hleads child hdeclares hmem).knows ih

theorem Drafted.mem_ids (hg : r.Drafted files g)
    (hall : ∀ {id}, g.Knows id → r.Complete files g id) (id : String) :
    id ∈ g.ids ↔ id ≠ rootId ∧ r.Reachable files id := by
  rw [hg.consistent.mem_ids_iff_knows hg.root, hg.knows_iff hall]

theorem Drafted.exact (hg : r.Drafted files g) (hstrict : r.allowCyclic = false)
    (hall : ∀ {id}, g.Knows id → r.Complete files g id) : r.Exact files g := by
  have hchildIds {id : String} (hid : r.Reachable files id) :
      g.childIds id = (r.targets files id).eraseDups := by
    obtain ⟨kept, _, hkept, hsame, _⟩ := hall ((hg.knows_iff hall).mpr hid)
    rw [hkept, hsame hstrict, foldl_addOnce_nil]
  refine ⟨hg.consistent.nodup_ids, hg.mem_ids hall, fun id child => ?_, hchildIds⟩
  constructor
  · intro h
    have hid : g.Knows id := by
      obtain ⟨p, _, hp, _⟩ := h
      exact ⟨p, hp⟩
    exact ⟨hg.reachable hid, hg.declares h⟩
  · rintro ⟨hid, hdeclares⟩
    rw [← hg.consistent.mem_childIds, hchildIds hid]
    exact List.mem_eraseDups.mpr hdeclares

theorem Drafted.maximal (hg : r.Drafted files g)
    (hall : ∀ {id}, g.Knows id → r.Complete files g id) : r.Maximal files g where
  acyclic := hg.sound.hierarchy.acyclic.not_transGen_hasChild
  nodup_ids := hg.consistent.nodup_ids
  mem_ids := hg.mem_ids hall
  declares := hg.declares
  missing {id child} hid hdeclares := by
    constructor
    · intro hnot
      obtain ⟨kept, _, hkept, _, hleads⟩ := hall ((hg.knows_iff hall).mpr hid)
      refine hleads child hdeclares fun hmem => hnot ?_
      rw [← hg.consistent.mem_childIds, hkept, mem_foldl_addOnce]
      exact Or.inr hmem
    · intro hleads hchild
      -- the edge and the way back would be a cycle
      exact hg.sound.hierarchy.acyclic.not_transGen_hasChild id (.head' hchild hleads)

/-- Declarations that are all edges of a graph without cycles have no cycle. -/
theorem Exact.noCycle (h : r.Exact files g) (hg : ∀ id, ¬ TransGen g.HasChild id id) :
    r.NoCycle files := by
  intro id hid hcycle
  have hwalk {x : String} (hx : TransGen (r.Declares files) id x) :
      TransGen g.HasChild id x ∧ r.Reachable files x := by
    induction hx with
    | single hdeclares =>
      exact ⟨.single ((h.hasChild ..).mpr ⟨hid, hdeclares⟩), hid.declares hdeclares⟩
    | tail _ hdeclares ih =>
      obtain ⟨hbefore, hmiddle⟩ := ih
      exact ⟨hbefore.tail ((h.hasChild ..).mpr ⟨hmiddle, hdeclares⟩), hmiddle.declares hdeclares⟩
  exact hg id (hwalk hcycle).1

/-- A list that leads back to where it starts has an ID on a cycle. -/
theorem Circular.not_noCycle {cycle : List String} (h : r.Circular files cycle) :
    ¬ r.NoCycle files := by
  obtain ⟨hclosed, hlength, hdeclares, hreachable⟩ := h
  match cycle with
  | [] | [_] => simp at hlength
  | id :: next :: rest =>
    obtain ⟨hnext, hchain⟩ := List.isChain_cons_cons.mp hdeclares
    rw [List.getLast?_cons_cons, List.getLast?_eq_some_getLast (List.cons_ne_nil _ _)] at hclosed
    have hback : ReflTransGen (r.Declares files) next id :=
      List.relationReflTransGen_of_exists_isChain_cons rest hchain (Option.some.inj hclosed).symm
    exact fun hno => hno id (hreachable id (List.mem_cons_self ..)) (.head' hnext hback)

/-! ## Resolving -/

/-- Resolving all of a project settles what it declares. -/
theorem outcome_resolveAll [FiniteFiles φ] (h : r.Resolvable files) :
    r.Outcome files rootId (r.targets files rootId) (Graph.new rootId)
      ((r.resolveAll files).run.run Draft.empty) := by
  obtain ⟨cover, hcard, hcover⟩ := h.exists_cover
  obtain ⟨ids, hids⟩ := h.readable reachable_root
  obtain ⟨⟨directory, config⟩, hconfig, _⟩ := Failure.bind_eq_ok.mp hids
  obtain ⟨root, hroot, heq⟩ := Failure.bind_eq_ok.mp hconfig
  cases heq
  have hroom : room cover (Graph.new rootId) < levels files := by
    have hle : room cover (Graph.new rootId) ≤ cover.card := room_le_card
    rw [levels, FileSystem.levels]
    omega
  rw [resolveAll_run (Failure.mapError_eq_ok.mp hroot)]
  exact descends h hcover _ Draft.empty hconfig drafted_new (knows_new.mpr rfl) hroom

/-- What is answered when a graph was resolved.  If hashes are to be dropped and cannot
be, that is what went wrong. -/
def answered (update : Bool) (s : Stored φ) (g : DependencyGraph) :
    Except Error DependencyGraph :=
  if update then ((s.prune g.ids).1.map fun _ => g).mapError .other else .ok g

theorem resolve_eq (r : Resolver) (update : Bool) (s : Stored φ) :
    (r.resolve update s).1 = match (r.resolveAll s.files).run.run .empty with
      | (.error e, _) => .error e
      | (.ok (), draft) => answered update s draft.graph := by
  unfold resolve
  rcases (r.resolveAll s.files).run.run .empty with ⟨result, draft⟩
  cases result with
  | error e => rfl
  | ok _ =>
    cases update with
    | false => rfl
    | true =>
      simp only [if_true, refresh, answered]
      rcases s.prune draft.graph.ids with ⟨pruned, s'⟩
      cases pruned <;> rfl

variable {s : Stored φ}

/-- Either the graph that is drafted is complete and answered, or a cycle is reported. -/
theorem resolve_cases [FiniteFiles φ] (h : r.Resolvable s.files) (update : Bool) :
    (∃ draft, (r.resolveAll s.files).run.run .empty = (.ok (), draft) ∧
        r.Drafted s.files draft.graph ∧
        (∀ {id}, draft.graph.Knows id → r.Complete s.files draft.graph id) ∧
        (r.resolve update s).1 = answered update s draft.graph) ∨
      (r.allowCyclic = false ∧ ∃ cycle, (r.resolve update s).1 = .error (.cyclic cycle) ∧
        r.Circular s.files cycle) := by
  have houtcome := outcome_resolveAll h
  rw [resolve_eq]
  revert houtcome
  rcases hrun : (r.resolveAll s.files).run.run Draft.empty with ⟨result, draft⟩
  intro houtcome
  cases result with
  | ok _ => exact Or.inl ⟨draft, rfl, houtcome.1, houtcome.2.complete_new, rfl⟩
  | error e =>
    obtain ⟨hstrict, cycle, rfl, hcycle⟩ := houtcome
    exact Or.inr ⟨hstrict, cycle, rfl, hcycle⟩

/-- Without cycles among the declarations, the graph that is resolved is the one that is
declared.  Otherwise a cycle of declarations is reported. -/
theorem resolve_strict [FiniteFiles φ] (hstrict : r.allowCyclic = false)
    (h : r.Resolvable s.files) (update : Bool) :
    ((∃ g, (r.resolve false s).1 = .ok g) ↔ r.NoCycle s.files) ∧
      (r.NoCycle s.files →
        ∃ g, r.Exact s.files g ∧ (r.resolve update s).1 = answered update s g) ∧
      (¬ r.NoCycle s.files →
        ∃ cycle, (r.resolve update s).1 = .error (.cyclic cycle) ∧ r.Circular s.files cycle) := by
  have hcases (update : Bool) : (r.NoCycle s.files ∧
        ∃ g, r.Exact s.files g ∧ (r.resolve update s).1 = answered update s g) ∨
      (¬ r.NoCycle s.files ∧
        ∃ cycle, (r.resolve update s).1 = .error (.cyclic cycle) ∧ r.Circular s.files cycle) := by
    rcases resolve_cases h update with ⟨draft, _, hg, hall, hresolve⟩ | ⟨_, cycle, hresolve, hcycle⟩
    · have hexact := hg.exact hstrict hall
      exact Or.inl ⟨hexact.noCycle hg.sound.hierarchy.acyclic.not_transGen_hasChild,
        _, hexact, hresolve⟩
    · exact Or.inr ⟨hcycle.not_noCycle, cycle, hresolve, hcycle⟩
  refine ⟨⟨?_, fun hno => ?_⟩, fun hno => ?_, fun hcycle => ?_⟩
  · rintro ⟨g, hg⟩
    rcases hcases false with ⟨hno, _⟩ | ⟨_, cycle, hresolve, _⟩
    · exact hno
    · rw [hresolve] at hg
      cases hg
  · rcases hcases false with ⟨_, g, _, hresolve⟩ | ⟨hcycle, _⟩
    · exact ⟨g, hresolve⟩
    · exact absurd hno hcycle
  · rcases hcases update with ⟨_, hexact⟩ | ⟨hcycle, _⟩
    · exact hexact
    · exact absurd hno hcycle
  · rcases hcases update with ⟨hno, _⟩ | ⟨_, hcircular⟩
    · exact absurd hno hcycle
    · exact hcircular

/-- A configuration that declares directories by name. -/
def declaring (directories : List (String × String)) : Config :=
  { Config.empty with
    dependencies := directories.foldl (fun m (name, path) => m.insert name ⟨path, false, []⟩) ∅ }

/-- A tree of three directories, one of which has a configuration. -/
def tieredFiles : MemoryFiles :=
  ((MemoryFiles.empty.addDirectory ⟨"/app"⟩).addDirectory ⟨"/core"⟩).addFile ⟨"/lib/Depdag.toml"⟩
    "[dependency.core]\npath = \"/core\"\n".toUTF8

/-- A project that declares two directories, and one of them twice.  The other one is
declared by it as well. -/
def tiered : Resolver :=
  ⟨⟨"/app"⟩, declaring [("lib", "/lib"), ("core", "/core"), ("same", "/lib")], false⟩

theorem closed_tiered : tiered.closed tieredFiles [rootId, "/lib", "/core"] = true := by
  decide +kernel

theorem resolve_strict_tiered : tiered.Resolvable tieredFiles ∧ tiered.NoCycle tieredFiles ∧
    ∃ g, (tiered.resolve true ⟨tieredFiles, .memory ∅⟩).1 = .ok g ∧
      tiered.Exact tieredFiles g ∧ g.childIds rootId = ["/core", "/lib"] := by
  have hresolvable : tiered.Resolvable tieredFiles :=
    resolvable_of_closed closed_tiered (by decide +kernel)
  have hrank : ∀ id ∈ [rootId, "/lib", "/core"], ∀ child ∈ tiered.targets tieredFiles id,
      [rootId, "/lib", "/core"].idxOf id < [rootId, "/lib", "/core"].idxOf child := by
    decide +kernel
  have hno : tiered.NoCycle tieredFiles :=
    noCycle_of_rank _ fun id hid => hrank id (mem_of_closed closed_tiered hid)
  obtain ⟨g, hexact, hresolve⟩ :=
    (resolve_strict (s := ⟨tieredFiles, .memory ∅⟩) rfl hresolvable true).2.1 hno
  refine ⟨hresolvable, hno, g, hresolve, hexact, ?_⟩
  rw [hexact.childIds reachable_root]
  decide +kernel

/-- A project without dependencies. -/
def lonely (allowCyclic : Bool) : Resolver := ⟨⟨"/app"⟩, .empty, allowCyclic⟩

/-- Files with a text for the store of that project, which cannot be decoded. -/
def undecodable : Stored MemoryFiles :=
  ⟨(MemoryFiles.empty.addDirectory ⟨"/app"⟩).addFile (Store.filePath ⟨"/app"⟩) ⟨#[255]⟩,
    .file ⟨"/app"⟩⟩

theorem closed_lonely (allowCyclic : Bool) :
    (lonely allowCyclic).closed undecodable.files [rootId] = true := by
  cases allowCyclic <;> decide +kernel

/-- Nothing is answered if hashes are to be dropped from a store that cannot be read. -/
theorem lonely_undecodable : (lonely false).Resolvable undecodable.files ∧
    (lonely false).NoCycle undecodable.files ∧
      ((lonely false).resolve true undecodable).1.isOk = false := by
  have hrank : ∀ id ∈ [rootId], ∀ child ∈ (lonely false).targets undecodable.files id,
      [rootId].idxOf id < [rootId].idxOf child := by decide +kernel
  refine ⟨resolvable_of_closed (closed_lonely false) (by decide +kernel), ?_, by decide +kernel⟩
  exact noCycle_of_rank _ fun id hid => hrank id (mem_of_closed (closed_lonely false) hid)

/-! ## Resolving with cycles -/

/-- The resolver that does not allow cycles. -/
def strict (r : Resolver) : Resolver := { r with allowCyclic := false }

theorem resolvable_strict (h : r.Resolvable files) : r.strict.Resolvable files :=
  ⟨h.readable, h.not_root, h.spelled⟩

/-- What is resolved without cycles is resolved alike if they are allowed. -/
theorem resolveAll_of_strict {draft : Draft}
    (h : (r.strict.resolveAll files).run.run Draft.empty = (.ok (), draft)) :
    (r.resolveAll files).run.run Draft.empty = (.ok (), draft) := by
  cases hroot : FileSystem.canonical files r.root with
  | error failure =>
    unfold resolveAll at h
    rw [Drafting.run_bind, strict, hroot] at h
    cases h
  | ok root =>
    have hsame : Retains (fun _ => True) files files :=
      ⟨Nat.le_refl _, fun _ hcanonical => hcanonical, fun _ hconfig => hconfig⟩
    rw [resolveAll_run hroot]
    rw [resolveAll_run (r := r.strict) hroot] at h
    exact (again_resolveConfig hsame (fun hallowed => by cases hallowed) (Nat.le_refl _) _ _ _
      _ _ _ h).2 fun _ _ _ => trivial

/-- If cycles are allowed, a graph without cycles is resolved all the same.  It has all
directories that can be reached, and only lacks edges that would close a cycle.  If
there are none, it is the graph that is resolved when cycles are not allowed. -/
theorem resolve_lenient [FiniteFiles φ] (hlenient : r.allowCyclic = true)
    (h : r.Resolvable s.files) (update : Bool) :
    (∃ g, r.Maximal s.files g ∧ (r.resolve update s).1 = answered update s g) ∧
      (r.NoCycle s.files → (r.resolve update s).1 = (r.strict.resolve update s).1) := by
  constructor
  · rcases resolve_cases h update with ⟨draft, _, hg, hall, hresolve⟩ | ⟨hstrict, _⟩
    · exact ⟨_, hg.maximal hall, hresolve⟩
    · rw [hlenient] at hstrict
      cases hstrict
  · intro hno
    rcases resolve_cases (resolvable_strict h) update with
      ⟨draft, hrun, _, _, hresolve⟩ | ⟨_, cycle, _, hcycle⟩
    · rw [hresolve, resolve_eq, resolveAll_of_strict hrun]
    · exact absurd hno hcycle.not_noCycle

/-- A tree of two directories that declare each other, and of a third one that one of
them declares. -/
def ringFiles : MemoryFiles :=
  (((MemoryFiles.empty.addDirectory ⟨"/app"⟩).addDirectory ⟨"/c"⟩).addFile ⟨"/a/Depdag.toml"⟩
    "[dependency.b]\npath = \"/b\"\n".toUTF8).addFile ⟨"/b/Depdag.toml"⟩
      "[dependency.a]\npath = \"/a\"\n[dependency.c]\npath = \"/c\"\n".toUTF8

/-- A project that declares one of them. -/
def ring : Resolver := ⟨⟨"/app"⟩, declaring [("a", "/a")], true⟩

theorem resolve_lenient_ring : ring.Resolvable ringFiles ∧
    ∃ g, (ring.resolve true ⟨ringFiles, .memory ∅⟩).1 = .ok g ∧ ring.Maximal ringFiles g ∧
      g.childIds "/a" = ["/b"] ∧ g.childIds "/b" = ["/c"] := by
  have hclosed : ring.closed ringFiles [rootId, "/a", "/b", "/c"] = true := by decide +kernel
  have hresolvable : ring.Resolvable ringFiles := resolvable_of_closed hclosed (by decide +kernel)
  obtain ⟨g, hmaximal, hresolve⟩ :=
    (resolve_lenient (s := ⟨ringFiles, .memory ∅⟩) rfl hresolvable true).1
  have hanswered : (ring.resolve true ⟨ringFiles, .memory ∅⟩).1 = .ok g := hresolve
  have hchildIds : (ring.resolve true ⟨ringFiles, .memory ∅⟩).1.toOption.map
      (fun g => (g.childIds "/a", g.childIds "/b")) = some (["/b"], ["/c"]) := by decide +kernel
  rw [hanswered] at hchildIds
  obtain ⟨ha, hb⟩ := Prod.mk.inj (Option.some.inj hchildIds)
  exact ⟨hresolvable, g, hanswered, hmaximal, ha, hb⟩

/-- Nothing is answered, cycles allowed or not, if a store cannot be read. -/
theorem lonely_undecodable_lenient : (lonely true).Resolvable undecodable.files ∧
    ((lonely true).resolve true undecodable).1.isOk = false :=
  ⟨resolvable_of_closed (closed_lonely true) (by decide +kernel), by decide +kernel⟩

end Cascade.Resolver
