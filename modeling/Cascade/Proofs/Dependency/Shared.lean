import Cascade.Proofs.Dependency.Exact
import Cascade.Proofs.Dependency.Links
import Cascade.Proofs.Dependency.Objects
import Cascade.Proofs.Sequence

/-!
# Dependencies are shared

Resolving with objects does what resolving does (`agree_resolveLinked`): whatever comes of
it, what is drafted is the same once all references are read.  On the way the nodes of the
graph refer to the objects with their IDs, and objects have no other children than these
(`Tidy`).

So the links of a project that was resolved mirror its graph (`links_mirror_graph`), down
to the objects: a child of an object is the one that the node below refers to.
-/

namespace Cascade

open Cascade.Graph DependencyGraph

namespace LinkedDraft

/-! ## Drafts in order -/

/-- The graph and the objects of a draft belong together. -/
structure Tidy (s : LinkedDraft) : Prop where
  linked : s.view.Linked
  /-- A node refers to an object with its ID. -/
  carried {id : String} {ref : Nat} :
    s.graph.payload? id = some ref → s.heap.idOf? ref = some id
  /-- An object with children is that of a node, and so are its children. -/
  owned {ref c : Nat} {o : Object} : s.heap[ref]? = some o → c ∈ o.children →
    (∃ id, s.graph.payload? id = some ref) ∧ ∃ id, s.graph.payload? id = some c

/-- What the nodes of one draft refer to, they refer to in another one. -/
def Extends (s s' : LinkedDraft) : Prop :=
  ∀ {id : String} {ref : Nat}, s.graph.payload? id = some ref → s'.graph.payload? id = some ref

/-- The root's ID comes without a reference, any other one with that of its node. -/
def Designates (graph : Graph Nat) (id : String) : Option Nat → Prop
  | none => id = rootId
  | some ref => id ≠ rootId ∧ graph.payload? id = some ref

/-- A reference is to what can be put below a node: the object of the node with an ID, or
a new one for an ID that has none. -/
structure Offers (s : LinkedDraft) (id : String) (isRoot : Bool) (ref : Nat) (d : Dependency) :
    Prop where
  read : s.heap.read? ref = some d
  located : Located ⟨id, d⟩
  held : s.graph.payload? id = some ref ∨
    (s.graph.payload? id = none ∧ d.children = [] ∧ d.isRoot = isRoot)

variable {s s' : LinkedDraft} {parentId childId id : String} {parent : Option Nat} {ref : Nat}
  {d : Dependency}

theorem Extends.designates (h : s.Extends s') (hparent : Designates s.graph parentId parent) :
    Designates s'.graph parentId parent := by
  cases parent with
  | none => exact hparent
  | some ref => exact ⟨hparent.1, h hparent.2⟩

theorem Designates.isNone_iff {graph : Graph Nat} (h : Designates graph parentId parent) :
    parent.isNone = true ↔ parentId = rootId := by
  cases parent with
  | none => exact iff_of_true rfl h
  | some ref => exact iff_of_false nofun h.1

theorem tidy_empty : Tidy .empty where
  linked := linked_new
  carried h := by cases (payload?_new _ _).symm.trans h
  owned h := by cases h

namespace Tidy

theorem consistent (hs : s.Tidy) : s.graph.Consistent :=
  consistent_of_bindPayload _ _ hs.linked.consistent

theorem exists_object (hs : s.Tidy) (h : s.graph.payload? id = some ref) :
    ∃ o, s.heap[ref]? = some o ∧ o.self.id = id :=
  Option.map_eq_some_iff.mp (hs.carried h)

/-- A new object is not seen in the graph. -/
theorem view_allocate (hs : s.Tidy) (d : Dependency) : (s.allocate d).view = s.view := by
  refine bindPayload_congr fun p n ref hn hpayload => ?_
  have hp := hs.consistent.registered.mpr (idAt?_of_node? hn)
  obtain ⟨o, ho, _⟩ := hs.exists_object ((payload?_of_node? hp hn).trans hpayload)
  refine s.heap.read?_append ho (fun c hc => ?_) _
  obtain ⟨_, id, hid⟩ := hs.owned ho hc
  exact ⟨id, hs.carried hid⟩

theorem draft_allocate (hs : s.Tidy) (d : Dependency) : (s.allocate d).draft = s.draft :=
  congrArg (Resolver.Draft.mk · s.log) (hs.view_allocate d)

theorem allocate (hs : s.Tidy) (d : Dependency) : (s.allocate d).Tidy where
  linked := (hs.view_allocate d).symm ▸ hs.linked
  carried h := s.heap.idOf?_append (hs.carried h) _
  owned {ref c o} ho hc := by
    rw [LinkedDraft.allocate, List.getElem?_append] at ho
    split at ho
    · exact hs.owned ho hc
    · obtain ⟨hlt, rfl⟩ := List.getElem?_eq_some_iff.mp ho
      simp at hc

end Tidy

/-- Noting among objects what was put below what is noting it among dependencies. -/
theorem bindPayload_adopt {graph : Graph Nat} {heap : Heap} (hg : graph.Consistent)
    (hcarried : ∀ {id ref}, graph.payload? id = some ref → heap.idOf? ref = some id)
    (hparent : Designates graph parentId parent) (hchild : graph.payload? childId = some ref) :
    graph.bindPayload (heap.adopt parent ref).read? =
      Resolver.adopt (graph.bindPayload heap.read?) parentId childId := by
  -- nodes with different IDs refer to different objects
  have hother {id id' : String} {a b : Nat} (hne : id' ≠ id) (ha : graph.payload? id' = some a)
      (hb : graph.payload? id = some b) : a ≠ b := by
    rintro rfl
    exact hne (Option.some.inj ((hcarried ha).symm.trans (hcarried hb)))
  cases parent with
  | none =>
    have hroot : parentId = rootId := hparent
    rw [Resolver.adopt, if_pos hroot]
    refine bindPayload_eq_modifyPayload hg (fun a ha => ?_) fun id a hne ha => ?_
    · rw [Heap.read?_adopt_none, if_pos (Option.some.inj (ha.symm.trans hchild))]
    · rw [Heap.read?_adopt_none, if_neg (hother hne ha hchild)]
  | some p =>
    obtain ⟨hne, hp⟩ := hparent
    rw [Resolver.adopt, if_neg hne]
    refine bindPayload_eq_modifyPayload hg (fun a ha => ?_) fun id a hne ha => ?_
    · rw [Heap.read?_adopt_some _ (hcarried hchild), if_pos (Option.some.inj (ha.symm.trans hp))]
    · rw [Heap.read?_adopt_some _ (hcarried hchild), if_neg (hother hne ha hp)]

/-! ## Placing an object -/

theorem Offers.idOf? {isRoot : Bool} (h : s.Offers id isRoot ref d) :
    s.heap.idOf? ref = some id := by
  obtain ⟨o, ho, hread⟩ := Option.map_eq_some_iff.mp h.read
  have hid : d.id = id := h.located.1
  rw [Heap.idOf?, ho, Option.map_some, ← hid, ← hread]
  rfl

/-- What is offered for an unknown ID is new. -/
theorem Offers.fresh (h : s.Offers childId parent.isNone ref d) (hg : s.graph.Consistent)
    (hparent : Designates s.graph parentId parent) (hunknown : ¬ s.graph.Knows childId) :
    Fresh d parentId := by
  rcases h.held with hheld | ⟨_, hchildren, hmarked⟩
  · obtain ⟨p, _, hp, _⟩ := hg.exists_of_payload? hheld
    exact absurd ⟨p, hp⟩ hunknown
  · exact ⟨hchildren, by rw [hmarked]; exact hparent.isNone_iff⟩

variable {graph : Graph Nat} {position : Nat}

/-- Inserting a reference inserts what it refers to. -/
theorem Offers.view_insert {isRoot : Bool} (h : s.Offers childId isRoot ref d)
    (hinsert : s.graph.insert parentId childId ref = .ok (position, graph)) :
    s.view.insert parentId childId d = .ok (position, graph.bindPayload s.heap.read?) := by
  rw [view, insert_bindPayload _ h.read, hinsert]
  rfl

/-- After an insertion the node refers to what was offered. -/
theorem Tidy.payload?_of_insert (hs : s.Tidy) {isRoot : Bool}
    (hoffers : s.Offers childId isRoot ref d)
    (h : s.graph.insert parentId childId ref = .ok (position, graph)) :
    graph.payload? childId = some ref := by
  rw [hs.consistent.payload?_insert h]
  split
  · rfl
  · rename_i hold
    rcases hoffers.held with hheld | ⟨hnone, _⟩
    · exact hheld
    · -- only the root is known and carries nothing
      obtain ⟨p, hp⟩ := Option.ne_none_iff_exists'.mp fun hp => hold ⟨rfl, hp⟩
      have hne := hs.linked.ne_rootId_of_insert (hoffers.view_insert h)
      obtain ⟨d', hd'⟩ := hs.linked.exists_payload hne ⟨p, hp⟩
      rw [view, payload?_bindPayload, hnone] at hd'
      cases hd'

/-- After an insertion every node refers to an object with its ID. -/
theorem Tidy.idOf?_of_insert (hs : s.Tidy) {isRoot : Bool}
    (hoffers : s.Offers childId isRoot ref d)
    (h : s.graph.insert parentId childId ref = .ok (position, graph)) {a : Nat}
    (ha : graph.payload? id = some a) : s.heap.idOf? a = some id := by
  rw [hs.consistent.payload?_insert h] at ha
  split at ha
  · rename_i hnew
    cases ha
    rw [hnew.1]
    exact hoffers.idOf?
  · exact hs.carried ha

/-- Placing an object below another one, or the root, keeps a draft in order. -/
theorem Tidy.place (hs : s.Tidy) (hparent : Designates s.graph parentId parent)
    (hoffers : s.Offers childId parent.isNone ref d)
    (h : s.graph.insert parentId childId ref = .ok (position, graph)) :
    (s.place graph parent ref).Tidy ∧ s.Extends (s.place graph parent ref) ∧
      (s.place graph parent ref).view =
        Resolver.adopt (graph.bindPayload s.heap.read?) parentId childId ∧
      Designates graph childId (some ref) := by
  have hview := hoffers.view_insert h
  have hchild := hs.payload?_of_insert hoffers h
  have hkept : s.Extends (s.place graph parent ref) := hs.consistent.payload?_of_insert h
  have hgraph : graph.Consistent := consistent_of_bindPayload _ s.heap.read?
    (Resolver.sound_insert hs.linked.sound hoffers.located hview).hierarchy.consistent
  have hadopt : (s.place graph parent ref).view =
      Resolver.adopt (graph.bindPayload s.heap.read?) parentId childId :=
    bindPayload_adopt hgraph (hs.idOf?_of_insert hoffers h) (hkept.designates hparent) hchild
  refine ⟨⟨?_, fun ha => ?_, fun {a c o} ho hc => ?_⟩, hkept, hadopt,
    hs.linked.ne_rootId_of_insert hview, hchild⟩
  · rw [hadopt]
    exact hs.linked.adopt hoffers.located hview (hoffers.fresh hs.consistent hparent)
  · rw [LinkedDraft.place, Heap.idOf?_adopt]
    exact hs.idOf?_of_insert hoffers h ha
  · rcases s.heap.mem_children_adopt ho hc with ⟨o', ho', hold⟩ | ⟨rfl, rfl⟩
    · obtain ⟨⟨id, hid⟩, id', hid'⟩ := hs.owned ho' hold
      exact ⟨⟨id, hkept hid⟩, id', hkept hid'⟩
    · exact ⟨⟨parentId, hkept hparent.2⟩, childId, hchild⟩

end LinkedDraft

namespace Resolver

open LinkedDraft

variable {φ : Type} [FileSystem φ] {r : Resolver} {files : φ} {α : Type}

/-! ## Resolving -/

/-- What comes of a change of a draft in order: another one, or an error.  Read through
`LinkedDraft.draft`, it is what comes of another change. -/
inductive Agree (s : LinkedDraft) :
    Except Error Unit × LinkedDraft → Except Error Unit × Draft → Prop where
  | ok {s' : LinkedDraft} (tidy : s'.Tidy) (kept : s.Extends s') :
      Agree s (.ok (), s') (.ok (), s'.draft)
  | error (e : Error) (s' : LinkedDraft) : Agree s (.error e, s') (.error e, s'.draft)

theorem Agree.trans {s s' : LinkedDraft} (h : s.Extends s')
    {linked : Except Error Unit × LinkedDraft} {plain : Except Error Unit × Draft}
    (hagree : Agree s' linked plain) : Agree s linked plain := by
  cases hagree with
  | ok htidy hkept => exact .ok htidy fun hid => hkept (h hid)
  | error e s' => exact .error e s'

theorem Linking.run_bind {β : Type} (m : Linking α) (f : α → Linking β) (s : LinkedDraft) :
    (m >>= f).run.run s = match m.run.run s with
      | (.ok a, s) => (f a).run.run s
      | (.error e, s) => (.error e, s) := by
  simp only [ExceptT.run_bind, StateT.run_bind]
  rcases m.run.run s with ⟨result, s'⟩
  cases result <;> rfl

/-- Changes agree along a list if they agree for each element while the parent keeps its
reference. -/
theorem agree_forM {parentId : String} {parent : Option Nat} {l : List α}
    {linked : α → Linking PUnit} {plain : α → Drafting PUnit}
    (h : ∀ a s, s.Tidy → Designates s.graph parentId parent →
      Agree s ((linked a).run.run s) ((plain a).run.run s.draft))
    {s : LinkedDraft} (hs : s.Tidy) (hparent : Designates s.graph parentId parent) :
    Agree s ((l.forM linked).run.run s) ((l.forM plain).run.run s.draft) := by
  induction l generalizing s with
  | nil => exact .ok hs fun hid => hid
  | cons a l ih =>
    change Agree s ((linked a >>= fun _ => l.forM linked).run.run s)
      ((plain a >>= fun _ => l.forM plain).run.run s.draft)
    rw [Linking.run_bind, Drafting.run_bind]
    have hfirst := h a s hs hparent
    revert hfirst
    generalize (linked a).run.run s = first
    generalize (plain a).run.run s.draft = first'
    intro hfirst
    cases hfirst with
    | ok htidy hkept => exact (ih htidy (hkept.designates hparent)).trans hkept
    | error e s' => exact .error e s'

/-- The object for a directory is what is found in it. -/
theorem objectAt_spec (files : φ) {s : LinkedDraft} (hs : s.Tidy) (isRoot : Bool) (name : String)
    (d : Declaration) (path : Path) :
    match objectAt files s isRoot name d path with
    | .error e => dependencyAt files s.view isRoot name d path = .error e
    | .ok (ref, fresh, s') => ∃ found, dependencyAt files s.view isRoot name d path = .ok found ∧
        fresh = (if found.2 then some found.1.config else none) ∧ s'.Tidy ∧
        s'.draft = s.draft ∧ s'.graph = s.graph ∧ s'.Offers path.text isRoot ref found.1 := by
  have hview : ((s.view.find? path.text).bind (·.payload)) =
      (s.graph.payload? path.text).bind s.heap.read? := payload?_bindPayload ..
  rw [objectAt, dependencyAt, hview]
  cases hpayload : s.graph.payload? path.text with
  | some ref =>
    obtain ⟨o, ho, _⟩ := hs.exists_object hpayload
    have hread : s.heap.read? ref = some (o.read s.heap.idOf?) := by
      rw [Heap.read?, ho, Option.map_some]
    have hfound : dependencyAt files s.view isRoot name d path =
        .ok (o.read s.heap.idOf?, false) := by
      rw [dependencyAt, hview, hpayload, Option.bind_some, hread]
    rw [Option.bind_some, hread]
    exact ⟨_, rfl, rfl, hs, rfl, rfl, hread, located_dependencyAt hs.linked.sound hfound,
      Or.inl hpayload⟩
  | none =>
    rw [Option.bind_none]
    dsimp only
    cases hconfig : Config.loadDirectory files path with
    | error e => rfl
    | ok config =>
      cases hnew : Dependency.new path.text name path config d isRoot with
      | error e =>
        simp only [bind, Except.bind, hnew]
      | ok dependency =>
        obtain ⟨exclusion, _, heq⟩ := Failure.bind_eq_ok.mp hnew
        cases heq
        simp only [bind, Except.bind, hnew]
        exact ⟨_, rfl, rfl, hs.allocate _, hs.draft_allocate _, rfl, s.heap.read?_length rfl,
          ⟨rfl, rfl⟩, Or.inr ⟨hpayload, rfl, rfl⟩⟩

theorem declareLinked_run (r : Resolver) (files : φ)
    (below : String → Option Nat → Path → Config → Linking Unit) (parentId : String)
    (parent : Option Nat) (directory : Path) (declared : String × Declaration)
    (s : LinkedDraft) :
    (r.declareLinked files below parentId parent directory declared).run.run s =
      match locate files directory declared.1 declared.2 with
      | .error e => (.error e, s)
      | .ok path =>
        match objectAt files s parent.isNone declared.1 declared.2 path with
        | .error e => (.error e, s)
        | .ok (ref, fresh, s) =>
          match s.graph.insert parentId path.text ref with
          | .error (.cyclic cycle) =>
            if r.allowCyclic then
              (.ok (), { s with log := s.log ++ [skippedEntry declared.1 cycle] })
            else (.error (.cyclic cycle), s)
          | .error e => (.error e, s)
          | .ok (_, graph) =>
            match fresh with
            | some config => (below path.text (some ref) path config).run.run
                (s.place graph parent ref)
            | none => (.ok (), s.place graph parent ref) := by
  unfold declareLinked
  rw [Linking.run_bind]
  cases locate files directory declared.1 declared.2 with
  | error e => rfl
  | ok path =>
    change ((get : Linking LinkedDraft) >>= _).run.run s = _
    rw [Linking.run_bind]
    change (liftM (objectAt files s _ _ _ path) >>= _ : Linking Unit).run.run s = _
    rw [Linking.run_bind]
    dsimp only
    cases objectAt files s parent.isNone declared.1 declared.2 path with
    | error e => rfl
    | ok found =>
      obtain ⟨ref, fresh, s'⟩ := found
      change ((set s' : Linking PUnit) >>= _).run.run s = _
      rw [Linking.run_bind]
      change (match s'.graph.insert parentId path.text ref with
        | .error (.cyclic cycle) => _
        | .error e => _
        | .ok (_, graph) => _ : Linking Unit).run.run s' = _
      dsimp only
      cases s'.graph.insert parentId path.text ref with
      | error e =>
        cases e with
        | cyclic cycle => cases r.allowCyclic <;> rfl
        | _ => rfl
      | ok placed => cases fresh <;> rfl

/-- Configurations are resolved with objects as they are without, at most `depth` deep. -/
def Follows (r : Resolver) (files : φ) (depth : Nat) : Prop :=
  ∀ (parentId : String) (parent : Option Nat) (directory : Path) (config : Config)
    (s : LinkedDraft), s.Tidy → Designates s.graph parentId parent →
      Agree s ((r.resolveLinked files depth parentId parent directory config).run.run s)
        ((r.resolveConfig files depth parentId directory config).run.run s.draft)

theorem Follows.declare {depth : Nat} (hbelow : r.Follows files depth) {parentId : String}
    {parent : Option Nat} (directory : Path) (declared : String × Declaration) {s : LinkedDraft}
    (hs : s.Tidy) (hparent : Designates s.graph parentId parent) :
    Agree s ((r.declareLinked files (r.resolveLinked files depth) parentId parent directory
        declared).run.run s)
      ((r.declare files depth parentId directory declared).run.run s.draft) := by
  have hroot : decide (parentId = rootId) = parent.isNone := by
    rw [Bool.eq_iff_iff, decide_eq_true_iff, hparent.isNone_iff]
  rw [declareLinked_run, declare_run, hroot]
  cases locate files directory declared.1 declared.2 with
  | error e => exact .error e s
  | ok path =>
    dsimp only
    have hspec := objectAt_spec files hs parent.isNone declared.1 declared.2 path
    revert hspec
    cases objectAt files s parent.isNone declared.1 declared.2 path with
    | error e =>
      intro hspec
      rw [LinkedDraft.draft, hspec]
      exact .error e s
    | ok placed =>
      obtain ⟨ref, fresh, s'⟩ := placed
      rintro ⟨⟨d, isNew⟩, hfound, rfl, hs', hdraft, hgraph, hoffers⟩
      have hkept : s.Extends s' := fun hid => by rwa [hgraph]
      have hparent' := hkept.designates hparent
      have hinsert : s'.view.insert parentId path.text d =
          (s'.graph.insert parentId path.text ref).map fun placed =>
            (placed.1, placed.2.bindPayload s'.heap.read?) :=
        insert_bindPayload _ hoffers.read _ _
      rw [show s.draft.graph = s.view from rfl, hfound, ← hdraft]
      dsimp only
      unfold settle
      rw [show s'.draft.graph = s'.view from rfl, hinsert]
      cases h : s'.graph.insert parentId path.text ref with
      | error e =>
        cases e with
        | cyclic cycle =>
          cases hallow : r.allowCyclic with
          | true => exact .ok ⟨hs'.linked, hs'.carried, hs'.owned⟩ hkept
          | false => exact .error _ s'
        | _ => exact .error _ s'
      | ok inserted =>
        obtain ⟨position, graph⟩ := inserted
        obtain ⟨htidy, hextends, hview, hchild⟩ := hs'.place hparent' hoffers h
        have hall : s.Extends (s'.place graph parent ref) := fun hid => hextends (hkept hid)
        have hplaced : (s'.place graph parent ref).draft = { s'.draft with
            graph := adopt (graph.bindPayload s'.heap.read?) parentId path.text } :=
          congrArg (Draft.mk · s'.log) hview
        cases isNew with
        | false =>
          have hdone : Agree s (.ok (), s'.place graph parent ref) _ := .ok htidy hall
          rwa [hplaced] at hdone
        | true =>
          have hrest := hbelow path.text (some ref) path d.config _ htidy hchild
          rw [hplaced] at hrest
          exact hrest.trans hall

/-- Resolving configurations with objects does what resolving them does. -/
theorem follows (r : Resolver) (files : φ) (depth : Nat) : r.Follows files depth := by
  induction depth with
  | zero => exact fun _ _ _ _ s _ _ => .error _ s
  | succ depth ih =>
    intro parentId parent directory config s hs hparent
    rw [resolveConfig_succ]
    exact agree_forM (fun declared s => ih.declare directory declared) hs hparent

/-- Resolving a project with objects does what resolving it does. -/
theorem agree_resolveAllLinked (r : Resolver) (files : φ) :
    Agree .empty ((r.resolveAllLinked files).run.run .empty)
      ((r.resolveAll files).run.run .empty) := by
  unfold resolveAllLinked resolveAll
  rw [Linking.run_bind, Drafting.run_bind]
  cases hroot : FileSystem.canonical files r.root with
  | error failure => exact .error _ .empty
  | ok root => exact r.follows files _ _ none root r.config .empty tidy_empty rfl

end Resolver

namespace LinkedDraft

/-! ## Nodes and objects -/

/-- A node refers to an object with its ID, which is linked as the node is: its children
are the objects that the children of the node refer to. -/
structure Mirrors (m : LinkedDraft) (n : Node Nat) (ref : Nat) (o : Object) : Prop where
  carried : n.payload = some ref
  object : m.heap[ref]? = some o
  id : o.self.id = n.id
  ids : o.children.map m.heap.idOf? = n.children.map m.graph.idAt?
  same : o.children.map some = n.children.map fun c => (m.graph.node? c).bind (·.payload)
  marked : o.self.isRoot = true ↔ Graph.root ∈ n.parents

/-- One object is a child of another one. -/
def IsChild (m : LinkedDraft) (child ref : Nat) : Prop :=
  ∃ o, m.heap[ref]? = some o ∧ child ∈ o.children

/-- The weight of the node that refers to an object. -/
noncomputable def weight (m : LinkedDraft) (ref : Nat) : Nat :=
  (((m.heap.idOf? ref).bind m.view.position?).map m.view.weight).getD 0

namespace Tidy

variable {m : LinkedDraft}

/-- Every node but the root mirrors the object that it refers to. -/
theorem exists_mirrors (hm : m.Tidy) {p : Nat} {n : Node Nat} (hn : m.graph.node? p = some n)
    (hroot : p ≠ Graph.root) : ∃ ref o, m.Mirrors n ref o := by
  have hview : m.view.node? p = some (n.bindPayload m.heap.read?) := by
    rw [view, node?_bindPayload, hn, Option.map_some]
  obtain ⟨d, hcarried, hid, hchildren, hmarked⟩ := hm.linked.exists_mirrors hview hroot
  obtain ⟨ref, href, hread⟩ := Option.bind_eq_some_iff.mp hcarried
  obtain ⟨o, ho, rfl⟩ := Option.map_eq_some_iff.mp hread
  have hobjects (c : Nat) (hc : c ∈ o.children) :
      ∃ id, m.heap.idOf? c = some id ∧ m.graph.payload? id = some c := by
    obtain ⟨_, id, hid⟩ := hm.owned ho hc
    exact ⟨id, hm.carried hid, hid⟩
  have hnodes (c : Nat) (hc : c ∈ n.children) : ∃ id, m.graph.idAt? c = some id :=
    (hm.consistent.occupied_target ((edge_iff_of_node? hn).mpr hc)).exists_idAt?
  have hids : o.children.map m.heap.idOf? = n.children.map m.graph.idAt? := by
    have hnamed : o.children.filterMap m.heap.idOf? = n.children.filterMap m.graph.idAt? := by
      rw [← idsAt_eq_filterMap, ← idsAt_bindPayload m.graph m.heap.read?]
      exact hchildren
    rw [← Sequence.map_some_filterMap hnodes, ← hnamed, Sequence.map_some_filterMap]
    exact fun c hc => (hobjects c hc).imp fun _ => And.left
  refine ⟨ref, o, href, ho, hid, hids, ?_, hmarked⟩
  calc o.children.map some
      = o.children.map fun c => (m.heap.idOf? c).bind m.graph.payload? := by
        refine List.map_congr_left fun c hc => ?_
        obtain ⟨id, hid, hpayload⟩ := hobjects c hc
        rw [hid, Option.bind_some, hpayload]
    _ = (o.children.map m.heap.idOf?).map (·.bind m.graph.payload?) := by
        rw [List.map_map]; rfl
    _ = n.children.map fun c => (m.graph.idAt? c).bind m.graph.payload? := by
        rw [hids, List.map_map]; rfl
    _ = n.children.map fun c => (m.graph.node? c).bind (·.payload) :=
        List.map_congr_left fun c _ => hm.consistent.bind_payload? c

/-- Following children ends: the weight of nodes falls from an object to its children. -/
theorem wellFounded_isChild (hm : m.Tidy) : WellFounded m.IsChild := by
  refine Subrelation.wf (r := InvImage (· < ·) m.weight) ?_ (InvImage.wf _ Nat.lt_wfRel.wf)
  rintro child ref ⟨o, ho, hchild⟩
  obtain ⟨⟨id, hid⟩, childId, hchildId⟩ := hm.owned ho hchild
  have hd : m.view.payload? id = some (o.read m.heap.idOf?) := by
    rw [view, payload?_bindPayload, hid, Option.bind_some, Heap.read?, ho, Option.map_some]
  obtain ⟨p, c, hp, hc, hedge⟩ := hm.linked.hasChild hd
    (List.mem_filterMap.mpr ⟨child, hchild, hm.carried hchildId⟩)
  have hlt := hm.linked.sound.hierarchy.acyclic.weight_lt hm.linked.consistent hedge
  rw [InvImage, weight, weight, hm.carried hid, hm.carried hchildId, Option.bind_some,
    Option.bind_some, hp, hc]
  exact hlt

end Tidy

end LinkedDraft

namespace Resolver

variable {φ : Type} [FileSystem φ]

/-! ## What is resolved -/

/-- In a project that was resolved, every node but the root carries a dependency with its
ID, the children of which are those of the node, in this order, and which is marked just if
the root is a parent of the node.  No more levels are shown below a dependency than there
are nodes.  If dependencies are objects, their children are the very objects that the
children of their nodes refer to, and following children ends. -/
theorem links_mirror_graph {r : Resolver} {update : Bool} {s : Stored φ} {g : DependencyGraph}
    (h : (r.resolve update s).1 = .ok g) :
    (∀ p n, g.node? p = some n → p ≠ Graph.root → ∃ d, g.Mirrors n d) ∧
      (∀ id d depth level, g.payload? id = some d → g.size ≤ depth →
        Program.treeLines g depth level d = Program.treeLines g (g.size + 1) level d) ∧
      ∃ m : LinkedDraft, (r.resolveAllLinked s.files).run.run .empty = (.ok (), m) ∧
        m.view = g ∧
        (∀ p n, m.graph.node? p = some n → p ≠ Graph.root → ∃ ref o, m.Mirrors n ref o) ∧
        WellFounded m.IsChild := by
  obtain ⟨draft, hrun, rfl⟩ := exists_draft h
  have hagree := agree_resolveAllLinked r s.files
  rw [hrun] at hagree
  generalize (r.resolveAllLinked s.files).run.run .empty = linked at hagree
  cases hagree with
  | @ok m hm _ =>
    exact ⟨fun p n hn hroot => hm.linked.exists_mirrors hn hroot,
      fun id d depth level hd hdepth => hm.linked.treeLines_eq hd hdepth level,
      m, rfl, rfl, fun p n hn hroot => hm.exists_mirrors hn hroot, hm.wellFounded_isChild⟩

/-- A project that declares a directory twice, and then another one that was reached below
the first one. -/
def overlapping : Resolver :=
  ⟨⟨"/app"⟩, declaring [("lib", "/lib"), ("same", "/lib"), ("shared", "/core")], false⟩

theorem links_mirror_graph_overlapping : ∃ g m,
    (overlapping.resolve true ⟨tieredFiles, .memory ∅⟩).1 = .ok g ∧ LinkedDraft.view m = g ∧
      m.heap.map (fun o => (o.self.id, o.children, o.self.isRoot)) =
        [("/lib", [1], true), ("/core", [], true)] ∧
      ∀ p n, m.graph.node? p = some n → p ≠ Graph.root → ∃ ref o, m.Mirrors n ref o := by
  have hresolved : ∃ g, (overlapping.resolve true ⟨tieredFiles, .memory ∅⟩).1 = .ok g := by
    have hok : (overlapping.resolve true ⟨tieredFiles, .memory ∅⟩).1.isOk = true := by
      decide +kernel
    cases hresolve : (overlapping.resolve true ⟨tieredFiles, .memory ∅⟩).1 with
    | error e =>
      rw [hresolve] at hok
      cases hok
    | ok g => exact ⟨g, rfl⟩
  obtain ⟨g, hg⟩ := hresolved
  obtain ⟨_, _, m, hrun, hview, hmirrors, _⟩ := links_mirror_graph hg
  have hheap : ((overlapping.resolveAllLinked tieredFiles).run.run .empty).2.heap.map
      (fun o => (o.self.id, o.children, o.self.isRoot)) =
        [("/lib", [1], true), ("/core", [], true)] := by decide +kernel
  dsimp only at hrun
  rw [hrun] at hheap
  exact ⟨g, m, hg, hview, hheap, hmirrors⟩

end Resolver

end Cascade
