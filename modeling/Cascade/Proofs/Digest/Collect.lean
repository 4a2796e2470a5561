import Cascade.Digest.Directory
import Cascade.Proofs.Failure
import Cascade.Proofs.Files.Listing

/-!
# What counts below a directory

The entries that are collected below a root are exactly those that stand there, are no
directories, and have no excluded directory above them nor match a pattern themselves
(`located_of_collect`).  They come in the order of the listings.

Directories are entered no deeper than trees go, so that the bound on their levels is
never met (`collect_enough`).
-/

namespace Cascade

namespace Digest

/-! ## Answers put together -/

variable {α β ε : Type}

/-- Put the answers for the members of a list together. -/
def gather (f : α → Except ε (List β)) (l : List α) : Except ε (List β) :=
  List.flatten <$> l.mapM f

theorem gather_cons (f : α → Except ε (List β)) (a : α) (l : List α) :
    gather f (a :: l) = do
      let first ← f a
      let rest ← gather f l
      return first ++ rest := by
  rw [gather, gather, List.mapM_cons]
  cases f a with
  | error e => rfl
  | ok first =>
    change List.flatten <$> (l.mapM f >>= fun rest => pure (first :: rest)) =
      (List.flatten <$> l.mapM f) >>= fun rest => pure (first ++ rest)
    cases l.mapM f <;> rfl

theorem gather_map {γ : Type} (f : α → Except ε (List β)) (g : γ → α) (l : List γ) :
    gather f (l.map g) = gather (fun c => f (g c)) l := by
  rw [gather, List.mapM_map]
  rfl

/-- Members without an answer can be left out. -/
theorem gather_filter {f : α → Except ε (List β)} {p : α → Bool} {l : List α}
    (h : ∀ a ∈ l, p a = false → f a = .ok []) : gather f l = gather f (l.filter p) := by
  induction l with
  | nil => rfl
  | cons a l ih =>
    have hrest := ih fun b hb => h b (List.mem_cons_of_mem _ hb)
    rw [gather_cons, hrest]
    cases hp : p a with
    | true => rw [List.filter_cons_of_pos hp, gather_cons]
    | false =>
      rw [List.filter_cons_of_neg (by simp [hp]), h a (List.mem_cons_self ..) hp]
      change (gather f (l.filter p) >>= fun rest => pure rest) = _
      cases gather f (l.filter p) <;> rfl

/-- What is put together comes from the members, so it suffices that these get the
same answers. -/
theorem gather_congr {f g : α → Except ε (List β)} {l : List α} {found : List β}
    (h : gather f l = .ok found)
    (hfg : ∀ a ∈ l, ∀ answer, f a = .ok answer → answer ⊆ found → g a = .ok answer) :
    gather g l = .ok found := by
  induction l generalizing found with
  | nil => exact h
  | cons a l ih =>
    rw [gather_cons] at h ⊢
    obtain ⟨first, hfirst, h⟩ := Failure.bind_eq_ok.mp h
    obtain ⟨rest, hrest, h⟩ := Failure.bind_eq_ok.mp h
    cases h
    rw [hfg a (List.mem_cons_self ..) first hfirst (List.subset_append_left ..),
      ih hrest fun b hb answer hanswer hsub => hfg b (List.mem_cons_of_mem _ hb) answer hanswer
        (List.subset_append_of_subset_right _ hsub)]
    rfl

theorem mem_of_gather {f : α → Except ε (List β)} {l : List α} {found : List β}
    (h : gather f l = .ok found) {b : β} (hb : b ∈ found) :
    ∃ a ∈ l, ∃ answer, f a = .ok answer ∧ answer ⊆ found ∧ b ∈ answer := by
  induction l generalizing found with
  | nil =>
    cases h
    cases hb
  | cons a l ih =>
    rw [gather_cons] at h
    obtain ⟨first, hfirst, h⟩ := Failure.bind_eq_ok.mp h
    obtain ⟨rest, hrest, h⟩ := Failure.bind_eq_ok.mp h
    cases h
    rcases List.mem_append.mp hb with hb | hb
    · exact ⟨a, List.mem_cons_self .., first, hfirst, List.subset_append_left .., hb⟩
    · obtain ⟨a', ha', answer, hanswer, hsub, hmem⟩ := ih hrest hb
      exact ⟨a', List.mem_cons_of_mem _ ha', answer, hanswer,
        List.subset_append_of_subset_right _ hsub, hmem⟩

theorem answer_of_gather {f : α → Except ε (List β)} {l : List α} {found : List β}
    (h : gather f l = .ok found) {a : α} (ha : a ∈ l) :
    ∃ answer, f a = .ok answer ∧ answer ⊆ found := by
  induction l generalizing found with
  | nil => cases ha
  | cons a' l ih =>
    rw [gather_cons] at h
    obtain ⟨first, hfirst, h⟩ := Failure.bind_eq_ok.mp h
    obtain ⟨rest, hrest, h⟩ := Failure.bind_eq_ok.mp h
    cases h
    rcases List.mem_cons.mp ha with rfl | ha
    · exact ⟨first, hfirst, List.subset_append_left ..⟩
    · obtain ⟨answer, hanswer, hsub⟩ := ih hrest ha
      exact ⟨answer, hanswer, List.subset_append_of_subset_right _ hsub⟩

theorem gather_eq {f g : α → Except ε (List β)} {l : List α} (h : ∀ a ∈ l, f a = g a) :
    gather f l = gather g l := by
  induction l with
  | nil => rfl
  | cons a l ih =>
    rw [gather_cons, gather_cons, h a (List.mem_cons_self ..),
      ih fun b hb => h b (List.mem_cons_of_mem _ hb)]

theorem gather_eq_ok {f : α → Except ε (List β)} {g : α → List β} {l : List α}
    (h : ∀ a ∈ l, f a = .ok (g a)) : gather f l = .ok (l.flatMap g) := by
  induction l with
  | nil => rfl
  | cons a l ih =>
    rw [gather_cons, h a (List.mem_cons_self ..), ih fun b hb => h b (List.mem_cons_of_mem _ hb)]
    rfl

theorem gather_ok {f : α → Except ε (List β)} {l : List α}
    (h : ∀ a ∈ l, ∃ answer, f a = .ok answer) : ∃ found, gather f l = .ok found := by
  have hanswer : ∀ a, ∃ answer, a ∈ l → f a = .ok answer := by
    intro a
    by_cases ha : a ∈ l
    · exact (h a ha).imp fun _ h _ => h
    · exact ⟨[], fun h => absurd h ha⟩
  choose answer hanswer using hanswer
  exact ⟨_, gather_eq_ok hanswer⟩

/-- If every answer comes from a list with some property, what is put together comes from
such lists. -/
theorem exists_of_gather {γ : Type} {f : α → Except ε (List β)} {g : γ → β}
    {P : α → List γ → Prop} {l : List α} {found : List β} (h : gather f l = .ok found)
    (hf : ∀ a ∈ l, ∀ answer, f a = .ok answer → ∃ part, answer = part.map g ∧ P a part) :
    ∃ parts : α → List γ, found = (l.flatMap parts).map g ∧ ∀ a ∈ l, P a (parts a) := by
  have hparts : ∀ a, ∃ part, a ∈ l → f a = .ok (part.map g) ∧ P a part := by
    intro a
    by_cases ha : a ∈ l
    · obtain ⟨answer, hanswer, _⟩ := answer_of_gather h ha
      obtain ⟨part, rfl, hpart⟩ := hf a ha answer hanswer
      exact ⟨part, fun _ => ⟨hanswer, hpart⟩⟩
    · exact ⟨[], fun h => absurd h ha⟩
  choose parts hparts using hparts
  refine ⟨parts, ?_, fun a ha => (hparts a ha).2⟩
  have hall := gather_eq_ok fun a ha => (hparts a ha).1
  cases h.symm.trans hall
  rw [List.map_flatMap]

/-! ## One directory -/

section

variable {φ : Type} [FileSystem φ]

/-- What one entry of a directory adds to what counts. -/
def visit (files : φ) (root : Path) (exclusion : Exclusion) (recursive : Bool) (depth : Nat)
    (entry : DirEntry) : Except Failure (List (String × DirEntry)) :=
  let relative := relativeTo root entry.path
  let isDirectory := decide (entry.kind = .directory)
  if exclusion.excludes relative entry.name isDirectory then .ok []
  else if isDirectory then
    if recursive then collect files root exclusion recursive depth entry.path else .ok []
  else .ok [(relative, entry)]

theorem collect_succ (files : φ) (root : Path) (exclusion : Exclusion) (recursive : Bool)
    (depth : Nat) (directory : Path) :
    collect files root exclusion recursive (depth + 1) directory =
      (FileSystem.list files directory >>=
        gather (visit files root exclusion recursive depth)) := by
  rw [collect]
  rfl

/-- The text is made of the records of what counts, sorted. -/
theorem directoryMessage_eq (files : φ) (root : Path) (exclusion : Exclusion)
    (recursive : Bool) : directoryMessage files root exclusion recursive =
      (counted files root exclusion recursive >>= fun found =>
        gather (record files) (found.mergeSort fun a b => !decide (b.1 < a.1))) := by
  unfold directoryMessage gather
  simp only [map_eq_pure_bind]

theorem directoryHash_of_message {files : φ} {root : Path} {exclusion : Exclusion}
    {recursive : Bool} {message : List UInt8}
    (h : directoryMessage files root exclusion recursive = .ok message) :
    directoryHash files root exclusion recursive = .ok (Blake3.hexHash message) := by
  rw [directoryHash, h]
  rfl

end

section

variable {φ : Type} [FileSystem φ] {files : φ} {root : Path} {exclusion : Exclusion}
  {recursive : Bool}

/-! ## Which names count -/

/-- The relative path that some names spell, with slashes for backslashes. -/
def relative (names : List String) : String := slashed ("/".intercalate names)

theorem relativeTo_descend (root : Path) {names : List String}
    (h : ∀ name ∈ names, Path.IsName name) : relativeTo root (root.descend names) =
      relative names := by
  rw [relativeTo, root.below?_descend h]
  rfl

/-- Neither what some names lead to nor any directory above it matches a pattern. -/
def Unmatched (exclusion : Exclusion) (names : List String) : Prop :=
  ∀ above, above ≠ [] → above <+: names → exclusion.isMatch (relative above) = false

/-- Some names lead to a directory that is entered: neither it nor any directory above
it has a name that never counts or matches a pattern. -/
structure Enters (exclusion : Exclusion) (names : List String) : Prop where
  allowed : ∀ name ∈ names, name ∉ Exclusion.directoryNames
  unmatched : Unmatched exclusion names

/-- Some names lead to a file or link that counts: no directory above it has a name that
never counts, and neither it nor any of these matches a pattern. -/
structure Counts (exclusion : Exclusion) (names : List String) : Prop where
  allowed : ∀ name ∈ names.dropLast, name ∉ Exclusion.directoryNames
  unmatched : Unmatched exclusion names

theorem unmatched_concat {above : List String} {name : String} :
    Unmatched exclusion (above ++ [name]) ↔
      Unmatched exclusion above ∧ exclusion.isMatch (relative (above ++ [name])) = false := by
  constructor
  · exact fun h => ⟨fun names hne hpre => h names hne (hpre.trans (List.prefix_append ..)),
      h _ (by simp) List.prefix_rfl⟩
  · rintro ⟨habove, hlast⟩ names hne hpre
    rcases List.prefix_concat_iff.mp hpre with rfl | hpre
    · exact hlast
    · exact habove names hne hpre

theorem enters_nil : Enters exclusion [] where
  allowed := List.forall_mem_nil _
  unmatched _ hne hpre := absurd (List.prefix_nil.mp hpre) hne

theorem enters_concat {above : List String} {name : String} :
    Enters exclusion (above ++ [name]) ↔
      Enters exclusion above ∧
        exclusion.excludes (relative (above ++ [name])) name true = false := by
  have hexcludes : exclusion.excludes (relative (above ++ [name])) name true = false ↔
      name ∉ Exclusion.directoryNames ∧
        exclusion.isMatch (relative (above ++ [name])) = false := by
    simp [Exclusion.excludes]
  rw [hexcludes]
  constructor
  · rintro ⟨hallowed, hunmatched⟩
    obtain ⟨habove, hlast⟩ := unmatched_concat.mp hunmatched
    exact ⟨⟨fun other hother => hallowed other (List.mem_append_left _ hother), habove⟩,
      hallowed name (by simp), hlast⟩
  · rintro ⟨⟨hallowed, habove⟩, hname, hlast⟩
    refine ⟨fun other hother => ?_, unmatched_concat.mpr ⟨habove, hlast⟩⟩
    rcases List.mem_append.mp hother with hother | hother
    · exact hallowed other hother
    · rwa [List.mem_singleton.mp hother]

theorem counts_concat {above : List String} {name : String} :
    Counts exclusion (above ++ [name]) ↔
      Enters exclusion above ∧
        exclusion.excludes (relative (above ++ [name])) name false = false := by
  have hexcludes : exclusion.excludes (relative (above ++ [name])) name false = false ↔
      exclusion.isMatch (relative (above ++ [name])) = false := by
    simp [Exclusion.excludes]
  rw [hexcludes]
  constructor
  · rintro ⟨hallowed, hunmatched⟩
    rw [List.dropLast_concat] at hallowed
    obtain ⟨habove, hlast⟩ := unmatched_concat.mp hunmatched
    exact ⟨⟨hallowed, habove⟩, hlast⟩
  · rintro ⟨⟨hallowed, habove⟩, hlast⟩
    exact ⟨by rwa [List.dropLast_concat], unmatched_concat.mpr ⟨habove, hlast⟩⟩

/-- The directories above what counts are entered. -/
theorem Counts.enters {above rest : List String} (h : Counts exclusion (above ++ rest))
    (hrest : rest ≠ []) : Enters exclusion above where
  allowed name hname := h.allowed name (by
    rw [List.dropLast_append_of_ne_nil hrest]
    exact List.mem_append_left _ hname)
  unmatched names hne hpre := h.unmatched names hne (hpre.trans (List.prefix_append ..))

/-! ## What is collected -/

/-- A file or link below a root that counts. -/
structure Content (files : φ) (root : Path) (exclusion : Exclusion) (names : List String)
    (kind : EntryKind) : Prop where
  stands : Stands files root names kind
  leaf : kind ≠ .directory
  counts : Counts exclusion names

/-- What is collected for a file or link that some names lead to. -/
def spelled (root : Path) (x : List String × EntryKind) : String × DirEntry :=
  (relative x.1, ⟨root.descend x.1, x.2⟩)

/-- The directories that are entered list legal names, of which one stands apart from any
later one. -/
def WellListed (apart : String → String → Prop) (files : φ) (root : Path)
    (exclusion : Exclusion) : Prop :=
  ∀ names, Stands files root names .directory → Enters exclusion names →
    ∀ entries, FileSystem.list files (root.descend names) = .ok entries →
      Listing apart (root.descend names) entries

theorem WellListed.imp {apart apart' : String → String → Prop}
    (hapart : ∀ a b, apart a b → apart' a b) (h : WellListed apart files root exclusion) :
    WellListed apart' files root exclusion :=
  fun names hstands henters entries hlist => (h names hstands henters entries hlist).imp hapart

theorem wellListed_of_tidy {m : MemoryFiles} (ht : m.Tidy) (root : Path) (exclusion : Exclusion) :
    WellListed (· < ·) m root exclusion :=
  fun _ _ _ _ hlist => ht.listing hlist

/-- Names that part at some level are in an order if those at that level stand apart. -/
structure Levelwise (apart : String → String → Prop)
    (before : List String → List String → Prop) : Prop where
  ne (a b : String) : apart a b → a ≠ b
  before (above : List String) (a b : String) (rest rest' : List String) :
    apart a b → before (above ++ a :: rest) (above ++ b :: rest')

theorem levelwise_ne : Levelwise (· ≠ ·) (· ≠ ·) where
  ne _ _ h := h
  before _ _ _ _ _ h heq := h (List.cons.inj (List.append_cancel_left heq)).1

theorem levelwise_lt : Levelwise (· < ·) (· < ·) where
  ne := ne_of_name_lt
  before above a b rest rest' h := by
    induction above with
    | nil => exact List.Lex.rel h
    | cons name above ih => exact List.Lex.cons ih

/-- What was found is the content to which names of some kind lead, in order. -/
def Locates (files : φ) (root : Path) (exclusion : Exclusion) (way : List String → Prop)
    (before : List String → List String → Prop) (found : List (String × DirEntry)) : Prop :=
  ∃ located : List (List String × EntryKind), found = located.map (spelled root) ∧
    located.Pairwise (fun x y => before x.1 y.1) ∧
    ∀ x, x ∈ located ↔ way x.1 ∧ Content files root exclusion x.1 x.2

theorem locates_nil {way : List String → Prop} {before : List String → List String → Prop}
    (h : ∀ names kind, way names → ¬ Content files root exclusion names kind) :
    Locates files root exclusion way before [] :=
  ⟨[], rfl, List.Pairwise.nil, fun x => ⟨nofun, fun hx => absurd hx.2 (h x.1 x.2 hx.1)⟩⟩

/-- Names that lead on from a directory, one level if not all of them. -/
def Onward (recursive : Bool) (above names : List String) : Prop :=
  ∃ name rest, names = above ++ name :: rest ∧ (recursive = true ∨ rest = [])

/-- Names that lead on from a directory by one of its entries. -/
def OnwardBy (recursive : Bool) (above : List String) (name : String) (names : List String) :
    Prop :=
  ∃ rest, names = above ++ name :: rest ∧ (recursive = true ∨ rest = [])

variable {apart : String → String → Prop} {before : List String → List String → Prop}
  {above : List String}

/-- By one of its entries a directory leads to that entry, or on if it is a directory. -/
def LeadsBy (files : φ) (root : Path) (above : List String) (name : String) (kind : EntryKind) :
    Prop :=
  ∀ rest kind', Stands files root (above ++ name :: rest) kind' →
    (rest = [] ∧ kind' = kind) ∨ (rest ≠ [] ∧ kind = .directory)

theorem visit_named {depth : Nat} {name : String} (kind : EntryKind)
    (h : ∀ other ∈ above ++ [name], Path.IsName other) :
    visit files root exclusion recursive depth (DirEntry.named (root.descend above) (name, kind)) =
      if exclusion.excludes (relative (above ++ [name])) name (decide (kind = .directory)) then
        .ok []
      else if kind = .directory then
        if recursive then
          collect files root exclusion recursive depth (root.descend (above ++ [name]))
        else .ok []
      else .ok [spelled root (above ++ [name], kind)] := by
  have hrelative : relativeTo root (DirEntry.named (root.descend above) (name, kind)).path =
      relative (above ++ [name]) := by
    rw [DirEntry.named, ← Path.descend_concat, relativeTo_descend root h]
  unfold visit
  rw [hrelative, DirEntry.name_named _ (h name (by simp)), spelled, Path.descend_concat]
  dsimp only [DirEntry.named]
  by_cases hkind : kind = .directory <;> simp [hkind]

/-- An entry that is excluded leads to nothing that counts. -/
theorem locates_excluded {name : String} {kind : EntryKind}
    (honly : LeadsBy files root above name kind)
    (h : exclusion.excludes (relative (above ++ [name])) name (decide (kind = .directory)) = true) :
    Locates files root exclusion (OnwardBy recursive above name) before [] := by
  refine locates_nil fun names kind' ⟨rest, hnames, _⟩ hcontent => ?_
  subst hnames
  rcases honly rest kind' hcontent.stands with ⟨rfl, rfl⟩ | ⟨hne, rfl⟩
  · rw [decide_eq_false hcontent.leaf, (counts_concat.mp hcontent.counts).2] at h
    cases h
  · have hsplit : above ++ name :: rest = (above ++ [name]) ++ rest := by simp
    rw [hsplit] at hcontent
    rw [decide_eq_true rfl, (enters_concat.mp (hcontent.counts.enters hne)).2] at h
    cases h

/-- A directory itself is no content. -/
theorem LeadsBy.ne_nil {name : String} (honly : LeadsBy files root above name .directory)
    {rest : List String} {kind : EntryKind}
    (h : Content files root exclusion (above ++ name :: rest) kind) : rest ≠ [] := by
  rintro rfl
  rcases honly [] kind h.stands with ⟨_, hkind⟩ | ⟨hne, _⟩
  · exact h.leaf hkind
  · exact hne rfl

/-- What a directory leads to is what lies in it or below. -/
theorem Locates.below {name : String} {found : List (String × DirEntry)}
    (honly : LeadsBy files root above name .directory) (hrecursive : recursive = true)
    (h : Locates files root exclusion (Onward recursive (above ++ [name])) before found) :
    Locates files root exclusion (OnwardBy recursive above name) before found := by
  obtain ⟨located, hfound, hpairwise, hmem⟩ := h
  refine ⟨located, hfound, hpairwise, fun ⟨names, kind⟩ => (hmem _).trans ?_⟩
  refine and_congr_left fun hcontent => ⟨?_, ?_⟩
  · rintro ⟨next, rest, hnames, _⟩
    exact ⟨next :: rest, by rw [hnames]; simp, Or.inl hrecursive⟩
  · rintro ⟨rest, hnames, _⟩
    dsimp only at hnames hcontent ⊢
    subst hnames
    obtain ⟨next, rest, rfl⟩ := List.exists_cons_of_ne_nil (honly.ne_nil hcontent)
    exact ⟨next, rest, by simp, Or.inl hrecursive⟩

/-- A file or link that is not excluded leads to itself. -/
theorem locates_leaf {name : String} {kind : EntryKind}
    (honly : LeadsBy files root above name kind)
    (hstands : Stands files root (above ++ [name]) kind) (hkind : kind ≠ .directory)
    (hcounts : Counts exclusion (above ++ [name])) :
    Locates files root exclusion (OnwardBy recursive above name) before
      [spelled root (above ++ [name], kind)] := by
  refine ⟨[(above ++ [name], kind)], rfl, List.pairwise_singleton _ _, fun ⟨names, kind'⟩ => ?_⟩
  rw [List.mem_singleton]
  constructor
  · intro hx
    cases hx
    exact ⟨⟨[], rfl, Or.inr rfl⟩, hstands, hkind, hcounts⟩
  · rintro ⟨⟨rest, hnames, _⟩, hcontent⟩
    dsimp only at hnames hcontent
    subst hnames
    rcases honly rest kind' hcontent.stands with ⟨rfl, rfl⟩ | ⟨_, hkind'⟩
    · rfl
    · exact absurd hkind' hkind

/-- What is found by one entry of a directory. -/
theorem located_of_visit {depth : Nat} {name : String} {kind : EntryKind}
    (henters : Enters exclusion above) (honly : LeadsBy files root above name kind)
    (hstands : Stands files root (above ++ [name]) kind)
    (hbelow : kind = .directory → Enters exclusion (above ++ [name]) → ∀ found,
      collect files root exclusion recursive depth (root.descend (above ++ [name])) = .ok found →
        Locates files root exclusion (Onward recursive (above ++ [name])) before found)
    {found : List (String × DirEntry)}
    (h : visit files root exclusion recursive depth
      (DirEntry.named (root.descend above) (name, kind)) = .ok found) :
    Locates files root exclusion (OnwardBy recursive above name) before found := by
  rw [visit_named kind hstands.isName] at h
  split at h
  · rename_i hexcluded
    cases h
    exact locates_excluded honly hexcluded
  rename_i hcounts
  rw [Bool.not_eq_true] at hcounts
  split at h
  · rename_i hkind
    subst hkind
    split at h
    · rename_i hrecursive
      exact (hbelow rfl (enters_concat.mpr ⟨henters, hcounts⟩) found h).below honly hrecursive
    · rename_i hrecursive
      cases h
      refine locates_nil fun names kind' ⟨rest, hnames, hmode⟩ hcontent => ?_
      subst hnames
      exact honly.ne_nil hcontent (hmode.resolve_left hrecursive)
  · rename_i hkind
    cases h
    rw [decide_eq_false hkind] at hcounts
    exact locates_leaf honly hstands hkind (counts_concat.mpr ⟨henters, hcounts⟩)

/-- What is collected below a directory is the content to which its entries lead, in the
order of the listings. -/
theorem located_of_collect (horder : Levelwise apart before)
    (hlisted : WellListed apart files root exclusion) {depth : Nat}
    (hstands : Stands files root above .directory) (henters : Enters exclusion above)
    {found : List (String × DirEntry)}
    (h : collect files root exclusion recursive depth (root.descend above) = .ok found) :
    Locates files root exclusion (Onward recursive above) before found := by
  induction depth generalizing above found with
  | zero => cases h
  | succ depth ih =>
    rw [collect_succ] at h
    obtain ⟨entries, hlist, h⟩ := Failure.bind_eq_ok.mp h
    obtain ⟨children, rfl, hnames, hpairwise⟩ := hlisted above hstands henters entries hlist
    have hlists : ∀ child ∈ children, Lists files (root.descend above) child.1 child.2 :=
      fun child hchild => ⟨hnames child hchild, _, hlist, List.mem_map_of_mem hchild⟩
    rw [gather_map] at h
    obtain ⟨parts, rfl, hparts⟩ := exists_of_gather h fun child hchild answer hanswer =>
      located_of_visit henters
        (fun rest kind' hstands' => (hstands'.step rfl).2.imp
          (And.imp_right fun hlists' => hlists'.kind_eq horder.ne hnames hpairwise hlist hchild)
          (And.imp_right fun hlists' =>
            (hlists'.kind_eq horder.ne hnames hpairwise hlist hchild).symm))
        (hstands.entry (hlists child hchild))
        (fun hkind henters' found' hfound' =>
          ih (hkind ▸ hstands.entry (hlists child hchild)) henters' hfound') hanswer
    refine ⟨children.flatMap parts, rfl, List.pairwise_flatMap.mpr ⟨fun child hchild =>
      (hparts child hchild).1, hpairwise.imp_of_mem fun {a b} ha hb hapart x hx y hy => ?_⟩,
      fun x => ?_⟩
    · obtain ⟨⟨rest, hx, _⟩, _⟩ := ((hparts a ha).2 x).mp hx
      obtain ⟨⟨rest', hy, _⟩, _⟩ := ((hparts b hb).2 y).mp hy
      rw [hx, hy]
      exact horder.before _ _ _ _ _ hapart
    · rw [List.mem_flatMap]
      constructor
      · rintro ⟨child, hchild, hx⟩
        obtain ⟨⟨rest, hx, hmode⟩, hcontent⟩ := ((hparts child hchild).2 x).mp hx
        exact ⟨⟨_, rest, hx, hmode⟩, hcontent⟩
      · rintro ⟨⟨name, rest, hx, hmode⟩, hcontent⟩
        obtain ⟨kind, hlists'⟩ : ∃ kind, Lists files (root.descend above) name kind :=
          (hcontent.stands.step hx).2.elim (fun h => ⟨_, h.2⟩) fun h => ⟨_, h.2⟩
        have hchild := hlists'.mem_children hnames hlist
        exact ⟨(name, kind), hchild, ((hparts _ hchild).2 x).mpr ⟨⟨rest, hx, hmode⟩, hcontent⟩⟩

/-! ## How deep directories are entered -/

theorem size_lt_levels (m : MemoryFiles) : m.entries.size < levels m :=
  Nat.lt_add_of_pos_left (by rw [FileSystem.levels]; omega)

/-- With more levels than there are, their number does not matter. -/
theorem collect_enough (hlisted : WellListed apart files root exclusion) {bound : Nat}
    (hbound : ∀ names, Stands files root names .directory → Enters exclusion names →
      names.length ≤ bound)
    (hstands : Stands files root above .directory) (henters : Enters exclusion above)
    {depth depth' : Nat} (h : bound < above.length + depth) (h' : bound < above.length + depth') :
    collect files root exclusion recursive depth (root.descend above) =
      collect files root exclusion recursive depth' (root.descend above) := by
  have hlength := hbound above hstands henters
  induction depth generalizing above depth' with
  | zero => omega
  | succ depth ih =>
    cases depth' with
    | zero => omega
    | succ depth' =>
      rw [collect_succ, collect_succ]
      cases hlist : FileSystem.list files (root.descend above) with
      | error failure => rfl
      | ok entries =>
        obtain ⟨children, rfl, hnames, _⟩ := hlisted above hstands henters entries hlist
        change gather _ _ = gather _ _
        rw [gather_map, gather_map]
        refine gather_eq fun ⟨name, kind⟩ hchild => ?_
        have hstands' : Stands files root (above ++ [name]) kind :=
          hstands.entry ⟨hnames _ hchild, _, hlist, List.mem_map_of_mem hchild⟩
        rw [visit_named kind hstands'.isName, visit_named kind hstands'.isName]
        split
        · rfl
        rename_i hcounts
        split
        · rename_i hkind
          subst hkind
          rw [decide_eq_true rfl, Bool.not_eq_true] at hcounts
          have henters' : Enters exclusion (above ++ [name]) :=
            enters_concat.mpr ⟨henters, hcounts⟩
          have hlength' : (above ++ [name]).length = above.length + 1 := List.length_append
          have hbelow := @ih _ hstands' henters' depth' (by omega) (by omega)
            (hbound _ hstands' henters')
          rw [hbelow]
        · rfl

end

end Digest

end Cascade
