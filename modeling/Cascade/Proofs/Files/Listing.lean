import Cascade.Proofs.Files.Memory
import Cascade.Proofs.Sequence
import Mathlib.Data.List.Induction
import Mathlib.Data.List.Nodup
import Mathlib.Data.List.Perm.Subperm

/-!
# Trees as they are listed

What a directory contains is known from listings alone.  `Stands` says what is found
below a root by going from one listing to the next, and `Listing` what the listing of
one directory has to be like: names that lead one level down, of which no two are the
same or, in a stricter reading, each comes before the next.  Files in memory are listed
so, in the order of the names (`MemoryFiles.Tidy.listing`).
-/

namespace Cascade

/-! ## Paths below a path -/

namespace Path

/-- Where some names lead, one level after the other. -/
def descend (p : Path) (names : List String) : Path := names.foldl join p

@[simp]
theorem descend_nil (p : Path) : p.descend [] = p := rfl

@[simp]
theorem descend_concat (p : Path) (names : List String) (name : String) :
    p.descend (names ++ [name]) = (p.descend names).join name := by
  rw [descend, List.foldl_append]
  rfl

theorem components_descend (p : Path) {names : List String} (h : ∀ name ∈ names, IsName name) :
    (p.descend names).components = p.components ++ names := by
  induction names using List.reverseRecOn with
  | nil => exact (List.append_nil _).symm
  | append_singleton names name ih =>
    rw [descend_concat, components_join_name _ (h name (by simp)),
      ih fun other hother => h other (List.mem_append_left _ hother), List.append_assoc]

/-- Names that lead to the same path are the same. -/
theorem descend_inj {p : Path} {names names' : List String} (h : ∀ name ∈ names, IsName name)
    (h' : ∀ name ∈ names', IsName name) :
    p.descend names = p.descend names' ↔ names = names' := by
  refine ⟨fun heq => ?_, congrArg _⟩
  have hcomponents := congrArg components heq
  rwa [components_descend p h, components_descend p h', List.append_cancel_left_eq]
    at hcomponents

theorem strip_append (base rest : List String) : below?.strip base (base ++ rest) = some rest := by
  induction base with
  | nil => rfl
  | cons name base ih => rw [List.cons_append, below?.strip, if_pos rfl, ih]

/-- What is left of a path below a base is the names that led to it. -/
theorem below?_descend (p : Path) {names : List String} (h : ∀ name ∈ names, IsName name) :
    (p.descend names).below? p = some ("/".intercalate names) := by
  rw [below?, components_descend p h, strip_append]
  rfl

end Path

/-! ## Listings -/

/-- The entry that a name of a directory stands for. -/
def DirEntry.named (directory : Path) (child : String × EntryKind) : DirEntry :=
  ⟨directory.join child.1, child.2⟩

theorem DirEntry.name_named (directory : Path) {child : String × EntryKind}
    (h : Path.IsName child.1) : (named directory child).name = child.1 := by
  rw [name, named, Path.fileName?_join_name _ h]
  rfl

/-- The entries of a directory as listed: legal names in order, of which one stands
apart from any later one. -/
def Listing (apart : String → String → Prop) (directory : Path) (entries : List DirEntry) :
    Prop :=
  ∃ children : List (String × EntryKind), entries = children.map (DirEntry.named directory) ∧
    (∀ child ∈ children, Path.IsName child.1) ∧ children.Pairwise fun a b => apart a.1 b.1

theorem ne_of_name_lt (a b : String) (h : a < b) : a ≠ b := by
  rintro rfl
  exact String.lt_irrefl a h

theorem Listing.imp {apart apart' : String → String → Prop}
    (hapart : ∀ a b, apart a b → apart' a b) {directory : Path} {entries : List DirEntry}
    (h : Listing apart directory entries) : Listing apart' directory entries := by
  obtain ⟨children, hentries, hnames, hpairwise⟩ := h
  exact ⟨children, hentries, hnames, hpairwise.imp fun h => hapart _ _ h⟩

section

variable {φ : Type} [FileSystem φ] {files : φ} {root : Path}

/-- A directory lists a legal name. -/
def Lists (files : φ) (directory : Path) (name : String) (kind : EntryKind) : Prop :=
  Path.IsName name ∧ ∃ entries, FileSystem.list files directory = .ok entries ∧
    DirEntry.named directory (name, kind) ∈ entries

/-- The entries at and below a root, by the names that lead to them: the root is taken
for a directory, and what a directory lists stands below it. -/
inductive Stands (files : φ) (root : Path) : List String → EntryKind → Prop
  | root : Stands files root [] .directory
  | entry {names : List String} {name : String} {kind : EntryKind} :
    Stands files root names .directory → Lists files (root.descend names) name kind →
      Stands files root (names ++ [name]) kind

theorem Stands.isName {names : List String} {kind : EntryKind}
    (h : Stands files root names kind) : ∀ name ∈ names, Path.IsName name := by
  induction h with
  | root => exact List.forall_mem_nil _
  | entry _ hlists ih =>
    intro name hname
    rcases List.mem_append.mp hname with hname | hname
    · exact ih name hname
    · rw [List.mem_singleton.mp hname]
      exact hlists.1

theorem Stands.eq_directory {names : List String} {kind : EntryKind}
    (h : Stands files root names kind) (hnames : names = []) : kind = .directory := by
  cases h with
  | root => rfl
  | entry => simp at hnames

/-- What stands below a directory stands in it or below one of its directories. -/
theorem Stands.step {names above : List String} {name : String} {rest : List String}
    {kind : EntryKind} (h : Stands files root names kind) (hnames : names = above ++ name :: rest) :
    Stands files root above .directory ∧
      ((rest = [] ∧ Lists files (root.descend above) name kind) ∨
        (rest ≠ [] ∧ Lists files (root.descend above) name .directory)) := by
  induction h generalizing rest with
  | root => cases above <;> cases hnames
  | @entry names' name' kind hdirectory hlists ih =>
    rcases Sequence.concat_eq_append_cons hnames with ⟨rfl, rfl, rfl⟩ | ⟨rest', hsplit, rfl⟩
    · exact ⟨hdirectory, Or.inl ⟨rfl, hlists⟩⟩
    · obtain ⟨hstands, hbelow⟩ := ih hsplit
      refine ⟨hstands, Or.inr ⟨by simp, ?_⟩⟩
      rcases hbelow with ⟨_, hlists⟩ | ⟨_, hlists⟩ <;> exact hlists

/-- Directories above what stands. -/
theorem Stands.above {names above : List String} {kind : EntryKind}
    (h : Stands files root names kind) (hpre : above <+: names) (hne : above ≠ names) :
    Stands files root above .directory := by
  obtain ⟨rest, rfl⟩ := hpre
  cases rest with
  | nil => exact absurd (List.append_nil _).symm hne
  | cons name rest => exact (h.step rfl).1

/-- What a directory lists is among its entries. -/
theorem Lists.mem_children {directory : Path} {children : List (String × EntryKind)}
    (hnames : ∀ child ∈ children, Path.IsName child.1)
    (hlist : FileSystem.list files directory = .ok (children.map (DirEntry.named directory)))
    {name : String} {kind : EntryKind} (hlists : Lists files directory name kind) :
    (name, kind) ∈ children := by
  obtain ⟨hname, entries, hentries, hmem⟩ := hlists
  cases hlist.symm.trans hentries
  obtain ⟨⟨other, kind'⟩, hother, hnamed⟩ := List.mem_map.mp hmem
  have hpath : directory.join other = directory.join name := congrArg DirEntry.path hnamed
  have hcomponents := congrArg Path.components hpath
  rw [directory.components_join_name (hnames _ hother), directory.components_join_name hname]
    at hcomponents
  have hsame : other = name := List.singleton_inj.mp (List.append_cancel_left hcomponents)
  have hkind : kind' = kind := congrArg DirEntry.kind hnamed
  rwa [← hsame, ← hkind]

/-- A name is listed once. -/
theorem Lists.kind_eq {apart : String → String → Prop} (hne : ∀ a b, apart a b → a ≠ b)
    {directory : Path} {children : List (String × EntryKind)}
    (hnames : ∀ child ∈ children, Path.IsName child.1)
    (hpairwise : children.Pairwise fun a b => apart a.1 b.1)
    (hlist : FileSystem.list files directory = .ok (children.map (DirEntry.named directory)))
    {name : String} {kind kind' : EntryKind} (hchild : (name, kind) ∈ children)
    (hlists : Lists files directory name kind') : kind' = kind := by
  have hnodup : (children.map Prod.fst).Nodup :=
    List.pairwise_map.mpr (hpairwise.imp fun h => hne _ _ h)
  cases List.inj_on_of_nodup_map hnodup (hlists.mem_children hnames hlist) hchild rfl
  rfl

end

/-! ## Files in memory -/

namespace MemoryFiles

variable {m : MemoryFiles} {root directory : Path}

theorem list_of_directory {names : Std.TreeSet String}
    (h : m.find? directory = some (.directory names)) :
    FileSystem.list m directory = .ok ((names.toList.map fun name =>
      (name, kindOf (m.find? (directory.join name)))).map (DirEntry.named directory)) := by
  change m.list directory = _
  rw [list, h, List.map_map]
  rfl

theorem directory_of_list {entries : List DirEntry}
    (h : FileSystem.list m directory = .ok entries) :
    ∃ names, m.find? directory = some (.directory names) := by
  change m.list directory = _ at h
  unfold list at h
  split at h
  · rename_i names hfind
    exact ⟨names, hfind⟩
  · cases h

/-- The names of a directory are legal, and listed in their order. -/
theorem Tidy.listing (ht : m.Tidy) {entries : List DirEntry}
    (h : FileSystem.list m directory = .ok entries) : Listing (· < ·) directory entries := by
  obtain ⟨names, hfind⟩ := directory_of_list h
  cases h.symm.trans (list_of_directory hfind)
  refine ⟨_, rfl, fun child hchild => ?_, List.pairwise_map.mpr ?_⟩
  · obtain ⟨name, hname, rfl⟩ := List.mem_map.mp hchild
    exact ht.names hfind name (Std.TreeSet.mem_toList.mp hname)
  · have hordered : names.toList.Pairwise fun a b => compare a b = .lt :=
      Std.TreeSet.ordered_toList
    exact hordered.imp fun h => compareOfLessAndEq_eq_lt.mp h

theorem directory_of_kindOf {entry : Option MemoryEntry} (h : kindOf entry = .directory) :
    ∃ names, entry = some (.directory names) := by
  unfold kindOf at h
  split at h
  · exact ⟨_, rfl⟩
  · cases h
  · cases h

/-- What is listed as a directory is one. -/
theorem directory_of_lists {name : String} (h : Lists m directory name .directory) :
    ∃ names, m.find? (directory.join name) = some (.directory names) := by
  obtain ⟨hname, entries, hentries, hmem⟩ := h
  obtain ⟨names, hfind⟩ := directory_of_list hentries
  cases hentries.symm.trans (list_of_directory hfind)
  obtain ⟨_, hchild, hnamed⟩ := List.mem_map.mp hmem
  obtain ⟨other, _, rfl⟩ := List.mem_map.mp hchild
  have hpath : directory.join other = directory.join name := congrArg DirEntry.path hnamed
  rw [← hpath]
  exact directory_of_kindOf (congrArg DirEntry.kind hnamed)

/-- Every directory below a root that is one is there. -/
theorem directory_of_stands {names : List String} (hroot : kindOf (m.find? root) = .directory)
    (h : Stands m root names .directory) :
    ∃ names', m.find? (root.descend names) = some (.directory names') := by
  cases h with
  | root => exact directory_of_kindOf hroot
  | entry _ hlists =>
    rw [Path.descend_concat]
    exact directory_of_lists hlists

/-- Directories lie no more levels deep than there are entries. -/
theorem length_le_of_stands {names : List String} (h : Stands m root names .directory) :
    names.length ≤ m.entries.size := by
  have hisName := h.isName
  -- each directory on the way is an entry of its own
  have hkey : ∀ above, above ≠ [] → above <+: names → root.components ++ above ∈ m.entries := by
    intro above hne hpre
    have habove : Stands m root above .directory := by
      by_cases heq : above = names
      · rwa [heq]
      · exact h.above hpre heq
    cases habove with
    | root => exact absurd rfl hne
    | entry hstands hlists =>
      obtain ⟨_, hfind⟩ := directory_of_lists hlists
      rw [← Path.descend_concat, find?,
        Path.components_descend _ fun name hname => hisName name (hpre.subset hname)] at hfind
      exact Std.TreeMap.mem_iff_isSome_getElem?.mpr (by rw [hfind]; rfl)
  have hlength : ∀ k ∈ List.range names.length, (names.take (k + 1)).length = k + 1 := by
    intro k hk
    rw [List.length_take]
    have := List.mem_range.mp hk
    omega
  have hnodup : ((List.range names.length).map fun k =>
      root.components ++ names.take (k + 1)).Nodup := by
    refine List.Nodup.map_on (fun k hk k' hk' heq => ?_) List.nodup_range
    have htake := congrArg List.length (List.append_cancel_left heq)
    rw [hlength k hk, hlength k' hk'] at htake
    omega
  have hsubset : ((List.range names.length).map fun k =>
      root.components ++ names.take (k + 1)) ⊆ m.entries.keys := by
    intro key hmem
    obtain ⟨k, hk, rfl⟩ := List.mem_map.mp hmem
    refine Std.TreeMap.mem_keys.mpr (hkey _ (fun hnil => ?_) (List.take_prefix ..))
    have := hlength k hk
    rw [hnil] at this
    cases this
  have hle := (List.subperm_of_subset hnodup hsubset).length_le
  rwa [List.length_map, List.length_range, Std.TreeMap.length_keys] at hle

end MemoryFiles

end Cascade
