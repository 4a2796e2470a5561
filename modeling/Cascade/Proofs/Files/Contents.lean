import Cascade.Proofs.Files.Listing
import Cascade.Proofs.Files.Parent

/-!
# What lies in a directory

A directory in memory keeps the names of its entries beside the entries themselves.  In
every tree that was built, these are the names of what lies in it (`Built.accurate`).
`list_after` says what is listed after any additions along paths of names.  A directory
lists all that lies in it as it is, but for the directory that is here: what lies in it
is found by its name alone, while it is listed, as a file, at a path that starts with a
dot.
-/

namespace Cascade

/-- A path leads to what has this name in a directory.  What has no directory in its path
lies in the one that is here. -/
structure Path.LiesIn (p directory : Path) (name : String) : Prop where
  named : p.fileName? = some name
  placed : ∃ above, p.parent? = some above ∧
    (if above = ⟨""⟩ then ⟨"."⟩ else above : Path).components = directory.components

/-- Listed entries follow one another in the order of their names. -/
theorem Listing.pairwise_name {directory : Path} {entries : List DirEntry}
    (h : Listing (· < ·) directory entries) : entries.Pairwise fun a b => a.name < b.name := by
  obtain ⟨children, rfl, hnames, hpairwise⟩ := h
  refine List.pairwise_map.mpr (hpairwise.imp_of_mem fun {a b} ha hb h => ?_)
  rwa [DirEntry.name_named _ (hnames a ha), DirEntry.name_named _ (hnames b hb)]

namespace MemoryFiles

theorem parentKey_components (above : Path) : parentKey above.components.reverse =
    (if above = ⟨""⟩ then ⟨"."⟩ else above : Path).components := by
  have hhere : (Path.mk ".").components = here := by decide
  unfold parentKey
  by_cases hempty : above = ⟨""⟩
  · simp [hempty, Path.components_eq_nil_iff.mpr rfl, hhere]
  · simp [hempty, Path.components_eq_nil_iff]

/-- What lies in a directory, by components. -/
theorem liesIn_iff {p directory : Path} {name : String} :
    p.LiesIn directory name ↔ isName name = true ∧
      ∃ above, parentKey above = directory.components ∧ p.components = (name :: above).reverse := by
  constructor
  · rintro ⟨hname, above, hparent, hplaced⟩
    obtain ⟨above', hparent', hcomponents⟩ := Path.exists_parent_of_fileName? hname
    cases hparent.symm.trans hparent'
    refine ⟨?_, above.components.reverse, (parentKey_components above).trans hplaced, ?_⟩
    · simpa [isName, and_assoc] using (Path.fileName?_eq_some_iff.mp hname).2
    · simpa using hcomponents
  · rintro ⟨hname, above, hkey, hcomponents⟩
    rw [List.reverse_cons] at hcomponents
    have hfileName : p.fileName? = some name := by
      refine Path.fileName?_eq_some_iff.mpr ⟨by simp [hcomponents], ?_⟩
      simpa [isName, and_assoc] using hname
    obtain ⟨above', hparent, hcomponents'⟩ := Path.exists_parent_of_fileName? hfileName
    have habove : above'.components = above.reverse :=
      (List.append_inj' (hcomponents'.symm.trans hcomponents) rfl).1
    refine ⟨hfileName, above', hparent, ?_⟩
    rw [← parentKey_components, habove, List.reverse_reverse, hkey]

/-! ## Names kept with a directory -/

theorem isTop_eq_false {name : String} (h : isName name = true) (above : List String) :
    isTop (name :: above) = false := by
  simp only [isName, ne_eq, Bool.and_eq_true, decide_eq_true_eq] at h
  simp [isTop, h.1.1, h.1.2]

/-- An entry with a name is not the directory that is created above another entry. -/
theorem parentKey_ne_of_isName {name : String} {above below : List String}
    (hname : isName name = true) (hne : name :: above ≠ below) :
    parentKey below ≠ (name :: above).reverse := by
  unfold parentKey
  split
  · intro heq
    have hdot : name :: above = ["."] := by
      rw [← List.reverse_inj, ← heq]
      rfl
    cases hdot
    cases hname
  · exact fun heq => hne (List.reverse_inj.mp heq).symm

/-- Directories keep the names of what lies in them and no others, but for one entry,
which is given backwards and may be left to name. -/
structure Accurate (but : List String) (m : MemoryFiles) : Prop where
  joined : Joined but m
  complete {name : String} {above : List String} {names : Std.TreeSet String} :
    name :: above ≠ but → isName name = true → (name :: above).reverse ∈ m.entries →
      m.entries[parentKey above]? = some (.directory names) → name ∈ names
  sound {key : List String} {names : Std.TreeSet String} {name : String} :
    m.entries[key]? = some (.directory names) → name ∈ names →
      isName name = true ∧ ∃ above, parentKey above = key ∧ (name :: above).reverse ∈ m.entries

/-- The names of a directory are those of the entries that lie in it. -/
theorem Accurate.mem_iff {m : MemoryFiles} (hm : Accurate [] m) {key : List String}
    {names : Std.TreeSet String} (h : m.entries[key]? = some (.directory names)) {name : String} :
    name ∈ names ↔ isName name = true ∧
      ∃ above, parentKey above = key ∧ (name :: above).reverse ∈ m.entries := by
  refine ⟨hm.sound h, ?_⟩
  rintro ⟨hname, above, rfl, hmem⟩
  exact hm.complete (List.cons_ne_nil _ _) hname hmem h

/-- A directory to which a name was added was one before, and has all the names. -/
theorem directory_of_addName {name : String} {entry : MemoryEntry} {names : Std.TreeSet String}
    (h : addName name entry = .directory names) :
    (isName name = true → name ∈ names) ∧ ∃ old, entry = .directory old ∧ ∀ n ∈ old, n ∈ names := by
  unfold addName at h
  split at h
  · rename_i old
    split at h <;> rename_i hname <;> cases h
    · exact ⟨fun _ => by simp, _, rfl, fun n hn => by simp [hn]⟩
    · exact ⟨fun h => absurd h hname, _, rfl, fun n hn => hn⟩
  · rename_i hentry
    exact absurd h (hentry names)

/-- Once an entry is named in the directory above it, that directory is left to name if it
was created. -/
theorem Accurate.enlist {name : String} {above but : List String} {m : MemoryFiles}
    (hm : Accurate (name :: above) m) (hstored : (name :: above).reverse ∈ m.entries)
    (hbut : parentKey above ∈ m.entries ∨ above = but) :
    Accurate but (enlist name (parentKey above) m) where
  joined := hm.joined.enlist hbut
  complete {name' above' names} hne hname hmem hnames := by
    have hold : (name' :: above').reverse ∈ m.entries := by
      rcases mem_enlist.mp hmem with hparent | hold
      · rcases hbut with hthere | rfl
        · rwa [← hparent]
        · exact absurd hparent (parentKey_ne_of_isName hname hne)
      · exact hold
    rw [getElem?_enlist] at hnames
    split at hnames
    · rename_i hkey
      obtain ⟨hadded, old, hentry, hkept⟩ := directory_of_addName (Option.some.inj hnames)
      by_cases hsame : name' :: above' = name :: above
      · cases hsame
        exact hadded hname
      · -- the directory is no new one, for all other entries are joined
        have hthere := (hm.joined name' above' hsame hold).resolve_left
          (by simp [isTop_eq_false hname])
        obtain ⟨entry, hfound⟩ := exists_entry hthere
        rw [hfound, Option.getD_some] at hentry
        rw [hentry] at hfound
        exact hkept _ (hm.complete hsame hname hold hfound)
    · rename_i hkey
      have hsame : name' :: above' ≠ name :: above := by
        rintro ⟨rfl, rfl⟩
        exact hkey rfl
      exact hm.complete hsame hname hold hnames
  sound {key names other} hnames hother := by
    rcases mem_of_enlist hnames hother with ⟨rfl, hname, hkey⟩ | ⟨old, hold, hmem⟩
    · exact ⟨hname, above, hkey, mem_enlist.mpr (Or.inr hstored)⟩
    · obtain ⟨hname, above', hkey, hmem⟩ := hm.sound hold hmem
      exact ⟨hname, above', hkey, mem_enlist.mpr (Or.inr hmem)⟩

/-- Once an entry is linked, nothing is left to name. -/
theorem Accurate.linkUp {path : List String} {m : MemoryFiles} (hm : Accurate path m)
    (hstored : path ≠ [] → path.reverse ∈ m.entries) : Accurate [] (linkUp path m) := by
  induction path generalizing m with
  | nil => exact hm
  | cons name above ih =>
    have hstored := hstored (List.cons_ne_nil _ _)
    have hjoined := hm.joined.linkUp
    rw [linkUp_cons] at hjoined ⊢
    split
    · rename_i htop
      rw [if_pos htop] at hjoined
      refine ⟨hjoined, fun {name' above' names} _ hname hmem hnames => ?_, hm.sound⟩
      refine hm.complete ?_ hname hmem hnames
      rintro ⟨rfl, rfl⟩
      simp [isTop_eq_false hname] at htop
    split
    · rename_i hthere
      exact hm.enlist hstored (Or.inl hthere)
    · refine ih (hm.enlist hstored (Or.inr rfl)) fun hne => mem_enlist.mpr (Or.inl ?_)
      simp [parentKey, hne]

theorem Accurate.insert {m : MemoryFiles} (hm : Accurate [] m) (p : Path) {entry : MemoryEntry}
    (hentry : ∀ names, entry = .directory names →
      (∀ name, name ∉ names) ∧ p.components ∉ m.entries) :
    Accurate p.components.reverse ⟨m.entries.insert p.components entry⟩ where
  joined := hm.joined.insert p entry
  complete {name above names} hne hname hmem hnames := by
    have hold : (name :: above).reverse ∈ m.entries := by
      rw [Std.TreeMap.mem_insert, Std.compare_eq_iff_eq] at hmem
      refine hmem.resolve_left fun heq => hne ?_
      rw [heq, List.reverse_reverse]
    rw [Std.TreeMap.getElem?_insert] at hnames
    split at hnames
    · -- nothing lies in a directory that was not there
      rename_i hkey
      have hthere := (hm.joined name above (List.cons_ne_nil _ _) hold).resolve_left
        (by simp [isTop_eq_false hname])
      rw [← Std.compare_eq_iff_eq.mp hkey] at hthere
      exact absurd hthere (hentry _ (Option.some.inj hnames)).2
    · exact hm.complete (List.cons_ne_nil _ _) hname hold hnames
  sound {key names name} hnames hname := by
    rw [Std.TreeMap.getElem?_insert] at hnames
    split at hnames
    · exact absurd hname ((hentry _ (Option.some.inj hnames)).1 name)
    · obtain ⟨hisName, above, hkey, hmem⟩ := hm.sound hnames hname
      exact ⟨hisName, above, hkey, Std.TreeMap.mem_insert.mpr (Or.inr hmem)⟩

/-- In every tree that was built, directories name what lies in them. -/
theorem Built.accurate {m : MemoryFiles} (h : Built m) : Accurate [] m := by
  have hput {m : MemoryFiles} (p : Path) {entry : MemoryEntry}
      (hentry : ∀ names, entry = .directory names →
        (∀ name, name ∉ names) ∧ p.components ∉ m.entries)
      (hm : Accurate [] m) : Accurate [] (m.put p entry) := by
    refine (hm.insert p hentry).linkUp fun _ => ?_
    rw [List.reverse_reverse]
    exact Std.TreeMap.mem_insert_self
  induction h with
  | empty =>
    refine ⟨Built.empty.tidy_joined.2, fun {name above names} _ hname hmem _ => ?_,
      fun {key names name} hnames hname => ?_⟩
    · exact absurd (eq_here_of_mem_empty hmem).symm
        (parentKey_ne_of_isName hname (List.cons_ne_nil _ _))
    · cases (eq_of_getElem?_empty hnames).2
      exact absurd hname Std.TreeSet.not_mem_emptyc
  | addFile path content _ ih => exact hput path nofun ih
  | addLink path target _ ih => exact hput path nofun ih
  | @addDirectory m path _ ih =>
    unfold MemoryFiles.addDirectory
    split
    · rename_i entry hfound
      refine Accurate.linkUp ⟨fun name above _ => ih.joined name above nofun,
        fun _ => ih.complete (List.cons_ne_nil _ _), ih.sound⟩ fun _ => ?_
      rw [List.reverse_reverse]
      exact Std.TreeMap.mem_iff_isSome_getElem?.mpr (by rw [← find?, hfound]; rfl)
    · rename_i hfound
      refine hput path (fun names h => ?_) ih
      cases h
      refine ⟨fun name => Std.TreeSet.not_mem_emptyc, fun hthere => ?_⟩
      rw [Std.TreeMap.mem_iff_isSome_getElem?, ← find?, hfound] at hthere
      cases hthere

/-! ## Trees after additions -/

/-- What can be added to a tree. -/
inductive Addition where
  | file (path : Path) (content : ByteArray)
  | directory (path : Path)
  | link (path : Path) (target : String)
  | written (path : Path) (content : ByteArray)

namespace Addition

/-- Where something is added. -/
def path : Addition → Path
  | .file path _ | .directory path | .link path _ | .written path _ => path

/-- The tree with the addition. -/
def apply (m : MemoryFiles) : Addition → MemoryFiles
  | .file path content => m.addFile path content
  | .directory path => m.addDirectory path
  | .link path target => m.addLink path target
  | .written path content => (FileSystem.write m path content).2

end Addition

/-- The tree that additions make, one after the other. -/
def after (additions : List Addition) : MemoryFiles := additions.foldl Addition.apply empty

/-- What holds of a new tree and is kept by each addition holds after all of them. -/
theorem after_induction {P : MemoryFiles → Prop} {additions : List Addition} (hempty : P empty)
    (hkept : ∀ addition ∈ additions, ∀ m, P m → P (addition.apply m)) : P (after additions) := by
  have hfold (m : MemoryFiles) (hm : P m) : P (additions.foldl Addition.apply m) := by
    induction additions generalizing m with
    | nil => exact hm
    | cons addition rest ih =>
      exact ih (fun other hother => hkept other (List.mem_cons_of_mem _ hother)) _
        (hkept addition (List.mem_cons_self ..) m hm)
  exact hfold empty hempty

theorem built_after (additions : List Addition) : Built (after additions) := by
  refine after_induction .empty fun addition _ m hm => ?_
  cases addition with
  | file path content => exact hm.addFile path content
  | directory path => exact hm.addDirectory path
  | link path target => exact hm.addLink path target
  | written path content => exact hm.addFile path content

end MemoryFiles

/-- A path of names alone, which may start at the root. -/
def Path.IsOrdinary (p : Path) : Prop := ∀ name ∈ p.components, name = "/" ∨ Path.IsName name

instance (p : Path) : Decidable p.IsOrdinary :=
  inferInstanceAs (Decidable (∀ name ∈ p.components, name = "/" ∨ Path.IsName name))

namespace MemoryFiles

/-- Nothing was added along a dot. -/
def Dotless (m : MemoryFiles) : Prop := ∀ key ∈ m.entries, key = here ∨ "." ∉ key

theorem Dotless.linkUp {m : MemoryFiles} (hm : m.Dotless) {path : List String}
    (hpath : "." ∉ path) : (linkUp path m).Dotless := by
  refine linkUp_induction path (fun name above m hsuffix _ hm key hkey => ?_) hm
  rcases mem_enlist.mp hkey with rfl | hkey
  · unfold parentKey
    split
    · exact Or.inl rfl
    · refine Or.inr fun hdot => hpath (hsuffix.subset ?_)
      exact List.mem_cons_of_mem _ (List.mem_reverse.mp hdot)
  · exact hm key hkey

theorem Dotless.put {m : MemoryFiles} (hm : m.Dotless) {p : Path} (hp : "." ∉ p.components)
    (entry : MemoryEntry) : (m.put p entry).Dotless := by
  refine Dotless.linkUp (fun key hkey => ?_) (by rwa [List.mem_reverse])
  rw [Std.TreeMap.mem_insert, Std.compare_eq_iff_eq] at hkey
  rcases hkey with rfl | hkey
  · exact Or.inr hp
  · exact hm key hkey

theorem dotless_after {additions : List Addition}
    (hordinary : ∀ addition ∈ additions, addition.path.IsOrdinary) :
    (after additions).Dotless := by
  refine after_induction (fun _ hkey => Or.inl (eq_here_of_mem_empty hkey))
    fun addition haddition m hm => ?_
  have hdot : "." ∉ addition.path.components := fun hmem =>
    (hordinary addition haddition _ hmem).elim (by decide) fun h => h.ne_dot rfl
  cases addition with
  | file path content => exact hm.put hdot _
  | directory path =>
    change (m.addDirectory path).Dotless
    unfold addDirectory
    split
    · exact hm.linkUp (by rwa [List.mem_reverse])
    · exact hm.put hdot _
  | link path target => exact hm.put hdot _
  | written path content => exact hm.put hdot _

/-! ## Listings -/

/-- A directory other than the one that is here has a place for each name. -/
theorem components_of_liesIn {p directory : Path} {name : String} (h : p.LiesIn directory name)
    (hhere : directory.components ≠ here) : p.components = directory.components ++ [name] := by
  obtain ⟨_, above, hkey, hcomponents⟩ := liesIn_iff.mp h
  unfold parentKey at hkey
  split at hkey
  · exact absurd hkey.symm hhere
  · rw [hcomponents, List.reverse_cons, hkey]

/-- The names of a directory are those of what lies in it. -/
theorem Built.mem_names_iff {m : MemoryFiles} (hm : Built m) {directory : Path}
    {names : Std.TreeSet String} (h : m.find? directory = some (.directory names)) {name : String} :
    name ∈ names ↔ ∃ path entry, path.LiesIn directory name ∧ m.find? path = some entry := by
  constructor
  · intro hmem
    have hplain : Path.IsName name := hm.tidy_joined.1.names h name hmem
    obtain ⟨hname, above, hkey, hstored⟩ := (hm.accurate.mem_iff h).mp hmem
    have hspelled : ∃ path : Path, path.components = (name :: above).reverse := by
      by_cases habove : above = []
      · refine ⟨(Path.mk "").join name, ?_⟩
        rw [Path.components_join_name _ hplain, Path.components_eq_nil_iff.mpr rfl, habove]
        rfl
      · refine ⟨directory.join name, ?_⟩
        rw [Path.components_join_name _ hplain, ← hkey]
        simp [parentKey, habove]
    obtain ⟨path, hcomponents⟩ := hspelled
    obtain ⟨entry, hentry⟩ := exists_entry hstored
    rw [← hcomponents] at hentry
    exact ⟨path, entry, liesIn_iff.mpr ⟨hname, above, hkey, hcomponents⟩, hentry⟩
  · rintro ⟨path, entry, hlies, hfound⟩
    obtain ⟨hname, above, hkey, hcomponents⟩ := liesIn_iff.mp hlies
    refine (hm.accurate.mem_iff h).mpr ⟨hname, above, hkey, ?_⟩
    rw [← hcomponents, Std.TreeMap.mem_iff_isSome_getElem?, ← find?, hfound]
    rfl

/-- Whatever lies in a directory is listed under its name, as what is found at the path of
the directory with the name behind it. -/
theorem Built.mem_list_iff {m : MemoryFiles} (hm : Built m) {directory : Path}
    {entries : List DirEntry} (h : FileSystem.list m directory = .ok entries) {e : DirEntry} :
    e ∈ entries ↔ ∃ path name entry, path.LiesIn directory name ∧ m.find? path = some entry ∧
      e = ⟨directory.join name, kindOf (m.find? (directory.join name))⟩ := by
  obtain ⟨names, hnames⟩ := directory_of_list h
  cases h.symm.trans (list_of_directory hnames)
  rw [List.map_map, List.mem_map]
  constructor
  · rintro ⟨name, hname, rfl⟩
    obtain ⟨path, entry, hlies, hfound⟩ :=
      (hm.mem_names_iff hnames).mp (Std.TreeSet.mem_toList.mp hname)
    exact ⟨path, name, entry, hlies, hfound, rfl⟩
  · rintro ⟨path, name, entry, hlies, hfound, rfl⟩
    exact ⟨name, Std.TreeSet.mem_toList.mpr ((hm.mem_names_iff hnames).mpr
      ⟨path, entry, hlies, hfound⟩), rfl⟩

/-- What lies in a directory has a name, by which its path goes on. -/
theorem Built.components_join {m : MemoryFiles} (hm : Built m) {directory path : Path}
    {name : String} {entry : MemoryEntry} (hdirectory : kindOf (m.find? directory) = .directory)
    (hlies : path.LiesIn directory name) (hfound : m.find? path = some entry) :
    (directory.join name).components = directory.components ++ [name] := by
  obtain ⟨names, hnames⟩ := directory_of_kindOf hdirectory
  exact Path.components_join_name _ (hm.tidy_joined.1.names hnames name
    ((hm.mem_names_iff hnames).mpr ⟨path, entry, hlies, hfound⟩))

/-- The path by which something is listed leads to it, but in the directory that is here. -/
theorem Built.find?_join {m : MemoryFiles} (hm : Built m) {directory path : Path}
    {name : String} {entry : MemoryEntry} (hdirectory : kindOf (m.find? directory) = .directory)
    (hhere : directory.components ≠ here) (hlies : path.LiesIn directory name)
    (hfound : m.find? path = some entry) : m.find? (directory.join name) = some entry := by
  rwa [find?, hm.components_join hdirectory hlies hfound, ← components_of_liesIn hlies hhere]

/-- The path by which something is listed in the directory that is here leads nowhere. -/
theorem Built.find?_join_here {m : MemoryFiles} (hm : Built m) (hdotless : m.Dotless)
    {directory path : Path} {name : String} {entry : MemoryEntry}
    (hdirectory : kindOf (m.find? directory) = .directory) (hhere : directory.components = here)
    (hlies : path.LiesIn directory name) (hfound : m.find? path = some entry) :
    m.find? (directory.join name) = none := by
  rw [find?, hm.components_join hdirectory hlies hfound, hhere]
  refine Std.TreeMap.getElem?_eq_none fun hmem => ?_
  rcases hdotless _ hmem with heq | hdot
  · cases heq
  · exact hdot (List.mem_cons_self ..)

theorem openFile_of_file {m : MemoryFiles} {p : Path} {bytes : ByteArray}
    (h : m.find? p = some (.file bytes)) : FileSystem.openFile m p = .ok (.ok bytes) := by
  change (m.content p).map Except.ok = _
  rw [content, h]
  rfl

theorem openFile_of_none {m : MemoryFiles} {p : Path} (h : m.find? p = none) :
    FileSystem.openFile m p = .error (notFound p) := by
  change (m.content p).map Except.ok = _
  rw [content, h]
  rfl

/-- After additions along ordinary paths, a directory lists what lies in it, each entry once
and in the order of the names.  Unless it is the directory that is here, each entry is
listed as what it is, and files are opened by the paths that are listed.  In the directory
that is here, each entry is listed as a file, which cannot be opened. -/
theorem list_after {additions : List Addition}
    (hordinary : ∀ addition ∈ additions, addition.path.IsOrdinary) {directory : Path}
    (hdirectory : kindOf ((after additions).find? directory) = .directory) :
    let m := after additions
    ∃ entries, FileSystem.list m directory = .ok entries ∧
      entries.Pairwise (fun a b => a.name < b.name) ∧
      (directory.components ≠ here →
        (∀ e, e ∈ entries ↔ ∃ path name entry, path.LiesIn directory name ∧
          m.find? path = some entry ∧ e = ⟨directory.join name, kindOf (some entry)⟩) ∧
        ∀ path name content, path.LiesIn directory name → m.find? path = some (.file content) →
          FileSystem.openFile m (directory.join name) = .ok (.ok content)) ∧
      (directory.components = here →
        (∀ e, e ∈ entries ↔ ∃ path name entry, path.LiesIn directory name ∧
          m.find? path = some entry ∧ e = ⟨directory.join name, .file⟩) ∧
        ∀ e ∈ entries, FileSystem.openFile m e.path = .error (notFound e.path)) := by
  intro m
  have hbuilt : Built m := built_after additions
  obtain ⟨names, hnames⟩ := directory_of_kindOf hdirectory
  have hlist := list_of_directory hnames
  refine ⟨_, hlist, (hbuilt.tidy_joined.1.listing hlist).pairwise_name, fun hhere => ?_,
    fun hhere => ?_⟩
  · refine ⟨fun e => (hbuilt.mem_list_iff hlist).trans ?_, fun path name content hlies hfound =>
      openFile_of_file (hbuilt.find?_join hdirectory hhere hlies hfound)⟩
    refine exists_congr fun path => exists_congr fun name => exists_congr fun entry =>
      and_congr_right fun hlies => and_congr_right fun hfound => ?_
    rw [hbuilt.find?_join hdirectory hhere hlies hfound]
  · have hnowhere {path : Path} {name : String} {entry : MemoryEntry}
        (hlies : path.LiesIn directory name) (hfound : m.find? path = some entry) :=
      hbuilt.find?_join_here (dotless_after hordinary) hdirectory hhere hlies hfound
    refine ⟨fun e => (hbuilt.mem_list_iff hlist).trans ?_, fun e he => ?_⟩
    · refine exists_congr fun path => exists_congr fun name => exists_congr fun entry =>
        and_congr_right fun hlies => and_congr_right fun hfound => ?_
      rw [hnowhere hlies hfound]
      rfl
    · obtain ⟨path, name, entry, hlies, hfound, rfl⟩ := (hbuilt.mem_list_iff hlist).mp he
      exact openFile_of_none (hnowhere hlies hfound)

/-- A project with a link, beside a note. -/
def sketch : List Addition :=
  [.file ⟨"proj/src/main"⟩ "run".toUTF8, .directory ⟨"proj/src"⟩, .link ⟨"proj/vendor"⟩ "../shared",
    .written ⟨"notes"⟩ "later".toUTF8]

/-- The project lists its directory and its link as what they are, and what it lists below the
directory can be opened.  The directory that is here lists the project as a file. -/
theorem list_after_sketch :
    (∀ addition ∈ sketch, addition.path.IsOrdinary) ∧
      (kindOf ((after sketch).find? ⟨"proj"⟩) = .directory ∧
        ∃ entries, FileSystem.list (after sketch) ⟨"proj"⟩ = .ok entries ∧
          ⟨⟨"proj/src"⟩, .directory⟩ ∈ entries ∧ ⟨⟨"proj/vendor"⟩, .link "../shared"⟩ ∈ entries) ∧
      (kindOf ((after sketch).find? ⟨"proj/src"⟩) = .directory ∧
        FileSystem.openFile (after sketch) ⟨"proj/src/main"⟩ = .ok (.ok "run".toUTF8)) ∧
      kindOf ((after sketch).find? ⟨"."⟩) = .directory ∧
        ∃ entries, FileSystem.list (after sketch) ⟨"."⟩ = .ok entries ∧
          ⟨⟨"./proj"⟩, .file⟩ ∈ entries := by
  have hordinary : ∀ addition ∈ sketch, addition.path.IsOrdinary := by decide +kernel
  have hproject : kindOf ((after sketch).find? ⟨"proj"⟩) = .directory := by decide +kernel
  have hsource : kindOf ((after sketch).find? ⟨"proj/src"⟩) = .directory := by decide +kernel
  have hhere : kindOf ((after sketch).find? ⟨"."⟩) = .directory := by decide +kernel
  obtain ⟨_, hnames⟩ := directory_of_kindOf hproject
  obtain ⟨_, hnames'⟩ := directory_of_kindOf hsource
  refine ⟨hordinary, ⟨hproject, ?_⟩, ⟨hsource, ?_⟩, hhere, ?_⟩
  · obtain ⟨entries, hlist, _, helsewhere, _⟩ := list_after hordinary hproject
    have hexact := (helsewhere (by decide)).1
    exact ⟨entries, hlist,
      (hexact _).mpr ⟨⟨"proj/src"⟩, "src", _, ⟨by decide, ⟨"proj"⟩, by decide, by decide⟩, hnames',
        by rfl⟩,
      (hexact _).mpr ⟨⟨"proj/vendor"⟩, "vendor", .link "../shared",
        ⟨by decide, ⟨"proj"⟩, by decide, by decide⟩, by rfl, by decide⟩⟩
  · obtain ⟨entries, _, _, helsewhere, _⟩ := list_after hordinary hsource
    exact (helsewhere (by decide)).2 ⟨"proj/src/main"⟩ "main" _
      ⟨by decide, ⟨"proj/src"⟩, by decide, by decide⟩ (by rfl)
  · obtain ⟨entries, hlist, _, _, hmisreported⟩ := list_after hordinary hhere
    exact ⟨entries, hlist, ((hmisreported (by decide)).1 _).mpr
      ⟨⟨"proj"⟩, "proj", _, ⟨by decide, ⟨""⟩, by decide, by decide⟩, hnames, by decide⟩⟩

/-- The directory that is here lists a directory as a file, and a file at a path where there
is none. -/
theorem list_here_misreports :
    let m := after [.directory ⟨"src"⟩, .file ⟨"notes"⟩ "later".toUTF8]
    FileSystem.list m ⟨"."⟩ = .ok [⟨⟨"./notes"⟩, .file⟩, ⟨⟨"./src"⟩, .file⟩] ∧
      (Path.mk "src").parent? = some ⟨""⟩ ∧ kindOf (m.find? ⟨"src"⟩) = .directory ∧
      m.content ⟨"notes"⟩ = .ok "later".toUTF8 ∧
      FileSystem.openFile m ⟨"./notes"⟩ = .error (notFound ⟨"./notes"⟩) := by
  decide +kernel

end MemoryFiles

end Cascade
