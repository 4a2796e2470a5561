import Cascade.Proofs.Files.Lawful
import Cascade.Proofs.Files.Path

/-!
# Trees of files that were built

`Built` are the trees that adding entries makes.  In these a directory lists
nothing but names, and whatever lies below the root or below the directory that
is here lies in a directory that is there (`Tidy`).
-/

namespace Cascade.MemoryFiles

/-! ## Linking -/

theorem exists_entry {m : MemoryFiles} {key : List String} (h : key ∈ m.entries) :
    ∃ entry, m.entries[key]? = some entry :=
  Option.isSome_iff_exists.mp (Std.TreeMap.mem_iff_isSome_getElem?.mp h)

theorem mem_enlist {name : String} {parent : List String} {m : MemoryFiles} {key : List String} :
    key ∈ (enlist name parent m).entries ↔ parent = key ∨ key ∈ m.entries := by
  rw [enlist, Std.TreeMap.mem_insert, Std.compare_eq_iff_eq]

/-- What holds of a tree holds when something is linked, if creating or changing
one directory keeps it. -/
theorem linkUp_induction {P : MemoryFiles → Prop} (path : List String)
    (henlist : ∀ name above m, name :: above <:+ path → isTop (name :: above) = false → P m →
      P (enlist name (parentKey above) m)) {m : MemoryFiles} (hm : P m) : P (linkUp path m) := by
  induction path generalizing m with
  | nil => exact hm
  | cons name above ih =>
    rw [linkUp_cons]
    split
    · exact hm
    · rename_i htop
      have hnext : P (enlist name (parentKey above) m) :=
        henlist name above m List.suffix_rfl (by simpa using htop) hm
      split
      · exact hnext
      · exact ih (fun name' above' m' h => henlist name' above' m' (h.trans (List.suffix_cons ..)))
          hnext

/-! ## Trees in order -/

/-- Every entry but one, which is given backwards, is in no directory or in one
that is there. -/
def Joined (but : List String) (m : MemoryFiles) : Prop :=
  ∀ name above, name :: above ≠ but → (name :: above).reverse ∈ m.entries →
    isTop (name :: above) = true ∨ parentKey above ∈ m.entries

/-- A tree of directories that list nothing but names. -/
structure Tidy (m : MemoryFiles) : Prop where
  names {key : List String} {names : Std.TreeSet String} :
    m.entries[key]? = some (.directory names) → ∀ name ∈ names, Path.IsName name
  /-- Nothing lies in the directory without a component. -/
  nameless {names : Std.TreeSet String} :
    m.entries[([] : List String)]? = some (.directory names) → ∀ name, name ∉ names
  based : here ∈ m.entries

theorem isName_of_isName {p : Path} {name : String} (hmem : name ∈ p.components)
    (h : isName name = true) : Path.IsName name := by
  obtain ⟨hempty, hplain⟩ := Path.plain_of_mem_components hmem
  simp only [isName, ne_eq, Bool.and_eq_true, decide_eq_true_eq] at h
  exact ⟨hempty, hplain.resolve_left h.1.1, h.1.2, h.2⟩

/-- The names of a directory to which one was added. -/
theorem mem_addName {name : String} {entry : MemoryEntry} {names : Std.TreeSet String}
    (h : addName name entry = .directory names) {other : String} (hother : other ∈ names) :
    (other = name ∧ isName name = true) ∨ ∃ old, entry = .directory old ∧ other ∈ old := by
  unfold addName at h
  split at h
  · rename_i old
    split at h
    · rename_i hname
      cases h
      rw [Std.TreeSet.mem_insert, Std.compare_eq_iff_eq] at hother
      exact hother.imp (fun heq => ⟨heq.symm, hname⟩) fun hold => ⟨old, rfl, hold⟩
    · cases h
      exact Or.inr ⟨_, rfl, hother⟩
  · subst h
    exact Or.inr ⟨_, rfl, hother⟩

/-- What a directory names once a name was added to it or to another one. -/
theorem mem_of_enlist {name : String} {parent key : List String} {m : MemoryFiles}
    {names : Std.TreeSet String}
    (h : (enlist name parent m).entries[key]? = some (.directory names)) {other : String}
    (hother : other ∈ names) : (other = name ∧ isName name = true ∧ parent = key) ∨
      ∃ old, m.entries[key]? = some (.directory old) ∧ other ∈ old := by
  rw [getElem?_enlist] at h
  split at h
  · rename_i hkey
    rcases mem_addName (Option.some.inj h) hother with ⟨rfl, hname⟩ | ⟨old, hold, hmem⟩
    · exact Or.inl ⟨rfl, hname, hkey⟩
    · cases hfound : m.entries[key]? with
      | none =>
        rw [hfound] at hold
        cases hold
        exact absurd hmem Std.TreeSet.not_mem_emptyc
      | some entry =>
        rw [hfound] at hold
        cases hold
        exact Or.inr ⟨old, rfl, hmem⟩
  · exact Or.inr ⟨names, h, hother⟩

theorem parentKey_ne_nil (above : List String) : parentKey above ≠ [] := by
  unfold parentKey
  split
  · exact List.cons_ne_nil _ _
  · rename_i h
    simpa using h

theorem Tidy.enlist {m : MemoryFiles} (hm : m.Tidy) {p : Path} {name : String}
    {parent : List String} (hname : name ∈ p.components) (hparent : parent ≠ []) :
    (enlist name parent m).Tidy where
  names {key names} h other hother := by
    rcases mem_of_enlist h hother with ⟨rfl, hisName, _⟩ | ⟨old, hold, hmem⟩
    · exact isName_of_isName hname hisName
    · exact hm.names hold other hmem
  nameless h := by
    rw [getElem?_enlist, if_neg hparent] at h
    exact hm.nameless h
  based := mem_enlist.mpr (Or.inr hm.based)

theorem Tidy.linkUp {m : MemoryFiles} (hm : m.Tidy) (p : Path) :
    (linkUp p.components.reverse m).Tidy :=
  linkUp_induction _ (fun _ _ _ hsuffix _ h =>
    h.enlist (List.mem_reverse.mp (hsuffix.subset (List.mem_cons_self ..)))
      (parentKey_ne_nil _)) hm

/-- What is joined once a directory above an entry is there. -/
theorem Joined.enlist {name : String} {above but : List String} {m : MemoryFiles}
    (hm : Joined (name :: above) m) (hbut : parentKey above ∈ m.entries ∨ above = but) :
    Joined but (enlist name (parentKey above) m) := by
  intro name' above' hne hmem
  have hold : (name' :: above').reverse ∈ m.entries → isTop (name' :: above') = true ∨
      parentKey above' ∈ (MemoryFiles.enlist name (parentKey above) m).entries := by
    intro hmem
    by_cases hsame : name' :: above' = name :: above
    · cases hsame
      exact Or.inr (mem_enlist.mpr (Or.inl rfl))
    · exact (hm name' above' hsame hmem).imp id fun h => mem_enlist.mpr (Or.inr h)
  rcases mem_enlist.mp hmem with hparent | hmem
  · rcases hbut with hthere | rfl
    · exact hold (hparent ▸ hthere)
    · -- the directory that was created is left to join, but for the one that is here
      unfold parentKey at hparent
      split at hparent
      · have hhere : name' :: above' = ["."] := by
          rw [← List.reverse_inj, ← hparent]
          rfl
        cases hhere
        exact Or.inl rfl
      · exact absurd (List.reverse_inj.mp hparent.symm) hne
  · exact hold hmem

/-- Once an entry is linked, all entries are joined. -/
theorem Joined.linkUp {path : List String} {m : MemoryFiles} (hm : Joined path m) :
    Joined [] (linkUp path m) := by
  induction path generalizing m with
  | nil => exact hm
  | cons name above ih =>
    rw [linkUp_cons]
    split
    · rename_i htop
      intro name' above' _ hmem
      by_cases hsame : name' :: above' = name :: above
      · exact Or.inl (hsame ▸ htop)
      · exact hm name' above' hsame hmem
    split
    · rename_i hparent
      exact hm.enlist (Or.inl hparent)
    · exact ih (hm.enlist (Or.inr rfl))

/-! ## Trees that were built -/

/-- Trees that adding entries makes. -/
inductive Built : MemoryFiles → Prop
  | empty : Built empty
  | addFile {m : MemoryFiles} (path : Path) (content : ByteArray) :
    Built m → Built (m.addFile path content)
  | addLink {m : MemoryFiles} (path : Path) (target : String) :
    Built m → Built (m.addLink path target)
  | addDirectory {m : MemoryFiles} (path : Path) : Built m → Built (m.addDirectory path)

theorem Tidy.insert {m : MemoryFiles} (hm : m.Tidy) (key : List String) {entry : MemoryEntry}
    (hentry : ∀ names, entry = .directory names → ∀ name, name ∉ names) :
    Tidy ⟨m.entries.insert key entry⟩ where
  names {key' names} h := by
    rw [Std.TreeMap.getElem?_insert] at h
    split at h
    · exact fun name hname => absurd hname (hentry names (Option.some.inj h) name)
    · exact hm.names h
  nameless h := by
    rw [Std.TreeMap.getElem?_insert] at h
    split at h
    · exact hentry _ (Option.some.inj h)
    · exact hm.nameless h
  based := Std.TreeMap.mem_insert.mpr (Or.inr hm.based)

theorem Joined.insert {m : MemoryFiles} (hm : Joined [] m) (p : Path) (entry : MemoryEntry) :
    Joined p.components.reverse ⟨m.entries.insert p.components entry⟩ := by
  intro name above hne hmem
  rw [Std.TreeMap.mem_insert, Std.compare_eq_iff_eq] at hmem
  rcases hmem with hsame | hmem
  · rw [hsame, List.reverse_reverse] at hne
    exact absurd rfl hne
  · exact (hm name above (List.cons_ne_nil _ _) hmem).imp id fun h =>
      Std.TreeMap.mem_insert.mpr (Or.inr h)

/-- A tree begins as the directory that is here, with nothing in it. -/
theorem eq_of_getElem?_empty {key : List String} {entry : MemoryEntry}
    (h : MemoryFiles.empty.entries[key]? = some entry) : key = here ∧ entry = .directory ∅ := by
  rw [MemoryFiles.empty, Std.TreeMap.getElem?_insert] at h
  split at h
  · rename_i hkey
    cases h
    exact ⟨(Std.compare_eq_iff_eq.mp hkey).symm, rfl⟩
  · cases (Std.TreeMap.getElem?_emptyc).symm.trans h

theorem eq_here_of_mem_empty {key : List String} (h : key ∈ MemoryFiles.empty.entries) :
    key = here := by
  obtain ⟨entry, hentry⟩ := exists_entry h
  exact (eq_of_getElem?_empty hentry).1

/-- Trees that were built are tidy, and all their entries are joined. -/
theorem Built.tidy_joined {m : MemoryFiles} (h : Built m) : m.Tidy ∧ Joined [] m := by
  have hput {m : MemoryFiles} (p : Path) {entry : MemoryEntry}
      (hentry : ∀ names, entry = .directory names → ∀ name, name ∉ names)
      (hm : m.Tidy ∧ Joined [] m) : (m.put p entry).Tidy ∧ Joined [] (m.put p entry) :=
    ⟨(hm.1.insert _ hentry).linkUp p, (hm.2.insert p entry).linkUp⟩
  induction h with
  | empty =>
    have hnone {key : List String} {names : Std.TreeSet String}
        (h : MemoryFiles.empty.entries[key]? = some (.directory names)) (name : String) :
        name ∉ names := by
      cases (eq_of_getElem?_empty h).2
      exact Std.TreeSet.not_mem_emptyc
    refine ⟨⟨fun h name hname => absurd hname (hnone h name), fun h name => hnone h name,
      Std.TreeMap.mem_insert.mpr (Or.inl Std.ReflCmp.compare_self)⟩, fun name above _ hmem => ?_⟩
    have hhere : name :: above = ["."] := by
      rw [← List.reverse_inj, eq_here_of_mem_empty hmem]
      rfl
    cases hhere
    exact Or.inl rfl
  | addFile path content _ ih => exact hput path nofun ih
  | addLink path target _ ih => exact hput path nofun ih
  | @addDirectory m path _ ih =>
    unfold MemoryFiles.addDirectory
    split
    · exact ⟨ih.1.linkUp path, Joined.linkUp fun name above _ => ih.2 name above nofun⟩
    · refine hput path (fun names h name => ?_) ih
      cases h
      exact Std.TreeSet.not_mem_emptyc

end Cascade.MemoryFiles
