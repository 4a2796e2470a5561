import Cascade.Proofs.Digest.Records

/-!
# What a digest reads

Of a tree that can be listed, exactly the files and links that count are collected, each
once, and nothing but these decides the digest (`selection_exact`).  Nothing is asked of
the directories that are excluded: they may even fail to be listed.
-/

namespace Cascade

namespace Digest

section

variable {φ φ' : Type} [FileSystem φ] [FileSystem φ'] {files : φ} {files' : φ'}
  {root root' : Path} {exclusion : Exclusion} {recursive : Bool}

/-- The directories that are entered below a root can be listed, in the order of their
names, and lie no deeper than the walk goes.  So it is below every directory of a tree in
memory (`charted_of_tidy`). -/
structure Charted (files : φ) (root : Path) (exclusion : Exclusion) : Prop where
  listed {names : List String} : Stands files root names .directory → Enters exclusion names →
    ∃ entries, FileSystem.list files (root.descend names) = .ok entries ∧
      Listing (· < ·) (root.descend names) entries
  shallow {names : List String} : Stands files root names .directory → Enters exclusion names →
    names.length < levels files

theorem Charted.wellListed (h : Charted files root exclusion) :
    WellListed (· < ·) files root exclusion := by
  intro names hstands henters entries hlist
  obtain ⟨entries', hlist', hlisting⟩ := h.listed hstands henters
  cases hlist.symm.trans hlist'
  exact hlisting

/-! ## Everything is collected -/

/-- Directories that can be listed are collected. -/
theorem Charted.collect_ok (h : Charted files root exclusion) {depth : Nat}
    {above : List String} (hstands : Stands files root above .directory)
    (henters : Enters exclusion above) (hdepth : levels files ≤ above.length + depth) :
    ∃ found, collect files root exclusion recursive depth (root.descend above) = .ok found := by
  induction depth generalizing above with
  | zero =>
    have hshallow := h.shallow hstands henters
    omega
  | succ depth ih =>
    obtain ⟨_, hlist, children, rfl, hnames, _⟩ := h.listed hstands henters
    rw [collect_succ, hlist]
    change ∃ found, gather _ _ = .ok found
    rw [gather_map]
    refine gather_ok fun ⟨name, kind⟩ hchild => ?_
    have hstands' : Stands files root (above ++ [name]) kind :=
      hstands.entry ⟨hnames _ hchild, _, hlist, List.mem_map_of_mem hchild⟩
    rw [visit_named kind hstands'.isName]
    split
    · exact ⟨_, rfl⟩
    rename_i hcounts
    split
    · rename_i hkind
      subst hkind
      split
      · rw [decide_eq_true rfl, Bool.not_eq_true] at hcounts
        refine ih hstands' (enters_concat.mpr ⟨henters, hcounts⟩) ?_
        rw [List.length_append, List.length_singleton]
        omega
      · exact ⟨_, rfl⟩
    · exact ⟨_, rfl⟩

/-- Of a tree that can be listed, the content is collected, in the order of the names. -/
theorem Charted.collected (h : Charted files root exclusion) (recursive : Bool) :
    ∃ located : List (List String × EntryKind),
      counted files root exclusion recursive = .ok (located.map (spelled root)) ∧
      located.Pairwise (fun x y => x.1 < y.1) ∧
      ∀ x, x ∈ located ↔ Onward recursive [] x.1 ∧ Content files root exclusion x.1 x.2 := by
  obtain ⟨found, hfound⟩ : ∃ found, collect files root exclusion recursive (levels files) root =
      .ok found := h.collect_ok .root enters_nil (Nat.le_add_left _ _)
  obtain ⟨located, rfl, hpairwise, hmem⟩ := located_of_collect levelwise_lt h.wellListed
    .root enters_nil hfound
  exact ⟨located, hfound, hpairwise, hmem⟩

/-- What counts is what was collected. -/
theorem Charted.content_iff (h : Charted files root exclusion)
    {found : List (String × DirEntry)} (hfound : counted files root exclusion true = .ok found)
    {names : List String} {kind : EntryKind} : Content files root exclusion names kind ↔
      (∀ name ∈ names, Path.IsName name) ∧ spelled root (names, kind) ∈ found := by
  obtain ⟨located, hlocated, _, hmem⟩ := h.collected true
  cases hfound.symm.trans hlocated
  constructor
  · intro hcontent
    exact ⟨hcontent.stands.isName, List.mem_map_of_mem
      ((hmem _).mpr ⟨hcontent.onward_iff.mpr (Or.inl rfl), hcontent⟩)⟩
  · rintro ⟨hnames, hspelled⟩
    obtain ⟨y, hy, heq⟩ := List.mem_map.mp hspelled
    have hentry : (⟨root.descend y.1, y.2⟩ : DirEntry) = ⟨root.descend names, kind⟩ :=
      congrArg Prod.snd heq
    have hcontent := ((hmem y).mp hy).2
    have hsame : y.1 = names :=
      (Path.descend_inj hcontent.stands.isName hnames).mp (congrArg DirEntry.path hentry)
    have hkind : y.2 = kind := congrArg DirEntry.kind hentry
    rwa [hsame, hkind] at hcontent

/-! ## Nothing else is read -/

/-- The digests of two trees agree if what counts in them does. -/
theorem Charted.directoryHash_eq (h : Charted files root exclusion)
    (h' : Charted files' root' exclusion)
    (hcontent : ∀ names kind,
      Content files root exclusion names kind ↔ Content files' root' exclusion names kind)
    (hhash : ∀ names, Content files root exclusion names .file →
      fileHash files (root.descend names) = fileHash files' (root'.descend names)) :
    directoryHash files root exclusion recursive =
      directoryHash files' root' exclusion recursive := by
  obtain ⟨located, hlocated, hpairwise, hmem⟩ := h.collected recursive
  obtain ⟨located', hlocated', hpairwise', hmem'⟩ := h'.collected recursive
  have hsame : located = located' := by
    refine eq_of_ordered (r := fun x y => x.1 < y.1) (fun x => List.lt_irrefl x.1)
      (fun _ _ _ => List.lt_trans) hpairwise hpairwise' fun x => ?_
    rw [hmem, hmem', hcontent]
  subst hsame
  have hmessage : directoryMessage files root exclusion recursive =
      directoryMessage files' root' exclusion recursive := by
    rw [directoryMessage_of_counted hlocated, directoryMessage_of_counted hlocated']
    refine gather_eq fun x hx => ?_
    have hx : Content files root exclusion x.1 x.2 :=
      ((hmem x).mp (List.mem_mergeSort.mp hx)).2
    obtain ⟨names, kind⟩ := x
    unfold record spelled
    cases kind with
    | link target => rfl
    | directory => exact absurd rfl hx.leaf
    | file =>
      dsimp only
      rw [hhash names hx]
  rw [directoryHash, directoryHash, hmessage]

/-- Every directory of a tidy tree in memory can be listed. -/
theorem charted_of_tidy {m : MemoryFiles} (ht : m.Tidy)
    (hroot : MemoryFiles.kindOf (m.find? root) = .directory) (exclusion : Exclusion) :
    Charted m root exclusion where
  listed hstands _ := by
    obtain ⟨_, hfind⟩ := MemoryFiles.directory_of_stands hroot hstands
    exact ⟨_, MemoryFiles.list_of_directory hfind,
      ht.listing (MemoryFiles.list_of_directory hfind)⟩
  shallow hstands _ := (MemoryFiles.length_le_of_stands hstands).trans_lt (size_lt_levels m)

/-- Exactly the files and links that count are collected, each once, whatever else there
is; and trees that agree on them have the same digest, or fail in the same way. -/
theorem selection_exact (h : Charted files root exclusion) (h' : Charted files' root' exclusion) :
    (∃ found, counted files root exclusion true = .ok found ∧
      (found.map fun x => x.2.path).Nodup ∧
      ∀ x, x ∈ found ↔
        ∃ names kind, Content files root exclusion names kind ∧ x = spelled root (names, kind)) ∧
    ((∀ names kind,
        Content files root exclusion names kind ↔ Content files' root' exclusion names kind) →
      (∀ names, Content files root exclusion names .file →
        fileHash files (root.descend names) = fileHash files' (root'.descend names)) →
      ∀ recursive, directoryHash files root exclusion recursive =
        directoryHash files' root' exclusion recursive) := by
  refine ⟨?_, fun hcontent hhash _ => h.directoryHash_eq h' hcontent hhash⟩
  obtain ⟨located, hlocated, hpairwise, hmem⟩ := h.collected true
  have hmem' : ∀ x, x ∈ located ↔ Content files root exclusion x.1 x.2 := fun x =>
    (hmem x).trans (and_iff_right_of_imp fun hcontent => hcontent.onward_iff.mpr (Or.inl rfl))
  refine ⟨_, hlocated, ?_, fun x => ?_⟩
  · rw [List.map_map]
    refine List.pairwise_map.mpr (hpairwise.imp_of_mem fun {x y} hx hy hlt hpath => ?_)
    have hnames : x.1 = y.1 := (Path.descend_inj ((hmem' x).mp hx).stands.isName
      ((hmem' y).mp hy).stands.isName).mp hpath
    exact List.lt_irrefl x.1 (hnames ▸ hlt)
  · rw [List.mem_map]
    constructor
    · rintro ⟨⟨names, kind⟩, hy, rfl⟩
      exact ⟨names, kind, (hmem' _).mp hy, rfl⟩
    · rintro ⟨names, kind, hcontent, rfl⟩
      exact ⟨(names, kind), (hmem' _).mpr hcontent, rfl⟩

end

/-- A project, and what version control and a build have left there. -/
def built : MemoryFiles :=
  (((MemoryFiles.empty.addFile ⟨"p/src/a"⟩ "x".toUTF8).addLink ⟨"p/here"⟩ ".").addFile
    ⟨"p/.git/HEAD"⟩ "1".toUTF8).addFile ⟨"p/out/o"⟩ "2".toUTF8

/-- The project after another build, without version control. -/
def rebuilt : MemoryFiles :=
  ((MemoryFiles.empty.addFile ⟨"p/src/a"⟩ "x".toUTF8).addLink ⟨"p/here"⟩ ".").addFile
    ⟨"p/out/log/o"⟩ "3".toUTF8

/-- The pattern `out`. -/
def besidesOut : Exclusion := ⟨[[.literal 'o', .literal 'u', .literal 't']]⟩

theorem directoryHash_rebuilt :
    directoryHash built ⟨"p"⟩ besidesOut true = directoryHash rebuilt ⟨"p"⟩ besidesOut true := by
  have hbuilt : Charted built ⟨"p"⟩ besidesOut :=
    charted_of_tidy (((MemoryFiles.Built.empty.addFile _ _).addLink _ _).addFile _ _
      |>.addFile _ _).tidy_joined.1 (by decide +kernel) _
  have hrebuilt : Charted rebuilt ⟨"p"⟩ besidesOut :=
    charted_of_tidy (((MemoryFiles.Built.empty.addFile _ _).addLink _ _).addFile _ _).tidy_joined.1
      (by decide +kernel) _
  have hfound : counted built ⟨"p"⟩ besidesOut true =
      .ok [("here", ⟨⟨"p/here"⟩, .link "."⟩), ("src/a", ⟨⟨"p/src/a"⟩, .file⟩)] := by decide +kernel
  have hfound' : counted rebuilt ⟨"p"⟩ besidesOut true =
      .ok [("here", ⟨⟨"p/here"⟩, .link "."⟩), ("src/a", ⟨⟨"p/src/a"⟩, .file⟩)] := by decide +kernel
  refine (selection_exact hbuilt hrebuilt).2 (fun names kind => ?_) (fun names h => ?_) true
  · rw [hbuilt.content_iff hfound, hrebuilt.content_iff hfound']
  · have hpath : relative names = "src/a" ∧ (Path.mk "p").descend names = ⟨"p/src/a"⟩ := by
      simpa [spelled] using ((hbuilt.content_iff hfound).mp h).2
    rw [hpath.2]
    decide +kernel

end Digest

end Cascade
