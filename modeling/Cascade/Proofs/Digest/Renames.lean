import Cascade.Proofs.Digest.Identity
import Cascade.Proofs.Digest.Selection

/-!
# Which renames a digest notices

A file or link that moves to where its relative path reads otherwise changes the digest,
whatever characters are in the names (`directoryHash_ne_of_moved`).  A relative path reads
with slashes for backslashes, so that a name with a backslash and the two names around it
read alike: between these a move is not noticed (`directoryHash_backslash`).

Lines are put in order, so a move takes a line out at one place and puts one in at
another.  If the text were the same, the lines in between would be shifted by one, and
each path and content would be followed by the next (`path_eq_of_shift`).
-/

namespace Cascade

namespace Digest

/-! ## Lines that are shifted -/

/-- Between zeros, an end of a content and the path behind it are followed by the next
such, up to the last. -/
theorem eq_of_shift (first : List Char) {between : List (String × String)}
    {content last path : String} (hfirst : '\x00' ∉ first) (hcontent : '\x00' ∉ content.toList)
    (hpath : '\x00' ∉ path.toList)
    (hbetween : ∀ x ∈ between, '\x00' ∉ x.1.toList ∧ '\x00' ∉ x.2.toList)
    (h : first ++ '\x00' :: (content.toList ++ '\n' :: lines between) =
      content.toList ++ '\n' :: (lines between ++ line path last)) :
    first = last.toList ++ '\n' :: path.toList := by
  induction between generalizing first content with
  | nil =>
    have hsplit : content.toList ++ '\n' :: (lines [] ++ line path last) =
        (content.toList ++ '\n' :: path.toList) ++ '\x00' :: (last.toList ++ ['\n']) := by
      simp [line]
    rw [hsplit, Text.append_cons_inj hfirst (by simp [hcontent, hpath])] at h
    obtain ⟨rfl, h⟩ := h
    have hsame : content.toList = last.toList := List.append_cancel_right h
    rw [hsame]
  | cons x between ih =>
    obtain ⟨hnext, hnext'⟩ := hbetween x (List.mem_cons_self ..)
    have hsplit : content.toList ++ '\n' :: (lines (x :: between) ++ line path last) =
        (content.toList ++ '\n' :: x.1.toList) ++
          '\x00' :: (x.2.toList ++ '\n' :: (lines between ++ line path last)) := by
      simp [line]
    have hfree : '\x00' ∉ content.toList ++ '\n' :: x.1.toList := by simp [hcontent, hnext]
    rw [hsplit, Text.append_cons_inj hfirst hfree] at h
    obtain ⟨rfl, h⟩ := h
    refine ih _ hfree hnext' (fun y hy => hbetween y (List.mem_cons_of_mem _ hy)) ?_
    rw [← h]
    simp [line]

/-- A line that moves past others, with another path, leaves the text as it was only if
the paths read alike. -/
theorem path_eq_of_shift {between : List (String × String)} {path path' content : String}
    (hpath : '\x00' ∉ path.toList) (hpath' : '\x00' ∉ path'.toList)
    (hcontent : '\x00' ∉ content.toList)
    (hbetween : ∀ x ∈ between, '\x00' ∉ x.1.toList ∧ '\x00' ∉ x.2.toList)
    (h : line path content ++ lines between = lines between ++ line path' content) :
    path = path' := by
  cases between with
  | nil =>
    simp only [lines_nil, List.append_nil, List.nil_append, line] at h
    exact String.toList_inj.mp ((Text.append_cons_inj hpath hpath').mp h).1
  | cons x between =>
    obtain ⟨hnext, hnext'⟩ := hbetween x (List.mem_cons_self ..)
    simp only [lines_cons, line, List.append_assoc, List.cons_append, List.nil_append] at h
    obtain ⟨hfirst, h⟩ := (Text.append_cons_inj hpath hnext).mp h
    have hshift := eq_of_shift (content.toList ++ '\n' :: x.1.toList)
      (by simp [hcontent, hnext]) hnext' hpath'
      (fun y hy => hbetween y (List.mem_cons_of_mem _ hy)) (by simpa [line] using h)
    have hnames : x.1.toList = path'.toList :=
      (List.cons.inj (List.append_cancel_left hshift)).2
    exact String.toList_inj.mp (hfirst.trans hnames)

/-- The same with what comes before and after. -/
theorem path_eq_of_lines (front between back : List (String × String)) {path path' content : String}
    (hpath : '\x00' ∉ path.toList) (hpath' : '\x00' ∉ path'.toList)
    (hcontent : '\x00' ∉ content.toList)
    (hbetween : ∀ x ∈ between, '\x00' ∉ x.1.toList ∧ '\x00' ∉ x.2.toList)
    (h : lines (front ++ (path, content) :: (between ++ back)) =
      lines (front ++ between ++ (path', content) :: back)) : path = path' := by
  have hsplit : lines front ++ ((line path content ++ lines between) ++ lines back) =
      lines front ++ ((lines between ++ line path' content) ++ lines back) := by simpa using h
  exact path_eq_of_shift hpath hpath' hcontent hbetween
    (List.append_cancel_right (List.append_cancel_left hsplit))

/-! ## Moves -/

/-- The order of the lines: that of the paths, and of the names where these read alike. -/
def Earlier (x y : List String × Item) : Prop :=
  relative x.1 < relative y.1 ∨ (relative x.1 = relative y.1 ∧ x.1 < y.1)

theorem Earlier.irrefl (x : List String × Item) : ¬ Earlier x x := by
  rintro (h | ⟨_, h⟩)
  · exact String.lt_irrefl (relative x.1) h
  · exact List.lt_irrefl x.1 h

theorem Earlier.trans (x y z : List String × Item) (hxy : Earlier x y) (hyz : Earlier y z) :
    Earlier x z := by
  unfold Earlier at *
  rcases hxy with hxy | ⟨hxy, hnames⟩
  · rcases hyz with hyz | ⟨hyz, _⟩
    · exact Or.inl (String.lt_trans hxy hyz)
    · exact Or.inl (hyz ▸ hxy)
  · rcases hyz with hyz | ⟨hyz, hnames'⟩
    · exact Or.inl (hxy ▸ hyz)
    · exact Or.inr ⟨hxy.trans hyz, List.lt_trans hnames hnames'⟩

/-- A list in order without one of its members. -/
theorem exists_split {members : List (List String × Item)} (hordered : members.Pairwise Earlier)
    {x : List String × Item} (hx : x ∈ members) :
    ∃ front back, members = front ++ x :: back ∧ (front ++ back).Pairwise Earlier ∧
      ∀ y, y ∈ front ++ back ↔ y ∈ members ∧ y ≠ x := by
  obtain ⟨front, back, rfl⟩ := List.append_of_mem hx
  have hsublist : (front ++ back).Sublist (front ++ x :: back) :=
    (List.sublist_cons_self x back).append_left front
  have hnodup : (front ++ x :: back).Nodup :=
    hordered.imp fun {y z} (hyz : Earlier y z) (heq : y = z) => Earlier.irrefl y (heq ▸ hyz)
  refine ⟨front, back, rfl, hordered.sublist hsublist, fun y => ?_⟩
  have hnot : x ∉ front ++ back := (List.nodup_middle.mp hnodup).notMem
  constructor
  · exact fun hy => ⟨hsublist.subset hy, fun heq => hnot (heq ▸ hy)⟩
  · rintro ⟨hy, hne⟩
    rcases List.mem_append.mp hy with hy | hy
    · exact List.mem_append_left _ hy
    · exact List.mem_append_right _ (List.mem_of_ne_of_mem hne hy)

/-- One file or link has moved to names that were not in use. -/
structure Moved (before after : Set (List String × Item)) (old new : List String) (item : Item) :
    Prop where
  there : (old, item) ∈ before
  unused : ∀ other, (new, other) ∉ before
  moved : after = insert (new, item) (before \ {(old, item)})

/-- A file or link without zeros in its names and its target. -/
structure ZeroFree (x : List String × Item) : Prop where
  names : ∀ name ∈ x.1, '\x00' ∉ name.toList
  target : ∀ target, x.2 = .link target → '\x00' ∉ target.toList

theorem ZeroFree.pathAndText {x : List String × Item} (h : ZeroFree x) :
    '\x00' ∉ (pathAndText x).1.toList ∧ '\x00' ∉ (pathAndText x).2.toList :=
  ⟨not_mem_relative h.names, Item.not_mem_text (by decide) (by decide) h.target⟩

theorem zeroFree_link {names : List String} {target : String}
    (hnames : ∀ name ∈ names, '\x00' ∉ name.toList) (htarget : '\x00' ∉ target.toList) :
    ZeroFree (names, .link target) := by
  refine ⟨hnames, fun target' h => ?_⟩
  cases h
  exact htarget

/-- A move changes the lines, unless the paths read alike. -/
theorem lines_ne_of_moved {before after : Set (List String × Item)} {old new : List String}
    {item : Item} (hmoved : Moved before after old new item)
    (hrelative : relative old ≠ relative new) (hbefore : ∀ x ∈ before, ZeroFree x)
    (hafter : ∀ x ∈ after, ZeroFree x) {members members' : List (List String × Item)}
    (hmem : ∀ x, x ∈ members ↔ x ∈ before)
    (hmem' : ∀ x, x ∈ members' ↔ x ∈ after) (hordered : members.Pairwise Earlier)
    (hordered' : members'.Pairwise Earlier) :
    lines (members.map pathAndText) ≠ lines (members'.map pathAndText) := by
  intro heq
  have hnew : (new, item) ∈ after := by
    rw [hmoved.moved]
    exact Set.mem_insert _ _
  obtain ⟨front, back, rfl, hrest, hrestmem⟩ := exists_split hordered ((hmem _).mpr hmoved.there)
  obtain ⟨front', back', rfl, hrest', hrestmem'⟩ := exists_split hordered' ((hmem' _).mpr hnew)
  -- what has not moved is the same list
  have hsame : front ++ back = front' ++ back' := by
    refine eq_of_ordered Earlier.irrefl Earlier.trans hrest hrest' fun x => ?_
    rw [hrestmem, hrestmem', hmem, hmem', hmoved.moved]
    constructor
    · rintro ⟨hx, hne⟩
      refine ⟨Or.inr ⟨hx, hne⟩, ?_⟩
      rintro rfl
      exact hmoved.unused _ hx
    · rintro ⟨hx | ⟨hx, hne⟩, hne'⟩
      · exact absurd hx hne'
      · exact ⟨hx, hne⟩
  have hfree : ∀ between : List (List String × Item), between ⊆ front ++ back →
      ∀ x ∈ between.map pathAndText, '\x00' ∉ x.1.toList ∧ '\x00' ∉ x.2.toList := by
    intro between hsub _ hpair
    obtain ⟨x, hx, rfl⟩ := List.mem_map.mp hpair
    exact (hbefore x ((hmem x).mp ((hrestmem x).mp (hsub hx)).1)).pathAndText
  have hold := (hbefore _ hmoved.there).pathAndText
  have hnew := (hafter _ hnew).pathAndText
  rcases List.append_eq_append_iff.mp hsame with ⟨between, rfl, rfl⟩ | ⟨between, rfl, rfl⟩
  · exact hrelative (path_eq_of_lines (front.map pathAndText) (between.map pathAndText)
      (back'.map pathAndText) hold.1 hnew.1 hold.2 (hfree between (by simp))
      (by simpa [pathAndText] using heq))
  · exact hrelative (path_eq_of_lines (front'.map pathAndText) (between.map pathAndText)
      (back.map pathAndText) hnew.1 hold.1 hnew.2 (hfree between (by simp))
      (by simpa [pathAndText] using heq.symm)).symm

section

variable {φ : Type} [FileSystem φ] {files files' : φ} {root : Path} {exclusion : Exclusion}

/-- Every file and link that counts can be read. -/
def Readable (files : φ) (root : Path) (exclusion : Exclusion) : Prop :=
  ∀ names kind, Content files root exclusion names kind →
    ∃ item, readItem files ⟨root.descend names, kind⟩ = .ok item

theorem Charted.readable (h : Charted files root exclusion) {found : List (String × DirEntry)}
    (hfound : counted files root exclusion true = .ok found)
    (hread : ∀ x ∈ found, (readItem files x.2).isOk = true) : Readable files root exclusion := by
  intro names kind hcontent
  have hok := hread _ ((h.content_iff hfound).mp hcontent).2
  rw [spelled] at hok
  cases hitem : readItem files ⟨root.descend names, kind⟩ with
  | ok item => exact ⟨item, rfl⟩
  | error failure =>
    rw [hitem] at hok
    cases hok

/-- What can be listed and read has a digest. -/
theorem Charted.directoryMessage_ok (h : Charted files root exclusion)
    (hread : Readable files root exclusion) (recursive : Bool) :
    ∃ message, directoryMessage files root exclusion recursive = .ok message := by
  obtain ⟨located, hlocated, _, hmem⟩ := h.collected recursive
  rw [directoryMessage_of_counted hlocated]
  refine gather_ok fun x hx => ?_
  obtain ⟨item, hitem⟩ := hread x.1 x.2 ((hmem x).mp (List.mem_mergeSort.mp hx)).2
  rw [spelled, record_eq, hitem]
  exact ⟨_, rfl⟩

/-- A digest changes when a file or link that counts moves to a path that reads
differently and counts. -/
theorem directoryHash_ne_of_moved (h : Charted files root exclusion)
    (h' : Charted files' root exclusion) (hread : Readable files root exclusion)
    (hread' : Readable files' root exclusion) {old new : List String} {item : Item}
    (hmoved : Moved (covered files root exclusion true) (covered files' root exclusion true)
      old new item)
    (hrelative : relative old ≠ relative new)
    (hzero : ∀ x ∈ covered files root exclusion true, ZeroFree x)
    (hzero' : ∀ x ∈ covered files' root exclusion true, ZeroFree x)
    (hhash : Set.InjOn Blake3.hash {text | directoryMessage files root exclusion true = .ok text ∨
      directoryMessage files' root exclusion true = .ok text}) :
    ∃ digest digest', directoryHash files root exclusion true = .ok digest ∧
      directoryHash files' root exclusion true = .ok digest' ∧ digest ≠ digest' := by
  obtain ⟨message, hmessage⟩ := h.directoryMessage_ok hread true
  obtain ⟨message', hmessage'⟩ := h'.directoryMessage_ok hread' true
  refine ⟨Blake3.hexHash message, Blake3.hexHash message',
    directoryHash_of_message hmessage, directoryHash_of_message hmessage', ?_⟩
  rw [Blake3.hexHash, Blake3.hexHash, Ne, Blake3.hexText_inj,
    hhash.eq_iff (Or.inl hmessage) (Or.inr hmessage')]
  obtain ⟨members, hmem, hordered, rfl⟩ :=
    exists_members levelwise_lt h.wellListed hmessage
  obtain ⟨members', hmem', hordered', rfl⟩ :=
    exists_members levelwise_lt h'.wellListed hmessage'
  rw [utf8_inj]
  exact lines_ne_of_moved hmoved hrelative hzero hzero' hmem hmem' hordered hordered'

end

/-- Two links. -/
def linked : MemoryFiles := (MemoryFiles.empty.addLink ⟨"p/a"⟩ "x").addLink ⟨"p/b"⟩ "y"

/-- The first of them has moved behind the other. -/
def relinked : MemoryFiles := (MemoryFiles.empty.addLink ⟨"p/b"⟩ "y").addLink ⟨"p/c/a"⟩ "x"

theorem charted_linked : Charted linked ⟨"p"⟩ .standard :=
  charted_of_tidy ((MemoryFiles.Built.empty.addLink _ _).addLink _ _).tidy_joined.1
    (by decide +kernel) _

theorem charted_relinked : Charted relinked ⟨"p"⟩ .standard :=
  charted_of_tidy ((MemoryFiles.Built.empty.addLink _ _).addLink _ _).tidy_joined.1
    (by decide +kernel) _

theorem counted_linked : counted linked ⟨"p"⟩ .standard true =
    .ok [("a", ⟨⟨"p/a"⟩, .link "x"⟩), ("b", ⟨⟨"p/b"⟩, .link "y"⟩)] := by
  decide +kernel

theorem counted_relinked : counted relinked ⟨"p"⟩ .standard true =
    .ok [("b", ⟨⟨"p/b"⟩, .link "y"⟩), ("c/a", ⟨⟨"p/c/a"⟩, .link "x"⟩)] := by
  decide +kernel

theorem covered_linked : covered linked ⟨"p"⟩ .standard true =
    {x | x ∈ [(["a"], Item.link "x"), (["b"], .link "y")]} :=
  covered_eq_of_counted ne_of_name_lt charted_linked.wellListed counted_linked _
    (by decide +kernel) (by decide +kernel)

theorem covered_relinked : covered relinked ⟨"p"⟩ .standard true =
    {x | x ∈ [(["b"], Item.link "y"), (["c", "a"], .link "x")]} :=
  covered_eq_of_counted ne_of_name_lt charted_relinked.wellListed counted_relinked _
    (by decide +kernel) (by decide +kernel)

theorem moved_link : Moved (covered linked ⟨"p"⟩ .standard true)
    (covered relinked ⟨"p"⟩ .standard true) ["a"] ["c", "a"] (.link "x") := by
  rw [covered_linked, covered_relinked]
  refine ⟨List.mem_cons_self .., by simp, ?_⟩
  ext x
  simp only [Set.mem_ofPred_eq, List.mem_cons, List.not_mem_nil, or_false, Set.mem_insert_iff,
    Set.mem_sdiff, Set.mem_singleton_iff]
  constructor
  · rintro (rfl | rfl)
    · exact Or.inr ⟨Or.inr rfl, by decide +kernel⟩
    · exact Or.inl rfl
  · rintro (rfl | ⟨rfl | rfl, hne⟩)
    · exact Or.inr rfl
    · exact absurd rfl hne
    · exact Or.inl rfl

theorem directoryHash_relinked : ∃ digest digest',
    directoryHash linked ⟨"p"⟩ .standard true = .ok digest ∧
    directoryHash relinked ⟨"p"⟩ .standard true = .ok digest' ∧ digest ≠ digest' := by
  have hzero : ∀ x ∈ covered linked ⟨"p"⟩ .standard true, ZeroFree x := by
    rw [covered_linked]
    exact List.forall_mem_cons.mpr ⟨zeroFree_link (by decide) (by decide),
      List.forall_mem_singleton.mpr (zeroFree_link (by decide) (by decide))⟩
  have hzero' : ∀ x ∈ covered relinked ⟨"p"⟩ .standard true, ZeroFree x := by
    rw [covered_relinked]
    exact List.forall_mem_cons.mpr ⟨zeroFree_link (by decide) (by decide),
      List.forall_mem_singleton.mpr (zeroFree_link (by decide) (by decide))⟩
  -- the texts that are hashed
  have hmessage : directoryMessage linked ⟨"p"⟩ .standard true =
      .ok (utf8 (lines [("a", "link:x"), ("b", "link:y")])) := by
    rw [directoryMessage_of_ordered counted_linked (by decide)]
    decide +kernel
  have hmessage' : directoryMessage relinked ⟨"p"⟩ .standard true =
      .ok (utf8 (lines [("b", "link:y"), ("c/a", "link:x")])) := by
    rw [directoryMessage_of_ordered counted_relinked (by decide)]
    decide +kernel
  have hapart : Blake3.hash (utf8 (lines [("a", "link:x"), ("b", "link:y")])) ≠
      Blake3.hash (utf8 (lines [("b", "link:y"), ("c/a", "link:x")])) := by decide +kernel
  refine directoryHash_ne_of_moved charted_linked charted_relinked
    (charted_linked.readable counted_linked (by decide +kernel))
    (charted_relinked.readable counted_relinked (by decide +kernel))
    moved_link (by decide +kernel) hzero hzero'
    ((Set.injOn_pair.mpr fun heq => absurd heq hapart).mono ?_)
  rintro text (htext | htext)
  · exact Or.inl (Except.ok.inj (htext.symm.trans hmessage))
  · exact Or.inr (Except.ok.inj (htext.symm.trans hmessage'))

/-- A file whose name has a backslash. -/
def flat : MemoryFiles := MemoryFiles.empty.addFile ⟨"p/a\\b"⟩ "x".toUTF8

/-- The file in a directory. -/
def nested : MemoryFiles := MemoryFiles.empty.addFile ⟨"p/a/b"⟩ "x".toUTF8

/-- A move from a name with a backslash into a directory is not noticed. -/
theorem directoryHash_backslash :
    Moved (covered flat ⟨"p"⟩ .standard true) (covered nested ⟨"p"⟩ .standard true)
      ["a\\b"] ["a", "b"] (.file "x".toUTF8) ∧
    ∃ digest, directoryHash flat ⟨"p"⟩ .standard true = .ok digest ∧
      directoryHash nested ⟨"p"⟩ .standard true = .ok digest := by
  have hflat : WellListed (· < ·) flat ⟨"p"⟩ .standard :=
    wellListed_of_tidy (MemoryFiles.Built.empty.addFile _ _).tidy_joined.1 _ _
  have hnested : WellListed (· < ·) nested ⟨"p"⟩ .standard :=
    wellListed_of_tidy (MemoryFiles.Built.empty.addFile _ _).tidy_joined.1 _ _
  have hfound : counted flat ⟨"p"⟩ .standard true = .ok [("a/b", ⟨⟨"p/a\\b"⟩, .file⟩)] := by
    decide +kernel
  have hfound' : counted nested ⟨"p"⟩ .standard true = .ok [("a/b", ⟨⟨"p/a/b"⟩, .file⟩)] := by
    decide +kernel
  have hcovered := covered_eq_of_counted ne_of_name_lt hflat hfound
    [(["a\\b"], .file "x".toUTF8)] (by decide +kernel) (by decide +kernel)
  have hcovered' := covered_eq_of_counted ne_of_name_lt hnested hfound'
    [(["a", "b"], .file "x".toUTF8)] (by decide +kernel) (by decide +kernel)
  have hmessage : directoryMessage flat ⟨"p"⟩ .standard true =
      .ok (utf8 (lines [("a/b", Blake3.hexHash "x".toUTF8.data.toList)])) := by
    rw [directoryMessage_of_ordered hfound (List.pairwise_singleton _ _)]
    decide +kernel
  have hmessage' : directoryMessage nested ⟨"p"⟩ .standard true =
      .ok (utf8 (lines [("a/b", Blake3.hexHash "x".toUTF8.data.toList)])) := by
    rw [directoryMessage_of_ordered hfound' (List.pairwise_singleton _ _)]
    decide +kernel
  refine ⟨?_, _, directoryHash_of_message hmessage, directoryHash_of_message hmessage'⟩
  rw [hcovered, hcovered']
  refine ⟨List.mem_cons_self .., by simp, ?_⟩
  ext x
  simp

end Digest

end Cascade
