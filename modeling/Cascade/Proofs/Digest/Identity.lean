import Cascade.Proofs.Digest.Records

/-!
# What a digest identifies

The digests of two directories agree exactly if these have the same content, unless two
of the texts that were hashed have the same hash (`directoryHash_eq_iff`).

The argument is that the text of a directory can be read back.  There are two groups.

* A relative path tells the names that it spells, if none has a backslash
  (`relative_inj`).
* A line ends where its content does, since digests and targets of links hold no end of
  a line; and a digest is no target of a link (`eq_of_lines`).
-/

namespace Cascade

namespace Digest

/-! ## Relative paths -/

theorem toList_relative (names : List String) : (relative names).toList =
    (['/'].intercalate (names.map String.toList)).map fun c => if c = '\\' then '/' else c := by
  rw [relative, slashed, String.toList_map, String.toList_intercalate]
  rfl

/-- A relative path without backslashes is what was put together. -/
theorem toList_relative_of_plain {names : List String} (h : ∀ name ∈ names, '\\' ∉ name.toList) :
    (relative names).toList = ['/'].intercalate (names.map String.toList) := by
  have hplain : ∀ c ∈ ['/'].intercalate (names.map String.toList),
      (if c = '\\' then '/' else c) = c := by
    intro c hc
    rcases Text.mem_intercalate hc with rfl | ⟨piece, hpiece, hc⟩
    · decide
    · obtain ⟨name, hname, rfl⟩ := List.mem_map.mp hpiece
      refine if_neg ?_
      rintro rfl
      exact h name hname hc
  rw [toList_relative, List.map_congr_left hplain, List.map_id']

/-- Without backslashes a relative path tells the names that it spells. -/
theorem relative_inj {names names' : List String} (hne : names ≠ []) (hne' : names' ≠ [])
    (h : ∀ name ∈ names, Path.IsName name ∧ '\\' ∉ name.toList)
    (h' : ∀ name ∈ names', Path.IsName name ∧ '\\' ∉ name.toList) :
    relative names = relative names' ↔ names = names' := by
  refine ⟨fun heq => ?_, congrArg _⟩
  have hsplit : ∀ names : List String, names ≠ [] →
      (∀ name ∈ names, Path.IsName name ∧ '\\' ∉ name.toList) →
      Text.splitAt '/' (relative names).toList = names.map String.toList := by
    intro names hne h
    rw [toList_relative_of_plain fun name hname => (h name hname).2]
    refine Text.splitAt_intercalate (by simpa using hne) fun piece hpiece => ?_
    obtain ⟨name, hname, rfl⟩ := List.mem_map.mp hpiece
    exact (h name hname).1.plain
  have hpieces := hsplit names hne h
  rw [heq, hsplit names' hne' h'] at hpieces
  exact List.map_injective_iff.mpr (fun _ _ h => String.toList_inj.mp h) hpieces.symm

/-- A relative path has a zero only if a name has. -/
theorem not_mem_relative {names : List String} (h : ∀ name ∈ names, '\x00' ∉ name.toList) :
    '\x00' ∉ (relative names).toList := by
  rw [toList_relative, List.mem_map]
  rintro ⟨c, hc, hzero⟩
  split at hzero
  · cases hzero
  · subst hzero
    rcases Text.mem_intercalate hc with hc | ⟨piece, hpiece, hc⟩
    · cases hc
    · obtain ⟨name, hname, rfl⟩ := List.mem_map.mp hpiece
      exact h name hname hc

/-! ## Lines -/

/-- The lines tell the paths and what stands for the contents. -/
theorem eq_of_lines {pairs pairs' : List (String × String)}
    (h : ∀ x ∈ pairs, '\x00' ∉ x.1.toList ∧ '\n' ∉ x.2.toList)
    (h' : ∀ x ∈ pairs', '\x00' ∉ x.1.toList ∧ '\n' ∉ x.2.toList)
    (heq : lines pairs = lines pairs') : pairs = pairs' := by
  induction pairs generalizing pairs' with
  | nil =>
    cases pairs' with
    | nil => rfl
    | cons x' rest' => simp [line] at heq
  | cons x rest ih =>
    cases pairs' with
    | nil => simp [line] at heq
    | cons x' rest' =>
      obtain ⟨hpath, hcontent⟩ := h x (List.mem_cons_self ..)
      obtain ⟨hpath', hcontent'⟩ := h' x' (List.mem_cons_self ..)
      simp only [lines_cons, line, List.append_assoc, List.cons_append, List.nil_append] at heq
      obtain ⟨hsame, heq⟩ := (Text.append_cons_inj hpath hpath').mp heq
      obtain ⟨hsame', heq⟩ := (Text.append_cons_inj hcontent hcontent').mp heq
      rw [Prod.ext (String.toList_inj.mp hsame) (String.toList_inj.mp hsame'),
        ih (fun y hy => h y (List.mem_cons_of_mem _ hy))
          (fun y hy => h' y (List.mem_cons_of_mem _ hy)) heq]

/-- A digest is no target of a link. -/
theorem text_file_ne_link (content : ByteArray) (target : String) :
    (Item.file content).text ≠ (Item.link target).text := by
  intro h
  have hmem : 'l' ∈ (Item.file content).text.toList := by
    rw [h, Item.text, String.toList_append]
    exact List.mem_append_left _ (by decide)
  obtain ⟨n, hn, hdigit⟩ := Blake3.mem_hexText hmem
  have hletter : ∀ n < 16, 'l' ≠ Blake3.hexDigit n := by decide
  exact hletter n hn hdigit

/-- What stands for a content tells it, if no two of the contents have the same hash. -/
theorem Item.text_inj {texts : Set (List UInt8)} (hhash : Set.InjOn Blake3.hash texts)
    {item item' : Item} (h : ∀ content, item = .file content → content.data.toList ∈ texts)
    (h' : ∀ content, item' = .file content → content.data.toList ∈ texts) :
    item.text = item'.text ↔ item = item' := by
  refine ⟨fun heq => ?_, congrArg _⟩
  cases item with
  | file content =>
    cases item' with
    | file content' =>
      have hbytes := hhash (h content rfl) (h' content' rfl) (Blake3.hexText_inj.mp heq)
      rw [ByteArray.ext (Array.toList_inj.mp hbytes)]
    | link target => exact absurd heq (text_file_ne_link content target)
  | link target =>
    cases item' with
    | file content => exact absurd heq.symm (text_file_ne_link content target)
    | link target' =>
      rw [text, text, ← String.toList_inj, String.toList_append, String.toList_append,
        List.append_cancel_left_eq, String.toList_inj] at heq
      rw [heq]

/-! ## Directories -/

/-- A file or link without backslashes and zeros in its names, and without an end of a
line in its target. -/
structure Plain (x : List String × Item) : Prop where
  names : ∀ name ∈ x.1, '\\' ∉ name.toList ∧ '\x00' ∉ name.toList
  target : ∀ target, x.2 = .link target → '\n' ∉ target.toList

/-- Paths that read alike spell the same names. -/
theorem Plain.names_eq {x y : List String × Item} (hx : Plain x) (hy : Plain y)
    (hnames : x.1 ≠ [] ∧ ∀ name ∈ x.1, Path.IsName name)
    (hnames' : y.1 ≠ [] ∧ ∀ name ∈ y.1, Path.IsName name)
    (h : relative x.1 = relative y.1) : x.1 = y.1 :=
  (relative_inj hnames.1 hnames'.1
    (fun name hname => ⟨hnames.2 name hname, (hx.names name hname).1⟩)
    fun name hname => ⟨hnames'.2 name hname, (hy.names name hname).1⟩).mp h

/-- A line tells the file or link that it stands for. -/
theorem Plain.eq_of_line {texts : Set (List UInt8)} (hhash : Set.InjOn Blake3.hash texts)
    {x y : List String × Item} (hx : Plain x) (hy : Plain y)
    (hnames : x.1 ≠ [] ∧ ∀ name ∈ x.1, Path.IsName name)
    (hnames' : y.1 ≠ [] ∧ ∀ name ∈ y.1, Path.IsName name)
    (htexts : ∀ content, x.2 = .file content → content.data.toList ∈ texts)
    (htexts' : ∀ content, y.2 = .file content → content.data.toList ∈ texts)
    (hpath : relative x.1 = relative y.1) (htext : x.2.text = y.2.text) : x = y :=
  Prod.ext (hx.names_eq hy hnames hnames' hpath) ((Item.text_inj hhash htexts htexts').mp htext)

section

variable {φ φ' : Type} [FileSystem φ] [FileSystem φ'] {files : φ} {files' : φ'}
  {root root' : Path} {exclusion exclusion' : Exclusion} {recursive recursive' : Bool}

/-- The texts that are hashed for the digest of a directory: its own, and the contents
of the files that it covers. -/
def hashed (files : φ) (root : Path) (exclusion : Exclusion) (recursive : Bool) :
    Set (List UInt8) :=
  {text | directoryMessage files root exclusion recursive = .ok text ∨
    ∃ names content, (names, Item.file content) ∈ covered files root exclusion recursive ∧
      content.data.toList = text}

theorem isName_of_covered {x : List String × Item}
    (h : x ∈ covered files root exclusion recursive) :
    x.1 ≠ [] ∧ ∀ name ∈ x.1, Path.IsName name := by
  obtain ⟨kind, hcontent, _⟩ := h
  exact ⟨fun hnil => hcontent.leaf (hcontent.stands.eq_directory hnil), hcontent.stands.isName⟩

/-- The text of a directory has the lines for what is covered, in the strict order of the
paths. -/
theorem exists_plain_members (hlisted : WellListed (· ≠ ·) files root exclusion)
    (hplain : ∀ x ∈ covered files root exclusion recursive, Plain x) {message : List UInt8}
    (h : directoryMessage files root exclusion recursive = .ok message) :
    ∃ members : List (List String × Item),
      (∀ x, x ∈ members ↔ x ∈ covered files root exclusion recursive) ∧
      members.Pairwise (fun x y => relative x.1 < relative y.1) ∧
      message = utf8 (lines (members.map pathAndText)) := by
  obtain ⟨members, hmem, hpairwise, hmessage⟩ :=
    exists_members levelwise_ne hlisted h
  refine ⟨members, hmem, hpairwise.imp_of_mem fun {x y} hx hy hxy => ?_, hmessage⟩
  have hx := (hmem x).mp hx
  have hy := (hmem y).mp hy
  exact hxy.resolve_right fun ⟨hsame, hne⟩ => hne
    ((hplain x hx).names_eq (hplain y hy) (isName_of_covered hx) (isName_of_covered hy) hsame)

theorem mem_hashed {x : List String × Item} (h : x ∈ covered files root exclusion recursive)
    (content : ByteArray) (hcontent : x.2 = .file content) :
    content.data.toList ∈ hashed files root exclusion recursive :=
  Or.inr ⟨x.1, content, by rwa [← hcontent], rfl⟩

/-- The lines of two directories agree only if these cover the same. -/
theorem covered_eq_of_lines
    (hplain : ∀ x ∈ covered files root exclusion recursive, Plain x)
    (hplain' : ∀ x ∈ covered files' root' exclusion' recursive', Plain x)
    (hhash : Set.InjOn Blake3.hash (hashed files root exclusion recursive ∪
      hashed files' root' exclusion' recursive'))
    {members members' : List (List String × Item)}
    (hmem : ∀ x, x ∈ members ↔ x ∈ covered files root exclusion recursive)
    (hmem' : ∀ x, x ∈ members' ↔ x ∈ covered files' root' exclusion' recursive')
    (h : lines (members.map pathAndText) = lines (members'.map pathAndText)) :
    covered files root exclusion recursive = covered files' root' exclusion' recursive' := by
  have hread : ∀ x : List String × Item, Plain x →
      '\x00' ∉ (relative x.1).toList ∧ '\n' ∉ x.2.text.toList := fun x hx =>
    ⟨not_mem_relative fun name hname => (hx.names name hname).2,
      Item.not_mem_text (by decide) (by decide) hx.target⟩
  have hpairs : members.map pathAndText = members'.map pathAndText := by
    refine eq_of_lines (fun _ hpair => ?_) (fun _ hpair => ?_) h
    · obtain ⟨x, hx, rfl⟩ := List.mem_map.mp hpair
      exact hread x (hplain x ((hmem x).mp hx))
    · obtain ⟨x, hx, rfl⟩ := List.mem_map.mp hpair
      exact hread x (hplain' x ((hmem' x).mp hx))
  have hsame : ∀ x ∈ covered files root exclusion recursive,
      ∀ y ∈ covered files' root' exclusion' recursive',
        pathAndText x = pathAndText y → x = y := fun x hx y hy heq =>
    (hplain x hx).eq_of_line hhash (hplain' y hy) (isName_of_covered hx) (isName_of_covered hy)
      (fun content hcontent => Or.inl (mem_hashed hx content hcontent))
      (fun content hcontent => Or.inr (mem_hashed hy content hcontent))
      (congrArg Prod.fst heq) (congrArg Prod.snd heq)
  refine Set.Subset.antisymm (fun x hx => ?_) fun y hy => ?_
  · have hpair := List.mem_map_of_mem (f := pathAndText) ((hmem x).mpr hx)
    rw [hpairs] at hpair
    obtain ⟨y, hy, heq⟩ := List.mem_map.mp hpair
    have hy := (hmem' y).mp hy
    rwa [hsame x hx y hy heq.symm]
  · have hpair := List.mem_map_of_mem (f := pathAndText) ((hmem' y).mpr hy)
    rw [← hpairs] at hpair
    obtain ⟨x, hx, heq⟩ := List.mem_map.mp hpair
    have hx := (hmem x).mp hx
    rwa [← hsame x hx y hy heq]

/-- The digest of a directory identifies what it covers. -/
theorem directoryHash_eq_iff (hlisted : WellListed (· ≠ ·) files root exclusion)
    (hlisted' : WellListed (· ≠ ·) files' root' exclusion')
    (hplain : ∀ x ∈ covered files root exclusion recursive, Plain x)
    (hplain' : ∀ x ∈ covered files' root' exclusion' recursive', Plain x)
    (hhash : Set.InjOn Blake3.hash (hashed files root exclusion recursive ∪
      hashed files' root' exclusion' recursive'))
    {digest digest' : String} (h : directoryHash files root exclusion recursive = .ok digest)
    (h' : directoryHash files' root' exclusion' recursive' = .ok digest') :
    digest = digest' ↔
      covered files root exclusion recursive = covered files' root' exclusion' recursive' := by
  obtain ⟨message, hmessage, rfl⟩ := Failure.map_eq_ok.mp h
  obtain ⟨message', hmessage', rfl⟩ := Failure.map_eq_ok.mp h'
  obtain ⟨members, hmem, hpairwise, rfl⟩ := exists_plain_members hlisted hplain hmessage
  obtain ⟨members', hmem', hpairwise', rfl⟩ := exists_plain_members hlisted' hplain' hmessage'
  rw [Blake3.hexHash, Blake3.hexHash, Blake3.hexText_inj,
    hhash.eq_iff (Or.inl (Or.inl hmessage)) (Or.inr (Or.inl hmessage')), utf8_inj]
  constructor
  · exact covered_eq_of_lines hplain hplain' hhash hmem hmem'
  · intro hsame
    have hmembers : members = members' := by
      have hirrefl : ∀ x : List String × Item, ¬ relative x.1 < relative x.1 :=
        fun x => String.lt_irrefl (relative x.1)
      refine eq_of_ordered hirrefl (fun x y z hxy hyz => ?_) hpairwise hpairwise' fun x => ?_
      · exact String.lt_trans hxy hyz
      · rw [hmem, hmem', hsame]
    rw [hmembers]

end

/-- A file and a link. -/
def original : MemoryFiles :=
  (MemoryFiles.empty.addFile ⟨"p/a"⟩ "x".toUTF8).addLink ⟨"p/l"⟩ "a"

/-- The same elsewhere, beside a directory that is empty. -/
def copied : MemoryFiles :=
  ((MemoryFiles.empty.addDirectory ⟨"/q/void"⟩).addLink ⟨"/q/l"⟩ "a").addFile ⟨"/q/a"⟩ "x".toUTF8

/-- What both cover. -/
def pair : List (List String × Item) := [(["a"], .file "x".toUTF8), (["l"], .link "a")]

theorem plain_pair : ∀ x ∈ pair, Plain x := by
  intro x hx
  rcases List.mem_cons.mp hx with rfl | hx
  · exact ⟨by decide, nofun⟩
  · rw [List.mem_singleton.mp hx]
    refine ⟨by decide, fun target htarget => ?_⟩
    cases htarget
    decide

theorem wellListed_original : WellListed (· ≠ ·) original ⟨"p"⟩ .standard :=
  (wellListed_of_tidy ((MemoryFiles.Built.empty.addFile _ _).addLink _ _).tidy_joined.1 _ _).imp
    ne_of_name_lt

theorem wellListed_copied : WellListed (· ≠ ·) copied ⟨"/q"⟩ .standard :=
  (wellListed_of_tidy (((MemoryFiles.Built.empty.addDirectory _).addLink _ _).addFile _ _
    ).tidy_joined.1 _ _).imp ne_of_name_lt

theorem counted_original : counted original ⟨"p"⟩ .standard true =
    .ok [("a", ⟨⟨"p/a"⟩, .file⟩), ("l", ⟨⟨"p/l"⟩, .link "a"⟩)] := by
  decide +kernel

theorem counted_copied : counted copied ⟨"/q"⟩ .standard true =
    .ok [("a", ⟨⟨"/q/a"⟩, .file⟩), ("l", ⟨⟨"/q/l"⟩, .link "a"⟩)] := by
  decide +kernel

theorem covered_original : covered original ⟨"p"⟩ .standard true = {x | x ∈ pair} :=
  covered_eq_of_counted (fun _ _ h => h) wellListed_original counted_original pair
    (by decide +kernel) (by decide +kernel)

theorem covered_copied : covered copied ⟨"/q"⟩ .standard true = {x | x ∈ pair} :=
  covered_eq_of_counted (fun _ _ h => h) wellListed_copied counted_copied pair
    (by decide +kernel) (by decide +kernel)

/-- The text that stands for both. -/
def pairText : List UInt8 := utf8 (lines (pair.map pathAndText))

theorem message_original : directoryMessage original ⟨"p"⟩ .standard true = .ok pairText := by
  rw [directoryMessage_of_ordered counted_original (by decide)]
  decide +kernel

theorem message_copied : directoryMessage copied ⟨"/q"⟩ .standard true = .ok pairText := by
  rw [directoryMessage_of_ordered counted_copied (by decide)]
  decide +kernel

/-- For a digest of both, that text is hashed and the content of the file. -/
theorem hashed_subset {files : MemoryFiles} {root : Path}
    (hcovered : covered files root .standard true = {x | x ∈ pair})
    (hmessage : directoryMessage files root .standard true = .ok pairText) :
    hashed files root .standard true ⊆ {pairText, "x".toUTF8.data.toList} := by
  rintro text (htext | ⟨names, content, hmem, rfl⟩)
  · exact Or.inl (Except.ok.inj (htext.symm.trans hmessage))
  · rw [hcovered] at hmem
    cases hmem with
    | head => exact Or.inr rfl
    | tail _ hmem => cases List.mem_singleton.mp hmem

/-- The digest is the same for both, and so they cover the same. -/
theorem directoryHash_copied : ∃ digest,
    directoryHash original ⟨"p"⟩ .standard true = .ok digest ∧
    directoryHash copied ⟨"/q"⟩ .standard true = .ok digest ∧
    covered original ⟨"p"⟩ .standard true = covered copied ⟨"/q"⟩ .standard true := by
  have hapart : Blake3.hash pairText ≠ Blake3.hash "x".toUTF8.data.toList := by decide +kernel
  have hhash : Set.InjOn Blake3.hash
      (hashed original ⟨"p"⟩ .standard true ∪ hashed copied ⟨"/q"⟩ .standard true) :=
    (Set.injOn_pair.mpr fun heq => absurd heq hapart).mono
      (Set.union_subset (hashed_subset covered_original message_original)
        (hashed_subset covered_copied message_copied))
  have hdigest := directoryHash_of_message message_original
  have hdigest' := directoryHash_of_message message_copied
  exact ⟨_, hdigest, hdigest', (directoryHash_eq_iff wellListed_original wellListed_copied
    (covered_original ▸ plain_pair) (covered_copied ▸ plain_pair) hhash hdigest hdigest').mp rfl⟩

end Digest

end Cascade
