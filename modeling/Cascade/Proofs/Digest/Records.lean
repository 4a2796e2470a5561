import Cascade.Proofs.Digest.Collect
import Cascade.Proofs.Digest.Hex
import Mathlib.Data.List.Sort

/-!
# The text that stands for a directory

The text has one line for each file or link that a digest covers, in the order of the
relative paths, and in that of the walk where these are spelled alike
(`exists_members`).  A line is the relative path, a zero, what stands for the content,
and the end of the line.
-/

namespace Cascade

namespace Digest

/-! ## What is covered -/

/-- What a file or link holds. -/
inductive Item where
  | file (content : ByteArray)
  | link (target : String)

instance : DecidableEq Item
  | .file content, .file content' =>
    decidable_of_iff (content.data = content'.data)
      ⟨fun h => congrArg Item.file (ByteArray.ext h),
        fun h => congrArg ByteArray.data (Item.file.inj h)⟩
  | .link target, .link target' =>
    decidable_of_iff (target = target') ⟨congrArg Item.link, Item.link.inj⟩
  | .file _, .link _ => isFalse nofun
  | .link _, .file _ => isFalse nofun

/-- What stands for the content of a file or link. -/
def Item.text : Item → String
  | .file content => Blake3.hexHash content.data.toList
  | .link target => "link:" ++ target

/-- What stands for a content has no character but digits, and those of a link. -/
theorem Item.not_mem_text {item : Item} {c : Char} (hdigit : ∀ n < 16, c ≠ Blake3.hexDigit n)
    (hlink : c ∉ "link:".toList) (h : ∀ target, item = .link target → c ∉ target.toList) :
    c ∉ item.text.toList := by
  cases item with
  | file content =>
    intro hmem
    obtain ⟨n, hn, hc⟩ := Blake3.mem_hexText hmem
    exact hdigit n hn hc
  | link target =>
    rw [text, String.toList_append, List.mem_append, not_or]
    exact ⟨hlink, h target rfl⟩

section

variable {φ : Type} [FileSystem φ]

/-- The content of a file that is to be hashed. -/
def readFile (files : φ) (path : Path) : Except Failure ByteArray :=
  match FileSystem.openFile files path with
  | .error f => .error (f.within ("opening file for hashing: " ++ Text.quoted path.text))
  | .ok contents => contents

/-- Read a file or link.  A link is not followed. -/
def readItem (files : φ) (entry : DirEntry) : Except Failure Item :=
  match entry.kind with
  | .link target => .ok (.link target)
  | _ => .file <$> readFile files entry.path

theorem fileHash_eq (files : φ) (path : Path) : fileHash files path =
    (fun content => Blake3.hexHash content.data.toList) <$> readFile files path := by
  unfold fileHash readFile
  cases FileSystem.openFile files path <;> rfl

/-- The files and links that a digest covers: the names that lead to each, and what it
holds. -/
def covered (files : φ) (root : Path) (exclusion : Exclusion) (recursive : Bool) :
    Set (List String × Item) :=
  {x | ∃ kind, Content files root exclusion x.1 kind ∧
    (recursive = true ∨ x.1.length = 1) ∧
    readItem files ⟨root.descend x.1, kind⟩ = .ok x.2}

end

/-! ## Lines -/

/-- The bytes of a text. -/
def utf8 (text : List Char) : List UInt8 := (String.ofList text).toUTF8.data.toList

theorem utf8_append (text rest : List Char) : utf8 (text ++ rest) = utf8 text ++ utf8 rest := by
  simp [utf8, String.toUTF8_eq_toByteArray, String.ofList_append, String.toByteArray_append]

theorem utf8_flatMap {α : Type} (l : List α) (f : α → List Char) :
    utf8 (l.flatMap f) = l.flatMap fun a => utf8 (f a) := by
  induction l with
  | nil => rfl
  | cons a l ih => rw [List.flatMap_cons, List.flatMap_cons, utf8_append, ih]

theorem utf8_inj {text text' : List Char} : utf8 text = utf8 text' ↔ text = text' := by
  refine ⟨fun h => ?_, congrArg _⟩
  have hbytes : (String.ofList text).toByteArray = (String.ofList text').toByteArray :=
    ByteArray.ext (Array.toList_inj.mp h)
  exact String.ofList_injective (String.toByteArray_inj.mp hbytes)

/-- A line of the text: a relative path and what stands for the content there. -/
def line (path content : String) : List Char :=
  path.toList ++ '\x00' :: (content.toList ++ ['\n'])

/-- The lines for some paths and contents. -/
def lines (pairs : List (String × String)) : List Char := pairs.flatMap fun x => line x.1 x.2

@[simp]
theorem lines_nil : lines [] = [] := rfl

@[simp]
theorem lines_cons (x : String × String) (rest : List (String × String)) :
    lines (x :: rest) = line x.1 x.2 ++ lines rest := rfl

@[simp]
theorem lines_append (pairs rest : List (String × String)) :
    lines (pairs ++ rest) = lines pairs ++ lines rest :=
  List.flatMap_append

/-- The path and what stands for the content of a file or link. -/
def pathAndText (x : List String × Item) : String × String := (relative x.1, x.2.text)

section

variable {φ : Type} [FileSystem φ] {files : φ} {root : Path} {exclusion : Exclusion}
  {recursive : Bool}

/-- The record of a file or link is its line. -/
theorem record_eq (files : φ) (path : String) (entry : DirEntry) :
    record files (path, entry) =
      (fun item => utf8 (line path item.text)) <$> readItem files entry := by
  have hline : ∀ content : String, path.toUTF8.data.toList ++ [0] ++
      content.toUTF8.data.toList ++ ['\n'.toUInt8] = utf8 (line path content) := by
    intro content
    have hsplit : line path content = path.toList ++ (['\x00'] ++ (content.toList ++ ['\n'])) := rfl
    rw [hsplit, utf8_append, utf8_append, utf8_append]
    simp only [utf8, String.ofList_toList, List.append_assoc]
    rfl
  unfold record readItem
  cases entry.kind with
  | link target =>
    change Except.ok _ = Except.ok _
    rw [hline]
    rfl
  | file | directory =>
    dsimp only
    rw [fileHash_eq]
    cases readFile files entry.path with
    | error failure => rfl
    | ok content =>
      change Except.ok _ = Except.ok _
      rw [hline]
      rfl

/-! ## Sorting -/

/-- Lists that are in order and have the same members are the same. -/
theorem eq_of_ordered {α : Type} {r : α → α → Prop} (hirrefl : ∀ x, ¬ r x x)
    (htrans : ∀ x y z, r x y → r y z → r x z) {l l' : List α} (h : l.Pairwise r)
    (h' : l'.Pairwise r) (hmem : ∀ x, x ∈ l ↔ x ∈ l') : l = l' := by
  have : Std.Irrefl r := ⟨hirrefl⟩
  have : Std.Antisymm r := ⟨fun x y hxy hyx => absurd (htrans x y x hxy hyx) (hirrefl x)⟩
  exact h.eq_of_mem_iff h' hmem

/-- Sort by relative paths.  What is spelled alike stays in order. -/
def inOrder (located : List (List String × EntryKind)) : List (List String × EntryKind) :=
  located.mergeSort fun x y => !decide (relative y.1 < relative x.1)

theorem notBehind_iff {x y : List String × EntryKind} :
    (!decide (relative y.1 < relative x.1)) = true ↔ relative x.1 ≤ relative y.1 := by
  rw [Bool.not_eq_true', decide_eq_false_iff_not, String.not_lt]

theorem notBehind_trans (x y z : List String × EntryKind)
    (hxy : (!decide (relative y.1 < relative x.1)) = true)
    (hyz : (!decide (relative z.1 < relative y.1)) = true) :
    (!decide (relative z.1 < relative x.1)) = true := by
  rw [notBehind_iff] at hxy hyz ⊢
  exact String.le_trans hxy hyz

theorem notBehind_total (x y : List String × EntryKind) :
    (!decide (relative y.1 < relative x.1) || !decide (relative x.1 < relative y.1)) = true := by
  rw [Bool.or_eq_true, notBehind_iff, notBehind_iff]
  exact String.le_total _ _

/-- What is spelled alike is a list of its own, which sorting leaves as it is. -/
theorem filter_inOrder (located : List (List String × EntryKind)) (path : String) :
    (inOrder located).filter (fun x => relative x.1 = path) =
      located.filter fun x => relative x.1 = path := by
  have halike : (located.filter fun x => relative x.1 = path).Pairwise
      fun x y => (!decide (relative y.1 < relative x.1)) = true := by
    refine List.pairwise_of_forall_mem_list fun x hx y hy => ?_
    have hx := of_decide_eq_true (List.mem_filter.mp hx).2
    have hy := of_decide_eq_true (List.mem_filter.mp hy).2
    exact notBehind_iff.mpr ((hx.trans hy.symm) ▸ String.le_refl _)
  have hsublist := (List.sublist_mergeSort notBehind_trans notBehind_total halike
    List.filter_sublist).filter fun x => relative x.1 = path
  rw [List.filter_filter] at hsublist
  simp only [Bool.and_self] at hsublist
  refine (hsublist.eq_of_length ?_).symm
  exact ((List.mergeSort_perm located _).filter _).length_eq.symm

theorem pairwise_inOrder {before : List String → List String → Prop}
    {located : List (List String × EntryKind)}
    (h : located.Pairwise fun x y => before x.1 y.1) :
    (inOrder located).Pairwise fun x y => relative x.1 < relative y.1 ∨
      (relative x.1 = relative y.1 ∧ before x.1 y.1) := by
  refine List.pairwise_iff_forall_sublist.mpr fun {x y} hsublist => ?_
  have hle : relative x.1 ≤ relative y.1 := by
    have hsorted := List.pairwise_mergeSort notBehind_trans notBehind_total located
    exact notBehind_iff.mp (List.pairwise_iff_forall_sublist.mp hsorted hsublist)
  by_cases heq : relative x.1 = relative y.1
  · refine Or.inr ⟨heq, ?_⟩
    have hpair := hsublist.filter fun z => decide (relative z.1 = relative y.1)
    have hboth : [x, y].filter (fun z => decide (relative z.1 = relative y.1)) = [x, y] := by
      simp [heq]
    rw [filter_inOrder, hboth] at hpair
    exact List.pairwise_iff_forall_sublist.mp h (hpair.trans List.filter_sublist)
  · refine Or.inl (Decidable.byContradiction fun hlt => heq ?_)
    exact String.le_antisymm hle (String.not_lt.mp hlt)

/-! ## The text -/

/-- Sorting what was found is sorting the names that lead there. -/
theorem directoryMessage_of_counted {located : List (List String × EntryKind)}
    (h : counted files root exclusion recursive = .ok (located.map (spelled root))) :
    directoryMessage files root exclusion recursive =
      gather (fun x => record files (spelled root x)) (inOrder located) := by
  have hsorted : (located.map (spelled root)).mergeSort (fun a b => !decide (b.1 < a.1)) =
      (inOrder located).map (spelled root) :=
    (List.map_mergeSort (f := spelled root) fun x _ y _ => rfl).symm
  rw [directoryMessage_eq, h]
  change gather _ ((located.map (spelled root)).mergeSort _) = _
  rw [hsorted, gather_map]

/-- What was found in order makes the text as it is. -/
theorem directoryMessage_of_ordered {found : List (String × DirEntry)}
    (h : counted files root exclusion recursive = .ok found)
    (hordered : found.Pairwise fun a b => (!decide (b.1 < a.1)) = true) :
    directoryMessage files root exclusion recursive = gather (record files) found := by
  rw [directoryMessage_eq, h]
  change gather _ (found.mergeSort _) = _
  rw [List.mergeSort_of_pairwise hordered]

theorem Content.onward_iff {names : List String} {kind : EntryKind}
    (h : Content files root exclusion names kind) :
    Onward recursive [] names ↔ recursive = true ∨ names.length = 1 := by
  obtain ⟨name, rest, rfl⟩ := List.exists_cons_of_ne_nil fun hnil =>
    h.leaf (h.stands.eq_directory hnil)
  simp [Onward]

/-- The text has one line for each file or link that is covered, in order. -/
theorem exists_members {apart : String → String → Prop}
    {before : List String → List String → Prop} (horder : Levelwise apart before)
    (hlisted : WellListed apart files root exclusion) {message : List UInt8}
    (h : directoryMessage files root exclusion recursive = .ok message) :
    ∃ members : List (List String × Item),
      (∀ x, x ∈ members ↔ x ∈ covered files root exclusion recursive) ∧
      members.Pairwise (fun x y => relative x.1 < relative y.1 ∨
        (relative x.1 = relative y.1 ∧ before x.1 y.1)) ∧
      message = utf8 (lines (members.map pathAndText)) := by
  obtain ⟨found, hfound, _⟩ := Failure.bind_eq_ok.mp h
  obtain ⟨located, rfl, hpairwise, hmem⟩ := located_of_collect horder hlisted
    .root enters_nil hfound
  rw [directoryMessage_of_counted hfound] at h
  -- what is read for each of them
  have hread : ∀ x, ∃ item, x ∈ inOrder located → readItem files (spelled root x).2 = .ok item := by
    intro x
    by_cases hx : x ∈ inOrder located
    · obtain ⟨answer, hanswer, _⟩ := answer_of_gather h hx
      rw [spelled, record_eq] at hanswer
      obtain ⟨item, hitem, _⟩ := Failure.map_eq_ok.mp hanswer
      exact ⟨item, fun _ => hitem⟩
    · exact ⟨.link "", fun h => absurd h hx⟩
  choose item hitem using hread
  refine ⟨(inOrder located).map fun x => (x.1, item x), fun x => ?_,
    List.pairwise_map.mpr (pairwise_inOrder hpairwise), ?_⟩
  · rw [List.mem_map]
    constructor
    · rintro ⟨⟨names, kind⟩, hx, rfl⟩
      obtain ⟨hway, hcontent⟩ := (hmem _).mp (List.mem_mergeSort.mp hx)
      exact ⟨kind, hcontent, hcontent.onward_iff.mp hway, hitem _ hx⟩
    · rintro ⟨kind, hcontent, hmode, hread⟩
      have hx : (x.1, kind) ∈ inOrder located :=
        List.mem_mergeSort.mpr ((hmem _).mpr ⟨hcontent.onward_iff.mpr hmode, hcontent⟩)
      refine ⟨(x.1, kind), hx, Prod.ext rfl ?_⟩
      exact Except.ok.inj ((hitem _ hx).symm.trans hread)
  · have hrecords : gather (fun x => record files (spelled root x)) (inOrder located) =
        .ok ((inOrder located).flatMap fun x => utf8 (line (relative x.1) (item x).text)) :=
      gather_eq_ok fun x hx => by
        rw [spelled, record_eq]
        exact Failure.map_eq_ok.mpr ⟨item x, hitem x hx, rfl⟩
    cases h.symm.trans hrecords
    rw [lines, utf8_flatMap, List.flatMap_map, List.flatMap_map]
    rfl

/-- An entry that was found reads as a file or link that is covered. -/
def Reads (files : φ) (root : Path) (entry : String × DirEntry) (x : List String × Item) : Prop :=
  entry.2.path.components = root.components ++ x.1 ∧ readItem files entry.2 = .ok x.2

instance (entry : String × DirEntry) (x : List String × Item) :
    Decidable (Reads files root entry x) := inferInstanceAs (Decidable (_ ∧ _))

/-- What is covered is what was found, as it reads. -/
theorem covered_eq_of_counted {apart : String → String → Prop} (hne : ∀ a b, apart a b → a ≠ b)
    (hlisted : WellListed apart files root exclusion) {found : List (String × DirEntry)}
    (hfound : counted files root exclusion recursive = .ok found)
    (members : List (List String × Item))
    (h : ∀ entry ∈ found, ∃ x ∈ members, Reads files root entry x)
    (h' : ∀ x ∈ members, ∃ entry ∈ found, Reads files root entry x) :
    covered files root exclusion recursive = {x | x ∈ members} := by
  have hlocates : Locates files root exclusion (Onward recursive []) (fun _ _ => True) found :=
    located_of_collect ⟨hne, fun _ _ _ _ _ _ => trivial⟩ hlisted .root enters_nil hfound
  obtain ⟨located, rfl, _, hmem⟩ := hlocates
  have hsame : ∀ y ∈ located, ∀ x, Reads files root (spelled root y) x →
      y.1 = x.1 ∧ readItem files ⟨root.descend y.1, y.2⟩ = .ok x.2 := by
    intro y hy x hx
    refine ⟨?_, hx.2⟩
    have hcomponents := hx.1
    rw [spelled, root.components_descend ((hmem y).mp hy).2.stands.isName] at hcomponents
    exact List.append_cancel_left hcomponents
  ext x
  constructor
  · rintro ⟨kind, hcontent, hmode, hread⟩
    have hy : (x.1, kind) ∈ located := (hmem _).mpr ⟨hcontent.onward_iff.mpr hmode, hcontent⟩
    obtain ⟨x', hx', hreads⟩ := h _ (List.mem_map_of_mem hy)
    obtain ⟨hnames, hread'⟩ := hsame _ hy x' hreads
    have hitem : x.2 = x'.2 := Except.ok.inj (hread.symm.trans hread')
    rwa [Set.mem_ofPred_eq, Prod.ext hnames hitem]
  · intro hx
    obtain ⟨_, hentry, hreads⟩ := h' x hx
    obtain ⟨y, hy, rfl⟩ := List.mem_map.mp hentry
    obtain ⟨hnames, hread⟩ := hsame y hy x hreads
    obtain ⟨hway, hcontent⟩ := (hmem y).mp hy
    rw [hnames] at hread
    refine ⟨y.2, hnames ▸ hcontent, ?_, hread⟩
    rw [← hnames]
    exact hcontent.onward_iff.mp hway

end

end Digest

end Cascade
