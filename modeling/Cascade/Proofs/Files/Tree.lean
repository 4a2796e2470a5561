import Cascade.Files.Tree
import Cascade.Proofs.Files.Lawful

/-!
# Writing to a tree with links

Where a path leads in a tree depends on the directories and the links on its
way.  A tree that keeps these (`TreeFiles.Keeps`) leads every path to where it
led before, and a path that had come to a free place leads to the file that
is put there (`TreeFiles.Keeps.locate`).  Making directories only adds entries
(`TreeFiles.Extends`), and replacing a file keeps the kind of each.

So trees are lawful files: what was written is read, and if it could not be
written, then at most directories were made.
-/

namespace Cascade.TreeFiles

variable {t t' t'' : TreeFiles} {p : Path} {place : List String} {content : ByteArray}

/-! ## Entries -/

/-- What was in a tree is still there, and of the same kind. -/
structure Keeps (t t' : TreeFiles) : Prop where
  current : t'.current = t.current
  kinds : ∀ place entry, t.get? place = some entry →
    ∃ entry', t'.get? place = some entry' ∧ kindOf entry' = kindOf entry

/-- What was in a tree is still there as it was. -/
structure Extends (t t' : TreeFiles) : Prop where
  current : t'.current = t.current
  entries : ∀ place entry, t.get? place = some entry → t'.get? place = some entry

theorem Extends.refl (t : TreeFiles) : t.Extends t := ⟨rfl, fun _ _ h => h⟩

theorem Extends.trans (h : t.Extends t') (h' : t'.Extends t'') : t.Extends t'' :=
  ⟨h'.current.trans h.current, fun place entry hget =>
    h'.entries place entry (h.entries place entry hget)⟩

theorem Extends.keeps (h : t.Extends t') : t.Keeps t' :=
  ⟨h.current, fun place entry hget => ⟨entry, h.entries place entry hget, rfl⟩⟩

theorem Keeps.directory (h : t.Keeps t') (hget : t.get? place = some .directory) :
    t'.get? place = some .directory := by
  obtain ⟨entry', hget', hkind⟩ := h.kinds place _ hget
  cases entry' with
  | directory => exact hget'
  | file | link => cases hkind

theorem Keeps.link (h : t.Keeps t') {target : String} (hget : t.get? place = some (.link target)) :
    t'.get? place = some (.link target) := by
  obtain ⟨entry', hget', hkind⟩ := h.kinds place _ hget
  cases entry' with
  | link target' =>
    cases hkind
    exact hget'
  | file | directory => cases hkind

/-- An entry that was put is there, and all others are as they were.  The root is no place
for an entry. -/
theorem get?_put (t : TreeFiles) {place : List String} (hne : place ≠ []) (entry : TreeEntry)
    (key : List String) :
    (t.put place entry).get? key = if place = key then some entry else t.get? key := by
  unfold get? put
  cases key with
  | nil => rw [if_neg hne]; rfl
  | cons name rest =>
    simp only [List.isEmpty_cons, Bool.false_eq_true, if_false, Std.TreeMap.getElem?_insert,
      Std.compare_eq_iff_eq]

theorem ne_nil_of_get? {entry : Option TreeEntry} (h : t.get? place = entry)
    (hentry : entry ≠ some .directory) : place ≠ [] := by
  rintro rfl
  exact hentry h.symm

/-- An entry that is put at a free place adds to a tree. -/
theorem extends_put (h : t.get? place = none) (entry : TreeEntry) :
    t.Extends (t.put place entry) := by
  refine ⟨rfl, fun key old hold => ?_⟩
  rw [get?_put t (ne_nil_of_get? h nofun), if_neg]
  · exact hold
  · rintro rfl
    rw [h] at hold
    cases hold

/-- A file in place of a file keeps a tree. -/
theorem keeps_put {old : ByteArray} (h : t.get? place = some (.file old)) (content : ByteArray) :
    t.Keeps (t.put place (.file content)) := by
  refine ⟨rfl, fun key entry hentry => ?_⟩
  rw [get?_put t (ne_nil_of_get? h nofun)]
  split
  · rename_i heq
    subst heq
    rw [h] at hentry
    cases hentry
    exact ⟨_, rfl, rfl⟩
  · exact ⟨entry, hentry, rfl⟩

/-! ## Following paths -/

/-- There is a file at a place. -/
def HasFile (t : TreeFiles) (place : List String) : Prop :=
  ∃ content, t.get? place = some (.file content)

/-- What a walk reaches once there is a file where it found nothing. -/
def Reached.filled : Reached → Reached
  | .missing directory name => .entry (directory ++ [name])
  | reached => reached

/-- A tree that is kept leads a walk to where it led, if there is a file now where there was
nothing to go on with. -/
theorem Keeps.walk (h : t.Keeps t') {names : List String} {reached : Reached}
    (hw : t.walk place names = .ok reached)
    (hfilled : ∀ directory name, reached = .missing directory name →
      t'.HasFile (directory ++ [name])) : t'.walk place names = .ok reached.filled := by
  induction names generalizing place with
  | nil =>
    cases hw
    rfl
  | cons name rest ih =>
    rw [TreeFiles.walk] at hw ⊢
    split at hw
    · rename_i hdirectory
      rw [h.directory hdirectory]
      dsimp only
      by_cases hdot : name = "."
      · rw [if_pos hdot] at hw ⊢
        exact ih hw
      rw [if_neg hdot] at hw ⊢
      by_cases hdots : name = ".."
      · rw [if_pos hdots] at hw ⊢
        exact ih hw
      rw [if_neg hdots] at hw ⊢
      split at hw
      · rename_i hlink
        rw [h.link hlink]
        cases hw
        rfl
      · rename_i entry hother hentry
        obtain ⟨entry', hentry', hkind⟩ := h.kinds _ _ hentry
        rw [hentry']
        cases entry' with
        | link target =>
          cases entry with
          | link target' => exact absurd rfl (hother target')
          | file | directory => cases hkind
        | file | directory => exact ih hw
      · split at hw
        · rename_i hrest
          cases hw
          obtain ⟨content, hfile⟩ := hfilled place name rfl
          rw [hfile, List.isEmpty_iff.mp hrest]
          rfl
        · cases hw
    · cases hw
    · cases hw

/-- Where nothing was found, there is nothing. -/
theorem get?_of_missing {names directory : List String} {name : String}
    (hw : t.walk place names = .ok (.missing directory name)) :
    t.get? (directory ++ [name]) = none := by
  induction names generalizing place with
  | nil => cases hw
  | cons name' rest ih =>
    rw [TreeFiles.walk] at hw
    split at hw
    · split at hw
      · exact ih hw
      split at hw
      · exact ih hw
      split at hw
      · cases hw
      · exact ih hw
      · rename_i hnone
        split at hw
        · cases hw
          exact hnone
        · cases hw
    · cases hw
    · cases hw

/-- The place that a path leads to, be it free or not. -/
def Located.site : Located → List String
  | .present place => place
  | .absent directory name => directory ++ [name]

/-- A tree that is kept leads names through links to where it led, if there is a file now where
the place was free. -/
theorem Keeps.locateFrom (h : t.Keeps t') {followLast : Bool} {links : Nat}
    {start names : List String} {located : Located}
    (hl : t.locateFrom followLast links start names = .ok located)
    (hfilled : ∀ directory name, located = .absent directory name →
      t'.HasFile (directory ++ [name])) :
    t'.locateFrom followLast links start names = .ok (.present located.site) := by
  induction links generalizing start names with
  | zero => cases hl
  | succ links ih =>
    rw [TreeFiles.locateFrom] at hl ⊢
    cases hw : t.walk start names with
    | error fault =>
      rw [hw] at hl
      cases hl
    | ok reached =>
      rw [hw] at hl
      cases reached with
      | entry place =>
        cases hl
        rw [h.walk hw nofun]
        rfl
      | missing directory name =>
        cases hl
        have hfile := hfilled directory name rfl
        have hreached : ∀ directory' name', Reached.missing directory name =
            .missing directory' name' → t'.HasFile (directory' ++ [name']) := by
          rintro _ _ ⟨rfl, rfl⟩
          exact hfile
        rw [h.walk hw hreached]
        rfl
      | link directory name target rest =>
        rw [h.walk hw nofun]
        dsimp only [Reached.filled] at hl ⊢
        split at hl
        · rename_i hlast
          cases hl
          rw [if_pos hlast]
          rfl
        · rename_i hlast
          rw [if_neg hlast]
          exact ih hl

/-- A tree that is kept leads a path to where it led, if there is a file now where the place
was free. -/
theorem Keeps.locate (h : t.Keeps t') {followLast : Bool} {located : Located}
    (hl : t.locate p followLast = .ok located)
    (hfilled : ∀ directory name, located = .absent directory name →
      t'.HasFile (directory ++ [name])) :
    t'.locate p followLast = .ok (.present located.site) := by
  rw [TreeFiles.locate] at hl ⊢
  rw [h.current]
  split at hl
  · cases hl
  · rename_i hempty
    rw [if_neg hempty]
    exact h.locateFrom hl hfilled

theorem get?_of_locateFrom {followLast : Bool} {links : Nat} {start names directory : List String}
    {name : String}
    (hl : t.locateFrom followLast links start names = .ok (.absent directory name)) :
    t.get? (directory ++ [name]) = none := by
  induction links generalizing start names with
  | zero => cases hl
  | succ links ih =>
    rw [TreeFiles.locateFrom] at hl
    split at hl
    · cases hl
    · cases hl
    · rename_i hw
      cases hl
      exact get?_of_missing hw
    · split at hl
      · cases hl
      · exact ih hl

/-- Where a path leads to a free place, there is nothing. -/
theorem get?_of_absent {followLast : Bool} {directory : List String} {name : String}
    (hl : t.locate p followLast = .ok (.absent directory name)) :
    t.get? (directory ++ [name]) = none := by
  rw [TreeFiles.locate] at hl
  split at hl
  · cases hl
  · exact get?_of_locateFrom hl

/-! ## Reading and writing -/

theorem read_eq_ok : t.read p = .ok content ↔
    ∃ place, t.locate p true = .ok (.present place) ∧ t.get? place = some (.file content) := by
  unfold TreeFiles.read find
  constructor
  · intro h
    obtain ⟨⟨place, entry⟩, hfind, h⟩ := Failure.bind_eq_ok.mp h
    obtain ⟨located, hlocated, hfind⟩ := Failure.bind_eq_ok.mp hfind
    cases located with
    | absent => cases hfind
    | present place' =>
      dsimp only at hfind
      cases hget : t.get? place' with
      | none =>
        rw [hget] at hfind
        cases hfind
      | some entry' =>
        rw [hget] at hfind
        cases hfind
        cases entry with
        | file content' =>
          cases h
          exact ⟨place, hlocated, hget⟩
        | directory | link => cases h
  · rintro ⟨place, hlocated, hget⟩
    simp only [hlocated, bind, Except.bind, hget]

/-- What is read stays readable in a tree with more entries. -/
theorem Extends.read (h : t.Extends t') (hread : t.read p = .ok content) :
    t'.read p = .ok content := by
  obtain ⟨place, hlocated, hget⟩ := read_eq_ok.mp hread
  exact read_eq_ok.mpr ⟨place, h.keeps.locate hlocated nofun, h.entries _ _ hget⟩

/-- What was written over a file, or to a free place, is read. -/
theorem read_of_overwrite (h : t.overwrite p (fun _ => content) = .ok t') :
    t'.read p = .ok content := by
  obtain ⟨located, hlocated, h⟩ := Failure.bind_eq_ok.mp h
  have hput (hne : located.site ≠ [])
      (hkeeps : t.Keeps (t.put located.site (.file content))) :
      (t.put located.site (.file content)).read p = .ok content := by
    have hget : (t.put located.site (.file content)).get? located.site =
        some (.file content) := by
      rw [get?_put t hne, if_pos rfl]
    refine read_eq_ok.mpr ⟨located.site, hkeeps.locate hlocated fun directory name heq => ?_, hget⟩
    subst heq
    exact ⟨content, hget⟩
  cases located with
  | present place =>
    dsimp only at h
    split at h
    · rename_i old hold
      cases h
      exact hput (ne_nil_of_get? hold nofun) (keeps_put hold content)
    · cases h
  | absent directory name =>
    cases h
    have hfree := get?_of_absent hlocated
    exact hput (ne_nil_of_get? hfree nofun) (extends_put hfree _).keeps

/-- A file that is read can be written over. -/
theorem exists_overwrite (h : t.read p = .ok content) (change : ByteArray → ByteArray) :
    ∃ t', t.overwrite p change = .ok t' := by
  obtain ⟨place, hlocated, hget⟩ := read_eq_ok.mp h
  refine ⟨t.put place (.file (change content)), ?_⟩
  simp only [overwrite, hlocated, bind, Except.bind, hget]

/-! ## Making directories -/

theorem extends_create {entry : TreeEntry} (h : t.create p entry = .ok t') : t.Extends t' := by
  obtain ⟨located, hlocated, h⟩ := Failure.bind_eq_ok.mp h
  cases located with
  | present => cases h
  | absent directory name =>
    cases h
    exact extends_put (get?_of_absent hlocated) entry

theorem extends_makeDirectory (h : t.makeDirectory p = .ok t') : t.Extends t' := by
  unfold makeDirectory at h
  split at h
  · rename_i hcreate
    cases h
    exact extends_create hcreate
  · split at h
    · cases h
      exact .refl _
    · cases h

theorem extends_createDirectories {depth : Nat} (h : t.createDirectories depth p = .ok t') :
    t.Extends t' := by
  induction depth generalizing p t' with
  | zero => cases h
  | succ depth ih =>
    rw [createDirectories] at h
    split at h
    · cases h
      exact .refl _
    split at h
    · split at h
      · obtain ⟨t₁, habove, hlast⟩ := Failure.bind_eq_ok.mp h
        exact (ih habove).trans (extends_makeDirectory hlast)
      · cases h
    · exact extends_makeDirectory h

/-! ## The law -/

/-- A write makes directories at most, or ends with the file. -/
theorem write_cases {result : Except Failure Unit} (h : t.write p content = (result, t')) :
    (result = .ok () ∧ t'.read p = .ok content) ∨
      (∃ e, result = .error e) ∧ t.Extends t' ∧
        (t' = t ∨ ∃ fault, t'.overwrite p (fun _ => content) = .error fault) := by
  unfold write at h
  dsimp only at h
  split at h
  · cases h
    exact Or.inr ⟨⟨_, rfl⟩, .refl _, Or.inl rfl⟩
  · rename_i t₁ habove
    have hextends : t.Extends t₁ := by
      split at habove
      · exact extends_createDirectories (Failure.mapError_eq_ok.mp habove)
      · cases habove
        exact .refl _
    cases hwrite : t₁.overwrite p fun _ => content with
    | error fault =>
      rw [hwrite] at h
      cases h
      exact Or.inr ⟨⟨_, rfl⟩, hextends, Or.inr ⟨fault, hwrite⟩⟩
    | ok t₂ =>
      rw [hwrite] at h
      cases h
      exact Or.inl ⟨rfl, read_of_overwrite hwrite⟩

theorem isFile_iff : t.isFile p = true ↔ ∃ content, t.read p = .ok content := by
  unfold isFile
  cases t.read p with
  | error fault => exact ⟨nofun, nofun⟩
  | ok content => exact ⟨fun _ => ⟨content, rfl⟩, fun _ => rfl⟩

/-- A text is read from its bytes. -/
theorem readText_of_read {text : String} (h : t.read p = .ok text.toUTF8) :
    t.readText p = .ok text := by
  have hbytes : failing "reading" p (t.read p) = .ok text.toUTF8 := Failure.mapError_eq_ok.mpr h
  refine Failure.bind_eq_ok.mpr ⟨text.toUTF8, hbytes, ?_⟩
  rw [Text.decode_toUTF8]

instance : LawfulFiles TreeFiles where
  written {files files' path text} h := by
    rcases write_cases h with ⟨_, hread⟩ | ⟨⟨_, herror⟩, _⟩
    · exact ⟨isFile_iff.mpr ⟨_, hread⟩, readText_of_read hread⟩
    · cases herror
  unwritten {files files' path content e} h := by
    rcases write_cases h with ⟨hok, _⟩ | ⟨_, hextends, rfl | ⟨fault, hfault⟩⟩
    · cases hok
    · exact ⟨rfl, fun _ => rfl⟩
    · -- neither before nor after the directories were made was there a file
      have hnone : files'.isFile path ≠ true := by
        intro hfile
        obtain ⟨old, hread⟩ := isFile_iff.mp hfile
        obtain ⟨_, hwrite⟩ := exists_overwrite hread fun _ => content
        rw [hwrite] at hfault
        cases hfault
      have hbefore : files.isFile path ≠ true := by
        intro hfile
        obtain ⟨old, hread⟩ := isFile_iff.mp hfile
        exact hnone (isFile_iff.mpr ⟨old, hextends.read hread⟩)
      exact ⟨(Bool.eq_false_iff.mpr hnone).trans (Bool.eq_false_iff.mpr hbefore).symm,
        fun hfile => absurd hfile hbefore⟩

end Cascade.TreeFiles
