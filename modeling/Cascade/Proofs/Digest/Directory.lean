import Cascade.Proofs.Digest.Collect
import Cascade.Proofs.Store.Cache

/-!
# Digests while a store is written

The directory of the store never counts as content.  So the digest of a directory
is the same before and after the store came into being or has changed, unless the
directory lies in that of the store (`directoryHash_grown`).

One spelling is apart.  Below the empty root, the directory of the store is listed
by the directory that is here, under a name that leads nowhere from there.
-/

namespace Cascade

namespace Digest

/-! ## What persists -/

variable {α : Type} {root base : Path} {exclusion : Exclusion} {recursive : Bool} {depth : Nat}
  {m m' : MemoryFiles}

/-- What was found in one tree and can be read there is found in another, and reads
the same. -/
def Persists (m m' : MemoryFiles) (x y : Except Failure (List (String × DirEntry))) : Prop :=
  ∀ found, x = .ok found → (∀ e ∈ found, ∃ bytes, record m e = .ok bytes) →
    y = .ok found ∧ ∀ e ∈ found, record m' e = record m e

theorem persists_nil (m m' : MemoryFiles) : Persists m m' (.ok []) (.ok []) := by
  intro found h _
  cases h
  exact ⟨rfl, List.forall_mem_nil _⟩

theorem persists_gather {f g : α → Except Failure (List (String × DirEntry))} {l : List α}
    (h : ∀ a ∈ l, Persists m m' (f a) (g a)) : Persists m m' (gather f l) (gather g l) := by
  intro found hfound hreadable
  refine ⟨gather_congr hfound fun a ha answer hanswer hsub =>
    (h a ha answer hanswer fun e he => hreadable e (hsub he)).1, fun e he => ?_⟩
  obtain ⟨a, ha, answer, hanswer, hsub, hmem⟩ := mem_of_gather hfound he
  exact (h a ha answer hanswer fun e he => hreadable e (hsub he)).2 e hmem

/-- The entry of a name in a directory. -/
def entryAt (m : MemoryFiles) (directory : Path) (name : String) : DirEntry :=
  ⟨directory.join name, MemoryFiles.kindOf (m.find? (directory.join name))⟩

theorem collect_of_directory {directory : Path} {names : Std.TreeSet String}
    (h : m.find? directory = some (.directory names)) :
    collect m base exclusion recursive (depth + 1) directory =
      gather (fun name => visit m base exclusion recursive depth (entryAt m directory name))
        names.toList := by
  rw [collect_succ, MemoryFiles.list_of_directory h, List.map_map]
  exact gather_map ..

theorem directory_of_collect {directory : Path} {found : List (String × DirEntry)}
    (h : collect m base exclusion recursive (depth + 1) directory = .ok found) :
    ∃ names, m.find? directory = some (.directory names) := by
  rw [collect_succ] at h
  obtain ⟨_, hlist, _⟩ := Failure.bind_eq_ok.mp h
  exact MemoryFiles.directory_of_list hlist

theorem record_congr {relative : String} {entry : DirEntry}
    (h : m'.content entry.path = m.content entry.path) :
    record m' (relative, entry) = record m (relative, entry) := by
  have hhash : fileHash m' entry.path = fileHash m entry.path := by
    have hopen (m : MemoryFiles) :
        FileSystem.openFile m entry.path = (m.content entry.path).map .ok := rfl
    rw [fileHash, fileHash, hopen, hopen, h]
  unfold record
  rw [hhash]

/-- The directories of the store's name do not count. -/
theorem visit_state {directory : Path} (h : (entryAt m directory ".depdag").kind = .directory) :
    visit m base exclusion recursive depth (entryAt m directory ".depdag") = .ok [] := by
  have hname : (entryAt m directory ".depdag").name = ".depdag" := by
    rw [DirEntry.name, entryAt, Path.fileName?_join_name _ ⟨by decide, by decide, by decide,
      by decide⟩]
    rfl
  have hexcluded : exclusion.excludes (relativeTo base (entryAt m directory ".depdag").path)
      (entryAt m directory ".depdag").name true = true := by
    rw [hname, Exclusion.excludes]
    rfl
  unfold visit
  simp only [h, decide_true, hexcluded, if_true]

/-- What an entry adds persists if the entry does and, should it be a directory that
counts, what is below it does. -/
theorem persists_visit {directory : Path} {name : String}
    (hsame : (m'.find? (directory.join name)).map (MemoryFiles.besides ".depdag") =
      (m.find? (directory.join name)).map (MemoryFiles.besides ".depdag"))
    (hbelow : name ≠ ".depdag" →
      Persists m m' (collect m base exclusion recursive depth (directory.join name))
        (collect m' base exclusion recursive depth (directory.join name))) :
    Persists m m' (visit m base exclusion recursive depth (entryAt m directory name))
      (visit m' base exclusion recursive depth (entryAt m' directory name)) := by
  have hentry : entryAt m' directory name = entryAt m directory name := by
    rw [entryAt, entryAt, MemoryFiles.kindOf_of_besides hsame]
  rw [hentry]
  by_cases hstate : name = ".depdag" ∧ (entryAt m directory name).kind = .directory
  · obtain ⟨rfl, hkind⟩ := hstate
    rw [visit_state hkind]
    have hvisit' : visit m' base exclusion recursive depth (entryAt m' directory ".depdag") =
        .ok [] := visit_state (hentry ▸ hkind)
    rw [hentry] at hvisit'
    rw [hvisit']
    exact persists_nil m m'
  · unfold visit
    dsimp only
    split
    · exact persists_nil m m'
    split
    · rename_i hkind
      have hkind : (entryAt m directory name).kind = .directory := of_decide_eq_true hkind
      split
      · exact hbelow fun hname => hstate ⟨hname, hkind⟩
      · exact persists_nil m m'
    · intro found hfound _
      cases hfound
      refine ⟨rfl, fun e he => ?_⟩
      rw [List.mem_singleton.mp he]
      exact record_congr (MemoryFiles.content_of_besides hsame)

/-- Only the directory of the store lies below the root under its name. -/
theorem not_stateKey_prefix {key : List String} {name : String}
    (hkey : ¬ MemoryFiles.stateKey root <+: key)
    (hne : name = ".depdag" → key ≠ root.components) :
    ¬ MemoryFiles.stateKey root <+: key ++ [name] := by
  rw [List.prefix_concat_iff, not_or]
  refine ⟨fun h => ?_, hkey⟩
  obtain ⟨hcomponents, hname⟩ := List.append_inj' h rfl
  exact hne (List.singleton_inj.mp hname).symm hcomponents.symm

/-- A name that leads nowhere cannot be read, so it is none of what was found. -/
theorem visit_of_missing {directory : Path} {name : String}
    {found answer : List (String × DirEntry)}
    (hmissing : m.find? (directory.join name) = none)
    (hvisit : visit m base exclusion recursive depth (entryAt m directory name) = .ok answer)
    (hsub : answer ⊆ found) (hreadable : ∀ e ∈ found, ∃ bytes, record m e = .ok bytes) :
    visit m base exclusion recursive depth (entryAt m directory name) = .ok [] := by
  have hkind : (entryAt m directory name).kind = .file := by rw [entryAt, hmissing]; rfl
  have hvisited : visit m base exclusion recursive depth (entryAt m directory name) = .ok [] ∨
      visit m base exclusion recursive depth (entryAt m directory name) =
        .ok [(relativeTo base (directory.join name), entryAt m directory name)] := by
    unfold visit
    dsimp only
    split
    · exact Or.inl rfl
    · rw [if_neg (by rw [hkind]; decide)]
      exact Or.inr rfl
  refine hvisited.resolve_right fun hfound => ?_
  rw [hfound] at hvisit
  cases hvisit
  obtain ⟨bytes, hbytes⟩ := hreadable _ (hsub (List.mem_singleton_self _))
  have hcontent : m.content (directory.join name) =
      .error (MemoryFiles.notFound (directory.join name)) := by
    rw [MemoryFiles.content, hmissing]
  have hopen : FileSystem.openFile m (directory.join name) =
      .error (MemoryFiles.notFound (directory.join name)) := by
    change (m.content (directory.join name)).map Except.ok = _
    rw [hcontent]
    rfl
  unfold record at hbytes
  rw [entryAt, hmissing] at hbytes
  simp only [MemoryFiles.kindOf, fileHash, hopen] at hbytes
  cases hbytes

/-- A directory lists the same names beside one if the entry is the same beside it. -/
theorem names_of_besides {name : String} {entry : Option MemoryEntry} {names : Std.TreeSet String}
    (h : entry.map (MemoryFiles.besides name) =
      (some (.directory names)).map (MemoryFiles.besides name)) :
    ∃ names', entry = some (.directory names') ∧
      names'.toList.filter (· ≠ name) = names.toList.filter (· ≠ name) := by
  obtain ⟨entry, rfl, hsame⟩ := Option.map_eq_some_iff.mp h
  cases entry with
  | directory names' => exact ⟨names', rfl, Sum.inl.inj hsame⟩
  | file | link => cases hsame

/-- What counts in the root's directory persists if the entries beside that of the store
do. -/
theorem persists_root (hg : MemoryFiles.Grown root m m') {directory : Path}
    (hroot : directory.components = root.components)
    (hkey : MemoryFiles.rootKey root = root.components) {names : Std.TreeSet String}
    (hnames : m.find? directory = some (.directory names))
    (hothers : ∀ name ∈ names, name ≠ ".depdag" →
      Persists m m' (visit m base exclusion recursive depth (entryAt m directory name))
        (visit m' base exclusion recursive depth (entryAt m' directory name))) :
    Persists m m' (collect m base exclusion recursive (depth + 1) directory)
      (collect m' base exclusion recursive (depth + 1) directory) := by
  have hstate (m : MemoryFiles) : m.find? (directory.join ".depdag") =
      m.entries[MemoryFiles.stateKey root]? := by
    rw [MemoryFiles.find?, directory.components_join_name ⟨by decide, by decide, by decide,
      by decide⟩, hroot, MemoryFiles.stateKey]
  have hfind (m : MemoryFiles) : m.find? directory = m.entries[MemoryFiles.rootKey root]? := by
    rw [MemoryFiles.find?, hroot, hkey]
  rw [collect_of_directory hnames]
  rcases hg.state with ⟨hsame, hsameRoot⟩ | ⟨hbefore, hdirectory, hbesides⟩
  · have hnames' : m'.find? directory = some (.directory names) := by
      rw [hfind, hsameRoot, ← hfind]
      exact hnames
    rw [collect_of_directory hnames']
    refine persists_gather fun name hname => ?_
    rw [Std.TreeSet.mem_toList] at hname
    by_cases hdepdag : name = ".depdag"
    · subst hdepdag
      exact persists_visit (by rw [hstate, hstate, hsame]) fun h => absurd rfl h
    · exact hothers name hname hdepdag
  · rw [← hfind, ← hfind, hnames] at hbesides
    obtain ⟨names', hnames', hfilter⟩ := names_of_besides hbesides
    intro found hfound hreadable
    rw [collect_of_directory hnames']
    -- the directory of the store adds nothing, before it is there and afterwards
    have hvisit : ∀ name ∈ names.toList, decide (name ≠ ".depdag") = false →
        visit m base exclusion recursive depth (entryAt m directory name) = .ok [] := by
      intro name hname hdepdag
      obtain rfl : name = ".depdag" := by simpa using hdepdag
      rcases hbefore with hnone | hkind
      · obtain ⟨answer, hanswer, hsub⟩ := answer_of_gather hfound hname
        exact visit_of_missing ((hstate m).trans hnone) hanswer hsub hreadable
      · exact visit_state (by rw [entryAt, hstate m, hkind])
    have hvisit' : ∀ name ∈ names'.toList, decide (name ≠ ".depdag") = false →
        visit m' base exclusion recursive depth (entryAt m' directory name) = .ok [] := by
      intro name _ hdepdag
      obtain rfl : name = ".depdag" := by simpa using hdepdag
      exact visit_state (by rw [entryAt, hstate m', hdirectory])
    rw [gather_filter hvisit] at hfound
    rw [gather_filter hvisit', hfilter]
    refine persists_gather (fun name hname => ?_) found hfound hreadable
    obtain ⟨hname, hne⟩ := List.mem_filter.mp hname
    exact hothers name (Std.TreeSet.mem_toList.mp hname) (of_decide_eq_true hne)

/-- What counts below a directory persists while the store is written. -/
theorem persists_collect (hg : MemoryFiles.Grown root m m') (ht : m.Tidy) (directory : Path)
    (hkey : ¬ MemoryFiles.stateKey root <+: directory.components)
    (hhere : root.components = [] → directory.components ≠ MemoryFiles.here) :
    Persists m m' (collect m base exclusion recursive depth directory)
      (collect m' base exclusion recursive depth directory) := by
  induction depth generalizing directory with
  | zero => nofun
  | succ depth ih =>
    intro found hfound hreadable
    obtain ⟨names, hnames⟩ := directory_of_collect hfound
    -- below names that do not lead into the directory of the store
    have hchild : ∀ name ∈ names, (name = ".depdag" → directory.components ≠ root.components) →
        Persists m m' (visit m base exclusion recursive depth (entryAt m directory name))
          (visit m' base exclusion recursive depth (entryAt m' directory name)) := by
      intro name hname hne
      have hisName := ht.names hnames name hname
      have hcomponents := directory.components_join_name hisName
      have hkey' : ¬ MemoryFiles.stateKey root <+: (directory.join name).components := by
        rw [hcomponents]
        exact not_stateKey_prefix hkey hne
      refine persists_visit (hg.besides hkey') fun _ => ih _ hkey' fun _ h => ?_
      have hsplit : directory.components ++ [name] = [] ++ ["."] := hcomponents.symm.trans h
      exact hisName.ne_dot (List.singleton_inj.mp (List.append_inj' hsplit rfl).2)
    by_cases hroot : directory.components = MemoryFiles.rootKey root
    · have hroot' : MemoryFiles.rootKey root = root.components := by
        refine (MemoryFiles.rootKey_eq root).resolve_left fun ⟨hnil, hkey⟩ => ?_
        exact hhere hnil (hroot.trans hkey)
      exact persists_root hg (hroot.trans hroot') hroot' hnames
        (fun name hname hne => hchild name hname fun h => absurd h hne) found hfound hreadable
    · have hnames' : m'.find? directory = some (.directory names) := by
        rw [MemoryFiles.find?, hg.others hkey hroot]
        exact hnames
      rw [collect_of_directory hnames] at hfound
      rw [collect_of_directory hnames']
      refine persists_gather (fun name hname => ?_) found hfound hreadable
      rw [Std.TreeSet.mem_toList] at hname
      refine hchild name hname fun _ hcomponents => ?_
      rcases MemoryFiles.rootKey_eq root with ⟨hnil, _⟩ | hroot'
      · rw [MemoryFiles.find?, hcomponents, hnil] at hnames
        exact ht.nameless hnames name hname
      · exact hroot (hcomponents.trans hroot'.symm)

/-- The number of levels that are entered does not matter in a tree that is tidy. -/
theorem collect_levels (ht : m.Tidy) {depth depth' : Nat} (h : m.entries.size < depth)
    (h' : m.entries.size < depth') : collect m base exclusion recursive depth base =
      collect m base exclusion recursive depth' base :=
  collect_enough (wellListed_of_tidy ht base exclusion)
    (fun _ hstands _ => MemoryFiles.length_le_of_stands hstands) .root enters_nil (by simpa)
    (by simpa)

/-- The digest of a directory is the same while the store is written. -/
theorem directoryHash_grown (hg : MemoryFiles.Grown root m m') (ht : m.Tidy) (ht' : m'.Tidy)
    (hkey : ¬ MemoryFiles.stateKey root <+: base.components)
    (hhere : root.components = [] → base.components ≠ MemoryFiles.here) {hash : String}
    (h : directoryHash m base exclusion recursive = .ok hash) :
    directoryHash m' base exclusion recursive = .ok hash := by
  unfold directoryHash at h ⊢
  rw [map_eq_pure_bind] at h ⊢
  obtain ⟨message, hmessage, h⟩ := Failure.bind_eq_ok.mp h
  rw [directoryMessage_eq] at hmessage ⊢
  obtain ⟨found, hfound, hrecords⟩ := Failure.bind_eq_ok.mp hmessage
  have hreadable : ∀ e ∈ found, ∃ bytes, record m e = .ok bytes := by
    intro e he
    obtain ⟨bytes, hbytes, _⟩ := answer_of_gather hrecords (List.mem_mergeSort.mpr he)
    exact ⟨bytes, hbytes⟩
  -- levels enough for both trees
  have hlevels : counted m base exclusion recursive =
      collect m base exclusion recursive (m.entries.size + m'.entries.size + 1) base :=
    collect_levels ht (size_lt_levels m) (by omega)
  have hlevels' : counted m' base exclusion recursive =
      collect m' base exclusion recursive (m.entries.size + m'.entries.size + 1) base :=
    collect_levels ht' (size_lt_levels m') (by omega)
  rw [hlevels] at hfound
  obtain ⟨hfound', hrecord⟩ := persists_collect hg ht base hkey hhere found hfound hreadable
  have hrecords' := gather_congr hrecords fun e he answer hanswer _ =>
    (hrecord e (List.mem_mergeSort.mp he)).trans hanswer
  rw [hlevels', hfound']
  change (gather (record m') _ >>= fun message => pure (Blake3.hexHash message)) = _
  rw [hrecords']
  exact h

end Digest

end Cascade
