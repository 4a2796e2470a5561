import Cascade.Proofs.Dependency.Again
import Cascade.Proofs.Digest.Directory
import Cascade.Proofs.Store.Modes

/-!
# Files since a run has begun

A run whose backend and hooks leave the files alone changes them only by writing
its store.  `Since` says how the files have changed so far, for a store of either
mode.  Directories that are `Apart` from the store are still resolved as they were,
and still have the same digest.
-/

namespace Cascade

namespace MemoryFiles

variable {root : Path} {m m' : MemoryFiles}

theorem size_le_enlist (name : String) (parent : List String) (m : MemoryFiles) :
    m.entries.size ≤ (enlist name parent m).entries.size :=
  Std.TreeMap.size_le_size_insert

/-- Adding a file takes no entry away. -/
theorem size_le_addFile (m : MemoryFiles) (p : Path) (content : ByteArray) :
    m.entries.size ≤ (m.addFile p content).entries.size :=
  linkUp_induction (P := fun m' => m.entries.size ≤ m'.entries.size) _
    (fun name _ m' _ _ h => h.trans (size_le_enlist name _ m')) Std.TreeMap.size_le_size_insert

theorem isFile_of_besides {name : String} {p : Path}
    (h : (m'.find? p).map (besides name) = (m.find? p).map (besides name)) :
    m'.isFile p = m.isFile p := by
  unfold isFile
  obtain heq | ⟨_, _, hfind, hfind'⟩ := cases_of_besides h
  · rw [heq]
  · rw [hfind, hfind']

theorem canonical_eq_ok {p path : Path} :
    FileSystem.canonical m p = .ok path ↔ path = p ∧ (m.find? p).isSome = true := by
  change (if (m.find? p).isSome then Except.ok p else .error (notFound p)) = _ ↔ _
  split
  · rename_i hfound
    simp only [Except.ok.injEq, hfound, and_true, eq_comm]
  · rename_i hmissing
    simp only [hmissing, and_false, reduceCtorEq]

/-- A tree that holds the file of the store has the directory of the store. -/
theorem Built.mem_stateKey (hm : m.Built) (h : m.isFile (Store.filePath root) = true) :
    stateKey root ∈ m.entries := by
  have hfile : ("cache" :: (stateKey root).reverse).reverse ∈ m.entries := by
    have hkey : ("cache" :: (stateKey root).reverse).reverse =
        (Store.filePath root).components := by
      rw [components_filePath, List.reverse_cons, List.reverse_reverse]
    rw [hkey, Std.TreeMap.mem_iff_isSome_getElem?]
    unfold isFile at h
    change (m.find? (Store.filePath root)).isSome = true
    cases hfind : m.find? (Store.filePath root) with
    | none =>
      rw [hfind] at h
      cases h
    | some _ => rfl
  have hparent := (hm.tidy_joined.2 _ _ (List.cons_ne_nil _ _) hfile).resolve_left
    (by simp [isTop, stateKey])
  have hkey : parentKey (stateKey root).reverse = stateKey root := by simp [parentKey, stateKey]
  rwa [hkey] at hparent

/-! ## What has changed -/

/-- Files in a run, since it began: unless the store writes into them, they are the same. -/
def Since (mode : Store.Mode) (root : Path) (m m' : MemoryFiles) : Prop :=
  match mode with
  | .memory => m' = m
  | .file => m'.Built ∧ Grown root m m' ∧ m.entries.size ≤ m'.entries.size

/-- The ID of a directory that does not lie in that of the store, and that is not the
directory that is here when the root is empty. -/
def Apart (mode : Store.Mode) (root : Path) (id : String) : Prop :=
  match mode with
  | .memory => True
  | .file => ¬ stateKey root <+: (Path.mk id).components ∧
      (root.components = [] → (Path.mk id).components ≠ here)

theorem Since.refl (mode : Store.Mode) (root : Path) (hm : m.Built) : Since mode root m m := by
  cases mode with
  | memory => rfl
  | file => exact ⟨hm, .refl root m, le_refl _⟩

/-- The root is apart from the directory below it. -/
theorem apart_root (mode : Store.Mode) (root : Path) : Apart mode root root.text := by
  cases mode with
  | memory => trivial
  | file =>
    refine ⟨fun h => ?_, fun hnil hhere => ?_⟩
    · have hlength : (stateKey root).length ≤ root.components.length := h.length_le
      rw [stateKey, List.length_append, List.length_singleton] at hlength
      omega
    · cases hnil.symm.trans hhere

theorem apart_rootId (mode : Store.Mode) (root : Path) :
    Apart mode root DependencyGraph.rootId := by
  have hcomponents : (Path.mk DependencyGraph.rootId).components = [] ++ ["__root__"] := by decide
  cases mode with
  | memory => trivial
  | file =>
    refine ⟨fun h => ?_, fun _ => by decide⟩
    rw [hcomponents, List.prefix_concat_iff] at h
    rcases h with h | h
    · exact absurd (List.append_inj' h rfl).2 (by decide)
    · exact absurd (List.eq_nil_of_prefix_nil h) (by simp [stateKey])

/-- What a directory apart from the store contains is apart from the store. -/
theorem find?_besides (hg : Grown root m m') (directory : Path) {name : String}
    (hname : Path.IsName name) (hne : name ≠ ".depdag")
    (hkey : ¬ stateKey root <+: directory.components) :
    (m'.find? (directory.join name)).map (besides ".depdag") =
      (m.find? (directory.join name)).map (besides ".depdag") := by
  refine hg.besides ?_
  rw [directory.components_join_name hname]
  exact Digest.not_stateKey_prefix hkey fun h => absurd h hne

/-- Directories apart from the store are still there, and have the same configuration. -/
theorem Since.retains {mode : Store.Mode} (h : Since mode root m m') :
    Resolver.Retains (Apart mode root) m m' := by
  cases mode with
  | memory =>
    cases h
    exact ⟨le_refl _, fun _ h => h, fun _ h => h⟩
  | file =>
    obtain ⟨_, hg, hsize⟩ := h
    refine ⟨hsize, fun {p path} hapart hthere => ?_, fun {path config} hapart hconfig => ?_⟩
    · obtain ⟨rfl, hfound⟩ := canonical_eq_ok.mp hthere
      have hsame := congrArg Option.isSome (hg.besides hapart.1)
      rw [Option.isSome_map, Option.isSome_map] at hsame
      exact canonical_eq_ok.mpr ⟨rfl, hsame.trans hfound⟩
    · have hname : Path.IsName Config.fileName := ⟨by decide, by decide, by decide, by decide⟩
      have hsame := find?_besides hg path hname (by decide) hapart.1
      have hisFile : FileSystem.isFile m' (path.join Config.fileName) =
          FileSystem.isFile m (path.join Config.fileName) := isFile_of_besides hsame
      have hread : FileSystem.readText m' (path.join Config.fileName) =
          FileSystem.readText m (path.join Config.fileName) := by
        change m'.readText _ = m.readText _
        rw [readText, readText, content_of_besides hsame]
      unfold Config.loadDirectory at hconfig ⊢
      dsimp only at hconfig ⊢
      rw [hisFile, hread]
      exact hconfig

end MemoryFiles

open MemoryFiles

/-! ## What the store has written -/

variable {mode : Store.Mode} {root : Path} {m : MemoryFiles}

/-- Writing the store is the only change there is. -/
theorem Stored.keeping_since (mode : Store.Mode) (hroot : rootKey root ∈ m.entries) :
    Stored.Keeping (fun s => s.Held mode root ∧ Since mode root m s.files)
      (Stored.Storable mode) where
  readable hs := (Stored.keeping_held mode root).readable hs.1
  replace {s hashes} hs hlegal := by
    obtain ⟨hheld, hentry⟩ := (Stored.keeping_held mode root).replace hs.1 hlegal
    refine ⟨⟨hheld, ?_⟩, hentry⟩
    cases mode with
    | memory =>
      rw [Stored.replace_of_inMemory hs.1]
      exact hs.2
    | file =>
      obtain ⟨hbuilt, hg, hsize⟩ := hs.2
      rw [Stored.replace_of_file hs.1.1]
      exact ⟨hbuilt.addFile _ _, hg.addFile hroot _, hsize.trans (size_le_addFile ..)⟩

/-- A digest that was taken in a run is the one that is taken after it has stored
anything. -/
theorem Dependency.directoryHash_since {s s' : Stored MemoryFiles} (hs : Since mode root m s.files)
    (hs' : Since mode root m s'.files) (hheld : s'.Held mode root) {d : Dependency}
    (hapart : Apart mode root d.path.text) {id stored : String} (hentry : s'.entry id = some stored)
    {hash : String} (h : d.directoryHash s.files = .ok hash) :
    d.directoryHash s'.files = .ok hash := by
  cases mode with
  | memory =>
    have hfiles : s'.files = s.files := Eq.trans hs' (Eq.symm hs)
    rwa [hfiles]
  | file =>
    obtain ⟨hstore, hashes, hall⟩ := hheld
    have hisFile : s'.files.isFile (Store.filePath root) = true := by
      rw [Stored.entry_of_all hall] at hentry
      rw [hstore, Store.all] at hall
      split at hall
      · assumption
      · cases hall
        cases Std.TreeMap.getElem?_emptyc.symm.trans hentry
    have hgrown := hs.2.1.of_common hs'.2.1 (hs'.1.mem_stateKey hisFile)
    exact Failure.mapError_eq_ok.mpr (Digest.directoryHash_grown hgrown hs.1.tidy_joined.1
      hs'.1.tidy_joined.1 hapart.1 hapart.2 (Failure.mapError_eq_ok.mp h))

end Cascade
