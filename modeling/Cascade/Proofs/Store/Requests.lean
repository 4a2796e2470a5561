import Cascade.Proofs.Store.Modes

/-!
# Stores that serve requests

A store is asked to load, to save, to remove and to prune, and it may be opened
again in between.  `Request.effect` and `Request.answer` say what a request does
to the entries of a store, and what is answered to it, whatever the store is
made of.  Both kinds of stores do just that (`answers_eq_expected`), as long as
they are asked to save nothing that they cannot keep.

A store in a file cannot keep everything.  `entries_apart` tells exactly which
IDs it can: those that start and end with no blank, are not empty and have no
newline.
-/

namespace Cascade.Stored

variable {φ : Type} [FileSystem φ]

/-! ## Requests -/

/-- What a store can be asked for. -/
inductive Request where
  | load (id : String)
  | save (id hash : String)
  | remove (id : String)
  | prune (ids : List String)
  /-- Leave the store and open it again. -/
  | reopen

namespace Request

/-- The entries after a request. -/
def effect (r : Request) (entry : String → Option String) : String → Option String :=
  match r with
  | .save id hash => Function.update entry id (some hash)
  | .remove id => Function.update entry id none
  | .prune ids => fun id => if id ∈ ids then entry id else none
  | .load _ | .reopen => entry

/-- What is answered to a request: the entry that is loaded, and nothing else. -/
def answer (r : Request) (entry : String → Option String) : Option String :=
  match r with
  | .load id => entry id
  | _ => none

/-- If a request is to save something, this is legal. -/
def Within (legal : String → String → Prop) : Request → Prop
  | .save id hash => legal id hash
  | _ => True

instance (legal : String → String → Prop) [∀ id hash, Decidable (legal id hash)] (r : Request) :
    Decidable (r.Within legal) :=
  match r with
  | .save id hash => inferInstanceAs (Decidable (legal id hash))
  | .load _ | .remove _ | .prune _ | .reopen => inferInstanceAs (Decidable True)

end Request

/-- What is answered to requests, one after the other. -/
def expected : List Request → (String → Option String) → List (Option String)
  | [], _ => []
  | r :: rest, entry => r.answer entry :: expected rest (r.effect entry)

/-! ## Stores -/

omit [FileSystem φ] in
/-- A store that is opened again.  A store in a file is made anew from its root; one
in memory is still there. -/
def reopened (s : Stored φ) : Stored φ :=
  match s.store with
  | .memory _ => s
  | .file root => { s with store := .open .file root }

/-- Serve a request. -/
def serve (r : Request) (s : Stored φ) : Except Failure (Option String) × Stored φ :=
  match r with
  | .load id => (s.store.load s.files id, s)
  | .save id hash => ((s.save id hash).1.map fun _ => none, (s.save id hash).2)
  | .remove id => ((s.remove id).1.map fun _ => none, (s.remove id).2)
  | .prune ids => ((s.prune ids).1.map fun _ => none, (s.prune ids).2)
  | .reopen => (.ok none, s.reopened)

/-- The answers of a store to requests, one after the other. -/
def answers : List Request → Stored φ → List (Except Failure (Option String))
  | [], _ => []
  | r :: rest, s => (serve r s).1 :: answers rest (serve r s).2

/-- The store when requests have been served. -/
def served (requests : List Request) (s : Stored φ) : Stored φ :=
  requests.foldl (fun s r => (serve r s).2) s

omit [FileSystem φ] in
@[simp]
theorem reopened_eq (s : Stored φ) : s.reopened = s := by
  obtain ⟨files, store⟩ := s
  cases store <;> rfl

/-! ## Stores that never fail -/

/-- A kind of stores that replace all hashes whenever they are asked to. -/
def Sure (kind : Stored φ → Prop) : Prop :=
  ∀ s, kind s → ∀ hashes, (s.replace hashes).1 = .ok ()

theorem sure_inMemory : Sure (InMemory (φ := φ)) := by
  intro s hs hashes
  rw [replace_of_inMemory hs]

/-- Files in memory can always be written. -/
theorem sure_inFile (root : Path) : Sure (InFile (φ := MemoryFiles) root) := by
  intro s hs hashes
  rw [replace_of_file hs.1]
  rfl

section Sure

variable {kind : Stored φ → Prop} {legal : String → String → Prop} {s : Stored φ}

theorem Sure.save (hu : Sure kind) (hk : Keeping kind legal) (hs : kind s) (id hash : String) :
    (s.save id hash).1 = .ok () := by
  obtain ⟨hashes, hall, _⟩ := hk.readable hs
  rw [Stored.save, Stored.update, hall]
  exact hu s hs _

theorem Sure.remove (hu : Sure kind) (hk : Keeping kind legal) (hs : kind s) (id : String) :
    (s.remove id).1 = .ok () := by
  obtain ⟨hashes, hall, _⟩ := hk.readable hs
  rw [Stored.remove, Stored.update, hall]
  cases hcontains : hashes.contains id with
  | false => simp only [hcontains, Bool.false_eq_true, if_false]
  | true =>
    simp only [hcontains, if_true]
    exact hu s hs _

theorem Sure.prune (hu : Sure kind) (hk : Keeping kind legal) (hs : kind s) (ids : List String) :
    ∃ entries, (s.prune ids).1 = .ok entries := by
  obtain ⟨hashes, hall, _⟩ := hk.readable hs
  rw [Stored.prune, hall]
  by_cases hsize : (restrict hashes ids).size < hashes.size
  · simp only [hsize, if_true, hu s hs]
    exact ⟨_, rfl⟩
  · simp only [hsize, if_false]
    exact ⟨_, rfl⟩

/-- A request that is within what can be saved does to the entries what it should,
and is answered as it should be. -/
theorem serve_spec (hk : Keeping kind legal) (hu : Sure kind) (hs : kind s) {r : Request}
    (hr : r.Within legal) : (serve r s).1 = .ok (r.answer s.entry) ∧ kind (serve r s).2 ∧
      (serve r s).2.entry = r.effect s.entry := by
  cases r with
  | load id => exact ⟨hk.load hs id, hs, rfl⟩
  | save id hash =>
    obtain ⟨hkind, hentry⟩ := hk.save hs hr
    rw [hu.save hk hs] at hentry
    refine ⟨?_, hkind, hentry⟩
    rw [serve, hu.save hk hs]
    rfl
  | remove id =>
    obtain ⟨hkind, hentry⟩ := hk.remove hs id
    rw [hu.remove hk hs] at hentry
    refine ⟨?_, hkind, hentry⟩
    rw [serve, hu.remove hk hs]
    rfl
  | prune ids =>
    obtain ⟨hkind, hentry⟩ := hk.prune hs ids
    obtain ⟨entries, hprune⟩ := hu.prune hk hs ids
    rw [hprune] at hentry
    refine ⟨?_, hkind, hentry⟩
    rw [serve, hprune]
    rfl
  | reopen =>
    have hsame : (serve .reopen s).2 = s := reopened_eq s
    exact ⟨rfl, hsame.symm ▸ hs, congrArg entry hsame⟩

/-- All requests within what can be saved are answered as they should be. -/
theorem answers_eq_expected (hk : Keeping kind legal) (hu : Sure kind) {requests : List Request}
    (hs : kind s) (hlegal : ∀ r ∈ requests, r.Within legal) :
    answers requests s = (expected requests s.entry).map .ok := by
  induction requests generalizing s with
  | nil => rfl
  | cons r rest ih =>
    obtain ⟨hanswer, hkind, hentry⟩ := serve_spec hk hu hs (hlegal r (List.mem_cons_self ..))
    rw [answers, expected, List.map_cons, hanswer, ← hentry]
    exact congrArg _ (ih hkind fun r' hr' => hlegal r' (List.mem_cons_of_mem _ hr'))

end Sure

/-! ## Files and memory -/

/-- What a path holds at first: no file, or a text. -/
def Contains (files : MemoryFiles) (path : Path) : Option String → Prop
  | none => files.isFile path = false
  | some text => files.content path = .ok text.toUTF8

/-- The hashes that a path holds at first. -/
def initial (content : Option String) : Dictionary := (content.map Store.parse).getD ∅

theorem all_of_contains {files : MemoryFiles} {root : Path} {content : Option String}
    (h : Contains files (Store.filePath root) content) :
    (Store.file root).all files = .ok (initial content) := by
  cases content with
  | none =>
    have hisFile : FileSystem.isFile files (Store.filePath root) = false := h
    rw [Store.all, hisFile]
    rfl
  | some text =>
    have hisFile : FileSystem.isFile files (Store.filePath root) = true :=
      MemoryFiles.isFile_of_content h
    have hread : FileSystem.readText files (Store.filePath root) = .ok text :=
      MemoryFiles.readText_of_content h
    rw [Store.all, hisFile, hread]
    rfl

theorem inFile_of_contains {files : MemoryFiles} {root : Path} {content : Option String}
    (h : Contains files (Store.filePath root) content) :
    InFile root ⟨files, .file root⟩ := ⟨rfl, _, all_of_contains h⟩

/-- A store in a file answers requests as one in memory does that starts with the
hashes of the file, and neither ever fails.  In particular the hashes of a text are
those of what is written for them. -/
theorem answers_file_eq_memory {files : MemoryFiles} {root : Path} (content : Option String)
    (h : Contains files (Store.filePath root) content) (others : φ) {requests : List Request}
    (hlegal : ∀ r ∈ requests, r.Within Store.Legal) :
    answers requests (⟨files, .file root⟩ : Stored MemoryFiles) =
        answers requests (⟨others, .memory (initial content)⟩ : Stored φ) ∧
      (∀ answer ∈ answers requests (⟨files, .file root⟩ : Stored MemoryFiles),
        ∃ hash, answer = .ok hash) ∧
      ∀ text id : String, (Store.parse (Store.render (Store.parse text)))[id]? =
        (Store.parse text)[id]? := by
  have hfile := answers_eq_expected (keeping_inFile root) (sure_inFile root)
    (inFile_of_contains h) hlegal
  have hmemory : answers requests (⟨others, .memory (initial content)⟩ : Stored φ) =
      (expected requests (⟨others, .memory (initial content)⟩ : Stored φ).entry).map .ok :=
    answers_eq_expected keeping_inMemory sure_inMemory ⟨_, rfl⟩ fun r _ => by cases r <;> trivial
  have hentry : (⟨files, .file root⟩ : Stored MemoryFiles).entry =
      (⟨others, .memory (initial content)⟩ : Stored φ).entry := by
    rw [entry_of_all (all_of_contains h), entry_of_all rfl]
  refine ⟨?_, fun answer hanswer => ?_, fun text id => ?_⟩
  · rw [hfile, hmemory, hentry]
  · rw [hfile] at hanswer
    obtain ⟨hash, _, rfl⟩ := List.mem_map.mp hanswer
    exact ⟨hash, rfl⟩
  · exact Store.getElem?_parse_render (fun _ _ => Store.legal_of_parse) id

/-- A text that was edited by hand: a line is indented, ends with a return, has tabs
in it or no hash, and one ID is there twice. -/
def editedText : String := "  /my app 1\r\n/lib\t \t2\nnothing\n\n/lib 3"

/-- A tree with that text where a store looks for it. -/
def edited : MemoryFiles := MemoryFiles.empty.addFile (Store.filePath ⟨"/p"⟩) editedText.toUTF8

theorem contains_edited : Contains edited (Store.filePath ⟨"/p"⟩) (some editedText) := by
  rw [Contains, MemoryFiles.content, edited, MemoryFiles.addFile, MemoryFiles.find?_put]

/-- What is asked of a store in turn. -/
def someRequests : List Request :=
  [.load "/my app", .load "/lib", .save "/a\tb" "4", .remove "/my app", .reopen, .load "/my app",
    .load "/a\tb", .prune ["/lib", " /other"], .load "/a\tb", .load "/lib"]

theorem answers_file_eq_memory_edited :
    answers someRequests (⟨edited, .file ⟨"/p"⟩⟩ : Stored MemoryFiles) =
        answers someRequests (⟨edited, .memory (Store.parse editedText)⟩ : Stored MemoryFiles) ∧
      answers someRequests (⟨edited, .file ⟨"/p"⟩⟩ : Stored MemoryFiles) =
        [some "1", some "3", none, none, none, none, some "4", none, none, some "3"].map .ok :=
  ⟨(answers_file_eq_memory _ contains_edited edited (by decide +kernel)).1, by decide +kernel⟩

/-! ## Different IDs -/

/-- The hash that a store loads for an ID. -/
def loaded (s : Stored φ) (id : String) : Except Failure (Option String) :=
  s.store.load s.files id

/-- A store in a file can be read whatever it was asked for. -/
theorem inFile_serve [LawfulFiles φ] {root : Path} {s : Stored φ} (hs : s.InFile root)
    (r : Request) : (serve r s).2.InFile root := by
  have hk := keeping_inFile (φ := φ) root
  obtain ⟨hashes, hall⟩ := hs.2
  cases r with
  | load id => exact hs
  | save id hash =>
    have hsave : s.save id hash = s.replace (hashes.insert id hash) := by
      rw [Stored.save, Stored.update, hall]
    rw [serve, hsave]
    exact inFile_replace hs _
  | remove id => exact (hk.remove hs id).1
  | prune ids => exact (hk.prune hs ids).1
  | reopen =>
    rw [serve, reopened_eq]
    exact hs

theorem inFile_served [LawfulFiles φ] {root : Path} {s : Stored φ} (hs : s.InFile root)
    (requests : List Request) : (served requests s).InFile root := by
  induction requests generalizing s with
  | nil => exact hs
  | cons r rest ih => exact ih (inFile_serve hs r)

/-- What was saved for an ID is loaded if and only if a line can begin with the ID. -/
theorem loaded_save_iff {root : Path} {s : Stored MemoryFiles} (hs : s.InFile root)
    (x : String) {hash : String} (hhash : Store.IsHash hash) :
    loaded (s.save x hash).2 x = .ok (some hash) ↔ Store.IsKey x := by
  have hk := keeping_inFile (φ := MemoryFiles) root
  constructor
  · intro hload
    have hafter : (s.save x hash).2.InFile root := inFile_serve hs (.save x hash)
    obtain ⟨hashes, hall⟩ := hafter.2
    rw [loaded, hk.load hafter, entry_of_all hall] at hload
    exact (legal_of_inFile hafter hall (Except.ok.inj hload)).1
  · intro hx
    obtain ⟨hkind, hentry⟩ := hk.save hs (show Store.Legal x hash from ⟨hx, hhash⟩)
    rw [(sure_inFile root).save hk hs] at hentry
    rw [loaded, hk.load hkind, hentry]
    exact congrArg _ (Function.update_self ..)

/-- In a store in a file, what is saved for one ID and what is forgotten of it is no
matter of any other, and what is saved for an ID is loaded if and only if a line can
begin with the ID. -/
theorem entries_apart {files : MemoryFiles} {root : Path} (content : Option String)
    (h : Contains files (Store.filePath root) content) (requests : List Request)
    (x : String) {hash : String} (hhash : Store.IsHash hash) :
    let s := served requests (⟨files, .file root⟩ : Stored MemoryFiles)
    (s.save x hash).1 = .ok () ∧ (s.remove x).1 = .ok () ∧
      (loaded (s.save x hash).2 x = .ok (some hash) ↔ Store.IsKey x) ∧
      (Store.IsKey x → ∀ y, y ≠ x → loaded (s.save x hash).2 y = loaded s y) ∧
      loaded (s.remove x).2 x = .ok none ∧ ∀ y, y ≠ x → loaded (s.remove x).2 y = loaded s y := by
  intro s
  have hk := keeping_inFile (φ := MemoryFiles) root
  have hu := sure_inFile root
  have hs : s.InFile root := inFile_served (inFile_of_contains h) requests
  obtain ⟨hremoved, hforgotten⟩ := hk.remove hs x
  rw [hu.remove hk hs] at hforgotten
  refine ⟨hu.save hk hs x hash, hu.remove hk hs x, loaded_save_iff hs x hhash, ?_, ?_, ?_⟩
  · intro hx y hy
    obtain ⟨hsaved, hentry⟩ := hk.save hs (show Store.Legal x hash from ⟨hx, hhash⟩)
    rw [hu.save hk hs] at hentry
    rw [loaded, loaded, hk.load hsaved, hk.load hs, hentry]
    exact congrArg _ (Function.update_of_ne hy ..)
  · rw [loaded, hk.load hremoved, hforgotten]
    exact congrArg _ (Function.update_self ..)
  · intro y hy
    rw [loaded, loaded, hk.load hremoved, hk.load hs, hforgotten]
    exact congrArg _ (Function.update_of_ne hy ..)

/-- A store in a file that is not there yet. -/
def fresh : Stored MemoryFiles := ⟨.empty, .file ⟨"/p"⟩⟩

theorem entries_apart_inner :
    Contains MemoryFiles.empty (Store.filePath ⟨"/p"⟩) none ∧ Store.IsHash "1" ∧
      Store.IsKey "/a b" ∧
      loaded ((served [.save "/a" "2", .reopen] fresh).save "/a b" "1").2 "/a b" =
        .ok (some "1") ∧
      loaded ((served [.save "/a" "2", .reopen] fresh).save "/a b" "1").2 "/a" = .ok (some "2") ∧
      loaded ((served [.save "/a" "2", .reopen] fresh).save "/a " "1").2 "/a " ≠
        .ok (some "1") := by
  have hcontains : Contains MemoryFiles.empty (Store.filePath ⟨"/p"⟩) none := by
    rw [Contains]
    decide +kernel
  have hhash : Store.IsHash "1" := by decide +kernel
  have hkey : Store.IsKey "/a b" := by decide +kernel
  have hinner := entries_apart none hcontains [.save "/a" "2", .reopen] "/a b" hhash
  have htrailing := entries_apart none hcontains [.save "/a" "2", .reopen] "/a " hhash
  refine ⟨hcontains, hhash, hkey, hinner.2.2.1.mpr hkey, ?_, fun hload => ?_⟩
  · refine (hinner.2.2.2.1 hkey "/a" (by decide)).trans ?_
    decide +kernel
  · exact absurd (htrailing.2.2.1.mp hload) (by decide +kernel)

/-- A blank at the end of an ID and all of its lines but the last are lost, and what is
saved for the ID is loaded for another. -/
theorem entries_mixed :
    let trailing := served [.save "/a" "1", .save "/a " "2"] fresh
    let broken := served [.save "/b" "1", .save "/c\n/b" "2"] fresh
    loaded trailing "/a " = .ok none ∧ loaded trailing "/a" = .ok (some "2") ∧
      loaded broken "/c\n/b" = .ok none ∧ loaded broken "/b" = .ok (some "2") := by
  decide +kernel

end Cascade.Stored
