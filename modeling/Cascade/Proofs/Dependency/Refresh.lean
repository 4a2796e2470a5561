import Cascade.Proofs.Dependency.Exact
import Cascade.Proofs.Store.Modes

/-!
# Resolving refreshes the store

A project that is resolved may have a store that remembers hashes of directories it no
longer declares.  If resolving is asked to, it drops these, and it does so for all of them
or for none (`resolve_refreshes`): the graph is made before the store is touched, and the
store is replaced in one go.
-/

namespace Cascade.Resolver

open Cascade.Graph Stored

variable {φ : Type} [FileSystem φ] {s : Stored φ} {r : Resolver}

/-- Resolving alone has no effect. -/
theorem stored_resolve_false : (r.resolve false s).2.2 = s := by
  unfold resolve
  split <;> rfl

/-- A project that cannot be resolved is answered what is wrong with it, and without any
effect. -/
theorem resolve_of_error {e : Error} {update : Bool}
    (h : ((r.resolveAll s.files).run.run Draft.empty).1 = .error e) :
    (r.resolve update s).1 = .error e ∧ (r.resolve update s).2.2 = s := by
  unfold resolve
  split
  · rename_i hall
    rw [hall] at h
    cases h
    exact ⟨rfl, rfl⟩
  · rename_i hall
    rw [hall] at h
    cases h

/-- After a project was resolved to refresh its store, the hashes that can be loaded are
those of the directories in the graph, and they are what they were before.  If anything goes
wrong, before the store is touched or then, what can be loaded is what it was.  Without being
asked to refresh, resolving changes nothing at all, and neither does a project that cannot be
resolved. -/
theorem resolve_refreshes [LawfulFiles φ] {mode : Store.Mode} {root : Path}
    (hs : s.Held mode root) (r : Resolver) :
    (∀ g, (r.resolve true s).1 = .ok g → ∀ id,
      (r.resolve true s).2.2.store.load (r.resolve true s).2.2.files id =
        if id ∈ g.ids then s.store.load s.files id else .ok none) ∧
    (∀ e, (r.resolve true s).1 = .error e → ∀ id,
      (r.resolve true s).2.2.store.load (r.resolve true s).2.2.files id =
        s.store.load s.files id) ∧
    (∀ e, ((r.resolveAll s.files).run.run Draft.empty).1 = .error e →
      (r.resolve true s).1 = .error e ∧ (r.resolve true s).2.2 = s) ∧
    (r.resolve false s).2.2 = s := by
  have hkeeping := keeping_held (φ := φ) mode root
  obtain ⟨hkind, hentry⟩ := resolve_entries hkeeping hs r true
  have hload := hkeeping.load hkind
  have hbefore := hkeeping.load hs
  refine ⟨fun g hg id => ?_, fun e he id => ?_, fun e he => resolve_of_error he,
    stored_resolve_false⟩
  · rw [hload, hbefore, hentry, hg]
    by_cases hid : id ∈ g.ids
    · simp [hid]
    · simp [hid]
  · rw [hload, hbefore, hentry, he]

/-- A project with a store in a file that remembers a hash of a directory it declares and one
of a directory it does not declare.  There are lines as well that say nothing. -/
def stale : Stored MemoryFiles :=
  ⟨tieredFiles.addFile (Store.filePath ⟨"/app"⟩) "/lib 11\nnothing\n /gone  22\r\n\n".toUTF8,
    .file ⟨"/app"⟩⟩

theorem resolve_refreshes_stale : stale.Held .file ⟨"/app"⟩ ∧
    ∃ g, (tiered.resolve true stale).1 = .ok g ∧
      (tiered.resolve true stale).2.2.store.load (tiered.resolve true stale).2.2.files "/lib" =
        .ok (some "11") ∧
      (tiered.resolve true stale).2.2.store.load (tiered.resolve true stale).2.2.files "/gone" =
        .ok none ∧
      stale.store.load stale.files "/gone" = .ok (some "22") := by
  have hall : (stale.store.all stale.files).isOk = true := by decide +kernel
  have hheld : stale.Held .file ⟨"/app"⟩ := by
    refine ⟨rfl, ?_⟩
    cases hhashes : stale.store.all stale.files with
    | error e =>
      rw [hhashes] at hall
      cases hall
    | ok hashes => exact ⟨hashes, rfl⟩
  have hload := (keeping_held (φ := MemoryFiles) .file ⟨"/app"⟩).load hheld
  have hids : (tiered.resolve true stale).1.toOption.map ids = some ["/core", "/lib"] := by
    decide +kernel
  cases hresolve : (tiered.resolve true stale).1 with
  | error e =>
    rw [hresolve] at hids
    cases hids
  | ok g =>
    rw [hresolve] at hids
    have hg : g.ids = ["/core", "/lib"] := Option.some.inj hids
    have hafter := (resolve_refreshes hheld tiered).1 g hresolve
    refine ⟨hheld, g, rfl, ?_, ?_, ?_⟩
    · rw [hafter, hg, if_pos (by decide), hload,
        show stale.entry "/lib" = some "11" by decide +kernel]
    · rw [hafter, hg, if_neg (by decide)]
    · rw [hload, show stale.entry "/gone" = some "22" by decide +kernel]

end Cascade.Resolver
