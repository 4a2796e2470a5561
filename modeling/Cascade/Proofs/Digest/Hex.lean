import Cascade.Dependency.Basic
import Cascade.Proofs.Failure
import Cascade.Proofs.Store.Codec

/-!
# What a digest looks like

A digest is 64 hexadecimal digits, so a line of stored hashes can hold it.
-/

namespace Cascade

namespace Blake3

theorem length_hash (bytes : List UInt8) : (hash bytes).length = 32 := by
  have hwords (words : List UInt32) : (words.flatMap bytesOf).length = 4 * words.length := by
    induction words with
    | nil => rfl
    | cons word words ih =>
      rw [List.flatMap_cons, List.length_append, ih, List.length_cons]
      simp only [bytesOf, List.length_cons, List.length_nil]
      omega
  unfold hash
  rw [hwords, Vector.length_toList]

theorem isBlank_hexDigit {n : Nat} (h : n < 16) : Text.isBlank (hexDigit n) = false := by
  have hdigits : ∀ n < 16, Text.isBlank (hexDigit n) = false := by decide
  exact hdigits n h

theorem toList_hexText (bytes : List UInt8) : (hexText bytes).toList =
    bytes.flatMap fun b => [hexDigit (b.toNat / 16), hexDigit (b.toNat % 16)] := by
  rw [hexText, String.toList_ofList]

theorem mem_hexText {bytes : List UInt8} {c : Char} (h : c ∈ (hexText bytes).toList) :
    ∃ n < 16, c = hexDigit n := by
  rw [toList_hexText, List.mem_flatMap] at h
  obtain ⟨b, _, hc⟩ := h
  have hb : b.toNat < 256 := b.toNat_lt
  rcases List.mem_cons.mp hc with rfl | hc
  · exact ⟨_, by omega, rfl⟩
  · exact ⟨_, by omega, List.mem_singleton.mp hc⟩

theorem hexDigit_inj {m n : Nat} (hm : m < 16) (hn : n < 16) (h : hexDigit m = hexDigit n) :
    m = n := by
  have hdigits : ∀ m < 16, ∀ n < 16, hexDigit m = hexDigit n → m = n := by decide
  exact hdigits m hm n hn h

/-- The digits tell the bytes. -/
theorem hexText_inj {bytes bytes' : List UInt8} :
    hexText bytes = hexText bytes' ↔ bytes = bytes' := by
  refine ⟨fun h => ?_, congrArg _⟩
  rw [← String.toList_inj, toList_hexText, toList_hexText] at h
  induction bytes generalizing bytes' with
  | nil =>
    cases bytes' with
    | nil => rfl
    | cons b' rest' => cases h
  | cons b rest ih =>
    cases bytes' with
    | nil => cases h
    | cons b' rest' =>
      simp only [List.flatMap_cons, List.cons_append, List.nil_append, List.cons.injEq] at h
      have hb : b.toNat < 256 := b.toNat_lt
      have hb' : b'.toNat < 256 := b'.toNat_lt
      have hhigh : b.toNat / 16 = b'.toNat / 16 := hexDigit_inj (by omega) (by omega) h.1
      have hlow : b.toNat % 16 = b'.toNat % 16 := hexDigit_inj (by omega) (by omega) h.2.1
      have hbyte : b = b' := UInt8.toNat_inj.mp (by omega)
      rw [hbyte, ih h.2.2]

theorem length_hexText (bytes : List UInt8) : (hexText bytes).toList.length = 2 * bytes.length := by
  rw [toList_hexText]
  induction bytes with
  | nil => rfl
  | cons b rest ih =>
    rw [List.flatMap_cons, List.length_append, ih, List.length_cons, List.length_cons,
      List.length_cons, List.length_nil]
    omega

/-- A digest can be stored. -/
theorem isHash_hexHash (bytes : List UInt8) : Store.IsHash (hexHash bytes) where
  ne_nil := by
    intro hnil
    have hlength := length_hexText (hash bytes)
    rw [hexHash] at hnil
    rw [hnil, length_hash] at hlength
    cases hlength
  solid c hc := by
    obtain ⟨n, hn, rfl⟩ := mem_hexText hc
    exact isBlank_hexDigit hn

end Blake3

variable {φ : Type} [FileSystem φ]

/-- The digest of a directory can be stored. -/
theorem Dependency.isHash_directoryHash {d : Dependency} {files : φ} {hash : String}
    (h : d.directoryHash files = .ok hash) : Store.IsHash hash := by
  have hdigest := Failure.mapError_eq_ok.mp h
  unfold Digest.directoryHash at hdigest
  cases hmessage : Digest.directoryMessage files d.path d.exclusion true with
  | error e =>
    rw [hmessage] at hdigest
    cases hdigest
  | ok bytes =>
    rw [hmessage] at hdigest
    cases hdigest
    exact Blake3.isHash_hexHash bytes

end Cascade
