import Spectrum.Interact.Bytes

/-!
# Bytes that are text

Names that come from a file system are bytes, and code that wants to show them or pass them on as
text has to check that they are UTF-8 first. Core Lean says which byte arrays are; this is the same
for lists of bytes, with what callers need to follow such a check through concatenation.

**Where text is put together with bytes, the result is text exactly when the bytes are.** ASCII is
text, and an ASCII character occurs in a text exactly where its byte occurs in the encoding, so a
search for one can be read either way.
-/

set_option autoImplicit false

namespace Utf8

open Bytes

/-- These bytes are UTF-8. -/
def Valid (bytes : List UInt8) : Prop := bytes.toByteArray.IsValidUTF8

instance (bytes : List UInt8) : Decidable (Valid bytes) :=
  inferInstanceAs (Decidable (ByteArray.IsValidUTF8 _))

def encode (s : String) : List UInt8 := s.toByteArray.data.toList

/-- The text of these bytes, if they are UTF-8. -/
def decode? (bytes : List UInt8) : Option String :=
  if h : Valid bytes then some (String.fromUTF8 bytes.toByteArray h) else none

theorem encode_eq (s : String) : encode s = s.toList.flatMap String.utf8EncodeChar := by
  have h : s.toByteArray = s.toList.utf8Encode := by
    rw [← String.toByteArray_ofList, String.ofList_toList]
  rw [encode, h, List.utf8Encode, List.toList_data_toByteArray]

theorem toByteArray_encode (s : String) : (encode s).toByteArray = s.toByteArray := by
  apply ByteArray.ext
  rw [← Array.toList_inj, List.toList_data_toByteArray, encode]

theorem valid_encode (s : String) : Valid (encode s) := by
  rw [Valid, toByteArray_encode]
  exact s.isValidUTF8

/-- **Decoding inverts encoding.** -/
theorem decode?_eq_some {bytes : List UInt8} {s : String} :
    decode? bytes = some s ↔ encode s = bytes := by
  unfold decode?
  split
  · rename_i h
    rw [Option.some.injEq, ← String.toByteArray_inj, ← List.toByteArray_inj, toByteArray_encode]
    exact eq_comm
  · rename_i h
    constructor
    · intro hs
      cases hs
    · intro he
      rw [← he] at h
      exact absurd (valid_encode s) h

theorem decode?_eq_none {bytes : List UInt8} : decode? bytes = none ↔ ¬ Valid bytes := by
  simp [decode?]

theorem Valid.decode? {bytes : List UInt8} (h : Valid bytes) :
    ∃ s, decode? bytes = some s ∧ encode s = bytes := by
  have hs : Utf8.decode? bytes = some (String.fromUTF8 bytes.toByteArray h) := dif_pos h
  exact ⟨_, hs, decode?_eq_some.mp hs⟩

/-! ## Concatenation -/

theorem valid_append_iff {a b : List UInt8} (ha : Valid a) : Valid (a ++ b) ↔ Valid b := by
  obtain ⟨cs, hcs⟩ := ha
  unfold Valid
  rw [List.toByteArray_append, hcs]
  clear hcs
  induction cs with
  | nil => simp [List.utf8Encode]
  | cons c cs ih =>
    have hcons : (c :: cs).utf8Encode = [c].utf8Encode ++ cs.utf8Encode := by
      rw [← List.utf8Encode_append, List.singleton_append]
    rw [hcons, ByteArray.append_assoc, ByteArray.isValidUTF8_utf8Encode_singleton_append_iff, ih]

theorem valid_nil : Valid [] := ⟨[], rfl⟩

/-! ## ASCII -/

theorem utf8EncodeChar_of_ascii {c : Char} (h : c.toNat < 128) :
    String.utf8EncodeChar c = [UInt8.ofNat c.toNat] :=
  if_pos (Nat.le_of_lt_succ h)

/-- What encodes a character outside ASCII has no ASCII byte in it. -/
theorem le_of_mem_utf8EncodeChar {c : Char} (h : ¬ c.toNat < 128) {b : UInt8}
    (hb : b ∈ String.utf8EncodeChar c) : 128 ≤ b.toNat := by
  have hc : ¬ c.val.toNat ≤ 0x7f := fun hle => h (Nat.lt_succ_of_le hle)
  unfold String.utf8EncodeChar at hb
  simp only [if_neg hc] at hb
  split at hb
  · simp only [List.mem_cons, List.not_mem_nil, or_false] at hb
    rcases hb with rfl | rfl <;> rw [toNat_ofNat (by omega)] <;> omega
  · split at hb
    · simp only [List.mem_cons, List.not_mem_nil, or_false] at hb
      rcases hb with rfl | rfl | rfl <;> rw [toNat_ofNat (by omega)] <;> omega
    · simp only [List.mem_cons, List.not_mem_nil, or_false] at hb
      rcases hb with rfl | rfl | rfl | rfl <;> rw [toNat_ofNat (by omega)] <;> omega

theorem valid_cons_iff {b : UInt8} (hb : b.toNat < 128) {l : List UInt8} :
    Valid (b :: l) ↔ Valid l := by
  have hvalid : Valid [b] := by
    refine ⟨[Char.ofUInt8 b], ?_⟩
    have hc : (Char.ofUInt8 b).toNat = b.toNat := UInt8.toNat_toUInt32 b
    rw [List.utf8Encode_singleton, utf8EncodeChar_of_ascii (by omega), hc, UInt8.ofNat_toNat]
  exact valid_append_iff hvalid

theorem valid_of_ascii {l : List UInt8} (h : ∀ b ∈ l, b.toNat < 128) : Valid l := by
  induction l with
  | nil => exact valid_nil
  | cons b l ih =>
    rw [valid_cons_iff (h b (by simp))]
    exact ih fun c hc => h c (by simp [hc])

/-- **Looking for an ASCII character is looking for its byte.** -/
theorem mem_encode {s : String} {c : Char} (hc : c.toNat < 128) :
    UInt8.ofNat c.toNat ∈ encode s ↔ c ∈ s.toList := by
  rw [encode_eq, List.mem_flatMap]
  constructor
  · intro ⟨d, hd, hmem⟩
    by_cases hascii : d.toNat < 128
    · rw [utf8EncodeChar_of_ascii hascii, List.mem_singleton] at hmem
      have hnat := congrArg UInt8.toNat hmem
      rw [toNat_ofNat (by omega), toNat_ofNat (by omega)] at hnat
      rwa [Char.toNat_inj.mp hnat]
    · have hle := le_of_mem_utf8EncodeChar hascii hmem
      rw [toNat_ofNat (by omega)] at hle
      omega
  · intro h
    exact ⟨c, h, by simp [utf8EncodeChar_of_ascii hc]⟩

end Utf8
