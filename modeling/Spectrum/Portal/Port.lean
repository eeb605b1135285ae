import Spectrum.Portal.Handshake

/-!
# The port the guest reports

What `parse_u32` returns, what it leaves in `errno`, and what it stores. The number is read as a
`long` and stored in 32 bits.

**It reads a numeral as it should exactly if the number fits in 32 bits or does not fit in a
`long`.** In between the upper bits are dropped, and the guest reports another port than the one
that is written in the address of its bus.
-/

set_option autoImplicit false

namespace Spectrum.Portal

open Interact Bytes Numeral

namespace Port

/-- A numeral of a number below `2 ^ k`. -/
def Fits (k : Nat) (s : Option CString) : Prop :=
  ∃ str, s = some str ∧ IsNumeral str.bytes ∧ value str.bytes < 2 ^ k

theorem deref_isDigit (s : List UInt8) : isDigit (CString.deref s) = s.head?.any isDigit := by
  cases s <;> rfl

theorem takeWhile_of_isNumeral {s : List UInt8} (h : IsNumeral s) : s.takeWhile isDigit = s :=
  List.takeWhile_eq_self_iff.mpr h.2

/-- **`parse_u32` accepts the numerals that fit in a `long`**, and stores them in 32 bits. -/
theorem parseU32_cases (s : Option CString) (v : BitVec 32) :
    (∃ str, s = some str ∧ IsNumeral str.bytes ∧ value str.bytes < 2 ^ 63 ∧
      parseU32 s v = ⟨0, 0, BitVec.ofNat 32 (value str.bytes)⟩) ∨
    (¬ Fits 63 s ∧ ∃ e v', e ≠ 0 ∧ parseU32 s v = ⟨-1, e, v'⟩) := by
  have hinval : EINVAL ≠ 0 := by decide
  have hrange : ERANGE ≠ 0 := by decide
  cases s with
  | none => exact Or.inr ⟨nofun, EINVAL, v, hinval, rfl⟩
  | some s =>
    simp only [parseU32, deref_isDigit]
    by_cases hfirst : s.bytes.head?.any isDigit
    · rw [if_neg (not_not.mpr hfirst), strtol_of_isDigit 64 hfirst]
      by_cases hbig : longMax 64 < value (s.bytes.takeWhile isDigit)
      · rw [if_pos hbig]
        refine Or.inr ⟨?_, ERANGE, _, hrange, rfl⟩
        intro ⟨str, hstr, hnum, hlt⟩
        cases hstr
        rw [takeWhile_of_isNumeral hnum, longMax] at hbig
        omega
      · rw [if_neg hbig]
        dsimp only
        rw [if_neg (by simp)]
        by_cases hend : CString.deref (s.bytes.dropWhile isDigit) = 0
        · rw [if_neg (not_not.mpr hend)]
          rw [CString.deref_eq_zero (List.dropWhile_suffix _)] at hend
          obtain ⟨hnum, htake⟩ := isNumeral_of_dropWhile hfirst hend
          rw [htake, longMax] at hbig
          refine Or.inl ⟨s, rfl, hnum, by omega, ?_⟩
          rw [htake, BitVec.ofInt_natCast]
          rfl
        · rw [if_pos hend]
          refine Or.inr ⟨?_, EINVAL, _, hinval, rfl⟩
          intro ⟨str, hstr, hnum, _⟩
          cases hstr
          rw [List.dropWhile_eq_nil_iff.mpr hnum.2] at hend
          exact hend rfl
    · rw [if_pos hfirst]
      refine Or.inr ⟨?_, EINVAL, v, hinval, rfl⟩
      intro ⟨str, hstr, hnum, _⟩
      cases hstr
      exact hfirst hnum.head

/-- In the terms of `main`, which goes on with the number if there is one. -/
theorem number?_of_fits {s : CString} (hnum : IsNumeral s.bytes) (hlt : value s.bytes < 2 ^ 63)
    (v : BitVec 32) : (parseU32 (some s) v).number? = some (BitVec.ofNat 32 (value s.bytes)) := by
  rcases parseU32_cases (some s) v with ⟨str, hstr, -, -, hp⟩ | ⟨hnot, -⟩
  · cases hstr
    rw [hp]
    rfl
  · exact absurd ⟨s, rfl, hnum, hlt⟩ hnot

end Port

/-- `parse_u32` does what it is for: it accepts the numerals of 32-bit numbers and no other string,
stores the number, and sets `errno` where it fails. The port that the guest reports for an address
is the one that is written there. -/
structure ReadsPort (s : Option CString) (v : BitVec 32) : Prop where
  accepts : (parseU32 s v).ret = 0 ↔ Port.Fits 32 s
  stores : ∀ str, s = some str → (parseU32 s v).ret = 0 →
    (parseU32 s v).v.toNat = value str.bytes
  rejects : (parseU32 s v).ret ≠ 0 →
    (parseU32 s v).ret = -1 ∧ (parseU32 s v).errno ≠ 0
  reports : ∀ str entry entries addr root junk, s = some str →
    entry.method = ascii ['v', 's', 'o', 'c', 'k'] →
    entry.values.lookup (ascii ['p', 'o', 'r', 't']) = some str →
    (parseU32 s v).ret = 0 → ∃ port : BitVec 32, port.toNat = value str.bytes ∧
      tryEntries addr root junk (entry :: entries) = guestSession [1] junk port root

/-- **Ports are read as they are written, exactly unless one needs more than 32 bits and fits in a
`long`.** -/
theorem readsPort_iff (s : Option CString) (v : BitVec 32) :
    ReadsPort s v ↔ ¬ (Port.Fits 63 s ∧ ¬ Port.Fits 32 s) := by
  rcases Port.parseU32_cases s v with ⟨str, rfl, hnum, hlt, hp⟩ | ⟨hnot, e, v', he, hp⟩
  · have hfits : Port.Fits 63 (some str) := ⟨str, rfl, hnum, hlt⟩
    constructor
    · intro h ⟨_, hwide⟩
      exact hwide (h.accepts.mp (by rw [hp]))
    · intro h
      obtain ⟨str', hstr, -, hsmall⟩ := not_not.mp fun hwide => h ⟨hfits, hwide⟩
      cases hstr
      have htoNat : (BitVec.ofNat 32 (value str.bytes)).toNat = value str.bytes := by
        rw [BitVec.toNat_ofNat, Nat.mod_eq_of_lt hsmall]
      refine ⟨?_, ?_, ?_, ?_⟩
      · rw [hp]
        exact ⟨fun _ => ⟨str, rfl, hnum, hsmall⟩, fun _ => rfl⟩
      · intro str' hstr _
        cases hstr
        rw [hp]
        exact htoNat
      · intro hne
        rw [hp] at hne
        exact absurd rfl hne
      · intro str' entry entries addr root junk hstr hmethod hport _
        cases hstr
        exact ⟨_, htoNat, tryEntries_vsock hmethod hport (Port.number?_of_fits hnum hlt junk.port)⟩
  · refine ⟨fun _ h => hnot h.1, fun _ => ⟨?_, ?_, ?_, ?_⟩⟩
    · rw [hp]
      refine ⟨fun h => by simp at h, ?_⟩
      intro ⟨str, hstr, hnum, hsmall⟩
      exact absurd ⟨str, hstr, hnum, hsmall.trans (by decide)⟩ hnot
    · intro str _ hret
      rw [hp] at hret
      cases hret
    · intro _
      rw [hp]
      exact ⟨rfl, he⟩
    · intro str entry entries addr root junk _ _ _ hret
      rw [hp] at hret
      cases hret

/-- The port 4294967297 is read as 1. -/
theorem parseU32_wraps :
    let s : CString := ⟨ascii ['4', '2', '9', '4', '9', '6', '7', '2', '9', '7'], by decide⟩
    parseU32 (some s) 0 = ⟨0, 0, 1⟩ ∧ ¬ Port.Fits 32 (some s) ∧ ¬ ReadsPort (some s) 0 := by
  intro s
  have hp : parseU32 (some s) 0 = ⟨0, 0, 1⟩ := by decide
  have hwide : ¬ Port.Fits 32 (some s) := by
    intro ⟨str, hstr, _, hlt⟩
    cases hstr
    exact absurd hlt (by decide)
  exact ⟨hp, hwide, fun h => hwide (h.accepts.mp (by rw [hp]))⟩

end Spectrum.Portal
