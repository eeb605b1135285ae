import Mathlib.Data.List.TakeWhile
import Spectrum.Interact.Bytes

/-!
# Numerals in C strings

A C string as the bytes before its NUL, what counts as a decimal digit, and `strtol` to base 10 as
the standard has it: white space and a sign are skipped, as many digits as there are make a number,
and one that does not fit in a `long` is replaced by the nearest that does.

**On a string that begins with a digit, `strtol` reads the digits it begins with**, and that is all
a caller has to know that looks at the first byte before.
-/

set_option autoImplicit false

/-- The bytes of a string before the NUL that ends it. -/
structure CString where
  bytes : List UInt8
  noNul : 0 ∉ bytes
  deriving DecidableEq

/-- The byte a pointer into a string points to, where `rest` is what follows. -/
def CString.deref (rest : List UInt8) : UInt8 := rest.headD 0

theorem CString.deref_eq_zero {s : CString} {rest : List UInt8} (h : rest <:+ s.bytes) :
    deref rest = 0 ↔ rest = [] := by
  cases rest with
  | nil => simp [deref]
  | cons b rest =>
    have hb : b ≠ 0 := fun e => s.noNul (e ▸ h.subset List.mem_cons_self)
    simp [deref, hb]

namespace Numeral

open Bytes

/-! ## Digits -/

def isDigit (b : UInt8) : Bool := 48 ≤ b.toNat ∧ b.toNat ≤ 57

/-- The number that some digits stand for. -/
def value (ds : List UInt8) : Nat := ds.foldl (fun n b => 10 * n + (b.toNat - 48)) 0

/-- A non-empty sequence of digits. -/
def IsNumeral (s : List UInt8) : Prop := s ≠ [] ∧ ∀ b ∈ s, isDigit b

instance (s : List UInt8) : Decidable (IsNumeral s) := inferInstanceAs (Decidable (_ ∧ _))

theorem isDigit_of_mem_decimal {n : Nat} {b : UInt8} (h : b ∈ decimal n) : isDigit b := by
  simpa [isDigit] using mem_decimal h

theorem isNumeral_decimal (n : Nat) : IsNumeral (decimal n) := by
  refine ⟨fun h => ?_, fun b hb => isDigit_of_mem_decimal hb⟩
  have hlen := congrArg List.length h
  rw [length_decimal] at hlen
  exact absurd hlen (Nat.ne_of_gt Nat.length_toDigits_pos)

theorem value_decimal (n : Nat) : value (decimal n) = n := by
  have hchars : ∀ (cs : List Char), (∀ c ∈ cs, c.toNat < 256) → ∀ init,
      (ascii cs).foldl (fun n b => 10 * n + (b.toNat - 48)) init = Nat.ofDigitChars 10 cs init := by
    intro cs
    induction cs with
    | nil => intro _ init; rfl
    | cons c cs ih =>
      intro h init
      rw [Nat.ofDigitChars_cons, ← ih (fun d hd => h d (by simp [hd])), ascii, List.map_cons,
        List.foldl_cons, toNat_ofNat (h c (by simp))]
      rfl
  rw [value, decimal, hchars, Nat.ofDigitChars_ten_toDigits]
  intro c hc
  have hd := isDigit_toNat (Nat.isDigit_of_mem_toDigits (by omega) (by omega) hc)
  omega

/-- The digits a string begins with are all of it, if there is nothing behind them. -/
theorem isNumeral_of_dropWhile {s : List UInt8} (hfirst : s.head?.any isDigit)
    (hrest : s.dropWhile isDigit = []) : IsNumeral s ∧ s.takeWhile isDigit = s := by
  have hall := List.dropWhile_eq_nil_iff.mp hrest
  refine ⟨⟨fun h => ?_, hall⟩, List.takeWhile_eq_self_iff.mpr hall⟩
  simp [h] at hfirst

theorem IsNumeral.head {s : List UInt8} (h : IsNumeral s) : s.head?.any isDigit := by
  obtain ⟨hne, hall⟩ := h
  cases s with
  | nil => exact absurd rfl hne
  | cons b s => simpa using hall b (by simp)

/-! ## `strtol` -/

/-- What `strtol` returns, what is left behind the place it sets `end` to, and whether it has set
`errno` to `ERANGE`. -/
structure Strtol where
  number : Int
  rest : List UInt8
  range : Bool
  deriving Repr, DecidableEq

/-- `isspace`, in the C locale. -/
def isSpace (b : UInt8) : Bool := b.toNat = 32 ∨ 9 ≤ b.toNat ∧ b.toNat ≤ 13

/-- The sign of a number, and what follows. -/
def sign : List UInt8 → Int × List UInt8
  | 45 :: s => (-1, s)
  | 43 :: s => (1, s)
  | s => (1, s)

/-- The largest `long` of so many bits. -/
def longMax (bits : Nat) : Int := 2 ^ (bits - 1) - 1

/-- `strtol(s, &end, 10)`. -/
def strtol (bits : Nat) (s : List UInt8) : Strtol :=
  let (sgn, body) := sign (s.dropWhile isSpace)
  let ds := body.takeWhile isDigit
  if ds = [] then ⟨0, s, false⟩
  else
    let n := sgn * value ds
    if longMax bits < n then ⟨longMax bits, body.dropWhile isDigit, true⟩
    else if n < -longMax bits - 1 then ⟨-longMax bits - 1, body.dropWhile isDigit, true⟩
    else ⟨n, body.dropWhile isDigit, false⟩

theorem isSpace_of_isDigit {b : UInt8} (h : isDigit b) : isSpace b = false := by
  have hnum : 48 ≤ b.toNat ∧ b.toNat ≤ 57 := by simpa [isDigit] using h
  simp only [isSpace, decide_eq_false_iff_not]
  omega

theorem sign_of_isDigit {b : UInt8} (h : isDigit b) (s : List UInt8) :
    sign (b :: s) = (1, b :: s) := by
  have hnum : 48 ≤ b.toNat ∧ b.toNat ≤ 57 := by simpa [isDigit] using h
  unfold sign
  split
  · rename_i heq
    cases heq
    simp at hnum
  · rename_i heq
    cases heq
    simp at hnum
  · rfl

/-- **On a string that begins with a digit, `strtol` reads the digits it begins with.** -/
theorem strtol_of_isDigit (bits : Nat) {s : List UInt8} (h : s.head?.any isDigit) :
    strtol bits s =
      if longMax bits < value (s.takeWhile isDigit) then
        ⟨longMax bits, s.dropWhile isDigit, true⟩
      else ⟨value (s.takeWhile isDigit), s.dropWhile isDigit, false⟩ := by
  cases s with
  | nil => simp at h
  | cons b s =>
    have hb : isDigit b := by simpa using h
    have htake : (b :: s).takeWhile isDigit ≠ [] := by simp [hb]
    have hlow : ¬ (value ((b :: s).takeWhile isDigit) : Int) < -longMax bits - 1 := by
      have hpow : (1 : Int) ≤ 2 ^ (bits - 1) := one_le_pow₀ (by decide)
      rw [longMax]
      omega
    rw [strtol, List.dropWhile_cons_of_neg (by simp [isSpace_of_isDigit hb]), sign_of_isDigit hb]
    dsimp only
    rw [if_neg htake, one_mul, if_neg hlow]

/-! ## Integers -/

/-- All of `s` is the integer `n`: digits, with or without a sign before them. -/
def IsInteger (s : List UInt8) (n : Int) : Prop :=
  IsNumeral (sign s).2 ∧ n = (sign s).1 * value (sign s).2

instance (s : List UInt8) (n : Int) : Decidable (IsInteger s n) :=
  inferInstanceAs (Decidable (_ ∧ _))

/-- There is a number at the beginning of `s`. -/
def Converts (s : List UInt8) : Prop :=
  (sign (s.dropWhile isSpace)).2.takeWhile isDigit ≠ []

instance (s : List UInt8) : Decidable (Converts s) := inferInstanceAs (Decidable (¬ _))

/-- No space stands before an integer. -/
theorem dropWhile_isSpace_of_isNumeral {s : List UInt8} (h : IsNumeral (sign s).2) :
    s.dropWhile isSpace = s := by
  cases s with
  | nil => rfl
  | cons b s =>
    apply List.dropWhile_cons_of_neg
    unfold sign at h
    split at h
    · rename_i heq
      cases heq
      decide
    · rename_i heq
      cases heq
      decide
    · have hb : isDigit b := h.2 b (by simp)
      simp [isSpace_of_isDigit hb]

/-- **An integer is read as what it is**, or as the nearest `long`. -/
theorem strtol_of_isInteger (bits : Nat) {s : List UInt8} {n : Int} (h : IsInteger s n) :
    strtol bits s =
      if longMax bits < n then ⟨longMax bits, [], true⟩
      else if n < -longMax bits - 1 then ⟨-longMax bits - 1, [], true⟩
      else ⟨n, [], false⟩ := by
  obtain ⟨hnum, rfl⟩ := h
  have htake : (sign s).2.takeWhile isDigit = (sign s).2 :=
    List.takeWhile_eq_self_iff.mpr hnum.2
  have hdrop : (sign s).2.dropWhile isDigit = [] := List.dropWhile_eq_nil_iff.mpr hnum.2
  simp only [strtol, dropWhile_isSpace_of_isNumeral hnum, htake, hdrop, if_neg hnum.1]

theorem IsInteger.converts {s : List UInt8} {n : Int} (h : IsInteger s n) : Converts s := by
  obtain ⟨hnum, -⟩ := h
  unfold Converts
  rw [dropWhile_isSpace_of_isNumeral hnum, List.takeWhile_eq_self_iff.mpr hnum.2]
  exact hnum.1

/-- A numeral is an integer. -/
theorem IsNumeral.isInteger {s : List UInt8} (h : IsNumeral s) : IsInteger s (value s) := by
  cases s with
  | nil => exact absurd rfl h.1
  | cons b s =>
    unfold IsInteger
    rw [sign_of_isDigit (h.2 b (by simp))]
    exact ⟨h, (one_mul _).symm⟩

end Numeral
