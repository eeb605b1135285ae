import Mathlib.Data.List.Basic
import Spectrum.Interact.Numeral

/-!
# `strtoul` to base 0

A number as C source has it: octal if it begins with a zero, hexadecimal if it begins with `0x` and
a digit, decimal otherwise. White space and a sign are skipped, a negative number is taken modulo
the size of an `unsigned long`, and one that does not fit is replaced by the largest that does.

**A byte that can be no part of a number ends it**, wherever it stands (`strtoul_append`), so a list
of numbers with such bytes between them can be read one number at a time.

That is `strtoul` up to C17. Since C23 a number that begins with `0b` and a digit is binary, and
glibc reads it so from 2.38 on. A `Reader` is any of them: it has what a program that reads a list
of numbers may rely on.
-/

set_option autoImplicit false

namespace Numeral

open Bytes

/-! ## Digits in a base -/

/-- What a digit stands for. A byte that is no digit in any base stands for 36. -/
def digitValue (b : UInt8) : Nat :=
  if 48 ≤ b.toNat ∧ b.toNat ≤ 57 then b.toNat - 48
  else if 97 ≤ b.toNat ∧ b.toNat ≤ 122 then b.toNat - 87
  else if 65 ≤ b.toNat ∧ b.toNat ≤ 90 then b.toNat - 55
  else 36

def isDigitIn (base : Nat) (b : UInt8) : Bool := digitValue b < base

def valueIn (base : Nat) (ds : List UInt8) : Nat :=
  ds.foldl (fun n b => base * n + digitValue b) 0

/-- The base of a number, and what there is from its first digit on. -/
def radix (s : List UInt8) : Nat × List UInt8 :=
  if s.head? = some 48 then
    if (s[1]? = some 120 ∨ s[1]? = some 88) ∧ s[2]?.any (isDigitIn 16) then (16, s.drop 2)
    else (8, s)
  else (10, s)

/-! ## `strtoul` -/

structure Strtoul where
  number : Nat
  rest : List UInt8
  range : Bool
  deriving Repr, DecidableEq

/-- `strtoul(s, &end, 0)`. -/
def strtoul (bits : Nat) (s : List UInt8) : Strtoul :=
  let (sgn, body) := sign (s.dropWhile isSpace)
  let (base, digits) := radix body
  let ds := digits.takeWhile (isDigitIn base)
  let rest := digits.dropWhile (isDigitIn base)
  if ds = [] then ⟨0, s, false⟩
  else if 2 ^ bits ≤ valueIn base ds then ⟨2 ^ bits - 1, rest, true⟩
  else ⟨((sgn * valueIn base ds) % 2 ^ bits).toNat, rest, false⟩

/-- A byte that can be no part of a number. -/
def Stops (c : UInt8) : Prop := isSpace c = false ∧ c ≠ 45 ∧ c ≠ 43 ∧ digitValue c = 36

instance (c : UInt8) : Decidable (Stops c) := inferInstanceAs (Decidable (_ ∧ _))

section Stop

variable {c : UInt8} {p : UInt8 → Bool}

theorem takeWhile_append_stop (hc : p c = false) (s t : List UInt8) :
    (s ++ c :: t).takeWhile p = s.takeWhile p := by
  induction s with
  | nil => simp [hc]
  | cons b s ih =>
    rw [List.cons_append, List.takeWhile_cons, List.takeWhile_cons, ih]

theorem dropWhile_append_stop (hc : p c = false) (s t : List UInt8) :
    (s ++ c :: t).dropWhile p = s.dropWhile p ++ c :: t := by
  induction s with
  | nil => simp [hc]
  | cons b s ih =>
    rw [List.cons_append, List.dropWhile_cons, List.dropWhile_cons, ih]
    split <;> rfl

theorem sign_append (hc : Stops c) (s t : List UInt8) :
    sign (s ++ c :: t) = ((sign s).1, (sign s).2 ++ c :: t) := by
  cases s with
  | nil =>
    obtain ⟨_, hminus, hplus, _⟩ := hc
    simp [sign, hminus, hplus]
  | cons b s =>
    rw [List.cons_append]
    unfold sign
    split
    · rename_i heq
      cases heq
      rfl
    · rename_i heq
      cases heq
      rfl
    · rename_i hminus hplus
      split
      · rename_i heq
        cases heq
        exact absurd rfl (hminus _)
      · rename_i heq
        cases heq
        exact absurd rfl (hplus _)
      · rfl

theorem radix_append (hc : digitValue c = 36) (s t : List UInt8) :
    radix (s ++ c :: t) = ((radix s).1, (radix s).2 ++ c :: t) := by
  have hdigit : isDigitIn 16 c = false := by simp [isDigitIn, hc]
  have hne : ∀ b : UInt8, digitValue b ≠ 36 → c ≠ b := fun b hb h => hb (h ▸ hc)
  have hzero : c ≠ 48 := hne 48 (by decide)
  have hx : c ≠ 120 := hne 120 (by decide)
  have hX : c ≠ 88 := hne 88 (by decide)
  -- `radix` looks at three bytes, and `c` is the first one of `s ++ c :: t` it can be stopped by.
  cases s with
  | nil => simp [radix, hzero]
  | cons x s =>
    cases s with
    | nil =>
      by_cases h : x = 48 <;> simp [radix, h, hx, hX]
    | cons y s =>
      cases s with
      | nil => by_cases h : x = 48 <;> simp [radix, h, hdigit]
      | cons z s =>
        by_cases h : x = 48
        · by_cases hy : y = 120 ∨ y = 88
          · cases hz : isDigitIn 16 z <;> simp [radix, h, hy, hz]
          · simp [radix, h, hy]
        · simp [radix, h]

theorem radix_le (s : List UInt8) : (radix s).1 ≤ 16 := by
  rw [radix]
  split
  · split
    · exact Nat.le_refl 16
    · show 8 ≤ 16
      decide
  · show 10 ≤ 16
    decide

/-- **A byte that can be no part of a number ends it.** -/
theorem strtoul_append (hc : Stops c) (bits : Nat) (s t : List UInt8) :
    strtoul bits (s ++ c :: t) =
      { strtoul bits s with rest := (strtoul bits s).rest ++ c :: t } := by
  have hstop : ∀ body, isDigitIn (radix body).1 c = false := by
    intro body
    have hle := radix_le body
    simp only [isDigitIn, hc.2.2.2, decide_eq_false_iff_not]
    omega
  simp only [strtoul, dropWhile_append_stop hc.1, sign_append hc, radix_append hc.2.2.2,
    takeWhile_append_stop (hstop _), dropWhile_append_stop (hstop _)]
  split
  · rfl
  · split <;> rfl

end Stop

theorem sign_suffix (s : List UInt8) : (sign s).2 <:+ s := by
  unfold sign
  split
  · exact List.suffix_cons _ _
  · exact List.suffix_cons _ _
  · exact List.suffix_rfl

theorem radix_suffix (s : List UInt8) : (radix s).2 <:+ s := by
  rw [radix]
  split
  · split
    · exact List.drop_suffix _ _
    · exact List.suffix_rfl
  · exact List.suffix_rfl

theorem strtoul_suffix (bits : Nat) (s : List UInt8) : (strtoul bits s).rest <:+ s := by
  have hrest : (radix (sign (s.dropWhile isSpace)).2).2.dropWhile
      (isDigitIn (radix (sign (s.dropWhile isSpace)).2).1) <:+ s :=
    (List.dropWhile_suffix _).trans
      ((radix_suffix _).trans ((sign_suffix _).trans (List.dropWhile_suffix _)))
  rw [strtoul]
  dsimp only
  split
  · exact List.suffix_rfl
  · split
    · exact hrest
    · exact hrest

/-! ## What `%u` prints -/

theorem digitValue_of_isDigit {b : UInt8} (h : isDigit b) : digitValue b = b.toNat - 48 := by
  have hnum : 48 ≤ b.toNat ∧ b.toNat ≤ 57 := by simpa [isDigit] using h
  rw [digitValue, if_pos hnum]

theorem valueIn_ten {ds : List UInt8} (h : ∀ b ∈ ds, isDigit b) : valueIn 10 ds = value ds := by
  unfold valueIn value
  refine List.foldl_ext _ _ 0 fun n b hb => ?_
  rw [digitValue_of_isDigit (h b hb)]

theorem isDigitIn_ten {b : UInt8} (h : isDigit b) : isDigitIn 10 b = true := by
  have hnum : 48 ≤ b.toNat ∧ b.toNat ≤ 57 := by simpa [isDigit] using h
  simp only [isDigitIn, digitValue_of_isDigit h, decide_eq_true_eq]
  omega

/-- Only zero begins with a zero. -/
theorem decimal_head {n : Nat} (h : n ≠ 0) : (decimal n).head? ≠ some 48 := by
  induction n using Nat.strongRecOn with
  | ind n ih =>
    by_cases hlt : n < 10
    · have hdigit : ∀ m < 10, m ≠ 0 → (ascii [Nat.digitChar m]).head? ≠ some 48 := by decide
      rw [decimal, Nat.toDigits_of_lt_base hlt]
      exact hdigit n hlt h
    · have hdiv : n / 10 ≠ 0 := by omega
      have hrec := ih (n / 10) (by omega) hdiv
      rw [decimal, Nat.toDigits_of_base_le (by decide) (by omega), ascii, List.map_append,
        List.head?_append, ← ascii, ← decimal]
      cases hhead : (decimal (n / 10)).head? with
      | none => exact absurd (List.head?_eq_none_iff.mp hhead) (isNumeral_decimal _).1
      | some b =>
        rw [hhead] at hrec
        exact hrec

/-- **A number is read as what it was printed from.** -/
theorem strtoul_decimal {bits n : Nat} (h : n < 2 ^ bits) :
    strtoul bits (decimal n) = ⟨n, [], false⟩ := by
  by_cases hzero : n = 0
  · subst hzero
    have hpos := Nat.two_pow_pos bits
    have hdecimal : decimal 0 = [48] := by decide
    have hsign : sign ([48].dropWhile isSpace) = (1, [48]) := by decide
    have hradix : radix [48] = (8, [48]) := by decide
    have htake : [48].takeWhile (isDigitIn 8) = [48] := by decide
    have hdrop : [48].dropWhile (isDigitIn 8) = [] := by decide
    have hvalue : valueIn 8 [48] = 0 := by decide
    simp only [strtoul, hdecimal, hsign, hradix, htake, hdrop, hvalue]
    rw [if_neg (by simp), if_neg (by omega)]
    simp
  · have hnum := isNumeral_decimal n
    have htake : (decimal n).takeWhile (isDigitIn 10) = decimal n :=
      List.takeWhile_eq_self_iff.mpr fun b hb => isDigitIn_ten (hnum.2 b hb)
    have hdrop : (decimal n).dropWhile (isDigitIn 10) = [] :=
      List.dropWhile_eq_nil_iff.mpr fun b hb => isDigitIn_ten (hnum.2 b hb)
    have hvalue : valueIn 10 (decimal n) = n := by rw [valueIn_ten hnum.2, value_decimal]
    have hradix : radix (decimal n) = (10, decimal n) := if_neg (decimal_head hzero)
    have hsign : sign ((decimal n).dropWhile isSpace) = (1, decimal n) := by
      cases hd : decimal n with
      | nil => exact absurd hd hnum.1
      | cons b s =>
        have hb : isDigit b := hnum.2 b (by rw [hd]; exact List.mem_cons_self)
        rw [List.dropWhile_cons_of_neg (by simp [isSpace_of_isDigit hb]), sign_of_isDigit hb]
    simp only [strtoul, hsign, hradix, htake, hdrop, hvalue]
    rw [if_neg hnum.1, if_neg (by omega), one_mul]
    congr
    rw [← Nat.cast_ofNat, ← Nat.cast_pow, ← Int.natCast_mod, Int.toNat_natCast]
    exact Nat.mod_eq_of_lt h

/-! ## Any `strtoul` -/

structure Reader (bits : Nat) where
  read : List UInt8 → Strtoul
  suffix (s : List UInt8) : (read s).rest <:+ s
  append {c : UInt8} (hc : Stops c) (s t : List UInt8) :
    read (s ++ c :: t) = { read s with rest := (read s).rest ++ c :: t }
  read_decimal {n : Nat} (h : n < 2 ^ bits) : read (decimal n) = ⟨n, [], false⟩

/-- Without binary numbers. -/
def Reader.c17 (bits : Nat) : Reader bits where
  read := strtoul bits
  suffix := strtoul_suffix bits
  append hc := strtoul_append hc bits
  read_decimal := strtoul_decimal

end Numeral
