import Mathlib.Data.Nat.Digits.Defs
import Mathlib.Tactic.Ring

/-!
# Byte strings

Text and numbers as the bytes that cross a system-call boundary: ASCII text, decimal numerals,
and the fixed-width little- and big-endian encodings. Each encoding comes with the fact its
users need, that decoding it gives the value back.
-/

set_option autoImplicit false

namespace Bytes

/-! ## Text -/

/-- The bytes of an ASCII text. -/
def ascii (cs : List Char) : List UInt8 := cs.map fun c => UInt8.ofNat c.toNat

/-- The decimal form of `n`, as `%d` or `to_string` print it. -/
def decimal (n : Nat) : List UInt8 := ascii (Nat.toDigits 10 n)

theorem isDigit_toNat {c : Char} (h : c.isDigit = true) : 48 ≤ c.toNat ∧ c.toNat ≤ 57 := by
  simp only [Char.isDigit, Bool.and_eq_true, decide_eq_true_eq] at h
  exact ⟨UInt32.le_iff_toNat_le.mp h.1, UInt32.le_iff_toNat_le.mp h.2⟩

theorem toNat_ofNat {n : Nat} (h : n < 256) : (UInt8.ofNat n).toNat = n := by
  simp [Nat.mod_eq_of_lt h]

/-- A decimal numeral is made of the ten digits. -/
theorem mem_decimal {n : Nat} {b : UInt8} (h : b ∈ decimal n) : 48 ≤ b.toNat ∧ b.toNat ≤ 57 := by
  obtain ⟨c, hc, rfl⟩ := List.mem_map.mp h
  have hd := isDigit_toNat (Nat.isDigit_of_mem_toDigits (by omega) (by omega) hc)
  rw [toNat_ofNat (by omega)]
  exact hd

theorem length_decimal (n : Nat) : (decimal n).length = (Nat.toDigits 10 n).length :=
  List.length_map ..

/-- The digits of a numeral can be read back off its bytes. -/
theorem map_decimal (n : Nat) :
    (decimal n).map (fun b => Char.ofNat b.toNat) = Nat.toDigits 10 n := by
  unfold decimal ascii
  rw [List.map_map]
  refine (List.map_congr_left fun c hc => ?_).trans (List.map_id _)
  have hd := isDigit_toNat (Nat.isDigit_of_mem_toDigits (by omega) (by omega) hc)
  simp only [Function.comp_apply, id_eq, toNat_ofNat (show c.toNat < 256 by omega)]
  exact Char.ofNat_toNat c

/-- **A numeral determines its number.** -/
theorem decimal_injective : Function.Injective decimal := by
  intro m n h
  have hd : Nat.toDigits 10 m = Nat.toDigits 10 n := by
    rw [← map_decimal, h, map_decimal]
  calc
    m = Nat.ofDigitChars 10 (Nat.toDigits 10 m) 0 := Nat.ofDigitChars_ten_toDigits.symm
    _ = n := by rw [hd, Nat.ofDigitChars_ten_toDigits]

/-! ## Fixed-width numbers -/

/-- The `k` low bytes of `n`, least significant first. -/
def toLE : Nat → Nat → List UInt8
  | 0, _ => []
  | k + 1, n => UInt8.ofNat (n % 256) :: toLE k (n / 256)

def ofLE : List UInt8 → Nat
  | [] => 0
  | b :: bs => b.toNat + 256 * ofLE bs

/-- Most significant byte first: network byte order. -/
def toBE (k n : Nat) : List UInt8 := (toLE k n).reverse

def ofBE (bs : List UInt8) : Nat := ofLE bs.reverse

@[simp] theorem length_toLE (k n : Nat) : (toLE k n).length = k := by
  induction k generalizing n with
  | zero => rfl
  | succ k ih => simp [toLE, ih]

@[simp] theorem length_toBE (k n : Nat) : (toBE k n).length = k := by
  simp [toBE]

theorem ofLE_toLE {k n : Nat} (h : n < 256 ^ k) : ofLE (toLE k n) = n := by
  induction k generalizing n with
  | zero =>
    simp only [Nat.pow_zero] at h
    simp only [toLE, ofLE]
    omega
  | succ k ih =>
    have hdiv : n / 256 < 256 ^ k := by
      rw [Nat.pow_succ] at h
      exact Nat.div_lt_of_lt_mul (by rw [Nat.mul_comm]; exact h)
    rw [toLE, ofLE, ih hdiv, toNat_ofNat (Nat.mod_lt _ (by omega))]
    omega

theorem ofBE_toBE {k n : Nat} (h : n < 256 ^ k) : ofBE (toBE k n) = n := by
  rw [ofBE, toBE, List.reverse_reverse, ofLE_toLE h]

theorem toLE_ofLE (bs : List UInt8) : toLE bs.length (ofLE bs) = bs := by
  induction bs with
  | nil => rfl
  | cons b bs ih =>
    have hb := b.toNat_lt
    have hmod : (b.toNat + 256 * ofLE bs) % 256 = b.toNat := by omega
    have hdiv : (b.toNat + 256 * ofLE bs) / 256 = ofLE bs := by omega
    rw [List.length_cons, ofLE, toLE, hmod, hdiv, ih, UInt8.ofNat_toNat]

theorem toBE_ofBE {k : Nat} {bs : List UInt8} (h : bs.length = k) : toBE k (ofBE bs) = bs := by
  have hrev := toLE_ofLE bs.reverse
  rw [List.length_reverse, h] at hrev
  rw [toBE, ofBE, hrev, List.reverse_reverse]

theorem ofLE_lt (bs : List UInt8) : ofLE bs < 256 ^ bs.length := by
  induction bs with
  | nil => simp [ofLE]
  | cons b bs ih =>
    have hb := b.toNat_lt
    rw [ofLE, List.length_cons, Nat.pow_succ]
    omega

theorem ofBE_lt (bs : List UInt8) : ofBE bs < 256 ^ bs.length := by
  simpa [ofBE] using ofLE_lt bs.reverse

end Bytes
