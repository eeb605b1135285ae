import Mathlib.Data.Nat.Log
import Mathlib.Data.Nat.GCD.Basic
import Mathlib.Tactic.Ring

/-!
# Integers in double precision

awk and jq compute with 64-bit floating-point numbers, and scripts use them for sizes and offsets.
Here are the two places where an integer can come out different: `round`, the double closest to a
natural number (ties to even), and `shortest`, the shortest decimal that reads back as the same
double, which is what a program prints that wants to print no more digits than needed.

**Below `2 ^ 53` nothing changes, and below `2 ^ 54` nothing changes for even numbers.** From there
on a number can be printed as a neighbour that is not the number: the neighbour is shorter and
reads back as the same double.
-/

set_option autoImplicit false

namespace Double

/-- The double closest to `n`, of two equally close ones the one with the even significand. -/
def round (n : Nat) : Nat :=
  let step := 2 ^ (n.log2 - 52)
  if 2 * (n % step) < step ∨ 2 * (n % step) = step ∧ n / step % 2 = 0 then n / step * step
  else (n / step + 1) * step

theorem round_of_dvd {n : Nat} (h : 2 ^ (n.log2 - 52) ∣ n) : round n = n := by
  have hmod : n % 2 ^ (n.log2 - 52) = 0 := Nat.mod_eq_zero_of_dvd h
  have hpos : 0 < 2 ^ (n.log2 - 52) := Nat.two_pow_pos _
  simp only [round, hmod, Nat.mul_zero, hpos, true_or, if_true]
  exact Nat.div_mul_cancel h

theorem log2_lt {n k : Nat} (hk : 0 < k) (h : n < 2 ^ k) : n.log2 < k := by
  by_cases hn : n = 0
  · subst hn
    simpa using hk
  · exact (Nat.log2_lt hn).mpr h

theorem round_of_lt {n : Nat} (h : n < 2 ^ 53) : round n = n := by
  have hlog := log2_lt (by decide) h
  refine round_of_dvd ?_
  rw [show n.log2 - 52 = 0 by omega]
  exact Nat.one_dvd n

theorem round_of_even {n : Nat} (h : n < 2 ^ 54) (heven : 2 ∣ n) : round n = n := by
  have hlog := log2_lt (by decide) h
  refine round_of_dvd ((Nat.pow_dvd_pow 2 (show n.log2 - 52 ≤ 1 by omega)).trans ?_)
  simpa using heven

/-- Rounding does not go below a power of two. -/
theorem le_round {n k : Nat} (hk : 52 ≤ k) (h : 2 ^ k ≤ n) : 2 ^ k ≤ round n := by
  have hn : n ≠ 0 := by
    have := Nat.two_pow_pos k
    omega
  have hlog : k ≤ n.log2 := (Nat.le_log2 hn).mpr h
  have hdiv : 2 ^ 52 ≤ n / 2 ^ (n.log2 - 52) := by
    rw [Nat.le_div_iff_mul_le (Nat.two_pow_pos _), ← Nat.pow_add,
      show 52 + (n.log2 - 52) = n.log2 by omega]
    exact Nat.log2_self_le hn
  have hdown : 2 ^ k ≤ n / 2 ^ (n.log2 - 52) * 2 ^ (n.log2 - 52) :=
    calc
      2 ^ k ≤ 2 ^ (52 + (n.log2 - 52)) := Nat.pow_le_pow_right (by decide) (by omega)
      _ = 2 ^ 52 * 2 ^ (n.log2 - 52) := Nat.pow_add ..
      _ ≤ n / 2 ^ (n.log2 - 52) * 2 ^ (n.log2 - 52) := Nat.mul_le_mul_right _ hdiv
  unfold round
  dsimp only
  split
  · exact hdown
  · exact hdown.trans (Nat.mul_le_mul_right _ (Nat.le_succ _))

/-! ## Printing -/

/-- `v` in units of `10 ^ k`, to the nearest. -/
def nearest (k v : Nat) : Nat := (v + 10 ^ k / 2) / 10 ^ k

/-- The shortest decimal for the double `v` among those with at most `k` trailing zeros, as its
leading digits and its number of trailing zeros. -/
def shortestFrom (v : Nat) : Nat → Nat × Nat
  | 0 => (v, 0)
  | k + 1 =>
    if round (nearest (k + 1) v * 10 ^ (k + 1)) = v then (nearest (k + 1) v, k + 1)
    else shortestFrom v k

def shortest (v : Nat) : Nat × Nat := shortestFrom v 19

/-- The integer at the start of the printed text. Up to fifteen zeros are written out; with more
the text is in exponential form, and an integer reader stops behind the first digit. -/
def printed (v : Nat) : Nat :=
  if (shortest v).2 ≤ 15 then (shortest v).1 * 10 ^ (shortest v).2
  else (shortest v).1 / 10 ^ Nat.log 10 (shortest v).1

/-- **An even number below `2 ^ 54` is its own shortest decimal.** -/
theorem shortestFrom_exact {v : Nat} (h : v < 2 ^ 54) (heven : 2 ∣ v) (k : Nat) :
    (shortestFrom v k).1 * 10 ^ (shortestFrom v k).2 = v := by
  induction k with
  | zero => simp [shortestFrom]
  | succ k ih =>
    unfold shortestFrom
    by_cases hround : round (nearest (k + 1) v * 10 ^ (k + 1)) = v
    · simp only [if_pos hround]
      have hten : 2 ∣ nearest (k + 1) v * 10 ^ (k + 1) :=
        Dvd.dvd.mul_left ((by decide : 2 ∣ 10).trans (dvd_pow_self 10 (Nat.succ_ne_zero k))) _
      by_cases hlt : nearest (k + 1) v * 10 ^ (k + 1) < 2 ^ 54
      · rwa [round_of_even hlt hten] at hround
      · have := le_round (by decide : 52 ≤ 54) (Nat.le_of_not_lt hlt)
        omega
    · simp only [if_neg hround]
      exact ih

/-- A whole number of `2 ^ 20` blocks is printed as it is, as long as it is below `2 ^ 54`. -/
theorem printed_exact {v : Nat} (h : v < 2 ^ 54) (hpos : 0 < v) (hblock : 2 ^ 20 ∣ v) :
    printed v = v := by
  have hexact : (shortest v).1 * 10 ^ (shortest v).2 = v :=
    shortestFrom_exact h ((by decide : 2 ∣ 2 ^ 20).trans hblock) 19
  have hzeros : (shortest v).2 ≤ 15 := by
    by_contra hmany
    -- Sixteen trailing zeros and twenty factors of two are more than fits.
    have hten : 10 ^ 16 ∣ v := by
      refine (Nat.pow_dvd_pow 10 (Nat.lt_of_not_le hmany)).trans ?_
      exact Dvd.intro_left _ hexact
    have hfive : 5 ^ 16 ∣ v := (pow_dvd_pow_of_dvd (by decide : 5 ∣ 10) 16).trans hten
    have hboth : 2 ^ 20 * 5 ^ 16 ∣ v :=
      Nat.Coprime.mul_dvd_of_dvd_of_dvd (by decide) hblock hfive
    have hle : 2 ^ 20 * 5 ^ 16 ≤ v := Nat.le_of_dvd hpos hboth
    exact absurd (hle.trans_lt h) (by decide)
  rw [printed, if_pos hzeros, hexact]

/-- Three times `2 ^ 20` past `2 ^ 54`, the printed number is two too small. -/
example : printed (2 ^ 54 + 3 * 2 ^ 20) = 2 ^ 54 + 3 * 2 ^ 20 - 2 := by decide

end Double
