import Mathlib.Algebra.Order.Floor.Div
import Mathlib.Algebra.Order.Group.Nat

/-!
# Pages

An address space as what is mapped at each page, for any page size. A range of bytes that begins at
a page boundary covers whole pages, the last of which it may only need a part of; `covers_sub` says
that this does not take it out of a region that it lies in byte by byte.
-/

set_option autoImplicit false

namespace Pages

variable {M : Type}

/-- What is mapped at each page. -/
abbrev Space (M : Type) := Nat → Option M

/-- How many pages so many bytes need. -/
def count (size length : Nat) : Nat := length ⌈/⌉ size

/-- The pages of the range, with its length rounded up. -/
def Covers (size addr length page : Nat) : Prop :=
  addr / size ≤ page ∧ page < addr / size + count size length

instance (size addr length page : Nat) : Decidable (Covers size addr length page) :=
  inferInstanceAs (Decidable (_ ∧ _))

/-- The space with the pages of a range replaced; `m i` is for the `i`th of them. -/
def Space.replace (space : Space M) (size addr length : Nat) (m : Nat → M) : Space M :=
  fun page => if Covers size addr length page then some (m (page - addr / size)) else space page

theorem Space.replace_of_not_covers {space : Space M} {size addr length page : Nat} {m : Nat → M}
    (h : ¬ Covers size addr length page) : space.replace size addr length m page = space page :=
  if_neg h

theorem Space.replace_ne_none {space : Space M} {size addr length page : Nat} {m : Nat → M}
    (h : space page ≠ none) : space.replace size addr length m page ≠ none := by
  unfold Space.replace
  split
  · exact nofun
  · exact h

theorem le_mul_count {size : Nat} (hsize : 0 < size) (length : Nat) :
    length ≤ size * count size length :=
  le_smul_ceilDiv hsize

/-- **Rounding up stays in the region.** -/
theorem covers_sub {size base offset length total page : Nat} (hsize : 0 < size)
    (hoffset : size ∣ offset) (hle : offset + length ≤ total)
    (h : Covers size (base + offset) length page) : Covers size base total page := by
  obtain ⟨k, rfl⟩ := hoffset
  have hdiv : (base + size * k) / size = base / size + k := Nat.add_mul_div_left base k hsize
  obtain ⟨hlo, hhi⟩ := h
  rw [hdiv] at hlo hhi
  have hcount : k + count size length ≤ count size total := by
    unfold count
    have hmono : (size * k + length) ⌈/⌉ size ≤ total ⌈/⌉ size := by
      rw [Nat.ceilDiv_eq_add_pred_div, Nat.ceilDiv_eq_add_pred_div]
      exact Nat.div_le_div_right (by omega)
    have hsplit : (size * k + length) ⌈/⌉ size = k + length ⌈/⌉ size := by
      rw [Nat.ceilDiv_eq_add_pred_div, Nat.ceilDiv_eq_add_pred_div,
        show size * k + length + size - 1 = length + size - 1 + size * k by omega,
        Nat.add_mul_div_left _ _ hsize, Nat.add_comm]
    omega
  exact ⟨by omega, by omega⟩

end Pages
