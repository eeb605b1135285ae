import Spectrum.Interact.Numeral

/-!
# Strings in memory

C functions do not get a string but a pointer to memory in which there is one: its bytes, a NUL, and
whatever follows. `strnlen`, `strchr` and `strncpy` are given here as functions of the memory behind
the pointer, and `strncpy` also of what the destination held before.

**Only the bytes before the NUL matter to them**, and `strncpy` makes the destination end in NULs
exactly as far as the string is shorter than the limit.
-/

set_option autoImplicit false

namespace CBuffer

/-- The string at the beginning of some memory. -/
def upToNul (mem : List UInt8) : List UInt8 := mem.takeWhile (· ≠ 0)

def strnlen (mem : List UInt8) (n : Nat) : Nat := (upToNul (mem.take n)).length

/-- Whether `strchr` finds the character. -/
def strchr (mem : List UInt8) (c : UInt8) : Bool := c ∈ upToNul mem

/-- What `dst` holds after `strncpy(dst, mem, n)`. -/
def strncpy (dst mem : List UInt8) (n : Nat) : List UInt8 :=
  let copied := upToNul (mem.take n)
  copied ++ List.replicate (n - copied.length) 0 ++ dst.drop n

/-- Memory that a string is stored in. -/
def stored (s : CString) (after : List UInt8) : List UInt8 := s.bytes ++ 0 :: after

theorem upToNul_append {l : List UInt8} (h : 0 ∉ l) (rest : List UInt8) :
    upToNul (l ++ rest) = l ++ upToNul rest := by
  unfold upToNul
  apply List.takeWhile_append_of_pos
  intro b hb
  exact decide_eq_true fun e => h (e ▸ hb)

@[simp] theorem upToNul_zero (rest : List UInt8) : upToNul (0 :: rest) = [] := rfl

/-- A string that NULs follow, or nothing. -/
theorem upToNul_padded {l : List UInt8} (h : 0 ∉ l) (k : Nat) :
    upToNul (l ++ List.replicate k 0) = l := by
  rw [upToNul_append h]
  cases k with
  | zero => exact List.append_nil l
  | succ k => rw [List.replicate_succ, upToNul_zero, List.append_nil]

variable (s : CString) (after : List UInt8)

@[simp] theorem upToNul_stored : upToNul (stored s after) = s.bytes := by
  rw [stored, upToNul_append s.noNul, upToNul_zero, List.append_nil]

/-- Of the first bytes of the memory, those of the string count. -/
theorem upToNul_take_stored (n : Nat) : upToNul ((stored s after).take n) = s.bytes.take n := by
  have hclear : 0 ∉ s.bytes.take n := fun h => s.noNul (List.mem_of_mem_take h)
  rw [stored, List.take_append, upToNul_append hclear]
  cases n - s.bytes.length with
  | zero => exact List.append_nil _
  | succ k => rw [List.take_succ_cons, upToNul_zero, List.append_nil]

theorem strnlen_stored (n : Nat) : strnlen (stored s after) n = min n s.bytes.length := by
  rw [strnlen, upToNul_take_stored, List.length_take]

theorem strchr_stored (c : UInt8) : strchr (stored s after) c = true ↔ c ∈ s.bytes := by
  simp [strchr]

/-- **Copying a string**: as much of it as there is room for, and NULs in the rest of the room. -/
theorem strncpy_stored (dst : List UInt8) (n : Nat) :
    strncpy dst (stored s after) n =
      s.bytes.take n ++ List.replicate (n - s.bytes.length) 0 ++ dst.drop n := by
  have hlen : n - (s.bytes.take n).length = n - s.bytes.length := by
    rw [List.length_take]
    omega
  simp only [strncpy, upToNul_take_stored, hlen]

end CBuffer
