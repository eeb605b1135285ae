import Mathlib.Data.List.DropRight

/-!
# Text tools

The line and column tools a shell script is made of, as functions on bytes: `head`, `tail`, `cut`,
`dd`, `comm`, awk's `substr`, and the two ways a program's output becomes a value, the shell's
command substitution and execline's `backtick`. None of them needs its input to be text: a file may
hold any bytes, and a line is whatever stands before a newline.

**A line that was written is the line that is read.** Each tool has one rule for input of the
form `l ++ newline :: rest` with no newline in `l`, and callers use only that rule.
-/

set_option autoImplicit false

namespace Text

def newline : UInt8 := 10

/-- No byte of `l` ends a line. -/
def Unbroken (l : List UInt8) : Prop := ∀ b ∈ l, b ≠ newline

theorem unbroken_of_contains {l : List UInt8} (h : l.contains newline = false) : Unbroken l := by
  intro b hb hnl
  subst hnl
  simp [hb] at h

theorem Unbroken.take {l : List UInt8} (h : Unbroken l) (n : Nat) : Unbroken (l.take n) :=
  fun b hb => h b (List.mem_of_mem_take hb)

theorem Unbroken.drop {l : List UInt8} (h : Unbroken l) (n : Nat) : Unbroken (l.drop n) :=
  fun b hb => h b (List.mem_of_mem_drop hb)

/-- What `echo`, awk's `print` and `printf "%s\n"` write for one word. -/
def line (l : List UInt8) : List UInt8 := l ++ [newline]

theorem length_line (l : List UInt8) : (line l).length = l.length + 1 := by
  simp [line]

/-! ## Lines -/

/-- `head -n k`: the first `k` lines, with their newlines. -/
def headLines : Nat → List UInt8 → List UInt8
  | 0, _ => []
  | _ + 1, [] => []
  | k + 1, b :: bs => b :: headLines (if b = newline then k else k + 1) bs

/-- What is left after the first `k` lines. -/
def dropLines : Nat → List UInt8 → List UInt8
  | 0, bs => bs
  | _ + 1, [] => []
  | k + 1, b :: bs => dropLines (if b = newline then k else k + 1) bs

/-- `tail -n +k`: the input from its `k`th line on, counting from 1. -/
def tailLines (k : Nat) (bs : List UInt8) : List UInt8 := dropLines (k - 1) bs

theorem headLines_one {l : List UInt8} (h : Unbroken l) (rest : List UInt8) :
    headLines 1 (line l ++ rest) = line l := by
  induction l with
  | nil => simp [line, headLines]
  | cons b l ih =>
    have hb : b ≠ newline := h b (by simp)
    have ih := ih fun c hc => h c (by simp [hc])
    simp only [line, List.cons_append, headLines, if_neg hb, List.cons.injEq, true_and] at ih ⊢
    exact ih

theorem tailLines_two {l : List UInt8} (h : Unbroken l) (rest : List UInt8) :
    tailLines 2 (line l ++ rest) = rest := by
  show dropLines 1 (line l ++ rest) = rest
  induction l with
  | nil => simp [line, dropLines]
  | cons b l ih =>
    have hb : b ≠ newline := h b (by simp)
    have ih := ih fun c hc => h c (by simp [hc])
    simp only [line, List.cons_append, dropLines, if_neg hb] at ih ⊢
    exact ih

/-- The records awk and `grep` see when `current` has been read of the next one. -/
def recordsFrom (current : List UInt8) : List UInt8 → List (List UInt8)
  | [] => if current = [] then [] else [current]
  | b :: bs =>
    if b = newline then current :: recordsFrom [] bs else recordsFrom (current ++ [b]) bs

/-- The lines of a file without their newlines. -/
def records (bs : List UInt8) : List (List UInt8) := recordsFrom [] bs

theorem recordsFrom_line {l : List UInt8} (h : Unbroken l) (current rest : List UInt8) :
    recordsFrom current (line l ++ rest) = (current ++ l) :: recordsFrom [] rest := by
  induction l generalizing current with
  | nil => simp [line, recordsFrom]
  | cons b l ih =>
    have hb : b ≠ newline := h b (by simp)
    have ih := ih (fun c hc => h c (by simp [hc])) (current ++ [b])
    simp only [line, List.append_assoc, List.cons_append, List.nil_append] at ih ⊢
    simp only [recordsFrom, if_neg hb, ih]

/-- Lines that were written are the lines that are read. -/
theorem records_lines {ls : List (List UInt8)} (h : ∀ l ∈ ls, Unbroken l) :
    records (ls.flatMap line) = ls := by
  induction ls with
  | nil => rfl
  | cons l ls ih =>
    rw [List.flatMap_cons, records, recordsFrom_line (h l (by simp)) []]
    exact congrArg (l :: ·) (ih fun l' hl' => h l' (by simp [hl']))

theorem records_line {l : List UInt8} (h : Unbroken l) : records (line l) = [l] := by
  simpa using @records_lines [l] (by simpa using h)

/-! ## Blocks and columns -/

/-- `head -c n`. -/
def headBytes (n : Nat) (bs : List UInt8) : List UInt8 := bs.take n

/-- `dd bs=size skip=skip count=count` on a regular file, where every block but the last one is
full. -/
def dd (size skip count : Nat) (bs : List UInt8) : List UInt8 :=
  (bs.drop (skip * size)).take (count * size)

/-- One `read` of at most `n` bytes from a pipe that holds `buffer`: what it returns, and what
the pipe holds afterwards. -/
def pipeRead (n : Nat) (buffer : List UInt8) : List UInt8 × List UInt8 :=
  (buffer.take n, buffer.drop n)

/-- The bytes a line scan keeps when it is about to read column `column`. -/
def cutFrom (first last : Nat) : Nat → List UInt8 → List UInt8
  | _, [] => []
  | column, b :: bs =>
    if b = newline then newline :: cutFrom first last 1 bs
    else if first ≤ column ∧ column ≤ last then b :: cutFrom first last (column + 1) bs
    else cutFrom first last (column + 1) bs

/-- `cut -c first-last` on input whose last line is terminated. -/
def cut (first last : Nat) (bs : List UInt8) : List UInt8 := cutFrom first last 1 bs

/-- awk's `substr(s, m, n)`. -/
def substr (s : List UInt8) (m n : Nat) : List UInt8 := (s.drop (m - 1)).take n

/-- awk's `substr(s, m)`. -/
def substrFrom (s : List UInt8) (m : Nat) : List UInt8 := s.drop (m - 1)

/-- A suffix is its first window followed by the suffix behind it. -/
theorem substrFrom_split (s : List UInt8) {m : Nat} (hm : 0 < m) (n : Nat) :
    substrFrom s m = substr s m n ++ substrFrom s (m + n) := by
  have hdrop : m + n - 1 = m - 1 + n := by omega
  rw [substrFrom, substr, substrFrom, hdrop, ← List.drop_drop]
  exact (List.take_append_drop n _).symm

/-- Scanning a line from column `column` keeps the window `first … last` of it. -/
theorem cutFrom_line {l : List UInt8} (h : Unbroken l) (first last column : Nat) :
    cutFrom first last column (line l) =
      line ((l.take (last + 1 - column)).drop (first - column)) := by
  induction l generalizing column with
  | nil => simp [line, cutFrom]
  | cons b l ih =>
    have hb : b ≠ newline := h b (by simp)
    have ih := ih (fun c hc => h c (by simp [hc])) (column + 1)
    simp only [line] at ih
    simp only [line, List.cons_append, cutFrom, if_neg hb, ih]
    by_cases hlast : column ≤ last
    · obtain ⟨k, rfl⟩ := Nat.exists_eq_add_of_le hlast
      have htake : column + k + 1 - column = k + 1 := by omega
      have htake' : column + k + 1 - (column + 1) = k := by omega
      rw [htake, htake', List.take_succ_cons]
      by_cases hfirst : first ≤ column
      · simp [hfirst, Nat.sub_eq_zero_of_le, show first ≤ column + 1 by omega]
      · have hdrop : first - column = first - (column + 1) + 1 := by omega
        simp [hfirst, hdrop]
    · have htake : last + 1 - column = 0 := by omega
      have htake' : last + 1 - (column + 1) = 0 := by omega
      simp [hlast, htake, htake']

/-- On one line, `cut` and `substr` select the same window. -/
theorem cut_line {l : List UInt8} (h : Unbroken l) {first : Nat} (hfirst : 0 < first) (n : Nat) :
    cut first (first + n - 1) (line l) = line (substr l first n) := by
  rw [cut, cutFrom_line h, substr, List.drop_take]
  congr 2
  omega

/-! ## Fields and numbers -/

theorem map_intercalate {α β : Type} (f : α → β) (sep : List α) (ls : List (List α)) :
    (sep.intercalate ls).map f = (sep.map f).intercalate (ls.map (List.map f)) := by
  have hinter : ∀ ls : List (List α), (ls.intersperse sep).map (List.map f) =
      (ls.map (List.map f)).intersperse (sep.map f) := by
    intro ls
    induction ls with
    | nil => rfl
    | cons l ls ih =>
      cases ls with
      | nil => rfl
      | cons l' ls => simpa using ih
  rw [List.intercalate, List.map_flatten, hinter, List.intercalate]

/-- awk's `$n` with the field separator `sep`, for `n > 0`. -/
def field (sep : UInt8) (n : Nat) (record : List UInt8) : List UInt8 :=
  (record.splitOn sep).getD (n - 1) []

/-- ASCII lower case. -/
def lower (b : UInt8) : UInt8 :=
  if 65 ≤ b.toNat ∧ b.toNat ≤ 90 then UInt8.ofNat (b.toNat + 32) else b

/-- The value of a hexadecimal digit of either case. -/
def hexDigitValue (b : UInt8) : Option Nat :=
  if 48 ≤ b.toNat ∧ b.toNat ≤ 57 then some (b.toNat - 48)
  else if 97 ≤ b.toNat ∧ b.toNat ≤ 102 then some (b.toNat - 87)
  else if 65 ≤ b.toNat ∧ b.toNat ≤ 70 then some (b.toNat - 55)
  else none

/-- The number `strtod` reads from `0x` and what follows, up to the first byte that is no digit.
There is no fraction and no exponent. -/
def hexNumberFrom (acc : Nat) : List UInt8 → Nat
  | [] => acc
  | b :: bs =>
    match hexDigitValue b with
    | some d => hexNumberFrom (16 * acc + d) bs
    | none => acc

def hexNumber (digits : List UInt8) : Nat := hexNumberFrom 0 digits

theorem lower_toNat (b : UInt8) :
    (lower b).toNat = if 65 ≤ b.toNat ∧ b.toNat ≤ 90 then b.toNat + 32 else b.toNat := by
  unfold lower
  split
  · rename_i h
    simp [Nat.mod_eq_of_lt (show b.toNat + 32 < 256 by omega)]
  · rfl

theorem lower_lower (b : UInt8) : lower (lower b) = lower b := by
  rw [← UInt8.toNat_inj, lower_toNat, lower_toNat]
  by_cases h : 65 ≤ b.toNat ∧ b.toNat ≤ 90
  · simp only [if_pos h, ite_eq_right_iff]
    omega
  · simp only [if_neg h]

/-- Only letters change case. -/
theorem lower_eq_iff {b c : UInt8} (hc : c.toNat < 65) : lower b = c ↔ b = c := by
  rw [← UInt8.toNat_inj, ← UInt8.toNat_inj, lower_toNat]
  split <;> omega

theorem hexDigitValue_lower (b : UInt8) : hexDigitValue (lower b) = hexDigitValue b := by
  unfold hexDigitValue
  rw [lower_toNat]
  by_cases h : 65 ≤ b.toNat ∧ b.toNat ≤ 90
  · have hdigit : ¬ (48 ≤ b.toNat ∧ b.toNat ≤ 57) := by omega
    have hlow : ¬ (97 ≤ b.toNat ∧ b.toNat ≤ 102) := by omega
    have hdigit' : ¬ (48 ≤ b.toNat + 32 ∧ b.toNat + 32 ≤ 57) := by omega
    have hup' : ¬ (65 ≤ b.toNat + 32 ∧ b.toNat + 32 ≤ 70) := by omega
    have hiff : (97 ≤ b.toNat + 32 ∧ b.toNat + 32 ≤ 102) ↔ (65 ≤ b.toNat ∧ b.toNat ≤ 70) := by
      omega
    have hval : b.toNat + 32 - 87 = b.toNat - 55 := by omega
    simp only [if_pos h, if_neg hdigit, if_neg hlow, if_neg hdigit', if_neg hup', hiff, hval]
  · rw [if_neg h]

theorem hexNumber_lower (l : List UInt8) : hexNumber (l.map lower) = hexNumber l := by
  suffices hgen : ∀ acc, hexNumberFrom acc (l.map lower) = hexNumberFrom acc l from hgen 0
  induction l with
  | nil => intro acc; rfl
  | cons b l ih =>
    intro acc
    rw [List.map_cons, hexNumberFrom, hexNumberFrom, hexDigitValue_lower]
    cases hexDigitValue b with
    | none => rfl
    | some d => exact ih _

/-- Changing the case of a record changes the case of its fields. -/
theorem splitOn_lower {sep : UInt8} (hsep : sep.toNat < 65) (l : List UInt8) :
    (l.map lower).splitOn sep = (l.splitOn sep).map (List.map lower) := by
  induction l with
  | nil => rfl
  | cons b l ih =>
    simp only [List.splitOn] at ih ⊢
    rw [List.map_cons, List.splitOnP_cons_eq_if_modifyHead, List.splitOnP_cons_eq_if_modifyHead, ih]
    by_cases hb : b = sep
    · simp [hb, (lower_eq_iff hsep).mpr rfl]
    · have hb' : lower b ≠ sep := fun e => hb ((lower_eq_iff hsep).mp e)
      simp only [beq_iff_eq, if_neg hb, if_neg hb']
      cases l.splitOnP (· == sep) <;> rfl

theorem field_lower {sep : UInt8} (hsep : sep.toNat < 65) (n : Nat) (l : List UInt8) :
    field sep n (l.map lower) = (field sep n l).map lower := by
  rw [field, splitOn_lower hsep, field, List.getD_eq_getElem?_getD, List.getD_eq_getElem?_getD,
    List.getElem?_map]
  cases (l.splitOn sep)[n - 1]? <;> rfl

/-! ## Sorted lines -/

/-- How a locale sorts lines, with no two lines in one place. -/
structure Collation (α : Type) where
  le : α → α → Bool
  total : ∀ a b, (le a b || le b a) = true
  trans : ∀ a b c, le a b = true → le b c = true → le a c = true
  antisymm : ∀ a b, le a b = true → le b a = true → a = b

/-- The order of the locale `C`. -/
def byteOrder : Collation (List UInt8) where
  le a b := decide (a ≤ b)
  total a b := by simpa using List.le_total a b
  trans a b c := by simpa using List.le_trans
  antisymm a b := by simpa using List.le_antisymm

section Comm
variable {α : Type} (c : Collation α)

/-- `sort`. -/
def sort (lines : List α) : List α := lines.mergeSort c.le

/-- `comm -23`: the lines of the first file that are not in the second one, if both are sorted. -/
def comm23 : List α → List α → List α
  | [], _ => []
  | a :: as, [] => a :: comm23 as []
  | a :: as, b :: bs =>
    if c.le a b = true then
      if c.le b a = true then comm23 as bs else a :: comm23 as (b :: bs)
    else comm23 (a :: as) bs
termination_by as bs => as.length + bs.length

variable {c}

theorem comm23_nil_right (as : List α) : comm23 c as [] = as := by
  induction as with
  | nil => rw [comm23]
  | cons a as ih => rw [comm23, ih]

theorem mem_comm23 {as bs : List α} {z : α} (ha : as.Pairwise fun x y => c.le x y = true)
    (hb : bs.Pairwise fun x y => c.le x y = true) (hnodup : as.Nodup) :
    z ∈ comm23 c as bs ↔ z ∈ as ∧ z ∉ bs := by
  fun_induction comm23 c as bs with
  | case1 => simp
  | case2 a as => simp [comm23_nil_right]
  | case3 a as b bs hab hba ih =>
    -- the same line in both
    obtain rfl := c.antisymm a b hab hba
    rw [ih (List.pairwise_cons.mp ha).2 (List.pairwise_cons.mp hb).2 (List.nodup_cons.mp hnodup).2]
    have hnot : z ∈ as → z ≠ a := by
      rintro hz rfl
      exact (List.nodup_cons.mp hnodup).1 hz
    simp only [List.mem_cons, not_or]
    constructor
    · exact fun h => ⟨.inr h.1, hnot h.1, h.2⟩
    · exact fun h => ⟨h.1.resolve_left h.2.1, h.2.2⟩
  | case4 a as b bs hab hba ih =>
    -- what follows in the second file is greater than the line
    have hnot : a ∉ b :: bs := by
      intro hmem
      rcases List.mem_cons.mp hmem with rfl | hmem
      · exact hba hab
      · exact hba ((List.pairwise_cons.mp hb).1 a hmem)
    rw [List.mem_cons, ih (List.pairwise_cons.mp ha).2 hb (List.nodup_cons.mp hnodup).2]
    constructor
    · rintro (rfl | h)
      · exact ⟨List.mem_cons_self, hnot⟩
      · exact ⟨List.mem_cons_of_mem _ h.1, h.2⟩
    · exact fun h => (List.mem_cons.mp h.1).imp_right fun hz => ⟨hz, h.2⟩
  | case5 a as b bs hab ih =>
    -- and here what follows in the first file is
    have hne : z ∈ a :: as → z ≠ b := by
      rintro hz rfl
      rcases List.mem_cons.mp hz with rfl | hz
      · exact hab (by simpa using c.total z z)
      · exact hab ((List.pairwise_cons.mp ha).1 z hz)
    rw [ih ha (List.pairwise_cons.mp hb).2 hnodup, List.mem_cons (a := z) (b := b), not_or]
    exact ⟨fun h => ⟨h.1, hne h.1, h.2⟩, fun h => ⟨h.1, h.2.2⟩⟩

theorem comm23_sublist (as bs : List α) : (comm23 c as bs).Sublist as := by
  fun_induction comm23 c as bs with
  | case1 => exact List.Sublist.refl _
  | case2 a as ih => exact ih.cons_cons a
  | case3 a as b bs hab hba ih => exact ih.cons a
  | case4 a as b bs hab hba ih => exact ih.cons_cons a
  | case5 a as b bs hab ih => exact ih

theorem nodup_sort {as : List α} (hnodup : as.Nodup) : (sort c as).Nodup :=
  (List.mergeSort_perm as c.le).symm.nodup hnodup

/-- **`comm -23 <(sort as) <(sort bs)` is the difference.** -/
theorem mem_comm23_sort {as bs : List α} {z : α} (hnodup : as.Nodup) :
    z ∈ comm23 c (sort c as) (sort c bs) ↔ z ∈ as ∧ z ∉ bs := by
  have hsorted : ∀ l, (sort c l).Pairwise fun x y => c.le x y = true :=
    List.pairwise_mergeSort c.trans c.total
  rw [mem_comm23 (hsorted as) (hsorted bs) (nodup_sort hnodup)]
  simp [sort]

theorem nodup_comm23_sort {as bs : List α} (hnodup : as.Nodup) :
    (comm23 c (sort c as) (sort c bs)).Nodup :=
  (comm23_sublist _ _).nodup (nodup_sort hnodup)

end Comm

/-! ## A program's output as a value -/

/-- `$(…)`: the output without its trailing newlines. The output holds no NUL. -/
def commandSubst (out : List UInt8) : List UInt8 := out.rdropWhile (· = newline)

/-- execline's `backtick`: the output without one trailing newline. -/
def backtick (out : List UInt8) : List UInt8 :=
  if out.getLast? = some newline then out.dropLast else out

theorem commandSubst_unbroken {l : List UInt8} (h : Unbroken l) : commandSubst l = l := by
  rw [commandSubst, List.rdropWhile_eq_self_iff]
  intro hl
  simpa using h _ (List.getLast_mem hl)

theorem commandSubst_line {l : List UInt8} (h : Unbroken l) : commandSubst (line l) = l := by
  rw [line, commandSubst, List.rdropWhile_concat_pos _ _ _ (by simp)]
  exact commandSubst_unbroken h

theorem backtick_line (l : List UInt8) : backtick (line l) = l := by
  simp [backtick, line]

end Text
