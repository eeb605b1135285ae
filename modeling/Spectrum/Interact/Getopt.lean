import Mathlib.Data.List.Basic

/-!
# Options

`getopt` for options without arguments, where the first operand ends the options (POSIX, or a `+` in
front of the option characters). An argument that is a dash and something behind it is a cluster of
options, `--` is the end of them, and everything else is an operand.

**The calls of `getopt` return the options of the command line, one after another, exactly if it can
be read as options and operands.** An option that is not known is returned as a question mark; what
is printed about it is left out.
-/

set_option autoImplicit false

namespace Getopt

/-- An argument, or a part of one. -/
abbrev Arg := List UInt8

/-- The value for an option character. -/
def value (opts : List UInt8) (c : UInt8) : UInt8 := if c ∈ opts then c else 63

/-- The values that are returned before the first `-1`, and the operands that are left then. -/
def scan (opts : List UInt8) : List Arg → List UInt8 × List Arg
  | [] => ([], [])
  | arg :: args =>
    match arg with
    | 45 :: c :: cs =>
      if c = 45 ∧ cs = [] then ([], args)
      else ((c :: cs).map (value opts) ++ (scan opts args).1, (scan opts args).2)
    | _ => ([], arg :: args)

/-- A dash with something behind it. -/
def IsCluster (arg : Arg) : Prop := ∃ c cs, arg = 45 :: c :: cs

/-- How a command line is read: as these options, followed by these operands. -/
inductive Parses (opts : List UInt8) : List Arg → List UInt8 → List Arg → Prop
  | empty : Parses opts [] [] []
  | operand {arg : Arg} {args : List Arg} (h : ¬ IsCluster arg) :
      Parses opts (arg :: args) [] (arg :: args)
  | dashes {args : List Arg} : Parses opts ([45, 45] :: args) [] args
  | cluster {cs os : List UInt8} {args operands : List Arg} (hne : cs ≠ []) (hdash : cs ≠ [45])
      (hopts : ∀ c ∈ cs, c ∈ opts) (hargs : Parses opts args os operands) :
      Parses opts ((45 :: cs) :: args) (cs ++ os) operands

variable {opts os : List UInt8} {arg : Arg} {args operands : List Arg}

theorem scan_operand (h : ¬ IsCluster arg) : scan opts (arg :: args) = ([], arg :: args) := by
  unfold scan
  split
  · exact absurd ⟨_, _, rfl⟩ h
  · rfl

theorem scan_dashes : scan opts ([45, 45] :: args) = ([], args) := by
  simp [scan]

theorem scan_cluster {cs : List UInt8} (hne : cs ≠ []) (hdash : cs ≠ [45]) :
    scan opts ((45 :: cs) :: args) =
      (cs.map (value opts) ++ (scan opts args).1, (scan opts args).2) := by
  cases cs with
  | nil => exact absurd rfl hne
  | cons c cs =>
    have hneg : ¬ (c = 45 ∧ cs = []) := by
      intro h
      exact hdash (by rw [h.1, h.2])
    simp only [scan, if_neg hneg]

/-- An argument is read in one of three ways. -/
theorem arg_cases (arg : Arg) :
    ¬ IsCluster arg ∨ arg = [45, 45] ∨ ∃ cs, arg = 45 :: cs ∧ cs ≠ [] ∧ cs ≠ [45] := by
  by_cases h : IsCluster arg
  · obtain ⟨c, cs, rfl⟩ := h
    by_cases hdash : c :: cs = [45]
    · exact Or.inr (Or.inl (by rw [hdash]))
    · exact Or.inr (Or.inr ⟨c :: cs, rfl, List.cons_ne_nil _ _, hdash⟩)
  · exact Or.inl h

theorem map_value {cs : List UInt8} (h : ∀ c ∈ cs, c ∈ opts) : cs.map (value opts) = cs := by
  have hid : ∀ c ∈ cs, value opts c = id c := fun c hc => if_pos (h c hc)
  rw [List.map_congr_left hid, List.map_id]

/-- Values that are all options stand for themselves. -/
theorem mem_of_value_mem (hopts : 63 ∉ opts) {c : UInt8} (h : value opts c ∈ opts) : c ∈ opts := by
  unfold value at h
  split at h
  · assumption
  · exact absurd h hopts

theorem Parses.scan_eq (h : Parses opts args os operands) : scan opts args = (os, operands) := by
  induction h with
  | empty => rfl
  | operand h => exact scan_operand h
  | dashes => exact scan_dashes
  | cluster hne hdash hopts _ ih => rw [scan_cluster hne hdash, map_value hopts, ih]

theorem Parses.mem (h : Parses opts args os operands) : ∀ o ∈ os, o ∈ opts := by
  induction h with
  | empty => simp
  | operand h => simp
  | dashes => simp
  | cluster hne hdash hopts _ ih =>
    intro o ho
    rcases List.mem_append.mp ho with ho | ho
    · exact hopts o ho
    · exact ih o ho

theorem parses_of_mem (hopts : 63 ∉ opts) (args : List Arg)
    (h : ∀ o ∈ (scan opts args).1, o ∈ opts) :
    Parses opts args (scan opts args).1 (scan opts args).2 := by
  induction args with
  | nil => exact .empty
  | cons arg args ih =>
    rcases arg_cases arg with harg | rfl | ⟨cs, rfl, hne, hdash⟩
    · rw [scan_operand harg]
      exact .operand harg
    · rw [scan_dashes]
      exact .dashes
    · rw [scan_cluster hne hdash] at h ⊢
      have hcs : ∀ c ∈ cs, c ∈ opts := by
        intro c hc
        exact mem_of_value_mem hopts (h _ (List.mem_append_left _ (List.mem_map_of_mem hc)))
      have hargs := ih fun o ho => h o (List.mem_append_right _ ho)
      rw [map_value hcs]
      exact .cluster hne hdash hcs hargs

/-- **`getopt` returns nothing but options exactly if the command line can be read**, and then it
returns the options of that reading. -/
theorem parses_iff (hopts : 63 ∉ opts) :
    Parses opts args os operands ↔ scan opts args = (os, operands) ∧ ∀ o ∈ os, o ∈ opts := by
  constructor
  · intro h
    exact ⟨h.scan_eq, h.mem⟩
  · intro h
    obtain ⟨hscan, hmem⟩ := h
    have hparses := parses_of_mem hopts args (by rw [hscan]; exact hmem)
    rwa [hscan] at hparses

end Getopt
