import Spectrum.Errno
import Spectrum.Image.Gpt
import Spectrum.Interact.Getopt
import Spectrum.Interact.Numeral
import Spectrum.Interact.Play

/-!
# `lseek`

The tool that moves the offset of an open file and then becomes another program. Its command line
has options for the origin, two numbers and the program; what `getopt` and `strtol` make of it
is in `Getopt` and `Numeral`.

**The tool does what is written on its command line exactly unless it misreads it**: it takes the
number that an operand begins with for the operand, and it does not look whether there is a
program before it has moved the offset.
-/

set_option autoImplicit false

namespace Spectrum.Tools

open Interact Bytes Getopt Numeral

/-! ## The code -/

inductive Whence
  | SEEK_SET
  | SEEK_CUR
  | SEEK_END
  deriving Repr, DecidableEq

/-- The calls, with those of the C library that end the process. -/
inductive Call : Type → Type
  /-- To standard error. -/
  | fputs (text : String) : Call Unit
  | exit (status : Nat) : Call Empty
  /-- `err`, which prints the text, if there is one, and what the error number means. -/
  | err (status : Nat) (text : Option Arg) (e : Errno) : Call Empty
  /-- `errx`, which prints only what this error number means. -/
  | errx (status : Nat) (e : Errno) : Call Empty
  | lseek (fd offset : Int) (whence : Whence) : Call (Except Errno Int)
  /-- It returns only if it fails. -/
  | execvp (file : Option Arg) (argv : List Arg) : Call Errno

def EXIT_FAILURE : Nat := 1

def INT_MAX : Int := 2 ^ 31 - 1

/-- A call from which nothing returns. -/
def abort (c : Call Empty) : Prog Call Empty := .call c Empty.elim

def exUsage : Prog Call Empty :=
  .call (.fputs "Usage: lseek [ -C | -E | -S ] fd offset prog...\n") fun _ =>
    abort (.exit EXIT_FAILURE)

/-- `CES`. -/
def optstring : List UInt8 := [67, 69, 83]

/-- The `switch` in the loop over the options, which ends at an option that is not known. -/
def whenceOf : Whence → List UInt8 → Option Whence
  | whence, [] => some whence
  | _, opt :: opts =>
    if opt = 67 then whenceOf .SEEK_CUR opts
    else if opt = 69 then whenceOf .SEEK_END opts
    else if opt = 83 then whenceOf .SEEK_SET opts
    else none

/-- What `strtol` leaves in `errno`, if it was zero before. Where there is no number it may set it
or not. -/
def strtolErrno (einval : Bool) (s : Arg) : Errno :=
  if (strtol 64 s).range then ERANGE
  else if einval ∧ ¬ Converts s then EINVAL
  else 0

/-- The conversion to `off_t`, of 64 bits. -/
def toOffT (n : Int) : Int := n.bmod (2 ^ 64)

/-- The end of `main`. Where there is no program, `argv[optind]` is the null pointer that ends the
arguments. -/
def seekAndExec (fd offset : Int) (whence : Whence) (operands : List Arg) : Prog Call Empty :=
  .call (.lseek fd offset whence) fun
    | .error e => abort (.err EXIT_FAILURE none e)
    | .ok _ =>
      .call (.execvp operands.head? operands) fun e =>
        abort (.err EXIT_FAILURE (some (ascii ['e', 'x', 'e', 'c'])) e)

def main (einval : Bool) (argv : List Arg) : Prog Call Empty :=
  match whenceOf .SEEK_CUR (scan optstring argv.tail).1 with
  | none => exUsage
  | some whence =>
    match (scan optstring argv.tail).2 with
    | fdArg :: offsetArg :: operands =>
      let fd := (strtol 64 fdArg).number
      if fd < 0 ∨ INT_MAX < fd then abort (.errx EXIT_FAILURE EBADF)
      else
        let offset := (strtol 64 offsetArg).number
        let errno := strtolErrno einval offsetArg
        if errno ≠ 0 then
          abort (.err EXIT_FAILURE (some (ascii "bad offset: ".toList ++ offsetArg)) errno)
        else if offset ≠ toOffT offset then abort (.errx EXIT_FAILURE EINVAL)
        else seekAndExec fd offset whence operands
    | _ => exUsage

/-! ## What it is for -/

/-- What a command line asks for. -/
structure Command where
  whence : Whence
  fd : Int
  offset : Int
  prog : Arg
  args : List Arg

/-- To move the offset, and to execute the program if that has worked. -/
def Command.run (c : Command) : Prog Call Empty :=
  .call (.lseek c.fd c.offset c.whence) fun
    | .error e => abort (.err EXIT_FAILURE none e)
    | .ok _ =>
      .call (.execvp (some c.prog) (c.prog :: c.args)) fun e =>
        abort (.err EXIT_FAILURE (some (ascii ['e', 'x', 'e', 'c'])) e)

def origin (opt : UInt8) : Whence :=
  if opt = 69 then .SEEK_END else if opt = 83 then .SEEK_SET else .SEEK_CUR

/-- The origin that options stand for: the last one counts. -/
def lastOrigin (opts : List UInt8) : Whence := (opts.getLast?.map origin).getD .SEEK_CUR

/-- **A well-formed command line**: options, and at least three operands, of which the first two are
numbers as a whole. -/
def WellFormed (argv : List Arg) (c : Command) : Prop :=
  ∃ opts fdArg offsetArg,
    Parses optstring argv.tail opts (fdArg :: offsetArg :: c.prog :: c.args) ∧
    c.whence = lastOrigin opts ∧
    IsInteger fdArg c.fd ∧ 0 ≤ c.fd ∧ c.fd ≤ INT_MAX ∧
    IsInteger offsetArg c.offset ∧ -2 ^ 63 ≤ c.offset ∧ c.offset < 2 ^ 63

/-- To print something, if anything, and to exit with failure. -/
inductive Fails : Prog Call Empty → Prop
  | fputs {text : String} {k : Unit → Prog Call Empty} (h : Fails (k ())) :
      Fails (.call (.fputs text) k)
  | exit {k : Empty → Prog Call Empty} : Fails (.call (.exit EXIT_FAILURE) k)
  | err {text : Option Arg} {e : Errno} {k : Empty → Prog Call Empty} :
      Fails (.call (.err EXIT_FAILURE text e) k)
  | errx {e : Errno} {k : Empty → Prog Call Empty} : Fails (.call (.errx EXIT_FAILURE e) k)

/-- To move an offset, or to execute a program. -/
def Call.acts {β : Type} : Call β → Bool
  | .lseek .. => true
  | .execvp .. => true
  | _ => false

/-- The tool does what a well-formed command line asks for, and for any other it fails without
having changed anything. -/
structure AsWritten (einval : Bool) (argv : List Arg) : Prop where
  wellFormed : ∀ c, WellFormed argv c → main einval argv = c.run
  otherwise : (¬ ∃ c, WellFormed argv c) → Fails (main einval argv)

/-- The operands that are enough for the tool to go ahead. -/
structure Suffices (einval : Bool) (argv : List Arg) (opts : List UInt8) (fdArg offsetArg : Arg)
    (operands : List Arg) : Prop where
  parses : Parses optstring argv.tail opts (fdArg :: offsetArg :: operands)
  nonneg : 0 ≤ (strtol 64 fdArg).number
  le : (strtol 64 fdArg).number ≤ INT_MAX
  errno : strtolErrno einval offsetArg = 0

/-- The tool goes ahead, but there is no program, or there is more in an operand than a number. -/
def Misread (einval : Bool) (argv : List Arg) : Prop :=
  ∃ opts fdArg offsetArg operands, Suffices einval argv opts fdArg offsetArg operands ∧
    (operands = [] ∨ (¬ ∃ n, IsInteger fdArg n) ∨ ¬ ∃ n, IsInteger offsetArg n)

/-! ## What it does -/

/-- An option is taken for what it stands for, and what is not one ends the loop. -/
theorem whenceOf_cons (whence : Whence) (opt : UInt8) (opts : List UInt8) :
    whenceOf whence (opt :: opts) =
      if opt ∈ optstring then whenceOf (origin opt) opts else none := by
  by_cases hC : opt = 67
  · subst hC
    rfl
  · by_cases hE : opt = 69
    · subst hE
      rfl
    · by_cases hS : opt = 83
      · subst hS
        rfl
      · simp [whenceOf, optstring, hC, hE, hS]

theorem whenceOf_eq {opts : List UInt8} (h : ∀ o ∈ opts, o ∈ optstring) (whence : Whence) :
    whenceOf whence opts = some ((opts.getLast?.map origin).getD whence) := by
  induction opts generalizing whence with
  | nil => rfl
  | cons opt opts ih =>
    rw [whenceOf_cons, if_pos (h opt (by simp)), ih (fun o ho => h o (by simp [ho])),
      List.getLast?_cons]
    cases opts.getLast? <;> rfl

theorem mem_optstring_of_whenceOf {opts : List UInt8} {whence whence' : Whence}
    (h : whenceOf whence opts = some whence') : ∀ o ∈ opts, o ∈ optstring := by
  induction opts generalizing whence with
  | nil => simp
  | cons opt opts ih =>
    rw [whenceOf_cons] at h
    split at h
    · rename_i hopt
      intro o ho
      rcases List.mem_cons.mp ho with rfl | ho
      · exact hopt
      · exact ih h o ho
    · cases h

theorem fails_exUsage : Fails exUsage := .fputs .exit

/-- A number that is read without an error is an `off_t`. -/
theorem strtol_bounds (s : Arg) :
    -2 ^ 63 ≤ (strtol 64 s).number ∧ (strtol 64 s).number < 2 ^ 63 := by
  unfold strtol longMax
  dsimp only
  repeat' split
  all_goals dsimp only
  all_goals omega

theorem toOffT_number (s : Arg) : toOffT (strtol 64 s).number = (strtol 64 s).number := by
  obtain ⟨hlow, hhigh⟩ := strtol_bounds s
  exact Int.bmod_eq_of_le (by omega) (by omega)

/-- **Where the command line suffices, the tool goes ahead.** -/
theorem main_of_suffices {einval : Bool} {argv : List Arg} {opts : List UInt8}
    {fdArg offsetArg : Arg} {operands : List Arg}
    (h : Suffices einval argv opts fdArg offsetArg operands) :
    main einval argv = seekAndExec (strtol 64 fdArg).number (strtol 64 offsetArg).number
      (lastOrigin opts) operands := by
  have hnonneg := h.nonneg
  have hle := h.le
  simp only [main, h.parses.scan_eq, whenceOf_eq h.parses.mem, h.errno, toOffT_number]
  rw [if_neg (by omega), if_neg (by simp), if_neg (by simp)]
  rfl

/-- **Everywhere else it fails.** -/
theorem fails_main {einval : Bool} {argv : List Arg}
    (h : ¬ ∃ opts fdArg offsetArg operands, Suffices einval argv opts fdArg offsetArg operands) :
    Fails (main einval argv) := by
  unfold main
  split
  · exact fails_exUsage
  · rename_i whence hwhence
    have hparses := parses_of_mem (by decide) _ (mem_optstring_of_whenceOf hwhence)
    split
    · rename_i fdArg offsetArg operands hoperands
      rw [hoperands] at hparses
      dsimp only
      split
      · exact .errx
      · rename_i hfd
        split
        · exact .err
        · rename_i herrno
          exact absurd ⟨_, _, _, _, hparses, by omega, by omega, not_not.mp herrno⟩ h
    · exact fails_exUsage

/-! ## Command lines -/

section

variable {einval : Bool} {argv : List Arg} {s : Arg} {n : Int}

theorem strtol_of_bounds (h : IsInteger s n) (hlow : -2 ^ 63 ≤ n) (hhigh : n < 2 ^ 63) :
    strtol 64 s = ⟨n, [], false⟩ := by
  rw [strtol_of_isInteger 64 h, longMax, if_neg (by omega), if_neg (by omega)]

theorem strtolErrno_of_bounds (einval : Bool) (h : IsInteger s n) (hlow : -2 ^ 63 ≤ n)
    (hhigh : n < 2 ^ 63) : strtolErrno einval s = 0 := by
  simp [strtolErrno, strtol_of_bounds h hlow hhigh, h.converts]

/-- An integer is read as such, or as one of the bounds. -/
theorem strtol_cases (h : IsInteger s n) :
    strtol 64 s = ⟨n, [], false⟩ ∨ strtol 64 s = ⟨2 ^ 63 - 1, [], true⟩ ∨
      strtol 64 s = ⟨-2 ^ 63, [], true⟩ := by
  rw [strtol_of_isInteger 64 h]
  split
  · exact Or.inr (Or.inl rfl)
  · split
    · exact Or.inr (Or.inr rfl)
    · exact Or.inl rfl

/-- What is read as a descriptor, and is an integer as a whole, is that integer. -/
theorem number_eq_of_le (h : IsInteger s n) (hlow : 0 ≤ (strtol 64 s).number)
    (hhigh : (strtol 64 s).number ≤ INT_MAX) : (strtol 64 s).number = n := by
  unfold INT_MAX at hhigh
  rcases strtol_cases h with hs | hs | hs
  · rw [hs]
  · rw [hs] at hhigh
    dsimp only at hhigh
    omega
  · rw [hs] at hlow
    dsimp only at hlow
    omega

/-- The same for an offset, where the bounds are those of `long`. -/
theorem number_eq_of_errno (h : IsInteger s n) (herrno : strtolErrno einval s = 0) :
    (strtol 64 s).number = n := by
  have hrange : ERANGE ≠ 0 := by decide
  rcases strtol_cases h with hs | hs | hs
  · rw [hs]
  · rw [strtolErrno, hs, if_pos rfl] at herrno
    exact absurd herrno hrange
  · rw [strtolErrno, hs, if_pos rfl] at herrno
    exact absurd herrno hrange

/-- A well-formed command line suffices, and its numbers are the ones that are read. -/
theorem WellFormed.suffices (einval : Bool) {c : Command} (h : WellFormed argv c) :
    ∃ opts fdArg offsetArg, Suffices einval argv opts fdArg offsetArg (c.prog :: c.args) ∧
      c.whence = lastOrigin opts ∧ IsInteger fdArg c.fd ∧ IsInteger offsetArg c.offset := by
  obtain ⟨opts, fdArg, offsetArg, hparses, hwhence, hfd, hnonneg, hle, hoffset, hlow, hhigh⟩ := h
  have hle' : c.fd ≤ 2 ^ 31 - 1 := hle
  have hfd' := strtol_of_bounds hfd (by omega) (by omega)
  refine ⟨opts, fdArg, offsetArg, ⟨hparses, ?_, ?_, ?_⟩, hwhence, hfd, hoffset⟩
  · rw [hfd']
    exact hnonneg
  · rw [hfd']
    exact hle
  · exact strtolErrno_of_bounds einval hoffset hlow hhigh

/-- A command line can be read in one way only. -/
theorem Suffices.unique {opts opts' : List UInt8} {fdArg fdArg' offsetArg offsetArg' : Arg}
    {operands operands' : List Arg} (h : Suffices einval argv opts fdArg offsetArg operands)
    (h' : Suffices einval argv opts' fdArg' offsetArg' operands') :
    opts = opts' ∧ fdArg = fdArg' ∧ offsetArg = offsetArg' ∧ operands = operands' := by
  have heq := h.parses.scan_eq.symm.trans h'.parses.scan_eq
  simpa using heq

/-- **A command line that suffices is well-formed, unless it is misread.** -/
theorem Suffices.wellFormed {opts : List UInt8} {fdArg offsetArg prog : Arg} {args : List Arg}
    {fd offset : Int} (h : Suffices einval argv opts fdArg offsetArg (prog :: args))
    (hfd : IsInteger fdArg fd) (hoffset : IsInteger offsetArg offset) :
    WellFormed argv ⟨lastOrigin opts, fd, offset, prog, args⟩ := by
  have hfd' := number_eq_of_le hfd h.nonneg h.le
  have hoffset' := number_eq_of_errno hoffset h.errno
  have hnonneg := h.nonneg
  have hle := h.le
  have hbounds := strtol_bounds offsetArg
  rw [hfd'] at hnonneg hle
  rw [hoffset'] at hbounds
  exact ⟨opts, fdArg, offsetArg, h.parses, rfl, hfd, hnonneg, hle, hoffset, hbounds⟩

/-- Whatever comes of its calls, what fails moves no offset and executes nothing. -/
theorem Fails.emits {p : Prog Call Empty} (h : Fails p) :
    p.Emits fun ev => ev.call.acts = false := by
  induction h with
  | fputs _ ih => exact Prog.emits_call (fun _ => rfl) fun _ => ih
  | exit => exact Prog.emits_call (fun _ => rfl) fun b => b.elim
  | err => exact Prog.emits_call (fun _ => rfl) fun b => b.elim
  | errx => exact Prog.emits_call (fun _ => rfl) fun b => b.elim

/-- What goes ahead moves an offset. -/
theorem not_fails_seekAndExec (fd offset : Int) (whence : Whence) (operands : List Arg) :
    ¬ Fails (seekAndExec fd offset whence operands) := by
  intro h
  have hseek := h.emits (fun _ _ _ => none) 0 ⟨.lseek fd offset whence, none⟩ List.mem_cons_self
  cases hseek

end

/-- **The tool does what is written on its command line, exactly unless it misreads it.** -/
theorem main_asWritten_iff (einval : Bool) (argv : List Arg) :
    AsWritten einval argv ↔ ¬ Misread einval argv := by
  constructor
  · intro h hmisread
    obtain ⟨opts, fdArg, offsetArg, operands, hsuffices, hwrong⟩ := hmisread
    have hnone : ¬ ∃ c, WellFormed argv c := by
      intro hc
      obtain ⟨c, hc⟩ := hc
      obtain ⟨opts', fdArg', offsetArg', hsuffices', -, hfd, hoffset⟩ := hc.suffices einval
      obtain ⟨-, rfl, rfl, rfl⟩ := hsuffices.unique hsuffices'
      rcases hwrong with hprog | hwrong | hwrong
      · cases hprog
      · exact hwrong ⟨_, hfd⟩
      · exact hwrong ⟨_, hoffset⟩
    have hfails := h.otherwise hnone
    rw [main_of_suffices hsuffices] at hfails
    exact not_fails_seekAndExec _ _ _ _ hfails
  · intro hmisread
    constructor
    · intro c hc
      obtain ⟨opts, fdArg, offsetArg, hsuffices, hwhence, hfd, hoffset⟩ := hc.suffices einval
      rw [main_of_suffices hsuffices, number_eq_of_le hfd hsuffices.nonneg hsuffices.le,
        number_eq_of_errno hoffset hsuffices.errno, ← hwhence]
      rfl
    · intro hnone
      apply fails_main
      intro h
      obtain ⟨opts, fdArg, offsetArg, operands, hsuffices⟩ := h
      refine hmisread ⟨opts, fdArg, offsetArg, operands, hsuffices, ?_⟩
      cases operands with
      | nil => exact Or.inl rfl
      | cons prog args =>
        refine Or.inr ?_
        by_contra hboth
        obtain ⟨hfd, hoffset⟩ := not_or.mp hboth
        obtain ⟨fd, hfd⟩ := not_not.mp hfd
        obtain ⟨offset, hoffset⟩ := not_not.mp hoffset
        exact hnone ⟨_, hsuffices.wellFormed hfd hoffset⟩

/-- `lseek 1x 0 cat` moves the offset of descriptor 1, and so does `lseek 1 0`, which then executes
nothing. -/
theorem main_misreads :
    let lseek := ascii "lseek".toList
    let cat := ascii "cat".toList
    let trailing := [lseek, ascii ['1', 'x'], ascii ['0'], cat]
    let missing := [lseek, ascii ['1'], ascii ['0']]
    (¬ ∃ c, WellFormed trailing c) ∧ (¬ ∃ c, WellFormed missing c) ∧
      ∀ einval, main einval trailing = seekAndExec 1 0 .SEEK_CUR [cat] ∧
        main einval missing = seekAndExec 1 0 .SEEK_CUR [] := by
  intro lseek cat trailing missing
  refine ⟨?_, ?_, ?_⟩
  · intro h
    obtain ⟨c, opts, fdArg, offsetArg, hparses, -, hfd, -⟩ := h
    have hscan : scan optstring trailing.tail = ([], [ascii ['1', 'x'], ascii ['0'], cat]) := rfl
    rw [hparses.scan_eq] at hscan
    simp only [Prod.mk.injEq, List.cons.injEq] at hscan
    obtain ⟨-, rfl, -⟩ := hscan
    have hdigit : isDigit 120 = true := hfd.1.2 120 (by decide)
    revert hdigit
    decide
  · intro h
    obtain ⟨c, opts, fdArg, offsetArg, hparses, -⟩ := h
    have hscan : scan optstring missing.tail = ([], [ascii ['1'], ascii ['0']]) := rfl
    rw [hparses.scan_eq] at hscan
    simp at hscan
  · intro einval
    cases einval <;> exact ⟨rfl, rfl⟩

/-! ## The script that fills partitions -/

/-- `lseek -S 1 "$start" cat "$3"`. -/
def fillPartitionArgv (start : Nat) (file : Arg) : List Arg :=
  [ascii "lseek".toList, ascii ['-', 'S'], ascii ['1'], decimal start, ascii "cat".toList, file]

theorem parses_fillPartitionArgv (start : Nat) (file : Arg) :
    Parses optstring (fillPartitionArgv start file).tail [83]
      [ascii ['1'], decimal start, ascii "cat".toList, file] :=
  (parses_iff (by decide)).mpr ⟨rfl, by simp [optstring]⟩

/-- **The script's offsets are never misread**: standard output is moved to the offset that was
printed, if it is one, and otherwise nothing is written. -/
theorem main_fillPartition (einval : Bool) (start : Nat) (file : Arg) :
    match Image.lseek start with
    | some offset => main einval (fillPartitionArgv start file) =
        Command.run ⟨.SEEK_SET, 1, offset, ascii "cat".toList, [file]⟩
    | none => Fails (main einval (fillPartitionArgv start file)) := by
  have hparses := parses_fillPartitionArgv start file
  have hstart : IsInteger (decimal start) start := by
    have hint := (isNumeral_decimal start).isInteger
    rwa [value_decimal] at hint
  unfold Image.lseek
  by_cases hlt : start < 2 ^ 63
  · rw [if_pos hlt]
    have hsuffices : Suffices einval (fillPartitionArgv start file) [83] (ascii ['1'])
        (decimal start) [ascii "cat".toList, file] :=
      ⟨hparses, by decide, by decide,
        strtolErrno_of_bounds einval hstart (by omega) (by omega)⟩
    dsimp only
    rw [main_of_suffices hsuffices, strtol_of_bounds hstart (by omega) (by omega)]
    rfl
  · rw [if_neg hlt]
    apply fails_main
    intro h
    obtain ⟨opts, fdArg, offsetArg, operands, h⟩ := h
    have hscan := h.parses.scan_eq.symm.trans hparses.scan_eq
    simp only [Prod.mk.injEq, List.cons.injEq] at hscan
    obtain ⟨-, -, rfl, -⟩ := hscan
    have hnumber := number_eq_of_errno hstart h.errno
    have hbounds := strtol_bounds (decimal start)
    omega

end Spectrum.Tools
