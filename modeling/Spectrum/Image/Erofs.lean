import Spectrum.Interact.Text
import Spectrum.Interact.DirTree
import Spectrum.Path

/-!
# `make-erofs.sh`

Every file system image is made by `scripts/make-erofs.sh`. It reads pairs of lines, what to copy
and where to, and puts everything into one directory first, which `mkfs.erofs` then turns into the
image. What is copied comes mostly from a read-only store, so a directory that one pair has
brought may take no entries when another pair wants to put something into it; the script makes
every directory on the way writable before it copies.

**That is enough**: as long as no path comes from two pairs, and what is on the way to a
destination is a directory wherever a pair brings it, the script copies everything whatever the
modes are, and what is in the image depends on the set of pairs only and not on their order
(`makeErofs_holds`). Two pairs that bring the same directory is what the script can not do if the
directory is read-only: nothing makes it writable, because it is on the way to no destination.

`awk -v` reads escapes in what it is given: the directories on the way to a destination with a
backslash in it are not made writable.

The lines that are printed on the way are left out, and so is the removal of the directory.
-/

set_option autoImplicit false

namespace Spectrum.Image.Erofs

open Spectrum.Path Text Bytes DirTree

abbrev Word := List UInt8

/-! ## The script -/

def blank (b : UInt8) : Bool := b = 32 || b = 9

/-- What `read` makes of a line. -/
def trim (l : Word) : Word := (l.dropWhile blank).rdropWhile blank

/-- What `read -r` reads, time after time. It drops NUL bytes, and fails at a line that is not
terminated. -/
def readLines (current : Word) : List UInt8 → List Word
  | [] => []
  | b :: bs =>
    if b = newline then trim current :: readLines [] bs
    else if b = 0 then readLines current bs
    else readLines (current ++ [b]) bs

/-- `dirname`. -/
def dirname (w : Word) : Word :=
  let w' := w.rdropWhile (· = slash)
  if w' = [] then if w = [] then [dot] else [slash]
  else
    let d := w'.rdropWhile (· ≠ slash)
    if d = [] then [dot]
    else
      let d' := d.rdropWhile (· = slash)
      if d' = [] then [slash] else d'

def dotDot : Word := [dot, dot]

def backslash : UInt8 := 92

/-- What `awk` makes of a value that is given with `-v`. It reads escapes, and takes a value that
has none as it is. -/
structure Assignment where
  read : Word → Word
  verbatim : ∀ w, backslash ∉ w → read w = w

/-- What `awk` prints: the root and the components up to each of them. -/
def awkOutput (awk : Assignment) (parent root : Word) : List UInt8 :=
  let components := if awk.read parent = [] then [] else (awk.read parent).splitOn slash
  (List.range components.length).flatMap fun i =>
    line (awk.read root ++ slash :: (components.take (i + 1)).flatMap (· ++ [slash]))

/-- `xargs -rd '\n' chmod +w --`. What is not in `root` is not in the model, and nobody looks at
whether it fails. -/
def chmodAll (root : Word) (stdin : List UInt8) (t : DirTree Word) : DirTree Word := fun p =>
  if (records stdin).any fun arg => names arg = names root ++ p then (t p).map grant else t p

/-- The body of the loop. A destination with `..` in it leaves the model. -/
def place (awk : Assignment) (host : Word → Source Word) (root : Word) (t : DirTree Word)
    (arg1 arg2 : Word) : Option (DirTree Word) :=
  let parent := dirname arg2
  if (names arg2).contains dotDot then none
  else ((chmodAll root (awkOutput awk parent root) t).mkdirs (names parent)).bind fun t =>
    t.copy (host arg1) (names arg2)

/-- How the script ends: `ex_usage`, a command that failed, or `mkfs.erofs` with its arguments and
what is in the directory. -/
inductive Exit
  | usage
  | failed
  | mkfs (argv : List Word) (contents : DirTree Word)

/-- `while read -r arg1`, and `mkfs.erofs`. -/
def copyAll (awk : Assignment) (host : Word → Source Word) (root : Word) (argv : List Word) :
    DirTree Word → List Word → Exit
  | t, [] => .mkfs argv t
  | _, [_] => .usage
  | t, arg1 :: arg2 :: rest =>
    match place awk host root t arg1 arg2 with
    | none => .failed
    | some t => copyAll awk host root argv t rest

/-- `make-erofs.sh args < stdin`, where `mktemp` makes the directory `root`. -/
def makeErofs (awk : Assignment) (host : Word → Source Word) (root : Word) (args : List Word)
    (stdin : List UInt8) : Exit :=
  if args.getLastD [] = [] then .usage
  else copyAll awk host root
    ([ascii "-b4096".toList, ascii "--all-root".toList] ++ args ++ [root]) DirTree.empty
    (readLines [] stdin)

/-! ## Lines -/

/-- A word that comes back from the line it is written on. -/
structure Written (w : Word) : Prop where
  unbroken : Unbroken w
  noNul : 0 ∉ w
  trimmed : trim w = w

theorem readLines_line {w : Word} (h : Unbroken w) (hnul : 0 ∉ w) (current : Word)
    (rest : List UInt8) :
    readLines current (line w ++ rest) = trim (current ++ w) :: readLines [] rest := by
  induction w generalizing current with
  | nil => simp [line, readLines]
  | cons b w ih =>
    have hb : b ≠ newline := h b (by simp)
    have hb₀ : b ≠ 0 := fun h₀ => hnul (by simp [h₀])
    have ih := ih (fun c hc => h c (by simp [hc])) (fun h₀ => hnul (by simp [h₀])) (current ++ [b])
    simp only [line, List.append_assoc, List.cons_append, List.nil_append] at ih ⊢
    simp only [readLines, if_neg hb, if_neg hb₀, ih]

/-- The lines of a pair: they come back as they were written, and `awk` takes the destination as it
is. -/
structure Lines (x : Word × Word) : Prop where
  source : Written x.1
  dest : Written x.2
  verbatim : backslash ∉ x.2

/-- A check of `Lines` that can be computed. -/
def linesOk (x : Word × Word) : Bool :=
  [newline, 0].all (fun b => !x.1.contains b && !x.2.contains b) && !x.2.contains backslash &&
    trim x.1 = x.1 && trim x.2 = x.2

theorem Lines.of_linesOk {x : Word × Word} (h : linesOk x = true) : Lines x := by
  simp only [linesOk, List.all_cons, List.all_nil, Bool.and_true, Bool.and_eq_true,
    Bool.not_eq_true', decide_eq_true_eq] at h
  obtain ⟨⟨⟨⟨hline, hnul⟩, hback⟩, htrim₁⟩, htrim₂⟩ := h
  exact ⟨⟨unbroken_of_contains hline.1, by simpa using hnul.1, htrim₁⟩,
    ⟨unbroken_of_contains hline.2, by simpa using hnul.2, htrim₂⟩, by simpa using hback⟩

/-- The lines of a list of pairs. -/
def srcdest (pairs : List (Word × Word)) : List UInt8 :=
  pairs.flatMap fun x => line x.1 ++ line x.2

theorem readLines_srcdest {pairs : List (Word × Word)}
    (h : ∀ x ∈ pairs, Lines x) :
    readLines [] (srcdest pairs) = pairs.flatMap fun x => [x.1, x.2] := by
  induction pairs with
  | nil => rfl
  | cons x pairs ih =>
    have hx := h x (by simp)
    have ih := ih fun y hy => h y (by simp [hy])
    have heq : srcdest (x :: pairs) = line x.1 ++ (line x.2 ++ srcdest pairs) := by simp [srcdest]
    rw [heq, readLines_line hx.source.unbroken hx.source.noNul,
      readLines_line hx.dest.unbroken hx.dest.noNul, ih]
    simp [hx.source.trimmed, hx.dest.trimmed]

/-! ## The directory of a path -/

/-- No component is `.` or `..`. -/
def Plain (w : Word) : Prop := ∀ part ∈ w.splitOn slash, part ≠ [dot] ∧ part ≠ dotDot

instance (w : Word) : Decidable (Plain w) := inferInstanceAs (Decidable (∀ _ ∈ _, _))

theorem names_rdropWhile_slash (w : Word) : names (w.rdropWhile (· = slash)) = names w := by
  induction w using List.reverseRecOn with
  | nil => rfl
  | append_singleton w b ih =>
    rw [List.rdropWhile_concat]
    split
    · rename_i hb
      have hb : b = slash := by simpa using hb
      rw [ih, hb, names_append_slash, names_nil, List.append_nil]
    · rfl

theorem Plain.rdropWhile_slash {w : Word} (h : Plain w) : Plain (w.rdropWhile (· = slash)) := by
  induction w using List.reverseRecOn with
  | nil => exact h
  | append_singleton w b ih =>
    rw [List.rdropWhile_concat]
    split
    · rename_i hb
      have hb : b = slash := by simpa using hb
      refine ih fun part hpart => h part ?_
      rw [hb, List.splitOn_append_cons_self]
      exact List.mem_append_left _ hpart
    · exact h

/-- A path is what stands up to its last slash, and a component. -/
theorem exists_eq_append_component (w : Word) :
    ∃ c, slash ∉ c ∧ w = w.rdropWhile (· ≠ slash) ++ c ∧
      (w.rdropWhile (· ≠ slash) = [] ∨ ∃ d, w.rdropWhile (· ≠ slash) = d ++ [slash]) := by
  induction w using List.reverseRecOn with
  | nil => exact ⟨[], by simp, rfl, .inl rfl⟩
  | append_singleton w b ih =>
    rw [List.rdropWhile_concat]
    by_cases hb : b = slash
    · exact ⟨[], by simp, by simp [hb], .inr ⟨w, by simp [hb]⟩⟩
    · obtain ⟨c, hc, hw, hd⟩ := ih
      rw [if_pos (by simpa using hb)]
      refine ⟨c ++ [b], by simp [hc, Ne.symm hb], ?_, hd⟩
      rw [← List.append_assoc, ← hw]

/-- **`dirname` takes the last component away.** -/
theorem names_dirname {w : Word} (h : Plain w) : names (dirname w) = (names w).dropLast := by
  unfold dirname
  rw [← names_rdropWhile_slash w]
  have hplain := h.rdropWhile_slash
  have hlast := List.rdropWhile_last_not (fun b => decide (b = slash)) w
  generalize w.rdropWhile (· = slash) = w' at hplain hlast
  by_cases hw' : w' = []
  · simp only [hw', if_true, names_nil, List.dropLast_nil]
    split <;> rfl
  simp only [hw', if_false]
  obtain ⟨c, hslash, heq, hd⟩ := exists_eq_append_component w'
  generalize w'.rdropWhile (· ≠ slash) = d at heq hd
  -- the last component is not empty, since the slashes at the end are gone
  have hc : c ≠ [] := by
    rintro rfl
    rcases hd with rfl | ⟨d', rfl⟩
    · simp [heq] at hw'
    · refine hlast hw' ?_
      simp [heq]
  rcases hd with rfl | ⟨d', rfl⟩
  · have hnames : names w' = [c] := by
      rw [heq]
      refine names_of_counts ⟨hc, ?_⟩ hslash
      refine (hplain c ?_).1
      rw [heq, List.nil_append, List.splitOn_eq_singleton hslash]
      simp
    simp only [if_true, hnames]
    rfl
  · have hw'eq : w' = d' ++ slash :: c := by rw [heq]; simp
    have hnames : names w' = names d' ++ [c] := by
      rw [hw'eq, names_append_slash]
      congr 1
      refine names_of_counts ⟨hc, ?_⟩ hslash
      refine (hplain c ?_).1
      rw [hw'eq, List.splitOn_append_cons_self, List.splitOn_eq_singleton hslash]
      simp
    have hd'names : names ((d' ++ [slash]).rdropWhile (· = slash)) = names d' := by
      rw [names_rdropWhile_slash, names_append_slash, names_nil, List.append_nil]
    rw [hnames, List.dropLast_concat, ← hd'names]
    simp only [List.append_eq_nil_iff, List.cons_ne_nil, and_false, if_false]
    split
    · rename_i hempty
      rw [hempty]
      rfl
    · rfl

theorem dirname_ne_nil (w : Word) : dirname w ≠ [] := by
  unfold dirname
  dsimp only
  split_ifs <;> first | assumption | exact List.cons_ne_nil _ _

theorem mem_of_mem_dirname {w : Word} {b : UInt8} (h : b ∈ dirname w) :
    b ∈ w ∨ b = dot ∨ b = slash := by
  have hsub : ∀ (p : UInt8 → Bool) (v : Word), b ∈ v.rdropWhile p → b ∈ v := fun p v hb =>
    (List.rdropWhile_prefix p v).subset hb
  unfold dirname at h
  dsimp only at h
  split_ifs at h <;> try simp_all
  exact .inl (hsub _ _ (hsub _ _ (hsub _ _ h)))

theorem Lines.dirname {x : Word × Word} (h : Lines x) :
    Unbroken (Erofs.dirname x.2) ∧ backslash ∉ Erofs.dirname x.2 := by
  constructor
  · intro b hb
    rcases mem_of_mem_dirname hb with hb | rfl | rfl
    · exact h.dest.unbroken b hb
    · decide
    · decide
  · intro hb
    rcases mem_of_mem_dirname hb with hb | hb | hb
    · exact h.verbatim hb
    · exact absurd hb (by decide)
    · exact absurd hb (by decide)

theorem Plain.not_contains_dotDot {w : Word} (h : Plain w) :
    ¬ (names w).contains dotDot = true := by
  rw [List.contains_iff_mem]
  intro hmem
  exact (h _ (List.mem_of_mem_filter hmem)).2 rfl

/-! ## What is made writable -/

/-- What is a path's beginning, as far as its components count. -/
theorem isPrefix_filter_iff {α : Type} (f : α → Bool) (l p : List α) :
    p <+: l.filter f ↔ ∃ k ≤ l.length, p = (l.take k).filter f := by
  constructor
  · intro hp
    induction l generalizing p with
    | nil => exact ⟨0, Nat.zero_le _, List.prefix_nil.mp hp⟩
    | cons a l ih =>
      by_cases ha : f a = true
      · rw [List.filter_cons_of_pos ha] at hp
        rcases List.prefix_cons_iff.mp hp with rfl | ⟨p', rfl, hp'⟩
        · exact ⟨0, Nat.zero_le _, rfl⟩
        · obtain ⟨k, hk, rfl⟩ := ih p' hp'
          exact ⟨k + 1, Nat.succ_le_succ hk, by simp [ha]⟩
      · rw [List.filter_cons_of_neg ha] at hp
        obtain ⟨k, hk, rfl⟩ := ih p hp
        exact ⟨k + 1, Nat.succ_le_succ hk, by simp [ha]⟩
  · rintro ⟨k, _, rfl⟩
    exact (List.take_prefix k l).filter f

theorem names_components {cs : List Word} (h : ∀ c ∈ cs, slash ∉ c) :
    names (cs.flatMap (· ++ [slash])) = cs.filter fun c => Counts c := by
  induction cs with
  | nil => rfl
  | cons c cs ih =>
    have hc : names c = [c].filter fun c => Counts c := by
      rw [names, List.splitOn_eq_singleton (h c (by simp))]
    rw [List.flatMap_cons, List.append_assoc, List.singleton_append, names_append_slash, hc,
      ih fun c' hc' => h c' (by simp [hc']), ← List.filter_append]
    rfl

/-- **`chmod` gets every directory on the way**, as long as `awk` sees the paths as they are. -/
theorem chmodAll_awkOutput (awk : Assignment) {root parent : Word} {t : DirTree Word}
    (hroot : Unbroken root ∧ backslash ∉ root) (hparent : Unbroken parent ∧ backslash ∉ parent)
    (hne : parent ≠ []) (ht : t [] = some (.dir true)) :
    chmodAll root (awkOutput awk parent root) t = t.chmodAlong (names parent) := by
  have hslash : ∀ c ∈ parent.splitOn slash, slash ∉ c := fun c hc => (of_mem_splitOn hc).1
  have hargs : records (awkOutput awk parent root) =
      (List.range (parent.splitOn slash).length).map fun i =>
        root ++ slash :: ((parent.splitOn slash).take (i + 1)).flatMap (· ++ [slash]) := by
    simp only [awkOutput, awk.verbatim _ hroot.2, awk.verbatim _ hparent.2, if_neg hne]
    rw [← List.flatMap_map]
    refine records_lines fun l hl b hb => ?_
    obtain ⟨i, _, rfl⟩ := List.mem_map.mp hl
    rcases List.mem_append.mp hb with hb | hb
    · exact hroot.1 b hb
    rcases List.mem_cons.mp hb with rfl | hb
    · decide
    obtain ⟨c, hc, hb⟩ := List.mem_flatMap.mp hb
    rcases List.mem_append.mp hb with hb | hb
    · exact hparent.1 b ((of_mem_splitOn (List.mem_of_mem_take hc)).2 hb)
    · obtain rfl := List.mem_singleton.mp hb
      decide
  have hnames : ∀ i, names (root ++ slash ::
      ((parent.splitOn slash).take (i + 1)).flatMap (· ++ [slash])) =
        names root ++ ((parent.splitOn slash).take (i + 1)).filter fun c => Counts c := by
    intro i
    rw [names_append_slash, names_components fun c hc => hslash c (List.mem_of_mem_take hc)]
  funext p
  by_cases hp : p = []
  · -- the root may not be among them, but it is writable anyway
    subst hp
    simp [chmodAll, DirTree.chmodAlong, ht, DirTree.grant]
  have hiff : (∃ i < (parent.splitOn slash).length,
      ((parent.splitOn slash).take (i + 1)).filter (fun c => Counts c) = p) ↔
        p <+: names parent := by
    rw [names, isPrefix_filter_iff]
    constructor
    · rintro ⟨i, hi, rfl⟩
      exact ⟨i + 1, hi, rfl⟩
    · rintro ⟨k, hk, rfl⟩
      cases k with
      | zero => simp at hp
      | succ k => exact ⟨k, hk, rfl⟩
  simp only [chmodAll, DirTree.chmodAlong, hargs, List.any_map, List.any_eq_true, List.mem_range,
    Function.comp_apply, hnames, List.append_cancel_left_eq, decide_eq_true_eq, hiff]

/-! ## What is in the image -/

section
variable (host : Word → Source Word)

/-- A pair brings `e` to `p`. -/
def Brings (x : Word × Word) (p : List Word) (e : Entry) : Prop :=
  ∃ q, (q, e) ∈ (host x.1).entries ∧ p = names x.2 ++ q

def Sourced (pairs : List (Word × Word)) (p : List Word) (e : Entry) : Prop :=
  ∃ x ∈ pairs, Brings host x p e

/-- `p` is the root or on the way to a destination. -/
def Above (pairs : List (Word × Word)) (p : List Word) : Prop :=
  p = [] ∨ ∃ x ∈ pairs, p <+: (names x.2).dropLast

/-- What the script needs of its input: nothing but the sources' names and kinds, not their
modes. -/
structure Compatible (pairs : List (Word × Word)) : Prop where
  exist : ∀ x ∈ pairs, (host x.1).entries ≠ []
  plain : ∀ x ∈ pairs, Plain x.2
  apart : pairs.Pairwise fun x y => ∀ p e e', Brings host x p e → ¬ Brings host y p e'
  through : ∀ p e, Above pairs p → Sourced host pairs p e → ∃ w, e = .dir w

instance (pairs : List (Word × Word)) (p : List Word) : Decidable (Above pairs p) :=
  inferInstanceAs (Decidable (_ ∨ _))

/-- `Compatible`, entry by entry. -/
theorem compatible_iff (pairs : List (Word × Word)) :
    Compatible host pairs ↔
      (∀ x ∈ pairs, (host x.1).entries ≠ []) ∧ (∀ x ∈ pairs, Plain x.2) ∧
      (pairs.Pairwise fun x y => ∀ a ∈ (host x.1).entries, ∀ b ∈ (host y.1).entries,
        names x.2 ++ a.1 ≠ names y.2 ++ b.1) ∧
      ∀ x ∈ pairs, ∀ a ∈ (host x.1).entries, Above pairs (names x.2 ++ a.1) →
        a.2 = .dir true ∨ a.2 = .dir false := by
  constructor
  · intro h
    refine ⟨h.exist, h.plain, h.apart.imp ?_, ?_⟩
    · rintro x y happart ⟨q, e⟩ ha ⟨r, e'⟩ hb heq
      exact happart _ e e' ⟨q, ha, rfl⟩ ⟨r, hb, heq⟩
    · rintro x hx ⟨q, e⟩ ha habove
      obtain ⟨w, rfl⟩ := h.through _ e habove ⟨x, hx, q, ha, rfl⟩
      cases w
      · exact .inr rfl
      · exact .inl rfl
  · rintro ⟨hexist, hplain, hapart, hthrough⟩
    refine ⟨hexist, hplain, hapart.imp ?_, ?_⟩
    · rintro x y happart p e e' ⟨q, ha, hp⟩ ⟨r, hb, hp'⟩
      exact happart _ ha _ hb (hp.symm.trans hp')
    · rintro p e habove ⟨x, hx, q, ha, rfl⟩
      rcases hthrough x hx _ ha habove with he | he
      · exact ⟨true, he⟩
      · exact ⟨false, he⟩

instance (pairs : List (Word × Word)) : Decidable (Compatible host pairs) :=
  decidable_of_iff _ (compatible_iff host pairs).symm

/-- What is there once `done` is copied. -/
structure Holds (done : List (Word × Word)) (t : DirTree Word) : Prop where
  above : ∀ p, Above done p → t p = some (.dir true)
  rest : ∀ p, ¬ Above done p → ∀ e, t p = some e ↔ Sourced host done p e

end

variable {awk : Assignment} {host : Word → Source Word} {root : Word}

theorem Above.mono {xs ys : List (Word × Word)} {p : List Word} (hsub : xs ⊆ ys)
    (h : Above xs p) : Above ys p :=
  h.imp_right fun ⟨x, hx, hp⟩ => ⟨x, hsub hx, hp⟩

theorem Sourced.mono {xs ys : List (Word × Word)} {p : List Word} {e : Entry} (hsub : xs ⊆ ys)
    (h : Sourced host xs p e) : Sourced host ys p e :=
  let ⟨x, hx, hp⟩ := h
  ⟨x, hsub hx, hp⟩

theorem Holds.empty : Holds host [] DirTree.empty where
  above p hp := by
    rcases hp with rfl | ⟨x, hx, _⟩
    · rfl
    · cases hx
  rest p hp e := by
    have hne : p ≠ [] := fun h => hp (.inl h)
    constructor
    · intro h
      simp [DirTree.empty, hne] at h
    · rintro ⟨x, hx, _⟩
      cases hx

/-- The image is determined by what it holds. -/
theorem Holds.unique {pairs : List (Word × Word)} {t t' : DirTree Word} (h : Holds host pairs t)
    (h' : Holds host pairs t') : t = t' := by
  funext p
  by_cases hp : Above pairs p
  · rw [h.above p hp, h'.above p hp]
  · ext e
    rw [h.rest p hp e, h'.rest p hp e]

theorem Holds.perm {xs ys : List (Word × Word)} {t : DirTree Word} (hperm : xs.Perm ys)
    (h : Holds host xs t) : Holds host ys t where
  above p hp := h.above p (hp.mono hperm.symm.subset)
  rest p hp e := by
    rw [h.rest p (fun hp' => hp (hp'.mono hperm.subset)) e]
    exact ⟨.mono hperm.subset, .mono hperm.symm.subset⟩

theorem Compatible.perm {xs ys : List (Word × Word)} (hperm : xs.Perm ys)
    (h : Compatible host xs) : Compatible host ys where
  exist x hx := h.exist x (hperm.symm.subset hx)
  plain x hx := h.plain x (hperm.symm.subset hx)
  apart := by
    refine hperm.pairwise h.apart ?_
    intro x y hxy p e e' hy hx
    exact hxy p e' e hx hy
  through p e hp he := h.through p e (hp.mono hperm.symm.subset) (he.mono hperm.symm.subset)

/-- What is on the way to the next destination, once `chmod +w` and `mkdir -p` have run. -/
theorem exists_mkdirs {done rest : List (Word × Word)} {x : Word × Word} {t : DirTree Word}
    (hc : Compatible host (done ++ x :: rest)) (h : Holds host done t) :
    ∃ t', (t.chmodAlong (names x.2).dropLast).mkdirs (names x.2).dropLast = some t' ∧
      ∀ p, t' p = if p <+: (names x.2).dropLast then some (.dir true) else t p := by
  have hpath : ∀ p, p <+: (names x.2).dropLast →
      t.chmodAlong (names x.2).dropLast p = none ∨
        t.chmodAlong (names x.2).dropLast p = some (.dir true) := by
    intro p hp
    simp only [DirTree.chmodAlong, if_pos hp]
    by_cases habove : Above done p
    · exact .inr (by rw [h.above p habove]; rfl)
    · cases htp : t p with
      | none => exact .inl rfl
      | some e =>
        have hsrc := ((h.rest p habove e).mp htp).mono (List.subset_append_left done (x :: rest))
        obtain ⟨w, rfl⟩ := hc.through p e (.inr ⟨x, by simp, hp⟩) hsrc
        exact .inr rfl
  have hroot : t.chmodAlong (names x.2).dropLast [] = some (.dir true) := by
    simp [DirTree.chmodAlong, h.above [] (.inl rfl), DirTree.grant]
  obtain ⟨t', ht', hspec⟩ := DirTree.mkdirs_eq hroot hpath
  refine ⟨t', ht', fun p => ?_⟩
  rw [hspec p]
  split
  · rfl
  · rename_i hp
    simp only [DirTree.chmodAlong, if_neg hp]

/-- **One pair**: the loop's body succeeds, and everything is as it should be afterwards. -/
theorem Holds.place {done rest : List (Word × Word)} {x : Word × Word} {t : DirTree Word}
    (hroot : Unbroken root ∧ backslash ∉ root) (hx : Lines x)
    (hc : Compatible host (done ++ x :: rest)) (h : Holds host done t) :
    ∃ t', Erofs.place awk host root t x.1 x.2 = some t' ∧ Holds host (done ++ [x]) t' := by
  have hplain := hc.plain x (by simp)
  have hdone : done ⊆ done ++ x :: rest := List.subset_append_left done (x :: rest)
  obtain ⟨t₁, ht₁, hspec⟩ := exists_mkdirs hc h
  have hon : ∀ p, p <+: (names x.2).dropLast → t₁ p = some (.dir true) := fun p hp => by
    rw [hspec p, if_pos hp]
  have hoff : ∀ p, ¬ p <+: (names x.2).dropLast → t₁ p = t p := fun p hp => by
    rw [hspec p, if_neg hp]
  have happart : ∀ p e e', Brings host x p e → ¬ Sourced host done p e' := by
    rintro p e e' hx ⟨y, hy, hbr⟩
    exact (List.pairwise_append.mp hc.apart).2.2 y hy x (by simp) p e' e hbr hx
  have habove : ∀ p, Above (done ++ [x]) p ↔ Above done p ∨ p <+: (names x.2).dropLast := by
    intro p
    simp only [Above, List.mem_append, List.mem_singleton, or_and_right, exists_or, exists_eq_left,
      or_assoc]
  -- what the pair brings is new, or a directory on the way to some destination
  have hfree : ∀ q e, (q, e) ∈ (host x.1).entries → t₁ (names x.2 ++ q) = none ∨
      t₁ (names x.2 ++ q) = some (.dir true) ∧ ∃ w, e = .dir w := by
    intro q e hq
    have hbr : Brings host x (names x.2 ++ q) e := ⟨q, hq, rfl⟩
    have hthrough : Above (done ++ [x]) (names x.2 ++ q) → ∃ w, e = .dir w := fun hab =>
      hc.through _ e (hab.mono (by simp)) ⟨x, by simp, hbr⟩
    by_cases hp : names x.2 ++ q <+: (names x.2).dropLast
    · exact .inr ⟨hon _ hp, hthrough ((habove _).mpr (.inr hp))⟩
    rw [hoff _ hp]
    by_cases hab : Above done (names x.2 ++ q)
    · exact .inr ⟨h.above _ hab, hthrough ((habove _).mpr (.inl hab))⟩
    · cases htp : t (names x.2 ++ q) with
      | none => exact .inl rfl
      | some e' => exact absurd ((h.rest _ hab e').mp htp) (happart _ e e' hbr)
  have htop : t₁ [] = some (.dir true) := hon [] List.nil_prefix
  obtain ⟨t', ht', hnew, hkept⟩ := DirTree.copy_eq (hc.exist x (by simp))
    (.inr (hon _ (List.prefix_refl _))) (by simp [htop]) hfree
  have hchmod : chmodAll root (awkOutput awk (dirname x.2) root) t =
      t.chmodAlong (names x.2).dropLast := by
    rw [chmodAll_awkOutput awk hroot hx.dirname (dirname_ne_nil x.2) (h.above [] (.inl rfl)),
      names_dirname hplain]
  refine ⟨t', ?_, ?_, ?_⟩
  · simp only [Erofs.place, hchmod, names_dirname hplain, if_neg hplain.not_contains_dotDot, ht₁,
      Option.bind_some, ht']
  · intro p hp
    have ht₁p : t₁ p = some (.dir true) := by
      by_cases hon' : p <+: (names x.2).dropLast
      · exact hon p hon'
      · rw [hoff p hon']
        exact h.above p (((habove p).mp hp).resolve_right hon')
    rw [hkept p (.inl (by simp [ht₁p])), ht₁p]
  · intro p hp e
    have hdoneAbove : ¬ Above done p := fun hab => hp ((habove p).mpr (.inl hab))
    have ht₁p : t₁ p = t p := hoff p fun hon' => hp ((habove p).mpr (.inr hon'))
    have hsourced : Sourced host (done ++ [x]) p e ↔ Sourced host done p e ∨ Brings host x p e := by
      simp only [Sourced, List.mem_append, List.mem_singleton, or_and_right, exists_or,
        exists_eq_left]
    rw [hsourced, ← h.rest p hdoneAbove e]
    by_cases hbr : ∃ e', Brings host x p e'
    · -- the pair brings it, and nothing was there
      obtain ⟨e', hbr⟩ := hbr
      have hnone : t p = none := by
        cases htp : t p with
        | none => rfl
        | some e₀ => exact absurd ((h.rest p hdoneAbove e₀).mp htp) (happart p e' e₀ hbr)
      have hput : ∀ e, Brings host x p e → t' p = some e := by
        rintro e ⟨q, hq, rfl⟩
        exact hnew q e hq (ht₁p.trans hnone)
      constructor
      · intro htp
        obtain rfl : e' = e := Option.some.inj ((hput e' hbr).symm.trans htp)
        exact .inr hbr
      · rintro (htp | hbr)
        · simp [hnone] at htp
        · exact hput e hbr
    · have hsame : t' p = t p := by
        rw [← ht₁p]
        refine hkept p (.inr ?_)
        rintro ⟨q, e'⟩ hq rfl
        exact hbr ⟨e', q, hq, rfl⟩
      rw [hsame]
      exact ⟨.inl, fun h => h.resolve_right fun hx => hbr ⟨e, hx⟩⟩

theorem Holds.copyAll (rest : List (Word × Word)) {done : List (Word × Word)} {t : DirTree Word}
    {argv : List Word} (hroot : Unbroken root ∧ backslash ∉ root) (hlines : ∀ x ∈ rest, Lines x)
    (hc : Compatible host (done ++ rest)) (h : Holds host done t) :
    ∃ t', Erofs.copyAll awk host root argv t (rest.flatMap fun x => [x.1, x.2]) = .mkfs argv t' ∧
      Holds host (done ++ rest) t' := by
  induction rest generalizing done t with
  | nil => exact ⟨t, rfl, by simpa using h⟩
  | cons x rest ih =>
    obtain ⟨t₁, ht₁, h₁⟩ := @Holds.place awk _ _ _ _ _ _ hroot (hlines x (by simp)) hc h
    obtain ⟨t', ht', h'⟩ := ih (fun y hy => hlines y (by simp [hy])) (by simpa using hc) h₁
    refine ⟨t', ?_, by simpa using h'⟩
    simpa only [List.flatMap_cons, List.cons_append, List.nil_append, Erofs.copyAll, ht₁] using ht'

/-- What `mkfs.erofs` is run with. -/
theorem exists_makeErofs {args : List Word} {pairs order : List (Word × Word)}
    (himg : args.getLastD [] ≠ []) (hroot : Unbroken root ∧ backslash ∉ root)
    (hlines : ∀ x ∈ pairs, Lines x) (hc : Compatible host pairs) (hperm : order.Perm pairs) :
    ∃ t, makeErofs awk host root args (srcdest order) =
        .mkfs ([ascii "-b4096".toList, ascii "--all-root".toList] ++ args ++ [root]) t ∧
      Holds host pairs t := by
  have hlines : ∀ x ∈ order, Lines x := fun x hx => hlines x (hperm.subset hx)
  have hc' : Compatible host ([] ++ order) := by simpa using hc.perm hperm.symm
  obtain ⟨t, ht, h⟩ := Holds.copyAll order hroot hlines hc' Holds.empty
  refine ⟨t, ?_, Holds.perm (by simpa using hperm) h⟩
  rw [makeErofs, if_neg himg, readLines_srcdest hlines, ht]

/-- An `awk` that drops backslashes. -/
def dropBackslashes : Assignment where
  read w := w.filter (· ≠ backslash)
  verbatim w h := by
    refine List.filter_eq_self.mpr fun b hb => ?_
    have hne : b ≠ backslash := fun heq => h (heq ▸ hb)
    simpa using hne

/-- A store with a read-only directory that has a directory in it, under `s`, and a file under
every other name. -/
def store (arg1 : Word) : Source Word :=
  if arg1 = ascii ['s'] then ⟨[([], .dir false), ([ascii ['u']], .dir false)], by decide⟩
  else ⟨[([], .file arg1 false true)], rfl⟩

/-- The root comes from the store, and a file is put into a directory of it. -/
def rootAndFile : List (Word × Word) :=
  [(ascii ['s'], ascii ['/']), (ascii ['f'], ascii ['/', 'u', '/', 'f'])]

/-- A read-only directory that two pairs bring: there is no destination in it, so it stays
read-only, and the second pair's entries are refused. -/
example : makeErofs dropBackslashes store (ascii ['r']) [ascii ['i']]
    (srcdest [(ascii ['s'], ascii ['/']), (ascii ['s'], ascii ['/', 'u'])]) = .failed := rfl

/-- A read-only directory with a backslash in its name, into which a file is to go: `chmod` gets
another name. -/
example : makeErofs dropBackslashes store (ascii ['r']) [ascii ['i']]
    (srcdest [(ascii ['s'], ascii ['\\']), (ascii ['f'], ascii ['\\', '/', 'f'])]) = .failed := rfl

end Spectrum.Image.Erofs
