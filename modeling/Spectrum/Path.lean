import Spectrum.Interact.Bytes

/-!
# Unix paths

The parts of Rust's `std::path` that the repository uses, for byte strings: a path is split at
slashes, and empty components and `.` are skipped, apart from a `.` at the very beginning.
-/

set_option autoImplicit false

namespace Spectrum

open Bytes

abbrev Path := List UInt8

namespace Path

def slash : UInt8 := 47

def isAbsolute (p : Path) : Prop := p.head? = some slash

instance (p : Path) : Decidable (isAbsolute p) := inferInstanceAs (Decidable (_ = _))

/-- `Path::join`. -/
def join (a b : Path) : Path :=
  if isAbsolute b then b
  else if a.getLast?.any (· ≠ slash) then a ++ slash :: b
  else a ++ b

theorem isAbsolute_join {a : Path} (ha : isAbsolute a) (b : Path) : isAbsolute (join a b) := by
  unfold join
  split
  · assumption
  · unfold isAbsolute at *
    split <;> simp [List.head?_append, ha]

/-- How much of a path is not part of its components: the root, or a leading `.`. -/
def start (p : Path) : Nat :=
  if isAbsolute p then 1
  else if p = ascii ['.'] ∨ ascii ['.', '/'] <+: p then 1
  else 0

/-- What stands between the slashes. -/
def parts (p : Path) : List Path := (p.drop (start p)).splitOn slash

/-- Whether this is a component, and not skipped. -/
def Counts (part : Path) : Prop := part ≠ [] ∧ part ≠ ascii ['.']

instance (part : Path) : Decidable (Counts part) := inferInstanceAs (Decidable (_ ∧ _))

/-- `Path::file_name`. -/
def fileName (p : Path) : Option Path :=
  match (parts p).reverse.find? fun part => Counts part with
  | some part => if part = ascii ['.', '.'] then none else some part
  | none => none

/-- `Path::parent`. The root has no parent and neither has the empty path. -/
def parent (p : Path) : Option Path :=
  match (parts p).reverse.dropWhile fun part => ¬ Counts part with
  | _ :: rest =>
    let rest := rest.dropWhile fun part => ¬ Counts part
    some (p.take (start p) ++ [slash].intercalate rest.reverse)
  | [] => if start p = 1 ∧ ¬ isAbsolute p then some [] else none

def dot : UInt8 := 46

/-- `Path::extension`: what stands behind the last dot of the file name, unless that dot is the
first byte of it. -/
def extension (p : Path) : Option Path :=
  match fileName p with
  | none => none
  | some file =>
    match file.reverse.dropWhile (· ≠ dot) with
    | [] => none
    | _ :: before => if before = [] then none else some (file.reverse.takeWhile (· ≠ dot)).reverse

/-! ## Components -/

/-- The components of a path behind its root or its leading `.`. -/
def names (p : Path) : List Path := (p.splitOn slash).filter fun part => Counts part

/-- `Path::components`. -/
def components (p : Path) : List Path :=
  (if start p = 0 then [] else [p.take 1]) ++ (parts p).filter fun part => Counts part

@[simp] theorem names_nil : names [] = [] := rfl

/-- **A slash separates the components before it from those after it.** -/
theorem names_append_slash (p q : Path) : names (p ++ slash :: q) = names p ++ names q := by
  simp only [names, List.splitOn_append_cons_self, List.filter_append]

@[simp] theorem names_slash_cons (p : Path) : names (slash :: p) = names p :=
  names_append_slash [] p

theorem names_dot_slash (p : Path) : names (46 :: slash :: p) = names p :=
  names_append_slash [46] p

/-- A single name. -/
theorem names_of_counts {n : Path} (hn : Counts n) (hs : slash ∉ n) : names n = [n] := by
  simp [names, List.splitOn_eq_singleton hs, hn]

/-- What stands between slashes is a piece of the path without a slash. -/
theorem of_mem_splitOn {p part : Path} (h : part ∈ p.splitOn slash) :
    slash ∉ part ∧ part ⊆ p := by
  induction p generalizing part with
  | nil => simp_all
  | cons b p ih =>
    rw [List.splitOn_cons_eq_if_modifyHead] at h
    split at h
    · rcases List.mem_cons.mp h with rfl | h
      · simp
      · exact ⟨(ih h).1, List.subset_cons_of_subset b (ih h).2⟩
    · rename_i hb
      cases hp : p.splitOn slash with
      | nil => exact absurd hp (List.splitOn_ne_nil _ _)
      | cons first rest =>
        rw [hp, List.modifyHead_cons] at h
        rcases List.mem_cons.mp h with rfl | h
        · have ⟨hfirst, hsub⟩ := @ih first (by simp [hp])
          have hne : slash ≠ b := fun e => hb (by simp [e])
          exact ⟨by simp [hne, hfirst], List.cons_subset_cons b hsub⟩
        · have ⟨hrest, hsub⟩ := @ih part (by simp [hp, h])
          exact ⟨hrest, List.subset_cons_of_subset b hsub⟩

theorem mem_names {p n : Path} (h : n ∈ names p) : Counts n ∧ slash ∉ n ∧ n ⊆ p := by
  have h := List.mem_filter.mp h
  exact ⟨by simpa using h.2, of_mem_splitOn h.1⟩

/-- The root and a leading `.` hold no other component. -/
theorem filter_parts (p : Path) : ((parts p).filter fun part => Counts part) = names p := by
  show names (p.drop (start p)) = names p
  unfold start
  split
  · rename_i h
    obtain ⟨q, rfl⟩ := List.head?_eq_some_iff.mp h
    simp
  · split
    · rename_i h
      rcases h with rfl | ⟨q, rfl⟩
      · rfl
      · exact (names_slash_cons q).trans (names_dot_slash q).symm
    · rfl

theorem components_of_isAbsolute {p : Path} (h : isAbsolute p) :
    components p = [slash] :: names p := by
  obtain ⟨q, hq⟩ := List.head?_eq_some_iff.mp h
  rw [components, filter_parts, start, if_pos h]
  simp [hq]

theorem fileName_eq (p : Path) :
    fileName p = (names p).getLast?.filter fun n => n ≠ ascii ['.', '.'] := by
  rw [fileName, ← filter_parts, List.getLast?_filter]
  cases (parts p).reverse.find? fun part => decide (Counts part) with
  | none => rfl
  | some n => simp only [Option.filter_some, decide_not]; split <;> simp_all

theorem names_intercalate {ls : List Path} (h : ∀ l ∈ ls, slash ∉ l) :
    names ([slash].intercalate ls) = ls.filter fun part => Counts part := by
  cases ls with
  | nil => rfl
  | cons l ls => rw [names, List.splitOn_intercalate slash h (by simp)]

/-- Skipping what does not count stops at the first thing that does. -/
theorem dropWhile_cases (ps : List Path) :
    ((ps.dropWhile fun part => ¬ Counts part) = [] ∧ (ps.filter fun part => Counts part) = []) ∨
    ∃ last rest, (ps.dropWhile fun part => ¬ Counts part) = last :: rest ∧ rest ⊆ ps ∧
      (ps.filter fun part => Counts part) = last :: rest.filter fun part => Counts part := by
  induction ps with
  | nil => exact Or.inl ⟨rfl, rfl⟩
  | cons part ps ih =>
    by_cases h : Counts part
    · exact Or.inr ⟨part, ps, by simp [h], by simp, by simp [h]⟩
    · rcases ih with ⟨hnil, hfilter⟩ | ⟨last, rest, hcons, hsub, hfilter⟩
      · exact Or.inl ⟨by simpa [h] using hnil, by simpa [h] using hfilter⟩
      · refine Or.inr ⟨last, rest, by simpa [h] using hcons, ?_, by simpa [h] using hfilter⟩
        exact fun x hx => List.mem_cons_of_mem _ (hsub hx)

theorem filter_dropWhile (ps : List Path) :
    ((ps.dropWhile fun part => ¬ Counts part).filter fun part => Counts part) =
      ps.filter fun part => Counts part := by
  induction ps with
  | nil => rfl
  | cons part ps ih =>
    by_cases h : Counts part
    · simp [h]
    · simpa [h] using ih

/-- What `parent` does, in terms of components: the last one goes, and what is left is joined. -/
theorem parent_cases (p : Path) :
    (names p = [] ∧ parent p = if start p = 1 ∧ ¬ isAbsolute p then some [] else none) ∨
    ∃ front, names p ≠ [] ∧ parent p = some (p.take (start p) ++ [slash].intercalate front) ∧
      (∀ l ∈ front, slash ∉ l) ∧ (front.filter fun part => Counts part) = (names p).dropLast := by
  unfold parent
  have hnames : names p = ((parts p).reverse.filter fun part => Counts part).reverse := by
    rw [List.filter_reverse, List.reverse_reverse, filter_parts]
  rcases dropWhile_cases (parts p).reverse with
    ⟨hback, hfilter⟩ | ⟨last, rest, hback, hsub, hfilter⟩
  · rw [hback]
    exact Or.inl ⟨by rw [hnames, hfilter]; rfl, rfl⟩
  · rw [hback]
    refine Or.inr ⟨_, ?_, rfl, ?_, ?_⟩
    · simp [hnames, hfilter]
    · intro l hl
      have hl : l ∈ rest := List.dropWhile_subset _ (List.mem_reverse.mp hl)
      exact (of_mem_splitOn (List.mem_reverse.mp (hsub hl))).1
    · rw [List.filter_reverse, filter_dropWhile, hnames, hfilter, List.reverse_cons,
        List.dropLast_concat]

/-- **The directory of an absolute path has all of its components but the last one.** -/
theorem parent_of_isAbsolute {p dir : Path} (h : isAbsolute p) (hdir : parent p = some dir) :
    isAbsolute dir ∧ names p ≠ [] ∧ names dir = (names p).dropLast := by
  have hstart : p.take (start p) = [slash] := by
    obtain ⟨q, rfl⟩ := List.head?_eq_some_iff.mp h
    rw [start, if_pos h]
    rfl
  rcases parent_cases p with ⟨-, hp⟩ | ⟨front, hne, hp, hfront, hnames⟩
  · simp [hp, h] at hdir
  · rw [hp, hstart] at hdir
    obtain rfl := Option.some.inj hdir
    refine ⟨rfl, hne, ?_⟩
    rw [List.singleton_append, names_slash_cons, names_intercalate hfront, hnames]

/-- A path that is neither absolute nor empty and has no component is a `.` and slashes. -/
theorem start_of_names_eq_nil {p : Path} (hp : p ≠ []) (habs : ¬ isAbsolute p)
    (hnames : names p = []) : start p = 1 := by
  rw [start, if_neg habs, if_pos]
  cases p with
  | nil => exact absurd rfl hp
  | cons b p =>
    have hb : ¬ b = slash := fun e => habs (by simp [isAbsolute, e])
    -- The first part begins with `b`, and it does not count.
    cases hsplit : p.splitOn slash with
    | nil => exact absurd hsplit (List.splitOn_ne_nil _ _)
    | cons first rest =>
      have hfirst : ¬ Counts (b :: first) := by
        have hall := List.filter_eq_nil_iff.mp hnames (b :: first)
        rw [List.splitOn_cons_eq_if_modifyHead, hsplit] at hall
        simpa [hb] using hall
      have hdot : b = 46 ∧ first = [] := by simpa [Counts, ascii] using hfirst
      have hjoin : [slash].intercalate (p.splitOn slash) = p := List.intercalate_splitOn slash
      rw [hsplit, hdot.2] at hjoin
      cases rest with
      | nil => exact Or.inl (by simp [hdot.1, ← hjoin, ascii])
      | cons next rest => exact Or.inr ⟨_, by rw [hdot.1, ← hjoin]; rfl⟩

theorem take_one_of_start {p : Path} (habs : ¬ isAbsolute p) (h : start p = 1) :
    p.take 1 = ascii ['.'] := by
  rw [start, if_neg habs] at h
  split at h
  · rename_i hdot
    rcases hdot with rfl | ⟨q, rfl⟩
    · rfl
    · rfl
  · cases h

/-- Only the root and the empty path have no parent. -/
theorem parent_eq_none {p : Path} (h : parent p = none) :
    p = [] ∨ isAbsolute p ∧ names p = [] := by
  rcases parent_cases p with ⟨hnames, hp⟩ | ⟨front, -, hp, -⟩
  · rw [h] at hp
    by_cases habs : isAbsolute p
    · exact Or.inr ⟨habs, hnames⟩
    · by_cases hnil : p = []
      · exact Or.inl hnil
      · simp [start_of_names_eq_nil hnil habs hnames, habs] at hp
  · rw [h] at hp
    cases hp

/-- **Joining a relative path to an absolute one joins their components.** -/
theorem names_join {a b : Path} (hb : ¬ isAbsolute b) : names (join a b) = names a ++ names b := by
  rw [join, if_neg hb]
  split
  · exact names_append_slash a b
  · rename_i hlast
    rcases List.eq_nil_or_concat a with rfl | ⟨front, c, rfl⟩
    · rfl
    · have hc : c = slash := by simpa using hlast
      rw [hc, List.concat_eq_append, List.append_assoc, List.singleton_append, names_append_slash,
        names_append_slash, names_nil, List.append_nil]

theorem not_isAbsolute_of_slash_not_mem {p : Path} (h : slash ∉ p) : ¬ isAbsolute p :=
  fun habs => h (List.mem_of_head? habs)

theorem fileName_eq_some {p n : Path} (h : fileName p = some n) :
    (names p).getLast? = some n ∧ n ≠ ascii ['.', '.'] := by
  rw [fileName_eq, Option.filter_eq_some_iff] at h
  exact ⟨h.1, by simpa using h.2⟩

theorem fileName_eq_none {p : Path} (h : fileName p = none) :
    names p = [] ∨ (names p).getLast? = some (ascii ['.', '.']) := by
  rw [fileName_eq, Option.filter_eq_none_iff] at h
  cases hl : (names p).getLast? with
  | none => exact Or.inl (List.getLast?_eq_none_iff.mp hl)
  | some n => exact Or.inr (by simpa using h n hl)

/-- A name that is joined to a directory is the name of the result, if it is a name. -/
theorem fileName_join {a n : Path} (hne : n ≠ []) (hs : slash ∉ n) (hdot : n ≠ ascii ['.'])
    (hdots : n ≠ ascii ['.', '.']) : fileName (join a n) = some n := by
  rw [fileName_eq, names_join (not_isAbsolute_of_slash_not_mem hs), names_of_counts ⟨hne, hdot⟩ hs]
  simp [hdots]

theorem ne_dot_of_mem_reverse {l : Path} (h : dot ∉ l) : ∀ b ∈ l.reverse, decide (b ≠ dot) := by
  intro b hb
  have hne : b ≠ dot := fun e => h (e ▸ List.mem_reverse.mp hb)
  simp [hne]

theorem extension_of_dot {p stem ext : Path} (h : fileName p = some (stem ++ dot :: ext))
    (hext : dot ∉ ext) : extension p = if stem = [] then none else some ext := by
  have hback : (stem ++ dot :: ext).reverse = ext.reverse ++ dot :: stem.reverse := by simp
  have hall := ne_dot_of_mem_reverse hext
  rw [extension, h]
  dsimp only
  rw [hback, List.dropWhile_append_of_pos hall, List.takeWhile_append_of_pos hall]
  simp

theorem extension_of_dot_not_mem {p file : Path} (h : fileName p = some file) (hdot : dot ∉ file) :
    extension p = none := by
  rw [extension, h]
  dsimp only
  rw [← List.append_nil file.reverse, List.dropWhile_append_of_pos (ne_dot_of_mem_reverse hdot)]
  rfl

/-- **The extension is what is behind the last dot, with something before it.** -/
theorem extension_eq_some {p file ext : Path} (hfile : fileName p = some file) (hext : dot ∉ ext) :
    extension p = some ext ↔ ∃ stem, stem ≠ [] ∧ file = stem ++ dot :: ext := by
  constructor
  · intro h
    by_cases hdot : dot ∈ file
    · obtain ⟨back, front, hsplit, hback⟩ := List.eq_append_cons_of_mem (List.mem_reverse.mpr hdot)
      have hfront : file = front.reverse ++ dot :: back.reverse := by
        rw [← List.reverse_reverse file, hsplit]
        simp
      rw [hfront] at hfile
      rw [extension_of_dot hfile (by simpa using hback)] at h
      split at h
      · cases h
      · rename_i hne
        rw [← Option.some.inj h]
        exact ⟨front.reverse, hne, hfront⟩
    · rw [extension_of_dot_not_mem hfile hdot] at h
      cases h
  · intro ⟨stem, hne, heq⟩
    rw [heq] at hfile
    rw [extension_of_dot hfile hext, if_neg hne]

end Path

end Spectrum
