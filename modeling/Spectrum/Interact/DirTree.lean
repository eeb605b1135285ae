import Mathlib.Logic.Function.Basic
import Mathlib.Data.List.Infix

/-!
# Directory trees

What lies under one directory, as a function from paths to entries, and the tools a script builds
such a tree with: `chmod +w`, `mkdir -p`, `cp -RT`, `ln -s` and `touch`, run by the owner of
everything. A path is the list of its components, and `[]` is the directory itself.

Of an entry's mode only the owner's bits matter: whether a directory takes new entries, and
whether a file may be written and run. A tool that would have to go through a symbolic link fails
here, since the link leads out of the tree.

**Where nothing is in the way, each tool has one rule that says what is at every path afterwards**
(`mkdirs_eq`, `copy_eq`), and callers use only these rules.
-/

set_option autoImplicit false

/-- What is at a path. -/
inductive DirTree.Entry
  | dir (writable : Bool)
  | file (content : List UInt8) (writable executable : Bool)
  | link (target : List UInt8)
  | fifo
  deriving DecidableEq, Repr

abbrev DirTree (N : Type) := List N → Option DirTree.Entry

namespace DirTree

variable {N : Type} [DecidableEq N]

def set (t : DirTree N) (p : List N) (e : Entry) : DirTree N := Function.update t p (some e)

@[simp] theorem set_self (t : DirTree N) (p : List N) (e : Entry) : t.set p e p = some e :=
  Function.update_self ..

theorem set_of_ne (t : DirTree N) {p p' : List N} (h : p' ≠ p) (e : Entry) : t.set p e p' = t p' :=
  Function.update_of_ne h ..

/-- The directory itself, without any entries. -/
def empty : DirTree N := fun p => if p = [] then some (.dir true) else none

/-- Whether an entry can be made or replaced at `p`. -/
def Accepts (t : DirTree N) (p : List N) : Prop := p ≠ [] ∧ t p.dropLast = some (.dir true)

instance (t : DirTree N) (p : List N) : Decidable (t.Accepts p) :=
  inferInstanceAs (Decidable (_ ∧ _))

/-! ## `chmod +w` -/

/-- A directory after `chmod +w`. The paths end in a slash, so other entries are not found. -/
def grant : Entry → Entry
  | .dir _ => .dir true
  | e => e

/-- `chmod +w` for every directory on the way to `path`, and for `path`. -/
def chmodAlong (t : DirTree N) (path : List N) : DirTree N :=
  fun p => if p <+: path then (t p).map grant else t p

/-! ## `mkdir -p` -/

/-- One `mkdir` of `mkdir -p`. -/
def mkdir (t : DirTree N) (p : List N) : Option (DirTree N) :=
  match t p with
  | some (.dir _) => some t
  | some _ => none
  | none => if t.Accepts p then some (t.set p (.dir true)) else none

/-- `mkdir -p` of `p` and of what is left of the path behind it. -/
def mkdirsFrom (t : DirTree N) (p : List N) : List N → Option (DirTree N)
  | [] => t.mkdir p
  | n :: rest => (t.mkdir p).bind fun t => t.mkdirsFrom (p ++ [n]) rest

/-- `mkdir -p`. -/
def mkdirs (t : DirTree N) (path : List N) : Option (DirTree N) := t.mkdirsFrom [] path

/-- Where `p` is missing or takes entries, it takes entries afterwards. -/
theorem mkdir_eq {t : DirTree N} {p : List N} (hroot : t [] = some (.dir true))
    (habove : p ≠ [] → t p.dropLast = some (.dir true))
    (hp : t p = none ∨ t p = some (.dir true)) : t.mkdir p = some (t.set p (.dir true)) := by
  unfold mkdir
  rcases hp with hp | hp
  · have hne : p ≠ [] := by
      rintro rfl
      simp [hroot] at hp
    simp only [hp]
    exact if_pos ⟨hne, habove hne⟩
  · simp only [hp, Option.some.injEq]
    exact (Function.update_eq_self_iff.mpr hp.symm).symm

theorem mkdirsFrom_eq (rest : List N) {t : DirTree N} {p : List N} (hroot : t [] = some (.dir true))
    (habove : p ≠ [] → t p.dropLast = some (.dir true))
    (hpath : ∀ p', p <+: p' → p' <+: p ++ rest → t p' = none ∨ t p' = some (.dir true)) :
    ∃ t', t.mkdirsFrom p rest = some t' ∧
      ∀ p', t' p' = if p <+: p' ∧ p' <+: p ++ rest then some (.dir true) else t p' := by
  induction rest generalizing t p with
  | nil =>
    have hmk := mkdir_eq hroot habove (hpath p (List.prefix_refl p) (List.prefix_append p []))
    refine ⟨_, hmk, fun p' => ?_⟩
    by_cases hp' : p' = p
    · simp [hp']
    · rw [set_of_ne t hp', if_neg]
      rintro ⟨h₁, h₂⟩
      rw [List.append_nil] at h₂
      exact hp' (h₂.eq_of_length_le h₁.length_le)
  | cons n rest ih =>
    have hmk := mkdir_eq hroot habove (hpath p (List.prefix_refl p) (List.prefix_append p _))
    have hassoc : p ++ [n] ++ rest = p ++ n :: rest := by simp
    -- `p` now takes entries, and what is below it is as it was
    have hroot' : (t.set p (.dir true)) [] = some (.dir true) := by
      by_cases hp : [] = p
      · rw [hp]
        exact set_self ..
      · rw [set_of_ne t hp]
        exact hroot
    have hpath' : ∀ p', p ++ [n] <+: p' → p' <+: p ++ [n] ++ rest →
        (t.set p (.dir true)) p' = none ∨ (t.set p (.dir true)) p' = some (.dir true) := by
      intro p' h₁ h₂
      have hp' : p' ≠ p := by
        rintro rfl
        have hlen := h₁.length_le
        rw [List.length_append, List.length_singleton] at hlen
        omega
      rw [set_of_ne t hp']
      exact hpath p' ((List.prefix_append p [n]).trans h₁) (hassoc ▸ h₂)
    obtain ⟨t', ht', hspec⟩ := ih hroot' (by simp) hpath'
    refine ⟨t', by simp [mkdirsFrom, hmk, ht'], fun p' => ?_⟩
    rw [hspec p', hassoc]
    by_cases hp' : p' = p
    · subst hp'
      simp [List.prefix_append]
    · rw [set_of_ne t hp']
      refine if_congr ⟨fun h => ⟨?_, h.2⟩, fun h => ⟨?_, h.2⟩⟩ rfl rfl
      · exact (List.prefix_append p [n]).trans h.1
      · -- longer than `p` and still on the way
        obtain ⟨u, rfl⟩ := h.1
        have hu := List.prefix_append_right_inj p |>.mp h.2
        cases u with
        | nil => simp at hp'
        | cons m u =>
          obtain ⟨rfl, _⟩ := List.cons_prefix_cons.mp hu
          exact (List.prefix_append_right_inj p).mpr (by simp)

/-- **`mkdir -p` makes what is missing on the way**, if what is there are directories that take
entries. -/
theorem mkdirs_eq {t : DirTree N} {path : List N} (hroot : t [] = some (.dir true))
    (hpath : ∀ p, p <+: path → t p = none ∨ t p = some (.dir true)) :
    ∃ t', t.mkdirs path = some t' ∧ ∀ p, t' p = if p <+: path then some (.dir true) else t p := by
  obtain ⟨t', ht', hspec⟩ := mkdirsFrom_eq path hroot (p := []) (by simp) fun p _ h => hpath p h
  exact ⟨t', ht', by simpa using hspec⟩

/-! ## `cp -RT` -/

/-- What is copied, in the order in which `cp` comes to it: nothing twice, and everything behind
the directory it is in. A source that does not exist has no entries. -/
def listed (seen : List (List N × Entry)) : List (List N × Entry) → Bool
  | [] => true
  | (q, e) :: rest =>
    seen.all (fun x => x.1 ≠ q) &&
    (q = [] || seen.contains (q.dropLast, .dir true) || seen.contains (q.dropLast, .dir false)) &&
    listed (seen ++ [(q, e)]) rest

structure Source (N : Type) [DecidableEq N] where
  entries : List (List N × Entry)
  listed : listed [] entries = true

/-- What is at a path where `new` is copied over `old`. A file is written into, everything else is
replaced, and a directory is only ever copied over a directory, which keeps its mode. A file
copied over a named pipe would wait for a reader. -/
def overwrite (accepts : Bool) : Entry → Entry → Option Entry
  | .dir w, .dir _ => some (.dir w)
  | .dir _, _ => none
  | .file _ w x, .file content _ _ => if w then some (.file content w x) else none
  | _, .file .. => none
  | _, .dir _ => none
  | _, new => if accepts then some new else none

/-- A copy in progress: the directories it has made take entries until it is over, whatever their
mode will be then. -/
structure Copying (N : Type) where
  tree : DirTree N
  made : List N → Option Bool

def copyEntry (dest : List N) (c : Copying N) (x : List N × Entry) : Option (Copying N) :=
  let p := dest ++ x.1
  match c.tree p, x.2 with
  | none, .dir w =>
    if c.tree.Accepts p then
      some { tree := c.tree.set p (.dir true), made := Function.update c.made p (some w) }
    else none
  | none, e => if c.tree.Accepts p then some { c with tree := c.tree.set p e } else none
  | some old, e =>
    (overwrite (c.tree.Accepts p) old e).map fun new => { c with tree := c.tree.set p new }

/-- The directories that were made get their mode. -/
def Copying.finish (c : Copying N) : DirTree N := fun p =>
  match c.made p with
  | some w => some (.dir w)
  | none => c.tree p

/-- `cp -RT source dest`. -/
def copy (t : DirTree N) (source : Source N) (dest : List N) : Option (DirTree N) :=
  if source.entries = [] then none
  else (source.entries.foldlM (copyEntry dest) ⟨t, fun _ => none⟩).map Copying.finish

/-- What a copy to `dest` has done to `t` once it is through with `seen`, where nothing of it was
there before but directories. -/
structure Copied (t : DirTree N) (dest : List N) (seen : List (List N × Entry)) (c : Copying N) :
    Prop where
  kept : ∀ p, (t p ≠ none ∨ ∀ x ∈ seen, dest ++ x.1 ≠ p) → c.tree p = t p ∧ c.made p = none
  new : ∀ q e, (q, e) ∈ seen → t (dest ++ q) = none → c.finish (dest ++ q) = some e
  opened : ∀ q w, (q, .dir w) ∈ seen → c.tree (dest ++ q) = some (.dir true)

omit [DecidableEq N] in
theorem Copied.start (t : DirTree N) (dest : List N) : Copied t dest [] ⟨t, fun _ => none⟩ where
  kept _ _ := ⟨rfl, rfl⟩
  new := by simp
  opened := by simp

omit [DecidableEq N] in
/-- What is copied to a path where nothing was. -/
theorem Copied.put {t : DirTree N} {dest q : List N} {seen : List (List N × Entry)} {c : Copying N}
    {e : Entry} {c' : Copying N} (h : Copied t dest seen c) (hq : ∀ x ∈ seen, x.1 ≠ q)
    (hnone : t (dest ++ q) = none)
    (hother : ∀ p, p ≠ dest ++ q → c'.tree p = c.tree p ∧ c'.made p = c.made p)
    (hself : c'.finish (dest ++ q) = some e)
    (hopen : ∀ w, e = .dir w → c'.tree (dest ++ q) = some (.dir true)) :
    Copied t dest (seen ++ [(q, e)]) c' := by
  have hne : ∀ x ∈ seen, dest ++ x.1 ≠ dest ++ q := fun x hx he =>
    hq x hx (List.append_cancel_left he)
  constructor
  · intro p hp
    have hpq : p ≠ dest ++ q := by
      rintro rfl
      rcases hp with hp | hp
      · exact hp hnone
      · exact hp (q, e) (by simp) rfl
    rw [(hother p hpq).1, (hother p hpq).2]
    refine h.kept p (hp.imp_right fun hp x hx => hp x (List.mem_append_left _ hx))
  · intro q' e' hmem hnone'
    rcases List.mem_append.mp hmem with hmem | hmem
    · have := hother _ (hne _ hmem)
      simp only [Copying.finish, this]
      exact h.new q' e' hmem hnone'
    · obtain ⟨rfl, rfl⟩ : q' = q ∧ e' = e := by simpa using hmem
      exact hself
  · intro q' w hmem
    rcases List.mem_append.mp hmem with hmem | hmem
    · rw [(hother _ (hne _ hmem)).1]
      exact h.opened q' w hmem
    · obtain ⟨rfl, rfl⟩ : q' = q ∧ .dir w = e := by simpa using hmem
      exact hopen w rfl

/-- **One entry of a copy**: it is made where nothing is, and a directory that is there stays. -/
theorem Copied.step {t : DirTree N} {dest : List N} {seen : List (List N × Entry)} {c : Copying N}
    {q : List N} {e : Entry} (h : Copied t dest seen c) (hq : ∀ x ∈ seen, x.1 ≠ q)
    (hdir : q = [] ∨ ∃ w, (q.dropLast, .dir w) ∈ seen)
    (hdest : dest = [] ∨ t dest.dropLast = some (.dir true))
    (hroot : t [] ≠ none)
    (hfree : t (dest ++ q) = none ∨ t (dest ++ q) = some (.dir true) ∧ ∃ w, e = .dir w) :
    ∃ c', copyEntry dest c (q, e) = some c' ∧ Copied t dest (seen ++ [(q, e)]) c' := by
  have hne : ∀ x ∈ seen, dest ++ x.1 ≠ dest ++ q := fun x hx he =>
    hq x hx (List.append_cancel_left he)
  have hkept := h.kept (dest ++ q) (.inr hne)
  rcases hfree with hnone | ⟨hthere, w, rfl⟩
  · have haccepts : c.tree.Accepts (dest ++ q) := by
      refine ⟨fun he => hroot (he ▸ hnone), ?_⟩
      rcases hdir with rfl | ⟨w, hw⟩
      · simp only [List.append_nil] at hnone ⊢
        -- the entry of the source itself is made in the directory of `dest`
        have hd : t dest.dropLast = some (.dir true) :=
          hdest.resolve_left fun he => hroot (he ▸ hnone)
        rw [(h.kept dest.dropLast (.inl (by simp [hd]))).1, hd]
      · have hqne : q ≠ [] := by
          rintro rfl
          exact hq _ hw rfl
        rw [List.dropLast_append_of_ne_nil hqne]
        exact h.opened _ _ hw
    have htree : c.tree (dest ++ q) = none := by rw [hkept.1, hnone]
    cases e with
    | dir w =>
      refine ⟨⟨c.tree.set (dest ++ q) (.dir true), Function.update c.made (dest ++ q) (some w)⟩,
        by simp only [copyEntry, htree, if_pos haccepts], ?_⟩
      refine h.put hq hnone (fun p hp => ⟨set_of_ne _ hp _, Function.update_of_ne hp ..⟩) ?_ ?_
      · simp [Copying.finish]
      · intro _ _
        exact set_self ..
    | file content writable executable =>
      refine ⟨{ c with tree := c.tree.set (dest ++ q) (.file content writable executable) },
        by simp only [copyEntry, htree, if_pos haccepts], ?_⟩
      exact h.put hq hnone (fun p hp => ⟨set_of_ne _ hp _, rfl⟩) (by simp [Copying.finish, hkept.2])
        (by simp)
    | link target =>
      refine ⟨{ c with tree := c.tree.set (dest ++ q) (.link target) },
        by simp only [copyEntry, htree, if_pos haccepts], ?_⟩
      exact h.put hq hnone (fun p hp => ⟨set_of_ne _ hp _, rfl⟩) (by simp [Copying.finish, hkept.2])
        (by simp)
    | fifo =>
      refine ⟨{ c with tree := c.tree.set (dest ++ q) .fifo },
        by simp only [copyEntry, htree, if_pos haccepts], ?_⟩
      exact h.put hq hnone (fun p hp => ⟨set_of_ne _ hp _, rfl⟩) (by simp [Copying.finish, hkept.2])
        (by simp)
  · have htree : c.tree (dest ++ q) = some (.dir true) := by rw [hkept.1, hthere]
    have hsame : c.tree.set (dest ++ q) (.dir true) = c.tree :=
      Function.update_eq_self_iff.mpr htree.symm
    refine ⟨c, by simp [copyEntry, htree, overwrite, hsame], ?_⟩
    constructor
    · intro p hp
      exact h.kept p (hp.imp_right fun hp x hx => hp x (List.mem_append_left _ hx))
    · intro q' e' hmem hnone
      rcases List.mem_append.mp hmem with hmem | hmem
      · exact h.new q' e' hmem hnone
      · obtain ⟨rfl, rfl⟩ : q' = q ∧ e' = .dir w := by simpa using hmem
        simp [hthere] at hnone
    · intro q' w' hmem
      rcases List.mem_append.mp hmem with hmem | hmem
      · exact h.opened q' w' hmem
      · obtain ⟨rfl, rfl⟩ : q' = q ∧ w' = w := by simpa using hmem
        exact htree

theorem exists_foldlM_copyEntry (entries : List (List N × Entry)) {t : DirTree N} {dest : List N}
    {seen : List (List N × Entry)} {c : Copying N} (h : Copied t dest seen c)
    (hlisted : listed seen entries = true)
    (hdest : dest = [] ∨ t dest.dropLast = some (.dir true)) (hroot : t [] ≠ none)
    (hfree : ∀ q e, (q, e) ∈ entries →
      t (dest ++ q) = none ∨ t (dest ++ q) = some (.dir true) ∧ ∃ w, e = .dir w) :
    ∃ c', entries.foldlM (copyEntry dest) c = some c' ∧ Copied t dest (seen ++ entries) c' := by
  induction entries generalizing seen c with
  | nil => exact ⟨c, rfl, by simpa using h⟩
  | cons x rest ih =>
    obtain ⟨q, e⟩ := x
    simp only [listed, Bool.and_eq_true, List.all_eq_true, decide_eq_true_eq, Bool.or_eq_true,
      List.contains_iff_mem] at hlisted
    obtain ⟨⟨hq, hdir⟩, hrest⟩ := hlisted
    have hdir : q = [] ∨ ∃ w, (q.dropLast, Entry.dir w) ∈ seen := by
      rcases hdir with (hdir | hdir) | hdir
      · exact .inl hdir
      · exact .inr ⟨_, hdir⟩
      · exact .inr ⟨_, hdir⟩
    obtain ⟨c₁, hc₁, h₁⟩ := h.step hq hdir hdest hroot (hfree q e (by simp))
    obtain ⟨c', hc', h'⟩ := ih h₁ hrest fun q e hx => hfree q e (by simp [hx])
    exact ⟨c', by simp [List.foldlM_cons, hc₁, hc'], by simpa using h'⟩

/-- **`cp -RT` adds what is missing and changes nothing else**, if the directory of the
destination takes entries, and whatever is there already are directories that take entries and
meet a directory. -/
theorem copy_eq {t : DirTree N} {source : Source N} {dest : List N} (hne : source.entries ≠ [])
    (hdest : dest = [] ∨ t dest.dropLast = some (.dir true)) (hroot : t [] ≠ none)
    (hfree : ∀ q e, (q, e) ∈ source.entries →
      t (dest ++ q) = none ∨ t (dest ++ q) = some (.dir true) ∧ ∃ w, e = .dir w) :
    ∃ t', t.copy source dest = some t' ∧
      (∀ q e, (q, e) ∈ source.entries → t (dest ++ q) = none → t' (dest ++ q) = some e) ∧
      ∀ p, (t p ≠ none ∨ ∀ x ∈ source.entries, dest ++ x.1 ≠ p) → t' p = t p := by
  obtain ⟨c, hc, h⟩ := exists_foldlM_copyEntry source.entries (Copied.start t dest) source.listed
    hdest hroot hfree
  refine ⟨c.finish, by simp [copy, hne, hc], h.new, fun p hp => ?_⟩
  have hkept := h.kept p (by simpa using hp)
  simp only [Copying.finish, hkept]

/-! ## Single entries -/

/-- `ln -s`, and what makes a file that is not there. -/
def make (t : DirTree N) (p : List N) (e : Entry) : Option (DirTree N) :=
  if t p = none ∧ t.Accepts p then some (t.set p e) else none

/-- `touch`. -/
def touch (t : DirTree N) (p : List N) : Option (DirTree N) :=
  match t p with
  | none => t.make p (.file [] true false)
  | some (.link _) => none
  | some _ => some t

/-- Commands that leave one entry each, as long as `P` holds, and keep `P`. -/
theorem exists_foldlM_set {α : Type} {f : DirTree N → α → Option (DirTree N)}
    {target : α → List N} {e : Entry} {P : DirTree N → Prop} (xs : List α)
    (hstep : ∀ t, P t → ∀ x ∈ xs, f t x = some (t.set (target x) e) ∧ P (t.set (target x) e))
    {t : DirTree N} (ht : P t) :
    ∃ t', xs.foldlM f t = some t' ∧ (∀ x ∈ xs, t' (target x) = some e) ∧
      ∀ p, (∀ x ∈ xs, p ≠ target x) → t' p = t p := by
  induction xs generalizing t with
  | nil => exact ⟨t, rfl, by simp, fun _ _ => rfl⟩
  | cons x xs ih =>
    obtain ⟨hx, hP⟩ := hstep t ht x List.mem_cons_self
    obtain ⟨t', ht', hthere, hkept⟩ :=
      ih (fun t ht y hy => hstep t ht y (List.mem_cons_of_mem _ hy)) hP
    refine ⟨t', ?_, ?_, ?_⟩
    · rw [List.foldlM_cons, hx]
      exact ht'
    · intro y hy
      -- a later command may be for the same path
      by_cases hlater : ∃ z ∈ xs, target y = target z
      · obtain ⟨z, hz, he⟩ := hlater
        rw [he]
        exact hthere z hz
      · obtain rfl : y = x :=
          (List.mem_cons.mp hy).resolve_right fun hy => hlater ⟨y, hy, rfl⟩
        rw [hkept _ fun z hz he => hlater ⟨z, hz, he⟩, set_self]
    · intro p hp
      rw [hkept p fun y hy => hp y (List.mem_cons_of_mem _ hy),
        set_of_ne _ (hp x List.mem_cons_self)]

/-! ## Parts and layers -/

/-- What is under `p`. -/
def sub (t : DirTree N) (p : List N) : DirTree N := fun q => t (p ++ q)

/-- There is something else than a directory at `p`. -/
def Blocks (t : DirTree N) (p : List N) : Prop := ∃ e, t p = some e ∧ ∀ w, e ≠ .dir w

omit [DecidableEq N] in
theorem not_blocks_of_none {t : DirTree N} {p : List N} (h : t p = none) : ¬ t.Blocks p := by
  rintro ⟨e, he, _⟩
  simp [h] at he

omit [DecidableEq N] in
theorem not_blocks_of_dir {t : DirTree N} {p : List N} {w : Bool} (h : t p = some (.dir w)) :
    ¬ t.Blocks p := by
  rintro ⟨e, he, hdir⟩
  rw [h] at he
  cases he
  exact hdir w rfl

instance (t : DirTree N) (p : List N) : Decidable (t.Blocks p) :=
  match h : t p with
  | none => isFalse (not_blocks_of_none h)
  | some (.dir _) => isFalse (not_blocks_of_dir h)
  | some (.file c w x) => isTrue ⟨.file c w x, h, by simp⟩
  | some (.link l) => isTrue ⟨.link l, h, by simp⟩
  | some .fifo => isTrue ⟨.fifo, h, by simp⟩

/-- An overlay without an upper directory: what is in `top` hides what is in `bottom`, and
directories are merged. -/
def overlay (top bottom : DirTree N) : DirTree N := fun p =>
  match top p with
  | some e => some e
  | none => if p.inits.any fun q => top.Blocks q then none else bottom p

omit [DecidableEq N] in
theorem overlay_of_some {top bottom : DirTree N} {p : List N} {e : Entry} (h : top p = some e) :
    overlay top bottom p = some e := by
  simp only [overlay, h]

omit [DecidableEq N] in
theorem overlay_of_none {top bottom : DirTree N} {p : List N} (h : top p = none)
    (hfree : ∀ q, q <+: p → ¬ top.Blocks q) : overlay top bottom p = bottom p := by
  simp only [overlay, h]
  refine if_neg ?_
  simpa [List.mem_inits] using hfree

omit [DecidableEq N] in
theorem overlay_of_both_none {top bottom : DirTree N} {p : List N} (h : top p = none)
    (h' : bottom p = none) : overlay top bottom p = none := by
  simp only [overlay, h, h', ite_self]

end DirTree
