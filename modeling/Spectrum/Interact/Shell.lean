import Spectrum.Interact.Bytes

/-!
# Shell scripts

What a POSIX shell does with words, positional parameters and loops, as far as a script is made of
assignments, `shift`, `set --` and `while`, with the options `-e` and `-u`.

A `while` loop is a test and a body that may fail, run with fuel. **An invariant and a measure are
enough for a loop to end**, with any fuel above the measure.

Scripts that rewrite their own parameters take them from the front and put what they keep at the
end, with a count of what has been put there. `whileDo_rotate` is the rule for such loops: what has
not been looked at, followed by what has been put behind it, is the whole list.
-/

set_option autoImplicit false

namespace Shell

abbrev Word := List UInt8

/-! ## Words -/

/-- `${x:+word}`. -/
def alternative (x : Option Word) (word : Word) : Word :=
  if x.getD [] = [] then [] else word

/-- The fields of an unquoted word, where `IFS` is one character that is not white space; `current`
is what has been read of the next one. A separator ends a field. -/
def fieldsFrom (sep : UInt8) (current : Word) : Word → List Word
  | [] => if current = [] then [] else [current]
  | b :: bs =>
    if b = sep then current :: fieldsFrom sep [] bs else fieldsFrom sep (current ++ [b]) bs

def fields (sep : UInt8) (w : Word) : List Word := fieldsFrom sep [] w

/-- A word that pathname expansion has nothing to do with. -/
def Plain (w : Word) : Prop := 42 ∉ w ∧ 63 ∉ w ∧ 91 ∉ w

instance (w : Word) : Decidable (Plain w) := inferInstanceAs (Decidable (_ ∧ _ ∧ _))

/-- What an unquoted word expands to, `glob` being pathname expansion. -/
def expand (glob : Word → List Word) (sep : UInt8) (w : Word) : List Word :=
  (fields sep w).flatMap glob

theorem fieldsFrom_append {sep : UInt8} {item : Word} (h : sep ∉ item) (current rest : Word) :
    fieldsFrom sep current (item ++ rest) = fieldsFrom sep (current ++ item) rest := by
  induction item generalizing current with
  | nil => simp
  | cons b item ih =>
    have hb : b ≠ sep := fun e => h (by simp [e])
    have hitem : sep ∉ item := fun hmem => h (by simp [hmem])
    rw [List.cons_append, fieldsFrom, if_neg hb, ih hitem, List.append_assoc, List.singleton_append]

/-- **Items that are joined by a separator are the fields of what they make.** -/
theorem fields_intercalate {sep : UInt8} {items : List Word} (hne : ∀ item ∈ items, item ≠ [])
    (hsep : ∀ item ∈ items, sep ∉ item) : fields sep ([sep].intercalate items) = items := by
  unfold fields
  induction items with
  | nil => rfl
  | cons item items ih =>
    have hitem := hne item (by simp)
    have hclear := hsep item (by simp)
    have ih := ih (fun i hi => hne i (by simp [hi])) fun i hi => hsep i (by simp [hi])
    cases items with
    | nil =>
      have hend := fieldsFrom_append hclear [] []
      rw [List.append_nil, List.nil_append] at hend
      rw [List.intercalate_singleton, hend, fieldsFrom, if_neg hitem]
    | cons next items =>
      rw [List.intercalate_cons_cons, List.append_assoc, fieldsFrom_append hclear, List.nil_append,
        List.singleton_append, fieldsFrom, if_pos rfl, ih]

/-- Plain items expand to themselves. -/
theorem expand_intercalate {glob : Word → List Word} (hglob : ∀ w, Plain w → glob w = [w])
    {sep : UInt8} {items : List Word} (hne : ∀ item ∈ items, item ≠ [])
    (hsep : ∀ item ∈ items, sep ∉ item) (hplain : ∀ item ∈ items, Plain item) :
    expand glob sep ([sep].intercalate items) = items := by
  rw [expand, fields_intercalate hne hsep]
  induction items with
  | nil => rfl
  | cons item items ih =>
    rw [List.flatMap_cons, hglob item (hplain item (by simp)), List.singleton_append,
      ih (fun i hi => hne i (by simp [hi])) (fun i hi => hsep i (by simp [hi]))
        fun i hi => hplain i (by simp [hi])]

/-- A word to which others have been added one by one, as `x="$x${x:+sep}$word"` does. -/
def joined (sep acc : Word) (words : List Word) : Word :=
  words.foldl (fun x word => x ++ alternative (some x) sep ++ word) acc

theorem intercalate_append_cons (sep x y : Word) (words : List Word) :
    sep.intercalate ((x ++ sep ++ y) :: words) = sep.intercalate (x :: y :: words) := by
  cases words with
  | nil => simp [List.intercalate_cons_cons]
  | cons word words => simp [List.intercalate_cons_cons]

/-- **The separator stands between the words**, once there is something to separate. -/
theorem joined_eq (sep acc : Word) (words : List Word) :
    joined sep acc words = sep.intercalate ((acc :: words).dropWhile (· = [])) := by
  unfold joined
  induction words generalizing acc with
  | nil =>
    by_cases hacc : acc = []
    · simp [hacc, List.intercalate]
    · simp [hacc]
  | cons word words ih =>
    rw [List.foldl_cons, ih]
    by_cases hacc : acc = []
    · simp [hacc, alternative]
    · have hstep : acc ++ alternative (some acc) sep ++ word = acc ++ sep ++ word := by
        simp [alternative, hacc]
      rw [hstep, List.dropWhile_cons_of_neg (by simp [hacc]),
        List.dropWhile_cons_of_neg (by simp [hacc]), intercalate_append_cons]

theorem joined_of_ne (sep : Word) {words : List Word} (h : ∀ word ∈ words, word ≠ []) :
    joined sep [] words = sep.intercalate words := by
  rw [joined_eq, List.dropWhile_cons_of_pos (by simp)]
  cases words with
  | nil => rfl
  | cons word words => rw [List.dropWhile_cons_of_neg (by simpa using h word (by simp))]

/-! ## Positional parameters -/

/-- Why a script with `-e` and `-u` ends early. -/
inductive Fault
  | parameterNotSet
  | cantShift
  deriving Repr, DecidableEq

/-- `$1`. -/
def first : List Word → Except Fault Word
  | [] => .error .parameterNotSet
  | w :: _ => .ok w

def shift : List Word → Except Fault (List Word)
  | [] => .error .cantShift
  | _ :: params => .ok params

/-- What holds of arguments if it holds of everything that follows one or more of them, holds. -/
theorem args_induction {P : List Word → Prop}
    (h : ∀ args, (∀ front rest, args = front ++ rest → front ≠ [] → P rest) → P args)
    (args : List Word) : P args := by
  induction hn : args.length using Nat.strongRecOn generalizing args with
  | ind n ih =>
    apply h
    intro front rest heq hne
    have hpos := List.length_pos_iff.mpr hne
    have hlen := congrArg List.length heq
    rw [List.length_append] at hlen
    exact ih rest.length (by omega) rest rfl

theorem getLast?_of_append {args front rest : List Word} {a : Word} (h : args = front ++ rest)
    (ha : rest.getLast? = some a) : args.getLast? = some a := by
  rw [h, List.getLast?_append, ha]
  rfl

/-! ## Loops -/

section

variable {S E : Type}

/-- `while test; do body; done`. -/
def whileDo (test : S → Bool) (body : S → Except E S) : Nat → S → Option (Except E S)
  | 0, _ => none
  | fuel + 1, s =>
    if test s then
      match body s with
      | .error e => some (.error e)
      | .ok s' => whileDo test body fuel s'
    else some (.ok s)

variable {test : S → Bool} {body : S → Except E S}

/-- **A loop with an invariant and a measure ends** where the test fails. -/
theorem whileDo_of_invariant (Inv : S → Prop) (measure : S → Nat)
    (hstep : ∀ s, Inv s → test s → ∃ s', body s = .ok s' ∧ Inv s' ∧ measure s' < measure s) {s : S}
    (h : Inv s) :
    ∃ s', Inv s' ∧ test s' = false ∧
      ∀ fuel, measure s < fuel → whileDo test body fuel s = some (.ok s') := by
  -- Induction on the measure; the last state is that of the rest of the loop.
  induction hn : measure s using Nat.strongRecOn generalizing s with
  | ind n ih =>
    by_cases htest : test s
    · obtain ⟨s', hbody, hinv, hlt⟩ := hstep s h htest
      obtain ⟨s'', hinv', htest', hrun⟩ := ih (measure s') (by omega) hinv rfl
      refine ⟨s'', hinv', htest', ?_⟩
      intro fuel hfuel
      cases fuel with
      | zero => omega
      | succ fuel =>
        rw [whileDo, if_pos htest, hbody]
        exact hrun fuel (by omega)
    · refine ⟨s, h, by simpa using htest, ?_⟩
      intro fuel hfuel
      cases fuel with
      | zero => omega
      | succ fuel => rw [whileDo, if_neg htest]

end

/-! ## Parameters that are rotated -/

/-- The parameters, the count `$i` of those that have been put at the end, and other variables. -/
structure Args (V : Type) where
  params : List Word
  i : Nat
  vars : V
  deriving Repr, DecidableEq

/-- `[ $i -lt $# ]`. -/
def Args.more {V : Type} (s : Args V) : Bool := s.i < s.params.length

/-- **The rotation rule.** If each turn takes some of the parameters that are still to be done and
puts something behind those that are done, and `G` is kept, then the loop ends with `G` and nothing
left to do. -/
theorem whileDo_rotate {V E : Type} {body : Args V → Except E (Args V)}
    {G : List Word → List Word → V → Prop}
    (hstep : ∀ todo done v, todo ≠ [] → G todo done v →
      ∃ todo' out v', body ⟨todo ++ done, done.length, v⟩ =
          .ok ⟨todo' ++ (done ++ out), (done ++ out).length, v'⟩ ∧
        todo'.length < todo.length ∧ G todo' (done ++ out) v')
    {args : List Word} {v : V} (h : G args [] v) :
    ∃ result v', G [] result v' ∧
      ∀ fuel, args.length < fuel →
        whileDo Args.more body fuel ⟨args, 0, v⟩ = some (.ok ⟨result, result.length, v'⟩) := by
  let Inv : Args V → Prop := fun s => ∃ todo done v, s = ⟨todo ++ done, done.length, v⟩ ∧
    G todo done v
  have hturn : ∀ s, Inv s → s.more → ∃ s', body s = .ok s' ∧ Inv s' ∧
      s'.params.length - s'.i < s.params.length - s.i := by
    intro s hs hmore
    obtain ⟨todo, done, v, rfl, hG⟩ := hs
    have hne : todo ≠ [] := by
      intro hnil
      simp [Args.more, hnil] at hmore
    obtain ⟨todo', out, v', hbody, hlt, hG'⟩ := hstep todo done v hne hG
    refine ⟨_, hbody, ⟨todo', done ++ out, v', rfl, hG'⟩, ?_⟩
    simp only [List.length_append]
    omega
  have hstart : Inv ⟨args, 0, v⟩ := ⟨args, [], v, by simp, h⟩
  obtain ⟨s, hs, hend, hrun⟩ :=
    whileDo_of_invariant Inv (fun s => s.params.length - s.i) hturn hstart
  obtain ⟨todo, done, v', rfl, hG⟩ := hs
  have htodo : todo = [] := by
    simp only [Args.more, List.length_append, decide_eq_false_iff_not] at hend
    exact List.eq_nil_of_length_eq_zero (by omega)
  subst htodo
  exact ⟨done, v', hG, hrun⟩

end Shell
