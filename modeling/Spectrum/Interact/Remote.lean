import Spectrum.Interact.Play
import Spectrum.Interact.Stream

/-!
# A stream and its pieces

The other end of a connection that sends a given sequence of bytes and then closes, or fails. How
the bytes are split is a parameter, which says for each call how many bytes it can move at most.

**The pieces make no difference to a transfer of a given size**: `readExact` takes the next bytes of
the stream if there are enough, and all of them otherwise, and `writeAll` writes everything.
-/

set_option autoImplicit false

namespace Interact

/-- What is still to be read, what has been read, and how calls turn out. -/
structure Remote (ε : Type) where
  unread : List UInt8
  taken : List UInt8
  /-- The `n`th call moves at most one byte more than this. -/
  pieces : Nat → Nat
  /-- What there is behind the last byte: the end, or an error. -/
  ending : Option ε
  calls : Nat

namespace Remote

variable {ε : Type}

/-- Before the first call. -/
def fresh (stream : List UInt8) (pieces : Nat → Nat) (ending : Option ε) : Remote ε :=
  ⟨stream, [], pieces, ending, 0⟩

/-- The bytes a call can move if there is room for `count`. -/
def piece (w : Remote ε) (count : Nat) : Nat := min count (w.pieces w.calls + 1)

def read (w : Remote ε) (count : Nat) : Except ε (List UInt8) × Remote ε :=
  match w.unread, w.ending with
  | [], none => (.ok [], { w with calls := w.calls + 1 })
  | [], some e => (.error e, { w with calls := w.calls + 1 })
  | b :: bs, _ =>
    (.ok ((b :: bs).take (w.piece count)),
      { w with
        unread := (b :: bs).drop (w.piece count)
        taken := w.taken ++ (b :: bs).take (w.piece count)
        calls := w.calls + 1 })

def write (w : Remote ε) (bytes : List UInt8) : Except ε Nat × Remote ε :=
  (.ok (w.piece bytes.length), { w with calls := w.calls + 1 })

/-- These bytes have been read in between. -/
def Took (w w' : Remote ε) (bytes : List UInt8) : Prop :=
  w.unread = bytes ++ w'.unread ∧ w'.taken = w.taken ++ bytes

theorem Took.refl (w : Remote ε) : Took w w [] := ⟨rfl, (List.append_nil _).symm⟩

theorem Took.trans {w w₁ w₂ : Remote ε} {bytes bytes' : List UInt8} (h : Took w w₁ bytes)
    (h' : Took w₁ w₂ bytes') : Took w w₂ (bytes ++ bytes') := by
  refine ⟨?_, ?_⟩
  · rw [h.1, h'.1, List.append_assoc]
  · rw [h'.2, h.2, List.append_assoc]

/-- A read fails or finds the end where the stream is at its end, and moves a piece otherwise. -/
theorem read_cases (w : Remote ε) {count : Nat} (hcount : 0 < count) :
    (w.unread = [] ∧ ((w.read count).1 = .ok [] ∨ ∃ e, (w.read count).1 = .error e) ∧
      Took w (w.read count).2 []) ∨
    ∃ j, 0 < j ∧ j ≤ count ∧ j ≤ w.unread.length ∧ (w.read count).1 = .ok (w.unread.take j) ∧
      Took w (w.read count).2 (w.unread.take j) := by
  unfold read
  split
  · rename_i hunread _
    exact Or.inl ⟨hunread, Or.inl rfl, rfl, (List.append_nil _).symm⟩
  · rename_i e hunread _
    exact Or.inl ⟨hunread, Or.inr ⟨e, rfl⟩, rfl, (List.append_nil _).symm⟩
  · rename_i b bs hunread
    have hpiece : 0 < w.piece count ∧ w.piece count ≤ count := by
      unfold piece
      omega
    refine Or.inr ⟨min (w.piece count) w.unread.length, ?_, by omega, by omega, ?_, ?_, ?_⟩
    · rw [hunread, List.length_cons]
      omega
    · rw [← List.take_eq_take_min, hunread]
    · rw [← List.take_eq_take_min, hunread]
      exact (List.take_append_drop _ _).symm
    · rw [← List.take_eq_take_min, hunread]

/-! ## Transfers -/

section

variable {E : Type → Type} {answer : ∀ β : Type, E β → Remote ε → Option (β × Remote ε)}
  {read : Nat → E (Except ε (List UInt8))} {write : List UInt8 → E (Except ε Nat)}

/-- The loop of `readExact` where `got` has been read and `m` bytes are missing. -/
theorem evals_readLoop (hread : ∀ n w, answer _ (read n) w = some (w.read n)) {n : Nat}
    {again : List UInt8 → Except ε (List UInt8) → Option (List UInt8)}
    {k : List UInt8 → Except ε (List UInt8) → Prog E (Except (IoError ε) (List UInt8))}
    (hagain : ∀ got bytes, again got (.ok bytes) =
      if bytes ≠ [] ∧ (got ++ bytes).length < n then some (got ++ bytes) else none)
    (hfail : ∀ got e, again got (.error e) = none)
    (hk : ∀ got bytes, k got (.ok bytes) =
      .ret (if bytes = [] then .error .unexpectedEof else .ok (got ++ bytes)))
    (hkfail : ∀ got e, k got (.error e) = .ret (.error (.os e)))
    {m : Nat} (hm : 0 < m) {got : List UInt8} (hlen : got.length + m = n) (w : Remote ε) :
    ∃ r w', (Prog.loop got (fun got => read (n - got.length)) again k).Evals answer w r w' ∧
      Took w w' (w.unread.take m) ∧
      ((m ≤ w.unread.length ∧ r = .ok (got ++ w.unread.take m)) ∨
        (w.unread.length < m ∧ ∃ e, r = .error e)) := by
  induction m using Nat.strongRecOn generalizing got w with
  | ind m ih =>
  have hanswer : answer _ (read (n - got.length)) w = some (w.read m) := by
    rw [hread, show n - got.length = m by omega]
  rcases w.read_cases hm with ⟨hend, hr, htook⟩ | ⟨j, hj, hjm, hju, hr, htook⟩
  · -- The stream is at its end, with or without an error.
    have hnil : w.unread.take m = [] := by rw [hend, List.take_nil]
    have hshort : w.unread.length < m := by simpa [hend] using hm
    rcases hr with hr | ⟨e, hr⟩
    · refine ⟨.error .unexpectedEof, _, .of_leave (b := .ok []) (by rw [hanswer, ← hr]) ?_ ?_,
        hnil ▸ htook, Or.inr ⟨hshort, _, rfl⟩⟩
      · rw [hagain, if_neg (by simp)]
      · rw [hk, if_pos rfl]
        exact .ret
    · refine ⟨.error (.os e), _, .of_leave (b := .error e) (by rw [hanswer, ← hr]) (hfail got e) ?_,
        hnil ▸ htook, Or.inr ⟨hshort, _, rfl⟩⟩
      rw [hkfail]
      exact .ret
  · have hne : w.unread.take j ≠ [] := by
      intro h
      have hzero := congrArg List.length h
      simp only [List.length_take, List.length_nil] at hzero
      omega
    have hgot : (got ++ w.unread.take j).length = got.length + j := by
      rw [List.length_append, List.length_take]
      omega
    by_cases hmore : j < m
    · have hunread : w.unread.drop j = (w.read m).2.unread :=
        List.append_cancel_left ((List.take_append_drop j w.unread).trans htook.1)
      have htake : w.unread.take m = w.unread.take j ++ (w.read m).2.unread.take (m - j) := by
        rw [← hunread, ← List.take_add, Nat.add_sub_cancel' hjm]
      have hleft : (w.read m).2.unread.length = w.unread.length - j := by
        rw [← hunread, List.length_drop]
      have hmissing : (got ++ w.unread.take j).length + (m - j) = n := by omega
      obtain ⟨r, w', hevals, htook', hres⟩ :=
        ih (m - j) (by omega) (by omega) hmissing (w.read m).2
      refine ⟨r, w', .of_again (b := .ok (w.unread.take j)) (by rw [hanswer, ← hr]) ?_ hevals,
        ?_, ?_⟩
      · rw [hagain, if_pos ⟨hne, by omega⟩]
      · rw [htake]
        exact htook.trans htook'
      · rcases hres with ⟨hle, hr'⟩ | ⟨hlt, hr'⟩
        · exact Or.inl ⟨by omega, by rw [hr', htake, List.append_assoc]⟩
        · exact Or.inr ⟨by omega, hr'⟩
    · obtain rfl : j = m := by omega
      refine ⟨_, _, .of_leave (b := .ok (w.unread.take j)) (by rw [hanswer, ← hr]) ?_ ?_, htook,
        Or.inl ⟨hju, rfl⟩⟩
      · rw [hagain, if_neg (by omega)]
      · rw [hk, if_neg hne]
        exact .ret

/-- **`readExact` takes the next `n` bytes, or everything there is.** -/
theorem evals_readExact (hread : ∀ n w, answer _ (read n) w = some (w.read n)) (n : Nat)
    (w : Remote ε) :
    ∃ r w', (readExact read n).Evals answer w r w' ∧ Took w w' (w.unread.take n) ∧
      ((n ≤ w.unread.length ∧ r = .ok (w.unread.take n)) ∨
        (w.unread.length < n ∧ ∃ e, r = .error e)) := by
  unfold readExact
  split
  · rename_i hn
    subst hn
    exact ⟨_, w, .ret, Took.refl w, Or.inl ⟨Nat.zero_le _, rfl⟩⟩
  · rename_i hn
    have hlen : ([] : List UInt8).length + n = n := Nat.zero_add n
    exact evals_readLoop hread (fun _ _ => rfl) (fun _ _ => rfl) (fun _ _ => rfl) (fun _ _ => rfl)
      (Nat.pos_of_ne_zero hn) hlen w

/-- The loop of `writeAll`. -/
theorem evals_writeLoop (hwrite : ∀ bytes w, answer _ (write bytes) w = some (w.write bytes))
    {again : List UInt8 → Except ε Nat → Option (List UInt8)}
    {k : List UInt8 → Except ε Nat → Prog E (Except (IoError ε) Unit)}
    (hagain : ∀ rest n, again rest (.ok n) =
      if n ≠ 0 ∧ rest.drop n ≠ [] then some (rest.drop n) else none)
    (hk : ∀ rest n, k rest (.ok n) = .ret (if n = 0 then .error .writeZero else .ok ()))
    {m : Nat} {rest : List UInt8} (hlen : rest.length = m) (hrest : rest ≠ []) (w : Remote ε) :
    ∃ w', (Prog.loop rest write again k).Evals answer w (.ok ()) w' ∧ Took w w' [] := by
  induction m using Nat.strongRecOn generalizing rest w with
  | ind m ih =>
  have hpos := List.length_pos_iff.mpr hrest
  have hpiece : w.piece rest.length ≠ 0 := by
    unfold piece
    omega
  have htook : Took w (w.write rest).2 [] := ⟨rfl, (List.append_nil _).symm⟩
  by_cases hmore : rest.drop (w.piece rest.length) = []
  · refine ⟨_, .of_leave (b := .ok (w.piece rest.length)) (hwrite rest w) ?_ ?_, htook⟩
    · rw [hagain, if_neg (by simp [hmore])]
    · rw [hk, if_neg hpiece]
      exact .ret
  · have hless : (rest.drop (w.piece rest.length)).length < m := by
      rw [List.length_drop]
      omega
    obtain ⟨w', hevals, htook'⟩ := ih _ hless rfl hmore (w.write rest).2
    refine ⟨w', .of_again (b := .ok (w.piece rest.length)) (hwrite rest w) ?_ hevals,
      htook.trans htook'⟩
    rw [hagain, if_pos ⟨hpiece, hmore⟩]

/-- **`writeAll` writes everything**, and reads nothing. -/
theorem evals_writeAll (hwrite : ∀ bytes w, answer _ (write bytes) w = some (w.write bytes))
    (bytes : List UInt8) (w : Remote ε) :
    ∃ w', (writeAll write bytes).Evals answer w (.ok ()) w' ∧ Took w w' [] := by
  unfold writeAll
  split
  · exact ⟨w, .ret, Took.refl w⟩
  · rename_i hne
    exact evals_writeLoop hwrite (fun _ _ => rfl) (fun _ _ => rfl) rfl hne w

end

end Remote

end Interact
