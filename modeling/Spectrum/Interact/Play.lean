import Spectrum.Interact.Prog

/-!
# Code against a script

Where a property is about one process and every way its calls can turn out, the world can be left
out: a script answers the `n`th call, whatever it is, and the process plays it. `Prog.play` is
what comes of it, the calls in order with their answers and the value returned.

`play` is for code without loops, and it is total: **every script leads to an end**, by returning or
at a call that has no answer, such as `exit`. A loop is not entered. For code with loops there is
the relation `Ends`: a script under which the code goes on forever is one for which nothing ends.

`eval` is `play` for answers that depend on a state of their own, where only the value and the last
state are of interest, and `Evals` is the same for code with loops.
-/

set_option autoImplicit false

namespace Interact

variable {E : Type → Type} {α γ : Type}

/-- A call that was made. One that ended the process has no answer. -/
structure Event (E : Type → Type) : Type 1 where
  {β : Type}
  call : E β
  answer : Option β

/-- The answer to the `n`th call, if the process goes on after it. -/
abbrev Script (E : Type → Type) : Type 1 := Nat → ∀ {β : Type}, E β → Option β

namespace Prog

/-- What `p` does when the calls made before it are `n`. -/
def play (script : Script E) : Nat → Prog E α → List (Event E) × Option α
  | _, .ret a => ([], some a)
  | n, .call c k =>
    match script n c with
    | none => ([⟨c, none⟩], none)
    | some b => (⟨c, some b⟩ :: ((k b).play script (n + 1)).1, ((k b).play script (n + 1)).2)
  | _, .loop .. => ([], none)

variable {script : Script E} {n : Nat}

@[simp] theorem play_ret (a : α) : (ret a : Prog E α).play script n = ([], some a) := rfl

theorem play_call {β : Type} {c : E β} {k : β → Prog E α} {b : β} (h : script n c = some b) :
    (call c k).play script n =
      (⟨c, some b⟩ :: ((k b).play script (n + 1)).1, ((k b).play script (n + 1)).2) := by
  rw [play, h]

theorem play_call_end {β : Type} {c : E β} {k : β → Prog E α} (h : script n c = none) :
    (call c k).play script n = ([⟨c, none⟩], none) := by
  rw [play, h]

theorem play_call_head {β : Type} (c : E β) (k : β → Prog E α) (n : Nat) :
    ((call c k).play script n).1.head? = some ⟨c, script n c⟩ := by
  cases h : script n c with
  | none => rw [play_call_end h]; rfl
  | some b => rw [play_call h]; rfl

/-- **Sequencing**: code that returns is followed by the rest, and code that does not is all. -/
theorem play_bind (p : Prog E α) (f : α → Prog E γ) :
    (p.bind f).play script n =
      match p.play script n with
      | (events, none) => (events, none)
      | (events, some a) =>
        (events ++ ((f a).play script (n + events.length)).1,
          ((f a).play script (n + events.length)).2) := by
  induction p generalizing n with
  | ret a => rfl
  | call c k ih =>
    cases h : script n c with
    | none => rw [call_bind, play_call_end h, play_call_end h]
    | some b =>
      rw [call_bind, play_call h, play_call h, ih]
      cases hplay : (k b).play script (n + 1) with
      | mk events r =>
        cases r with
        | none => rfl
        | some a =>
          simp only [List.length_cons, List.cons_append, Nat.add_assoc, Nat.add_comm 1]
  | loop s c again k => rfl

theorem play_lift_events {β : Type} (c : E β) (n : Nat) :
    ((lift c).play script n).1 = [⟨c, script n c⟩] := by
  cases h : script n c with
  | none => rw [lift, play_call_end h]
  | some b => rw [lift, play_call h]; rfl

/-- At most as many of the calls `P` are made as in both parts together. -/
theorem countP_play_bind (P : Event E → Bool) {p : Prog E α} {f : α → Prog E γ} {j k : Nat}
    (hp : ∀ n, (p.play script n).1.countP P ≤ j)
    (hf : ∀ a n, ((f a).play script n).1.countP P ≤ k) (n : Nat) :
    ((p.bind f).play script n).1.countP P ≤ j + k := by
  have hp := hp n
  rw [play_bind]
  cases hplay : p.play script n with
  | mk events r =>
    rw [hplay] at hp
    cases r with
    | none => exact Nat.le_add_right_of_le hp
    | some a =>
      rw [List.countP_append]
      exact Nat.add_le_add hp (hf a _)

/-- Every call that the code makes, whatever comes of those before, has `P`. -/
def Emits (P : Event E → Prop) (p : Prog E α) : Prop :=
  ∀ (script : Script E) (n : Nat), ∀ ev ∈ (p.play script n).1, P ev

theorem emits_ret {P : Event E → Prop} (a : α) : (ret a : Prog E α).Emits P := by
  intro script n ev hev
  cases hev

theorem emits_call {P : Event E → Prop} {β : Type} {c : E β} {k : β → Prog E α}
    (hc : ∀ answer, P ⟨c, answer⟩) (hk : ∀ b, (k b).Emits P) : (call c k).Emits P := by
  intro script n ev hev
  cases hcall : script n c with
  | none =>
    rw [play_call_end hcall] at hev
    rw [List.mem_singleton.mp hev]
    exact hc none
  | some b =>
    rw [play_call hcall] at hev
    rcases List.mem_cons.mp hev with rfl | hev
    · exact hc (some b)
    · exact hk b script _ ev hev

theorem Emits.bind {P : Event E → Prop} {p : Prog E α} {f : α → Prog E γ} (hp : p.Emits P)
    (hf : ∀ a, (f a).Emits P) : (p.bind f).Emits P := by
  intro script n ev hev
  rw [play_bind] at hev
  cases hplay : p.play script n with
  | mk events r =>
    have hevents : ∀ ev ∈ events, P ev := by
      intro ev hev
      exact hp script n ev (by rw [hplay]; exact hev)
    rw [hplay] at hev
    cases r with
    | none => exact hevents ev hev
    | some a =>
      rcases List.mem_append.mp hev with hev | hev
      · exact hevents ev hev
      · exact hf a script _ ev hev

/-- The code comes to its end and returns a value with `Q`. -/
def Returns (script : Script E) (n : Nat) (p : Prog E α) (Q : α → Prop) : Prop :=
  ∃ a, (p.play script n).2 = some a ∧ Q a

theorem returns_ret {a : α} {Q : α → Prop} (h : Q a) : (ret a : Prog E α).Returns script n Q :=
  ⟨a, rfl, h⟩

theorem returns_call {β : Type} {c : E β} {k : β → Prog E α} {b : β} {Q : α → Prop}
    (h : script n c = some b) : (call c k).Returns script n Q ↔ (k b).Returns script (n + 1) Q := by
  rw [Returns, play_call h, Returns]

theorem Returns.bind {p : Prog E α} {f : α → Prog E γ} {Q : α → Prop} {R : γ → Prop}
    (hp : p.Returns script n Q) (hf : ∀ a n, Q a → (f a).Returns script n R) :
    (p.bind f).Returns script n R := by
  obtain ⟨a, ha, hQ⟩ := hp
  unfold Returns
  rw [play_bind]
  cases hplay : p.play script n with
  | mk events r =>
    rw [hplay] at ha
    cases ha
    exact hf a _ hQ

/-! ## Answers with a state -/

section Eval

variable {W : Type} (answer : ∀ {β : Type}, E β → W → Option (β × W))

/-- `p` where `answer` is what comes of a call, and `none` ends the process. -/
def eval : Prog E α → W → Option (α × W)
  | .ret a, w => some (a, w)
  | .call c k, w =>
    match answer c w with
    | none => none
    | some (b, w') => (k b).eval w'
  | .loop .., _ => none

variable {answer}

theorem eval_call {β : Type} {c : E β} {k : β → Prog E α} {w w' : W} {b : β}
    (h : answer c w = some (b, w')) : (call c k).eval answer w = (k b).eval answer w' := by
  rw [eval, h]

theorem eval_bind (p : Prog E α) (f : α → Prog E γ) (w : W) :
    (p.bind f).eval answer w = (p.eval answer w).bind fun r => (f r.1).eval answer r.2 := by
  induction p generalizing w with
  | ret a => rfl
  | call c k ih =>
    rw [call_bind, eval, eval]
    cases h : answer c w with
    | none => rfl
    | some r => exact ih r.1 r.2
  | loop s c again k => rfl

end Eval

/-! ## Loops -/

/-- `p`, with `n` calls made before it, makes the calls `events` and ends: with a value, or at a
call that has no answer. -/
inductive Ends (script : Script E) : Nat → Prog E α → List (Event E) → Option α → Prop
  | ret {n : Nat} {a : α} : Ends script n (.ret a) [] (some a)
  | halt {n : Nat} {p : Prog E α} {q : Ask E α} (hq : p.ask = some q)
      (h : script n q.c = none) : Ends script n p [⟨q.c, none⟩] none
  | call {n : Nat} {p : Prog E α} {q : Ask E α} {b : q.β} {events : List (Event E)} {r : Option α}
      (hq : p.ask = some q) (h : script n q.c = some b)
      (rest : Ends script (n + 1) (q.k b) events r) :
      Ends script n p (⟨q.c, some b⟩ :: events) r

/-- There is one way for a script to turn out. -/
theorem Ends.unique {p : Prog E α} {events events' : List (Event E)} {r r' : Option α}
    (h : Ends script n p events r) (h' : Ends script n p events' r') :
    events = events' ∧ r = r' := by
  induction h generalizing events' with
  | ret =>
    cases h' with
    | ret => exact ⟨rfl, rfl⟩
    | halt hq => cases hq
    | call hq => cases hq
  | halt hq hnone =>
    cases h' with
    | ret => cases hq
    | halt hq' hnone' =>
      cases hq.symm.trans hq'
      exact ⟨rfl, rfl⟩
    | call hq' hsome =>
      cases hq.symm.trans hq'
      rw [hnone] at hsome
      cases hsome
  | call hq hsome _ ih =>
    cases h' with
    | ret => cases hq
    | halt hq' hnone =>
      cases hq.symm.trans hq'
      rw [hsome] at hnone
      cases hnone
    | call hq' hsome' rest' =>
      cases hq.symm.trans hq'
      cases hsome.symm.trans hsome'
      obtain ⟨rfl, rfl⟩ := ih rest'
      exact ⟨rfl, rfl⟩

theorem Ends.of_call {β : Type} {c : E β} {k : β → Prog E α} {b : β} {events : List (Event E)}
    {r : Option α} (h : script n c = some b) (hrest : Ends script (n + 1) (k b) events r) :
    Ends script n (.call c k) (⟨c, some b⟩ :: events) r :=
  .call (q := ⟨c, k⟩) rfl h hrest

section Loop

variable {β σ : Type} {s : σ} {c : σ → E β} {again : σ → β → Option σ} {k : σ → β → Prog E α}
  {b : β} {events : List (Event E)} {r : Option α}

theorem Ends.of_again {s' : σ} (h : script n (c s) = some b) (ha : again s b = some s')
    (hrest : Ends script (n + 1) (.loop s' c again k) events r) :
    Ends script n (.loop s c again k) (⟨c s, some b⟩ :: events) r := by
  refine .call (q := ⟨c s, _⟩) rfl h ?_
  simp only [ha]
  exact hrest

theorem Ends.of_leave (h : script n (c s) = some b) (ha : again s b = none)
    (hrest : Ends script (n + 1) (k s b) events r) :
    Ends script n (.loop s c again k) (⟨c s, some b⟩ :: events) r := by
  refine .call (q := ⟨c s, _⟩) rfl h ?_
  simp only [ha]
  exact hrest

end Loop

/-! ### With a state -/

section Evals

variable {W : Type} {answer : ∀ β : Type, E β → W → Option (β × W)}

/-- `p` returns `a`, and what was `w` before is `w'` then. -/
inductive Evals (answer : ∀ β : Type, E β → W → Option (β × W)) : Prog E α → W → α → W → Prop
  | ret {a : α} {w : W} : Evals answer (.ret a) w a w
  | step {p : Prog E α} {q : Ask E α} {b : q.β} {w w₁ w₂ : W} {a : α} (hq : p.ask = some q)
      (h : answer _ q.c w = some (b, w₁)) (rest : Evals answer (q.k b) w₁ a w₂) :
      Evals answer p w a w₂

/-- There is one way to return. -/
theorem Evals.unique {p : Prog E α} {w w₁ w₂ : W} {a₁ a₂ : α} (h₁ : p.Evals answer w a₁ w₁)
    (h₂ : p.Evals answer w a₂ w₂) : a₁ = a₂ ∧ w₁ = w₂ := by
  induction h₁ with
  | ret =>
    cases h₂ with
    | ret => exact ⟨rfl, rfl⟩
    | step hq => cases hq
  | step hq h _ ih =>
    cases h₂ with
    | ret => cases hq
    | step hq' h' rest' =>
      cases hq.symm.trans hq'
      cases h.symm.trans h'
      exact ih rest'

theorem ask_bind {p : Prog E α} {q : Ask E α} (hq : p.ask = some q) (f : α → Prog E γ) :
    (p.bind f).ask = some ⟨q.c, fun b => (q.k b).bind f⟩ := by
  cases p with
  | ret a => cases hq
  | call c k =>
    cases hq
    rfl
  | loop s c again k =>
    cases hq
    simp only [bind, ask, Option.some.injEq, Ask.mk.injEq, heq_eq_eq, true_and]
    funext b
    cases again s b <;> rfl

theorem Evals.bind {p : Prog E α} {f : α → Prog E γ} {w w₁ w₂ : W} {a : α} {c : γ}
    (hp : p.Evals answer w a w₁) (hf : (f a).Evals answer w₁ c w₂) :
    (p.bind f).Evals answer w c w₂ := by
  induction hp with
  | ret => exact hf
  | step hq h _ ih => exact .step (ask_bind hq f) h (ih hf)

theorem Evals.of_call {β : Type} {c : E β} {k : β → Prog E α} {b : β} {w w₁ w₂ : W} {a : α}
    (h : answer _ c w = some (b, w₁)) (hrest : (k b).Evals answer w₁ a w₂) :
    (call c k).Evals answer w a w₂ :=
  .step (q := ⟨c, k⟩) rfl h hrest

section

variable {β σ : Type} {s : σ} {c : σ → E β} {again : σ → β → Option σ} {k : σ → β → Prog E α}
  {b : β} {w w₁ w₂ : W} {a : α}

theorem Evals.of_again {s' : σ} (h : answer _ (c s) w = some (b, w₁)) (ha : again s b = some s')
    (hrest : (loop s' c again k).Evals answer w₁ a w₂) :
    (loop s c again k).Evals answer w a w₂ := by
  refine .step (q := ⟨c s, _⟩) rfl h ?_
  simp only [ha]
  exact hrest

theorem Evals.of_leave (h : answer _ (c s) w = some (b, w₁)) (ha : again s b = none)
    (hrest : (k s b).Evals answer w₁ a w₂) : (loop s c again k).Evals answer w a w₂ := by
  refine .step (q := ⟨c s, _⟩) rfl h ?_
  simp only [ha]
  exact hrest

end

end Evals

theorem Ends.call_inv {β : Type} {c : E β} {k : β → Prog E α} {b : β} {events : List (Event E)}
    {r : Option α} (h : Ends script n (.call c k) events r) (hb : script n c = some b) :
    ∃ events', events = ⟨c, some b⟩ :: events' ∧ Ends script (n + 1) (k b) events' r := by
  cases h with
  | halt hq hnone =>
    cases hq
    rw [hb] at hnone
    cases hnone
  | call hq hsome hrest =>
    cases hq
    cases hb.symm.trans hsome
    exact ⟨_, rfl, hrest⟩

/-- **Code that always has one more call to make does not end.** -/
theorem not_ends {I : Nat → Prog E α → Prop}
    (hI : ∀ n p, I n p → ∃ q b, p.ask = some q ∧ script n q.c = some b ∧ I (n + 1) (q.k b))
    {p : Prog E α} (hp : I n p) {events : List (Event E)} {r : Option α} :
    ¬ Ends script n p events r := by
  intro h
  induction h with
  | ret =>
    obtain ⟨q, b, hq, -⟩ := hI _ _ hp
    cases hq
  | halt hq hnone =>
    obtain ⟨q, b, hq', hsome, -⟩ := hI _ _ hp
    cases hq.symm.trans hq'
    rw [hnone] at hsome
    cases hsome
  | call hq hsome _ ih =>
    obtain ⟨q, b, hq', hsome', hrest⟩ := hI _ _ hp
    cases hq.symm.trans hq'
    cases hsome.symm.trans hsome'
    exact ih hrest

end Prog

end Interact
