import Mathlib.Logic.Function.Basic

/-!
# Programs that talk to their environment

A `Prog E α` is code that issues calls of the signature `E` — `c : E β` is a call whose answer
is a `β` — and either returns an `α` or goes on calling forever. Three constructors are enough
for the code this library is meant for: return, one call, and a loop of the `do … while` kind,
whose body is one call and whose local variables are the loop state. What a call *does* is not
part of a program; it is supplied by a `Kernel` (executable, `Interact/Kernel.lean`) or by a
`Spec` (a contract, below).

**`Prog.wp` is the one proof method.** A `Spec` says, of an abstract state, which calls are
allowed and what may be true after each answer. `p.wp R Q x` says that `p`, started at the
abstract state `x`, issues only allowed calls whatever the answers are, and that `Q` holds
if it returns. The loop clause carries its invariant existentially, so nothing is annotated in
the program. Two instances of `Spec` are used everywhere: the state can be the whole world, and
then `wp` is the weakest precondition of the code; or it can be a *phase*, and then `wp` is a
typestate discipline, which is what a pool of processes needs (`Interact/Pool.lean`).
-/

set_option autoImplicit false

namespace Interact

/-- A program over the calls `E`. `loop s c again k` performs `c s`; if the answer `b` makes
`again s b` a new loop state the loop goes round, otherwise it is left with `k s b`. -/
inductive Prog (E : Type → Type) (α : Type) : Type 1
  | ret (a : α)
  | call {β : Type} (c : E β) (k : β → Prog E α)
  | loop {β σ : Type} (s : σ) (c : σ → E β) (again : σ → β → Option σ) (k : σ → β → Prog E α)

variable {E : Type → Type} {α γ S : Type}

namespace Prog

def bind : Prog E α → (α → Prog E γ) → Prog E γ
  | .ret a, f => f a
  | .call c k, f => .call c fun b => (k b).bind f
  | .loop s c again k, f => .loop s c again fun s b => (k s b).bind f

instance : Monad (Prog E) where
  pure := .ret
  bind := Prog.bind

/-- One call, its answer returned. -/
def lift {β : Type} (c : E β) : Prog E β := .call c .ret

@[simp] theorem pure_eq (a : α) : (pure a : Prog E α) = .ret a := rfl

@[simp] theorem bind_eq (p : Prog E α) (f : α → Prog E γ) : p >>= f = p.bind f := rfl

@[simp] theorem ret_bind (a : α) (f : α → Prog E γ) : (ret a).bind f = f a := rfl

@[simp] theorem call_bind {β : Type} (c : E β) (k : β → Prog E α) (f : α → Prog E γ) :
    (call c k).bind f = call c fun b => (k b).bind f := rfl

@[simp] theorem lift_bind {β : Type} (c : E β) (f : β → Prog E α) :
    (lift c).bind f = call c f := rfl

theorem bind_assoc {δ : Type} (p : Prog E α) (f : α → Prog E γ) (g : γ → Prog E δ) :
    (p.bind f).bind g = p.bind fun a => (f a).bind g := by
  induction p with
  | ret a => rfl
  | call c k ih => simp only [bind, ih]
  | loop s c again k ih => simp only [bind, ih]

end Prog

/-- What a program asks for next: a call, and the rest of the program for each answer. -/
structure Ask (E : Type → Type) (α : Type) : Type 1 where
  {β : Type}
  c : E β
  k : β → Prog E α

namespace Prog

/-- The next call, or nothing if the program has returned. A loop is unrolled once. -/
def ask : Prog E α → Option (Ask E α)
  | .ret _ => none
  | .call c k => some ⟨c, k⟩
  | .loop s c again k =>
    some ⟨c s, fun b =>
      match again s b with
      | some s' => .loop s' c again k
      | none => k s b⟩

def returned? : Prog E α → Option α
  | .ret a => some a
  | _ => none

theorem eq_ret_of_ask {p : Prog E α} (h : p.ask = none) : ∃ a, p = ret a := by
  cases p with
  | ret a => exact ⟨a, rfl⟩
  | call c k => simp [ask] at h
  | loop s c again k => simp [ask] at h

theorem eq_ret_of_returned? {p : Prog E α} {a : α} (h : p.returned? = some a) : p = ret a := by
  cases p with
  | ret b => simpa [returned?] using h
  | call c k => simp [returned?] at h
  | loop s c again k => simp [returned?] at h

end Prog

/-! ## Contracts and weakest preconditions -/

/-- A contract for the calls `E` over an abstract state `S`: which calls are allowed, and which
states may follow which answer. -/
structure Spec (E : Type → Type) (S : Type) where
  pre : ∀ {β : Type}, S → E β → Prop
  post : ∀ {β : Type}, S → E β → β → S → Prop

namespace Prog

/-- `p.wp R Q x`: from `x` every call `p` issues is allowed by `R`, and `Q` holds on return. -/
def wp (R : Spec E S) : Prog E α → (α → S → Prop) → S → Prop
  | .ret a, Q, x => Q a x
  | .call c k, Q, x => R.pre x c ∧ ∀ b y, R.post x c b y → (k b).wp R Q y
  | .loop (σ := σ) s c again k, Q, x =>
    ∃ I : σ → S → Prop, I s x ∧ ∀ s x, I s x → R.pre x (c s) ∧
      ∀ b y, R.post x (c s) b y →
        match again s b with
        | some s' => I s' y
        | none => (k s b).wp R Q y

variable {R : Spec E S}

@[simp] theorem wp_ret {a : α} {Q : α → S → Prop} {x : S} : (ret a).wp R Q x ↔ Q a x := Iff.rfl

/-- A loop is left through its invariant: it holds on entry, one round re-establishes it, and
the round that leaves the loop establishes the rest. -/
theorem wp_loop_iff {β σ : Type} {s : σ} {c : σ → E β} {again : σ → β → Option σ}
    {k : σ → β → Prog E α} {Q : α → S → Prop} {x : S} :
    (loop s c again k).wp R Q x ↔ ∃ I : σ → S → Prop, I s x ∧
      ∀ s x, I s x → R.pre x (c s) ∧ ∀ b y, R.post x (c s) b y →
        (∀ s', again s b = some s' → I s' y) ∧ (again s b = none → (k s b).wp R Q y) := by
  refine exists_congr fun I => and_congr Iff.rfl (forall_congr' fun s => forall_congr' fun x =>
    imp_congr Iff.rfl (and_congr Iff.rfl (forall_congr' fun b => forall_congr' fun y =>
      imp_congr Iff.rfl ?_)))
  cases ha : again s b with
  | some s' => simp
  | none => simp

theorem wp_loop {β σ : Type} {s : σ} {c : σ → E β} {again : σ → β → Option σ}
    {k : σ → β → Prog E α} {Q : α → S → Prop} {x : S} (I : σ → S → Prop) (h0 : I s x)
    (hround : ∀ s x, I s x → R.pre x (c s) ∧ ∀ b y, R.post x (c s) b y →
      (∀ s', again s b = some s' → I s' y) ∧ (again s b = none → (k s b).wp R Q y)) :
    (loop s c again k).wp R Q x :=
  wp_loop_iff.mpr ⟨I, h0, hround⟩

/-- **The consequence rule.** -/
theorem wp_mono {p : Prog E α} {Q Q' : α → S → Prop} (hQ : ∀ a x, Q a x → Q' a x) {x : S}
    (h : p.wp R Q x) : p.wp R Q' x := by
  induction p generalizing x with
  | ret a => exact hQ a x h
  | call c k ih => exact ⟨h.1, fun b y hb => ih b (h.2 b y hb)⟩
  | loop s c again k ih =>
    obtain ⟨I, h0, hI⟩ := wp_loop_iff.mp h
    refine wp_loop I h0 fun s x hs => ⟨(hI s x hs).1, fun b y hb => ?_⟩
    obtain ⟨hagain, hleave⟩ := (hI s x hs).2 b y hb
    exact ⟨hagain, fun hn => ih s b (hleave hn)⟩

/-- **Sequencing.** The precondition of `p; f` is the precondition of `p` for the postcondition
"`f` is safe from here". -/
theorem wp_bind {p : Prog E α} {f : α → Prog E γ} {Q : γ → S → Prop} {x : S} :
    (p.bind f).wp R Q x ↔ p.wp R (fun a y => (f a).wp R Q y) x := by
  induction p generalizing x with
  | ret a => exact Iff.rfl
  | call c k ih =>
    exact and_congr Iff.rfl
      (forall_congr' fun b => forall_congr' fun y => imp_congr Iff.rfl (ih b))
  | loop s c again k ih =>
    refine wp_loop_iff.trans (Iff.trans ?_ wp_loop_iff.symm)
    simp only [ih]

/-- The rule a caller uses: a proved triple for `p`, and the rest from its postcondition. -/
theorem wp_seq {p : Prog E α} {f : α → Prog E γ} {Q' : α → S → Prop} {Q : γ → S → Prop} {x : S}
    (hp : p.wp R Q' x) (hf : ∀ a y, Q' a y → (f a).wp R Q y) : (p.bind f).wp R Q x :=
  wp_bind.mpr (wp_mono hf hp)

/-- One step of a program that satisfies its contract: the call it asks for is allowed, and what
is left of the program satisfies the contract again. Every soundness theorem of this library is
an induction over this step. -/
theorem wp_ask {p : Prog E α} {Q : α → S → Prop} {x : S} (h : p.wp R Q x) {q : Ask E α}
    (hq : p.ask = some q) :
    R.pre x q.c ∧ ∀ b y, R.post x q.c b y → (q.k b).wp R Q y := by
  cases p with
  | ret a => simp [ask] at hq
  | call c k =>
    simp only [ask, Option.some.injEq] at hq
    subst hq
    exact h
  | loop s c again k =>
    simp only [ask, Option.some.injEq] at hq
    subst hq
    obtain ⟨I, h0, hI⟩ := wp_loop_iff.mp h
    refine ⟨(hI s x h0).1, fun b y hb => ?_⟩
    obtain ⟨hagain, hleave⟩ := (hI s x h0).2 b y hb
    cases ha : again s b with
    | some s' =>
      simp only [ha]
      exact wp_loop I (hagain s' ha) hI
    | none =>
      simp only [ha]
      exact hleave ha

/-! ### Moving between contracts -/

/-- Every call the program can issue satisfies `P`. -/
def Only (P : ∀ {β : Type}, E β → Prop) : Prog E α → Prop
  | .ret _ => True
  | .call c k => P c ∧ ∀ b, (k b).Only P
  | .loop _ c _ k => ∀ s, P (c s) ∧ ∀ b, (k s b).Only P

theorem Only.bind {P : ∀ {β : Type}, E β → Prop} {p : Prog E α} {f : α → Prog E γ}
    (hp : p.Only P) (hf : ∀ a, (f a).Only P) : (p.bind f).Only P := by
  induction p with
  | ret a => exact hf a
  | call c k ih => exact ⟨hp.1, fun b => ih b (hp.2 b)⟩
  | loop s c again k ih => exact fun s => ⟨(hp s).1, fun b => ih s b ((hp s).2 b)⟩

theorem Only.mono {P P' : ∀ {β : Type}, E β → Prop} (h : ∀ {β : Type} {c : E β}, P c → P' c)
    {p : Prog E α} (hp : p.Only P) : p.Only P' := by
  induction p with
  | ret a => trivial
  | call c k ih => exact ⟨h hp.1, fun b => ih b (hp.2 b)⟩
  | loop s c again k ih => exact fun s => ⟨h (hp s).1, fun b => ih s b ((hp s).2 b)⟩

/-- A contract that allows more calls and promises more about their answers will do as well. -/
theorem wp_weaken {R R' : Spec E S}
    (hpre : ∀ {β : Type} {c : E β} {x}, R.pre x c → R'.pre x c)
    (hpost : ∀ {β : Type} {c : E β} {x b y}, R'.post x c b y → R.post x c b y)
    {p : Prog E α} {Q : α → S → Prop} {x : S} (h : p.wp R Q x) : p.wp R' Q x := by
  induction p generalizing x with
  | ret a => exact h
  | call c k ih => exact ⟨hpre h.1, fun b y hb => ih b (h.2 b y (hpost hb))⟩
  | loop s c again k ih =>
    obtain ⟨I, h0, hI⟩ := wp_loop_iff.mp h
    refine wp_loop I h0 fun s x hs => ⟨hpre (hI s x hs).1, fun b y hb => ?_⟩
    obtain ⟨hagain, hleave⟩ := (hI s x hs).2 b y (hpost hb)
    exact ⟨hagain, fun hn => ih s b (hleave hn)⟩

/-- **Frame.** What every call of the program preserves, the program preserves. -/
theorem wp_of_only {R : Spec E S} {P : ∀ {β : Type}, E β → Prop} (I : S → Prop)
    (hpre : ∀ {β : Type} {c : E β} {x}, P c → I x → R.pre x c)
    (hpost : ∀ {β : Type} {c : E β} {x b y}, P c → I x → R.post x c b y → I y)
    {p : Prog E α} (hp : p.Only P) {x : S} (hx : I x) : p.wp R (fun _ y => I y) x := by
  induction p generalizing x with
  | ret a => exact hx
  | call c k ih => exact ⟨hpre hp.1 hx, fun b y hb => ih b (hp.2 b) (hpost hp.1 hx hb)⟩
  | loop s c again k ih =>
    refine wp_loop (fun _ x => I x) hx fun s x hx => ⟨hpre (hp s).1 hx, fun b y hb => ?_⟩
    have hy := hpost (hp s).1 hx hb
    exact ⟨fun _ _ => hy, fun _ => ih s b ((hp s).2 b) hy⟩

/-- **Simulation.** A program that is safe under `R` is safe under any contract whose states
simulate those of `R`, as far as the calls of this program go. -/
theorem wp_simulate {S' : Type} {R : Spec E S} {R' : Spec E S'} {P : ∀ {β : Type}, E β → Prop}
    (rel : S → S' → Prop)
    (hpre : ∀ {β : Type} {c : E β} {x x'}, P c → rel x x' → R.pre x c → R'.pre x' c)
    (hpost : ∀ {β : Type} {c : E β} {x x' b y'}, P c → rel x x' → R'.post x' c b y' →
      ∃ y, rel y y' ∧ R.post x c b y)
    {p : Prog E α} (hp : p.Only P) {Q : α → S → Prop} {x : S} {x' : S'} (hrel : rel x x')
    (h : p.wp R Q x) : p.wp R' (fun a y' => ∃ y, rel y y' ∧ Q a y) x' := by
  induction p generalizing x x' with
  | ret a => exact ⟨x, hrel, h⟩
  | call c k ih =>
    refine ⟨hpre hp.1 hrel h.1, fun b y' hb => ?_⟩
    obtain ⟨y, hy, hb'⟩ := hpost hp.1 hrel hb
    exact ih b (hp.2 b) hy (h.2 b y hb')
  | loop s c again k ih =>
    obtain ⟨I, h0, hI⟩ := wp_loop_iff.mp h
    refine wp_loop (fun s x' => ∃ x, rel x x' ∧ I s x) ⟨x, hrel, h0⟩ ?_
    rintro s x' ⟨x, hrel, hs⟩
    refine ⟨hpre (hp s).1 hrel (hI s x hs).1, fun b y' hb => ?_⟩
    obtain ⟨y, hy, hb'⟩ := hpost (hp s).1 hrel hb
    obtain ⟨hagain, hleave⟩ := (hI s x hs).2 b y hb'
    exact ⟨fun s' ha => ⟨y, hy, hagain s' ha⟩, fun hn => ih s b ((hp s).2 b) hy (hleave hn)⟩

end Prog

end Interact
