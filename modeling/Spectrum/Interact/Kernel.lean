import Spectrum.Interact.Prog

/-!
# Kernels — what the calls do

A `Kernel` executes one call of one process: given the process, the call, the world and one
*choice* (which of the things the environment may do now it does do), it answers how the
process goes on and what the world becomes. Everything nondeterministic is in the choices, so a
run is a function of a list of choices and "every behaviour of the environment" is a quantifier
over lists. A kernel is executable, and so is `Kernel.run`.

A call has four kinds of outcome. The process goes on with an answer; it goes on *and* a second
process continues the same code with an answer of its own, which is what `fork` does; the
process ends; or the call is not enabled under this choice, and then nothing happens.

`Kernel.spec` is the contract a kernel satisfies by definition, and `Kernel.run_sound` says that
a `wp` against it is a statement about every run.
-/

set_option autoImplicit false

namespace Interact

/-- How the calling process continues. `fork b t b'` answers `b` here and starts the process `t`
at the same point of the code with the answer `b'`. -/
inductive Outcome (T β : Type)
  | resume (b : β)
  | fork (b : β) (t : T) (b' : β)
  | halt
  deriving Repr, DecidableEq

/-- The answer the *calling* process sees. -/
def Outcome.answer {T β : Type} : Outcome T β → Option β
  | .resume b => some b
  | .fork b _ _ => some b
  | .halt => none

/-- `exec t c w ch` executes `c` for the process `t`; `none` means `c` cannot proceed under the
choice `ch`. -/
structure Kernel (E : Type → Type) (T W Ch : Type) where
  exec : ∀ {β : Type}, T → E β → W → Ch → Option (Outcome T β × W)

/-- Where a single process has got to. -/
inductive Run (α W : Type)
  | running (w : W)
  | returned (a : α) (w : W)
  | halted (w : W)
  deriving Repr, DecidableEq

variable {E : Type → Type} {α T W Ch : Type}

/-- The world a run has got to. -/
def Run.world : Run α W → W
  | .running w => w
  | .returned _ w => w
  | .halted w => w

/-- What a finished run owes its postcondition; an unfinished one owes nothing. -/
def Run.Meets (Q : α → W → Prop) (H : W → Prop) : Run α W → Prop
  | .running _ => True
  | .returned a w => Q a w
  | .halted w => H w

namespace Kernel

/-- Run `p` as the process `t`, one choice per call. A choice under which the call cannot proceed
is skipped; choices left over when the program has returned are ignored. -/
def run (K : Kernel E T W Ch) (t : T) : Prog E α → W → List Ch → Run α W
  | p, w, [] =>
    match p.returned? with
    | some a => .returned a w
    | none => .running w
  | p, w, ch :: chs =>
    match p.ask with
    | none =>
      match p.returned? with
      | some a => .returned a w
      | none => .running w
    | some q =>
      match K.exec t q.c w ch with
      | none => K.run t p w chs
      | some (.resume b, w') => K.run t (q.k b) w' chs
      | some (.fork b _ _, w') => K.run t (q.k b) w' chs
      | some (.halt, w') => .halted w'

/-- The contract a kernel meets by definition, under the choices `ok`: an answer is possible if
some choice produces it, and a call that can end the process must leave `H` behind. -/
def spec (K : Kernel E T W Ch) (t : T) (ok : Ch → Prop) (H : W → Prop) : Spec E W where
  pre w c := ∀ ch w', ok ch → K.exec t c w ch = some (.halt, w') → H w'
  post w c b w' := ∃ ch o, ok ch ∧ K.exec t c w ch = some (o, w') ∧ o.answer = some b

/-- **A `wp` against the kernel is a statement about every run.** Induction on the choices; the
invariant is that what is left of the program still has its precondition. -/
theorem run_sound {K : Kernel E T W Ch} {t : T} {ok : Ch → Prop} {H : W → Prop}
    {Q : α → W → Prop} {chs : List Ch} (hok : ∀ ch ∈ chs, ok ch) :
    ∀ {p : Prog E α} {w : W}, p.wp (K.spec t ok H) Q w → (K.run t p w chs).Meets Q H := by
  induction chs with
  | nil =>
    intro p w hp
    cases p with
    | ret a => exact hp
    | call c k => trivial
    | loop s c again k => trivial
  | cons ch chs ih =>
    intro p w hp
    have hch : ok ch := hok ch (by simp)
    have htl : ∀ ch ∈ chs, ok ch := fun ch h => hok ch (by simp [h])
    unfold run
    cases hq : p.ask with
    | none =>
      obtain ⟨a, rfl⟩ := Prog.eq_ret_of_ask hq
      exact hp
    | some q =>
      obtain ⟨hpre, hpost⟩ := Prog.wp_ask hp hq
      cases hx : K.exec t q.c w ch with
      | none => simpa [hx] using ih htl hp
      | some ow =>
        obtain ⟨o, w'⟩ := ow
        cases o with
        | resume b => simpa [hx] using ih htl (hpost b w' ⟨ch, _, hch, hx, rfl⟩)
        | fork b t' b' => simpa [hx] using ih htl (hpost b w' ⟨ch, _, hch, hx, rfl⟩)
        | halt => simpa [hx, Run.Meets] using hpre ch w' hch hx

/-- The case of a run that returned. -/
theorem run_returned {K : Kernel E T W Ch} {t : T} {ok : Ch → Prop} {H : W → Prop}
    {Q : α → W → Prop} {chs : List Ch} (hok : ∀ ch ∈ chs, ok ch) {p : Prog E α} {w w' : W} {a : α}
    (hp : p.wp (K.spec t ok H) Q w) (hr : K.run t p w chs = .returned a w') : Q a w' := by
  have := run_sound hok hp
  rw [hr] at this
  exact this

end Kernel

end Interact
