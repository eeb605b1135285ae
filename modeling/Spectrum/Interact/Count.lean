import Spectrum.Interact.Pool

/-!
# How many calls a program makes

A contract says what a program does if it gets somewhere; a run that goes on forever meets every
contract. Here calls are counted. `Kernel.counted` keeps the number of calls executed so far in the
world, and `Spec.within N free` allows a call only while that number is below `N`, or in the states
`free`, from where the program may go on for as long as it likes.

**So a `wp` against `within` bounds every run**: `Kernel.Honours` says that a kernel keeps a
contract as long as an invariant of the world holds, `Honours.run` is the conclusion for every state
a run reaches, and `Honours.counted` adds the count.
-/

set_option autoImplicit false

namespace Interact

variable {E : Type → Type} {α T W Ch : Type}

/-- The kernel, with the number of calls executed. -/
def Kernel.counted (K : Kernel E T W Ch) : Kernel E T (W × Nat) Ch where
  exec t c x ch := (K.exec t c x.1 ch).map fun r => (r.1, r.2, x.2 + 1)

/-- At most `N` calls, unless a state in `free` is reached. -/
def Spec.within (R : Spec E W) (N : Nat) (free : W → Prop) : Spec E (W × Nat) where
  pre x c := R.pre x.1 c ∧ (x.2 < N ∨ free x.1)
  post x c b y := R.post x.1 c b y.1 ∧ y.2 = x.2 + 1

/-- From a state with `I`, every call that the contract allows keeps `I`, and is answered as the
contract says. -/
structure Kernel.Honours (K : Kernel E T W Ch) (t : T) (R : Spec E W) (I : W → Prop) : Prop where
  step : ∀ {β : Type} {c : E β} {w w' : W} {ch : Ch} {o : Outcome T β}, R.pre w c → I w →
    K.exec t c w ch = some (o, w') → I w' ∧ ∀ b, o.answer = some b → R.post w c b w'

namespace Kernel.Honours

variable {K : Kernel E T W Ch} {t : T} {R : Spec E W} {I : W → Prop}

/-- **Every state a run reaches has the invariant.** -/
theorem run (hK : K.Honours t R I) {Q : α → W → Prop} (chs : List Ch) :
    ∀ {p : Prog E α} {w : W}, I w → p.wp R Q w →
      I (K.run t p w chs).world ∧ (K.run t p w chs).Meets Q fun _ => True := by
  induction chs with
  | nil =>
    intro p w hw hp
    cases p with
    | ret a => exact ⟨hw, hp⟩
    | call c k => exact ⟨hw, trivial⟩
    | loop s c again k => exact ⟨hw, trivial⟩
  | cons ch chs ih =>
    intro p w hw hp
    unfold Kernel.run
    cases hq : p.ask with
    | none =>
      obtain ⟨a, rfl⟩ := Prog.eq_ret_of_ask hq
      exact ⟨hw, hp⟩
    | some q =>
      obtain ⟨hpre, hpost⟩ := Prog.wp_ask hp hq
      cases hx : K.exec t q.c w ch with
      | none => simpa [hx] using ih hw hp
      | some ow =>
        obtain ⟨o, w'⟩ := ow
        obtain ⟨hw', hans⟩ := hK.step hpre hw hx
        cases o with
        | resume b => simpa [hx] using ih hw' (hpost b w' (hans b rfl))
        | fork b t' b' => simpa [hx] using ih hw' (hpost b w' (hans b rfl))
        | halt => simpa [hx, Run.Meets, Run.world] using hw'

/-- The counted kernel honours the bounded contract. -/
theorem counted (hK : K.Honours t R I) {N : Nat} {free : W → Prop}
    (hfree : ∀ {β : Type} {c : E β} {w w' : W} {ch : Ch} {o : Outcome T β},
      K.exec t c w ch = some (o, w') → free w → free w') :
    K.counted.Honours t (R.within N free) fun x => I x.1 ∧ (x.2 ≤ N ∨ free x.1) := by
  constructor
  rintro β c x x' ch o ⟨hpre, hleft⟩ ⟨hI, -⟩ he
  obtain ⟨⟨o', w'⟩, hx, heq⟩ := Option.map_eq_some_iff.mp he
  cases heq
  obtain ⟨hI', hans⟩ := hK.step hpre hI hx
  exact ⟨⟨hI', hleft.imp id (hfree hx)⟩, fun b hb => ⟨hans b hb, rfl⟩⟩

end Kernel.Honours

/-- A step that executes a call is counted, so a pool in which the count cannot grow is stuck. -/
theorem Pool.step_counted [DecidableEq T] {K : Kernel E T W Ch} {s : Pool E T (W × Nat) α} {t : T}
    {ch : Ch} {p : Prog E α} {q : Ask E α} (hp : s.thread t = some p) (hq : p.ask = some q)
    (he : (K.exec t q.c s.world.1 ch).isSome) :
    (s.step K.counted t ch).world.2 = s.world.2 + 1 := by
  obtain ⟨⟨o, w⟩, he⟩ := Option.isSome_iff_exists.mp he
  have hexec : K.counted.exec t q.c s.world ch = some (o, w, s.world.2 + 1) := by
    simp [Kernel.counted, he]
  unfold Pool.step
  simp only [hp, Option.bind_some, hq, hexec]
  cases o <;> rfl

end Interact
