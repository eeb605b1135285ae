import Spectrum.Interact.Kernel

/-!
# Pools — processes that share a world

A `Pool` is a world and, for each process id, the program that process still has to run. A
schedule is a list of (process, choice) pairs, so "every interleaving" is a quantifier over
schedules and a pool, like a single process, is executable.

**The proof method is thread-modular.** Each program is checked *alone*, by `Prog.wp` against a
contract whose abstract states are the *phases* a process goes through; what the processes owe
each other is one invariant `Inv w ph` over the world and everybody's phase. `Modular` lists
what has to be shown of a single call, `Modular.run` is the conclusion for every schedule, and
no proof ever looks at the product of two programs.
-/

set_option autoImplicit false

namespace Interact

structure Pool (E : Type → Type) (T W α : Type) : Type 1 where
  world : W
  thread : T → Option (Prog E α)

variable {E : Type → Type} {α T W Ch φ : Type}

namespace Pool

section

variable [DecidableEq T]

/-- The pool after the process `t`, which was asking for `q`, had the outcome `o`. -/
def after (s : Pool E T W α) (t : T) (q : Ask E α) (w : W) : Outcome T q.β → Pool E T W α
  | .resume b => ⟨w, Function.update s.thread t (some (q.k b))⟩
  | .fork b t' b' =>
    ⟨w, Function.update (Function.update s.thread t (some (q.k b))) t' (some (q.k b'))⟩
  | .halt => ⟨w, Function.update s.thread t none⟩

/-- One call of the process `t` under the choice `ch`. Nothing happens if there is no such
process, if it has returned, or if its call cannot proceed. -/
def step (K : Kernel E T W Ch) (s : Pool E T W α) (t : T) (ch : Ch) : Pool E T W α :=
  match (s.thread t).bind Prog.ask with
  | none => s
  | some q =>
    match K.exec t q.c s.world ch with
    | none => s
    | some (o, w) => s.after t q w o

/-- Everything a step can do. -/
theorem step_cases (K : Kernel E T W Ch) (s : Pool E T W α) (t : T) (ch : Ch) :
    s.step K t ch = s ∨ ∃ p q o w, s.thread t = some p ∧ p.ask = some q ∧
      K.exec t q.c s.world ch = some (o, w) ∧ s.step K t ch = s.after t q w o := by
  unfold step
  cases hq : (s.thread t).bind Prog.ask with
  | none => exact Or.inl rfl
  | some q =>
    obtain ⟨p, hp, hpq⟩ := Option.bind_eq_some_iff.mp hq
    cases he : K.exec t q.c s.world ch with
    | none => exact Or.inl (by simp [he])
    | some ow => exact Or.inr ⟨p, q, ow.1, ow.2, hp, hpq, he, by simp [he]⟩

/-- A step starts no process but the ones it forks. -/
theorem step_thread {K : Kernel E T W Ch} {s : Pool E T W α} {t u : T} {ch : Ch}
    (hu : s.thread u = none)
    (hfork : ∀ {β : Type} {c : E β} {w w' : W} {b b' : β},
      K.exec t c w ch ≠ some (.fork b u b', w')) :
    (s.step K t ch).thread u = none := by
  rcases step_cases K s t ch with hstay | ⟨p, q, o, w, hp, hq, he, hstep⟩
  · rw [hstay, hu]
  · have hne : u ≠ t := by
      rintro rfl
      rw [hu] at hp
      cases hp
    rw [hstep]
    cases o with
    | resume b => simp [after, Function.update_of_ne hne, hu]
    | halt => simp [after, Function.update_of_ne hne, hu]
    | fork b t' b' =>
      have hne' : u ≠ t' := by
        rintro rfl
        exact hfork he
      simp [after, Function.update_of_ne hne, Function.update_of_ne hne', hu]

def run (K : Kernel E T W Ch) (s : Pool E T W α) (sched : List (T × Ch)) : Pool E T W α :=
  sched.foldl (fun s e => s.step K e.1 e.2) s

@[simp] theorem run_nil (K : Kernel E T W Ch) (s : Pool E T W α) : s.run K [] = s := rfl

@[simp] theorem run_cons (K : Kernel E T W Ch) (s : Pool E T W α) (t : T) (ch : Ch)
    (sched : List (T × Ch)) : s.run K ((t, ch) :: sched) = (s.step K t ch).run K sched := rfl

end

/-- The value the process `t` has returned, if it has. -/
def result? (s : Pool E T W α) (t : T) : Option α := (s.thread t).bind Prog.returned?

/-- `ph` assigns a phase to exactly the live processes, and each one's remaining program obeys
the contract from its phase. -/
def Phased (R : Spec E φ) (Q : α → φ → Prop) (thread : T → Option (Prog E α))
    (ph : T → Option φ) : Prop :=
  ∀ t, match thread t, ph t with
    | none, none => True
    | some p, some x => p.wp R Q x
    | _, _ => False

/-- A pool is good if some assignment of phases fits its programs and satisfies the invariant. -/
def Good (R : Spec E φ) (Q : α → φ → Prop) (Inv : W → (T → Option φ) → Prop)
    (s : Pool E T W α) : Prop :=
  ∃ ph, Inv s.world ph ∧ Phased R Q s.thread ph

theorem Phased.get {R : Spec E φ} {Q : α → φ → Prop} {thread : T → Option (Prog E α)}
    {ph : T → Option φ} (h : Phased R Q thread ph) {t : T} {p : Prog E α}
    (ht : thread t = some p) : ∃ x, ph t = some x ∧ p.wp R Q x := by
  have := h t
  rw [ht] at this
  cases hx : ph t with
  | none => rw [hx] at this; exact this.elim
  | some x => rw [hx] at this; exact ⟨x, rfl, this⟩

theorem Phased.eq_none {R : Spec E φ} {Q : α → φ → Prop} {thread : T → Option (Prog E α)}
    {ph : T → Option φ} (h : Phased R Q thread ph) {t : T} : thread t = none ↔ ph t = none := by
  have := h t
  cases ht : thread t <;> cases hx : ph t <;> simp [ht, hx] at this ⊢

theorem Phased.update [DecidableEq T] {R : Spec E φ} {Q : α → φ → Prop}
    {thread : T → Option (Prog E α)} {ph : T → Option φ} (h : Phased R Q thread ph) {t : T}
    {p : Prog E α} {x : φ} (hp : p.wp R Q x) :
    Phased R Q (Function.update thread t (some p)) (Function.update ph t (some x)) := by
  intro u
  by_cases hu : u = t
  · subst hu
    simpa using hp
  · simpa [Function.update_of_ne hu] using h u

theorem Phased.erase [DecidableEq T] {R : Spec E φ} {Q : α → φ → Prop}
    {thread : T → Option (Prog E α)} {ph : T → Option φ} (h : Phased R Q thread ph) (t : T) :
    Phased R Q (Function.update thread t none) (Function.update ph t none) := by
  intro u
  by_cases hu : u = t
  · subst hu
    simp
  · simpa [Function.update_of_ne hu] using h u

end Pool

/-! ## The thread-modular rule -/

/-- What one call has to preserve. `R` is the contract of the programs, `ok` restricts the
choices considered, and `Inv` relates the world to the phases of all live processes. -/
structure Modular [DecidableEq T] (K : Kernel E T W Ch) (R : Spec E φ) (ok : T → Ch → Prop)
    (Inv : W → (T → Option φ) → Prop) : Prop where
  resume : ∀ {β : Type} {t : T} {c : E β} {w w' : W} {ph : T → Option φ} {x : φ} {ch : Ch} {b : β},
    ok t ch → Inv w ph → ph t = some x → R.pre x c →
    K.exec t c w ch = some (.resume b, w') →
    ∃ y, R.post x c b y ∧ Inv w' (Function.update ph t (some y))
  fork : ∀ {β : Type} {t t' : T} {c : E β} {w w' : W} {ph : T → Option φ} {x : φ} {ch : Ch}
    {b b' : β},
    ok t ch → Inv w ph → ph t = some x → R.pre x c →
    K.exec t c w ch = some (.fork b t' b', w') →
    ∃ y z, R.post x c b y ∧ R.post x c b' z ∧
      Inv w' (Function.update (Function.update ph t (some y)) t' (some z))
  halt : ∀ {β : Type} {t : T} {c : E β} {w w' : W} {ph : T → Option φ} {x : φ} {ch : Ch},
    ok t ch → Inv w ph → ph t = some x → R.pre x c →
    K.exec t c w ch = some (.halt, w') →
    Inv w' (Function.update ph t none)

namespace Modular

variable [DecidableEq T] {K : Kernel E T W Ch} {R : Spec E φ} {ok : T → Ch → Prop}
  {Inv : W → (T → Option φ) → Prop} {Q : α → φ → Prop}

/-- One step of one process keeps a pool good. -/
theorem step (M : Modular K R ok Inv) {s : Pool E T W α} (hs : s.Good R Q Inv) {t : T} {ch : Ch}
    (hch : ok t ch) : (s.step K t ch).Good R Q Inv := by
  rcases Pool.step_cases K s t ch with hstay | ⟨p, q, o, w, hp, hq, he, hstep⟩
  · rw [hstay]
    exact hs
  · obtain ⟨ph, hinv, hph⟩ := hs
    obtain ⟨x, hx, hwp⟩ := hph.get hp
    obtain ⟨hpre, hpost⟩ := Prog.wp_ask hwp hq
    rw [hstep]
    cases o with
    | resume b =>
      obtain ⟨y, hy, hinv'⟩ := M.resume hch hinv hx hpre he
      exact ⟨_, hinv', hph.update (hpost b y hy)⟩
    | fork b t' b' =>
      obtain ⟨y, z, hy, hz, hinv'⟩ := M.fork hch hinv hx hpre he
      exact ⟨_, hinv', (hph.update (hpost b y hy)).update (hpost b' z hz)⟩
    | halt => exact ⟨_, M.halt hch hinv hx hpre he, hph.erase t⟩

/-- **Every schedule keeps a pool good.** -/
theorem run (M : Modular K R ok Inv) {sched : List (T × Ch)} (hok : ∀ e ∈ sched, ok e.1 e.2)
    {s : Pool E T W α} (hs : s.Good R Q Inv) : (s.run K sched).Good R Q Inv := by
  induction sched generalizing s with
  | nil => exact hs
  | cons e rest ih =>
    obtain ⟨t, ch⟩ := e
    rw [Pool.run_cons]
    exact ih (fun e he => hok e (by simp [he])) (M.step hs (hok (t, ch) (by simp)))

end Modular

end Interact
