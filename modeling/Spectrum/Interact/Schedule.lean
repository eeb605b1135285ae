import Mathlib.Logic.Basic

/-!
# Schedules

A system whose next state is a partial function of its state and of a choice: which process goes
next, say. A schedule is a list of choices, and an interleaving is a schedule, so a statement about
every schedule is a statement about every interleaving and every prefix of one.

The two rules are the ones safety and termination need. **What every step preserves holds along
every schedule** (`run_invariant`), and a measure that every step decreases bounds the length of
every schedule (`length_le_of_run`), or with input from outside the number of steps for each piece
of it (`countP_le_of_run`). A system whose schedules are bounded can be run until it is stuck
(`exists_stuck`).
-/

set_option autoImplicit false

namespace Schedule

variable {S A : Type} (next : S → A → Option S)

def run (s : S) : List A → Option S
  | [] => some s
  | a :: sched => (next s a).bind fun s' => run s' sched

/-- No choice leads anywhere. -/
def Stuck (s : S) : Prop := ∀ a, next s a = none

variable {next}

theorem run_append {s s' : S} {sched : List A} (h : run next s sched = some s') (sched' : List A) :
    run next s (sched ++ sched') = run next s' sched' := by
  induction sched generalizing s with
  | nil =>
    cases h
    rfl
  | cons a sched ih =>
    obtain ⟨t, hstep, hrest⟩ := Option.bind_eq_some_iff.mp h
    rw [List.cons_append, run, hstep]
    exact ih hrest

theorem run_invariant {I : S → Prop}
    (hstep : ∀ {s a s'}, I s → next s a = some s' → I s') {s s' : S} {sched : List A} (hs : I s)
    (h : run next s sched = some s') : I s' := by
  induction sched generalizing s with
  | nil =>
    cases h
    exact hs
  | cons a sched ih =>
    obtain ⟨t, ht, hrest⟩ := Option.bind_eq_some_iff.mp h
    exact ih (hstep hs ht) hrest

theorem length_le_of_run {I : S → Prop} (μ : S → Nat)
    (hstep : ∀ {s a s'}, I s → next s a = some s' → I s')
    (hμ : ∀ {s a s'}, I s → next s a = some s' → μ s' < μ s) {s s' : S} {sched : List A} (hs : I s)
    (h : run next s sched = some s') : sched.length ≤ μ s := by
  induction sched generalizing s with
  | nil => exact Nat.zero_le _
  | cons a sched ih =>
    obtain ⟨t, ht, hrest⟩ := Option.bind_eq_some_iff.mp h
    have hlen := ih (hstep hs ht) hrest
    have hdec := hμ hs ht
    rw [List.length_cons]
    omega

/-- A system that goes on only as long as there is input: what is not input lowers the measure, and
input raises it by at most `K`. -/
theorem countP_le_of_run {I : S → Prop} (μ : S → Nat) (input : A → Bool) (K : Nat)
    (hstep : ∀ {s a s'}, I s → next s a = some s' → I s')
    (hμ : ∀ {s a s'}, I s → next s a = some s' → input a = false → μ s' < μ s)
    (hinput : ∀ {s a s'}, I s → next s a = some s' → input a = true → μ s' ≤ μ s + K) {s s' : S}
    {sched : List A} (hs : I s) (h : run next s sched = some s') :
    sched.countP (fun a => !input a) ≤ μ s + K * sched.countP input := by
  induction sched generalizing s with
  | nil => exact Nat.zero_le _
  | cons a sched ih =>
    obtain ⟨t, ht, hrest⟩ := Option.bind_eq_some_iff.mp h
    have hcount := ih (hstep hs ht) hrest
    rw [List.countP_cons, List.countP_cons]
    cases ha : input a with
    | false =>
      have hdec := hμ hs ht ha
      simp only [Bool.not_false, Bool.false_eq_true, if_true, if_false, Nat.add_zero]
      omega
    | true =>
      have hinc := hinput hs ht ha
      simp only [Bool.not_true, Bool.false_eq_true, if_true, if_false, Nat.mul_add]
      omega

/-- A system whose schedules are bounded reaches a state it cannot leave. -/
theorem exists_stuck {s : S} {N : Nat}
    (hN : ∀ sched s', run next s sched = some s' → sched.length ≤ N) :
    ∃ sched s', run next s sched = some s' ∧ Stuck next s' := by
  -- The schedule is extended as long as some choice leads on, which is at most `N` times.
  suffices hgo : ∀ k sched s', run next s sched = some s' → N - sched.length = k →
      ∃ sched s', run next s sched = some s' ∧ Stuck next s' from hgo _ [] s rfl rfl
  intro k
  induction k with
  | zero =>
    intro sched s' hrun hk
    refine ⟨sched, s', hrun, fun a => ?_⟩
    cases hstep : next s' a with
    | none => rfl
    | some t =>
      have hlong : run next s (sched ++ [a]) = some t := by
        rw [run_append hrun, run, hstep]
        rfl
      have hlen := hN _ _ hlong
      rw [List.length_append, List.length_singleton] at hlen
      omega
  | succ k ih =>
    intro sched s' hrun hk
    by_cases hstuck : Stuck next s'
    · exact ⟨sched, s', hrun, hstuck⟩
    · obtain ⟨a, ha⟩ := not_forall.mp hstuck
      obtain ⟨t, hstep⟩ := Option.ne_none_iff_exists'.mp ha
      have hlong : run next s (sched ++ [a]) = some t := by
        rw [run_append hrun, run, hstep]
        rfl
      refine ih (sched ++ [a]) t hlong ?_
      rw [List.length_append, List.length_singleton]
      omega

/-! ## One process of many -/

/-- Replacing one element of a list. -/
theorem exists_set_eq {α : Type} {l : List α} {i : Nat} {x : α} (h : l[i]? = some x) :
    ∃ pre post, l = pre ++ x :: post ∧ ∀ y, l.set i y = pre ++ y :: post := by
  induction l generalizing i with
  | nil => cases h
  | cons a l ih =>
    cases i with
    | zero =>
      cases h
      exact ⟨[], l, rfl, fun _ => rfl⟩
    | succ i =>
      obtain ⟨pre, post, heq, hset⟩ := ih (i := i) (by simpa using h)
      exact ⟨a :: pre, post, by rw [heq]; rfl, fun y => by rw [List.set_cons_succ, hset]; rfl⟩

/-- Removing one element of a list. -/
theorem exists_eraseIdx_eq {α : Type} {l : List α} {i : Nat} {x : α} (h : l[i]? = some x) :
    ∃ pre post, l = pre ++ x :: post ∧ l.eraseIdx i = pre ++ post := by
  induction l generalizing i with
  | nil => cases h
  | cons a l ih =>
    cases i with
    | zero =>
      cases h
      exact ⟨[], l, rfl, rfl⟩
    | succ i =>
      obtain ⟨pre, post, heq, herase⟩ := ih (i := i) (by simpa using h)
      exact ⟨a :: pre, post, by rw [heq]; rfl, by rw [List.eraseIdx_cons_succ, herase]; rfl⟩

end Schedule
