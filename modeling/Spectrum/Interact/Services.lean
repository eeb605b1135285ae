import Mathlib.Data.List.Count
import Mathlib.Logic.Relation

/-!
# Services that depend on each other

A service manager is told which services are wanted. It starts each of them once everything it
depends on is up, any number of them side by side, and what fails it does not try again. It has
nothing left to do when no start is under way and nothing can be started.

**What is wanted is up by then, or depends on something that has failed** (`Status.up_of_idle`). For
this the dependencies must not go round in circles, which is shown with a rank.
-/

set_option autoImplicit false

namespace Services

open Relation

structure Status (V : Type) where
  up : List V
  starting : List V
  failed : List V

variable {V : Type} (deps : V → List V)

/-- What `v` needs, itself included. -/
def Needs (v u : V) : Prop := ReflTransGen (fun v u => u ∈ deps v) v u

/-- `targets` and what they depend on, as far as `n` dependencies away. -/
def closure : Nat → List V → List V
  | 0, targets => targets
  | n + 1, targets => targets ++ closure n (targets.flatMap deps)

namespace Status

variable (st : Status V)

/-- It has been started. -/
def known (v : V) : Prop := v ∈ st.up ∨ v ∈ st.starting ∨ v ∈ st.failed

/-- It can be started. -/
def Ready (v : V) : Prop := ¬ st.known v ∧ ∀ u ∈ deps v, u ∈ st.up

def begin (v : V) : Status V := { st with starting := st.starting ++ [v] }

/-- Something `v` needs has failed. -/
def Lacks (v : V) : Prop := ∃ u ∈ st.failed, Needs deps v u

/-- What has been started had all it depends on. -/
def Sound : Prop := ∀ v, st.known v → ∀ u ∈ deps v, u ∈ st.up

section Decidable

variable [DecidableEq V]

instance (v : V) : Decidable (st.known v) :=
  inferInstanceAs (Decidable (v ∈ st.up ∨ v ∈ st.starting ∨ v ∈ st.failed))

instance (v : V) : Decidable (st.Ready deps v) :=
  inferInstanceAs (Decidable (¬ st.known v ∧ ∀ u ∈ deps v, u ∈ st.up))

/-- The start of `v` has come to an end. -/
def finish (v : V) (ok : Bool) : Status V :=
  if ok then { st with up := st.up ++ [v], starting := st.starting.erase v }
  else { st with failed := st.failed ++ [v], starting := st.starting.erase v }

/-- How much there is to do at most, if `all` are the services there are. -/
def remaining (all : List V) : Nat :=
  2 * all.countP (fun v => ¬ st.known v) + st.starting.length

end Decidable

/-- Nothing comes down, and no failure is forgotten. -/
structure Le (st st' : Status V) : Prop where
  up : ∀ v ∈ st.up, v ∈ st'.up
  failed : ∀ v ∈ st.failed, v ∈ st'.failed

variable {deps} {st} {st' : Status V} {v w : V}

theorem Le.lacks (h : Le st st') (hv : st.Lacks deps v) : st'.Lacks deps v := by
  obtain ⟨u, hu, hneeds⟩ := hv
  exact ⟨u, h.failed u hu, hneeds⟩

theorem begin_le : Le st (st.begin v) := ⟨fun _ h => h, fun _ h => h⟩

theorem known_begin : (st.begin v).known w ↔ st.known w ∨ w = v := by
  simp only [known, begin, List.mem_append, List.mem_singleton]
  tauto

theorem Sound.begin (h : st.Sound deps) (hv : st.Ready deps v) : (st.begin v).Sound deps := by
  intro w hw u hu
  rcases known_begin.mp hw with hold | rfl
  · exact h w hold u hu
  · exact hv.2 u hu

section Finish

variable [DecidableEq V] {ok : Bool}

theorem finish_le : Le st (st.finish v ok) := by
  cases ok
  · exact ⟨fun _ h => h, fun _ h => List.mem_append_left _ h⟩
  · exact ⟨fun _ h => List.mem_append_left _ h, fun _ h => h⟩

theorem up_of_finish (h : w ∈ (st.finish v ok).up) : w ∈ st.up ∨ w = v ∧ ok = true := by
  cases ok with
  | false => exact .inl h
  | true => simpa [finish] using h

theorem known_finish (hv : v ∈ st.starting) : (st.finish v ok).known w ↔ st.known w := by
  by_cases hw : w = v
  · subst hw
    cases ok <;> simp [known, finish, hv]
  · cases ok <;> simp [known, finish, hw, List.mem_erase_of_ne hw]

theorem Sound.finish (h : st.Sound deps) (hv : v ∈ st.starting) :
    (st.finish v ok).Sound deps := by
  intro w hw u hu
  exact finish_le.up u (h w ((known_finish hv).mp hw) u hu)

theorem remaining_finish {all : List V} (hv : v ∈ st.starting) :
    (st.finish v ok).remaining all < st.remaining all := by
  have hcount : all.countP (fun w => ¬ (st.finish v ok).known w) =
      all.countP (fun w => ¬ st.known w) :=
    List.countP_congr fun w _ => by simp [known_finish hv]
  have hlength : (st.finish v ok).starting.length = st.starting.length - 1 := by
    cases ok <;> exact List.length_erase_of_mem hv
  have hpos := List.length_pos_of_mem hv
  rw [remaining, remaining, hcount, hlength]
  omega

theorem remaining_begin {all : List V} (hall : v ∈ all) (hv : ¬ st.known v) :
    (st.begin v).remaining all < st.remaining all := by
  have hcount : all.countP (fun w => ¬ (st.begin v).known w) <
      all.countP (fun w => ¬ st.known w) := by
    simp only [known_begin]
    induction all with
    | nil => cases hall
    | cons w all ih =>
      have hle : all.countP (fun w => ¬ (st.known w ∨ w = v)) ≤
          all.countP (fun w => ¬ st.known w) := by
        refine List.countP_mono_left fun w _ hw => ?_
        simp only [decide_eq_true_eq] at hw ⊢
        exact fun hold => hw (.inl hold)
      rw [List.countP_cons, List.countP_cons]
      by_cases hw : w = v
      · subst hw
        simp only [or_true, not_true_eq_false, hv, not_false_eq_true, decide_true, decide_false,
          Bool.false_eq_true, if_false, if_true]
        omega
      · have hlt := ih ((List.mem_cons.mp hall).resolve_left fun h => hw h.symm)
        simp only [hw, or_false]
        omega
  have hlength : (st.begin v).starting.length = st.starting.length + 1 := by simp [Status.begin]
  rw [remaining, remaining, hlength]
  omega

end Finish

/-- **What is wanted is up when nothing is left to do, or depends on a failure.** -/
theorem up_of_idle {rank : V → Nat} (hrank : ∀ v, ∀ u ∈ deps v, rank u < rank v) {wanted : List V}
    (hclosed : ∀ v ∈ wanted, ∀ u ∈ deps v, u ∈ wanted) (hstarting : st.starting = [])
    (hidle : ∀ v ∈ wanted, ¬ st.Ready deps v) (hv : v ∈ wanted) : v ∈ st.up ∨ st.Lacks deps v := by
  induction hn : rank v using Nat.strongRecOn generalizing v with
  | _ n ih =>
    by_cases hdeps : ∀ u ∈ deps v, u ∈ st.up
    · have hknown : st.known v := by
        by_contra hnot
        exact hidle v hv ⟨hnot, hdeps⟩
      rcases hknown with hup | hstart | hfailed
      · exact .inl hup
      · simp [hstarting] at hstart
      · exact .inr ⟨v, hfailed, .refl⟩
    · simp only [not_forall] at hdeps
      obtain ⟨u, hu, hdown⟩ := hdeps
      have hlow := ih (rank u) (hn ▸ hrank v u hu) (hclosed v hv u hu) rfl
      obtain ⟨w, hw, hneeds⟩ := hlow.resolve_left hdown
      exact .inr ⟨w, hw, .head hu hneeds⟩

end Status

end Services
