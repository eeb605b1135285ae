import Mathlib.Algebra.GroupWithZero.Nat
import Mathlib.Data.Finite.Prod
import Mathlib.Data.Fintype.Card
import Mathlib.Logic.Relation

/-!
# Dependencies

A relation `dep w p`, "`w` depends on `p`", and a trace of things that have been done. The trace
respects the dependencies if whatever stands in it comes after everything it depends on directly.

**What is done in order is done in the order of the transitive dependencies**, so nothing on a
cycle, and nothing that depends on a cycle, is ever done. When the part of the graph below `v`
is finite and has no cycle, dependencies can be followed by recursion (`acc_of_acyclic`), and
`weight` adds up a cost over the tree of that recursion.
-/

set_option autoImplicit false

namespace Depend

open Relation

variable {V : Type}

section Trace

variable (dep : V → V → Prop)

/-- Every entry of the trace comes after all it depends on. -/
def Respects (trace : List V) : Prop :=
  ∀ before w after, trace = before ++ w :: after → ∀ p, dep w p → p ∈ before

/-- Below `v` there is no cycle. -/
def Acyclic (v : V) : Prop := ∀ u, ReflTransGen dep v u → ¬ TransGen dep u u

variable {dep}

theorem respects_nil : Respects dep [] := by
  intro before w after h
  simp at h

/-- One more entry is in order if all it depends on has been done. -/
theorem Respects.snoc {trace : List V} (h : Respects dep trace) {v : V}
    (hv : ∀ p, dep v p → p ∈ trace) : Respects dep (trace ++ [v]) := by
  intro before w after heq p hp
  rcases List.append_eq_append_iff.mp heq with ⟨mid, hbefore, hmid⟩ | ⟨mid, htrace, hmid⟩
  · -- `w` is behind the old trace, so it is the new entry
    cases mid with
    | nil =>
      cases hmid
      rw [hbefore, List.append_nil]
      exact hv p hp
    | cons x mid =>
      have := congrArg List.length hmid
      simp at this
  · cases mid with
    | nil =>
      cases hmid
      rw [List.append_nil] at htrace
      rw [← htrace]
      exact hv p hp
    | cons x mid =>
      cases hmid
      exact h before w mid htrace p hp

theorem Respects.transGen {trace : List V} (h : Respects dep trace) {before after : List V} {w : V}
    (heq : trace = before ++ w :: after) {u : V} (hu : TransGen dep w u) : u ∈ before := by
  induction hu using TransGen.head_induction_on generalizing before after with
  | single hp => exact h before _ after heq _ hp
  | @head w p hp _ ih =>
    obtain ⟨before', after', hsplit⟩ := List.append_of_mem (h before _ after heq _ hp)
    have hearlier : trace = before' ++ p :: (after' ++ w :: after) := by
      rw [heq, hsplit, List.append_assoc, List.cons_append]
    have hmem : u ∈ before' := ih hearlier
    rw [hsplit]
    exact List.mem_append_left _ hmem

/-- **Nothing on a cycle is ever done.** -/
theorem Respects.not_mem_of_cycle {trace : List V} (h : Respects dep trace) {u : V}
    (hu : TransGen dep u u) : u ∉ trace := by
  intro hmem
  obtain ⟨before, after, heq, hnot⟩ := List.eq_append_cons_of_mem hmem
  exact hnot (h.transGen heq hu)

/-- What has been done has no cycle below it. -/
theorem Respects.acyclic {trace : List V} (h : Respects dep trace) {v : V} (hv : v ∈ trace) :
    Acyclic dep v := by
  intro u hvu hcycle
  refine h.not_mem_of_cycle hcycle ?_
  cases (reflTransGen_iff_eq_or_transGen.mp hvu) with
  | inl e => rwa [e]
  | inr ht =>
    obtain ⟨before, after, heq⟩ := List.append_of_mem hv
    rw [heq]
    exact List.mem_append_left _ (h.transGen heq ht)

end Trace

/-! ## Recursion along dependencies -/

theorem acc_of_acyclic [Finite V] {dep : V → V → Prop} {v : V} (h : Acyclic dep v) :
    Acc (fun p w => dep w p) v := by
  -- On what can be reached from `v`, being reachable is a strict order of a finite type.
  let Below := { u : V // ReflTransGen dep v u }
  let lt : Below → Below → Prop := fun a b => TransGen dep b.1 a.1
  have htrans : IsTrans Below lt := ⟨fun a b c hab hbc => hbc.trans hab⟩
  have hirrefl : Std.Irrefl lt := ⟨fun a ha => h a.1 a.2 ha⟩
  have hwf : WellFounded lt := Finite.wellFounded_of_trans_of_irrefl lt
  suffices hacc : ∀ a : Below, Acc (fun p w => dep w p) a.1 from hacc ⟨v, .refl⟩
  intro a
  induction a using hwf.induction with
  | _ a ih => exact ⟨_, fun p hp => ih ⟨p, a.2.tail hp⟩ (.single hp)⟩

section Weight

variable (deps : V → List V) (base : Nat)

/-- `base` for `v`, and for each thing it depends on one more than that thing's own weight. -/
noncomputable def weightAcc {v : V} (h : Acc (fun p w => p ∈ deps w) v) : Nat :=
  h.rec fun w _ ih => base + ((deps w).attach.map fun p => 1 + ih p.1 p.2).sum

open Classical in
noncomputable def weight (v : V) : Nat :=
  if h : Acc (fun p w => p ∈ deps w) v then weightAcc deps base h else 0

theorem weight_eq {v : V} (h : Acc (fun p w => p ∈ deps w) v) :
    weight deps base v = base + ((deps v).map fun p => 1 + weight deps base p).sum := by
  rw [weight, dif_pos h]
  cases h with
  | intro _ h =>
    show base + ((deps v).attach.map fun p => 1 + weightAcc deps base (h p.1 p.2)).sum = _
    rw [← List.attach_map_val (l := deps v) (f := fun p => 1 + weight deps base p)]
    refine congrArg (fun l : List Nat => base + l.sum) (List.map_congr_left fun p _ => ?_)
    rw [weight, dif_pos (h p.1 p.2)]

end Weight

end Depend
