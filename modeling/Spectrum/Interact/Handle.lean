import Spectrum.Interact.Prog

/-!
# Code in terms of other calls

`Prog.handle` runs code on a lower level: every call becomes a piece of code there. **What is
proved of the code under a contract of its own carries over** if the pieces keep to that contract
(`wp_handle`), so that code written for one set of calls can be put to work in several places.

The body of a loop is one call on the lower level, too.
-/

set_option autoImplicit false

namespace Interact

namespace Prog

variable {E F : Type → Type} {α S : Type} (body : ∀ {β : Type}, E β → F β)
  (piece : ∀ {β : Type}, E β → Prog F β)

def handle : Prog E α → Prog F α
  | .ret a => .ret a
  | .call c k => (piece c).bind fun b => (k b).handle
  | .loop s c again k => .loop s (fun s => body (c s)) again fun s b => (k s b).handle

variable {body piece}

/-- The contract of the code, and how the lower level keeps to it. -/
theorem wp_handle {R : Spec E S} {R' : Spec F S}
    (hpiece : ∀ {β : Type} {c : E β} {x : S}, R.pre x c →
      (piece c).wp R' (fun b y => R.post x c b y) x)
    (hbody : ∀ {β : Type} {c : E β} {x : S}, R.pre x c →
      R'.pre x (body c) ∧ ∀ b y, R'.post x (body c) b y → R.post x c b y)
    {p : Prog E α} {Q : α → S → Prop} {x : S} (h : p.wp R Q x) :
    (p.handle body piece).wp R' Q x := by
  induction p generalizing x with
  | ret a => exact h
  | call c k ih => exact wp_seq (hpiece h.1) fun b y hb => ih b (h.2 b y hb)
  | loop s c again k ih =>
    obtain ⟨I, h0, hI⟩ := wp_loop_iff.mp h
    refine wp_loop I h0 ?_
    intro s x hs
    obtain ⟨hpre, hpost⟩ := hI s x hs
    refine ⟨(hbody hpre).1, ?_⟩
    intro b y hb
    obtain ⟨hagain, hleave⟩ := hpost b y ((hbody hpre).2 b y hb)
    exact ⟨hagain, fun hn => ih s b (hleave hn)⟩

end Prog

end Interact
