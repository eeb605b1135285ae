import Spectrum.Interact.Numeral
import Spectrum.Portal.Documents

/-!
# `listening_vsock_path`

Cloud Hypervisor hands a guest's connections to port `n` over to a socket whose path is that of its
VSOCK socket with `_n` at the end. The host program listens on such a socket, and finds the one for
connections in the other direction by going back over the digits of its own address to the
underscore.

**The scan inverts the naming**: it finds the path for every address that has been made this way,
and fails on every other one. Indexing and the arithmetic on the index are checked as in the source,
so that a result which is not a panic also says that the index has stayed inside the address.
-/

set_option autoImplicit false

namespace Spectrum.Portal

open Bytes Numeral

/-! ## The code -/

/-- The address of a listener, as `getsockname` and `as_pathname` have it. -/
inductive LocalAddr
  | failed (e : Errno)
  | notPathname
  | pathname (path : Path)

def underscore : UInt8 := 95

/-- Subtraction of unsigned numbers, which must not go below zero. -/
def checkedSub (a b : Nat) : Option Nat := if b ≤ a then some (a - b) else none

theorem checkedSub_eq_some {a b c : Nat} (h : checkedSub a b = some c) : b ≤ a ∧ c = a - b := by
  unfold checkedSub at h
  split at h
  · cases h
    exact ⟨by assumption, rfl⟩
  · cases h

section

variable (texts : Texts)

/-- The loop, from index `i` on: the index at which it stops. -/
def scanBack (listeningAddr : List UInt8) (i : Nat) : Except Fault Nat :=
  -- The byte is looked at before `i` is compared with zero.
  match listeningAddr[i]? with
  | none => .error (.panic "index out of bounds")
  | some b =>
    if i ≠ 0 ∧ isDigit b then
      match _hi : checkedSub i 1 with
      | none => .error (.panic "attempt to subtract with overflow")
      | some i => scanBack listeningAddr i
    else if i ≠ 0 ∧ b = underscore then
      .ok i
    else
      .error (.err s!"can't infer listening VSOCK path from {texts.debug listeningAddr}")
termination_by i
decreasing_by
  have hi := checkedSub_eq_some _hi
  omega

def listeningVsockPath (fd : Nat) (addr : LocalAddr) : Except Fault Path :=
  match addr with
  | .failed e => .error (.err s!"getsockname(fd={fd}): {texts.strerror e}")
  | .notPathname => .error (.err s!"fd {fd} is not listening on a path")
  | .pathname listeningAddr =>
    match checkedSub listeningAddr.length 1 with
    | none => .error (.panic "attempt to subtract with overflow")
    | some i => (scanBack texts listeningAddr i).map listeningAddr.take

end

/-! ## Per-port sockets -/

/-- `a` is the path `p` with an underscore and digits behind it. -/
def PerPort (p a : Path) : Prop :=
  p ≠ [] ∧ ∃ d, a = p ++ underscore :: d ∧ ∀ b ∈ d, isDigit b

/-- The path Cloud Hypervisor uses for connections to a port. -/
def perPort (p : Path) (port : Nat) : Path := p ++ underscore :: decimal port

theorem perPort_perPort {p : Path} (hp : p ≠ []) (port : Nat) : PerPort p (perPort p port) :=
  ⟨hp, decimal port, rfl, fun _ hb => isDigit_of_mem_decimal hb⟩

theorem PerPort.underscore {p a : Path} (h : PerPort p a) : a[p.length]? = some underscore := by
  obtain ⟨-, d, rfl, -⟩ := h
  simp

theorem PerPort.isDigit {p a : Path} (h : PerPort p a) {i : Nat} {b : UInt8} (hi : p.length < i)
    (hb : a[i]? = some b) : isDigit b := by
  obtain ⟨-, d, rfl, hd⟩ := h
  obtain ⟨k, rfl⟩ := Nat.exists_eq_add_of_lt hi
  rw [List.getElem?_append_right (by omega), show p.length + k + 1 - p.length = k + 1 by omega,
    List.getElem?_cons_succ] at hb
  exact hd b (List.mem_of_getElem? hb)

theorem PerPort.not_lt {p q a : Path} (hp : PerPort p a) (hq : PerPort q a) :
    ¬ p.length < q.length := by
  intro hlt
  exact absurd (hp.isDigit hlt hq.underscore) (by decide)

/-- **A path is the per-port path of one path only.** -/
theorem PerPort.unique {p q a : Path} (hp : PerPort p a) (hq : PerPort q a) : p = q := by
  have hlen : p.length = q.length := by
    have := hp.not_lt hq
    have := hq.not_lt hp
    omega
  obtain ⟨-, d, rfl, -⟩ := hp
  obtain ⟨-, d', heq, -⟩ := hq
  exact (List.append_inj heq hlen).1

/-- The scan, when everything behind `i` is a digit. -/
theorem scanBack_cases (texts : Texts) {a : Path} {i : Nat} (hi : i < a.length)
    (hdigits : ∀ k b, i < k → a[k]? = some b → isDigit b) :
    (∃ j, scanBack texts a i = .ok j ∧ PerPort (a.take j) a) ∨
    (∃ e, scanBack texts a i = .error (.err e)) ∧ ∀ p, ¬ PerPort p a := by
  induction i using Nat.strongRecOn with
  | ind i ih =>
    have hget : a[i]? = some a[i] := List.getElem?_eq_getElem hi
    rw [scanBack, hget]
    dsimp only
    by_cases hdigit : i ≠ 0 ∧ isDigit a[i]
    · rw [if_pos hdigit]
      have hsub : checkedSub i 1 = some (i - 1) := if_pos (by omega)
      split
      · rename_i hnone
        cases hsub.symm.trans hnone
      · rename_i i' hsome
        obtain rfl := Option.some.inj (hsub.symm.trans hsome)
        apply ih (i - 1) (by omega) (by omega)
        intro k b hk hb
        by_cases hki : k = i
        · subst hki
          cases hget.symm.trans hb
          exact hdigit.2
        · exact hdigits k b (by omega) hb
    · rw [if_neg hdigit]
      by_cases hunder : i ≠ 0 ∧ a[i] = underscore
      · rw [if_pos hunder]
        refine Or.inl ⟨i, rfl, ?_, a.drop (i + 1), ?_, ?_⟩
        · intro hnil
          have hlen := congrArg List.length hnil
          simp only [List.length_take, List.length_nil] at hlen
          omega
        · rw [← hunder.2, List.getElem_cons_drop, List.take_append_drop]
        · intro b hb
          obtain ⟨k, hk⟩ := List.mem_iff_getElem?.mp hb
          rw [List.getElem?_drop] at hk
          exact hdigits _ b (by omega) hk
      · rw [if_neg hunder]
        refine Or.inr ⟨⟨_, rfl⟩, fun p hp => ?_⟩
        -- The underscore would have to stand before, at, or behind the index.
        have hpos : p.length ≠ 0 := fun h => hp.1 (List.length_eq_zero_iff.mp h)
        rcases Nat.lt_trichotomy p.length i with hlt | heq | hgt
        · exact hdigit ⟨by omega, hp.isDigit hlt hget⟩
        · have hu := hp.underscore
          rw [heq, hget] at hu
          exact hunder ⟨by omega, Option.some.inj hu⟩
        · exact absurd (hdigits _ _ hgt hp.underscore) (by decide)

/-- **What `listening_vsock_path` does with the path of a listener.** -/
theorem listeningVsockPath_inverts (texts : Texts) (fd : Nat) {a : Path} (ha : a ≠ []) :
    let r := listeningVsockPath texts fd (.pathname a)
    (∀ reason, r ≠ .error (.panic reason)) ∧
    (∀ p, r = .ok p ↔ PerPort p a) ∧
    (∀ p q, PerPort p a → PerPort q a → p = q) ∧
    ((∀ p, ¬ PerPort p a) → ∃ e, r = .error (.err e)) ∧
    (∀ p port, p ≠ [] → a = perPort p port → r = .ok p) := by
  intro r
  have hpos : 0 < a.length := List.length_pos_iff.mpr ha
  have hsub : checkedSub a.length 1 = some (a.length - 1) := if_pos (by omega)
  have hr : r = (scanBack texts a (a.length - 1)).map a.take := by
    simp only [r, listeningVsockPath, hsub]
  have hlast : ∀ k b, a.length - 1 < k → a[k]? = some b → isDigit b := by
    intro k b hk hb
    rw [List.getElem?_eq_none (by omega)] at hb
    cases hb
  have huniq : ∀ p q, PerPort p a → PerPort q a → p = q := fun p q hp hq => hp.unique hq
  rcases scanBack_cases texts (i := a.length - 1) (by omega) hlast with
    ⟨j, hscan, hport⟩ | ⟨⟨e, hscan⟩, hnone⟩
  · have hok : r = .ok (a.take j) := by rw [hr, hscan]; rfl
    have hiff : ∀ p, r = .ok p ↔ PerPort p a := by
      intro p
      rw [hok, Except.ok.injEq]
      exact ⟨fun h => h ▸ hport, fun h => hport.unique h⟩
    refine ⟨?_, hiff, huniq, fun h => absurd hport (h _), ?_⟩
    · intro reason h
      cases hok.symm.trans h
    · intro p port hp heq
      rw [hiff, heq]
      exact perPort_perPort hp port
  · have herr : r = .error (.err e) := by rw [hr, hscan]; rfl
    refine ⟨?_, ?_, huniq, fun _ => ⟨e, herr⟩, ?_⟩
    · intro reason h
      cases herr.symm.trans h
    · intro p
      refine ⟨fun h => ?_, fun h => absurd h (hnone p)⟩
      cases herr.symm.trans h
    · intro p port hp heq
      exact absurd (heq ▸ perPort_perPort hp port) (hnone p)

/-- A path with underscores and digits of its own, and port 219. -/
theorem listeningVsockPath_inverts_nested :
    let texts : Texts := ⟨fun _ => "", fun _ => ""⟩
    let p := ascii ['/', 'v', '_', '1', '/', 'v', 's', 'o', 'c', 'k', '_', '2']
    listeningVsockPath texts 0 (.pathname (perPort p 219)) = .ok p := by
  intro texts p
  exact (listeningVsockPath_inverts texts 0 (by decide)).2.2.2.2 p 219 (by decide) rfl

end Spectrum.Portal
