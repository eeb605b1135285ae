import Spectrum.Net.Setup

/-!
# The bridge is a lock

Interfaces and devices are found by names made from the pid, so nothing in the code says which
lifetime a bridge `br<pid>` belongs to. What keeps lifetimes apart is that **the bridge is a
lock**: `net_setup` creates it first and does nothing else if that fails; every later request of
a `net_setup` or of an exit listener is made while it exists; and it is deleted last. As
creating a bridge fails if the name is taken, nobody else gets past the first step meanwhile.

`lockSpec` is that discipline as a typestate, and this file shows that each program obeys it by
itself. What follows for processes that run at the same time is in `Net/Isolation.lean`.
-/

set_option autoImplicit false

namespace Spectrum.Net

open Interact

/-! ## The discipline -/

/-- Where a process stands with respect to the bridge of its pid. -/
inductive Phase
  /-- It has not tried to create it. -/
  | fresh
  /-- It has created it, or was forked by the process that has. -/
  | locked
  /-- It failed to create it, has deleted it, or has left it to the exit listener. -/
  | done
  deriving Repr, DecidableEq

/-- Only `locked` processes change the network, and only by requests that leave the bridge
alone, until one deletes it. -/
def lockSpec (br : IfName) : Spec Sys Phase where
  pre x c :=
    match c with
    | .brAddBr name => x = .fresh ∧ name = br
    | .brDelBr name => x = .locked ∧ name = br
    | .setName name newname => x = .locked ∧ name ≠ br ∧ newname ≠ br
    | .tunSetIff _ _ excl => x = .locked ∧ excl = true
    | .setFlags _ _ _ | .brAddIf _ _ | .brDelIf _ _ | .chAddNet _ _ _ _ | .chRemoveDevice _ _
    | .fork => x = .locked
    | _ => True
  post x c :=
    match c with
    | .brAddBr _ => fun r y => y = if r = -1 then .done else .locked
    | .brDelBr _ => fun r y => y = if r = -1 then .locked else .done
    | .fork => fun r y => y = if r = .parent then .done else .locked
    | _ => fun _ y => y = x

variable {α β : Type} {br : IfName}

/-- A program that leaves the phase as it is. -/
def Stays (br : IfName) (x : Phase) (p : Prog Sys α) : Prop :=
  p.wp (lockSpec br) (fun _ y => y = x) x

theorem Stays.bind {x : Phase} {p : Prog Sys α} {f : α → Prog Sys β} {Q : β → Phase → Prop}
    (hp : Stays br x p) (hf : ∀ a, (f a).wp (lockSpec br) Q x) :
    (p.bind f).wp (lockSpec br) Q x :=
  Prog.wp_seq hp fun a _ hy => hy ▸ hf a

/-- One call that leaves the phase as it is. -/
theorem wp_stay {x : Phase} {c : Sys β} {k : β → Prog Sys α} {Q : α → Phase → Prop}
    (hpre : (lockSpec br).pre x c) (hpost : ∀ b y, (lockSpec br).post x c b y → y = x)
    (hk : ∀ b, (k b).wp (lockSpec br) Q x) : (Prog.call c k).wp (lockSpec br) Q x :=
  ⟨hpre, fun b y hy => hpost b y hy ▸ hk b⟩

/-! ## The code obeys it -/

theorem wp_withSocket_lock {x : Phase} {site : Site} {request : Prog Sys Int}
    {Q : Int → Phase → Prop} (hbad : Q (-1) x)
    (hreq : request.wp (lockSpec br) Q x) :
    (withSocket site request).wp (lockSpec br) Q x := by
  unfold withSocket
  simp only [Prog.bind_eq, Prog.lift_bind, Prog.pure_eq]
  refine wp_stay trivial (fun _ _ h => h) fun fd => ?_
  split
  · exact hbad
  · exact Prog.wp_seq hreq fun r y hy => wp_stay trivial (fun _ _ h => h) fun _ => hy

theorem stays_ifChangeFlags (site : Site) (change : BitVec 16 → BitVec 16) (name : IfName) :
    Stays br .locked (ifChangeFlags site change name) := by
  refine wp_withSocket_lock rfl ?_
  simp only [Prog.bind_eq, Prog.lift_bind, Prog.pure_eq]
  refine wp_stay trivial (fun _ _ h => h) fun flags => ?_
  cases flags with
  | none => rfl
  | some flags => exact wp_stay rfl (fun _ _ h => h) fun _ => rfl

theorem stays_failWith {x : Phase} (e : Errno) : Stays br x (failWith e) :=
  wp_stay trivial (fun _ _ h => h) fun _ => rfl

theorem stays_ifRename {name newname : IfName} (h : ifrName name ≠ br) (h' : newname ≠ br) :
    Stays br .locked (ifRename name newname) := by
  unfold ifRename
  split
  · exact stays_failWith _
  · split
    · exact stays_failWith _
    · exact wp_withSocket_lock rfl (wp_stay ⟨rfl, h, h'⟩ (fun _ _ h => h) fun _ => rfl)

theorem wp_bridgeAdd_lock {name : IfName} (hbr : name = br) :
    (bridgeAdd name).wp (lockSpec br)
      (fun r y => y = .locked ∨ r = -1) .fresh := by
  have hfail : ∀ e, (failWith e).wp (lockSpec br) (fun r y => y = .locked ∨ r = -1) .fresh :=
    fun e => wp_stay trivial (fun _ _ h => h) fun _ => Or.inr rfl
  unfold bridgeAdd
  split
  · exact hfail _
  · split
    · exact hfail _
    · refine wp_withSocket_lock (Or.inr rfl) ⟨⟨rfl, hbr⟩, fun r y hy => ?_⟩
      by_cases hr : r = -1
      · exact Or.inr hr
      · exact Or.inl (hy.trans (if_neg hr))

theorem stays_bridgeChangeIf {site : Site} {request : IfName → Nat → Sys Int}
    {brname ifname : IfName} (hpre : ∀ x, (lockSpec br).pre .locked (request (ifrName brname) x))
    (hpost : ∀ x r y, (lockSpec br).post .locked (request (ifrName brname) x) r y → y = .locked) :
    Stays br .locked (bridgeChangeIf site request brname ifname) := by
  unfold bridgeChangeIf
  simp only [Stays, Prog.bind_eq, Prog.lift_bind, Prog.pure_eq]
  refine wp_stay trivial (fun _ _ h => h) fun index => ?_
  split
  · rfl
  · exact wp_withSocket_lock rfl (wp_stay (hpre _) (hpost _) fun _ => rfl)

theorem stays_bridgeAddIf (brname ifname : IfName) :
    Stays br .locked (bridgeAddIf brname ifname) :=
  stays_bridgeChangeIf (fun _ => rfl) fun _ _ _ h => h

theorem stays_bridgeRemoveIf (brname ifname : IfName) :
    Stays br .locked (bridgeRemoveIf brname ifname) :=
  stays_bridgeChangeIf (fun _ => rfl) fun _ _ _ h => h

theorem stays_tapOpen (name : IfName) : Stays br .locked (tapOpen name true) := by
  unfold tapOpen
  split
  · exact stays_failWith _
  · simp only [Stays, Prog.bind_eq, Prog.lift_bind, Prog.pure_eq]
    refine wp_stay trivial (fun _ _ h => h) fun fd => ?_
    split
    · rfl
    · refine wp_stay ⟨rfl, rfl⟩ (fun _ _ h => h) fun r => ?_
      split
      · exact wp_stay trivial (fun _ _ h => h) fun _ => rfl
      · rfl

theorem stays_setupTap (bridge : IfName) (pfx : List Char) (pid : Nat) :
    Stays br .locked (setupTap bridge pfx pid) := by
  have hclose : ∀ (fd : Int) (a : Int × IfName),
      (Prog.call (.close fd) fun _ => .ret a).wp (lockSpec br) (fun _ y => y = .locked) .locked :=
    fun fd a => wp_stay trivial (fun _ _ h => h) fun _ => rfl
  unfold setupTap
  simp only [Stays, Prog.bind_eq, Prog.lift_bind, Prog.pure_eq]
  refine (stays_tapOpen _).bind fun fd => ?_
  split
  · rfl
  · refine (stays_bridgeAddIf _ _).bind fun r => ?_
    split
    · exact hclose _ _
    · refine (stays_ifChangeFlags _ _ _).bind fun r => ?_
      split
      · exact hclose _ _
      · rfl

theorem stays_routerNetSetup (bridge : IfName) (vm : VmDir) (mac : Mac) (pid : Nat) :
    Stays br .locked (routerNetSetup bridge vm mac pid) := by
  unfold routerNetSetup
  simp only [Stays, Prog.bind_eq, Prog.lift_bind, Prog.pure_eq]
  refine (stays_setupTap _ _ _).bind fun a => ?_
  split
  · rfl
  · refine wp_stay rfl (fun _ _ h => h) fun e => wp_stay trivial (fun _ _ h => h) fun _ => ?_
    cases e with
    | none => rfl
    | some e => exact wp_stay trivial (fun _ _ h => h) fun _ => rfl

theorem stays_routerNetCleanup (pid : Nat) (vm : VmDir) (id : IfName) :
    Stays (bridgeName pid) .locked (routerNetCleanup pid vm id) := by
  unfold routerNetCleanup
  simp only [Stays, Prog.bind_eq, Prog.lift_bind, Prog.pure_eq]
  refine wp_stay rfl (fun _ _ h => h) fun e => ?_
  cases e with
  | some e => exact stays_failWith e
  | none =>
    refine (stays_bridgeRemoveIf _ _).bind fun _ => (stays_ifChangeFlags _ _ _).bind fun r => ?_
    split
    · rfl
    · refine stays_ifRename ?_ (dead_ne_bridge pid pid)
      rw [ifrName_routerName]
      exact router_ne_bridge pid pid

/-- Whatever follows `bridge_delete` has to do without the lock. -/
theorem wp_bridgeDelete_lock {name : IfName} (hbr : ifrName name = br) {Q : Int → Phase → Prop}
    (hQ : ∀ r y, Q r y) : (bridgeDelete name).wp (lockSpec br) Q .locked := by
  refine (stays_ifChangeFlags _ _ _).bind fun _ => wp_withSocket_lock (hQ _ _) ?_
  exact ⟨⟨rfl, hbr⟩, fun r y _ => hQ r y⟩

/-- Leaving needs no lock, and nothing is owed for it. -/
theorem wp_exitWith_lock {Q : α → Phase → Prop} (status : Nat) (x : Phase) :
    (exitWith status : Prog Sys α).wp (lockSpec br) Q x :=
  ⟨trivial, fun b => b.elim⟩

theorem wp_exitListenerMain_lock {Q : α → Phase → Prop} (fd pid : Nat) (vm : VmDir) (id : IfName) :
    (exitListenerMain fd pid vm id : Prog Sys α).wp (lockSpec (bridgeName pid)) Q .locked := by
  refine Prog.wp_loop (fun _ x => x = .locked) rfl fun _ x hx => ⟨trivial, fun r y hy => ?_⟩
  obtain rfl : y = .locked := hy.trans hx
  refine ⟨fun _ _ => rfl, fun _ => ?_⟩
  cases r with
  | some e => exact wp_exitWith_lock _ _
  | none =>
    refine (stays_routerNetCleanup pid vm id).bind fun r => ?_
    exact Prog.wp_seq (wp_bridgeDelete_lock (ifrName_bridgeName pid) fun _ _ => trivial)
      fun _ y _ => wp_exitWith_lock _ _

theorem wp_exitListenerSetup_lock (pid : Nat) (vm : VmDir) (id : IfName) :
    (exitListenerSetup pid vm id).wp (lockSpec (bridgeName pid))
      (fun r y => r = -1 → y = .locked) .locked := by
  unfold exitListenerSetup
  simp only [Prog.bind_eq, Prog.lift_bind, Prog.pure_eq]
  refine wp_stay trivial (fun _ _ h => h) fun ends => ?_
  cases ends with
  | none => exact fun _ => rfl
  | some ends =>
    refine ⟨rfl, fun r y hy => ?_⟩
    cases r with
    | error =>
      obtain rfl : y = .locked := hy
      exact wp_stay trivial (fun _ _ h => h) fun _ => wp_stay trivial (fun _ _ h => h)
        fun _ _ => rfl
    | child =>
      obtain rfl : y = .locked := hy
      exact wp_stay trivial (fun _ _ h => h) fun _ => wp_exitListenerMain_lock _ _ _ _
    | parent =>
      exact wp_stay trivial (fun _ _ h => h) fun _ h => absurd h (by decide)

theorem wp_failBridge_lock (pid : Nat) (r : NetConfig) :
    (failBridge pid r).wp (lockSpec (bridgeName pid)) (fun _ _ => True) .locked :=
  Prog.wp_seq (wp_bridgeDelete_lock (ifrName_bridgeName pid) fun _ _ => trivial)
    fun _ _ _ => wp_stay trivial (fun _ _ h => h) fun _ => trivial

/-- **`net_setup` and the listener it forks obey the discipline.** -/
theorem wp_netSetup_lock (pid : Nat) (vm : VmDir) :
    (netSetup pid vm).wp (lockSpec (bridgeName pid)) (fun _ _ => True) .fresh := by
  unfold netSetup
  simp only [Prog.bind_eq, Prog.pure_eq]
  refine Prog.wp_seq (wp_bridgeAdd_lock rfl) fun r y hy => ?_
  split
  · trivial
  · obtain rfl := hy.resolve_right (by assumption)
    refine (stays_ifChangeFlags _ _ _).bind fun r => ?_
    split
    · exact wp_failBridge_lock _ _
    · refine (stays_setupTap _ _ _).bind fun client => ?_
      split
      · exact wp_failBridge_lock _ _
      · refine (stays_routerNetSetup _ _ _ _).bind fun router => ?_
        split
        · exact wp_failBridge_lock _ _
        · refine Prog.wp_seq (wp_exitListenerSetup_lock _ _ _) fun r y hy => ?_
          split
          · obtain rfl := hy (by assumption)
            exact wp_failBridge_lock _ _
          · trivial

end Spectrum.Net
