import Spectrum.Net.Lifetime
import Spectrum.Watch.Phases

/-!
# The exit listener and the VM

`exit_listener_setup` makes a pipe. `start-vmm` keeps the read end, which nothing is ever read
from; the exit listener has the write end and waits until nobody is left who could read. That is how
it learns that the VM is gone.

The code makes the calls that the phases of its processes allow. **So the listener does not begin to
clean up as long as the VM process is there**; and when that process and all that was forked after
`net_setup` have ended, nobody holds the read end but a listener that has yet to close its own
copy, so its `poll` returns.
-/

set_option autoImplicit false

namespace Spectrum.Watch

open Interact

/-! ## The code keeps to the contract -/

section Code

variable {α : Type} {x : Phase}

/-- A free process may go on as a program that is not modelled. -/
theorem wp_foreign {Q : α → Phase → Prop} (hfree : x.Free) : foreign.wp watchSpec Q x := by
  refine Prog.wp_loop (fun _ y => y.Free) hfree ?_
  intro _ y hy
  refine ⟨hy, ?_⟩
  intro _ z hz
  refine ⟨fun _ _ => ?_, fun hnone => by cases hnone⟩
  obtain rfl | rfl := hz
  · exact hy
  · trivial

/-- A program is started, and then it is as before. -/
theorem wp_starting {rest : Prog Op α} {Q : α → Phase → Prop} (hfree : x.Free)
    (hrest : rest.wp watchSpec Q x) : (starting rest).wp watchSpec Q x := by
  refine ⟨hfree, ?_⟩
  intro b y hy
  cases b with
  | child =>
    obtain rfl : y = .other := hy
    refine ⟨trivial, ?_⟩
    intro b y hy
    obtain rfl : y = .other := hy
    cases b with
    | none => exact wp_foreign trivial
    | some e => exact ⟨⟨trivial, trivial⟩, fun b => b.elim⟩
  | error e =>
    obtain rfl : y = x := hy
    exact hrest
  | parent p =>
    obtain rfl : y = x := hy
    exact hrest

theorem wp_lift {β : Type} {c : Op β} (h : watchSpec.pre x c) :
    (Prog.lift c).wp watchSpec (fun b y => watchSpec.post x c b y) x :=
  ⟨h, fun _ _ hb => hb⟩

def sysSpec : Spec Net.Sys Phase := ⟨sysPre, sysPost⟩

def callSpec : Spec Vmm.Call Phase := ⟨callPre, callPost⟩

theorem wp_net {p : Prog Net.Sys α} {Q : α → Phase → Prop} (h : p.wp sysSpec Q x) :
    (net p).wp watchSpec Q x := by
  refine Prog.wp_handle ?_ ?_ h
  · intro β c x hpre
    cases c with
    | chAddNet vm fd id mac => exact wp_starting hpre (wp_lift (c := .net _) hpre)
    | chRemoveDevice vm id => exact wp_starting hpre (wp_lift (c := .net _) hpre)
    | _ => exact wp_lift (c := .net _) hpre
  · intro β c x hpre
    exact ⟨hpre, fun _ _ hb => hb⟩

theorem wp_vmm {p : Prog Vmm.Call α} {Q : α → Phase → Prop} (h : p.wp callSpec Q x) :
    (vmm p).wp watchSpec Q x := by
  refine Prog.wp_handle ?_ ?_ h
  · intro β c x hpre
    cases c with
    | exec argv =>
      refine ⟨hpre.1, ?_⟩
      intro b y hy
      cases b with
      | none =>
        obtain rfl : y = x := hy
        exact wp_foreign hpre.1
      | some e => exact hy
    | io op =>
      cases op with
      | spawn argv => exact wp_starting hpre.1 (wp_lift (c := .vmm _) hpre)
      | _ => exact wp_lift (c := .vmm _) hpre
    | _ => exact wp_lift (c := .vmm _) hpre
  · intro β c x hpre
    exact ⟨hpre, fun _ _ hb => hb⟩

/-! ### `net_setup` -/

/-- A process that may close whatever it likes stays in its phase. -/
theorem wp_plain {p : Prog Net.Sys α} (hp : p.Only Net.Plain) (hfree : x.Free)
    (hclose : ∀ fd, x.MayClose fd) : p.wp sysSpec (fun _ y => y = x) x := by
  refine Prog.wp_of_only (P := Net.Plain) (fun y => y = x) ?_ ?_ hp rfl
  · intro β c y hc hy
    subst hy
    cases c with
    | close fd => exact hclose fd
    | pipe => exact hc.elim
    | fork => exact hc.elim
    | poll fd => exact hc.elim
    | exit status => exact hc.elim
    | _ => exact hfree
  · intro β c y b z hc hy hz
    subst hy
    cases c with
    | close fd =>
      rw [← hfree.closed_eq]
      exact hz
    | pipe => exact hc.elim
    | fork => exact hc.elim
    | poll fd => exact hc.elim
    | exit status => exact hc.elim
    | _ => exact hz

theorem wp_exitListenerMain {pid v : Nat} {routerVm : Net.VmDir} {deviceId : Net.IfName}
    {Q : α → Phase → Prop} :
    (Net.exitListenerMain v pid routerVm deviceId).wp sysSpec Q (.polling v) := by
  -- As long as `poll` is interrupted, nothing changes.
  refine Prog.wp_loop (fun _ y => y = .polling v) rfl ?_
  intro _ y hy
  subst hy
  refine ⟨rfl, ?_⟩
  intro b z hz
  cases b with
  | some e =>
    obtain rfl : z = .polling v := hz
    exact ⟨fun _ _ => rfl, fun _ => ⟨Or.inr ⟨v, rfl⟩, fun b => b.elim⟩⟩
  | none =>
    obtain rfl : z = .cleaning := hz
    refine ⟨fun _ hagain => (by cases hagain), fun _ => ?_⟩
    refine Prog.wp_seq (wp_plain (Net.plain_routerNetCleanup _ _ _) trivial fun _ => trivial) ?_
    intro _ y hy
    subst hy
    refine Prog.wp_seq (wp_plain (Net.plain_bridgeDelete _) trivial fun _ => trivial) ?_
    intro _ y hy
    exact ⟨Or.inl hy, fun b => b.elim⟩

/-- What `start-vmm` can be after `net_setup`, and what it forks. -/
def Phase.Settled : Phase → Prop
  | .early | .failed | .other => True
  | .keeper r => readyFd < r
  | _ => False

namespace Phase.Settled

theorem free (hx : x.Settled) : x.Free := by
  cases x <;> trivial

theorem mayClose (hx : x.Settled) : x.MayClose readyFd := by
  cases x with
  | keeper r => exact fun heq => Nat.ne_of_lt hx (Int.ofNat_inj.mp heq)
  | _ => trivial

end Phase.Settled

theorem wp_exitListenerSetup {pid : Nat} {routerVm : Net.VmDir} {deviceId : Net.IfName} :
    (Net.exitListenerSetup pid routerVm deviceId).wp sysSpec
      (fun a y => a = -1 ∧ (y = .early ∨ y = .failed) ∨ a = 0 ∧ y.Settled) .early := by
  refine ⟨rfl, ?_⟩
  intro b y hb
  obtain ⟨rfl, rfl⟩ | ⟨r, v, rfl, hr, hne, rfl⟩ := hb
  · exact Or.inl ⟨rfl, Or.inl rfl⟩
  · refine ⟨⟨r, v, rfl⟩, ?_⟩
    intro b y hb
    obtain ⟨r', v', heq, hy⟩ := hb
    cases heq
    cases b with
    | error =>
      subst hy
      refine ⟨rfl, ?_⟩
      intro _ y hy
      obtain rfl : y = .failed := hy
      refine ⟨trivial, ?_⟩
      intro _ y hy
      exact Or.inl ⟨rfl, Or.inr hy⟩
    | child =>
      subst hy
      refine ⟨rfl, ?_⟩
      intro _ y hy
      obtain rfl : y = .polling v := hy
      exact wp_exitListenerMain
    | parent =>
      subst hy
      refine ⟨?_, ?_⟩
      · intro heq
        exact hne (Int.ofNat_inj.mp heq).symm
      · intro _ y hy
        obtain rfl : y = .keeper r := hy
        exact Or.inr ⟨rfl, hr⟩

theorem wp_failBridge {pid : Nat} {r : Net.NetConfig} (hx : x = .early ∨ x = .failed) :
    (Net.failBridge pid r).wp sysSpec (fun _ y => y.Settled) x := by
  have hsettled : x.Settled ∧ ∀ fd, x.MayClose fd := by
    obtain rfl | rfl := hx
    · exact ⟨trivial, fun _ => trivial⟩
    · exact ⟨trivial, fun _ => trivial⟩
  refine Prog.wp_mono ?_ (wp_plain (Net.plain_failBridge pid r) hsettled.1.free hsettled.2)
  intro _ y hy
  subst hy
  exact hsettled.1

theorem wp_netSetup {pid : Nat} {routerVm : Net.VmDir} :
    (Net.netSetup pid routerVm).wp sysSpec (fun _ y => y.Settled) .early := by
  have hplain {β : Type} {p : Prog Net.Sys β} (hp : p.Only Net.Plain) :=
    wp_plain hp (x := .early) trivial fun _ => trivial
  refine Prog.wp_seq (hplain (Net.plain_bridgeAdd _)) ?_
  intro a y hy
  subst hy
  split
  · trivial
  refine Prog.wp_seq (hplain (Net.plain_ifChangeFlags _ _ _)) ?_
  intro a y hy
  subst hy
  split
  · exact wp_failBridge (Or.inl rfl)
  refine Prog.wp_seq (hplain (Net.plain_setupTap _ _ _)) ?_
  intro a y hy
  subst hy
  obtain ⟨fd, id⟩ := a
  change (ite _ _ _ : Prog Net.Sys _).wp _ _ _
  split
  · exact wp_failBridge (Or.inl rfl)
  refine Prog.wp_seq (hplain (Net.plain_routerNetSetup _ _ _ _)) ?_
  intro a y hy
  subst hy
  obtain ⟨router, deviceId⟩ := a
  change (ite _ _ _ : Prog Net.Sys _).wp _ _ _
  split
  · exact wp_failBridge (Or.inl rfl)
  refine Prog.wp_seq wp_exitListenerSetup ?_
  intro a y hy
  obtain ⟨rfl, hy⟩ | ⟨rfl, hy⟩ := hy
  · exact wp_failBridge hy
  · exact hy

/-! ### `create_vm` -/

/-- The calls that leave the phase of a free process as it is. -/
def Steady {β : Type} (c : Vmm.Call β) : Prop :=
  match c with
  | .pipe | .fork | .close _ => False
  | _ => True

theorem wp_steady {p : Prog Vmm.Call α} (hp : p.Only Steady) (hfree : x.Free) :
    p.wp callSpec (fun _ y => y = x) x := by
  refine Prog.wp_of_only (P := Steady) (fun y => y = x) ?_ ?_ hp rfl
  · intro β c y hc hy
    subst hy
    cases c <;> first | exact hc.elim | exact ⟨hfree, trivial⟩
  · intro β c y b z hc hy hz
    subst hy
    cases c <;> first | exact hc.elim | exact hz

theorem steady_of_outward {p : Prog Vmm.Call α} (hp : p.Only Vmm.Outward) : p.Only Steady := by
  refine hp.mono ?_
  intro β c hc
  cases c <;> trivial

theorem steady_exitWith (status : Nat) : (Vmm.exitWith status : Prog Vmm.Call α).Only Steady :=
  ⟨trivial, fun b => b.elim⟩

theorem steady_sendPid (fd : Nat) (v : Int) : (Vmm.sendPid fd v : Prog Vmm.Call α).Only Steady := by
  intro acc
  refine ⟨trivial, ?_⟩
  intro r
  cases r with
  | ok n => exact steady_exitWith _
  | error e => exact steady_exitWith 1

theorem steady_createVmChildMain (env : Vmm.Env) (vmDir : Vmm.OsString) (config : Vmm.VmConfig) :
    (Vmm.createVmChildMain env vmDir config : Prog Vmm.Call α).Only Steady := by
  have heprintln (line : String) := steady_of_outward (Vmm.outward_eprintln line)
  refine (steady_of_outward (Vmm.outward_createVm env vmDir config)).bind ?_
  intro r
  cases r with
  | error e =>
    refine (heprintln _).bind fun _ => ⟨trivial, fun parent => ⟨trivial, fun r => ?_⟩⟩
    cases r with
    | none => exact steady_exitWith 1
    | some e => exact (heprintln _).bind fun _ => steady_exitWith 1
  | ok u =>
    refine ⟨trivial, ?_⟩
    intro r
    cases r with
    | none => exact steady_exitWith 0
    | some e => exact (heprintln _).bind fun _ => steady_exitWith 1

theorem wp_close {fd : Nat} (hfree : x.Free) (hclose : x.MayClose fd)
    {rest : Unit → Prog Vmm.Call α} {Q : α → Phase → Prop} (hrest : (rest ()).wp callSpec Q x) :
    (Prog.call (.close fd) rest).wp callSpec Q x := by
  refine ⟨⟨hfree, hclose⟩, ?_⟩
  intro _ y hy
  obtain rfl : y = x := hy
  exact hrest

theorem wp_receivePid {fd : Nat} {child : Pid} {v : List UInt8} (hfree : x.Free)
    (hclose : x.MayClose fd) :
    (Vmm.receivePid fd child v).wp callSpec (fun _ y => y = x) x := by
  refine Prog.wp_loop (fun _ y => y = x) rfl ?_
  intro s y hy
  subst hy
  refine ⟨⟨hfree, trivial⟩, ?_⟩
  intro r z hz
  obtain rfl : z = y := hz
  refine ⟨fun _ _ => rfl, fun _ => wp_close hfree hclose ?_⟩
  cases r with
  | ok bytes => rfl
  | error e => exact wp_steady ⟨trivial, fun _ => ⟨trivial, fun _ => trivial⟩⟩ hfree

/-- The caller stays what it is. -/
theorem wp_doubleFork {junk : Fin 4 → UInt8} (hfree : x.Free) :
    (Vmm.doubleFork junk).wp callSpec (fun _ y => y = x ∨ y = .other) x := by
  refine ⟨⟨hfree, trivial⟩, ?_⟩
  intro b y hb
  obtain ⟨rfl, hends⟩ := hb
  cases b with
  | error e => exact Or.inl rfl
  | ok fds =>
    obtain ⟨r, v⟩ := fds
    obtain ⟨hr, hv⟩ := hends r v rfl
    refine ⟨⟨hfree, trivial⟩, ?_⟩
    intro b z hb
    cases b with
    | error e =>
      obtain rfl : z = y := hb
      exact wp_close hfree hr (wp_close hfree hv (Or.inl rfl))
    | parent p =>
      obtain rfl : z = y := hb
      refine wp_close hfree hv (Prog.wp_mono ?_ (wp_receivePid hfree hr))
      exact fun _ _ => Or.inl
    | child =>
      obtain rfl : z = .other := hb
      refine wp_close (x := .other) trivial trivial ⟨⟨trivial, trivial⟩, ?_⟩
      intro b z hb
      cases b with
      | error e =>
        obtain rfl : z = .other := hb
        exact Prog.wp_mono (fun _ _ => Or.inr) (wp_steady (steady_sendPid _ _) trivial)
      | parent p =>
        obtain rfl : z = .other := hb
        exact Prog.wp_mono (fun _ _ => Or.inr) (wp_steady (steady_sendPid _ _) trivial)
      | child =>
        obtain rfl : z = .other := hb
        exact wp_close (x := .other) trivial trivial (Or.inr rfl)

theorem wp_createVm {env : Vmm.Env} {vmDir : Vmm.OsString} {config : Except String Vmm.VmConfig}
    {junk : Fin 4 → UInt8} (hx : x.Settled) :
    (Vmm.createVm env vmDir config junk).wp callSpec (fun _ y => y.Settled) x := by
  cases config with
  | error e => exact hx
  | ok config =>
    refine Prog.wp_seq (wp_doubleFork hx.free) ?_
    intro n y hy
    have hy' : y.Settled := by
      obtain rfl | rfl := hy
      · exact hx
      · trivial
    split
    · exact hy'
    split
    · refine Prog.wp_mono ?_ (wp_steady (steady_createVmChildMain env vmDir config) hy'.free)
      intro _ z hz
      subst hz
      exact hy'
    · exact hy'

/-! ### All of it -/

theorem wp_run {env : Vmm.Env} {vmDir : Vmm.OsString} {routerVm : Net.VmDir} {pid : Pid}
    {config : Net.NetConfig → Except String Vmm.VmConfig} {junk : Fin 4 → UInt8} :
    (run env vmDir routerVm pid config junk).wp watchSpec (fun _ y => y.Settled) .early := by
  have hsocket := steady_of_outward (Vmm.outward_createApiSocket env vmDir)
  refine Prog.wp_seq (wp_vmm (wp_steady hsocket trivial)) ?_
  intro r y hy
  subst hy
  cases r with
  | error e => trivial
  | ok u =>
    refine Prog.wp_seq (wp_net wp_netSetup) ?_
    intro r y hy
    refine Prog.wp_seq (wp_vmm (wp_createVm hy)) ?_
    intro r z hz
    have hclose : (Prog.lift (Vmm.Call.close readyFd)).wp callSpec (fun _ y => y.Settled) z :=
      wp_close hz.free hz.mayClose hz
    refine Prog.wp_seq (wp_vmm hclose) ?_
    intro _ z hz
    cases r with
    | error e => exact hz
    | ok u =>
      refine Prog.wp_seq (wp_vmm (Prog.wp_mono ?_ (wp_steady ⟨trivial, fun _ => trivial⟩ hz.free)))
        fun _ _ h => h
      intro _ y hy
      subst hy
      exact hz

theorem wp_main {env : Vmm.Env} {vmDir : Vmm.OsString} {routerVm : Net.VmDir} {pid : Pid}
    {config : Net.NetConfig → Except String Vmm.VmConfig} {junk : Fin 4 → UInt8} :
    (main env vmDir routerVm pid config junk).wp watchSpec (fun _ _ => False) .early := by
  refine Prog.wp_seq wp_run ?_
  intro e y hy
  have heprintln (line : String) := steady_of_outward (Vmm.outward_eprintln line)
  refine Prog.wp_seq (wp_vmm (wp_steady (heprintln _) hy.free)) ?_
  intro _ z hz
  subst hz
  exact ⟨⟨hy.free, trivial⟩, fun b => b.elim⟩

end Code

/-! ## Every run -/

section Runs

variable {env : Vmm.Env} {vmDir : Vmm.OsString} {routerVm : Net.VmDir} {pid : Pid}
  {config : Net.NetConfig → Except String Vmm.VmConfig} {junk : Fin 4 → UInt8}
  {s : Pool Op Pid World Unit}

/-- The state of all processes after any number of calls, for some phases of theirs. -/
abbrev Reached (pid : Pid) (s : Pool Op Pid World Unit) : Prop :=
  s.Good watchSpec (fun _ _ => False) (Inv pid)

theorem reached_start : Reached pid (start env vmDir routerVm pid config junk) := by
  refine ⟨_, Inv.init pid, Pool.Phased.update ?_ wp_main⟩
  intro t
  trivial

theorem reached_run (sched : List (Pid × Choice)) :
    Reached pid ((start env vmDir routerVm pid config junk).run (kernel pid) sched) :=
  (modular pid).run (fun _ _ => trivial) reached_start

/-- The process and all that has been forked since `net_setup` have ended. -/
def World.Gone (w : World) (pid : Pid) : Prop :=
  w.alive pid = false ∧ ∀ p ∈ w.since, w.alive p = false

instance (w : World) (pid : Pid) : Decidable (w.Gone pid) := inferInstanceAs (Decidable (_ ∧ _))

/-- The next call of a process. -/
def Next (s : Pool Op Pid World Unit) (p : Pid) {β : Type} (c : Op β) : Prop :=
  ∃ k, (s.thread p).bind Prog.ask = some ⟨c, k⟩

/-- What the listener does before it cleans up. -/
def Waits {β : Type} (c : Op β) : Prop :=
  match c with
  | .net c =>
    match c with
    | .close _ | .poll _ | .exit _ => True
    | _ => False
  | _ => False

/-- What the pipe of the listener is for. -/
structure Watched (pid : Pid) (s : Pool Op Pid World Unit) : Prop where
  /-- All that the listener does to the network, it does after `poll` has returned. -/
  waits : ∀ p {β : Type} (c : Op β), s.world.listener = some p → Next s p c →
    Waits c ∨ s.world.begun = true
  safe : s.world.begun = true → s.world.alive pid = false
  /-- Only the listener can still have the read end, and it is about to close it. -/
  released : s.world.Gone pid → ∀ k p, s.world.watch = some k → s.world.Holds p (.read k) →
    s.world.listener = some p ∧
      ∃ fd, Next s p (.net (.close fd)) ∧ ¬ (s.world.closeFd p fd).Holds p (.read k)
  /-- `poll` does not block: if it is not interrupted, it reports that nobody can read. -/
  wakes : s.world.Gone pid → ∀ p fd r, s.world.listener = some p → Next s p (.net (.poll fd)) →
    ∃ w, exec pid p (.net (.poll fd)) s.world (.reply r) = some (.resume r.fails, w)

/-- The listener is in one of three phases. -/
theorem Inv.listener_phase {w : World} {ph : Pid → Option Phase} {p : Pid} {x : Phase}
    (h : Inv pid w ph) (hl : w.listener = some p) (hx : ph p = some x) :
    (∃ r v, x = .born r v) ∨ (∃ v, x = .polling v) ∨ x = .cleaning := by
  have hfits := h.fits p x hx
  have hne := (h.listener p hl).2
  cases x with
  | born r v => exact Or.inl ⟨r, v, rfl⟩
  | polling v => exact Or.inr (Or.inl ⟨v, rfl⟩)
  | cleaning => exact Or.inr (Or.inr rfl)
  | other => exact absurd hl hfits.2
  | _ => exact absurd hfits.1 hne

/-- The next call of a process is one that its phase allows. -/
theorem Next.phase {ph : Pid → Option Phase}
    (hph : Pool.Phased watchSpec (fun _ _ => False) s.thread ph) {p : Pid} {β : Type} {c : Op β}
    (hnext : Next s p c) : ∃ x, ph p = some x ∧ watchSpec.pre x c := by
  obtain ⟨k, hk⟩ := hnext
  obtain ⟨prog, hprog, hask⟩ := Option.bind_eq_some_iff.mp hk
  obtain ⟨x, hx, hwp⟩ := hph.get hprog
  exact ⟨x, hx, (Prog.wp_ask hwp hask).1⟩

/-- A process has a next call: none of them returns. -/
theorem exists_next {ph : Pid → Option Phase}
    (hph : Pool.Phased watchSpec (fun _ _ => False) s.thread ph) {p : Pid} {x : Phase}
    (hx : ph p = some x) : ∃ (β : Type) (c : Op β), Next s p c := by
  cases hthread : s.thread p with
  | none =>
    rw [hph.eq_none, hx] at hthread
    cases hthread
  | some prog =>
    cases hask : prog.ask with
    | some q => exact ⟨q.β, q.c, q.k, by rw [hthread]; exact hask⟩
    | none =>
      obtain ⟨y, -, hwp⟩ := hph.get hthread
      obtain ⟨a, rfl⟩ := Prog.eq_ret_of_ask hask
      exact hwp.elim

/-- A new listener closes its copy of the read end. -/
theorem Next.close {p : Pid} {r v : Nat} {β : Type} {c : Op β} (hnext : Next s p c)
    (hpre : watchSpec.pre (.born r v) c) : Next s p (.net (.close r)) := by
  cases c with
  | vmm c => exact hpre.1.elim
  | launch c => exact hpre.elim
  | net c =>
    cases c with
    | close fd =>
      obtain rfl : fd = r := hpre
      exact hnext
    | pipe => cases hpre
    | poll fd => cases hpre
    | fork =>
      obtain ⟨r', v', heq⟩ := hpre
      cases heq
    | exit status =>
      obtain heq | ⟨v', heq⟩ := hpre
      · cases heq
      · cases heq
    | _ => exact hpre.elim

/-- A process that may not start others, and does not set up a listener, waits. -/
theorem waits_of_pre {x : Phase} (hfree : ¬ x.Free) (hearly : x ≠ .early)
    (hpiped : ∀ r v, x ≠ .piped r v) {β : Type} {c : Op β} (hpre : watchSpec.pre x c) :
    Waits c := by
  cases c with
  | vmm c => exact absurd hpre.1 hfree
  | launch c => exact absurd hpre hfree
  | net c =>
    cases c with
    | close fd => trivial
    | poll fd => trivial
    | exit status => trivial
    | pipe => exact absurd hpre hearly
    | fork =>
      obtain ⟨r, v, heq⟩ := hpre
      exact absurd heq (hpiped r v)
    | _ => exact absurd hpre hfree

/-- When the others have ended, only a new listener can have the read end. -/
theorem Inv.born_of_holds {w : World} {ph : Pid → Option Phase} (h : Inv pid w ph)
    (hgone : w.Gone pid) {k : Nat} {p : Pid} (hk : w.watch = some k)
    (hholds : w.Holds p (.read k)) :
    w.listener = some p ∧ ∃ r v, ph p = some (.born r v) ∧ OnlyAt (w.table p) (.read k) r := by
  obtain ⟨e, he, hobj⟩ := id hholds
  have halive := (h.table p e he).1
  have hl : w.listener = some p := by
    obtain rfl | hl | hmem := h.holders k p hk hholds
    · rw [hgone.1] at halive
      cases halive
    · exact hl
    · rw [hgone.2 p hmem] at halive
      cases halive
  refine ⟨hl, ?_⟩
  obtain ⟨x, hx⟩ := Option.isSome_iff_exists.mp ((h.alive p).mp halive)
  have hfits := h.fits p x hx
  obtain ⟨r, v, rfl⟩ | ⟨v, rfl⟩ | rfl := h.listener_phase hl hx
  · obtain ⟨-, -, -, k', hk', honly, -⟩ := hfits
    cases hk.symm.trans hk'
    exact ⟨r, v, hx, honly⟩
  · obtain ⟨-, -, k', hk', hlacks, -⟩ := hfits
    cases hk.symm.trans hk'
    exact absurd hobj (hlacks e he)
  · obtain ⟨-, -, -, k', hk', hlacks⟩ := hfits
    cases hk.symm.trans hk'
    exact absurd hobj (hlacks e he)

theorem World.not_holds_closeFd {w : World} {p : Pid} {o : Vmm.PipeEnd} {r : Nat}
    (honly : OnlyAt (w.table p) o r) : ¬ (w.closeFd p r).Holds p o := by
  intro hholds
  obtain ⟨e, he, hobj⟩ := hholds
  simp only [closeFd, setTable, Function.update_self] at he
  exact honly.lacks e he hobj

theorem polls_of_gone {t : Pid} {w : World} {r : Reply} {fd k : Nat}
    (hobj : w.obj t fd = some (.write k)) (hgone : w.ReaderGone k) :
    ∃ w', polls t w r fd = some (.resume r.fails, w') := by
  unfold polls
  cases hfails : r.fails with
  | some e => exact ⟨w, rfl⟩
  | none =>
    refine ⟨{ w with begun := true }, ?_⟩
    simp only [hobj, if_pos hgone]

theorem Reached.watched (h : Reached pid s) : Watched pid s := by
  obtain ⟨ph, hinv, hph⟩ := h
  refine ⟨?_, hinv.begun, ?_, ?_⟩
  · intro p β c hl hnext
    obtain ⟨x, hx, hpre⟩ := hnext.phase hph
    obtain ⟨r, v, rfl⟩ | ⟨v, rfl⟩ | rfl := hinv.listener_phase hl hx
    · exact Or.inl (waits_of_pre id (by simp) (by simp) hpre)
    · exact Or.inl (waits_of_pre id (by simp) (by simp) hpre)
    · exact Or.inr (hinv.fits p _ hx).2.2.1
  · intro hgone k p hk hholds
    obtain ⟨hl, r, v, hx, honly⟩ := hinv.born_of_holds hgone hk hholds
    obtain ⟨β, c, hnext⟩ := exists_next hph hx
    obtain ⟨x, hx', hpre⟩ := hnext.phase hph
    cases hx.symm.trans hx'
    exact ⟨hl, r, hnext.close hpre, World.not_holds_closeFd honly⟩
  · intro hgone p fd r hl hnext
    obtain ⟨x, hx, hpre⟩ := hnext.phase hph
    obtain rfl : x = .polling fd := hpre
    obtain ⟨-, -, k, hk, -, hrefers⟩ := hinv.fits p _ hx
    -- Whoever has the read end is the listener, but that one is past closing it.
    have hnobody : s.world.ReaderGone k := by
      intro q _ hholds
      obtain ⟨hq, r, v, hborn, -⟩ := hinv.born_of_holds hgone hk hholds
      cases hl.symm.trans hq
      cases hx.symm.trans hborn
    obtain ⟨w, hw⟩ := polls_of_gone (r := r) hrefers hnobody
    refine ⟨w, ?_⟩
    rw [exec, if_neg (by simp [hinv.alive_of hx])]
    exact hw

/-- **In every state of every interleaving**, whatever fails, is interrupted or killed, the
listener cleans up after the VM process only, and nothing but a listener that is about to close its
own copy keeps it from doing so when all the others have ended. -/
theorem run_watched (env : Vmm.Env) (vmDir : Vmm.OsString) (routerVm : Net.VmDir) (pid : Pid)
    (config : Net.NetConfig → Except String Vmm.VmConfig) (junk : Fin 4 → UInt8)
    (sched : List (Pid × Choice)) :
    Watched pid ((start env vmDir routerVm pid config junk).run (kernel pid) sched) :=
  (reached_run sched).watched

end Runs

/-! ### A listener that has just been forked -/

def appvm : Pool Op Pid World Unit :=
  start ⟨"start-vmm", fun _ => "", fun _ => "", 4⟩ [] [] 1 (fun _ => .error "") fun _ => 0

/-- A call that succeeds. -/
def succeeds (t p : Pid) (deed : Deed) : Pid × Choice :=
  (t, .reply ⟨none, (5, 6), p, 0, [], .exited 0, deed⟩)

/-- `net_setup` has forked the listener, process 3, when `start-vmm` is killed. `ch-remote`,
process 2, has exited before. -/
def killedEarly : List (Pid × Choice) :=
  List.replicate 31 (succeeds 1 2 .nothing) ++ [succeeds 2 2 .nothing, succeeds 2 2 .exit] ++
    List.replicate 4 (succeeds 1 3 .nothing) ++ [(1, .killed)]

/-- All that the listener waits for is gone, and the listener itself holds the read end. -/
theorem new_listener_holds :
    ¬ ((appvm.run (kernel 1) killedEarly).world.Gone 1 →
      ∀ k p, (appvm.run (kernel 1) killedEarly).world.watch = some k →
        ¬ (appvm.run (kernel 1) killedEarly).world.Holds p (.read k)) := by
  intro h
  exact h (by decide +kernel) 0 3 (by decide +kernel) (by decide +kernel)

end Spectrum.Watch
