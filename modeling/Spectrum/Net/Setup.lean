import Spectrum.Net.Util

/-!
# `net.c`

`net_setup` gives a VM its network: a bridge `br<pid>`, a tap `client<pid>` for the VM, and a tap
`router<pid>` whose descriptor is handed to the router VM. It then forks an exit listener, which
waits for the VM process to die and takes the router's end and the bridge down again.

Every function here takes the pid the C code gets from `getpid`, or is passed. The exit listener
is the `child` answer of `fork` and never returns.
-/

set_option autoImplicit false

namespace Spectrum.Net

open Interact Bytes

/-! ## The code -/

def bridgeName (pid : Nat) : IfName := snprintf ['b', 'r'] pid

def clientName (pid : Nat) : IfName := snprintf ['c', 'l', 'i', 'e', 'n', 't'] pid

def routerName (pid : Nat) : IfName := snprintf ['r', 'o', 'u', 't', 'e', 'r'] pid

def deadName (pid : Nat) : IfName := snprintf ['_', 'd', 'e', 'a', 'd'] pid

/-- `struct net_config`. -/
structure NetConfig where
  fd : Int
  id : IfName
  mac : Mac
  deriving Repr, DecidableEq

/-- Open a tap and make it a port of the bridge, up. The tap's name is an output parameter in the
source; it is set on every path. -/
def setupTap (bridge : IfName) (tapPrefix : List Char) (pid : Nat) : Prog Sys (Int × IfName) := do
  let tapName := snprintf tapPrefix pid
  let fd ← tapOpen tapName true
  if fd = -1 then
    return (fd, tapName)
  else if (← bridgeAddIf bridge tapName) = -1 then
    let _ ← Prog.lift (.close fd)
    return (-1, tapName)
  else if (← ifUp tapName) = -1 then
    let _ ← Prog.lift (.close fd)
    return (-1, tapName)
  else
    return (fd, tapName)

def clientNetSetup (bridge : IfName) (pid : Nat) : Prog Sys (Int × IfName) :=
  setupTap bridge ['c', 'l', 'i', 'e', 'n', 't'] pid

/-- The second component is `device_id_out`, which is all zeroes until it is set. -/
def routerNetSetup (bridge : IfName) (routerVm : VmDir) (mac : Mac) (pid : Nat) :
    Prog Sys (Int × IfName) := do
  let (fd, id) ← setupTap bridge ['r', 'o', 'u', 't', 'e', 'r'] pid
  if fd = -1 then
    return (-1, [])
  else
    let e ← Prog.lift (.chAddNet routerVm fd id mac)
    let _ ← Prog.lift (.close fd)
    match e with
    | none => return (0, id)
    | some e =>
      Prog.lift (.setErrno e)
      return (-1, [])

def routerNetCleanup (pid : Nat) (vm : VmDir) (deviceId : IfName) : Prog Sys Int := do
  match ← Prog.lift (.chRemoveDevice vm deviceId) with
  | some e => failWith e
  | none =>
    -- A failure here is only warned about.
    let _ ← bridgeRemoveIf (bridgeName pid) (routerName pid)
    if (← ifDown (routerName pid)) = -1 then
      return -1
    else
      ifRename (routerName pid) (deadName pid)

def bridgeCleanup (pid : Nat) : Prog Sys Int := bridgeDelete (bridgeName pid)

/-- `exit`, which has no continuation. -/
def exitWith {α : Type} (status : Nat) : Prog Sys α := .call (.exit status) Empty.elim

/-- What the exit listener does once the VM process is gone. -/
def exitListenerCleanup {α : Type} (pid : Nat) (routerVm : VmDir) (deviceId : IfName) :
    Prog Sys α := do
  let router ← routerNetCleanup pid routerVm deviceId
  let bridge ← bridgeCleanup pid
  exitWith (if router = -1 ∨ bridge = -1 then 1 else 0)

def exitListenerMain {α : Type} (fd pid : Nat) (routerVm : VmDir) (deviceId : IfName) :
    Prog Sys α :=
  .loop () (fun _ => .poll fd)
    (fun _ r =>
      match r with
      | some e => if e = EINTR ∨ e = EWOULDBLOCK then some () else none
      | none => none)
    (fun _ r =>
      match r with
      | some _ => exitWith 1
      | none => exitListenerCleanup pid routerVm deviceId)

def exitListenerSetup (pid : Nat) (routerVm : VmDir) (deviceId : IfName) : Prog Sys Int := do
  match ← Prog.lift .pipe with
  | none => return -1
  | some (readEnd, writeEnd) =>
    match ← Prog.lift .fork with
    | .error =>
      let _ ← Prog.lift (.close readEnd)
      let _ ← Prog.lift (.close writeEnd)
      return -1
    | .child =>
      let _ ← Prog.lift (.close readEnd)
      exitListenerMain writeEnd pid routerVm deviceId
    | .parent =>
      let _ ← Prog.lift (.close writeEnd)
      return 0

def routerMac (pid : Nat) : Mac :=
  #v[0x0A, 0xB3, 0xEC, 0x80, UInt8.ofNat (pid >>> 8), UInt8.ofNat pid]

/-- `r.mac`: the router's address with the fourth byte cleared. -/
def clientMac (pid : Nat) : Mac := (routerMac pid).set 3 0

/-- The label `fail_bridge`. -/
def failBridge (pid : Nat) (r : NetConfig) : Prog Sys NetConfig := do
  let _ ← bridgeDelete (bridgeName pid)
  let _ ← Prog.lift (.close r.fd)
  return { r with fd := -1 }

def netSetup (pid : Nat) (routerVm : VmDir) : Prog Sys NetConfig := do
  let r : NetConfig := ⟨-1, [], clientMac pid⟩
  if (← bridgeAdd (bridgeName pid)) = -1 then
    return r
  else if (← ifUp (bridgeName pid)) = -1 then
    failBridge pid r
  else
    let (fd, id) ← clientNetSetup (bridgeName pid) pid
    let r := { r with fd, id }
    if fd = -1 then
      failBridge pid r
    else
      let (router, deviceId) ← routerNetSetup (bridgeName pid) routerVm (routerMac pid) pid
      if router = -1 then
        failBridge pid r
      else if (← exitListenerSetup pid routerVm deviceId) = -1 then
        failBridge pid r
      else
        return r

/-! ## The names

They differ in their first letter, whatever the pids are. -/

theorem snprintf_ne {c c' : Char} {pfx pfx' : List Char} {pid pid' : Nat}
    (h : ascii [c] ≠ ascii [c']) : snprintf (c :: pfx) pid ≠ snprintf (c' :: pfx') pid' := by
  intro he
  simp only [snprintf, ascii, IFNAMSIZ, List.map_cons, List.cons_append, Nat.add_one_sub_one,
    List.take_succ_cons, List.cons.injEq] at he
  exact h (by simp [ascii, he.1])

theorem router_ne_bridge (pid pid' : Nat) : routerName pid ≠ bridgeName pid' :=
  snprintf_ne (by decide)

theorem dead_ne_bridge (pid pid' : Nat) : deadName pid ≠ bridgeName pid' :=
  snprintf_ne (by decide)

theorem dead_ne_client (pid pid' : Nat) : deadName pid ≠ clientName pid' :=
  snprintf_ne (by decide)

theorem dead_ne_router (pid pid' : Nat) : deadName pid ≠ routerName pid' :=
  snprintf_ne (by decide)

@[simp] theorem ifrName_bridgeName (pid : Nat) : ifrName (bridgeName pid) = bridgeName pid :=
  ifrName_snprintf _ _

@[simp] theorem ifrName_routerName (pid : Nat) : ifrName (routerName pid) = routerName pid :=
  ifrName_snprintf _ _

/-! ## Specifications -/

/-- A step failed at one of `sites`: nothing is left of it but the log entry and `errno`. -/
structure FailedAt (sites : List Site) (w w' : Host) : Prop where
  agree : w.net.Agree w'.net
  log : ∃ s ∈ sites, ∃ e, w'.failed = w.failed ++ [(s, e)]

/-- `M` is `N` with one more interface, which got the next index, and the descriptors `ds`. -/
structure NetState.Plus (N : NetState) (i : Iface) (ds : List Desc) (M : NetState) : Prop where
  ifaces : M.ifaces = N.ifaces ++ [i]
  index : i.index = N.next
  descs : M.descs = N.descs ++ ds
  next : N.next < M.next

variable {me : Proc} {ok : Option Errno → Prop} {H : Host → Prop} {α : Type}

namespace NetState.Plus

variable {N M : NetState} {i : Iface} {ds : List Desc}

theorem find_new (h : N.Plus i ds M) : M.find i.name = some i :=
  find_of_ifaces h.ifaces (by simp) rfl

theorem find_bridge (h : N.Plus i ds M) {pid : Nat} (hname : i.name = bridgeName pid) :
    M.find (ifrName (bridgeName pid)) = some i := by
  rw [ifrName_bridgeName]
  exact find_of_ifaces h.ifaces (by simp) hname

theorem find_old (h : N.Plus i ds M) {name : IfName} {b : Iface} (hb : N.find name = some b) :
    M.find name = some b := by
  rw [find] at hb ⊢
  rw [h.ifaces, List.find?_append, hb, Option.some_or]

theorem agree {L : NetState} (h : N.Plus i ds M) (hL : M.Agree L) : N.Plus i ds L :=
  ⟨hL.ifaces.trans h.ifaces, h.index, hL.descs.trans h.descs, Nat.lt_of_lt_of_le h.next hL.next⟩

theorem withMaster (h : N.Plus i ds M) (m : Option Nat) (hm : ∀ x ∈ m, x < M.next) :
    N.Plus { i with master := m } ds (M.withMaster i.index m hm) where
  ifaces := by
    change M.ifaces.map _ = _
    rw [h.ifaces, List.map_append, map_eq_self fun j hj => if_neg (index_ne h.index.ge hj)]
    simp
  index := h.index
  descs := h.descs
  next := h.next

theorem withFlags (h : N.Plus i ds M) (hfree : N.find i.name = none) (flags : BitVec 16) :
    N.Plus { i with flags } ds (M.withFlags i.name flags) where
  ifaces := by
    change M.ifaces.map _ = _
    rw [h.ifaces, List.map_append, map_eq_self fun j hj => if_neg (name_ne hfree hj)]
    simp
  index := h.index
  descs := h.descs
  next := h.next

/-- A new tap disappears with its only descriptor. -/
theorem closeFd (h : N.Plus i [⟨me, N.freeFd me, .tap N.next⟩] M) (hdev : M.devices = N.devices) :
    N.Agree (M.closeFd me (N.freeFd me)) where
  ifaces := by
    have hold : N.ifaces.filter (fun j => decide (j.index ≠ N.next)) = N.ifaces :=
      List.filter_eq_self.mpr fun j hj => by simpa using index_ne (Nat.le_refl _) hj
    rw [closeFd_tap h.descs (Nat.le_refl _), h.ifaces, List.filter_append, hold]
    simp [h.index]
  descs := by simpa using closeFd_descs h.descs (by simp)
  devices := hdev
  next := Nat.le_of_lt h.next

theorem descs_withDevice (h : N.Plus i [⟨me, N.freeFd me, .tap N.next⟩] M) (vm : VmDir)
    (id : IfName) (owner : Nat) (hx : N.next < M.next) :
    (M.withDevice vm id owner N.next hx).descs = N.descs ++ ⟨me, N.freeFd me, .tap N.next⟩ ::
      [⟨.router vm, M.freeFd (.router vm), .tap N.next⟩] := by
  change M.descs ++ _ = _
  rw [h.descs, List.append_assoc]
  rfl

/-- After `ch-remote add-net` the tap survives its creator's descriptor: the router has one. -/
theorem handOver (h : N.Plus i [⟨me, N.freeFd me, .tap N.next⟩] M) {vm : VmDir} (id : IfName)
    (owner : Nat) (hme : .router vm ≠ me) (hx : N.next < M.next) :
    N.Plus i [⟨.router vm, M.freeFd (.router vm), .tap N.next⟩]
      ((M.withDevice vm id owner N.next hx).closeFd me (N.freeFd me)) := by
  have hdescs := h.descs_withDevice vm id owner hx
  have hclosed := closeFd_descs hdescs (by simp [hme])
  refine ⟨(closeFd_ifaces fun d hd hp hf x ho => ?_).trans h.ifaces, h.index, hclosed, h.next⟩
  refine held_iff.mpr ⟨⟨.router vm, M.freeFd (.router vm), .tap N.next⟩, by simp [hclosed], ?_⟩
  rw [hdescs] at hd
  rcases List.mem_append.mp hd with hold | hnew
  · exact absurd ⟨hp, by exact_mod_cast hf⟩ (N.freeFd_unused hold)
  · rcases List.mem_cons.mp hnew with rfl | hnew
    · exact ho
    · rw [List.mem_singleton.mp hnew] at hp
      exact absurd hp hme

end NetState.Plus

/-- `if_up` of the newest interface. -/
theorem wp_ifUp_plus {N : NetState} {i : Iface} {ds : List Desc} {name : IfName}
    {Q : Int → Host → Prop} {w : Host} (h : N.Plus i ds w.net) (hi : i.name = name)
    (hfree : N.find name = none) (hname : ifrName name = name)
    (hbad : ∀ e, Spontaneous ok → Q (-1) (w.fail me .ifUp e))
    (hgood : ∀ M, N.Plus { i with flags := i.flags ||| IFF_UP } ds M →
      M.devices = w.net.devices → Q 0 (w.withNet M)) :
    (ifUp name).wp (kernel.spec me ok H) Q w := by
  subst hi
  refine wp_ifChangeFlags (fun e he => hbad e (he.resolve_right fun hn => ?_)) fun j hj => ?_
  · rw [hname, h.find_new] at hn
    cases hn
  · rw [hname] at hj ⊢
    obtain rfl := Option.some.inj (h.find_new.symm.trans hj)
    exact hgood _ (h.withFlags hfree _) rfl

/-- `bridge_add("br<pid>")`. -/
theorem wp_bridgeAdd_plus {pid : Nat} {Q : Int → Host → Prop} {w : Host}
    (hbad : ∀ e, Spontaneous ok ∨ w.net.find (bridgeName pid) ≠ none →
      Q (-1) (w.fail me .bridgeAdd e))
    (hgood : ∀ M, w.net.find (bridgeName pid) = none →
      w.net.Plus ⟨bridgeName pid, w.net.next, .bridge, 0, none, me.life⟩ [] M →
      M.devices = w.net.devices → Q 0 (w.withNet M)) :
    (bridgeAdd (bridgeName pid)).wp (kernel.spec me ok H) Q w :=
  wp_bridgeAdd (not_tooLong_snprintf _ _) (percent_not_mem_snprintf (by decide) _) hbad
    fun hfree => hgood _ hfree ⟨rfl, rfl, (List.append_nil _).symm, Nat.lt_succ_self _⟩ rfl

/-- **A tap that is a port of the bridge and up, or nothing.** -/
theorem wp_setupTap {bridge : IfName} {pfx : List Char} {pid : Nat} {b : Iface}
    {Q : Int × IfName → Host → Prop} {w : Host}
    (hb : w.net.find (ifrName bridge) = some b) (hk : b.kind = .bridge)
    (hbad : ∀ w', FailedAt [.tapOpen, .bridgeAddIf, .ifUp] w w' →
      (Spontaneous ok ∨ w.net.find (snprintf pfx pid) ≠ none) → Q (-1, snprintf pfx pid) w')
    (hgood : ∀ N, w.net.find (snprintf pfx pid) = none →
      w.net.Plus ⟨snprintf pfx pid, w.net.next, .tap, 0 ||| IFF_UP, some b.index, me.life⟩
        [⟨me, w.net.freeFd me, .tap w.net.next⟩] N →
      N.devices = w.net.devices → Q (w.net.freeFd me, snprintf pfx pid) (w.withNet N)) :
    (setupTap bridge pfx pid).wp (kernel.spec me ok H) Q w := by
  have hfd : ((w.net.freeFd me : Nat) : Int) ≠ -1 := by omega
  unfold setupTap
  simp only [Prog.bind_eq, Prog.lift_bind, Prog.pure_eq]
  refine Prog.wp_bind.mpr (wp_tapOpen (not_tooLong_snprintf pfx pid) ?_ ?_)
  · intro e he
    exact hbad _ ⟨.refl _, .tapOpen, by simp, e, rfl⟩ he
  · intro hfree
    rw [if_neg hfd]
    have h0 : w.net.Plus ⟨snprintf pfx pid, w.net.next, .tap, 0, none, me.life⟩
        [⟨me, w.net.freeFd me, .tap w.net.next⟩] (w.net.withTap me (snprintf pfx pid) hfree) :=
      ⟨rfl, rfl, rfl, Nat.lt_succ_self _⟩
    -- Whatever state the tap is in, closing its descriptor undoes everything.
    have hundo : ∀ {i : Iface} {M : NetState} (s : Site) (e : Errno),
        s ∈ [.tapOpen, .bridgeAddIf, .ifUp] → Spontaneous ok →
        w.net.Plus i [⟨me, w.net.freeFd me, .tap w.net.next⟩] M → M.devices = w.net.devices →
        Q (-1, snprintf pfx pid) ((w.fail me s e).withNet (M.closeFd me (w.net.freeFd me))) := by
      intro i M s e hs hsp hM hdev
      exact hbad _ ⟨hM.closeFd hdev, s, hs, e, rfl⟩ (Or.inl hsp)
    refine Prog.wp_bind.mpr (wp_bridgeAddIf ?_ ?_)
    · intro e he
      rw [if_pos rfl]
      refine wp_close (NetState.obj_of_descs h0.descs) (hundo _ e (by simp) ?_ h0 rfl)
      exact he.resolve_right fun h => h ⟨b, _, h0.find_old hb, h0.find_new, hk, rfl⟩
    · rintro b' i hm ⟨hb', hi, -, -⟩
      obtain rfl : b = b' := Option.some.inj ((h0.find_old hb).symm.trans hb')
      obtain rfl := Option.some.inj (h0.find_new.symm.trans hi)
      have h1 := h0.withMaster (some b.index) hm
      rw [if_neg (by decide)]
      refine Prog.wp_bind.mpr (wp_ifUp_plus h1 rfl hfree (ifrName_snprintf _ _) ?_ ?_)
      · intro e he
        rw [if_pos rfl]
        exact wp_close (NetState.obj_of_descs h1.descs) (hundo _ e (by simp) he h1 rfl)
      · intro M h2 hdev
        rw [if_neg (by decide)]
        exact hgood _ hfree h2 hdev

/-- **The router's end: a tap in the bridge whose only descriptor is the router's, and the device,
or nothing.** -/
theorem wp_routerNetSetup {bridge : IfName} {vm : VmDir} {mac : Mac} {pid : Nat} {b : Iface}
    {Q : Int × IfName → Host → Prop} {w : Host} (hme : .router vm ≠ me)
    (hb : w.net.find (ifrName bridge) = some b) (hk : b.kind = .bridge)
    (hbad : ∀ w', FailedAt [.tapOpen, .bridgeAddIf, .ifUp, .chAddNet] w w' →
      (Spontaneous ok ∨ w.net.find (routerName pid) ≠ none ∨
        w.net.plugged vm (routerName pid) = true) → Q (-1, []) w')
    (hgood : ∀ N f, w.net.find (routerName pid) = none →
      w.net.Plus ⟨routerName pid, w.net.next, .tap, 0 ||| IFF_UP, some b.index, me.life⟩
        [⟨.router vm, f, .tap w.net.next⟩] N →
      N.devices = w.net.devices ++ [⟨vm, routerName pid, me.life⟩] →
      Q (0, routerName pid) (w.withNet N)) :
    (routerNetSetup bridge vm mac pid).wp (kernel.spec me ok H) Q w := by
  have hfd : ((w.net.freeFd me : Nat) : Int) ≠ -1 := by omega
  unfold routerNetSetup
  simp only [Prog.bind_eq, Prog.lift_bind, Prog.pure_eq]
  refine Prog.wp_bind.mpr (wp_setupTap hb hk ?_ ?_)
  · intro w' hw' hwhy
    obtain ⟨s, hs, e, hlog⟩ := hw'.log
    refine hbad w' ⟨hw'.agree, s, ?_, e, hlog⟩ (hwhy.imp_right Or.inl)
    simp only [List.mem_cons] at hs ⊢
    tauto
  · intro N hfree hN hdev
    rw [if_neg hfd]
    have hobj : N.obj me (w.net.freeFd me) = some (.tap w.net.next) :=
      NetState.obj_of_descs hN.descs
    refine wp_attempt (fun ch => rfl) ?_ ?_
    · intro e he
      refine wp_close hobj (wp_resume (fun _ => rfl) ?_)
      refine hbad _ ⟨hN.closeFd hdev, .chAddNet, by simp, e, rfl⟩ ?_
      rcases he with he | ⟨-, he⟩
      · exact Or.inl ⟨e, he⟩
      · refine Or.inr (Or.inr ?_)
        have hplugged : N.plugged vm (routerName pid) = true := NetState.chAddNet_error hobj he
        simpa [NetState.plugged, hdev] using hplugged
    · intro r M hM
      obtain ⟨hx, -, rfl, rfl⟩ := NetState.chAddNet_ok hobj hM
      refine wp_close (NetState.obj_of_descs (hN.descs_withDevice _ _ _ hx)) ?_
      refine hgood _ _ hfree (hN.handOver _ _ hme hx) ?_
      change N.devices ++ _ = _
      rw [hdev]
      rfl

theorem wp_fork {k : ForkResult → Prog Sys α} {Q : α → Host → Prop} {w : Host}
    (hbad : ∀ e, ok (some e) → (k .error).wp (kernel.spec me ok H) Q (w.fail me .fork e))
    (hgood : (k .parent).wp (kernel.spec me ok H) Q
      (w.withNet (w.net.forkFds me (.listener me.life)))) :
    (Prog.call .fork k).wp (kernel.spec me ok H) Q w := by
  constructor
  · intro ch w' _ hx
    cases ch <;> simp [kernel, exec] at hx
  · rintro b w' ⟨ch, o, hok, hx, ho⟩
    cases ch with
    | some e =>
      simp only [kernel, exec, Option.some.injEq, Prod.mk.injEq] at hx
      obtain ⟨rfl, rfl⟩ := hx
      simp only [Outcome.answer, Option.some.injEq] at ho
      subst ho
      exact hbad e hok
    | none =>
      simp only [kernel, exec, Option.some.injEq, Prod.mk.injEq] at hx
      obtain ⟨rfl, rfl⟩ := hx
      simp only [Outcome.answer, Option.some.injEq] at ho
      subst ho
      exact hgood

/-- `pipe`: two new descriptors with different numbers. -/
theorem NetState.pipe_ok {N M : NetState} {ends : Option (Nat × Nat)}
    (h : N.pipe me = .ok (ends, M)) :
    ∃ r v, ends = some (r, v) ∧ r ≠ v ∧ (∀ d ∈ N.descs, d.proc = me → d.fd ≠ r ∧ d.fd ≠ v) ∧
      M.ifaces = N.ifaces ∧ M.devices = N.devices ∧ M.next = N.next + 1 ∧
      M.descs = N.descs ++ [⟨me, r, .pipeRead N.next⟩, ⟨me, v, .pipeWrite N.next⟩] := by
  simp only [NetState.pipe, Except.ok.injEq, Prod.mk.injEq] at h
  obtain ⟨rfl, rfl⟩ := h
  have hv : ∀ d ∈ (N.tick.openFd me (.pipeRead N.next) (Nat.lt_succ_self _)).descs, _ :=
    fun d => freeFd_unused (p := me) _
  refine ⟨_, _, rfl, fun h => hv _ (List.mem_append_right _ (List.mem_singleton.mpr rfl)) ⟨rfl, h⟩,
    fun d hd hp => ⟨fun h => ?_, fun h => ?_⟩, rfl, rfl, rfl, List.append_assoc _ _ _⟩
  · exact N.tick.freeFd_unused hd ⟨hp, h⟩
  · exact hv d (List.mem_append_left _ hd) ⟨hp, h⟩

/-- Opening a pipe and closing both ends again leaves nothing behind. -/
theorem NetState.agree_pipe {N M : NetState} {r v : Nat} (h : N.pipe me = .ok (some (r, v), M)) :
    M.obj me r = some (.pipeRead N.next) ∧
      (M.closeFd me r).obj me v = some (.pipeWrite N.next) ∧
      N.Agree ((M.closeFd me r).closeFd me v) := by
  obtain ⟨r', v', hends, hne, hold, hi, hdev, hnext, hd⟩ := pipe_ok h
  cases hends
  have hr : ∀ d ∈ N.descs ++ [⟨me, v, .pipeWrite N.next⟩], ¬ (d.proc = me ∧ d.fd = r) := by
    intro d hm ⟨hp, hf⟩
    rcases List.mem_append.mp hm with hm | hm
    · exact (hold d hm hp).1 hf
    · rw [List.mem_singleton.mp hm] at hf
      exact hne hf.symm
  have hv : ∀ d ∈ N.descs, ¬ (d.proc = me ∧ d.fd = v) := fun d hm h => (hold d hm h.1).2 h.2
  have hd' := closeFd_descs_of hd hr
  -- Neither end is a tap.
  have hpipe : ∀ {L : NetState} {f : Nat}, (∀ d ∈ L.descs, d ∈ M.descs) → f = r ∨ f = v →
      (L.closeFd me f).ifaces = L.ifaces := by
    intro L f hsub hf
    refine closeFd_ifaces fun d hm hp hfd x hx => ?_
    have hfd : d.fd = f := by exact_mod_cast hfd
    have hm := hsub d hm
    rw [hd] at hm
    rcases List.mem_append.mp hm with hm | hm
    · have := hold d hm hp
      omega
    · simp only [List.mem_cons, List.not_mem_nil, or_false] at hm
      rcases hm with rfl | rfl <;> cases hx
  refine ⟨obj_of_descs_of hd fun d hm => hr d (List.mem_append_left _ hm),
    obj_of_descs_of hd' hv, ?_, ?_, hdev, ?_⟩
  · rw [hpipe (fun d hm => (mem_closeFd_descs.mp hm).1) (Or.inr rfl), hpipe (fun _ => id)
      (Or.inl rfl), hi]
  · simpa using closeFd_descs_of hd' (by simpa using hv)
  · exact Nat.le_of_lt (hnext ▸ Nat.lt_succ_self _)

/-- The parent's side: the listener is running, or nothing has happened. -/
theorem wp_exitListenerSetup {pid : Nat} {vm : VmDir} {id : IfName} {Q : Int → Host → Prop}
    {w : Host} (hbad : ∀ w', FailedAt [.pipe, .fork] w w' → Spontaneous ok → Q (-1) w')
    (hgood : ∀ N, Q 0 (w.withNet N)) :
    (exitListenerSetup pid vm id).wp (kernel.spec me ok H) Q w := by
  unfold exitListenerSetup
  simp only [Prog.bind_eq, Prog.lift_bind, Prog.pure_eq]
  refine wp_attempt (fun ch => rfl) ?_ ?_
  · rintro e (he | ⟨-, he⟩)
    · exact hbad _ ⟨.refl _, .pipe, by simp, e, rfl⟩ ⟨e, he⟩
    · simp [NetState.pipe] at he
  · intro ends M hM
    obtain ⟨r, v, rfl, hne, hold, -, -, -, hd⟩ := NetState.pipe_ok hM
    obtain ⟨hr, hv, hagree⟩ := NetState.agree_pipe hM
    refine wp_fork ?_ ?_
    · intro e he
      refine wp_close hr (wp_close hv ?_)
      exact hbad _ ⟨hagree, .fork, by simp, e, rfl⟩ ⟨e, he⟩
    · refine wp_close (o := .pipeWrite w.net.next) ?_ (hgood _)
      have hfork : (M.forkFds me (.listener me.life)).descs =
          (w.net.descs ++ [⟨me, r, .pipeRead w.net.next⟩]) ++ ⟨me, v, .pipeWrite w.net.next⟩ ::
            (M.descs.filter fun d => decide (d.proc = me)).map
              fun d => { d with proc := .listener me.life } := by
        change M.descs ++ _ = _
        rw [hd]
        simp
      refine NetState.obj_of_descs_of hfork fun d hm hown => ?_
      obtain ⟨hp, hf⟩ := hown
      rcases List.mem_append.mp hm with hm | hm
      · exact (hold d hm hp).2 hf
      · rw [List.mem_singleton.mp hm] at hf
        exact hne hf

end Spectrum.Net
