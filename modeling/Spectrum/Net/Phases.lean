import Mathlib.Data.List.Find
import Spectrum.Net.Atomic

/-!
# The phases of a lifetime

What a process knows about the network, at each point of its code. Until it forks, `start-vmm` is
alone and knows the whole state; so does the listener once `poll` has returned. In between the two
share it, and `Wired` is what both can rely on.

**`net_setup` gets from the first phase to the fork, and the listener from the fork to the last
one**, with no failures but those the state of the network forces. `lifeSpec` is what each call does
to a phase; that the phases are true of the network, whatever the schedule, is for
`Net/Lifetime.lean`.
-/

set_option autoImplicit false

namespace Spectrum.Net

open Interact Bytes

/-! ## The state the two processes share -/

/-- What the network looks like from the fork on: `N₀` with the bridge `b`, the client's tap `c`
and the router's tap `r`. The processes of the lifetime hold `c` and no other tap, and nobody
else holds it. -/
structure Wired (N₀ : NetState) (g pid : Nat) (vm : VmDir) (b c r : Iface) (N : NetState) :
    Prop where
  ifaces : N.ifaces = N₀.ifaces ++ [b, c, r]
  bridge : b.name = bridgeName pid ∧ b.kind = .bridge
  client : c.name = clientName pid
  router : r.name = routerName pid ∧ r.master = some b.index
  newer : N₀.next ≤ b.index ∧ N₀.next ≤ c.index ∧ N₀.next ≤ r.index
  plugged : N.plugged vm (routerName pid) = true
  mine : ∀ d ∈ N.descs, d.proc.Ours → d.proc = .vmm g ∨ d.proc = .listener g
  taps : ∀ d ∈ N.descs, ∀ x, d.obj = .tap x → (d.proc.Ours ↔ x = c.index)

namespace Wired

variable {N₀ N M : NetState} {g pid : Nat} {vm : VmDir} {b c r : Iface}

/-- Closing descriptors of the lifetime leaves the state wired, as long as one of them is left
for the client's tap. -/
theorem dropDescs (h : Wired N₀ g pid vm b c r N) {p : Desc → Bool}
    (hp : ∀ d ∈ N.descs, p d = true → d.proc.Ours)
    (hheld : ∃ d ∈ N.descs, p d = false ∧ d.obj = .tap c.index) :
    Wired N₀ g pid vm b c r (N.dropDescs p) where
  ifaces := by
    refine (List.filter_eq_self.mpr fun i hi => ?_).trans h.ifaces
    change (!(N.held i.index && !(N.dropDescs p).held i.index)) = true
    cases hh : N.held i.index with
    | false => rfl
    | true =>
      obtain ⟨d, hd, ho⟩ := NetState.held_iff.mp hh
      suffices hstill : (N.dropDescs p).held i.index = true by simp [hstill]
      cases hpd : p d with
      | false =>
        exact NetState.held_iff.mpr ⟨d, List.mem_filter.mpr ⟨hd, by simp [hpd]⟩, ho⟩
      | true =>
        -- A tap of ours is the client's, and another descriptor of it is left.
        obtain ⟨d', hd', hpd', ho'⟩ := hheld
        have hx := (h.taps d hd _ ho).mp (hp d hd hpd)
        exact NetState.held_iff.mpr ⟨d', List.mem_filter.mpr ⟨hd', by simp [hpd']⟩, hx ▸ ho'⟩
  bridge := h.bridge
  client := h.client
  router := h.router
  newer := h.newer
  plugged := h.plugged
  mine := fun d hd => h.mine d (List.mem_of_mem_filter hd)
  taps := fun d hd => h.taps d (List.mem_of_mem_filter hd)

/-- The listener starts with a copy of the descriptors. -/
theorem forkFds (h : Wired N₀ g pid vm b c r N) :
    Wired N₀ g pid vm b c r (N.forkFds (.vmm g) (.listener g)) where
  ifaces := h.ifaces
  bridge := h.bridge
  client := h.client
  router := h.router
  newer := h.newer
  plugged := h.plugged
  mine := by
    intro d hd ho
    rcases List.mem_append.mp hd with hd | hd
    · exact h.mine d hd ho
    · obtain ⟨d', -, rfl⟩ := List.mem_map.mp hd
      exact Or.inr rfl
  taps := by
    intro d hd x hx
    rcases List.mem_append.mp hd with hd | hd
    · exact h.taps d hd x hx
    · obtain ⟨d', hd', rfl⟩ := List.mem_map.mp hd
      obtain ⟨hm, hproc⟩ := List.mem_filter.mp hd'
      have hproc : d'.proc = .vmm g := by simpa using hproc
      exact ⟨fun _ => (h.taps d' hm x hx).mp (hproc ▸ trivial), fun _ => trivial⟩

end Wired

/-! ## Phases -/

/-- How far a process of the lifetime has got. -/
inductive LifePhase
  /-- `start-vmm`, alone on the host. -/
  | setup (w : Host)
  /-- `start-vmm` with the pipe open, about to fork. -/
  | piped (r v : Nat) (w : Host)
  /-- `start-vmm` after the fork, with the write end still to close. -/
  | up (v : Nat)
  /-- The listener, with the read end still to close. -/
  | child (r v : Nat)
  /-- The listener in `poll`. -/
  | waiting (v : Nat)
  /-- The listener, alone on the host. -/
  | cleaning (w : Host)

section

variable (N₀ : NetState) (g pid : Nat) (vm : VmDir)

/-- Ready to fork: `start-vmm` holds the client's tap and both ends of a pipe. -/
def Forkable (r v : Nat) (N : NetState) : Prop :=
  ∃ b c rt p, Wired N₀ g pid vm b c rt N ∧ r ≠ v ∧
    (∃ d ∈ N.descs, d.proc = .vmm g ∧ d.obj = .tap c.index) ∧
    (∃ d ∈ N.descs, d.proc = .vmm g ∧ d.fd = r ∧ d.obj = .pipeRead p) ∧
    (∀ d ∈ N.descs, d.proc = .vmm g → d.fd = r → d.obj = .pipeRead p) ∧
    N.obj (.vmm g) v = some (.pipeWrite p) ∧ ∀ d ∈ N.descs, d.proc ≠ .listener g

/-- The listener holds the client's tap and the write end `v` of the pipe `p`. -/
structure Parked (b c rt : Iface) (p v : Nat) (N : NetState) : Prop where
  wired : Wired N₀ g pid vm b c rt N
  client : ∃ d ∈ N.descs, d.proc = .listener g ∧ d.obj = .tap c.index
  writes : N.obj (.listener g) v = some (.pipeWrite p)

/-- `start-vmm` holds the read end, as another descriptor than `v`. -/
def Reads (p v : Nat) (N : NetState) : Prop :=
  ∃ d ∈ N.descs, d.proc = .vmm g ∧ d.fd ≠ v ∧ d.obj = .pipeRead p

/-- The listener's descriptor `r` is at most a read end, and not `v`. -/
def Spare (p r v : Nat) (N : NetState) : Prop :=
  r ≠ v ∧ ∀ d ∈ N.descs, d.proc = .listener g → d.fd = r → d.obj = .pipeRead p

/-- The VM process is gone, and the listener has all it needs. -/
def Down (N : NetState) : Prop :=
  ∃ b c rt p v, Parked N₀ g pid vm b c rt p v N ∧ ∀ d ∈ N.descs, d.proc ≠ .vmm g

/-- The name the router's tap is left with. -/
def leftName : IfName :=
  if N₀.find (deadName pid) = none then deadName pid else routerName pid

/-- What a lifetime leaves: one interface, and no descriptors. -/
structure Left (N : NetState) : Prop where
  free : N₀.find (bridgeName pid) = none ∧ N₀.find (routerName pid) = none
  ifaces : ∃ i, N.ifaces = N₀.ifaces ++ [i] ∧ i.name = leftName N₀ pid
  descs : ∀ d ∈ N.descs, ¬ d.proc.Ours

/-- The calls that do not involve the other process. -/
def Plain {β : Type} (c : Sys β) : Prop :=
  match c with
  | .pipe | .fork | .poll _ | .exit _ => False
  | _ => True

def lifeSpec : Spec Sys LifePhase where
  pre x c :=
    match x, c with
    | .setup _, .pipe => True
    | .setup _, c => Plain c
    | .piped r v w, .fork => Forkable N₀ g pid vm r v w.net
    | .up v, .close fd => fd = v
    | .child r _, .close fd => fd = r
    | .waiting v, .poll fd => fd = v
    | .cleaning w, .exit _ => Left N₀ pid (w.net.exitProc (.listener g))
    | .cleaning _, c => Plain c
    | _, _ => False
  post x c :=
    match x, c with
    | .setup w, .pipe => fun b y => ∃ w' r v,
        exec (.vmm g) .pipe w none = some (.resume b, w') ∧ b = some (r, v) ∧ y = .piped r v w'
    | .setup w, c => fun b y =>
        ∃ w', exec (.vmm g) c w none = some (.resume b, w') ∧ y = .setup w'
    | .piped r v _, .fork => fun b y => b = .parent ∧ y = .up v ∨ b = .child ∧ y = .child r v
    | .up v, _ => fun _ y => y = .up v
    | .child _ v, _ => fun _ y => y = .waiting v
    | .waiting _, .poll _ => fun b y => b = none ∧ ∃ w, Down N₀ g pid vm w.net ∧ y = .cleaning w
    | .cleaning w, c => fun b y =>
        ∃ w', exec (.listener g) c w none = some (.resume b, w') ∧ y = .cleaning w'
    | _, _ => fun _ _ => False

end

/-! ## The code keeps to plain calls while a process is alone -/

variable {α : Type}

theorem plain_withSocket {site : Site} {request : Prog Sys Int} (h : request.Only Plain) :
    (withSocket site request).Only Plain := by
  refine ⟨trivial, fun fd => ?_⟩
  change Prog.Only Plain (if fd = -1 then _ else _)
  split
  · trivial
  · exact h.bind fun _ => ⟨trivial, fun _ => trivial⟩

theorem plain_lift {c : Sys Int} (h : Plain c) : (Prog.lift c).Only Plain := ⟨h, fun _ => trivial⟩

theorem plain_ifChangeFlags (site : Site) (change : BitVec 16 → BitVec 16) (name : IfName) :
    (ifChangeFlags site change name).Only Plain := by
  refine plain_withSocket ⟨trivial, fun flags => ?_⟩
  cases flags with
  | none => trivial
  | some flags => exact plain_lift trivial

theorem plain_failWith (e : Errno) : (failWith e).Only Plain := ⟨trivial, fun _ => trivial⟩

theorem plain_bridgeAdd (name : IfName) : (bridgeAdd name).Only Plain := by
  unfold bridgeAdd
  split
  · exact plain_failWith _
  · split
    · exact plain_failWith _
    · exact plain_withSocket (plain_lift trivial)

theorem plain_ifRename (name newname : IfName) : (ifRename name newname).Only Plain := by
  unfold ifRename
  split
  · exact plain_failWith _
  · split
    · exact plain_failWith _
    · exact plain_withSocket (plain_lift trivial)

theorem plain_bridgeChangeIf {site : Site} {request : IfName → Nat → Sys Int}
    {brname ifname : IfName} (h : ∀ x, Plain (request (ifrName brname) x)) :
    (bridgeChangeIf site request brname ifname).Only Plain := by
  refine ⟨trivial, fun index => ?_⟩
  change Prog.Only Plain (if index = 0 then _ else _)
  split
  · trivial
  · exact plain_withSocket (plain_lift (h index))

theorem plain_bridgeAddIf (brname ifname : IfName) : (bridgeAddIf brname ifname).Only Plain :=
  plain_bridgeChangeIf fun _ => trivial

theorem plain_bridgeRemoveIf (brname ifname : IfName) :
    (bridgeRemoveIf brname ifname).Only Plain :=
  plain_bridgeChangeIf fun _ => trivial

theorem plain_bridgeDelete (name : IfName) : (bridgeDelete name).Only Plain :=
  (plain_ifChangeFlags _ _ _).bind fun _ => plain_withSocket (plain_lift trivial)

theorem plain_tapOpen (name : IfName) (excl : Bool) : (tapOpen name excl).Only Plain := by
  unfold tapOpen
  split
  · exact plain_failWith _
  · refine ⟨trivial, fun fd => ?_⟩
    change Prog.Only Plain (if fd = -1 then _ else _)
    split
    · trivial
    · refine ⟨trivial, fun r => ?_⟩
      change Prog.Only Plain (if r = -1 then _ else _)
      split
      · exact ⟨trivial, fun _ => trivial⟩
      · trivial

theorem plain_setupTap (bridge : IfName) (pfx : List Char) (pid : Nat) :
    (setupTap bridge pfx pid).Only Plain := by
  unfold setupTap
  simp only [Prog.bind_eq, Prog.lift_bind, Prog.pure_eq]
  refine (plain_tapOpen _ _).bind fun fd => ?_
  split
  · trivial
  · refine (plain_bridgeAddIf _ _).bind fun r => ?_
    split
    · exact ⟨trivial, fun _ => trivial⟩
    · refine (plain_ifChangeFlags _ _ _).bind fun r => ?_
      split
      · exact ⟨trivial, fun _ => trivial⟩
      · trivial

theorem plain_routerNetSetup (bridge : IfName) (vm : VmDir) (mac : Mac) (pid : Nat) :
    (routerNetSetup bridge vm mac pid).Only Plain := by
  unfold routerNetSetup
  simp only [Prog.bind_eq, Prog.lift_bind, Prog.pure_eq]
  refine (plain_setupTap _ _ _).bind fun a => ?_
  split
  · trivial
  · refine ⟨trivial, fun e => ⟨trivial, fun _ => ?_⟩⟩
    cases e with
    | none => trivial
    | some e => exact ⟨trivial, fun _ => trivial⟩

theorem plain_failBridge (pid : Nat) (r : NetConfig) : (failBridge pid r).Only Plain :=
  (plain_bridgeDelete _).bind fun _ => ⟨trivial, fun _ => trivial⟩

theorem plain_routerNetCleanup (pid : Nat) (vm : VmDir) (id : IfName) :
    (routerNetCleanup pid vm id).Only Plain := by
  refine ⟨trivial, fun e => ?_⟩
  cases e with
  | some e => exact plain_failWith e
  | none =>
    refine (plain_bridgeRemoveIf _ _).bind fun _ =>
      (plain_ifChangeFlags _ _ _).bind fun r => ?_
    change Prog.Only Plain (if r = -1 then _ else _)
    split
    · trivial
    · exact plain_ifRename _ _

/-! ## `net_setup`, up to the fork -/

variable {N₀ : NetState} {g pid : Nat} {vm : VmDir}

/-- Nothing fails of its own accord. -/
def quietOk (ch : Option Errno) : Prop := ch = none

theorem not_spontaneous : ¬ Spontaneous quietOk := by
  rintro ⟨e, ⟨⟩⟩

theorem lifeSpec_setup {β : Type} {c : Sys β} (hc : Plain c) {w : Host} :
    (lifeSpec N₀ g pid vm).pre (.setup w) c ∧ ∀ b y, (lifeSpec N₀ g pid vm).post (.setup w) c b y →
      ∃ w', exec (.vmm g) c w none = some (.resume b, w') ∧ y = .setup w' := by
  cases c <;> first | exact ⟨trivial, fun _ _ h => h⟩ | exact hc.elim

theorem lifeSpec_cleaning {β : Type} {c : Sys β} (hc : Plain c) {w : Host} :
    (lifeSpec N₀ g pid vm).pre (.cleaning w) c ∧
      ∀ b y, (lifeSpec N₀ g pid vm).post (.cleaning w) c b y →
        ∃ w', exec (.listener g) c w none = some (.resume b, w') ∧ y = .cleaning w' := by
  cases c <;> first | exact ⟨trivial, fun _ _ h => h⟩ | exact hc.elim

/-- A process that is alone on the host is verified against the kernel itself. -/
theorem wp_setup {p : Prog Sys α} (hp : p.Only Plain) {Q : α → Host → Prop} {w : Host}
    (h : p.wp (kernel.spec (.vmm g) quietOk fun _ => True) Q w) :
    p.wp (lifeSpec N₀ g pid vm) (fun a y => ∃ u, y = .setup u ∧ Q a u) (.setup w) := by
  refine Prog.wp_simulate (fun u (y : LifePhase) => y = .setup u) ?_ ?_ hp rfl h
  · rintro β c u y hc rfl -
    exact (lifeSpec_setup hc).1
  · rintro β c u y b y' hc rfl hb
    obtain ⟨w', hx, rfl⟩ := (lifeSpec_setup hc).2 b y' hb
    exact ⟨w', rfl, none, _, rfl, hx, rfl⟩

theorem wp_cleaning {p : Prog Sys α} (hp : p.Only Plain) {Q : α → Host → Prop} {w : Host}
    (h : p.wp (kernel.spec (.listener g) quietOk fun _ => True) Q w) :
    p.wp (lifeSpec N₀ g pid vm) (fun a y => ∃ u, y = .cleaning u ∧ Q a u) (.cleaning w) := by
  refine Prog.wp_simulate (fun u (y : LifePhase) => y = .cleaning u) ?_ ?_ hp rfl h
  · rintro β c u y hc rfl -
    exact (lifeSpec_cleaning hc).1
  · rintro β c u y b y' hc rfl hb
    obtain ⟨w', hx, rfl⟩ := (lifeSpec_cleaning hc).2 b y' hb
    exact ⟨w', rfl, none, _, rfl, hx, rfl⟩

/-- What `net_setup` owes: a result that is not a failure comes from the far side of the fork. -/
def SetupDone (r : NetConfig) (y : LifePhase) : Prop := r.fd = -1 ∨ ∃ v, y = .up v

theorem wp_failBridge_life (r : NetConfig) (w : Host) :
    (failBridge pid r).wp (lifeSpec N₀ g pid vm) SetupDone (.setup w) := by
  have hdelete : (bridgeDelete (bridgeName pid)).wp (kernel.spec (.vmm g) quietOk fun _ => True)
      (fun _ _ => True) w := wp_bridgeDelete (fun _ _ _ _ => trivial) fun _ _ _ => trivial
  refine Prog.wp_seq (wp_setup (plain_bridgeDelete _) hdelete) ?_
  rintro _ _ ⟨u, rfl, -⟩
  exact ⟨trivial, fun _ _ _ => Or.inl rfl⟩

/-- After `router_net_setup` everything is wired up. -/
theorem Wired.of_plus {N₂ N₃ N₄ : NetState} {b c r : Iface} {f : Nat}
    (hours : ∀ d ∈ N₀.descs, ¬ d.proc.Ours) (hb : b.name = bridgeName pid ∧ b.kind = .bridge)
    (hc : c.name = clientName pid) (hr : r.name = routerName pid ∧ r.master = some b.index)
    (h₂ : N₀.Plus b [] N₂) (h₃ : N₂.Plus c [⟨.vmm g, N₂.freeFd (.vmm g), .tap N₂.next⟩] N₃)
    (h₄ : N₃.Plus r [⟨.router vm, f, .tap N₃.next⟩] N₄)
    (hdev : N₄.plugged vm (routerName pid) = true) : Wired N₀ g pid vm b c r N₄ := by
  have hdescs : N₄.descs = N₀.descs ++ [⟨.vmm g, N₂.freeFd (.vmm g), .tap N₂.next⟩,
      ⟨.router vm, f, .tap N₃.next⟩] := by
    rw [h₄.descs, h₃.descs, h₂.descs, List.append_nil, List.append_assoc]
    rfl
  have hx₂ : N₀.next ≤ N₂.next := Nat.le_of_lt h₂.next
  have hx₃ : N₂.next < N₃.next := h₃.next
  refine ⟨?_, hb, hc, hr, ⟨h₂.index.ge, h₃.index.symm ▸ hx₂, ?_⟩, hdev, ?_, ?_⟩
  · rw [h₄.ifaces, h₃.ifaces, h₂.ifaces, List.append_assoc, List.append_assoc]
    rfl
  · rw [h₄.index]
    omega
  · intro d hd ho
    rw [hdescs] at hd
    rcases List.mem_append.mp hd with hd | hd
    · exact absurd ho (hours d hd)
    · simp only [List.mem_cons, List.not_mem_nil, or_false] at hd
      rcases hd with rfl | rfl
      · exact Or.inl rfl
      · exact ho.elim
  · intro d hd x hx
    rw [h₃.index]
    rw [hdescs] at hd
    rcases List.mem_append.mp hd with hd | hd
    · refine ⟨fun ho => absurd ho (hours d hd), fun h => ?_⟩
      exact absurd (h ▸ hx) (NetState.obj_ne hx₂ hd)
    · simp only [List.mem_cons, List.not_mem_nil, or_false] at hd
      rcases hd with rfl | rfl
      · injection hx with hx
        exact ⟨fun _ => hx.symm, fun _ => trivial⟩
      · injection hx with hx
        exact ⟨False.elim, fun h => absurd (hx.trans h) (by omega)⟩

/-- Opening the pipe makes it ready to fork. -/
theorem Forkable.of_pipe {N N' : NetState} {b c r : Iface} {ends : Option (Nat × Nat)}
    (h : Wired N₀ g pid vm b c r N)
    (hclient : ∃ d ∈ N.descs, d.proc = .vmm g ∧ d.obj = .tap c.index)
    (hfresh : ∀ d ∈ N.descs, d.proc ≠ .listener g) (hpipe : N.pipe (.vmm g) = .ok (ends, N')) :
    ∃ r v, ends = some (r, v) ∧ Forkable N₀ g pid vm r v N' := by
  obtain ⟨r', v', rfl, hne, hold, hi, hv, -, hd⟩ := NetState.pipe_ok hpipe
  have hmem : ∀ d ∈ N'.descs, d ∈ N.descs ∨ d = ⟨.vmm g, r', .pipeRead N.next⟩ ∨
      d = ⟨.vmm g, v', .pipeWrite N.next⟩ := by
    intro d hm
    rw [hd] at hm
    simpa using hm
  have hsub : ∀ d ∈ N.descs, d ∈ N'.descs := fun d hm => hd ▸ List.mem_append_left _ hm
  refine ⟨r', v', rfl, b, c, r, N.next,
    ⟨hi.trans h.ifaces, h.bridge, h.client, h.router, h.newer, ?_, ?_, ?_⟩, hne, ?_,
    ⟨_, hd ▸ List.mem_append_right _ (List.mem_cons_self), rfl, rfl, rfl⟩, ?_, ?_, ?_⟩
  · simpa only [NetState.plugged, hv] using h.plugged
  · intro d hm ho
    rcases hmem d hm with hm | rfl | rfl
    · exact h.mine d hm ho
    · exact Or.inl rfl
    · exact Or.inl rfl
  · intro d hm x hx
    rcases hmem d hm with hm | rfl | rfl
    · exact h.taps d hm x hx
    · cases hx
    · cases hx
  · obtain ⟨d, hm, hp, ho⟩ := hclient
    exact ⟨d, hsub d hm, hp, ho⟩
  · intro d hm hp hf
    rcases hmem d hm with hm | rfl | rfl
    · exact absurd hf (hold d hm hp).1
    · rfl
    · exact absurd hf.symm hne
  · have hsplit : N'.descs = (N.descs ++ [⟨.vmm g, r', .pipeRead N.next⟩]) ++
        ⟨.vmm g, v', .pipeWrite N.next⟩ :: [] := by
      rw [hd, List.append_assoc]
      rfl
    refine NetState.obj_of_descs_of hsplit fun d hm hown => ?_
    obtain ⟨hp, hf⟩ := hown
    rcases List.mem_append.mp hm with hm | hm
    · exact (hold d hm hp).2 hf
    · rw [List.mem_singleton.mp hm] at hf
      exact hne hf
  · intro d hm
    rcases hmem d hm with hm | rfl | rfl
    · exact hfresh d hm
    · simp
    · simp

/-- **`net_setup` succeeds only through the fork.** -/
theorem wp_netSetup_life {w : Host} (hw : w.net = N₀) (hours : ∀ d ∈ N₀.descs, ¬ d.proc.Ours)
    (hchild : ∀ {r v : Nat}, (Prog.call (.close r) fun _ =>
        exitListenerMain v pid vm (routerName pid) : Prog Sys Int).wp (lifeSpec N₀ g pid vm)
          (fun _ _ => False) (.child r v)) :
    (netSetup pid vm).wp (lifeSpec N₀ g pid vm) SetupDone (.setup w) := by
  subst hw
  unfold netSetup
  simp only [Prog.bind_eq, Prog.pure_eq]
  -- The bridge.
  refine Prog.wp_seq (wp_setup (plain_bridgeAdd _) (wp_bridgeAdd_plus
    (Q := fun a u => a = -1 ∨ w.net.find (bridgeName pid) = none ∧
      w.net.Plus ⟨bridgeName pid, w.net.next, .bridge, 0, none, g⟩ [] u.net)
    (fun _ _ => Or.inl rfl) fun M hfree hM _ => Or.inr ⟨hfree, hM⟩)) ?_
  rintro a _ ⟨w₁, rfl, h⟩
  split
  · exact Or.inl rfl
  obtain ⟨hfree, h₁⟩ := h.resolve_left (by assumption)
  refine Prog.wp_seq (wp_setup (plain_ifChangeFlags _ _ _) (wp_ifUp_plus h₁ rfl hfree
    (ifrName_bridgeName pid)
    (Q := fun a u => a = -1 ∨
      w.net.Plus ⟨bridgeName pid, w.net.next, .bridge, 0 ||| IFF_UP, none, g⟩ [] u.net)
    (fun _ _ => Or.inl rfl) fun M hM _ => Or.inr hM)) ?_
  rintro a _ ⟨w₂, rfl, h⟩
  split
  · exact wp_failBridge_life _ _
  have h₂ := h.resolve_left (by assumption)
  -- The client's tap.
  refine Prog.wp_seq (wp_setup (plain_setupTap _ _ _) (wp_setupTap (h₂.find_bridge rfl) rfl
    (Q := fun a u => a.1 = -1 ∨
      w₂.net.Plus ⟨clientName pid, w₂.net.next, .tap, 0 ||| IFF_UP, some w.net.next, g⟩
        [⟨.vmm g, w₂.net.freeFd (.vmm g), .tap w₂.net.next⟩] u.net)
    (fun _ _ _ => Or.inl rfl) fun N _ hN _ => Or.inr hN)) ?_
  rintro ⟨fd, id⟩ _ ⟨w₃, rfl, h⟩
  split
  · exact wp_failBridge_life _ _
  have h₃ := h.resolve_left (by assumption)
  -- The router's tap and device.
  refine Prog.wp_seq (wp_setup (plain_routerNetSetup _ _ _ _) (wp_routerNetSetup (by simp)
    (h₃.find_old (h₂.find_bridge rfl)) rfl
    (Q := fun a u => a.1 = -1 ∨ a.2 = routerName pid ∧ u.net.plugged vm (routerName pid) = true ∧
      ∃ f, w₃.net.Plus ⟨routerName pid, w₃.net.next, .tap, 0 ||| IFF_UP, some w.net.next, g⟩
        [⟨.router vm, f, .tap w₃.net.next⟩] u.net)
    (fun _ _ _ => Or.inl rfl)
    fun N f _ hN hdev => Or.inr ⟨rfl, by simp [NetState.plugged, hdev], f, hN⟩)) ?_
  rintro ⟨router, deviceId⟩ _ ⟨w₄, rfl, h⟩
  split
  · exact wp_failBridge_life _ _
  obtain ⟨rfl, hdev, f, h₄⟩ := h.resolve_left (by assumption)
  have hwired := Wired.of_plus hours ⟨rfl, rfl⟩ rfl ⟨rfl, rfl⟩ h₂ h₃ h₄ hdev
  have hdescs : ∀ d ∈ w₄.net.descs, d ∈ w.net.descs ∨ d.proc = .vmm g ∨ d.proc = .router vm := by
    intro d hd
    rw [h₄.descs, h₃.descs, h₂.descs] at hd
    simp only [List.append_nil, List.mem_append, List.mem_singleton, or_assoc] at hd
    exact hd.imp_right (Or.imp (congrArg Desc.proc) (congrArg Desc.proc))
  -- The pipe and the fork, neither of which fails.
  have hfork : (exitListenerSetup pid vm (routerName pid)).wp (lifeSpec w.net g pid vm)
      (fun a y => a = 0 ∧ ∃ v, y = .up v) (.setup w₄) := by
    unfold exitListenerSetup
    simp only [Prog.bind_eq, Prog.lift_bind, Prog.pure_eq]
    refine ⟨trivial, ?_⟩
    rintro ends _ ⟨w₅, r, v, hx, rfl, rfl⟩
    have hx : w₄.attempt (.vmm g) .pipe (fun _ => none) none (w₄.net.pipe (.vmm g)) =
      some (.resume (some (r, v)), w₅) := hx
    rcases Host.attempt_cases hx with ⟨e, -, ho, -⟩ | ⟨ends, N, -, hN, ho, rfl⟩
    · cases ho
    · cases ho
      have hclient : ∃ d ∈ w₄.net.descs, d.proc = .vmm g ∧ d.obj = .tap w₂.net.next :=
        ⟨⟨.vmm g, w₂.net.freeFd (.vmm g), .tap w₂.net.next⟩, by simp [h₄.descs, h₃.descs], rfl, rfl⟩
      have hfresh : ∀ d ∈ w₄.net.descs, d.proc ≠ .listener g := by
        intro d hd hp
        rcases hdescs d hd with hd | hd | hd
        · exact hours d hd (hp ▸ trivial)
        · exact absurd (hp.symm.trans hd) (by simp)
        · exact absurd (hp.symm.trans hd) (by simp)
      obtain ⟨r', v', hends, hfork⟩ := Forkable.of_pipe hwired hclient hfresh hN
      cases hends
      refine ⟨hfork, ?_⟩
      rintro b y (⟨rfl, rfl⟩ | ⟨rfl, rfl⟩)
      · exact ⟨rfl, fun _ y hy => ⟨rfl, v, hy⟩⟩
      · exact Prog.wp_mono (fun _ _ h => h.elim) hchild
  refine Prog.wp_seq hfork ?_
  rintro _ _ ⟨rfl, hup⟩
  exact Or.inr hup

/-! ## The exit listener's cleanup -/

/-- The router's end has been dealt with: its tap has the name it is left with. -/
structure Unplugged (N₀ : NetState) (g pid : Nat) (b c r : Iface) (N : NetState) : Prop where
  ifaces : N.ifaces = N₀.ifaces ++ [b, c, r]
  bridge : b.name = bridgeName pid ∧ b.kind = .bridge
  newer : N₀.next ≤ b.index ∧ N₀.next ≤ c.index
  name : r.name = leftName N₀ pid
  mine : ∀ d ∈ N.descs, d.proc.Ours → d.proc = .listener g
  taps : ∀ d ∈ N.descs, ∀ x, d.obj = .tap x → (d.proc.Ours ↔ x = c.index)
  client : ∃ d ∈ N.descs, d.obj = .tap c.index

/-- The tap is set down and renamed, unless `_dead<pid>` is taken already. -/
theorem wp_freeName {me : Proc} {w : Host} {b c r : Iface}
    (hi : w.net.ifaces = N₀.ifaces ++ [b, c, r]) (hb : b.name = bridgeName pid)
    (hc : c.name = clientName pid) (hr : r.name = routerName pid) :
    ((ifDown (routerName pid)).bind fun s =>
        if s = -1 then .ret (-1) else ifRename (routerName pid) (deadName pid)).wp
      (kernel.spec me quietOk fun _ => True)
      (fun _ u => ∃ r', u.net.ifaces = N₀.ifaces ++ [b, c, r'] ∧ r'.name = leftName N₀ pid ∧
        u.net.descs = w.net.descs) w := by
  have hlast : ∀ r' : Iface, N₀.ifaces ++ [b, c, r'] = (N₀.ifaces ++ [b, c]) ++ [r'] :=
    fun r' => by rw [List.append_assoc]; rfl
  have hfind : ∀ {N : NetState} {r' : Iface}, N.ifaces = N₀.ifaces ++ [b, c, r'] →
      r'.name = routerName pid → N.find (routerName pid) = some r' := fun hN hn =>
    NetState.find_of_ifaces hN (by simp) hn
  refine Prog.wp_bind.mpr (wp_ifChangeFlags ?_ ?_)
  · intro e he
    have hnone := he.resolve_left not_spontaneous
    rw [ifrName_routerName, hfind hi hr] at hnone
    cases hnone
  intro i hi'
  rw [ifrName_routerName] at hi' ⊢
  obtain rfl := Option.some.inj ((hfind hi hr).symm.trans hi')
  rw [if_neg (by decide)]
  have hi₁ : (w.net.withFlags (routerName pid) (r.flags &&& ~~~IFF_UP)).ifaces =
      N₀.ifaces ++ [b, c, { r with flags := r.flags &&& ~~~IFF_UP }] := by
    rw [← hr, hlast]
    exact NetState.map_last_name (hi.trans (hlast r)) fun i =>
      { i with flags := r.flags &&& ~~~IFF_UP }
  have hr₁ := hfind hi₁ hr
  refine wp_ifRename (not_tooLong_snprintf _ _) (percent_not_mem_snprintf (by decide) _) ?_ ?_
  · intro e he
    refine ⟨_, hi₁, ?_, rfl⟩
    rw [ifrName_routerName, Host.withNet_net] at he
    rcases he.resolve_left not_spontaneous with hnone | ⟨i, hi', hup⟩ | htaken
    · rw [hr₁] at hnone
      cases hnone
    · obtain rfl := Option.some.inj (hr₁.symm.trans hi')
      rw [isUp_down] at hup
      cases hup
    · -- The name is taken by something that was there before.
      have hold : N₀.find (deadName pid) ≠ none := fun hfree =>
        htaken (NetState.find_eq_none.mpr ?_)
      · rw [leftName, if_neg hold]
        exact hr
      · have := NetState.find_eq_none.mp hfree
        rw [hi₁]
        simp [hb, hc, hr, dead_ne_bridge, dead_ne_client, dead_ne_router] at this ⊢
        exact this
  · intro i hfree hi' _
    rw [ifrName_routerName] at hi' ⊢
    refine ⟨{ r with name := deadName pid, flags := r.flags &&& ~~~IFF_UP }, ?_, ?_, rfl⟩
    · rw [hlast]
      have := NetState.map_last_name (hi₁.trans (hlast _)) fun i => { i with name := deadName pid }
      rw [hr] at this
      exact this
    · have hold : N₀.find (deadName pid) = none := by
        refine NetState.find_eq_none.mpr fun hm => NetState.find_eq_none.mp hfree ?_
        rw [Host.withNet_net, hi₁, List.map_append]
        exact List.mem_append_left _ hm
      rw [leftName, if_pos hold]

theorem wp_routerNetCleanup_down {w : Host} (h : Down N₀ g pid vm w.net) :
    (routerNetCleanup pid vm (routerName pid)).wp
      (kernel.spec (.listener g) quietOk fun _ => True)
      (fun _ u => (N₀.find (bridgeName pid) = none ∧ N₀.find (routerName pid) = none) ∧
        ∃ b c r, Unplugged N₀ g pid b c r u.net) w := by
  obtain ⟨b, c, r, p, v, ⟨hw, ⟨d, hd, -, hdo⟩, -⟩, hdown⟩ := h
  have hmine : ∀ d ∈ w.net.descs, d.proc.Ours → d.proc = .listener g := fun d hd ho =>
    (hw.mine d hd ho).resolve_left (hdown d hd)
  have hfree : N₀.find (bridgeName pid) = none ∧ N₀.find (routerName pid) = none := by
    have hnodup := w.net.names_nodup
    rw [hw.ifaces, List.map_append, List.nodup_append] at hnodup
    refine ⟨NetState.find_eq_none.mpr fun hm => ?_, NetState.find_eq_none.mpr fun hm => ?_⟩
    · exact hnodup.2.2 _ hm _ (by simp) hw.bridge.1.symm
    · exact hnodup.2.2 _ hm _ (by simp) hw.router.1.symm
  unfold routerNetCleanup
  simp only [Prog.bind_eq, Prog.lift_bind, Prog.pure_eq]
  -- The device is plugged in, so it can be removed.
  refine wp_attempt (fun ch => rfl) ?_ ?_
  · rintro e (he | ⟨-, he⟩)
    · cases he
    · have := NetState.chRemoveDevice_error he
      rw [hw.plugged] at this
      cases this
  intro e N₁ hN₁
  obtain ⟨rfl, rfl⟩ := NetState.chRemoveDevice_ok hN₁
  have hi₁ : (w.net.withoutDevice vm (routerName pid)).ifaces = N₀.ifaces ++ [b, c, r] := hw.ifaces
  have hb₁ : (w.net.withoutDevice vm (routerName pid)).find (bridgeName pid) = some b :=
    NetState.find_of_ifaces hi₁ (by simp) hw.bridge.1
  have hr₁ : (w.net.withoutDevice vm (routerName pid)).find (routerName pid) = some r :=
    NetState.find_of_ifaces hi₁ (by simp) hw.router.1
  -- The tap is a port of the bridge, so it can be taken out.
  refine Prog.wp_bind.mpr (wp_bridgeRemoveIf ?_ ?_)
  · intro e he
    refine absurd ?_ (he.resolve_left not_spontaneous)
    rw [ifrName_bridgeName]
    exact ⟨b, r, hb₁, hr₁, hw.bridge.2, hw.router.2⟩
  rintro b' i ⟨-, hi, -, -⟩
  obtain rfl := Option.some.inj (hr₁.symm.trans hi)
  have hi₂ : ((w.net.withoutDevice vm (routerName pid)).withMaster r.index none
      NetState.none_below).ifaces = N₀.ifaces ++ [b, c, { r with master := none }] := by
    have hlast : ∀ r' : Iface, N₀.ifaces ++ [b, c, r'] = (N₀.ifaces ++ [b, c]) ++ [r'] :=
      fun r' => by rw [List.append_assoc]; rfl
    rw [hlast]
    exact NetState.map_last_index (hi₁.trans (hlast r)) fun i => { i with master := none }
  refine Prog.wp_mono ?_ (wp_freeName hi₂ hw.bridge.1 hw.client hw.router.1)
  rintro _ u ⟨r', hi', hn, hds⟩
  have hds : u.net.descs = w.net.descs := hds
  exact ⟨hfree, b, c, r', hi', hw.bridge, ⟨hw.newer.1, hw.newer.2.1⟩, hn, hds ▸ hmine,
    hds ▸ hw.taps, hds ▸ ⟨d, hd, hdo⟩⟩

/-- With the bridge deleted and the listener gone, only the router's tap is left. -/
theorem Left.of_exit {N : NetState} {b c r : Iface} (h : Unplugged N₀ g pid b c r N)
    (hfree : N₀.find (bridgeName pid) = none ∧ N₀.find (routerName pid) = none) {M : NetState}
    (hi : M.ifaces = N₀.ifaces ++ [c, r].map (Iface.released b.index)) (hd : M.descs = N.descs) :
    Left N₀ pid (M.exitProc (.listener g)) := by
  have hne : r.index ≠ c.index := by
    have hnodup := N.indices_nodup
    rw [h.ifaces] at hnodup
    simp only [List.map_append, List.map_cons, List.map_nil, List.nodup_append,
      List.nodup_cons, List.mem_cons, List.not_mem_nil, or_false] at hnodup
    exact fun he => hnodup.2.1.2.1 he.symm
  have hgone : ∀ d ∈ (M.exitProc (.listener g)).descs, ¬ d.proc.Ours := by
    intro d hm ho
    obtain ⟨hm, hp⟩ := List.mem_filter.mp hm
    rw [hd] at hm
    simp [h.mine d hm ho] at hp
  have hindex : ∀ i : Iface, (i.released b.index).index = i.index := by
    intro i
    unfold Iface.released
    split <;> rfl
  -- The client's tap loses its last descriptor; the others keep what they had.
  have hkeep : ∀ i : Iface, i.index ≠ c.index →
      (!(M.held i.index && !(M.exitProc (.listener g)).held i.index)) = true := by
    intro i hne
    cases hh : M.held i.index with
    | false => rfl
    | true =>
      obtain ⟨d, hm, ho⟩ := NetState.held_iff.mp hh
      have hnot : ¬ d.proc.Ours := fun hours => hne ((h.taps d (hd ▸ hm) _ ho).mp hours)
      have hstill : (M.exitProc (.listener g)).held i.index = true := by
        refine NetState.held_iff.mpr ⟨d, List.mem_filter.mpr ⟨hm, ?_⟩, ho⟩
        have : d.proc ≠ .listener g := fun hp => hnot (hp ▸ trivial)
        simpa using this
      simp [hstill]
  have hdrop : (!(M.held c.index && !(M.exitProc (.listener g)).held c.index)) = false := by
    have hheld : M.held c.index = true := by
      obtain ⟨d, hm, ho⟩ := h.client
      exact NetState.held_iff.mpr ⟨d, hd ▸ hm, ho⟩
    have hnot : (M.exitProc (.listener g)).held c.index = false := by
      refine Bool.eq_false_iff.mpr fun hh => ?_
      obtain ⟨d, hm, ho⟩ := NetState.held_iff.mp hh
      have hm' : d ∈ N.descs := hd ▸ List.mem_of_mem_filter hm
      exact hgone d hm ((h.taps d hm' _ ho).mpr rfl)
    simp [hheld, hnot]
  refine ⟨hfree, ⟨r.released b.index, ?_, (Iface.released_name _ _).trans h.name⟩, hgone⟩
  change M.ifaces.filter
    (fun i => !(M.held i.index && !(M.exitProc (.listener g)).held i.index)) = _
  rw [hi, List.filter_append, List.filter_eq_self.mpr fun i hm =>
    hkeep i (NetState.index_ne h.newer.2 hm)]
  simp only [List.map_cons, List.map_nil]
  have hr : (r.released b.index).index ≠ c.index := by rwa [hindex]
  rw [List.filter_cons_of_neg (by rw [hindex, hdrop]; simp), List.filter_eq_self.mpr]
  simpa only [List.mem_singleton, forall_eq] using hkeep _ hr

/-- The exit listener, from the moment it is forked. -/
theorem wp_child_life {β : Type} {r v : Nat} :
    (Prog.call (.close r) fun _ =>
        exitListenerMain v pid vm (routerName pid) : Prog Sys β).wp (lifeSpec N₀ g pid vm)
          (fun _ _ => False) (.child r v) := by
  refine ⟨rfl, ?_⟩
  rintro _ _ rfl
  refine Prog.wp_loop (fun _ y => y = .waiting v) rfl ?_
  rintro _ _ rfl
  refine ⟨rfl, ?_⟩
  rintro _ _ ⟨rfl, w, hdown, rfl⟩
  refine ⟨nofun, fun _ => ?_⟩
  refine Prog.wp_seq
    (wp_cleaning (plain_routerNetCleanup _ _ _) (wp_routerNetCleanup_down hdown)) ?_
  rintro s _ ⟨u, rfl, hfree, b, c, r, hu⟩
  have hfind : u.net.find (ifrName (bridgeName pid)) = some b := by
    rw [ifrName_bridgeName]
    exact NetState.find_of_ifaces hu.ifaces (by simp) hu.bridge.1
  have hdelete : (bridgeDelete (bridgeName pid)).wp
      (kernel.spec (.listener g) quietOk fun _ => True)
      (fun _ u' => Left N₀ pid (u'.net.exitProc (.listener g))) u := by
    refine wp_bridgeDelete ?_ ?_
    · intro _ _ _ hwhy
      exact absurd ⟨b, hfind, hu.bridge.2⟩ (hwhy.resolve_left not_spontaneous)
    · intro b' hb' _
      obtain rfl : b = b' := Option.some.inj (hfind.symm.trans hb')
      refine Left.of_exit hu hfree ?_ rfl
      rw [ifrName_bridgeName, ← hu.bridge.1]
      exact NetState.delete_ifaces hu.ifaces (hu.bridge.1 ▸ hfree.1) hu.newer.1 _
  refine Prog.wp_seq (wp_cleaning (plain_bridgeDelete _) hdelete) ?_
  rintro s' _ ⟨u', rfl, hleft⟩
  exact ⟨hleft, fun b => b.elim⟩

end Spectrum.Net
