import Spectrum.Interact.Schedule
import Spectrum.Net.Address

/-!
# The network VM's interfaces

In the network VM, mdevd runs `/etc/mdev/iface` for every interface that appears, one at a time. An
interface that leads to another VM gets the router's address, is set up, and gets a route for that
VM's IP address; what goes out of any other one is masqueraded, and connman is started. Interfaces
come and go while all this happens: the host plugs one in for each VM it starts and pulls it when
the VM has ended, and with it go its routes.

**Once mdevd has caught up, what is sent to a VM's IP address goes out of that VM's interface**
(`router_delivers`), whatever came and went before, and what is masqueraded are interfaces that lead
to no VM. This is under the assumption that things go smoothly: nothing is pulled before the script
has run for it, no two interfaces that are there at the same time are for the same IP address, and
no service or kernel module fails to load. The first one matters for more than the interface itself.
When the script finds no `address` file, `grep` fails, and the interface passes for one that leads
to no VM: its name is masqueraded from then on, and the kernel gives names out again.

`ip route add` fails if there is a route for the address. `s6-rc` and `modprobe` fail if `ok` is
false.
-/

set_option autoImplicit false

namespace Spectrum.Net.Router

open Schedule Text Bytes Spectrum.Vmm

/-! ## The scripts -/

structure Link where
  index : Nat
  name : OsString
  /-- The content of `/sys/class/net/NAME/address`. -/
  address : List UInt8
  /-- It has the address 169.254.0.1. -/
  addressed : Bool
  up : Bool

/-- The condition of the script. -/
def Link.isVm (l : Link) : Bool := grepStart (os "0A:B3:EC:") l.address

/-- What connman looks for: neither a VM's address nor the one of the loopback device. -/
def Link.isHardware (l : Link) : Bool :=
  !l.isVm && !(records l.address).any fun r => r = os "00:00:00:00:00:00"

/-- How far the script has got. -/
inductive Phase
  | grep
  /-- `backtick -E CLIENT_IP`. -/
  | awk
  | addressAdd (ip : List UInt8)
  | linkSet (ip : List UInt8)
  | routeAdd (ip : List UInt8)
  | testLo
  | nftables
  | modprobe
  | addRule

structure State where
  links : List Link
  /-- The next interface's index. -/
  next : Nat
  routes : List (List UInt8 × Nat)
  /-- The rules of `nftables.conf` are loaded. -/
  nat : Bool
  masquerade : List OsString
  queue : List OsString
  script : Option (OsString × Phase)
  connmanWanted : Bool
  /-- The interfaces that connman was started with. -/
  connman : Option (List OsString)
  /-- The interfaces there have been that lead to no VM, as they came. -/
  others : List Link
  /-- Things have gone smoothly. -/
  smooth : Bool

namespace State

variable (s : State)

def find (name : OsString) : Option Link := s.links.find? fun l => l.name = name

def modify (name : OsString) (f : Link → Link) : State :=
  { s with links := s.links.map fun l => if l.name = name then f l else l }

/-- The interfaces the script has yet to run for, or to finish. -/
def pending : List OsString := (s.script.map Prod.fst).toList ++ s.queue

end State

inductive Actor
  | plug (name : OsString) (address : List UInt8)
  | unplug (index : Nat)
  | mdevd
  | script (ok : Bool)
  | connman

def plug (s : State) (name : OsString) (address : List UInt8) : Option State :=
  let l : Link := ⟨s.next, name, address, false, false⟩
  if s.links.any fun l => l.name = name then none
  else some
    { s with
      links := s.links ++ [l]
      next := s.next + 1
      queue := s.queue ++ [name]
      others := if l.isVm then s.others else s.others ++ [l]
      smooth := s.smooth && !(l.isVm &&
        s.links.any fun l => l.isVm && clientIp l.address = clientIp address) }

def unplug (s : State) (index : Nat) : Option State :=
  match s.links.find? fun l => l.index = index with
  | none => none
  | some l => some
    { s with
      links := s.links.filter fun l => l.index ≠ index
      routes := s.routes.filter fun r => r.2 ≠ index
      smooth := s.smooth && !s.pending.contains l.name }

def mdevdStep (s : State) : Option State :=
  match s.script, s.queue with
  | none, name :: queue => some { s with script := some (name, .grep), queue }
  | _, _ => none

def scriptStep (s : State) (ok : Bool) : Option State :=
  match s.script with
  | none => none
  | some (name, phase) =>
    let next (phase : Phase) (s : State) : State := { s with script := some (name, phase) }
    let stop (s : State) : State := { s with script := none }
    match phase, s.find name with
    | .grep, some l => some (next (if l.isVm then .awk else .testLo) s)
    | .grep, none => some (next .testLo s)
    | .awk, some l => some (next (.addressAdd (clientIp l.address)) s)
    | .addressAdd ip, some l =>
      some (if l.addressed then stop s
        else next (.linkSet ip) (s.modify name fun l => { l with addressed := true }))
    | .linkSet ip, some _ =>
      some (next (.routeAdd ip) (s.modify name fun l => { l with up := true }))
    | .routeAdd ip, some l =>
      some (stop (if l.up ∧ ip ∉ s.routes.map Prod.fst
        then { s with routes := s.routes ++ [(ip, l.index)] } else s))
    | .testLo, _ =>
      some (if name = os "lo" then stop s else next .nftables { s with connmanWanted := true })
    | .nftables, _ =>
      some (if ok then next .modprobe { s with nat := true } else stop { s with smooth := false })
    | .modprobe, _ => some (if ok then next .addRule s else stop { s with smooth := false })
    | .addRule, _ =>
      some (stop (if s.nat then { s with masquerade := s.masquerade ++ [name] } else s))
    -- The other commands fail where there is no interface.
    | _, none => some (stop s)

/-- `connman/run`. A service that is up is not started again. -/
def connmanStep (s : State) : Option State :=
  if s.connmanWanted ∧ s.connman = none then
    some { s with connman := some ((s.links.filter Link.isHardware).map Link.name) }
  else none

def step (s : State) : Actor → Option State
  | .plug name address => plug s name address
  | .unplug index => unplug s index
  | .mdevd => mdevdStep s
  | .script ok => scriptStep s ok
  | .connman => connmanStep s

def start : State where
  links := []
  next := 0
  routes := []
  nat := false
  masquerade := []
  queue := []
  script := none
  connmanWanted := false
  connman := none
  others := []
  smooth := true

/-! ## What holds of the interfaces -/

/-- What a running script has found and done. -/
def Phase.Ok (nat : Bool) (l : Link) : Phase → Prop
  | .grep => l.addressed = false
  | .awk => l.isVm = true ∧ l.addressed = false
  | .addressAdd ip => l.isVm = true ∧ l.addressed = false ∧ ip = clientIp l.address
  | .linkSet ip => l.isVm = true ∧ l.addressed = true ∧ ip = clientIp l.address
  | .routeAdd ip => l.isVm = true ∧ l.addressed = true ∧ l.up = true ∧ ip = clientIp l.address
  | .testLo => l.isVm = false
  | .nftables => l.isVm = false ∧ l.name ≠ os "lo"
  | .modprobe => (l.isVm = false ∧ l.name ≠ os "lo") ∧ nat = true
  | .addRule => (l.isVm = false ∧ l.name ≠ os "lo") ∧ nat = true

/-- What the script is for. -/
structure Done (routes : List (List UInt8 × Nat)) (masquerade : List OsString) (l : Link) :
    Prop where
  vm : l.isVm = true → l.addressed = true ∧ l.up = true ∧ (clientIp l.address, l.index) ∈ routes
  other : l.isVm = false → l.name ≠ os "lo" → l.name ∈ masquerade

structure LinkOk (s : State) (l : Link) : Prop where
  queued : l.name ∈ s.queue → l.addressed = false
  script : ∀ phase, s.script = some (l.name, phase) → phase.Ok s.nat l
  done : l.name ∉ s.pending → Done s.routes s.masquerade l

/-- As long as things go smoothly. -/
structure Inv (s : State) : Prop where
  names : (s.links.map Link.name).Nodup
  indices : (s.links.map Link.index).Nodup
  next : ∀ l ∈ s.links, l.index < s.next
  ips : ∀ l ∈ s.links, ∀ l' ∈ s.links, l.isVm = true → l'.isVm = true →
    clientIp l.address = clientIp l'.address → l.index = l'.index
  pending : s.pending.Nodup
  present : ∀ name ∈ s.pending, ∃ l ∈ s.links, l.name = name
  links : ∀ l ∈ s.links, LinkOk s l
  routes : ∀ r ∈ s.routes, ∃ l ∈ s.links, l.index = r.2 ∧ l.isVm = true ∧
    r.1 = clientIp l.address ∧ l.name ∉ s.pending
  others : ∀ l ∈ s.links, l.isVm = false → ∃ o ∈ s.others, o.name = l.name ∧ o.address = l.address
  masquerade : ∀ name ∈ s.masquerade, name ≠ os "lo" ∧ ∃ o ∈ s.others, o.name = name
  connman : ∀ names, s.connman = some names → ∀ name ∈ names,
    ∃ o ∈ s.others, o.name = name ∧ o.isHardware = true

theorem inv_start : Inv start := by
  constructor <;> simp [start, State.pending]

section Steps

variable {s s' : State} {name : OsString} {phase phase' : Phase} {l : Link}

theorem Inv.find_eq (h : Inv s) (hl : l ∈ s.links) : s.find l.name = some l := by
  cases hfind : s.find l.name with
  | none =>
    have hnone := List.find?_eq_none.mp hfind l hl
    simp at hnone
  | some l' =>
    have hname : l'.name = l.name := by simpa using List.find?_some hfind
    have hmem := List.mem_of_find?_eq_some hfind
    rw [List.inj_on_of_nodup_map h.names hmem hl hname]

/-- The script runs for an interface that is there. -/
theorem Inv.running (h : Inv s) (hscript : s.script = some (name, phase)) :
    ∃ l ∈ s.links, l.name = name ∧ s.find name = some l ∧ phase.Ok s.nat l := by
  obtain ⟨l, hl, rfl⟩ := h.present name (by simp [State.pending, hscript])
  exact ⟨l, hl, rfl, h.find_eq hl, (h.links l hl).script phase hscript⟩

/-- A change to an interface that does not make it another one. -/
structure Keeps (f : Link → Link) : Prop where
  index : ∀ l, (f l).index = l.index
  name : ∀ l, (f l).name = l.name
  address : ∀ l, (f l).address = l.address

theorem Keeps.isVm {f : Link → Link} (h : Keeps f) (l : Link) : (f l).isVm = l.isVm := by
  rw [Link.isVm, h.address, Link.isVm]

theorem Keeps.at {f : Link → Link} (h : Keeps f) (name : OsString) :
    Keeps fun l => if l.name = name then f l else l := by
  constructor <;> intro l <;> split
  · exact h.index l
  · rfl
  · exact h.name l
  · rfl
  · exact h.address l
  · rfl

/-- The script has gone on to the next command. -/
theorem Inv.advance {f : Link → Link} {nat wanted : Bool} (h : Inv s)
    (hscript : s.script = some (name, phase)) (hf : Keeps f)
    (hok : ∀ l ∈ s.links, l.name = name → phase'.Ok nat (f l)) :
    Inv { s.modify name f with script := some (name, phase'), nat, connmanWanted := wanted } := by
  have hg := hf.at name
  -- The interfaces keep their places, so it is enough to look at one of the old ones.
  have hmem : ∀ {P : Link → Prop}, (∀ l ∈ s.links, P (if l.name = name then f l else l)) →
      ∀ l ∈ (s.modify name f).links, P l := fun hP l hl => by
    obtain ⟨l₀, hl₀, rfl⟩ := List.mem_map.mp hl
    exact hP l₀ hl₀
  have hpending : (State.pending
      { s.modify name f with script := some (name, phase'), nat, connmanWanted := wanted }) =
      s.pending := by
    simp [State.pending, State.modify, hscript]
  constructor
  case names =>
    have hmap : (s.modify name f).links.map Link.name = s.links.map Link.name := by
      simp only [State.modify, List.map_map]
      exact List.map_congr_left fun l _ => hg.name l
    exact hmap ▸ h.names
  case indices =>
    have hmap : (s.modify name f).links.map Link.index = s.links.map Link.index := by
      simp only [State.modify, List.map_map]
      exact List.map_congr_left fun l _ => hg.index l
    exact hmap ▸ h.indices
  case next => exact hmem fun l hl => by rw [hg.index]; exact h.next l hl
  case ips =>
    refine hmem fun l hl => hmem fun l' hl' => ?_
    rw [hg.isVm, hg.isVm, hg.address, hg.address, hg.index, hg.index]
    exact h.ips l hl l' hl'
  case pending =>
    rw [hpending]
    exact h.pending
  case present =>
    rw [hpending]
    intro n hn
    obtain ⟨l, hl, hname⟩ := h.present n hn
    exact ⟨_, List.mem_map_of_mem hl, (hg.name l).trans hname⟩
  case links =>
    refine hmem fun l hl => ?_
    have hlink := h.links l hl
    by_cases hname : l.name = name
    · rw [if_pos hname]
      have hrunning : l.name ∈ s.pending := by simp [State.pending, hscript, hname]
      refine ⟨fun hq => ?_, fun ph hph => ?_, fun hnot => ?_⟩
      · have hnodup := h.pending
        rw [State.pending, hscript] at hnodup
        rw [hf.name, hname] at hq
        exact absurd hq (List.nodup_cons.mp hnodup).1
      · cases hph
        exact hok l hl hname
      · rw [hpending, hf.name] at hnot
        exact absurd hrunning hnot
    · rw [if_neg hname]
      refine ⟨hlink.queued, fun ph hph => ?_, fun hnot => ?_⟩
      · cases hph
        exact absurd rfl hname
      · rw [hpending] at hnot
        exact hlink.done hnot
  case routes =>
    intro r hr
    obtain ⟨l, hl, hindex, hvm, hip, hnot⟩ := h.routes r hr
    refine ⟨_, List.mem_map_of_mem hl, ?_⟩
    rw [hg.index, hg.isVm, hg.address, hg.name, hpending]
    exact ⟨hindex, hvm, hip, hnot⟩
  case others =>
    refine hmem fun l hl => ?_
    rw [hg.isVm, hg.name, hg.address]
    exact h.others l hl
  case masquerade => exact h.masquerade
  case connman => exact h.connman

/-- The script is done. -/
theorem Inv.stop {routes : List (List UInt8 × Nat)} {masquerade : List OsString} (h : Inv s)
    (hscript : s.script = some (name, phase))
    (hdone : ∀ l ∈ s.links, l.name = name →
      Done (s.routes ++ routes) (s.masquerade ++ masquerade) l)
    (hroutes : ∀ r ∈ routes, ∃ l ∈ s.links, l.index = r.2 ∧ l.isVm = true ∧
      r.1 = clientIp l.address ∧ l.name = name)
    (hmasquerade : ∀ n ∈ masquerade, n ≠ os "lo" ∧ ∃ l ∈ s.links, l.isVm = false ∧ l.name = n) :
    Inv { s with script := none, routes := s.routes ++ routes
                 masquerade := s.masquerade ++ masquerade } := by
  have hcons : s.pending = name :: s.queue := by simp [State.pending, hscript]
  have hpending := h.pending
  have hpresent := h.present
  rw [hcons] at hpending hpresent
  obtain ⟨hnot, hnodup⟩ := List.nodup_cons.mp hpending
  refine { h with
    pending := hnodup
    present := fun n hn => hpresent n (List.mem_cons_of_mem _ hn)
    links := ?_, routes := ?_, masquerade := ?_ }
  · intro l hl
    have hlink := h.links l hl
    refine ⟨hlink.queued, by simp, fun hidle => ?_⟩
    by_cases hname : l.name = name
    · exact hdone l hl hname
    · have hold := hlink.done (by rw [hcons]; exact List.not_mem_cons_of_ne_of_not_mem hname hidle)
      refine ⟨fun hvm => ?_, fun hother hlo => List.mem_append_left _ (hold.other hother hlo)⟩
      obtain ⟨haddressed, hup, hroute⟩ := hold.vm hvm
      exact ⟨haddressed, hup, List.mem_append_left _ hroute⟩
  · intro r hr
    rcases List.mem_append.mp hr with hold | hnew
    · obtain ⟨l, hl, hindex, hvm, hip, hidle⟩ := h.routes r hold
      rw [hcons] at hidle
      exact ⟨l, hl, hindex, hvm, hip, fun hq => hidle (List.mem_cons_of_mem _ hq)⟩
    · obtain ⟨l, hl, hindex, hvm, hip, rfl⟩ := hroutes r hnew
      exact ⟨l, hl, hindex, hvm, hip, hnot⟩
  · intro n hn
    rcases List.mem_append.mp hn with hold | hnew
    · exact h.masquerade n hold
    · obtain ⟨hlo, l, hl, hother, rfl⟩ := hmasquerade n hnew
      obtain ⟨o, ho, hname, -⟩ := h.others l hl hother
      exact ⟨hlo, o, ho, hname⟩

theorem keeps_id : Keeps id := ⟨fun _ => rfl, fun _ => rfl, fun _ => rfl⟩

/-- A command that does nothing to the interface. -/
theorem Inv.goesOn {nat wanted : Bool} (h : Inv s) (hscript : s.script = some (name, phase))
    (hok : ∀ l ∈ s.links, l.name = name → phase'.Ok nat l) :
    Inv { s with script := some (name, phase'), nat, connmanWanted := wanted } := by
  have hid : s.modify name id = s := by
    simp [State.modify]
  have hinv : Inv { s.modify name id with
      script := some (name, phase'), nat, connmanWanted := wanted } :=
    h.advance hscript keeps_id hok
  rwa [hid] at hinv

/-- The script ends without having done anything more. -/
theorem Inv.ends (h : Inv s) (hscript : s.script = some (name, phase))
    (hdone : ∀ l ∈ s.links, l.name = name → Done s.routes s.masquerade l) :
    Inv { s with script := none } := by
  have hinv : Inv { s with
      script := none, routes := s.routes ++ [], masquerade := s.masquerade ++ [] } :=
    h.stop hscript (by simpa using hdone) (by simp) (by simp)
  simpa using hinv

theorem Inv.scriptStep {ok : Bool} (h : Inv s) (hstep : scriptStep s ok = some s')
    (hsmooth : s'.smooth = true) : Inv s' := by
  rw [Router.scriptStep] at hstep
  cases hscript : s.script with
  | none =>
    rw [hscript] at hstep
    cases hstep
  | some r =>
    obtain ⟨name, phase⟩ := r
    obtain ⟨l, hl, rfl, hfind, hphase⟩ := h.running hscript
    have honly : ∀ l' ∈ s.links, l'.name = l.name → l' = l := fun l' hl' hname =>
      List.inj_on_of_nodup_map h.names hl' hl hname
    simp only [hscript, hfind] at hstep
    cases phase with
    | grep =>
      cases hstep
      refine h.goesOn hscript fun l' hl' hname => ?_
      rw [honly l' hl' hname]
      cases hvm : l.isVm with
      | true => exact ⟨hvm, hphase⟩
      | false => exact hvm
    | awk =>
      cases hstep
      refine h.goesOn hscript fun l' hl' hname => ?_
      rw [honly l' hl' hname]
      exact ⟨hphase.1, hphase.2, rfl⟩
    | addressAdd ip =>
      obtain ⟨hvm, haddressed, hip⟩ := hphase
      simp only [haddressed, Bool.false_eq_true, if_false] at hstep
      cases hstep
      refine h.advance hscript ⟨fun _ => rfl, fun _ => rfl, fun _ => rfl⟩ fun l' hl' hname => ?_
      rw [honly l' hl' hname]
      exact ⟨hvm, rfl, hip⟩
    | linkSet ip =>
      obtain ⟨hvm, haddressed, hip⟩ := hphase
      cases hstep
      refine h.advance hscript ⟨fun _ => rfl, fun _ => rfl, fun _ => rfl⟩ fun l' hl' hname => ?_
      rw [honly l' hl' hname]
      exact ⟨hvm, haddressed, rfl, hip⟩
    | routeAdd ip =>
      obtain ⟨hvm, haddressed, hup, rfl⟩ := hphase
      have hnew : clientIp l.address ∉ s.routes.map Prod.fst := by
        intro hmem
        obtain ⟨r, hr, hip⟩ := List.mem_map.mp hmem
        obtain ⟨l', hl', -, hvm', hip', hidle⟩ := h.routes r hr
        have hindex := h.ips l' hl' l hl hvm' hvm (hip'.symm.trans hip)
        obtain rfl := List.inj_on_of_nodup_map h.indices hl' hl hindex
        exact hidle (by simp [State.pending, hscript])
      dsimp only at hstep
      rw [if_pos ⟨hup, hnew⟩] at hstep
      cases hstep
      have hinv : Inv { s with
          script := none, routes := s.routes ++ [(clientIp l.address, l.index)]
          masquerade := s.masquerade ++ [] } := by
        refine h.stop hscript (fun l' hl' hname => ?_) ?_ (by simp)
        · rw [honly l' hl' hname]
          exact ⟨fun _ => ⟨haddressed, hup, by simp⟩, fun hother => by simp [hvm] at hother⟩
        · intro r hr
          obtain rfl := List.mem_singleton.mp hr
          exact ⟨l, hl, rfl, hvm, rfl, rfl⟩
      simpa using hinv
    | testLo =>
      have hother : l.isVm = false := hphase
      dsimp only at hstep
      split at hstep
      · rename_i hlo
        cases hstep
        refine h.ends hscript fun l' hl' hname => ?_
        rw [honly l' hl' hname]
        exact ⟨fun hvm => by simp [hother] at hvm, fun _ hne => absurd hlo hne⟩
      · rename_i hlo
        cases hstep
        refine h.goesOn hscript fun l' hl' hname => ?_
        rw [honly l' hl' hname]
        exact ⟨hother, hlo⟩
    | nftables =>
      cases ok with
      | false =>
        cases hstep
        cases hsmooth
      | true =>
        cases hstep
        refine h.goesOn hscript fun l' hl' hname => ?_
        rw [honly l' hl' hname]
        exact ⟨hphase, rfl⟩
    | modprobe =>
      cases ok with
      | false =>
        cases hstep
        cases hsmooth
      | true =>
        cases hstep
        refine h.goesOn hscript fun l' hl' hname => ?_
        rw [honly l' hl' hname]
        exact hphase
    | addRule =>
      obtain ⟨⟨hother, hlo⟩, hnat⟩ := hphase
      dsimp only at hstep
      rw [if_pos hnat] at hstep
      cases hstep
      have hinv : Inv { s with
          script := none, routes := s.routes ++ [], masquerade := s.masquerade ++ [l.name] } := by
        refine h.stop hscript (fun l' hl' hname => ?_) (by simp) ?_
        · rw [honly l' hl' hname]
          exact ⟨fun hvm => by simp [hother] at hvm, fun _ _ => by simp⟩
        · intro n hn
          obtain rfl := List.mem_singleton.mp hn
          exact ⟨hlo, l, hl, hother, rfl⟩
      simpa using hinv

theorem Inv.mdevdStep (h : Inv s) (hstep : mdevdStep s = some s') : Inv s' := by
  rw [Router.mdevdStep] at hstep
  split at hstep
  · rename_i name queue hscript hqueue
    cases hstep
    have hpending : s.pending = name :: queue := by simp [State.pending, hscript, hqueue]
    have hold := h.pending
    rw [hpending] at hold
    refine { h with pending := ?_, present := ?_, links := ?_, routes := ?_ }
    · exact hold
    · have hpresent := h.present
      rw [hpending] at hpresent
      exact hpresent
    · intro l hl
      have hlink := h.links l hl
      refine ⟨fun hq => hlink.queued (by rw [hqueue]; exact List.mem_cons_of_mem _ hq), ?_, ?_⟩
      · intro phase hphase
        cases hphase
        exact hlink.queued (by rw [hqueue]; exact List.mem_cons_self)
      · intro hidle
        refine hlink.done ?_
        rw [hpending]
        exact hidle
    · intro r hr
      obtain ⟨l, hl, hindex, hvm, hip, hidle⟩ := h.routes r hr
      refine ⟨l, hl, hindex, hvm, hip, ?_⟩
      rw [hpending] at hidle
      exact hidle
  · cases hstep

theorem nodup_concat {α : Type} {xs : List α} {x : α} (hxs : xs.Nodup) (hx : x ∉ xs) :
    (xs ++ [x]).Nodup := by
  rw [← List.concat_eq_append]
  exact hxs.concat hx

theorem Inv.plug {address : List UInt8} (h : Inv s) (hstep : plug s name address = some s')
    (hsmooth : s'.smooth = true) : Inv s' := by
  rw [Router.plug] at hstep
  split at hstep
  · cases hstep
  rename_i hfree
  cases hstep
  have hfresh : ∀ l ∈ s.links, l.name ≠ name := by simpa using hfree
  have hidle : name ∉ s.pending := by
    intro hmem
    obtain ⟨l, hl, hname⟩ := h.present name hmem
    exact hfresh l hl hname
  have hips : ∀ l ∈ s.links, Link.isVm ⟨s.next, name, address, false, false⟩ = true →
      l.isVm = true → clientIp l.address ≠ clientIp address := by
    intro l hl hvm hvm' hip
    simp only [hvm, Bool.true_and, Bool.and_eq_true, Bool.not_eq_true', List.any_eq_false,
      decide_eq_true_eq] at hsmooth
    exact hsmooth.2 l hl ⟨hvm', hip⟩
  have hpending : ∀ l ∈ s.links, l.name ∉ s.pending → l.name ∉ s.pending ++ [name] := by
    intro l hl hnot
    simpa [hnot] using hfresh l hl
  have hothers : ∀ o ∈ s.others, o ∈ (if Link.isVm ⟨s.next, name, address, false, false⟩
      then s.others else s.others ++ [⟨s.next, name, address, false, false⟩]) := by
    intro o ho
    split
    · exact ho
    · exact List.mem_append_left _ ho
  constructor
  case names =>
    rw [List.map_append]
    exact nodup_concat h.names (by simpa using hfresh)
  case indices =>
    rw [List.map_append]
    refine nodup_concat h.indices fun hmem => ?_
    obtain ⟨l, hl, hindex⟩ := List.mem_map.mp hmem
    have hlt := h.next l hl
    simp only at hindex
    omega
  case next =>
    intro l hl
    rcases List.mem_append.mp hl with hold | hnew
    · exact Nat.lt_succ_of_lt (h.next l hold)
    · obtain rfl := List.mem_singleton.mp hnew
      exact Nat.lt_succ_self _
  case ips =>
    intro l hl l' hl' hvm hvm' hip
    rcases List.mem_append.mp hl with hold | hnew <;>
      rcases List.mem_append.mp hl' with hold' | hnew'
    · exact h.ips l hold l' hold' hvm hvm' hip
    · obtain rfl := List.mem_singleton.mp hnew'
      exact absurd hip (hips l hold hvm' hvm)
    · obtain rfl := List.mem_singleton.mp hnew
      exact absurd hip.symm (hips l' hold' hvm hvm')
    · rw [List.mem_singleton.mp hnew, List.mem_singleton.mp hnew']
  case pending =>
    rw [State.pending, ← List.append_assoc]
    exact nodup_concat h.pending hidle
  case present =>
    rw [State.pending, ← List.append_assoc]
    intro n hn
    rcases List.mem_append.mp hn with hold | hnew
    · obtain ⟨l, hl, hname⟩ := h.present n hold
      exact ⟨l, List.mem_append_left _ hl, hname⟩
    · exact ⟨_, List.mem_append_right _ (List.mem_singleton_self _),
        (List.mem_singleton.mp hnew).symm⟩
  case links =>
    intro l hl
    rcases List.mem_append.mp hl with hold | hnew
    · have hlink := h.links l hold
      refine ⟨fun hq => ?_, hlink.script, fun hnot => ?_⟩
      · rcases List.mem_append.mp hq with hq | hq
        · exact hlink.queued hq
        · exact absurd (List.mem_singleton.mp hq) (hfresh l hold)
      · rw [State.pending, ← List.append_assoc] at hnot
        exact hlink.done fun hmem => hnot (List.mem_append_left _ hmem)
    · obtain rfl := List.mem_singleton.mp hnew
      refine ⟨fun _ => rfl, fun phase hphase => ?_, fun hnot => ?_⟩
      · have hscript : s.script = some (name, phase) := hphase
        exact absurd (by simp [State.pending, hscript]) hidle
      · exact absurd (by simp [State.pending]) hnot
  case routes =>
    intro r hr
    obtain ⟨l, hl, hindex, hvm, hip, hnot⟩ := h.routes r hr
    refine ⟨l, List.mem_append_left _ hl, hindex, hvm, hip, ?_⟩
    rw [State.pending, ← List.append_assoc]
    exact hpending l hl hnot
  case others =>
    intro l hl hother
    rcases List.mem_append.mp hl with hold | hnew
    · obtain ⟨o, ho, hsame⟩ := h.others l hold hother
      exact ⟨o, hothers o ho, hsame⟩
    · obtain rfl := List.mem_singleton.mp hnew
      dsimp only
      rw [if_neg (by simp [hother])]
      exact ⟨_, List.mem_append_right _ (List.mem_singleton_self _), rfl, rfl⟩
  case masquerade =>
    intro n hn
    obtain ⟨hlo, o, ho, hname⟩ := h.masquerade n hn
    exact ⟨hlo, o, hothers o ho, hname⟩
  case connman =>
    intro names hnames n hn
    obtain ⟨o, ho, hname⟩ := h.connman names hnames n hn
    exact ⟨o, hothers o ho, hname⟩

theorem Inv.unplug {index : Nat} (h : Inv s) (hstep : unplug s index = some s')
    (hsmooth : s'.smooth = true) : Inv s' := by
  rw [Router.unplug] at hstep
  split at hstep
  · cases hstep
  rename_i l hfind
  cases hstep
  have hl := List.mem_of_find?_eq_some hfind
  have hindex : l.index = index := by simpa using List.find?_some hfind
  have hidle : l.name ∉ s.pending := by
    simp only [Bool.and_eq_true, Bool.not_eq_true', List.contains_eq_mem, decide_eq_false_iff_not]
      at hsmooth
    exact hsmooth.2
  have hmem : ∀ l' ∈ s.links.filter fun l => l.index ≠ index, l' ∈ s.links := fun l' hl' =>
    List.mem_of_mem_filter hl'
  constructor
  case names => exact h.names.sublist (List.filter_sublist.map _)
  case indices => exact h.indices.sublist (List.filter_sublist.map _)
  case next => exact fun l' hl' => h.next l' (hmem l' hl')
  case ips => exact fun l' hl' l'' hl'' => h.ips l' (hmem l' hl') l'' (hmem l'' hl'')
  case pending => exact h.pending
  case present =>
    intro n hn
    obtain ⟨l', hl', rfl⟩ := h.present n hn
    refine ⟨l', List.mem_filter.mpr ⟨hl', ?_⟩, rfl⟩
    -- What is pending is not what was pulled.
    simp only [ne_eq, decide_not, Bool.not_eq_true', decide_eq_false_iff_not]
    intro hsame
    obtain rfl := List.inj_on_of_nodup_map h.indices hl' hl (hsame.trans hindex.symm)
    exact hidle hn
  case links =>
    intro l' hl'
    have hlink := h.links l' (hmem l' hl')
    refine ⟨hlink.queued, hlink.script, fun hnot => ?_⟩
    have hdone := hlink.done hnot
    refine ⟨fun hvm => ?_, hdone.other⟩
    obtain ⟨haddressed, hup, hroute⟩ := hdone.vm hvm
    exact ⟨haddressed, hup, List.mem_filter.mpr ⟨hroute, (List.mem_filter.mp hl').2⟩⟩
  case routes =>
    intro r hr
    obtain ⟨hold, hne⟩ := List.mem_filter.mp hr
    obtain ⟨l', hl', hindex', hvm, hip, hnot⟩ := h.routes r hold
    exact ⟨l', List.mem_filter.mpr ⟨hl', by rw [hindex']; exact hne⟩, hindex', hvm, hip, hnot⟩
  case others => exact fun l' hl' => h.others l' (hmem l' hl')
  case masquerade => exact h.masquerade
  case connman => exact h.connman

theorem Inv.connmanStep (h : Inv s) (hstep : connmanStep s = some s') : Inv s' := by
  rw [Router.connmanStep] at hstep
  split at hstep
  · cases hstep
    refine { h with links := fun l hl => { h.links l hl with }, connman := ?_ }
    intro names hnames n hn
    cases hnames
    obtain ⟨l, hl, rfl⟩ := List.mem_map.mp hn
    obtain ⟨hl, hhardware⟩ := List.mem_filter.mp hl
    have hother : l.isVm = false := by
      rw [Link.isHardware, Bool.and_eq_true, Bool.not_eq_true'] at hhardware
      exact hhardware.1
    obtain ⟨o, ho, hname, haddress⟩ := h.others l hl hother
    refine ⟨o, ho, hname, ?_⟩
    simpa only [Link.isHardware, Link.isVm, haddress] using hhardware
  · cases hstep

/-- What has gone wrong stays that way. -/
theorem smooth_of_step {a : Actor} (hstep : step s a = some s') (hsmooth : s'.smooth = true) :
    s.smooth = true := by
  cases a with
  | plug name address =>
    rw [step, Router.plug] at hstep
    split at hstep
    · cases hstep
    · cases hstep
      exact (Bool.and_eq_true_iff.mp hsmooth).1
  | unplug index =>
    rw [step, Router.unplug] at hstep
    split at hstep
    · cases hstep
    · cases hstep
      exact (Bool.and_eq_true_iff.mp hsmooth).1
  | mdevd =>
    rw [step, Router.mdevdStep] at hstep
    split at hstep
    · cases hstep
      exact hsmooth
    · cases hstep
  | script ok =>
    rw [step, Router.scriptStep] at hstep
    split at hstep
    · cases hstep
    dsimp only at hstep
    -- Only a command that fails for `ok` changes the flag.
    split at hstep <;> cases hstep <;>
      first
        | exact hsmooth
        | (split at hsmooth <;> first | exact hsmooth | cases hsmooth)
  | connman =>
    rw [step, Router.connmanStep] at hstep
    split at hstep
    · cases hstep
      exact hsmooth
    · cases hstep

theorem Inv.step {a : Actor} (h : Inv s) (hstep : step s a = some s') (hsmooth : s'.smooth = true) :
    Inv s' := by
  cases a with
  | plug name address => exact h.plug hstep hsmooth
  | unplug index => exact h.unplug hstep hsmooth
  | mdevd => exact h.mdevdStep hstep
  | script ok => exact h.scriptStep hstep hsmooth
  | connman => exact h.connmanStep hstep

theorem inv_of_run {sched : List Actor} (hrun : run Router.step start sched = some s)
    (hsmooth : s.smooth = true) : Inv s := by
  refine run_invariant (I := fun s => s.smooth = true → Inv s) ?_ (fun _ => inv_start) hrun hsmooth
  intro s a s' hinv hstep hsmooth'
  exact (hinv (smooth_of_step hstep hsmooth')).step hstep hsmooth'

end Steps

/-! ## Where the packets go -/

/-- The interface that what is sent to `ip` goes out of. -/
def State.lookup (s : State) (ip : List UInt8) : Option Nat :=
  (s.routes.find? fun r => r.1 = ip).map Prod.snd

theorem Inv.lookup {s : State} {l : Link} (h : Inv s) (hl : l ∈ s.links) (hvm : l.isVm = true)
    (hroute : (clientIp l.address, l.index) ∈ s.routes) :
    s.lookup (clientIp l.address) = some l.index := by
  cases hfind : s.routes.find? fun r => r.1 = clientIp l.address with
  | none =>
    have hnone := List.find?_eq_none.mp hfind _ hroute
    simp at hnone
  | some r =>
    have hip : r.1 = clientIp l.address := by simpa using List.find?_some hfind
    obtain ⟨l', hl', hindex, hvm', hip', -⟩ := h.routes r (List.mem_of_find?_eq_some hfind)
    have hsame := h.ips l' hl' l hl hvm' hvm (hip'.symm.trans hip)
    rw [State.lookup, hfind, Option.map_some, ← hindex, hsame]

/-- **What is sent to a VM's IP address goes out of that VM's interface**, once mdevd has caught up.
`client` is what a VM reads of the hardware address that it was given for `pid`, as the router was
given one for it. Every other interface but `lo` is masqueraded; `lo` is not, and neither is a name
that no such interface has had. connman has been given only interfaces that were neither a VM's nor
had the address of `lo`. -/
theorem router_delivers {sched : List Actor} {s : State} (hrun : run step start sched = some s)
    (hsmooth : s.smooth = true) (hidle : s.pending = []) :
    (∀ l ∈ s.links, l.isVm = true → l.addressed = true ∧ l.up = true ∧
      s.lookup (clientIp l.address) = some l.index) ∧
    (∀ l ∈ s.links, ∀ (pid : Nat) (router client : List UInt8), l.address = line router →
      Shows router (routerMac pid) → Shows client (clientMac pid) →
      s.lookup (localIp (line client)) = some l.index) ∧
    (∀ r ∈ s.routes, ∃ l ∈ s.links, l.isVm = true ∧ r = (clientIp l.address, l.index)) ∧
    (∀ l ∈ s.links, l.isVm = false → l.name ≠ os "lo" → l.name ∈ s.masquerade) ∧
    (∀ name ∈ s.masquerade, name ≠ os "lo" ∧ ∃ o ∈ s.others, o.name = name) ∧
    (∀ names, s.connman = some names → ∀ name ∈ names,
      ∃ o ∈ s.others, o.name = name ∧ o.isHardware = true) := by
  have hinv := inv_of_run hrun hsmooth
  have hdone : ∀ l ∈ s.links, Done s.routes s.masquerade l := fun l hl =>
    (hinv.links l hl).done (by simp [hidle])
  have hvms : ∀ l ∈ s.links, l.isVm = true → l.addressed = true ∧ l.up = true ∧
      s.lookup (clientIp l.address) = some l.index := by
    intro l hl hvm
    obtain ⟨haddressed, hup, hroute⟩ := (hdone l hl).vm hvm
    exact ⟨haddressed, hup, hinv.lookup hl hvm hroute⟩
  refine ⟨hvms, ?_, ?_, fun l hl => (hdone l hl).other, hinv.masquerade, hinv.connman⟩
  · intro l hl pid router client haddress hrouter hclient
    have hvm : l.isVm = true := by
      rw [Link.isVm, haddress]
      exact hrouter.grepStart rfl (by simp)
    have hip : localIp (line client) = clientIp l.address := by
      rw [hclient.clientAddress, haddress, hrouter.routerAddress]
    rw [hip]
    exact (hvms l hl hvm).2.2
  · intro r hr
    obtain ⟨l, hl, hindex, hvm, hip, -⟩ := hinv.routes r hr
    exact ⟨l, hl, hvm, Prod.ext hip hindex.symm⟩

/-- The loopback device and a network device are there from the start, a VM's interface comes, and
then one more, while the script runs for the first. -/
theorem router_delivers_second : ∃ s,
    run step start
      [.plug (os "lo") (line (os "00:00:00:00:00:00")),
       .plug (os "eth0") (line (os "52:54:00:12:34:56")), .mdevd, .script true, .script true,
       .mdevd, .script true, .script true, .script true, .connman, .script true, .script true,
       .plug (os "eth1") (line (sysfsText (routerMac 0x1234))), .mdevd, .script true, .script true,
       .plug (os "eth2") (line (sysfsText (routerMac 0x1235))), .script true, .script true,
       .script true, .mdevd, .script true, .script true, .script true, .script true, .script true,
       .unplug 2] = some s ∧
    s.smooth = true ∧ s.pending = [] ∧
    s.lookup (localIp (line (sysfsText (clientMac 0x1235)))) = some 3 := by
  have hsecond : ∀ {sched s}, run step start sched = some s → s.smooth = true → s.pending = [] →
      ⟨3, os "eth2", line (sysfsText (routerMac 0x1235)), true, true⟩ ∈ s.links →
      run step start sched = some s ∧ s.smooth = true ∧ s.pending = [] ∧
        s.lookup (localIp (line (sysfsText (clientMac 0x1235)))) = some 3 :=
    fun hrun hsmooth hidle hl => ⟨hrun, hsmooth, hidle,
      (router_delivers hrun hsmooth hidle).2.1 _ hl 0x1235 _ _ rfl (shows_sysfsText _)
        (shows_sysfsText _)⟩
  exact ⟨_, hsecond rfl rfl rfl (List.mem_of_getLast? rfl)⟩

-- An interface that is pulled before its turn is taken for a network device.
example : ∃ s,
    run step start
      [.plug (os "eth0") (line (sysfsText (routerMac 0x1234))), .unplug 0, .mdevd, .script true,
       .script true, .script true, .script true, .script true] = some s ∧
    s.smooth = false ∧ s.pending = [] ∧ s.others = [] ∧ s.masquerade = [os "eth0"] :=
  ⟨_, rfl, rfl, rfl, rfl, rfl⟩

end Spectrum.Net.Router
