import Spectrum.Interact.Services
import Spectrum.Mdev.Rendezvous
import Spectrum.Vmm.Create

/-!
# Booting the host

At boot, `rc.init` asks s6-rc for everything in `ok-all`. s6-rc starts each service when those it
depends on are up, and holds a lock until it is through. Three services wait for a device: `ext` for
the user partition, `kvm` and `card0`. They go on only when mdevd has come to the device's event,
and mdevd takes one event at a time. One of the scripts it runs, `net/add`, needs s6-rc itself: a
network device can be given to the network VM only when the VMs have been imported. mdevd would not
come to the next event until s6-rc is through, and s6-rc not be through before mdevd has come to it,
so the script goes to the background first.

Everybody here is a process of its own, and a schedule says who goes next. What comes from outside
is that a device turns up, that somebody runs `vm-start`, that a command fails, and that a VMM or
what `create-vm-dependencies` waits for is ready: `vm-import` waits for both without a time limit,
and nothing makes sure that they ever are.

The three pipes are those of `wait` and `listen`; a wait that is never over, like the one of `card0`
in a machine without graphics, is one for which nothing can be said. Of the services only `kvm` has
a time limit. A service that has failed is not tried again here.
-/

set_option autoImplicit false

namespace Spectrum.Rc

open Schedule Services Spectrum.Vmm

/-! ## The service database -/

inductive Service
  | card0
  | core
  | ext
  | extRcInit
  | kvm
  | mdevd
  | mdevdColdplug
  | staticNodes
  | weston
  deriving DecidableEq

/-- The files `dependencies`. -/
def dependencies : Service → List Service
  | .extRcInit => [.core, .ext, .kvm, .staticNodes]
  | .mdevdColdplug => [.mdevd]
  | .weston => [.card0]
  | _ => []

/-- `ext-rc/contents`. -/
def extRc : List Service := [.extRcInit, .staticNodes, .weston]

/-- `ok-all/contents`. -/
def okAll : List Service := extRc ++ [.mdevdColdplug]

/-- The names under `/run/wait`. -/
inductive Name
  | card0
  | ext
  | kvm
  deriving DecidableEq

/-- The service that waits for it. -/
def Name.service : Name → Service
  | .card0 => .card0
  | .ext => .ext
  | .kvm => .kvm

/-! ## Everybody who takes part -/

inductive Device
  | kvm
  | card0
  | block (devname : OsString)
  /-- A PCI device of the class of network controllers. -/
  | net (devpath : OsString)

/-- Who runs s6-rc. -/
inductive Client
  /-- `s6-rc change ok-all`. -/
  | rcInit
  /-- `s6-rc -bu change ext-rc-init`, for the device with this path. -/
  | netAdd (devpath : OsString)
  /-- `s6-rc -bu change ext-rc`. -/
  | vmStart
  deriving DecidableEq

namespace Client

def targets : Client → List Service
  | .rcInit => okAll
  | .netAdd _ => [.extRcInit]
  | .vmStart => extRc

/-- What s6-rc starts for it. -/
def wants (c : Client) : List Service := closure dependencies 2 c.targets

end Client

/-- How far `rc.init` has got. -/
inductive Init
  /-- The service database is there, and `mount` runs. -/
  | mount
  /-- s6-rc has got the lock. -/
  | change
  /-- The lock was taken. -/
  | refused
  deriving DecidableEq

/-- `net/add` in the foreground. -/
inductive NetAdd
  | modprobe
  /-- The devices of the group are bound to vfio-pci. -/
  | bind

/-- `net/add` in the background, after s6-rc. -/
inductive Add
  | svwait
  | addDevice

/-- `vm-import`, for one VM. -/
inductive Import
  | mkdir
  | ln
  | dependencies
  | create
  | svwait
  | done
  deriving DecidableEq

structure Config where
  /-- What `block/add` finds out about a block device. -/
  isExt : OsString → Bool
  /-- The entries of `/ext/svc/data`. -/
  vms : List OsString

/-- `vm-import user`. -/
def vmName (name : OsString) : OsString := os "user." ++ name

def netvm : OsString := os "user.netvm"

structure State where
  services : Status Service
  init : Init
  /-- Who has the lock. -/
  holder : Option Client
  /-- Who waits for it. -/
  blocked : List Client
  present : List Device
  /-- What `mdevd-coldplug` has yet to trigger. -/
  todo : List Device
  queue : List Device
  /-- The script mdevd waits for. -/
  handling : Option (OsString × NetAdd)
  /-- The `block/add`s in the background. -/
  blocks : List OsString
  /-- `/dev/ext`. -/
  link : Option OsString
  meet : Name → Mdev.State
  imports : List (OsString × Import)
  /-- The VMs for which `create-vm-dependencies` is through. -/
  supplied : List OsString
  /-- The instances of the service vmm. -/
  instances : List OsString
  /-- Those that are up. -/
  ready : List OsString
  /-- The devices whose group is bound to vfio-pci. -/
  bound : List OsString
  adds : List (OsString × Add)
  /-- What the network VM was told to add. -/
  added : List OsString
  /-- Devices for which vfio-pci could not be loaded. -/
  lost : List OsString

namespace State

variable (s : State)

/-- mdevd runs `listen`. -/
def announce (n : Name) : State := { s with meet := Function.update s.meet n (s.meet n).announce }

/-- The script of a service has done its work. -/
def scriptDone : Service → Bool
  | .card0 => (s.meet .card0).waiter.isExited
  | .ext => (s.meet .ext).waiter.isExited
  | .kvm => (s.meet .kvm).waiter.isExited
  | .mdevdColdplug => s.todo.isEmpty
  | .extRcInit => s.imports.all fun i => i.2 = .done
  | _ => true

end State

/-- What the script still has to do when s6-rc is through. -/
def Client.rest : Client → List (OsString × Add)
  | .netAdd d => [(d, .svwait)]
  | _ => []

/-- `mdev.conf`. -/
def handle (s : State) : Device → State
  | .kvm => s.announce .kvm
  | .card0 => s.announce .card0
  | .block d => { s with blocks := s.blocks ++ [d] }
  | .net d => { s with handling := some (d, .modprobe) }

variable (cfg : Config)

def State.begin (s : State) (v : Service) : State :=
  { s with
    services := s.services.begin v
    todo := if v = .mdevdColdplug then s.present else s.todo
    imports := if v = .extRcInit then cfg.vms.map fun name => (name, .mkdir) else s.imports }

inductive Inner
  | rcInit
  | lock (i : Nat)
  | begin (v : Service)
  | finish (v : Service)
  | timeout
  | release
  | wait (n : Name)
  | listen (n : Name) (i : Nat)
  | coldplug
  | mdevd
  | netAdd
  | block (i : Nat)
  | vmImport (i : Nat)
  | add (i : Nat)

def inner (s : State) : Inner → Option State
  | .rcInit =>
    match s.init, s.holder with
    | .mount, none => some { s with init := .change, holder := some .rcInit }
    | .mount, some _ => some { s with init := .refused }
    | _, _ => none
  | .lock i =>
    match s.holder, s.blocked[i]? with
    | none, some c => some { s with holder := some c, blocked := s.blocked.eraseIdx i }
    | _, _ => none
  | .begin v =>
    match s.holder with
    | some c =>
      if v ∈ c.wants ∧ s.services.Ready dependencies v then some (s.begin cfg v) else none
    | none => none
  | .finish v =>
    if v ∈ s.services.starting ∧ s.scriptDone v then
      some { s with services := s.services.finish v true }
    else none
  | .timeout =>
    if .kvm ∈ s.services.starting then some { s with services := s.services.finish .kvm false }
    else none
  | .release =>
    match s.holder with
    | some c =>
      if s.services.starting = [] ∧ ∀ v ∈ c.wants, ¬ s.services.Ready dependencies v then
        some { s with holder := none, adds := s.adds ++ c.rest }
      else none
    | none => none
  | .wait n =>
    if n.service ∈ s.services.starting then
      (Mdev.step (s.meet n) .wait).map fun m => { s with meet := Function.update s.meet n m }
    else none
  | .listen n i =>
    (Mdev.step (s.meet n) (.listen i)).map fun m => { s with meet := Function.update s.meet n m }
  | .coldplug =>
    match s.todo with
    | dev :: todo =>
      if .mdevdColdplug ∈ s.services.starting then
        some { s with todo, queue := s.queue ++ [dev] }
      else none
    | [] => none
  | .mdevd =>
    match s.queue with
    | dev :: queue =>
      if .mdevd ∈ s.services.up ∧ s.handling.isNone then
        some (handle { s with queue } dev)
      else none
    | [] => none
  | .netAdd =>
    match s.handling with
    | some (d, .modprobe) => some { s with handling := some (d, .bind) }
    | some (d, .bind) =>
      some { s with
        handling := none, bound := s.bound ++ [d], blocked := s.blocked ++ [.netAdd d] }
    | none => none
  | .block i =>
    match s.blocks[i]? with
    | some d =>
      let s := { s with blocks := s.blocks.eraseIdx i }
      -- `ln -s` fails if the name is taken.
      some (if cfg.isExt d ∧ s.link = none then State.announce { s with link := some d } .ext
        else s)
    | none => none
  | .vmImport i =>
    match s.imports[i]? with
    | some (name, phase) =>
      let next (phase : Import) : State := { s with imports := s.imports.set i (name, phase) }
      match phase with
      | .mkdir => some (next .ln)
      | .ln => some (next .dependencies)
      | .dependencies => if s.supplied.contains name then some (next .create) else none
      | .create => some { next .svwait with instances := s.instances ++ [vmName name] }
      | .svwait => if s.ready.contains (vmName name) then some (next .done) else none
      | .done => none
    | none => none
  | .add i =>
    match s.adds[i]? with
    | some (d, .svwait) =>
      if s.ready.contains netvm then some { s with adds := s.adds.set i (d, .addDevice) }
      -- There is no such service.
      else if !s.instances.contains netvm then some { s with adds := s.adds.eraseIdx i }
      else none
    | some (d, .addDevice) => some { s with adds := s.adds.eraseIdx i, added := s.added ++ [d] }
    | none => none

/-- What comes from outside. -/
inductive Outer
  | appear (dev : Device)
  /-- Somebody runs `vm-start`. -/
  | vmStart
  | fail (v : Service)
  /-- `modprobe vfio-pci` fails. -/
  | failModprobe
  /-- `create-vm-dependencies` is through, for this VM. -/
  | supply (name : OsString)
  /-- The VMM of a VM is ready. -/
  | vmm (name : OsString)

def outer (s : State) : Outer → Option State
  | .appear dev =>
    some { s with
      present := s.present ++ [dev]
      queue := if .mdevd ∈ s.services.up then s.queue ++ [dev] else s.queue }
  | .vmStart => some { s with blocked := s.blocked ++ [.vmStart] }
  | .fail v =>
    if v ∈ s.services.starting then some { s with services := s.services.finish v false } else none
  | .failModprobe =>
    match s.handling with
    | some (d, .modprobe) => some { s with handling := none, lost := s.lost ++ [d] }
    | _ => none
  | .supply name =>
    if s.imports.contains (name, .dependencies) then
      some { s with supplied := s.supplied ++ [name] }
    else none
  | .vmm name =>
    if s.instances.contains name then some { s with ready := s.ready ++ [name] } else none

def step (s : State) : Inner ⊕ Outer → Option State
  | .inl a => inner cfg s a
  | .inr a => outer s a

/-- `rc.init` has set up the service database. Devices may be there already. -/
def start (present : List Device) : State where
  services := ⟨[], [], []⟩
  init := .mount
  holder := none
  blocked := []
  present
  todo := []
  queue := []
  handling := none
  blocks := []
  link := none
  meet := fun _ => Mdev.start false 0
  imports := []
  supplied := []
  instances := []
  ready := []
  bound := []
  adds := []
  added := []
  lost := []

/-! ## What a step can do -/

section Moves

variable {cfg}

inductive Move (cfg : Config) (s : State) : State → Prop
  | granted (hinit : s.init = .mount) (hfree : s.holder = none) :
      Move cfg s { s with init := .change, holder := some .rcInit }
  | refused {c : Client} (hinit : s.init = .mount) (hheld : s.holder = some c) :
      Move cfg s { s with init := .refused }
  | lock {pre post : List Client} {c : Client} (hfree : s.holder = none)
      (hblocked : s.blocked = pre ++ c :: post) :
      Move cfg s { s with holder := some c, blocked := pre ++ post }
  | begin {c : Client} {v : Service} (hheld : s.holder = some c) (hwants : v ∈ c.wants)
      (hready : s.services.Ready dependencies v) : Move cfg s (s.begin cfg v)
  | finish {v : Service} (hstarting : v ∈ s.services.starting) (hdone : s.scriptDone v = true) :
      Move cfg s { s with services := s.services.finish v true }
  | timeout (hstarting : .kvm ∈ s.services.starting) :
      Move cfg s { s with services := s.services.finish .kvm false }
  | release {c : Client} (hheld : s.holder = some c) (hstarting : s.services.starting = [])
      (hidle : ∀ v ∈ c.wants, ¬ s.services.Ready dependencies v) :
      Move cfg s { s with holder := none, adds := s.adds ++ c.rest }
  | meet {n : Name} {a : Mdev.Actor} {m : Mdev.State} (hstep : Mdev.step (s.meet n) a = some m) :
      Move cfg s { s with meet := Function.update s.meet n m }
  | coldplug {dev : Device} {todo : List Device} (htodo : s.todo = dev :: todo)
      (hstarting : .mdevdColdplug ∈ s.services.starting) :
      Move cfg s { s with todo, queue := s.queue ++ [dev] }
  | mdevd {dev : Device} {queue : List Device} (hqueue : s.queue = dev :: queue)
      (hup : .mdevd ∈ s.services.up) (hfree : s.handling = none) :
      Move cfg s (handle { s with queue } dev)
  | modprobe {d : OsString} (hat : s.handling = some (d, .modprobe)) :
      Move cfg s { s with handling := some (d, .bind) }
  | bind {d : OsString} (hat : s.handling = some (d, .bind)) :
      Move cfg s { s with
        handling := none, bound := s.bound ++ [d], blocked := s.blocked ++ [.netAdd d] }
  | ln {pre post : List OsString} {d : OsString} (hblocks : s.blocks = pre ++ d :: post)
      (hext : cfg.isExt d = true) (hlink : s.link = none) :
      Move cfg s (State.announce { s with blocks := pre ++ post, link := some d } .ext)
  | noExt {pre post : List OsString} {d : OsString} (hblocks : s.blocks = pre ++ d :: post)
      (hnot : cfg.isExt d = true → s.link ≠ none) :
      Move cfg s { s with blocks := pre ++ post }
  | vmImport {pre post : List (OsString × Import)} {name : OsString} {phase phase' : Import}
      (himports : s.imports = pre ++ (name, phase) :: post)
      (hphase : phase = .mkdir ∧ phase' = .ln ∨ phase = .ln ∧ phase' = .dependencies ∨
        phase = .dependencies ∧ phase' = .create) :
      Move cfg s { s with imports := pre ++ (name, phase') :: post }
  | create {pre post : List (OsString × Import)} {name : OsString}
      (himports : s.imports = pre ++ (name, .create) :: post) :
      Move cfg s { s with
        imports := pre ++ (name, .svwait) :: post, instances := s.instances ++ [vmName name] }
  | imported {pre post : List (OsString × Import)} {name : OsString}
      (himports : s.imports = pre ++ (name, .svwait) :: post) (hready : vmName name ∈ s.ready) :
      Move cfg s { s with imports := pre ++ (name, .done) :: post }
  | svwait {pre post : List (OsString × Add)} {d : OsString}
      (hadds : s.adds = pre ++ (d, .svwait) :: post) (hready : netvm ∈ s.ready) :
      Move cfg s { s with adds := pre ++ (d, .addDevice) :: post }
  | noNetvm {pre post : List (OsString × Add)} {d : OsString}
      (hadds : s.adds = pre ++ (d, .svwait) :: post) (hnone : netvm ∉ s.instances) :
      Move cfg s { s with adds := pre ++ post }
  | addDevice {pre post : List (OsString × Add)} {d : OsString}
      (hadds : s.adds = pre ++ (d, .addDevice) :: post) :
      Move cfg s { s with adds := pre ++ post, added := s.added ++ [d] }

variable {s s' : State}

theorem move_of_inner {a : Inner} (h : inner cfg s a = some s') : Move cfg s s' := by
  cases a with
  | rcInit =>
    rw [inner] at h
    split at h
    case h_1 hinit hfree =>
      cases h
      exact .granted hinit hfree
    case h_2 hinit hheld =>
      cases h
      exact .refused hinit hheld
    case h_3 => cases h
  | lock i =>
    rw [inner] at h
    split at h
    case h_1 hfree hat =>
      cases h
      obtain ⟨pre, post, hblocked, herase⟩ := exists_eraseIdx_eq hat
      rw [herase]
      exact .lock hfree hblocked
    case h_2 => cases h
  | begin v =>
    rw [inner] at h
    split at h
    case h_1 hheld =>
      obtain ⟨⟨hwants, hready⟩, hs⟩ := Option.ite_none_right_eq_some.mp h
      cases hs
      exact .begin hheld hwants hready
    case h_2 => cases h
  | finish v =>
    obtain ⟨⟨hstarting, hdone⟩, hs⟩ := Option.ite_none_right_eq_some.mp h
    cases hs
    exact .finish hstarting hdone
  | timeout =>
    obtain ⟨hstarting, hs⟩ := Option.ite_none_right_eq_some.mp h
    cases hs
    exact .timeout hstarting
  | release =>
    rw [inner] at h
    split at h
    case h_1 hheld =>
      obtain ⟨⟨hstarting, hidle⟩, hs⟩ := Option.ite_none_right_eq_some.mp h
      cases hs
      exact .release hheld hstarting hidle
    case h_2 => cases h
  | wait n =>
    obtain ⟨-, hs⟩ := Option.ite_none_right_eq_some.mp h
    obtain ⟨m, hstep, rfl⟩ := Option.map_eq_some_iff.mp hs
    exact .meet hstep
  | listen n i =>
    obtain ⟨m, hstep, rfl⟩ := Option.map_eq_some_iff.mp h
    exact .meet hstep
  | coldplug =>
    rw [inner] at h
    split at h
    case h_1 htodo =>
      obtain ⟨hstarting, hs⟩ := Option.ite_none_right_eq_some.mp h
      cases hs
      exact .coldplug htodo hstarting
    case h_2 => cases h
  | mdevd =>
    rw [inner] at h
    split at h
    case h_1 hqueue =>
      obtain ⟨⟨hup, hfree⟩, hs⟩ := Option.ite_none_right_eq_some.mp h
      cases hs
      exact .mdevd hqueue hup (by simpa using hfree)
    case h_2 => cases h
  | netAdd =>
    rw [inner] at h
    split at h
    case h_1 hat =>
      cases h
      exact .modprobe hat
    case h_2 hat =>
      cases h
      exact .bind hat
    case h_3 => cases h
  | block i =>
    rw [inner] at h
    split at h
    case h_1 d hat =>
      obtain ⟨pre, post, hblocks, herase⟩ := exists_eraseIdx_eq hat
      simp only [herase] at h
      split at h
      case isTrue hcond =>
        cases h
        exact .ln hblocks hcond.1 hcond.2
      case isFalse hcond =>
        cases h
        exact .noExt hblocks fun hext hlink => hcond ⟨hext, hlink⟩
    case h_2 => cases h
  | vmImport i =>
    rw [inner] at h
    split at h
    case h_1 name phase hat =>
      obtain ⟨pre, post, himports, hset⟩ := exists_set_eq hat
      simp only [hset] at h
      cases phase with
      | mkdir =>
        cases h
        exact .vmImport himports (.inl ⟨rfl, rfl⟩)
      | ln =>
        cases h
        exact .vmImport himports (.inr (.inl ⟨rfl, rfl⟩))
      | dependencies =>
        obtain ⟨-, hs⟩ := Option.ite_none_right_eq_some.mp h
        cases hs
        exact .vmImport himports (.inr (.inr ⟨rfl, rfl⟩))
      | create =>
        cases h
        exact .create himports
      | svwait =>
        obtain ⟨hready, hs⟩ := Option.ite_none_right_eq_some.mp h
        cases hs
        exact .imported himports (List.contains_iff_mem.mp hready)
      | done => cases h
    case h_2 => cases h
  | add i =>
    rw [inner] at h
    split at h
    case h_1 d hat =>
      obtain ⟨pre, post, hadds, hset⟩ := exists_set_eq hat
      obtain ⟨pre', post', hadds', herase⟩ := exists_eraseIdx_eq hat
      rw [hset, herase] at h
      split at h
      case isTrue hready =>
        cases h
        exact .svwait hadds (List.contains_iff_mem.mp hready)
      case isFalse =>
        obtain ⟨hnone, hs⟩ := Option.ite_none_right_eq_some.mp h
        cases hs
        exact .noNetvm hadds' (by simpa using hnone)
    case h_2 d hat =>
      obtain ⟨pre, post, hadds, herase⟩ := exists_eraseIdx_eq hat
      rw [herase] at h
      cases h
      exact .addDevice hadds
    case h_3 => cases h

end Moves

end Spectrum.Rc
