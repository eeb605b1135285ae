import Spectrum.Interact.Handle
import Spectrum.Interact.Pool
import Spectrum.Net.Setup
import Spectrum.Vmm.Create

/-!
# `start-vmm` and its descriptors

The code of `net.c`, `fork.c` and `lib.rs` together, on a kernel that knows descriptor tables and
nothing else: **every other answer is up to the environment**, and any process can be killed at any
call. The tables contain the ends of pipes only, because the exit listener depends on who has got a
copy of the read end of its pipe. `fork` copies the descriptors of a process, `exec` keeps them, and
`pipe` does not set close-on-exec.

Besides the processes that run this code, there are the `ch-remote` processes they start and
cloud-hypervisor, which `start-vmm` becomes. They do what they like; but cloud-hypervisor does not
close descriptors it does not know.
-/

set_option autoImplicit false

namespace Spectrum.Watch

open Interact

abbrev Pid := Vmm.Pid

/-! ## Calls -/

/-- What it takes to start another program. -/
inductive Launch : Type → Type
  | fork : Launch Vmm.ForkResult
  /-- `execve`, which answers `none` to the new program. -/
  | exec : Launch (Option Errno)
  /-- A step of a program that is not modelled. -/
  | foreign : Launch Unit

inductive Op (β : Type) : Type
  | net (c : Net.Sys β)
  | vmm (c : Vmm.Call β)
  | launch (c : Launch β)

def exitWith {α : Type} (status : Nat) : Prog Op α := .call (.vmm (.exit status)) Empty.elim

/-- A program that is not modelled: it goes on until it ends. -/
def foreign {α : Type} : Prog Op α :=
  .loop () (fun _ => .launch .foreign) (fun _ _ => some ()) (fun _ _ => exitWith 0)

/-- Start a program. Whether and how long it is waited for does not matter here. -/
def starting {α : Type} (rest : Prog Op α) : Prog Op α := do
  match ← Prog.lift (.launch .fork) with
  | .child =>
    match ← Prog.lift (.launch .exec) with
    | none => foreign
    | some _ => exitWith 1
  | .error _ => rest
  | .parent _ => rest

/-- `ch_add_net` and `ch_remove_device` start `ch-remote`. -/
def ofSys {β : Type} : Net.Sys β → Prog Op β
  | .chAddNet vm fd id mac => starting (Prog.lift (.net (.chAddNet vm fd id mac)))
  | .chRemoveDevice vm id => starting (Prog.lift (.net (.chRemoveDevice vm id)))
  | c => Prog.lift (.net c)

def ofCall {β : Type} : Vmm.Call β → Prog Op β
  | .io (.spawn argv) => starting (Prog.lift (.vmm (.io (.spawn argv))))
  | .exec _ => do
    match ← Prog.lift (.launch .exec) with
    | none => foreign
    | some e => return e
  | c => Prog.lift (.vmm c)

def net {α : Type} (p : Prog Net.Sys α) : Prog Op α := p.handle .net ofSys

def vmm {α : Type} (p : Prog Vmm.Call α) : Prog Op α := p.handle .vmm ofCall

/-! ## `start-vmm` -/

/-- `File::from_raw_fd(3)`. -/
def readyFd : Nat := 3

section

variable (env : Vmm.Env) (vmDir : Vmm.OsString) (routerVm : Net.VmDir) (pid : Pid)
  (config : Net.NetConfig → Except String Vmm.VmConfig) (junk : Fin 4 → UInt8)

/-- `run`, with what `vm_config` makes of the network it has set up. The file `ready_fd` is
closed when `create_vm` returns. -/
def run : Prog Op String := do
  match ← vmm (Vmm.createApiSocket env vmDir) with
  | .error e => return e
  | .ok () =>
    let r ← net (Net.netSetup pid routerVm)
    let result ← vmm (Vmm.createVm env vmDir (config r) junk)
    vmm (Prog.lift (.close readyFd))
    match result with
    | .error e => return e
    | .ok () =>
      let e ← vmm (Prog.lift (.exec (Vmm.vmCommand env.apiSocketFd)))
      return s!"failed to exec: {env.strerror e}"

def main : Prog Op Unit := do
  let e ← run env vmDir routerVm pid config junk
  vmm (Vmm.eprintln s!"{env.progName}: {e}")
  exitWith 1

end

/-! ## Descriptor tables -/

/-- A descriptor of an end of a pipe. -/
structure Entry where
  fd : Nat
  obj : Vmm.PipeEnd
  cloexec : Bool
  deriving Repr, DecidableEq

structure World where
  /-- All processes so far. Pids are not reused. -/
  pids : List Pid
  alive : Pid → Bool
  table : Pid → List Entry
  /-- The number of pipes so far; the next one gets this number. -/
  pipes : Nat
  /-- The pipe of the exit listener. -/
  watch : Option Nat
  listener : Option Pid
  /-- The processes forked since the listener was, which is the last thing `net_setup` does. -/
  since : List Pid
  /-- The listener has seen its pipe without readers, and has gone on to `router_net_cleanup`. -/
  begun : Bool

namespace World

def init (pid : Pid) : World where
  pids := [pid]
  alive p := p == pid
  table _ := []
  pipes := 0
  watch := none
  listener := none
  since := []
  begun := false

variable (w : World)

/-- What a descriptor of a process refers to. -/
def obj (t : Pid) (fd : Nat) : Option Vmm.PipeEnd :=
  ((w.table t).find? fun e => e.fd = fd).map Entry.obj

def Holds (p : Pid) (x : Vmm.PipeEnd) : Prop := ∃ e ∈ w.table p, e.obj = x

instance (p : Pid) (x : Vmm.PipeEnd) : Decidable (w.Holds p x) :=
  inferInstanceAs (Decidable (∃ e ∈ w.table p, e.obj = x))

/-- `POLLERR`: nobody is left who could read. -/
def ReaderGone (k : Nat) : Prop := ∀ p ∈ w.pids, ¬ w.Holds p (.read k)

instance (k : Nat) : Decidable (w.ReaderGone k) :=
  inferInstanceAs (Decidable (∀ p ∈ w.pids, ¬ w.Holds p (.read k)))

/-- The descriptors from 0 to `readyFd` are in use from the start. -/
def FreeFd (t : Pid) (fd : Nat) : Prop := readyFd < fd ∧ ∀ e ∈ w.table t, e.fd ≠ fd

instance (t : Pid) (fd : Nat) : Decidable (w.FreeFd t fd) := inferInstanceAs (Decidable (_ ∧ _))

def setTable (t : Pid) (entries : List Entry) : World :=
  { w with table := Function.update w.table t entries }

def closeFd (t : Pid) (fd : Int) : World :=
  w.setTable t ((w.table t).filter fun e => (e.fd : Int) ≠ fd)

/-- What `exec` does to the table. -/
def execute (t : Pid) : World := w.setTable t ((w.table t).filter fun e => !e.cloexec)

/-- `pipe` does not set close-on-exec. -/
def addPipe (t : Pid) (r v : Nat) : World :=
  { w.setTable t (w.table t ++ [⟨r, .read w.pipes, false⟩, ⟨v, .write w.pipes, false⟩]) with
    pipes := w.pipes + 1 }

def addWatch (t : Pid) (r v : Nat) : World := { w.addPipe t r v with watch := some w.pipes }

/-- A new process with a copy of the descriptors. -/
def addProc (t p : Pid) : World :=
  { w.setTable p (w.table t) with
    pids := p :: w.pids
    alive := Function.update w.alive p true }

def addChild (t p : Pid) : World :=
  { w.addProc t p with since := if w.listener.isSome then p :: w.since else w.since }

def addListener (t p : Pid) : World := { w.addProc t p with listener := some p }

def terminate (t : Pid) : World :=
  { w.setTable t [] with alive := Function.update w.alive t false }

end World

/-! ## The kernel -/

/-- What a program that is not modelled can do with descriptors and processes. -/
inductive Deed
  | nothing
  | close (fd : Nat)
  | fork
  | exec
  | exit
  deriving Repr, DecidableEq

/-- What the environment decides about a call. -/
structure Reply where
  fails : Option Errno
  /-- New descriptors, and every other number. -/
  fds : Nat × Nat
  pid : Pid
  flags : BitVec 16
  bytes : List UInt8
  status : Vmm.WaitStatus
  deed : Deed

inductive Choice
  | killed
  | reply (r : Reply)

namespace Reply

variable (r : Reply)

/-- C's answer to a call. -/
def int (good : Int) : Int := if r.fails.isSome then -1 else good

/-- The calls that have nothing to do with pipes and processes can have any answer. -/
def sys {β : Type} : Net.Sys β → Option β
  | .socket _ => some (r.int r.fds.1)
  | .getFlags _ _ => some (if r.fails.isSome then none else some r.flags)
  | .setFlags _ _ _ => some (r.int 0)
  | .setName _ _ => some (r.int 0)
  | .brAddBr _ => some (r.int 0)
  | .brDelBr _ => some (r.int 0)
  | .brAddIf _ _ => some (r.int 0)
  | .brDelIf _ _ => some (r.int 0)
  | .nameToIndex _ _ => some (if r.fails.isSome then 0 else r.fds.1)
  | .openTun => some (r.int r.fds.1)
  | .tunSetIff _ _ _ => some (r.int 0)
  | .chAddNet _ _ _ _ => some r.fails
  | .chRemoveDevice _ _ => some r.fails
  | .setErrno _ => some ()
  | _ => none

def call {β : Type} : Vmm.Call β → Option β
  | .write _ _ => some (match r.fails with | some e => .error e | none => .ok r.fds.1)
  | .read _ _ => some (match r.fails with | some e => .error e | none => .ok r.bytes)
  | .kill _ _ => some r.fails
  | .waitpid _ => some ()
  | .getppid => some r.pid
  | .exec _ => some r.fds.1
  | .io _ => some r.fails
  | .wait => some r.status
  | _ => none

end Reply

section Kernel

variable (pid : Pid)

/-- A process is forked, or not. -/
def forks {β : Type} (w w' : World) (r : Reply) (error : Errno → β) (parent child : β) :
    Option (Outcome Pid β × World) :=
  match r.fails with
  | some e => some (.resume (error e), w)
  | none => if r.pid ∈ w.pids then none else some (.fork parent r.pid child, w')

/-- A pipe is made, or not. -/
def pipes {β : Type} (t : Pid) (w w' : World) (r : Reply) (error : Errno → β) (good : β) :
    Option (Outcome Pid β × World) :=
  match r.fails with
  | some e => some (.resume (error e), w)
  | none =>
    if r.fds.1 ≠ r.fds.2 ∧ w.FreeFd t r.fds.1 ∧ w.FreeFd t r.fds.2 then some (.resume good, w')
    else none

def polls (t : Pid) (w : World) (r : Reply) (fd : Nat) :
    Option (Outcome Pid (Option Errno) × World) :=
  match r.fails with
  | some e => some (.resume (some e), w)
  | none =>
    match w.obj t fd with
    | some (.write k) =>
      if w.ReaderGone k then some (.resume none, { w with begun := true }) else none
    | _ => none

def actSys {β : Type} (t : Pid) (w : World) (r : Reply) (c : Net.Sys β) :
    Option (Outcome Pid β × World) :=
  match c with
  | .pipe => pipes t w (w.addWatch t r.fds.1 r.fds.2) r (fun _ => none) (some r.fds)
  | .fork => forks w (w.addListener t r.pid) r (fun _ => .error) .parent .child
  | .close fd => some (.resume (r.int 0), w.closeFd t fd)
  | .poll fd => polls t w r fd
  | .exit _ => some (.halt, w.terminate t)
  | c => (r.sys c).map fun b => (.resume b, w)

def actCall {β : Type} (t : Pid) (w : World) (r : Reply) (c : Vmm.Call β) :
    Option (Outcome Pid β × World) :=
  match c with
  | .pipe => pipes t w (w.addPipe t r.fds.1 r.fds.2) r .error (.ok r.fds)
  | .fork => forks w (w.addChild t r.pid) r .error (.parent r.pid) .child
  | .close fd => some (.resume (), w.closeFd t fd)
  | .exit _ => some (.halt, w.terminate t)
  | c => (r.call c).map fun b => (.resume b, w)

/-- cloud-hypervisor does not close the ends of pipes it has inherited, which it does not know. -/
def actLaunch {β : Type} (t : Pid) (w : World) (r : Reply) (c : Launch β) :
    Option (Outcome Pid β × World) :=
  match c with
  | .fork => forks w (w.addChild t r.pid) r .error (.parent r.pid) .child
  | .exec =>
    match r.fails with
    | some e => some (.resume (some e), w)
    | none => some (.resume none, w.execute t)
  | .foreign =>
    match r.deed with
    | .nothing => some (.resume (), w)
    | .close fd => if t = pid then none else some (.resume (), w.closeFd t fd)
    | .fork => forks w (w.addChild t r.pid) r (fun _ => ()) () ()
    | .exec => some (.resume (), w.execute t)
    | .exit => some (.halt, w.terminate t)

/-- A process can be killed at any call. -/
def exec {β : Type} (t : Pid) (c : Op β) (w : World) (ch : Choice) :
    Option (Outcome Pid β × World) :=
  if w.alive t = false then some (.halt, w)
  else
    match ch with
    | .killed => some (.halt, w.terminate t)
    | .reply r =>
      match c with
      | .net c => actSys t w r c
      | .vmm c => actCall t w r c
      | .launch c => actLaunch pid t w r c

def kernel : Kernel Op Pid World Choice := ⟨exec pid⟩

end Kernel

/-- `start-vmm`, as its supervisor started it. -/
def start (env : Vmm.Env) (vmDir : Vmm.OsString) (routerVm : Net.VmDir) (pid : Pid)
    (config : Net.NetConfig → Except String Vmm.VmConfig) (junk : Fin 4 → UInt8) :
    Pool Op Pid World Unit where
  world := .init pid
  thread := Function.update (fun _ => none) pid (some (main env vmDir routerVm pid config junk))

/-! ## What a call can do -/

/-- The answers that say that nothing has happened. -/
def SysQuiet {β : Type} (c : Net.Sys β) (b : β) : Prop :=
  match c with
  | .pipe => b = none
  | .fork => b = .error
  | .poll _ => b ≠ none
  | .close _ | .exit _ => False
  | _ => True

def CallQuiet {β : Type} (c : Vmm.Call β) (b : β) : Prop :=
  match c with
  | .pipe => ∃ e, b = .error e
  | .fork => ∃ e, b = .error e
  | .close _ | .exit _ => False
  | _ => True

def LaunchQuiet {β : Type} (c : Launch β) (b : β) : Prop :=
  match c with
  | .fork => ∃ e, b = .error e
  | .exec => b ≠ none
  | .foreign => True

/-- The transitions of one process, read off `exec`. -/
inductive Step (pid t : Pid) (w : World) : ∀ {β : Type}, Op β → Outcome Pid β → World → Prop
  | halt {β : Type} {c : Op β} : Step pid t w c .halt (w.terminate t)
  | sys {β : Type} {c : Net.Sys β} {b : β} : SysQuiet c b → Step pid t w (.net c) (.resume b) w
  | call {β : Type} {c : Vmm.Call β} {b : β} : CallQuiet c b → Step pid t w (.vmm c) (.resume b) w
  | launch {β : Type} {c : Launch β} {b : β} : LaunchQuiet c b →
    Step pid t w (.launch c) (.resume b) w
  | watch {r v : Nat} : r ≠ v → w.FreeFd t r → w.FreeFd t v →
    Step pid t w (.net .pipe) (.resume (some (r, v))) (w.addWatch t r v)
  | listener {p : Pid} : p ∉ w.pids →
    Step pid t w (.net .fork) (.fork .parent p .child) (w.addListener t p)
  | sysClose {fd b : Int} : Step pid t w (.net (.close fd)) (.resume b) (w.closeFd t fd)
  | poll {fd k : Nat} : w.obj t fd = some (.write k) → w.ReaderGone k →
    Step pid t w (.net (.poll fd)) (.resume none) { w with begun := true }
  | pipe {r v : Nat} : r ≠ v → w.FreeFd t r → w.FreeFd t v →
    Step pid t w (.vmm .pipe) (.resume (.ok (r, v))) (w.addPipe t r v)
  | fork {p : Pid} : p ∉ w.pids →
    Step pid t w (.vmm .fork) (.fork (.parent p) p .child) (w.addChild t p)
  | callClose {fd : Nat} : Step pid t w (.vmm (.close fd)) (.resume ()) (w.closeFd t fd)
  | launchFork {p : Pid} : p ∉ w.pids →
    Step pid t w (.launch .fork) (.fork (.parent p) p .child) (w.addChild t p)
  | exec : Step pid t w (.launch .exec) (.resume none) (w.execute t)
  | foreignClose {fd : Nat} : t ≠ pid →
    Step pid t w (.launch .foreign) (.resume ()) (w.closeFd t fd)
  | foreignFork {p : Pid} : p ∉ w.pids →
    Step pid t w (.launch .foreign) (.fork () p ()) (w.addChild t p)
  | foreignExec : Step pid t w (.launch .foreign) (.resume ()) (w.execute t)

section Inversion

variable {pid t : Pid} {w w' : World} {r : Reply}

theorem forks_cases {β : Type} {w₁ : World} {error : Errno → β} {parent child : β}
    {o : Outcome Pid β} (h : forks w w₁ r error parent child = some (o, w')) :
    (∃ e, o = .resume (error e) ∧ w' = w) ∨
      (r.pid ∉ w.pids ∧ o = .fork parent r.pid child ∧ w' = w₁) := by
  unfold forks at h
  split at h
  · cases h
    exact Or.inl ⟨_, rfl, rfl⟩
  · split at h
    · cases h
    · cases h
      exact Or.inr ⟨by assumption, rfl, rfl⟩

theorem pipes_cases {β : Type} {w₁ : World} {error : Errno → β} {good : β} {o : Outcome Pid β}
    (h : pipes t w w₁ r error good = some (o, w')) :
    (∃ e, o = .resume (error e) ∧ w' = w) ∨
      ((r.fds.1 ≠ r.fds.2 ∧ w.FreeFd t r.fds.1 ∧ w.FreeFd t r.fds.2) ∧
        o = .resume good ∧ w' = w₁) := by
  unfold pipes at h
  split at h
  · cases h
    exact Or.inl ⟨_, rfl, rfl⟩
  · split at h
    · cases h
      exact Or.inr ⟨by assumption, rfl, rfl⟩
    · cases h

theorem actSys_step {β : Type} {c : Net.Sys β} {o : Outcome Pid β}
    (h : actSys t w r c = some (o, w')) : Step pid t w (.net c) o w' := by
  cases c with
  | pipe =>
    obtain ⟨e, rfl, rfl⟩ | ⟨⟨hne, hr, hv⟩, rfl, rfl⟩ := pipes_cases h
    · exact .sys rfl
    · exact .watch hne hr hv
  | fork =>
    obtain ⟨e, rfl, rfl⟩ | ⟨hp, rfl, rfl⟩ := forks_cases h
    · exact .sys rfl
    · exact .listener hp
  | close fd =>
    cases h
    exact .sysClose
  | poll fd =>
    simp only [actSys, polls] at h
    split at h
    · cases h
      exact .sys (Option.some_ne_none _)
    · split at h
      · rename_i k hobj
        split at h
        · rename_i hgone
          cases h
          exact .poll hobj hgone
        · cases h
      · cases h
  | exit status =>
    cases h
    exact .halt
  | _ =>
    cases h
    exact .sys trivial

theorem actCall_step {β : Type} {c : Vmm.Call β} {o : Outcome Pid β}
    (h : actCall t w r c = some (o, w')) : Step pid t w (.vmm c) o w' := by
  cases c with
  | pipe =>
    obtain ⟨e, rfl, rfl⟩ | ⟨⟨hne, hr, hv⟩, rfl, rfl⟩ := pipes_cases h
    · exact .call ⟨e, rfl⟩
    · exact .pipe hne hr hv
  | fork =>
    obtain ⟨e, rfl, rfl⟩ | ⟨hp, rfl, rfl⟩ := forks_cases h
    · exact .call ⟨e, rfl⟩
    · exact .fork hp
  | close fd =>
    cases h
    exact .callClose
  | exit status =>
    cases h
    exact .halt
  | _ =>
    cases h
    exact .call trivial

theorem actLaunch_step {β : Type} {c : Launch β} {o : Outcome Pid β}
    (h : actLaunch pid t w r c = some (o, w')) : Step pid t w (.launch c) o w' := by
  cases c with
  | fork =>
    obtain ⟨e, rfl, rfl⟩ | ⟨hp, rfl, rfl⟩ := forks_cases h
    · exact .launch ⟨e, rfl⟩
    · exact .launchFork hp
  | exec =>
    simp only [actLaunch] at h
    split at h
    · cases h
      exact .launch (Option.some_ne_none _)
    · cases h
      exact .exec
  | foreign =>
    simp only [actLaunch] at h
    split at h
    · cases h
      exact .launch trivial
    · split at h
      · cases h
      · rename_i hne
        cases h
        exact .foreignClose hne
    · obtain ⟨e, rfl, rfl⟩ | ⟨hp, rfl, rfl⟩ := forks_cases h
      · exact .launch trivial
      · exact .foreignFork hp
    · cases h
      exact .foreignExec
    · cases h
      exact .halt

theorem exec_step {β : Type} {c : Op β} {ch : Choice} {o : Outcome Pid β} (ht : w.alive t = true)
    (h : exec pid t c w ch = some (o, w')) : Step pid t w c o w' := by
  unfold exec at h
  rw [if_neg (by simp [ht])] at h
  cases ch with
  | killed =>
    cases h
    exact .halt
  | reply r =>
    cases c with
    | net c => exact actSys_step h
    | vmm c => exact actCall_step h
    | launch c => exact actLaunch_step h

end Inversion

end Spectrum.Watch
