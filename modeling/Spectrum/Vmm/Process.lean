import Spectrum.Errno
import Spectrum.Interact.Bytes
import Spectrum.Interact.Pool

/-!
# Processes and pipes

The part of Linux that `double_fork` and its callers run on: a process tree, pipes, signals. Time
passes only in calls, and a call has one of the outcomes its `Choice` allows, so that a schedule
decides every error, every short count and every new pid.

A process can be killed at any of its calls, from outside or by a signal one of the others sends.
Its children then belong to the `reaper`, init or the nearest subreaper, as they do when it exits.
Pids are not reused among the processes of one run.

`forks`, `failed` and `signals` are records of what happened. No call reads them.
-/

set_option autoImplicit false

namespace Spectrum.Vmm

open Interact

abbrev Pid := Nat

def SIGKILL : Nat := 9
def SIGTERM : Nat := 15

/-! ## The calls -/

inductive ForkResult
  | error (e : Errno)
  | child
  | parent (pid : Pid)
  deriving Repr, DecidableEq

/-- What `wait` says about a child process. -/
inductive WaitStatus
  | error (e : Errno)
  | exited (code : Nat)
  | signaled (signal : Nat)
  deriving Repr, DecidableEq

/-- What has to do with files and with `ch-remote`. None of it has effects that the processes
modelled here can see, apart from the error. -/
inductive IoOp
  | removeFile (path : List UInt8)
  | bind (path : List UInt8)
  | clearCloexec
  | eprint (line : String)
  | spawn (argv : List (List UInt8))
  | writeStdin (text : String)
  | writeReady (text : String)
  deriving Repr, DecidableEq

inductive Call : Type → Type
  | pipe : Call (Except Errno (Nat × Nat))
  | fork : Call ForkResult
  | close (fd : Nat) : Call Unit
  | write (fd : Nat) (bytes : List UInt8) : Call (Except Errno Nat)
  | read (fd count : Nat) : Call (Except Errno (List UInt8))
  | kill (pid : Pid) (signo : Nat) : Call (Option Errno)
  | waitpid (pid : Pid) : Call Unit
  | getppid : Call Pid
  | exit (status : Nat) : Call Empty
  | exec (argv : List (List UInt8)) : Call Errno
  | io (op : IoOp) : Call (Option Errno)
  /-- Wait for the `ch-remote` process started last. -/
  | wait : Call WaitStatus

/-- The calls that can fail. -/
inductive Site
  | pipe | fork | read | write | kill | exec | io
  deriving Repr, DecidableEq

/-- What the environment decides about a call. -/
inductive Choice
  | ok
  | fail (site : Site) (e : Errno)
  /-- The descriptors a new pipe gets. -/
  | fds (r v : Nat)
  /-- The pid a new process gets. -/
  | pid (p : Pid)
  /-- The number of bytes transferred. -/
  | count (n : Nat)
  | status (s : WaitStatus)
  /-- The process is killed before it makes the call. -/
  | killed
  deriving Repr, DecidableEq

/-- `exit`, which has no continuation. -/
def exitWith {α : Type} (status : Nat) : Prog Call α := .call (.exit status) Empty.elim

/-! ## The state -/

/-- One end of a pipe. -/
inductive PipeEnd
  | read (pipe : Nat)
  | write (pipe : Nat)
  deriving Repr, DecidableEq

structure Desc where
  proc : Pid
  fd : Nat
  obj : PipeEnd
  deriving Repr, DecidableEq

structure Failure where
  proc : Pid
  site : Site
  errno : Errno
  deriving Repr, DecidableEq

structure Signal where
  sender : Pid
  target : Pid
  signo : Nat
  delivered : Bool
  deriving Repr, DecidableEq

structure Procs where
  /-- The processes of this run, those that have ended included. -/
  pids : List Pid
  alive : Pid → Bool
  parent : Pid → Pid
  reaper : Pid
  descs : List Desc
  /-- The number of pipes created so far; the next one gets this number. -/
  pipes : Nat
  buf : Nat → List UInt8
  forks : List (Pid × Pid)
  failed : List Failure
  signals : List Signal

namespace Procs

/-- `start-vmm` alone, as its supervisor started it. -/
def init (vmm supervisor reaper : Pid) : Procs where
  pids := [vmm]
  alive := fun p => p == vmm
  parent := fun _ => supervisor
  reaper := reaper
  descs := []
  pipes := 0
  buf := fun _ => []
  forks := []
  failed := []
  signals := []

/-- What a descriptor of a process refers to. -/
def obj (w : Procs) (t : Pid) (fd : Nat) : Option PipeEnd :=
  (w.descs.find? fun d => d.proc = t ∧ d.fd = fd).map Desc.obj

def held (w : Procs) (obj : PipeEnd) : Bool := w.descs.any fun d => d.obj = obj

def openPipe (w : Procs) (t : Pid) (r v : Nat) : Procs :=
  { w with
    descs := w.descs ++ [⟨t, r, .read w.pipes⟩, ⟨t, v, .write w.pipes⟩]
    pipes := w.pipes + 1 }

/-- A new process with a copy of its parent's descriptors. -/
def addChild (w : Procs) (t p : Pid) : Procs :=
  { w with
    pids := p :: w.pids
    alive := Function.update w.alive p true
    parent := Function.update w.parent p t
    descs := w.descs ++ (w.descs.filter fun d => d.proc = t).map fun d => { d with proc := p }
    forks := (t, p) :: w.forks }

@[simp] theorem parent_addChild (w : Procs) (t p : Pid) : (w.addChild t p).parent p = t :=
  Function.update_self _ _ _

def closeFd (w : Procs) (t : Pid) (fd : Nat) : Procs :=
  { w with descs := w.descs.filter fun d => ¬ (d.proc = t ∧ d.fd = fd) }

def put (w : Procs) (k : Nat) (bytes : List UInt8) : Procs :=
  { w with buf := Function.update w.buf k (w.buf k ++ bytes) }

def take (w : Procs) (k n : Nat) : Procs :=
  { w with buf := Function.update w.buf k ((w.buf k).drop n) }

@[simp] theorem buf_put (w : Procs) (k : Nat) (bytes : List UInt8) :
    (w.put k bytes).buf k = w.buf k ++ bytes := Function.update_self _ _ _

@[simp] theorem buf_take (w : Procs) (k n : Nat) : (w.take k n).buf k = (w.buf k).drop n :=
  Function.update_self _ _ _

/-- The process ends: its descriptors are closed, and its children get a new parent. -/
def terminate (w : Procs) (t : Pid) : Procs :=
  { w with
    alive := Function.update w.alive t false
    parent := fun p => if w.parent p = t then w.reaper else w.parent p
    descs := w.descs.filter fun d => d.proc ≠ t }

def refused (w : Procs) (t : Pid) (site : Site) (e : Errno) : Procs :=
  { w with failed := ⟨t, site, e⟩ :: w.failed }

def signalled (w : Procs) (x : Signal) : Procs := { w with signals := x :: w.signals }

/-- A signal, which ends its target if that is one of the processes here. Neither of the two
signals the code sends is caught. -/
def deliver (w : Procs) (x : Signal) : Procs :=
  if x.target ∈ w.pids then (w.signalled x).terminate x.target else w.signalled x

/-- Whether the new process can get this pid; `pid_t` is an `int`. -/
def Fresh (w : Procs) (p : Nat) : Prop := p ∉ w.pids ∧ 0 < p ∧ p < 2 ^ 31

instance (w : Procs) (p : Pid) : Decidable (w.Fresh p) := inferInstanceAs (Decidable (_ ∧ _))

end Procs

/-! ## The kernel -/

/-- The calls that fail with the answer `b`. -/
def refuse {β : Type} (t : Pid) (site site' : Site) (e : Errno) (b : β) (w : Procs) :
    Option (Outcome Pid β × Procs) :=
  if site = site' ∧ e.Valid then some (.resume b, w.refused t site e) else none

/-- A call of a process that is running and stays so. -/
def act {β : Type} (t : Pid) (c : Call β) (w : Procs) (ch : Choice) :
    Option (Outcome Pid β × Procs) :=
  match c with
  | .pipe =>
    match ch with
    | .fail s e => refuse t .pipe s e (.error e) w
    | .fds r v =>
      if r ≠ v ∧ w.obj t r = none ∧ w.obj t v = none then
        some (.resume (.ok (r, v)), w.openPipe t r v)
      else none
    | _ => none
  | .fork =>
    match ch with
    | .fail s e => refuse t .fork s e (.error e) w
    | .pid p => if w.Fresh p then some (.fork (.parent p) p .child, w.addChild t p) else none
    | _ => none
  | .close fd =>
    match ch with
    | .ok => some (.resume (), w.closeFd t fd)
    | _ => none
  | .write fd bytes =>
    match ch, w.obj t fd with
    | .fail s e, _ => refuse t .write s e (.error e) w
    | .count n, some (.write k) =>
      if 0 < n ∧ n ≤ bytes.length ∧ w.held (.read k) then
        some (.resume (.ok n), w.put k (bytes.take n))
      else none
    | _, _ => none
  | .read fd count =>
    match ch, w.obj t fd with
    | .fail s e, _ => refuse t .read s e (.error e) w
    | .count n, some (.read k) =>
      if n ≤ count ∧ n ≤ (w.buf k).length ∧ (0 < n ∨ w.buf k = [] ∧ ¬ w.held (.write k)) then
        some (.resume (.ok ((w.buf k).take n)), w.take k n)
      else none
    | _, _ => none
  | .kill p signo =>
    match ch with
    | .fail s e => refuse t .kill s e (some e) (w.signalled ⟨t, p, signo, false⟩)
    | .ok => some (.resume none, w.deliver ⟨t, p, signo, true⟩)
    | _ => none
  | .waitpid p =>
    match ch with
    | .ok => if w.alive p = false then some (.resume (), w) else none
    | _ => none
  | .getppid =>
    match ch with
    | .ok => some (.resume (w.parent t), w)
    | _ => none
  | .exit _ =>
    match ch with
    | .ok => some (.halt, w.terminate t)
    | _ => none
  | .exec _ =>
    match ch with
    | .fail s e => refuse t .exec s e e w
    -- The process goes on as the program it executes, which is not modelled.
    | .ok => some (.halt, w)
    | _ => none
  | .io _ =>
    match ch with
    | .fail s e => refuse t .io s e (some e) w
    | .ok => some (.resume none, w)
    | _ => none
  | .wait =>
    match ch with
    | .status s => some (.resume s, w)
    | _ => none

/-- A process that has been killed does not get to make its next call. -/
def exec {β : Type} (t : Pid) (c : Call β) (w : Procs) (ch : Choice) :
    Option (Outcome Pid β × Procs) :=
  if w.alive t = false then some (.halt, w)
  else if ch = .killed then some (.halt, w.terminate t)
  else act t c w ch

def kernel : Kernel Call Pid Procs Choice := ⟨exec⟩

/-- A program that the process `vmm` is about to run, with no other processes around. -/
def solo {α : Type} (vmm supervisor reaper : Pid) (p : Prog Call α) : Pool Call Pid Procs α where
  world := .init vmm supervisor reaper
  thread := Function.update (fun _ => none) vmm (some p)

/-! ## What a call can do -/

/-- The transitions of one process, read off `exec`. -/
inductive Step (t : Pid) (w : Procs) :
    ∀ {β : Type}, Call β → Choice → Outcome Pid β → Procs → Prop
  | pipeError {e : Errno} : e.Valid →
    Step t w .pipe (.fail .pipe e) (.resume (.error e)) (w.refused t .pipe e)
  | pipe {r v : Nat} : r ≠ v → w.obj t r = none → w.obj t v = none →
    Step t w .pipe (.fds r v) (.resume (.ok (r, v))) (w.openPipe t r v)
  | forkError {e : Errno} : e.Valid →
    Step t w .fork (.fail .fork e) (.resume (.error e)) (w.refused t .fork e)
  | fork {p : Pid} : w.Fresh p →
    Step t w .fork (.pid p) (.fork (.parent p) p .child) (w.addChild t p)
  | close {fd : Nat} : Step t w (.close fd) .ok (.resume ()) (w.closeFd t fd)
  | writeError {fd : Nat} {bytes : List UInt8} {e : Errno} : e.Valid →
    Step t w (.write fd bytes) (.fail .write e) (.resume (.error e)) (w.refused t .write e)
  | write {fd k n : Nat} {bytes : List UInt8} : w.obj t fd = some (.write k) → 0 < n →
    n ≤ bytes.length →
    Step t w (.write fd bytes) (.count n) (.resume (.ok n)) (w.put k (bytes.take n))
  | readError {fd count : Nat} {e : Errno} : e.Valid →
    Step t w (.read fd count) (.fail .read e) (.resume (.error e)) (w.refused t .read e)
  | read {fd k n count : Nat} : w.obj t fd = some (.read k) → n ≤ count → n ≤ (w.buf k).length →
    (n = 0 → w.buf k = [] ∧ w.held (.write k) = false) →
    Step t w (.read fd count) (.count n) (.resume (.ok ((w.buf k).take n))) (w.take k n)
  | killError {p : Pid} {signo : Nat} {e : Errno} : e.Valid →
    Step t w (.kill p signo) (.fail .kill e) (.resume (some e))
      ((w.signalled ⟨t, p, signo, false⟩).refused t .kill e)
  | kill {p : Pid} {signo : Nat} :
    Step t w (.kill p signo) .ok (.resume none) (w.deliver ⟨t, p, signo, true⟩)
  | waitpid {p : Pid} : w.alive p = false → Step t w (.waitpid p) .ok (.resume ()) w
  | getppid : Step t w .getppid .ok (.resume (w.parent t)) w
  | exit {status : Nat} : Step t w (.exit status) .ok .halt (w.terminate t)
  | execError {argv : List (List UInt8)} {e : Errno} : e.Valid →
    Step t w (.exec argv) (.fail .exec e) (.resume e) (w.refused t .exec e)
  | exec {argv : List (List UInt8)} : Step t w (.exec argv) .ok .halt w
  | ioError {op : IoOp} {e : Errno} : e.Valid →
    Step t w (.io op) (.fail .io e) (.resume (some e)) (w.refused t .io e)
  | io {op : IoOp} : Step t w (.io op) .ok (.resume none) w
  | wait {s : WaitStatus} : Step t w .wait (.status s) (.resume s) w
  | gone {β : Type} {c : Call β} {ch : Choice} : w.alive t = false → Step t w c ch .halt w
  | killed {β : Type} {c : Call β} : Step t w c .killed .halt (w.terminate t)

theorem refuse_some {β : Type} {t : Pid} {site site' : Site} {e : Errno} {b : β} {w : Procs}
    {o : Outcome Pid β × Procs} (h : refuse t site site' e b w = some o) :
    site' = site ∧ e.Valid ∧ o = (.resume b, w.refused t site e) := by
  unfold refuse at h
  split at h
  · next hc => exact ⟨hc.1.symm, hc.2, (Option.some.inj h).symm⟩
  · cases h

theorem act_step {β : Type} {t : Pid} {c : Call β} {w w' : Procs} {ch : Choice}
    {o : Outcome Pid β} (h : act t c w ch = some (o, w')) : Step t w c ch o w' := by
  -- The calls that fail do so in the same way; the choices that do not fit leave no equation.
  cases c <;> simp only [act] at h <;> split at h <;>
    first
    | (obtain ⟨rfl, he, ho⟩ := refuse_some h; cases ho; constructor; exact he)
    | (cases h; constructor)
    | cases h
    | (split at h; swap; · cases h)
  · next hc =>
    cases h
    exact .pipe hc.1 hc.2.1 hc.2.2
  · next hc =>
    cases h
    exact .fork hc
  · next hk hc =>
    cases h
    exact .write hk hc.1 hc.2.1
  · next hk hc =>
    cases h
    exact .read hk hc.1 hc.2.1 fun h0 => by simpa [h0] using hc.2.2
  · next hc =>
    cases h
    exact .waitpid hc

theorem exec_step {β : Type} {t : Pid} {c : Call β} {w w' : Procs} {ch : Choice}
    {o : Outcome Pid β} (h : kernel.exec t c w ch = some (o, w')) : Step t w c ch o w' := by
  change Vmm.exec t c w ch = _ at h
  unfold Vmm.exec at h
  split at h
  · next hdead =>
    cases h
    exact .gone hdead
  · split at h
    · next hk =>
      cases h
      exact hk ▸ .killed
    · exact act_step h

end Spectrum.Vmm
