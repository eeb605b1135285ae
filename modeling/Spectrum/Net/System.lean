import Spectrum.Interact.Pool
import Spectrum.Net.Setup

/-!
# Lifetimes

One pid, over time: a `start-vmm` process runs `net_setup`, becomes the VM and dies; its exit
listener outlives it; the pid is given to the next `start-vmm`, which may have another router VM.
Lifetimes are numbered, so that a process and everything it creates can be told apart from those of
the next process with the same pid, which the names of the interfaces cannot do.

A `System` is the pool of these processes over one host. Its events are the steps of the
processes, in any order, and the two things the kernel does to a VM process: start it, and end
it, at any point of its code.
-/

set_option autoImplicit false

namespace Spectrum.Net

open Interact

structure System : Type 1 where
  pool : Pool Sys Proc Host NetConfig
  /-- The newest lifetime; `0` before the first one. -/
  cur : Nat
  /-- Its VM process is running, so its pid is taken. -/
  alive : Bool

inductive Event
  /-- The process `t` makes its next call, with this outcome. -/
  | step (t : Proc) (ch : Option Errno)
  /-- The VM process dies. -/
  | die
  /-- The next `start-vmm` process starts, with this pid and this VM as its router. -/
  | spawn (pid : Nat) (routerVm : VmDir)
  deriving Repr, DecidableEq

namespace System

/-- No process is running and no lifetime has begun. -/
def init (w : Host) : System := ⟨⟨w, fun _ => none⟩, 0, false⟩

def net (s : System) : NetState := s.pool.world.net

/-- The VM process of the current lifetime has ended, and with it its descriptors. -/
def kill (s : System) : System where
  pool :=
    { world := s.pool.world.withNet (s.net.exitProc (.vmm s.cur))
      thread := Function.update s.pool.thread (.vmm s.cur) none }
  cur := s.cur
  alive := false

def start (s : System) (pid : Nat) (routerVm : VmDir) : System where
  pool :=
    { s.pool with
      thread := Function.update s.pool.thread (.vmm (s.cur + 1)) (some (netSetup pid routerVm)) }
  cur := s.cur + 1
  alive := true

def next (s : System) : Event → System
  | .step t ch => { s with pool := s.pool.step kernel t ch }
  | .die => if s.alive then s.kill else s
  | .spawn pid routerVm => if s.alive then s else s.start pid routerVm

def run (s : System) (evs : List Event) : System := evs.foldl next s

@[simp] theorem run_nil (s : System) : s.run [] = s := rfl

@[simp] theorem run_cons (s : System) (ev : Event) (evs : List Event) :
    s.run (ev :: evs) = (s.next ev).run evs := rfl

end System

end Spectrum.Net
