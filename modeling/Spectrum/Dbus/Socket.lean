import Spectrum.Dbus.Cids
import Spectrum.Interact.Kernel

/-!
# The VSOCK sockets of a D-Bus process

The calls that the VSOCK code of libdbus makes, and a world for them to act on: the sockets the
process has open, and the connections it has passed on or hung up on. A socket that is bound to any
port gets one that the kernel picks, and a CID stays as it was asked for.

`close` of `-1`, which the code relies on, does nothing. Allocations are calls, too, because the
code is not prepared for all of them to fail, and so are the functions of libdbus that make servers,
transports and connections out of sockets: all that is assumed of these is what becomes of the
socket, and they may fail for whatever reason. A world remembers whether an allocation has failed,
and whether a server could not be made.

**The contract `sockSpec` is what every proof about this code uses**, and `run_meets` carries what
is proved under it over to every run.
-/

set_option autoImplicit false

namespace Spectrum.Dbus

open Interact

structure SockaddrVm where
  cid : BitVec 32
  port : BitVec 32
  deriving DecidableEq

/-- `VMADDR_CID_ANY` and `VMADDR_PORT_ANY`. -/
def vmaddrAny : BitVec 32 := 0xffffffff

inductive Call : Type → Type
  /-- Something is allocated. -/
  | memory : Call Bool
  /-- `_dbus_open_socket`, for a VSOCK stream socket. -/
  | openSocket : Call (Except DBusError Nat)
  | bind (fd : Nat) (sa : SockaddrVm) : Call (Option Errno)
  | setNonblocking (fd : Nat) : Call (Option DBusError)
  | listen (fd : Nat) (backlog : Nat) : Call (Option Errno)
  | getsockname (fd : Nat) : Call (Except Errno SockaddrVm)
  | connect (fd : Nat) (sa : SockaddrVm) : Call (Option Errno)
  | accept (fd : Nat) : Call (Except Errno Nat)
  | getpeername (fd : Int) : Call (Except Errno SockaddrVm)
  | close (fd : Int) : Call Unit
  /-- `_dbus_server_new_for_socket`, and why there is no server. -/
  | serverNewForSocket (fd : Nat) (address : List UInt8) : Call (Option DBusError)
  /-- `_dbus_transport_new_for_socket`, and whether there is a transport. -/
  | transportNewForSocket (fd : Nat) (address : List UInt8) : Call Bool
  /-- `handle_new_client_fd_and_unlock`, which takes the socket whatever it returns. -/
  | handleNewClient (fd : Nat) : Call Bool
  /-- An access through a null pointer. -/
  | crash : Call Empty

def crash {α : Type} : Prog Call α := .call .crash Empty.elim

structure Sock where
  name : Option SockaddrVm
  peer : Option SockaddrVm
  deriving DecidableEq

structure World where
  socks : Nat → Option Sock
  /-- The connections that were passed on. -/
  clients : List Nat
  /-- The other ends of the connections that were closed. -/
  hungUp : List SockaddrVm
  /-- An allocation has failed. -/
  starved : Bool
  /-- A server could not be made. -/
  unserved : Bool
  /-- A `getpeername` has failed. -/
  nameless : Bool

namespace World

variable (w : World)

def set (fd : Nat) (s : Option Sock) : World := { w with socks := Function.update w.socks fd s }

def starve : World := { w with starved := true }

/-- Something has failed that the code does not look at. -/
def Faulted : Prop := w.starved = true ∨ w.unserved = true

/-- Who is at the other end. -/
def peerOf (fd : Int) : Option SockaddrVm :=
  match fd with
  | .negSucc _ => none
  | .ofNat fd => (w.socks fd).bind Sock.peer

def close (fd : Int) : World :=
  match fd with
  | .negSucc _ => w
  | .ofNat n => { w.set n none with hungUp := w.hungUp ++ (w.peerOf fd).toList }

end World

inductive Choice
  | ok
  | noMemory
  | fail (e : Errno)
  | failWith (e : DBusError)
  /-- A new descriptor. -/
  | fd (fd : Nat)
  /-- A port, for a socket that does not ask for one. -/
  | port (port : BitVec 32)
  /-- A new descriptor, for a connection with `peer`. -/
  | client (fd : Nat) (peer : SockaddrVm)

/-- The name a socket gets that asks for `sa`, where `port` is free. -/
def SockaddrVm.given (sa : SockaddrVm) (port : BitVec 32) : SockaddrVm :=
  { sa with port := if sa.port = vmaddrAny then port else sa.port }

/-- What is assumed of the kernel and of those functions of libdbus: whether a call succeeds is up
to `ch`, and this is what it does to the sockets then. -/
def exec {β : Type} (_ : Unit) (c : Call β) (w : World) (ch : Choice) :
    Option (Outcome Unit β × World) :=
  match c with
  | .memory =>
    match ch with
    | .ok => some (.resume true, w)
    | .noMemory => some (.resume false, w.starve)
    | _ => none
  | .openSocket =>
    match ch with
    | .fd fd =>
      if w.socks fd = none then some (.resume (.ok fd), w.set fd (some ⟨none, none⟩)) else none
    | .failWith e => some (.resume (.error e), w)
    | _ => none
  | .bind fd sa =>
    match ch with
    | .port port => (w.socks fd).map fun s =>
        (.resume none, w.set fd (some { s with name := some (sa.given port) }))
    | .fail e => some (.resume (some e), w)
    | _ => none
  | .setNonblocking _ =>
    match ch with
    | .ok => some (.resume none, w)
    | .failWith e => some (.resume (some e), w)
    | _ => none
  | .listen _ _ =>
    match ch with
    | .ok => some (.resume none, w)
    | .fail e => some (.resume (some e), w)
    | _ => none
  | .getsockname fd =>
    match ch with
    | .ok => ((w.socks fd).bind Sock.name).map fun sa => (.resume (.ok sa), w)
    | .fail e => some (.resume (.error e), w)
    | _ => none
  | .connect fd sa =>
    match ch with
    | .ok => (w.socks fd).map fun s => (.resume none, w.set fd (some { s with peer := some sa }))
    | .fail e => some (.resume (some e), w)
    | _ => none
  | .accept _ =>
    match ch with
    | .client fd peer =>
      if w.socks fd = none then some (.resume (.ok fd), w.set fd (some ⟨none, some peer⟩))
      else none
    | .fail e => some (.resume (.error e), w)
    | _ => none
  | .getpeername fd =>
    match ch with
    | .ok => (w.peerOf fd).map fun sa => (.resume (.ok sa), w)
    | .fail e => some (.resume (.error e), { w with nameless := true })
    | _ => none
  | .close fd =>
    match ch with
    | .ok => some (.resume (), w.close fd)
    | _ => none
  | .serverNewForSocket _ _ =>
    match ch with
    | .ok => some (.resume none, w)
    | .failWith e => some (.resume (some e), { w with unserved := true })
    | _ => none
  | .transportNewForSocket _ _ =>
    match ch with
    | .ok => some (.resume true, w)
    | .noMemory => some (.resume false, w)
    | _ => none
  | .handleNewClient fd =>
    match ch with
    | .ok => some (.resume true, { w with clients := w.clients ++ [fd] })
    | .noMemory => some (.resume false, w.set fd none)
    | _ => none
  | .crash =>
    match ch with
    | .ok => some (.halt, w)
    | _ => none

def kernel : Kernel Call Unit World Choice := ⟨exec⟩

/-! ## What a call can do -/

/-- The answers a call can get, with the world afterwards. -/
def Answer (w : World) {β : Type} (c : Call β) (b : β) (w' : World) : Prop :=
  match c with
  | .memory => w' = if b then w else w.starve
  | .openSocket =>
    match b with
    | .ok fd => w.socks fd = none ∧ w' = w.set fd (some ⟨none, none⟩)
    | .error _ => w' = w
  | .bind fd sa =>
    match b with
    | none => ∃ s port, w.socks fd = some s ∧
        w' = w.set fd (some { s with name := some (sa.given port) })
    | some _ => w' = w
  | .getsockname fd =>
    match b with
    | .ok sa => (w.socks fd).bind Sock.name = some sa ∧ w' = w
    | .error _ => w' = w
  | .connect fd sa =>
    match b with
    | none => ∃ s, w.socks fd = some s ∧ w' = w.set fd (some { s with peer := some sa })
    | some _ => w' = w
  | .accept _ =>
    match b with
    | .ok fd => ∃ peer, w.socks fd = none ∧ w' = w.set fd (some ⟨none, some peer⟩)
    | .error _ => w' = w
  | .getpeername fd =>
    match b with
    | .ok sa => w.peerOf fd = some sa ∧ w' = w
    | .error _ => w' = { w with nameless := true }
  | .close fd => w' = w.close fd
  | .serverNewForSocket _ _ =>
    match b with
    | none => w' = w
    | some _ => w' = { w with unserved := true }
  | .transportNewForSocket _ _ => w' = w
  | .handleNewClient fd =>
    w' = if b then { w with clients := w.clients ++ [fd] } else w.set fd none
  | .setNonblocking _ => w' = w
  | .listen _ _ => w' = w
  | .crash => False

/-- The contract of the kernel. A crash has to have a reason. -/
def sockSpec (reason : World → Prop) : Spec Call World where
  pre w c :=
    match c with
    | .crash => reason w
    | _ => True
  post w c b w' := Answer w c b w'

theorem exec_answer {β : Type} {c : Call β} {w w' : World} {ch : Choice} {o : Outcome Unit β}
    {b : β} (h : exec () c w ch = some (o, w')) (ho : o.answer = some b) : Answer w c b w' := by
  cases c with
  | crash => exact b.elim
  | _ =>
    simp only [exec] at h
    split at h <;>
      first
      | (cases h; cases ho; rfl)
      | cases h
      | (split at h
         · cases h
           cases ho
           first | exact ⟨‹_›, rfl⟩ | exact ⟨_, ‹_›, rfl⟩
         · cases h)
      | (obtain ⟨_, _, hx⟩ := Option.map_eq_some_iff.mp h
         cases hx
         cases ho
         first | exact ⟨_, _, ‹_›, rfl⟩ | exact ⟨_, ‹_›, rfl⟩ | exact ⟨‹_›, rfl⟩)

theorem exec_halt {β : Type} {c : Call β} {w w' : World} {ch : Choice} {reason : World → Prop}
    (h : exec () c w ch = some (.halt, w')) (hpre : (sockSpec reason).pre w c) : reason w' := by
  cases c <;> simp only [exec] at h <;> split at h <;>
    first
    | (cases h; exact hpre)
    | cases h
    | (split at h <;> cases h)
    | (obtain ⟨_, _, hx⟩ := Option.map_eq_some_iff.mp h; cases hx)

/-- **Every run**, whatever the system answers. -/
theorem run_meets {α : Type} {p : Prog Call α} {Q : α → World → Prop} {w : World}
    {reason : World → Prop} (hp : p.wp (sockSpec reason) Q w) (chs : List Choice) :
    (kernel.run () p w chs).Meets Q reason := by
  have hkernel : p.wp (kernel.spec () (fun _ => True) reason) Q w := by
    refine Prog.wp_weaken ?_ ?_ hp
    · intro β c w hpre ch w' _ he
      exact exec_halt he hpre
    · rintro β c w b w' ⟨ch, o, -, he, ho⟩
      exact exec_answer he ho
  exact Kernel.run_sound (fun _ _ => trivial) hkernel

end Spectrum.Dbus
