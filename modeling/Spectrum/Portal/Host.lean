import Spectrum.Interact.Stream
import Spectrum.Path
import Spectrum.Portal.Socket

/-!
# `main.rs` of `xdg-desktop-portal-spectrum-host`

One guest connection on the host: the version of the protocol is negotiated, the guest says on
which port its bus listens and where the host's files appear, and the host connects to that bus
through Cloud Hypervisor's VSOCK socket and serves the file chooser there.

Every `unwrap`, slice range and conversion that could fail is a `panic` here, with the condition the
source gives it. The texts of errors and the debug output of data come from outside.
-/

set_option autoImplicit false

namespace Spectrum.Portal

open Interact Bytes

def busName : String := "org.freedesktop.impl.portal.desktop.spectrum"

def objectPath : String := "/org/freedesktop/portal/desktop"

/-- What the host program gets from outside. -/
structure HostEnv where
  display : IoError Errno → String
  debugVersions : List UInt8 → String
  debugPath : Path → String
  debugResponse : List UInt8 → String
  /-- `VSOCK_UNIX_PATH`, once it is set. -/
  vsockUnixPath : Option Path
  usizeBits : Nat
  /-- What zbus takes for the name of a service and for the path of an object. It takes the two that
  the program has. -/
  validBusName : String → Bool
  validObjectPath : String → Bool
  busName_valid : validBusName busName = true
  objectPath_valid : validObjectPath objectPath = true

section

variable (env : HostEnv)

def receiveU32 : Prog Call (Except (IoError Errno) Nat) := do
  match ← readExact (Call.read .conn) 4 with
  | .error e => return .error e
  | .ok buf => return .ok (ofBE buf)

def receiveBytestring : Prog Call (Except String (List UInt8)) := do
  match ← receiveU32 with
  | .error e => return .error s!"reading length: {env.display e}"
  | .ok len =>
    if 2 ^ env.usizeBits ≤ len then
      panicWith "TryFromIntError"
    else
      match ← readExact (Call.read .conn) len with
      | .error e => return .error s!"reading contents: {env.display e}"
      | .ok buf => return .ok buf

def negotiateVersion : Prog Call (Except String Unit) := do
  match ← readExact (Call.read .conn) 1 with
  | .error e => return .error s!"reading number of versions supported by client: {env.display e}"
  | .ok numVersions =>
    match ← readExact (Call.read .conn) (numVersions.headD 0).toNat with
    | .error e => return .error s!"reading versions supported by client: {env.display e}"
    | .ok clientVersions =>
      if 1 ∉ clientVersions then
        return .error
          s!"no supported protocol versions offered by client: {env.debugVersions clientVersions}"
      else
        match ← writeAll (Call.write .conn) [1] with
        | .error e =>
          return .error s!"communicating chosen protocol version to client: {env.display e}"
        | .ok () => return .ok ()

/-- The loop over the parts of the request. -/
def writeParts : List (List UInt8) → Prog Call (Except String Unit)
  | [] => return .ok ()
  | part :: parts => do
    match ← writeAll (Call.write .vsock) part with
    | .error e => return .error s!"writing to VSOCK UNIX socket: {env.display e}"
    | .ok () => writeParts parts

def connectParts (port : Nat) : List (List UInt8) :=
  [ascii ['C', 'O', 'N', 'N', 'E', 'C', 'T', ' '], decimal port, ascii ['\n']]

/-- The buffer after `bytes` were read into it at `i`. -/
def patch {n : Nat} (buf : Vector UInt8 n) (i : Nat) (bytes : List UInt8) : Vector UInt8 n :=
  .ofFn fun j => if i ≤ j ∧ j < i + bytes.length then bytes.getD (j - i) 0 else buf[j]

/-- `"OK 0\n".len()`. -/
def minResponseLen : Nat := 5

/-- The loop that reads up to the first newline, from the fifth byte on one byte at a time. -/
def readResponse (response : Vector UInt8 14) (responseLen : Nat) :
    Prog Call (Except String (Vector UInt8 14)) :=
  -- There is no last byte before the first round.
  let last := if responseLen = 0 then none else response[responseLen - 1]?
  if _hmore : last ≠ some 10 ∧ responseLen < response.size then
    let minRemaining := minResponseLen - responseLen
    let stop := max minRemaining (responseLen + 1)
    if responseLen ≤ stop ∧ stop ≤ response.size then do
      match ← readExact (Call.read .vsock) (stop - responseLen) with
      | .error e => return .error s!"reading VSOCK connection response: {env.display e}"
      | .ok bytes => readResponse (patch response responseLen bytes) stop
    else
      panicWith "response range"
  else
    return .ok response
termination_by 14 - responseLen
decreasing_by
  have hlen : responseLen < 14 := _hmore.2
  omega

def connectToGuest (port : Nat) : Prog Call (Except String Unit) := do
  match env.vsockUnixPath with
  | none => panicWith "VSOCK_UNIX_PATH"
  | some path =>
    match ← Prog.lift (.connect .vsock) with
    | some e => return .error s!"connecting to {env.debugPath path}: {env.display (.os e)}"
    | none =>
      match ← writeParts env (connectParts port) with
      | .error e => return .error e
      | .ok () =>
        match ← readResponse env (.replicate 14 0) 0 with
        | .error e => return .error e
        | .ok response =>
          if ¬ ascii ['O', 'K', ' '] <+: response.toList then
            let debug := env.debugResponse response.toList
            return .error s!"unexpected response from Cloud Hypervisor VSOCK handshake: {debug}"
          else
            return .ok ()

/-! ### The connection -/

/-- The part of `run_guest_connection` whose errors the guest is told about. -/
def setupGuestBus (port : Nat) (guestShareRoot : Path) : Prog Call (Except String Unit) := do
  if ¬ Path.isAbsolute guestShareRoot then
    return .error s!"guest provided a non-absolute share root: {env.debugPath guestShareRoot}"
  else
    match ← connectToGuest env port with
    | .error e => return .error e
    | .ok () =>
      if ¬ env.validBusName busName then
        panicWith "bus name"
      else if ¬ env.validObjectPath objectPath then
        panicWith "object path"
      else
        match ← Prog.lift (.build guestShareRoot) with
        | some e => return .error s!"setting up connection to guest bus: {e}"
        | none => return .ok ()

/-- Messages are handled until the guest's bus goes away. -/
def handleMessages : Prog Call (Except String Unit) :=
  .loop () (fun _ => .nextMessage)
    (fun _ m => if m = .item then some () else none)
    (fun _ m =>
      match m with
      | .failed e => .ret (.error s!"communicating with guest bus: {e}")
      | _ => .ret (.ok ()))

/-- What the guest says about itself. -/
def receiveInfo : Prog Call (Except String (Nat × Path)) := do
  match ← negotiateVersion env with
  | .error e => return .error e
  | .ok () =>
    match ← receiveU32 with
    | .error e => return .error s!"receiving port: {env.display e}"
    | .ok port =>
      match ← receiveBytestring env with
      | .error e => return .error s!"receiving guest share root: {e}"
      | .ok guestShareRoot => return .ok (port, guestShareRoot)

/-- What follows once the guest has been told. -/
def finishConnection (result : Except String Unit) : Prog Call (Except String Unit) := do
  Prog.lift (.close .conn)
  match result with
  | .error e => return .error e
  | .ok () =>
    Prog.lift (.msg "Created org.freedesktop.impl.portal.desktop.spectrum.host on guest bus")
    handleMessages

/-- The guest is informed before the connection to it is closed. -/
def tellGuest (result : Except String Unit) : Prog Call (Except String Unit) := do
  match ← writeAll (Call.write .conn) [if result matches .error _ then 1 else 0] with
  | .ok () => finishConnection result
  | .error e =>
    let e := s!"sending setup response to guest: {env.display e}"
    if result matches .error _ then
      Prog.lift (.msg e)
      finishConnection result
    else
      return .error e

def runGuestConnection : Prog Call (Except String Unit) := do
  match ← receiveInfo env with
  | .error e => return .error e
  | .ok (port, guestShareRoot) =>
    let result ← setupGuestBus env port guestShareRoot
    tellGuest env result

/-- `run_guest_connection` up to where it informs the guest: what the guest has said about itself,
and how setting up the connection to its bus has ended. -/
def hostSession : Prog Call (Except String ((Nat × Path) × Except String Unit)) := do
  match ← receiveInfo env with
  | .error e => return .error e
  | .ok (port, guestShareRoot) =>
    return .ok ((port, guestShareRoot), ← setupGuestBus env port guestShareRoot)

/-- The guest is told what `hostSession` has come to. -/
theorem runGuestConnection_eq :
    runGuestConnection env = (hostSession env).bind fun r =>
      match r with
      | .error e => .ret (.error e)
      | .ok (_, result) => tellGuest env result := by
  change (receiveInfo env).bind _ = ((receiveInfo env).bind _).bind _
  rw [Prog.bind_assoc]
  congr 1
  funext r
  cases r with
  | error e => rfl
  | ok said =>
    change (setupGuestBus env said.1 said.2).bind _ =
      ((setupGuestBus env said.1 said.2).bind _).bind _
    rw [Prog.bind_assoc]
    rfl

end

end Spectrum.Portal
