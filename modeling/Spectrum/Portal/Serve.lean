import Spectrum.Portal.Reply
import Spectrum.Portal.Handshake
import Spectrum.Portal.VsockPath

/-!
# `run` of `xdg-desktop-portal-spectrum-host`

The program is given a listening socket as its standard input. From the address of that socket it
finds the path of the one for connections to the guest, and sets it once and for all. Then it
accepts connections, and runs each of them as a task of its own; before the first one it connects
to the session bus.

**No task runs before the path is set** (`vsockUnixPath_of_run`), so that `unwrap` in
`connect_to_guest` is none of the ways in which a guest could make the program panic
(`connections_safe`), and a guest that keeps to the protocol is understood (`connections_agree`).
-/

set_option autoImplicit false

namespace Spectrum.Portal

open Interact

/-- What comes in on the listening socket. -/
inductive Incoming
  | failed (e : IoError Errno)
  /-- A connection. If it is the first one, `session` is what connecting to the session bus comes
  to, and the two others say if there are proxies for the host's portals. -/
  | conn (session : Except String Unit) (documents fileChooser : Bool)

/-- How the program ends, if it does. -/
inductive RunEnd
  | exit (status : Nat)
  | fault (f : Fault)

/-- What has been done so far: the tasks that were spawned, with what they find, what was said, and
how it ended. -/
structure Served where
  tasks : List HostEnv
  msgs : List String
  ended : Option RunEnd

namespace Served

def spawn (env : HostEnv) (s : Served) : Served := { s with tasks := env :: s.tasks }

def msg (text : String) (s : Served) : Served := { s with msgs := text :: s.msgs }

end Served

variable (texts : Texts) (env : HostEnv)

/-- The loop of `run`. After the last connection, `accept` waits. -/
def acceptAll (initialized : Bool) : List Incoming → Served
  | [] => ⟨[], [], none⟩
  | .failed e :: rest =>
    (acceptAll initialized rest).msg s!"accepting connection from guest: {env.display e}"
  | .conn session documents fileChooser :: rest =>
    if initialized then (acceptAll true rest).spawn env
    else
      match session with
      | .error e => ⟨[], [], some (.fault (.err s!"connecting to session bus: {e}"))⟩
      | .ok () =>
        if ¬ documents then ⟨[], [], some (.fault (.panic "documents::init"))⟩
        else if ¬ fileChooser then ⟨[], [], some (.fault (.panic "file_chooser::init"))⟩
        else (acceptAll true rest).spawn env

/-- `run`, where `args` are the arguments behind the program's name, and `stdin` and `addr` what is
known of descriptor 0. -/
def run (args : List (List UInt8)) (stdin : Except (IoError Errno) Unit) (addr : LocalAddr)
    (accepts : List Incoming) : Served :=
  if args ≠ [] then ⟨[], ["too many arguments"], some (.exit 1)⟩
  else
    match stdin with
    | .error e => ⟨[], [], some (.fault (.err s!"listening on stdin: {env.display e}"))⟩
    | .ok () =>
      match listeningVsockPath texts 0 addr, env.vsockUnixPath with
      | .error f, _ => ⟨[], [], some (.fault f)⟩
      | .ok _, some _ => ⟨[], [], some (.fault (.panic "VSOCK_UNIX_PATH"))⟩
      | .ok path, none => acceptAll (env.at path) false accepts

variable {texts env}

theorem eq_of_mem_acceptAll {initialized : Bool} {accepts : List Incoming}
    {task : HostEnv} (h : task ∈ (acceptAll env initialized accepts).tasks) : task = env := by
  induction accepts generalizing initialized with
  | nil => cases h
  | cons a rest ih =>
    cases a with
    | failed e => exact ih h
    | conn session documents fileChooser =>
      have hspawn : task ∈ ((acceptAll env true rest).spawn env).tasks → task = env := fun h =>
        (List.mem_cons.mp h).elim id ih
      unfold acceptAll at h
      split at h
      · exact hspawn h
      · cases session with
        | error e => cases h
        | ok _ =>
          dsimp only at h
          split at h
          · cases h
          split at h
          · cases h
          · exact hspawn h

/-- **Every task finds the path**, and it is the one that the socket's address is for. -/
theorem vsockUnixPath_of_run {args : List (List UInt8)} {stdin : Except (IoError Errno) Unit}
    {addr : LocalAddr} {accepts : List Incoming} {task : HostEnv}
    (h : task ∈ (run texts env args stdin addr accepts).tasks) :
    ∃ path, listeningVsockPath texts 0 addr = .ok path ∧ task = env.at path := by
  unfold run at h
  split at h
  · cases h
  split at h
  · cases h
  split at h
  · cases h
  · cases h
  · rename_i path hpath _
    exact ⟨path, hpath, eq_of_mem_acceptAll h⟩

/-- **A guest can do no harm to the program**, whichever of its connections it uses. -/
theorem connections_safe {args : List (List UInt8)} {stdin : Except (IoError Errno) Unit}
    {addr : LocalAddr} {accepts : List Incoming} (husize : 32 ≤ env.usizeBits)
    {task : HostEnv} (h : task ∈ (run texts env args stdin addr accepts).tasks)
    (chs : List Choice) :
    HostSafe (kernel.counted.run () (runGuestConnection task) (Log.empty, 0) chs) := by
  obtain ⟨path, -, rfl⟩ := vsockUnixPath_of_run h
  exact @hostSafe_of_path (env.at path) husize rfl chs

/-- **A guest that keeps to the protocol is understood**, on every connection. -/
theorem connections_agree {args : List (List UInt8)} {stdin : Except (IoError Errno) Unit}
    {addr : LocalAddr} {accepts : List Incoming} (husize : 32 ≤ env.usizeBits)
    {task : HostEnv} (h : task ∈ (run texts env args stdin addr accepts).tasks)
    {versions : List UInt8} (hversions : versions.length ≤ 255) (hone : 1 ∈ versions) (junk : Junk)
    (port : BitVec 32) {root : Path} (hroot : root.length < 2 ^ 32 - 1)
    (sched : List (Party × Choice)) :
    Agreed versions port root
      ((handshake task versions junk port root).run Link.kernel.counted sched) := by
  obtain ⟨path, -, rfl⟩ := vsockUnixPath_of_run h
  exact @agreed_of_path (env.at path) _ _ _ _ husize rfl hversions hone hroot sched

end Spectrum.Portal
