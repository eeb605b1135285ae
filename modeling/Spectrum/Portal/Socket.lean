import Spectrum.Errno
import Spectrum.Interact.Bytes
import Spectrum.Interact.Count

/-!
# Sockets

The calls that the two programs of the file chooser portal make: `xdg-desktop-portal-spectrum` in
the guest, and `xdg-desktop-portal-spectrum-host` on the host. They are connected by one socket,
`conn`; the host program also connects to `vsock`, the socket through which Cloud Hypervisor
forwards connections to the guest.

The kernel here is for one of the two programs by itself. The other end of every socket is the
environment: what it sends, in which pieces, and when it closes the socket are choices. `Log`
records what has happened.
-/

set_option autoImplicit false

namespace Spectrum.Portal

open Interact

inductive Sock
  | conn
  | vsock
  deriving Repr, DecidableEq

/-- What the stream of messages from the guest's bus yields. -/
inductive Message
  | item
  | brokenPipe
  | failed (e : String)
  deriving Repr, DecidableEq

inductive Call : Type → Type
  | socket : Call (Option Errno)
  | connect (s : Sock) : Call (Option Errno)
  | write (s : Sock) (bytes : List UInt8) : Call (Except Errno Nat)
  | read (s : Sock) (count : Nat) : Call (Except Errno (List UInt8))
  | close (s : Sock) : Call Unit
  /-- Set up the D-Bus connection over `vsock`, with a file chooser for this share root. -/
  | build (root : List UInt8) : Call (Option String)
  | nextMessage : Call Message
  | msg (text : String) : Call Unit
  | exit (status : Nat) : Call Empty
  /-- A failed `unwrap`, an index out of range, an overflow. -/
  | panic (reason : String) : Call Empty

def exitWith {α : Type} (status : Nat) : Prog Call α := .call (.exit status) Empty.elim

def panicWith {α : Type} (reason : String) : Prog Call α := .call (.panic reason) Empty.elim

inductive Choice
  | ok
  | fail (e : Errno)
  | failText (e : String)
  /-- The number of bytes written. -/
  | count (n : Nat)
  /-- The bytes read. -/
  | bytes (bs : List UInt8)
  | message (m : Message)
  /-- The process is killed. -/
  | killed
  deriving Repr, DecidableEq

inductive Event
  | connected (s : Sock)
  | sent (s : Sock) (bytes : List UInt8)
  | got (s : Sock) (bytes : List UInt8)
  | eof (s : Sock)
  | serving (root : List UInt8)
  deriving Repr, DecidableEq

inductive Ending
  | exited (status : Nat)
  | panicked (reason : String)
  | killed
  deriving Repr, DecidableEq

/-- What a program has done so far, and how it ended if it has. -/
structure Log where
  trace : List Event
  ended : Option Ending
  deriving Repr, DecidableEq

namespace Log

def empty : Log := ⟨[], none⟩

def add (w : Log) (e : Event) : Log := { w with trace := w.trace ++ [e] }

def ends (w : Log) (e : Ending) : Log := { w with ended := some e }

end Log

/-- A call of a process that is not killed. -/
def act {T β : Type} (c : Call β) (w : Log) (ch : Choice) : Option (Outcome T β × Log) :=
  match c with
  | .socket =>
    match ch with
    | .ok => some (.resume none, w)
    | .fail e => some (.resume (some e), w)
    | _ => none
  | .connect s =>
    match ch with
    | .ok => some (.resume none, w.add (.connected s))
    | .fail e => some (.resume (some e), w)
    | _ => none
  | .write s bytes =>
    match ch with
    | .count n =>
      if n ≤ bytes.length then some (.resume (.ok n), w.add (.sent s (bytes.take n))) else none
    | .fail e => some (.resume (.error e), w)
    | _ => none
  | .read s count =>
    match ch with
    | .bytes bs =>
      if bs.length ≤ count then
        some (.resume (.ok bs), w.add (if bs = [] then .eof s else .got s bs))
      else none
    | .fail e => some (.resume (.error e), w)
    | _ => none
  | .close _ =>
    match ch with
    | .ok => some (.resume (), w)
    | _ => none
  | .build root =>
    match ch with
    | .ok => some (.resume none, w.add (.serving root))
    | .failText e => some (.resume (some e), w)
    | _ => none
  | .nextMessage =>
    match ch with
    | .message m => some (.resume m, w)
    | _ => none
  | .msg _ =>
    match ch with
    | .ok => some (.resume (), w)
    | _ => none
  | .exit status =>
    match ch with
    | .ok => some (.halt, w.ends (.exited status))
    | _ => none
  | .panic reason =>
    match ch with
    | .ok => some (.halt, w.ends (.panicked reason))
    | _ => none

def exec {β : Type} (_ : Unit) (c : Call β) (w : Log) (ch : Choice) :
    Option (Outcome Unit β × Log) :=
  if ch = .killed then some (.halt, w.ends .killed) else act c w ch

def kernel : Kernel Call Unit Log Choice := ⟨exec⟩

/-! ## What a call can do -/

/-- The answers a call can get, with the log afterwards. -/
def Answer (w : Log) {β : Type} (c : Call β) (b : β) (w' : Log) : Prop :=
  match c with
  | .connect s => w' = match b with
    | none => w.add (.connected s)
    | some _ => w
  | .write s bytes =>
    match b with
    | .ok n => n ≤ bytes.length ∧ w' = w.add (.sent s (bytes.take n))
    | .error _ => w' = w
  | .read s count =>
    match b with
    | .ok bs => bs.length ≤ count ∧ w' = w.add (if bs = [] then .eof s else .got s bs)
    | .error _ => w' = w
  | .build root => w' = match b with
    | none => w.add (.serving root)
    | some _ => w
  | _ => w' = w

/-- The contract of the kernel: `H` is what has to hold where the program ends by a call, and where
it begins to serve the file chooser. -/
def logSpec (H : Log → Prop) : Spec Call Log where
  pre w c :=
    match c with
    | .exit status => H (w.ends (.exited status))
    | .panic reason => H (w.ends (.panicked reason))
    | .build root => H (w.add (.serving root))
    | _ => True
  post w c b w' := Answer w c b w'

theorem act_answer {T β : Type} {c : Call β} {w w' : Log} {ch : Choice} {o : Outcome T β} {b : β}
    (h : act c w ch = some (o, w')) (ho : o.answer = some b) : Answer w c b w' := by
  cases c <;> simp only [act] at h <;> split at h <;>
    first
    | exact Empty.elim b
    | (cases h; cases ho; rfl)
    | cases h
    | (split at h; swap; · cases h)
  · next hn =>
    cases h
    cases ho
    exact ⟨hn, rfl⟩
  · next hn =>
    cases h
    cases ho
    exact ⟨hn, rfl⟩

theorem act_halt {H : Log → Prop} {T β : Type} {c : Call β} {w w' : Log} {ch : Choice}
    (h : act (T := T) c w ch = some (.halt, w')) (hpre : (logSpec H).pre w c) : H w' := by
  cases c <;> simp only [act] at h <;> split at h <;>
    first
    | (cases h; exact hpre)
    | cases h
    | (split at h <;> cases h)

/-- A call adds at most one event, and serves the file chooser only where that is allowed. -/
theorem act_keeps {H : Log → Prop}
    (hadd : ∀ (w : Log) e, (∀ root, e ≠ .serving root) → H w → H (w.add e))
    {T β : Type} {c : Call β} {w w' : Log} {ch : Choice} {o : Outcome T β}
    (h : act c w ch = some (o, w')) (hpre : (logSpec H).pre w c) (hw : H w) : H w' := by
  cases c <;> simp only [act] at h <;> split at h <;>
    first
    | (cases h; exact hw)
    | (cases h; exact hpre)
    | (cases h; exact hadd _ _ (fun _ => nofun) hw)
    | cases h
    | (split at h; swap; · cases h)
  · cases h
    exact hadd _ _ (fun _ => nofun) hw
  · cases h
    refine hadd _ _ (fun root => ?_) hw
    split <;> exact nofun

theorem exec_trace {β : Type} {c : Call β} {w w' : Log} {ch : Choice} {o : Outcome Unit β}
    (h : exec () c w ch = some (o, w')) : w.trace <+: w'.trace := by
  unfold Portal.exec at h
  split at h
  · cases h
    exact List.prefix_rfl
  · refine act_keeps (H := fun w' => w.trace <+: w'.trace) ?_ h ?_ List.prefix_rfl
    · intro w' e _ hw'
      exact hw'.trans (List.prefix_append _ _)
    · cases c <;> first | trivial | exact List.prefix_rfl | exact List.prefix_append _ _

theorem kernel_honours {H : Log → Prop} (hkilled : ∀ w : Log, H w → H (w.ends .killed))
    (hadd : ∀ (w : Log) e, (∀ root, e ≠ .serving root) → H w → H (w.add e)) :
    kernel.Honours () (logSpec H) H := by
  constructor
  intro β c w w' ch o hpre hw he
  change Portal.exec () c w ch = _ at he
  unfold Portal.exec at he
  split at he
  · cases he
    exact ⟨hkilled w hw, nofun⟩
  · exact ⟨act_keeps hadd he hpre hw, fun b hb => act_answer he hb⟩

/-- **Every run**, whatever the environment does and wherever the program is killed. -/
theorem run_meets {H : Log → Prop} (hkilled : ∀ w : Log, H (w.ends .killed)) {α : Type}
    {p : Prog Call α} {Q : α → Log → Prop} {w : Log} (hp : p.wp (logSpec H) Q w)
    (chs : List Choice) : (kernel.run () p w chs).Meets Q H := by
  have hkernel : p.wp (kernel.spec () (fun _ => True) H) Q w := by
    refine Prog.wp_weaken ?_ ?_ hp
    · intro β c w hpre ch w' _ he
      change Portal.exec () c w ch = _ at he
      unfold Portal.exec at he
      split at he
      · cases he
        exact hkilled w
      · exact act_halt he hpre
    · rintro β c w b w' ⟨ch, o, -, he, ho⟩
      change Portal.exec () c w ch = _ at he
      unfold Portal.exec at he
      split at he
      · cases he
        cases ho
      · exact act_answer he ho
  exact Kernel.run_sound (fun _ _ => trivial) hkernel

end Spectrum.Portal
