import Mathlib.Algebra.GroupWithZero.Nat
import Mathlib.Data.List.Basic
import Spectrum.Interact.Fifo
import Spectrum.Interact.Schedule
import Spectrum.Interact.Text

/-!
# Waiting for a device: `/etc/mdev/wait` and `/etc/mdev/listen`

A service that needs a device runs `wait NAME`, and mdevd runs `listen NAME` when the device is
there. The two meet at a named pipe, `/run/wait/NAME`, which either of them makes if the other one
has not. `wait` reads a line from it and removes it, `listen` writes one. Nothing keeps the two
from racing: each step of one can fall between any two steps of the other, and mdevd can run
`listen` several times for one device.

**A service never goes on before the device is announced, and no announcement is lost.** This is
shown for one `wait` and any number of `listen`s, in every interleaving of their system calls. With
one `listen` the two leave nothing behind either. With more, a late one can: when `mkfifo` has
found the old pipe and `wait` has removed it since, `redirfd -w` makes a plain file.

Failures of `mkdir` and `mkfifo` are ignored by the scripts, and here the only reason for one is
that the name is taken. What `redirfd -w` does is `open` with `O_WRONLY`, `O_CREAT` and `O_TRUNC`.
-/

set_option autoImplicit false

namespace Spectrum.Mdev

open Interact Schedule Text

/-! ## The directory -/

inductive Inode
  | fifo (f : Fifo)
  | file (content : List UInt8)

/-- `/run/wait`, and the one name in it that is of interest. -/
structure Fs where
  dir : Bool
  /-- The inode `/run/wait/NAME` stands for. -/
  name : Option Nat
  /-- Inodes outlive their names. -/
  inodes : List Inode

namespace Fs

variable (fs : Fs)

def mkdir : Fs := { fs with dir := true }

def create (node : Inode) : Fs :=
  { fs with name := some fs.inodes.length, inodes := fs.inodes ++ [node] }

def mkfifo : Fs := if fs.dir ∧ fs.name = none then fs.create (.fifo .new) else fs

def update (k : Nat) (node : Inode) : Fs := { fs with inodes := fs.inodes.set k node }

def rm : Fs := { fs with name := none }

/-- The inode `/run/wait/NAME` stands for, with its number. -/
def lookup : Option (Nat × Inode) := fs.name.bind fun k => (fs.inodes[k]?).map fun node => (k, node)

end Fs

/-! ## The scripts -/

/-- How far a `listen` has got. -/
inductive Listen
  | mkdir
  | mkfifo
  /-- About to open `/run/wait/NAME` for writing. -/
  | redirfd
  /-- In `open`, waiting for a reader that comes after the first `seen`. -/
  | opening (k seen : Nat)
  | echo (k : Nat)
  /-- The newline is written, and the process is about to exit. -/
  | exit (k : Nat)
  | exited
  /-- The directory was not there, or nobody was left to read. -/
  | killed

namespace Listen

def openWrite (fs : Fs) : Listen × Fs :=
  match fs.lookup with
  | some (k, .fifo f) =>
    (if f.readers = 0 then .opening k f.readersEver else .echo k, fs.update k (.fifo f.enterWrite))
  | some (k, .file _) => (.echo k, fs.update k (.file []))
  | none => if fs.dir then (.echo fs.inodes.length, fs.create (.file [])) else (.killed, fs)

def step (fs : Fs) : Listen → Option (Listen × Fs)
  | .mkdir => some (.mkfifo, fs.mkdir)
  | .mkfifo => some (.redirfd, fs.mkfifo)
  | .redirfd => some (openWrite fs)
  | .opening k seen =>
    match fs.inodes[k]? with
    | some (.fifo f) => if f.readersEver = seen then none else some (.echo k, fs)
    | _ => some (.echo k, fs)
  | .echo k =>
    match fs.inodes[k]? with
    | some (.fifo f) =>
      match f.write [newline] with
      | some f' => some (.exit k, fs.update k (.fifo f'))
      | none => some (.killed, fs.update k (.fifo f.closeWrite))
    | some (.file content) => some (.exit k, fs.update k (.file (content ++ [newline])))
    | none => some (.killed, fs)
  | .exit k =>
    match fs.inodes[k]? with
    | some (.fifo f) => some (.exited, fs.update k (.fifo f.closeWrite))
    | _ => some (.exited, fs)
  | .exited => none
  | .killed => none

end Listen

/-- How far the `wait` has got. -/
inductive Wait
  | mkdir
  | mkfifo
  /-- `head -1` is about to open `/run/wait/NAME`. -/
  | head
  | opening (k seen : Nat)
  | reading (k : Nat)
  | rm
  | exited

namespace Wait

/-- What `head` asks for at a time. -/
def blockSize : Nat := 1024

def openRead (fs : Fs) : Wait × Fs :=
  match fs.lookup with
  | some (k, .fifo f) =>
    (if f.writers = 0 then .opening k f.writersEver else .reading k,
      fs.update k (.fifo f.enterRead))
  | some (k, .file _) => (.reading k, fs)
  -- `head` fails, and `foreground` does not care.
  | none => (.rm, fs)

def step (fs : Fs) : Wait → Option (Wait × Fs)
  | .mkdir => some (.mkfifo, fs.mkdir)
  | .mkfifo => some (.head, fs.mkfifo)
  | .head => some (openRead fs)
  | .opening k seen =>
    match fs.inodes[k]? with
    | some (.fifo f) => if f.writersEver = seen then none else some (.reading k, fs)
    | _ => some (.reading k, fs)
  | .reading k =>
    match fs.inodes[k]? with
    | some (.fifo f) =>
      (f.read blockSize).map fun r =>
        -- `head -1` goes on reading until it has a line or there is no more.
        if r.1 = [] ∨ newline ∈ r.1 then (.rm, fs.update k (.fifo r.2.closeRead))
        else (.reading k, fs.update k (.fifo r.2))
    | _ => some (.rm, fs)
  | .rm => some (.exited, fs.rm)
  | .exited => none

end Wait

structure State where
  fs : Fs
  waiter : Wait
  listeners : List Listen

inductive Actor
  | wait
  | listen (i : Nat)

def step (s : State) : Actor → Option State
  | .wait => (s.waiter.step s.fs).map fun r => { s with waiter := r.1, fs := r.2 }
  | .listen i =>
    (s.listeners[i]?).bind fun l =>
      (l.step s.fs).map fun r => { s with listeners := s.listeners.set i r.1, fs := r.2 }

/-- One `wait` and `n` `listen`s for a name that is not taken. Waiting for something else may have
made the directory. -/
def start (dir : Bool) (n : Nat) : State := ⟨⟨dir, none, []⟩, .mkdir, List.replicate n .mkdir⟩

/-! ## Where everybody is -/

namespace Listen

/-- It has the pipe open, or is about to. -/
def isOpen : Listen → Bool
  | .opening _ _ => true
  | .echo _ => true
  | .exit _ => true
  | _ => false

/-- It has opened the pipe at some time. -/
def hasCome : Listen → Bool
  | .exited => true
  | l => l.isOpen

def hasWritten : Listen → Bool
  | .exit _ => true
  | .exited => true
  | _ => false

/-- It has got past `open`. -/
def isThrough : Listen → Bool
  | .echo _ => true
  | l => l.hasWritten

/-- It uses the one pipe there is, and if it waits for a reader then for the first one. -/
def Sound : Listen → Prop
  | .opening k seen => k = 0 ∧ seen = 0
  | .echo k => k = 0
  | .exit k => k = 0
  | .killed => False
  | _ => True

end Listen

namespace Wait

/-- How often it has opened the pipe. -/
def opens : Wait → Nat
  | .opening _ _ => 1
  | .reading _ => 1
  | _ => 0

/-- It has not got its line, and uses the one pipe there is. -/
def Sound : Wait → Prop
  | .opening k seen => k = 0 ∧ seen = 0
  | .reading k => k = 0
  | .rm => False
  | .exited => False
  | _ => True

theorem Sound.opens_eq {w : Wait} (_ : w.Sound) (h : w.opens ≠ 0) : w.opens = 1 := by
  cases w <;> simp_all [opens]

/-- It has got its line. -/
def isDone : Wait → Bool
  | .rm => true
  | .exited => true
  | _ => false

def isExited : Wait → Bool
  | .exited => true
  | _ => false

end Wait

/-- The pipe as it has to be for where everybody is. -/
def pipe (w : Wait) (ls : List Listen) : Fifo where
  readers := w.opens
  writers := ls.countP Listen.isOpen
  readersEver := w.opens
  writersEver := ls.countP Listen.hasCome
  buffer := List.replicate (ls.countP Listen.hasWritten) newline

/-- What one `listen` has done to the pipe. -/
def Listen.mark (l : Listen) (f : Fifo) : Fifo where
  readers := f.readers
  writers := f.writers + if l.isOpen then 1 else 0
  readersEver := f.readersEver
  writersEver := f.writersEver + if l.hasCome then 1 else 0
  buffer := f.buffer ++ if l.hasWritten then [newline] else []

theorem pipe_append (w : Wait) (pre : List Listen) (l : Listen) (post : List Listen) :
    pipe w (pre ++ l :: post) = l.mark (pipe w (pre ++ post)) := by
  simp only [pipe, Listen.mark, List.countP_append, List.countP_cons, Fifo.mk.injEq, true_and,
    Nat.add_assoc]
  cases l.hasWritten with
  | false => simp
  | true => simp [← Nat.add_assoc, List.replicate_succ']

/-! ## The three stages of a rendezvous -/

/-- Nobody has made the pipe. -/
structure Fresh (s : State) : Prop where
  name : s.fs.name = none
  inodes : s.fs.inodes = []
  waiter : s.waiter = .mkdir ∨ s.waiter = .mkfifo ∧ s.fs.dir = true
  listeners : ∀ l ∈ s.listeners, l = .mkdir ∨ l = .mkfifo ∧ s.fs.dir = true

/-- There is one pipe, and the `wait` has not got its line. -/
structure Made (s : State) : Prop where
  name : s.fs.name = some 0
  inodes : s.fs.inodes = [.fifo (pipe s.waiter s.listeners)]
  waiter : s.waiter.Sound
  listeners : ∀ l ∈ s.listeners, l.Sound
  /-- Nobody gets past `open` alone. -/
  met : ∀ l ∈ s.listeners, l.isThrough = true → s.waiter.opens = 1
  reading : ∀ k, s.waiter = .reading k → 0 < s.listeners.countP Listen.hasCome

/-- The `wait` has got its line. -/
structure Done (s : State) : Prop where
  waiter : s.waiter.isDone = true
  signalled : ∃ l ∈ s.listeners, l.hasWritten = true
  alone : s.listeners.length = 1 → s.waiter = .exited → s.fs.name = none

inductive Stage (s : State) : Prop
  | fresh (h : Fresh s)
  | made (h : Made s)
  | done (h : Done s)

theorem stage_start (dir : Bool) (n : Nat) : Stage (start dir n) :=
  .fresh ⟨rfl, rfl, .inl rfl, fun _ hl => .inl (List.eq_of_mem_replicate hl)⟩

section Moves

variable {s : State} {pre post : List Listen} {l l' : Listen} {fs' : Fs}

/-- One `listen` has moved, and the pipe has followed. -/
theorem Made.replace (h : Made s) (hls : s.listeners = pre ++ l :: post)
    (hname : fs'.name = some 0)
    (hinodes : fs'.inodes = [.fifo (pipe s.waiter (pre ++ l' :: post))]) (hl' : l'.Sound)
    (hmet : l'.isThrough = true → s.waiter.opens = 1)
    (hcome : l.hasCome = true → l'.hasCome = true) :
    Made { s with listeners := pre ++ l' :: post, fs := fs' } := by
  have hrest : ∀ x ∈ pre ++ l' :: post, x = l' ∨ x ∈ s.listeners := by
    intro x hx
    rw [hls]
    simp only [List.mem_append, List.mem_cons] at hx ⊢
    tauto
  refine ⟨hname, hinodes, h.waiter, ?_, ?_, ?_⟩
  · intro x hx
    rcases hrest x hx with rfl | hold
    · exact hl'
    · exact h.listeners x hold
  · intro x hx
    rcases hrest x hx with rfl | hold
    · exact hmet
    · exact h.met x hold
  · intro k hk
    have hpos := h.reading k hk
    rw [hls] at hpos
    simp only [List.countP_append, List.countP_cons] at hpos ⊢
    cases hc : l.hasCome with
    | false =>
      simp only [hc, Bool.false_eq_true, if_false] at hpos
      omega
    | true =>
      simp only [hcome hc, if_true]
      omega

theorem Made.inode (h : Made s) :
    s.fs.inodes[0]? = some (.fifo (pipe s.waiter s.listeners)) := by
  rw [h.inodes]
  rfl

theorem Made.mkfifo (h : Made s) : s.fs.mkfifo = s.fs := by
  simp [Fs.mkfifo, h.name]

/-- One step of a `listen` once there is the pipe. -/
theorem Made.listen (h : Made s) (hls : s.listeners = pre ++ l :: post)
    (hstep : l.step s.fs = some (l', fs')) :
    Made { s with listeners := pre ++ l' :: post, fs := fs' } := by
  have hl := h.listeners l (by rw [hls]; simp)
  have hmet := h.met l (by rw [hls]; simp)
  -- the pipe, and the mark this `listen` has left on it
  have hinodes : s.fs.inodes = [.fifo (l.mark (pipe s.waiter (pre ++ post)))] := by
    rw [← pipe_append, ← hls, h.inodes]
  have hinode : s.fs.inodes[0]? = some (.fifo (l.mark (pipe s.waiter (pre ++ post)))) := by
    rw [hinodes]
    rfl
  cases l with
  | mkdir =>
    cases hstep
    refine h.replace hls h.name ?_ trivial (fun hthrough => by cases hthrough) id
    rw [pipe_append]
    exact hinodes
  | mkfifo =>
    rw [Listen.step, h.mkfifo] at hstep
    cases hstep
    refine h.replace hls h.name ?_ trivial (fun hthrough => by cases hthrough) id
    rw [pipe_append]
    exact hinodes
  | redirfd =>
    simp only [Listen.step, Listen.openWrite, Fs.lookup, h.name, Option.bind_some, hinode,
      Option.map_some] at hstep
    split at hstep
    case isTrue hopens =>
      cases hstep
      refine h.replace hls h.name ?_ ⟨rfl, hopens⟩ (fun hthrough => by cases hthrough)
        (fun _ => rfl)
      rw [pipe_append, Fs.update, hinodes]
      rfl
    case isFalse hopens =>
      cases hstep
      refine h.replace hls h.name ?_ rfl (fun _ => h.waiter.opens_eq hopens) (fun _ => rfl)
      rw [pipe_append, Fs.update, hinodes]
      rfl
  | opening k seen =>
    obtain ⟨rfl, rfl⟩ := hl
    simp only [Listen.step, hinode] at hstep
    split at hstep
    case isTrue => cases hstep
    case isFalse hopens =>
      cases hstep
      refine h.replace hls h.name ?_ rfl (fun _ => h.waiter.opens_eq hopens) (fun _ => rfl)
      rw [pipe_append]
      exact hinodes
  | echo k =>
    cases hl
    have hopens : s.waiter.opens = 1 := hmet rfl
    simp only [Listen.step, hinode] at hstep
    rw [Fifo.write_of_readers (by simp [Listen.mark, pipe, hopens])] at hstep
    cases hstep
    refine h.replace hls h.name ?_ rfl (fun _ => hopens) (fun _ => rfl)
    rw [pipe_append, Fs.update, hinodes]
    simp [Listen.mark, Listen.isOpen, Listen.hasCome, Listen.hasWritten]
  | exit k =>
    cases hl
    have hopens : s.waiter.opens = 1 := hmet rfl
    simp only [Listen.step, hinode] at hstep
    rw [Fifo.closeWrite_of_readers (by simp [Listen.mark, pipe, hopens])] at hstep
    cases hstep
    refine h.replace hls h.name ?_ trivial (fun _ => hopens) (fun _ => rfl)
    rw [pipe_append, Fs.update, hinodes]
    rfl
  | exited => cases hstep
  | killed => cases hstep

/-- The `wait` has moved. Only its own count in the pipe has changed. -/
theorem Made.move (h : Made s) {w' : Wait} (hname : fs'.name = some 0)
    (hinodes : fs'.inodes = [.fifo (pipe w' s.listeners)]) (hw' : w'.Sound)
    (hopens : s.waiter.opens = 1 → w'.opens = 1)
    (hreading : ∀ k, w' = .reading k → 0 < s.listeners.countP Listen.hasCome) :
    Made { s with waiter := w', fs := fs' } :=
  ⟨hname, hinodes, hw', h.listeners, fun l hl hthrough => hopens (h.met l hl hthrough), hreading⟩

/-- As long as the `wait` has not come, whoever has come is still there. -/
theorem Made.countP_hasCome (h : Made s) (hopens : s.waiter.opens = 0) :
    s.listeners.countP Listen.hasCome = s.listeners.countP Listen.isOpen := by
  refine List.countP_congr fun l hl => ?_
  have hthrough : l.isThrough = true → False := fun hthrough => by
    have := h.met l hl hthrough
    omega
  cases l <;> simp_all [Listen.hasCome, Listen.isOpen, Listen.isThrough, Listen.hasWritten]

/-- What a `wait` reads is a line, and somebody has written it. -/
theorem Made.read (h : Made s) {k : Nat} (hk : s.waiter = .reading k) {bytes : List UInt8}
    {f : Fifo} (hread : (pipe s.waiter s.listeners).read Wait.blockSize = some (bytes, f)) :
    (∃ l ∈ s.listeners, l.hasWritten = true) ∧ newline ∈ bytes := by
  by_cases hwritten : s.listeners.countP Listen.hasWritten = 0
  · -- nothing is written, so whoever has come is still there, and the `wait` blocks
    have hnot := List.countP_eq_zero.mp hwritten
    obtain ⟨l, hl, hcome⟩ := List.countP_pos_iff.mp (h.reading k hk)
    have hopen : l.isOpen = true := by
      have := hnot l hl
      cases l <;> simp_all [Listen.hasCome, Listen.isOpen, Listen.hasWritten]
    have hwriters : s.listeners.countP Listen.isOpen ≠ 0 :=
      Nat.pos_iff_ne_zero.mp (List.countP_pos_iff.mpr ⟨l, hl, hopen⟩)
    simp [Fifo.read, pipe, hwritten, hwriters] at hread
  · refine ⟨List.countP_pos_iff.mp (Nat.pos_of_ne_zero hwritten), ?_⟩
    rw [Fifo.read_of_buffer (by simpa [pipe] using hwritten)] at hread
    cases hread
    simp [pipe, Wait.blockSize, hwritten]

/-- One step of the `wait` once there is the pipe. -/
theorem Made.wait (h : Made s) {w' : Wait} (hstep : s.waiter.step s.fs = some (w', fs')) :
    Stage { s with waiter := w', fs := fs' } := by
  have hsound := h.waiter
  have hinodes := h.inodes
  have hinode := h.inode
  cases hw : s.waiter with
  | mkdir =>
    rw [hw] at hstep hinodes
    cases hstep
    exact .made (h.move h.name hinodes trivial (by simp [hw, Wait.opens]) (by simp))
  | mkfifo =>
    rw [hw, Wait.step, h.mkfifo] at hstep
    rw [hw] at hinodes
    cases hstep
    exact .made (h.move h.name hinodes trivial (by simp [hw, Wait.opens]) (by simp))
  | head =>
    have hzero : s.waiter.opens = 0 := by rw [hw]; rfl
    simp only [hw, Wait.step, Wait.openRead, Fs.lookup, h.name, Option.bind_some, hinode,
      Option.map_some] at hstep
    split at hstep
    case isTrue hwriters =>
      cases hstep
      have hnone : s.listeners.countP Listen.hasCome = 0 := (h.countP_hasCome hzero).trans hwriters
      refine .made (h.move h.name ?_ ⟨rfl, hnone⟩ (by simp [hzero]) (by simp))
      rw [Fs.update, hinodes, hw]
      rfl
    case isFalse hwriters =>
      cases hstep
      refine .made (h.move h.name ?_ rfl (by simp [hzero]) fun k hk => ?_)
      · rw [Fs.update, hinodes, hw]
        rfl
      · rw [h.countP_hasCome hzero]
        exact Nat.pos_of_ne_zero hwriters
  | opening k seen =>
    rw [hw] at hsound
    obtain ⟨rfl, rfl⟩ := hsound
    simp only [hw, Wait.step, hinode] at hstep
    split at hstep
    case isTrue => cases hstep
    case isFalse hcome =>
      cases hstep
      rw [hw] at hinodes
      exact .made (h.move h.name hinodes rfl (fun _ => rfl) fun k hk => Nat.pos_of_ne_zero hcome)
  | reading k =>
    rw [hw] at hsound
    cases hsound
    simp only [hw, Wait.step, hinode] at hstep
    obtain ⟨⟨bytes, f⟩, hread, hstep⟩ := Option.map_eq_some_iff.mp hstep
    rw [← hw] at hread
    obtain ⟨hsignalled, hline⟩ := h.read hw hread
    rw [if_pos (.inr hline)] at hstep
    cases hstep
    exact .done ⟨rfl, hsignalled, fun _ hexited => by cases hexited⟩
  | rm =>
    rw [hw] at hsound
    cases hsound
  | exited =>
    rw [hw] at hsound
    cases hsound

/-! ### Before and after -/

theorem Fresh.mkfifo (h : Fresh s) (hdir : s.fs.dir = true) :
    s.fs.mkfifo = ⟨true, some 0, [.fifo .new]⟩ := by
  simp [Fs.mkfifo, Fs.create, h.name, h.inodes, hdir]

/-- Whoever is first makes the pipe, and finds it as it has to be. -/
theorem made_of_fresh {w : Wait} {ls : List Listen} (hw : w = .mkdir ∨ w = .mkfifo ∨ w = .head)
    (hls : ∀ l ∈ ls, l = .mkdir ∨ l = .mkfifo ∨ l = .redirfd) :
    Made ⟨⟨true, some 0, [.fifo .new]⟩, w, ls⟩ := by
  have hnone : ∀ p : Listen → Bool, p .mkdir = false → p .mkfifo = false → p .redirfd = false →
      ls.countP p = 0 := by
    intro p hmkdir hmkfifo hredirfd
    refine List.countP_eq_zero.mpr fun l hl => ?_
    rcases hls l hl with rfl | rfl | rfl <;> simp [*]
  refine ⟨rfl, ?_, ?_, ?_, ?_, ?_⟩
  · have hopens : w.opens = 0 := by rcases hw with rfl | rfl | rfl <;> rfl
    simp [pipe, Fifo.new, hopens, hnone Listen.isOpen rfl rfl rfl, hnone Listen.hasCome rfl rfl rfl,
      hnone Listen.hasWritten rfl rfl rfl]
  · rcases hw with rfl | rfl | rfl <;> trivial
  · intro l hl
    rcases hls l hl with rfl | rfl | rfl <;> trivial
  · intro l hl hthrough
    rcases hls l hl with rfl | rfl | rfl <;> cases hthrough
  · intro k hk
    rcases hw with rfl | rfl | rfl <;> cases hk

theorem Fresh.wait (h : Fresh s) {w' : Wait} (hstep : s.waiter.step s.fs = some (w', fs')) :
    Stage { s with waiter := w', fs := fs' } := by
  rcases h.waiter with hw | ⟨hw, hdir⟩
  · rw [hw] at hstep
    cases hstep
    refine .fresh ⟨h.name, h.inodes, .inr ⟨rfl, rfl⟩, fun l hl => ?_⟩
    exact (h.listeners l hl).imp id fun hmkfifo => ⟨hmkfifo.1, rfl⟩
  · rw [hw, Wait.step, h.mkfifo hdir] at hstep
    cases hstep
    refine .made (made_of_fresh (.inr (.inr rfl)) fun l hl => ?_)
    exact (h.listeners l hl).imp id fun hmkfifo => .inl hmkfifo.1

theorem Fresh.listen (h : Fresh s) (hls : s.listeners = pre ++ l :: post)
    (hstep : l.step s.fs = some (l', fs')) :
    Stage { s with listeners := pre ++ l' :: post, fs := fs' } := by
  have hold : ∀ x ∈ pre ++ l' :: post, x = l' ∨ x = .mkdir ∨ x = .mkfifo ∧ s.fs.dir = true := by
    intro x hx
    have hmem : x = l' ∨ x ∈ s.listeners := by
      rw [hls]
      simp only [List.mem_append, List.mem_cons] at hx ⊢
      tauto
    exact hmem.imp id (h.listeners x)
  rcases h.listeners l (by rw [hls]; simp) with rfl | ⟨rfl, hdir⟩
  · cases hstep
    refine .fresh ⟨h.name, h.inodes, h.waiter.imp id fun hw => ⟨hw.1, rfl⟩, fun x hx => ?_⟩
    rcases hold x hx with rfl | hx | hx
    · exact .inr ⟨rfl, rfl⟩
    · exact .inl hx
    · exact .inr ⟨hx.1, rfl⟩
  · rw [Listen.step, h.mkfifo hdir] at hstep
    cases hstep
    refine .made (made_of_fresh (h.waiter.imp id fun hw => .inl hw.1) fun x hx => ?_)
    rcases hold x hx with rfl | hx | hx
    · exact .inr (.inr rfl)
    · exact .inl hx
    · exact .inr (.inl hx.1)

theorem Done.wait (h : Done s) {w' : Wait} (hstep : s.waiter.step s.fs = some (w', fs')) :
    Done { s with waiter := w', fs := fs' } := by
  have hdone := h.waiter
  cases hw : s.waiter with
  | rm =>
    rw [hw] at hstep
    cases hstep
    exact ⟨rfl, h.signalled, fun _ _ => rfl⟩
  | exited =>
    rw [hw] at hstep
    cases hstep
  | _ =>
    rw [hw] at hdone
    cases hdone

/-- A `listen` that has written its line only has to leave. -/
theorem step_of_hasWritten (hl : l.hasWritten = true) (hstep : l.step s.fs = some (l', fs')) :
    l'.hasWritten = true ∧ fs'.name = s.fs.name := by
  cases l with
  | exit k =>
    rw [Listen.step] at hstep
    split at hstep <;> (cases hstep; exact ⟨rfl, rfl⟩)
  | exited => cases hstep
  | _ => cases hl

theorem Done.listen (h : Done s) (hls : s.listeners = pre ++ l :: post)
    (hstep : l.step s.fs = some (l', fs')) :
    Done { s with listeners := pre ++ l' :: post, fs := fs' } := by
  obtain ⟨x, hx, hwritten⟩ := h.signalled
  refine ⟨h.waiter, ?_, fun hone hexited => ?_⟩
  · rw [hls, List.mem_append, List.mem_cons] at hx
    rcases hx with hx | rfl | hx
    · exact ⟨x, by simp [hx], hwritten⟩
    · exact ⟨l', by simp, (step_of_hasWritten hwritten hstep).1⟩
    · exact ⟨x, by simp [hx], hwritten⟩
  · have hlen : s.listeners.length = 1 := by
      rw [hls]
      simpa using hone
    have hxl : x = l := by
      obtain ⟨y, hy⟩ := List.length_eq_one_iff.mp hlen
      have hmem : l ∈ s.listeners := by rw [hls]; simp
      rw [hy, List.mem_singleton] at hx hmem
      rw [hx, hmem]
    rw [hxl] at hwritten
    rw [(step_of_hasWritten hwritten hstep).2]
    exact h.alone hlen hexited

end Moves

/-! ## Whole runs -/

theorem stage_step {s s' : State} {a : Actor} (hs : Stage s) (h : step s a = some s') :
    Stage s' := by
  cases a with
  | wait =>
    obtain ⟨⟨w', fs'⟩, hstep, rfl⟩ := Option.map_eq_some_iff.mp h
    cases hs with
    | fresh hs => exact hs.wait hstep
    | made hs => exact hs.wait hstep
    | done hs => exact .done (hs.wait hstep)
  | listen i =>
    obtain ⟨l, hl, hmove⟩ := Option.bind_eq_some_iff.mp h
    obtain ⟨⟨l', fs'⟩, hstep, rfl⟩ := Option.map_eq_some_iff.mp hmove
    obtain ⟨pre, post, hls, hset⟩ := exists_set_eq hl
    rw [hset]
    cases hs with
    | fresh hs => exact hs.listen hls hstep
    | made hs => exact .made (hs.listen hls hstep)
    | done hs => exact .done (hs.listen hls hstep)

theorem stage_run {dir : Bool} {n : Nat} {sched : List Actor} {s : State}
    (h : run step (start dir n) sched = some s) : Stage s :=
  run_invariant stage_step (stage_start dir n) h

theorem length_run {dir : Bool} {n : Nat} {sched : List Actor} {s : State}
    (h : run step (start dir n) sched = some s) : s.listeners.length = n := by
  refine run_invariant (I := fun s => s.listeners.length = n) ?_ (by simp [start]) h
  intro s a s' hs hstep
  cases a with
  | wait =>
    obtain ⟨r, -, rfl⟩ := Option.map_eq_some_iff.mp hstep
    exact hs
  | listen i =>
    obtain ⟨l, -, hmove⟩ := Option.bind_eq_some_iff.mp hstep
    obtain ⟨r, -, rfl⟩ := Option.map_eq_some_iff.mp hmove
    simpa using hs

/-! ### Nobody waits for ever -/

section Stuck

variable {s : State}

theorem wait_of_stuck (h : Stuck step s) : s.waiter.step s.fs = none :=
  Option.map_eq_none_iff.mp (h .wait)

theorem listen_of_stuck (h : Stuck step s) {l : Listen} (hl : l ∈ s.listeners) :
    l.step s.fs = none := by
  obtain ⟨i, hi⟩ := List.mem_iff_getElem?.mp hl
  have hnone := h (.listen i)
  rw [step, hi] at hnone
  exact Option.map_eq_none_iff.mp hnone

theorem Fresh.not_stuck (h : Fresh s) : ¬ Stuck step s := by
  intro hstuck
  have hnone := wait_of_stuck hstuck
  rcases h.waiter with hw | ⟨hw, -⟩ <;> (rw [hw] at hnone; cases hnone)

/-- A `wait` that cannot go on has come to the pipe. -/
theorem Made.opens_of_stuck (h : Made s) (hstuck : Stuck step s) : s.waiter.opens = 1 := by
  have hnone := wait_of_stuck hstuck
  have hsound := h.waiter
  cases hw : s.waiter with
  | opening k seen => rfl
  | reading k => rfl
  | rm =>
    rw [hw] at hsound
    cases hsound
  | exited =>
    rw [hw] at hsound
    cases hsound
  | _ =>
    rw [hw] at hnone
    cases hnone

/-- A `listen` that cannot go on has written its line. -/
theorem Made.exited_of_stuck (h : Made s) (hstuck : Stuck step s) {l : Listen}
    (hl : l ∈ s.listeners) : l = .exited := by
  have hnone := listen_of_stuck hstuck hl
  have hsound := h.listeners l hl
  have hinode := h.inode
  have hopens := h.opens_of_stuck hstuck
  cases l with
  | opening k seen =>
    obtain ⟨rfl, rfl⟩ := hsound
    simp [Listen.step, hinode, pipe, hopens] at hnone
  | echo k =>
    cases hsound
    simp [Listen.step, hinode, Fifo.write, pipe, hopens] at hnone
  | exit k =>
    cases hsound
    simp [Listen.step, hinode] at hnone
  | exited => rfl
  | killed => cases hsound
  | _ => cases hnone

theorem Made.not_stuck (h : Made s) (hne : s.listeners ≠ []) : ¬ Stuck step s := by
  intro hstuck
  obtain ⟨l, hl⟩ := List.exists_mem_of_ne_nil _ hne
  have hexited : .exited ∈ s.listeners := h.exited_of_stuck hstuck hl ▸ hl
  have hcome : 0 < s.listeners.countP Listen.hasCome :=
    List.countP_pos_iff.mpr ⟨_, hexited, rfl⟩
  have hwritten : 0 < s.listeners.countP Listen.hasWritten :=
    List.countP_pos_iff.mpr ⟨_, hexited, rfl⟩
  have hinode := h.inode
  have hnone := wait_of_stuck hstuck
  have hsound := h.waiter
  cases hw : s.waiter with
  | opening k seen =>
    rw [hw] at hsound
    obtain ⟨rfl, rfl⟩ := hsound
    simp only [hw, Wait.step, hinode, pipe] at hnone
    rw [if_neg (by omega)] at hnone
    cases hnone
  | reading k =>
    rw [hw] at hsound
    cases hsound
    simp only [hw, Wait.step, hinode] at hnone
    rw [Fifo.read_of_buffer (by simp only [pipe, ne_eq, List.replicate_eq_nil_iff]; omega)] at hnone
    cases hnone
  | _ =>
    have hopens := h.opens_of_stuck hstuck
    rw [hw] at hopens
    cases hopens

theorem Done.exited_of_stuck (h : Done s) (hstuck : Stuck step s) : s.waiter = .exited := by
  have hnone := wait_of_stuck hstuck
  have hdone := h.waiter
  cases hw : s.waiter with
  | exited => rfl
  | rm =>
    rw [hw] at hnone
    cases hnone
  | _ =>
    rw [hw] at hdone
    cases hdone

end Stuck

/-! ### How much is left to do -/

def Wait.remaining : Wait → Nat
  | .mkdir => 6
  | .mkfifo => 5
  | .head => 4
  | .opening _ _ => 3
  | .reading _ => 2
  | .rm => 1
  | .exited => 0

def Listen.remaining : Listen → Nat
  | .mkdir => 6
  | .mkfifo => 5
  | .redirfd => 4
  | .opening _ _ => 3
  | .echo _ => 2
  | .exit _ => 1
  | .exited => 0
  | .killed => 0

def State.remaining (s : State) : Nat :=
  s.waiter.remaining + (s.listeners.map Listen.remaining).sum

theorem Listen.step_remaining {l l' : Listen} {fs fs' : Fs} (h : l.step fs = some (l', fs')) :
    l'.remaining < l.remaining := by
  cases l with
  | redirfd =>
    simp only [step, openWrite] at h
    split at h
    · split at h <;> (cases h; simp [remaining])
    · cases h
      simp [remaining]
    · split at h <;> (cases h; simp [remaining])
  | opening k seen =>
    simp only [step] at h
    split at h
    · split at h <;> (cases h; try simp [remaining])
    · cases h
      simp [remaining]
  | echo k =>
    simp only [step] at h
    split at h
    · split at h <;> (cases h; simp [remaining])
    · cases h
      simp [remaining]
    · cases h
      simp [remaining]
  | exit k =>
    simp only [step] at h
    split at h <;> (cases h; simp [remaining])
  | exited => cases h
  | killed => cases h
  | _ =>
    cases h
    simp [remaining]

/-- `head` reads once: the first thing it gets is a line. -/
theorem wait_remaining {s : State} (hs : Stage s) {w' : Wait} {fs' : Fs}
    (h : s.waiter.step s.fs = some (w', fs')) : w'.remaining < s.waiter.remaining := by
  cases hw : s.waiter with
  | head =>
    simp only [hw, Wait.step, Wait.openRead] at h
    split at h
    · split at h <;> (cases h; simp [Wait.remaining])
    · cases h
      simp [Wait.remaining]
    · cases h
      simp [Wait.remaining]
  | opening k seen =>
    simp only [hw, Wait.step] at h
    split at h
    · split at h <;> (cases h; try simp [Wait.remaining])
    · cases h
      simp [Wait.remaining]
  | reading k =>
    cases hs with
    | fresh hs => rcases hs.waiter with hfresh | ⟨hfresh, -⟩ <;> (rw [hw] at hfresh; cases hfresh)
    | done hs =>
      have hdone := hs.waiter
      rw [hw] at hdone
      cases hdone
    | made hs =>
      have hsound := hs.waiter
      rw [hw] at hsound
      cases hsound
      simp only [hw, Wait.step, hs.inode] at h
      obtain ⟨⟨bytes, f⟩, hread, hstep⟩ := Option.map_eq_some_iff.mp h
      rw [← hw] at hread
      rw [if_pos (.inr (hs.read hw hread).2)] at hstep
      cases hstep
      simp [Wait.remaining]
  | exited =>
    rw [hw] at h
    cases h
  | _ =>
    rw [hw] at h
    cases h
    simp [Wait.remaining]

theorem step_remaining {s s' : State} {a : Actor} (hs : Stage s) (h : step s a = some s') :
    s'.remaining < s.remaining := by
  cases a with
  | wait =>
    obtain ⟨⟨w', fs'⟩, hstep, rfl⟩ := Option.map_eq_some_iff.mp h
    have hless := wait_remaining hs hstep
    simp only [State.remaining]
    omega
  | listen i =>
    obtain ⟨l, hl, hmove⟩ := Option.bind_eq_some_iff.mp h
    obtain ⟨⟨l', fs'⟩, hstep, rfl⟩ := Option.map_eq_some_iff.mp hmove
    obtain ⟨pre, post, hls, hset⟩ := exists_set_eq hl
    have hless := Listen.step_remaining hstep
    simp only [State.remaining, hset]
    rw [hls]
    simp only [List.map_append, List.map_cons, List.sum_append, List.sum_cons]
    omega

/-! ### One more announcement -/

/-- mdevd runs another `listen`. -/
def State.announce (s : State) : State := { s with listeners := s.listeners ++ [.mkdir] }

theorem Stage.announce {s : State} (hs : Stage s) : Stage s.announce := by
  have hnew : ∀ {P : Listen → Prop}, P .mkdir → (∀ l ∈ s.listeners, P l) →
      ∀ l ∈ s.announce.listeners, P l := by
    intro P hmkdir hold l hl
    rcases List.mem_append.mp hl with hl | hl
    · exact hold l hl
    · rw [List.mem_singleton.mp hl]
      exact hmkdir
  cases hs with
  | fresh hs => exact .fresh { hs with listeners := hnew (.inl rfl) hs.listeners }
  | made hs =>
    -- It has not come to the pipe.
    have hpipe : pipe s.waiter s.announce.listeners = pipe s.waiter s.listeners := by
      simp [pipe, State.announce, Listen.isOpen, Listen.hasCome, Listen.hasWritten]
    refine .made { hs with inodes := ?_, listeners := ?_, met := ?_, reading := ?_ }
    · exact hs.inodes.trans (congrArg (fun f => [Inode.fifo f]) hpipe.symm)
    · exact hnew trivial hs.listeners
    · exact hnew (fun h => by cases h) hs.met
    · intro k hk
      have hcome := hs.reading k hk
      simpa [State.announce, Listen.hasCome, Listen.isOpen] using hcome
  | done hs =>
    obtain ⟨l, hl, hwritten⟩ := hs.signalled
    refine .done ⟨hs.waiter, ⟨l, List.mem_append_left _ hl, hwritten⟩, fun hlength => ?_⟩
    have hpos := List.length_pos_of_mem hl
    rw [State.announce, List.length_append, List.length_singleton] at hlength
    omega

theorem remaining_announce (s : State) : s.announce.remaining = s.remaining + 6 := by
  simp [State.announce, State.remaining, Listen.remaining, Nat.add_assoc]

/-! ## The rendezvous -/

/-- What holds of one `wait` and `n` `listen`s, wherever they have got to. -/
structure Meets (n : Nat) (s : State) : Prop where
  /-- The service does not go on before the device is announced. -/
  safe : s.waiter.isDone = true → ∃ l ∈ s.listeners, l.hasWritten = true
  /-- No announcement is lost. -/
  live : 0 < n → Stuck step s → s.waiter = .exited
  /-- One `listen` and its `wait` leave nothing behind. -/
  clean : n = 1 → Stuck step s → s.listeners = [.exited] ∧ s.fs.name = none

theorem Stage.done_of_stuck {s : State} (hs : Stage s) (hne : s.listeners ≠ [])
    (hstuck : Stuck step s) : Done s := by
  cases hs with
  | fresh hs => exact absurd hstuck hs.not_stuck
  | made hs => exact absurd hstuck (hs.not_stuck hne)
  | done hs => exact hs

theorem Stage.signalled {s : State} (hs : Stage s) (hdone : s.waiter.isDone = true) :
    ∃ l ∈ s.listeners, l.hasWritten = true := by
  cases hs with
  | fresh hs => rcases hs.waiter with hw | ⟨hw, -⟩ <;> (rw [hw] at hdone; cases hdone)
  | made hs =>
    have hsound := hs.waiter
    cases hw : s.waiter <;> simp_all [Wait.isDone, Wait.Sound]
  | done hs => exact hs.signalled

/-- **A service goes on after the device is announced, and it does go on.** For any number of
`listen`s, in every interleaving with the `wait`: the `wait` comes back only when a line has been
written, a run in which nobody can go on has seen it come back, and there is no run that goes on
for ever. -/
theorem wait_meets_listen (dir : Bool) (n : Nat) {sched : List Actor} {s : State}
    (h : run step (start dir n) sched = some s) : Meets n s ∧ sched.length ≤ 6 + 6 * n := by
  have hs := stage_run h
  have hlen := length_run h
  refine ⟨⟨hs.signalled, fun hpos hstuck => ?_, fun hone hstuck => ?_⟩, ?_⟩
  · have hne : s.listeners ≠ [] := List.ne_nil_of_length_pos (by omega)
    exact (hs.done_of_stuck hne hstuck).exited_of_stuck hstuck
  · have hne : s.listeners ≠ [] := List.ne_nil_of_length_pos (by omega)
    have hdone := hs.done_of_stuck hne hstuck
    obtain ⟨l, hl, hwritten⟩ := hdone.signalled
    obtain ⟨x, hx⟩ := List.length_eq_one_iff.mp (hlen.trans hone)
    rw [hx, List.mem_singleton] at hl
    subst hl
    refine ⟨?_, hdone.alone (hlen.trans hone) (hdone.exited_of_stuck hstuck)⟩
    have hnone := listen_of_stuck hstuck (l := l) (by rw [hx]; simp)
    cases l with
    | exit k =>
      rw [Listen.step] at hnone
      split at hnone <;> cases hnone
    | exited => exact hx
    | _ => cases hwritten
  · have hbound := length_le_of_run State.remaining stage_step step_remaining (stage_start dir n) h
    have hstart : (start dir n).remaining = 6 + 6 * n := by
      simp [start, State.remaining, Wait.remaining, Listen.remaining, Nat.mul_comm]
    omega

/-- The `wait` is at the pipe first, and the device is announced later. -/
theorem wait_meets_listen_late :
    let sched : List Actor := [.wait, .wait, .wait, .listen 0, .listen 0, .listen 0, .wait,
      .listen 0, .wait, .wait, .listen 0]
    let s : State := ⟨⟨true, none, [.fifo ⟨0, 0, 1, 1, []⟩]⟩, .exited, [.exited]⟩
    run step (start false 1) sched = some s ∧ Meets 1 s ∧ sched.length ≤ 6 + 6 * 1 :=
  ⟨rfl, wait_meets_listen false 1 rfl⟩

/-- Of two `listen`s the second one comes too late: it makes a plain file, which stays. -/
example : (run step (start false 2) [.wait, .wait, .wait, .listen 0, .listen 0, .listen 0,
    .listen 1, .listen 1, .listen 0, .wait, .wait, .wait, .listen 1]).map (fun s => s.fs.name) =
      some (some 1) := rfl

end Spectrum.Mdev
