import Spectrum.Image.Verity
import Spectrum.Interact.Fifo
import Spectrum.Interact.Schedule

/-!
# `init`, mdevd and `probe`

The initramfs does not know where its partitions are. `init` starts mdevd and waits at a named
pipe, `/dev/rootfs.poll`; mdevd runs `/etc/probe` for every partition the kernel announces, one at
a time; and the first `probe` that finds both labels makes the links `/dev/rootfs` and
`/dev/verity` and writes a newline to the pipe. Partitions come in any order and at any time, some
of them only when a `probe` has set up the images on an installer partition, so `init`, mdevd and
the kernel interleave in every way.

**Only one `probe` ever writes to the pipe, and the links are made before it does.** `Stage` says
so: nobody has got to the links, or one `probe` is on its way from them through the pipe, or it is
done with it. Every `Move` keeps to that, whoever makes it. What `init` gets out of it is in
`Image/Boot.lean`.

`findfs` finds the first partition with the label. `redirfd -w -nb` does not block: where nobody
reads, it opens the pipe for reading itself until it has it open for writing. `backtick` stops the
script when its program fails. What comes after `veritysetup` is left out, and so is that the pipe
is removed once `init` has read from it: nobody opens it any more.
-/

set_option autoImplicit false

namespace Spectrum.Image.Boot

open Interact Schedule Text Bytes

/-! ## The scripts -/

abbrev Dev := List UInt8

structure Part where
  dev : Dev
  partuuid : List UInt8
  parttype : List UInt8

/-- The type of an installer's partition of images. -/
def eosimagesType : List UInt8 := ascii "56a3bbc3-aefa-43d9-a64d-7b3fd59bbc4e".toList

/-- How far a `probe` has got. -/
inductive Probe
  | parttype
  /-- An installer partition: it is mounted, and its images are set up. -/
  | losetup
  | findRootfs
  | findVerity (rootfs : Dev)
  | lnRootfs (rootfs verity : Dev)
  | lnVerity (verity : Dev)
  /-- `redirfd -w -nb 1 /dev/rootfs.poll`. -/
  | redirfd
  /-- It reads the pipe itself, for want of a reader. -/
  | reopen
  | unread
  | echo
  | exit

/-- How far `init` has got. -/
inductive Init
  | mkfifo
  /-- About to start mdevd. -/
  | mdevd
  | modprobe
  /-- `redirfd -r 0 /dev/rootfs.poll`. -/
  | redirfd
  /-- In `open`, waiting for a writer that comes after the first `seen`. -/
  | opening (seen : Nat)
  /-- `head -c 1`. -/
  | head
  | veritysetup
  /-- `veritysetup` has opened what the links stand for. -/
  | opened (rootfs verity : Dev)
  | failed

/-- What `init` and the `probe`s leave for each other. -/
structure Meeting where
  probe : Option (Part × Probe)
  /-- `/dev/rootfs`. -/
  rootfs : Option Dev
  /-- `/dev/verity`. -/
  verity : Option Dev
  poll : Fifo
  init : Init
  /-- A `probe` was done with the pipe before `init` came to it. -/
  tooEarly : Bool

structure State extends Meeting where
  /-- The partitions the kernel has yet to find. -/
  future : List Part
  known : List Part
  /-- The events mdevd has not seen to. -/
  queue : List Part
  killed : Bool

/-- mdevd is running, or has been. -/
def Init.hasStarted : Init → Bool
  | .mkfifo => false
  | .mdevd => false
  | _ => true

/-- `init` has been at the pipe. -/
def Init.hasCome : Init → Bool
  | .opening _ => true
  | .head => true
  | .veritysetup => true
  | .opened _ _ => true
  | .failed => true
  | _ => false

/-- `init` is done with the pipe. -/
def Init.isWoken : Init → Bool
  | .veritysetup => true
  | .opened _ _ => true
  | .failed => true
  | _ => false

inductive Actor
  | kernel
  | init
  /-- mdevd takes the next event. -/
  | mdevd
  /-- The running `probe`; `ok` says how setting up images ends. -/
  | probe (ok : Bool)
  /-- The background job that kills mdevd. -/
  | kill

def findfs (known : List Part) (partuuid : List UInt8) : Option Dev :=
  (known.find? fun p => p.partuuid = partuuid).map Part.dev

variable (uuids : Uuids)

def kernelStep (s : State) : Option State :=
  match s.future with
  | [] => none
  | p :: future =>
    -- What comes before mdevd is there to hear of it, `mdevd -C` finds by itself.
    some { s with future, known := s.known ++ [p]
                  queue := if s.init.hasStarted then s.queue ++ [p] else s.queue }

def initStep (s : State) : Option State :=
  match s.init with
  | .mkfifo => some { s with init := .mdevd }
  | .mdevd => some { s with init := .modprobe, queue := s.known }
  | .modprobe => some { s with init := .redirfd }
  | .redirfd =>
    some { s with poll := s.poll.enterRead
                  init := if s.poll.writers = 0 then .opening s.poll.writersEver else .head }
  | .opening seen => if s.poll.writersEver = seen then none else some { s with init := .head }
  | .head => (s.poll.read 1).map fun r => { s with poll := r.2.closeRead, init := .veritysetup }
  | .veritysetup =>
    match s.rootfs, s.verity with
    | some rootfs, some verity => some { s with init := .opened rootfs verity }
    | _, _ => some { s with init := .failed }
  | .opened _ _ => none
  | .failed => none

def mdevdStep (s : State) : Option State :=
  match s.probe, s.queue with
  | none, p :: queue =>
    if s.init.hasStarted ∧ s.killed = false then
      some { s with probe := some (p, .parttype), queue }
    else none
  | _, _ => none

def probeStep (known : List Part) (m : Meeting) (ok : Bool) : Option Meeting :=
  match m.probe with
  | none => none
  | some (p, phase) =>
    let next (phase : Probe) (m : Meeting) : Meeting := { m with probe := some (p, phase) }
    let stop (m : Meeting) : Meeting := { m with probe := none }
    match phase with
    | .parttype => some (next (if p.parttype = eosimagesType then .losetup else .findRootfs) m)
    -- `if -n`: the rest is for partitions this is not done with.
    | .losetup => some (if ok then stop m else next .findRootfs m)
    | .findRootfs =>
      match findfs known uuids.rootfs with
      | none => some (stop m)
      | some rootfs => some (next (.findVerity rootfs) m)
    | .findVerity rootfs =>
      match findfs known uuids.verity with
      | none => some (stop m)
      | some verity => some (next (.lnRootfs rootfs verity) m)
    | .lnRootfs rootfs verity =>
      match m.rootfs with
      | some _ => some (stop m)
      | none => some (next (.lnVerity verity) { m with rootfs := some rootfs })
    | .lnVerity verity =>
      match m.verity with
      | some _ => some (stop m)
      | none => some (next .redirfd { m with verity := some verity })
    | .redirfd =>
      if m.poll.readers = 0 then some (next .reopen { m with poll := m.poll.enterRead })
      else some (next .echo { m with poll := m.poll.enterWrite })
    | .reopen => some (next .unread { m with poll := m.poll.enterWrite })
    | .unread => some (next .echo { m with poll := m.poll.closeRead })
    | .echo => some (next .exit { m with poll := (m.poll.write [newline]).getD m.poll })
    | .exit =>
      some (stop { m with poll := m.poll.closeWrite
                          tooEarly := m.tooEarly || !m.init.hasCome })

def killStep (s : State) : Option State :=
  if s.init.isWoken ∧ s.killed = false then some { s with killed := true } else none

def step (s : State) : Actor → Option State
  | .kernel => kernelStep s
  | .init => initStep s
  | .mdevd => mdevdStep s
  | .probe ok =>
    (probeStep uuids s.known s.toMeeting ok).map fun m => { s with toMeeting := m }
  | .kill => killStep s

/-- The partitions `known` are there from the start, and the kernel finds `future` later. -/
def start (known future : List Part) : State where
  future := future
  known := known
  queue := []
  probe := none
  killed := false
  rootfs := none
  verity := none
  poll := .new
  init := .mkfifo
  tooEarly := false

/-! ## The links and the pipe -/

/-- The links are made one after the other, and this is between the two. -/
def Probe.isHalfway : Probe → Bool
  | .lnVerity _ => true
  | _ => false

/-- Both links are made, and the pipe has not been left. -/
def Probe.isNotifying : Probe → Bool
  | .redirfd => true
  | .reopen => true
  | .unread => true
  | .echo => true
  | .exit => true
  | _ => false

/-- How often it has the pipe open for writing. -/
def Probe.writes : Probe → Nat
  | .unread => 1
  | .echo => 1
  | .exit => 1
  | _ => 0

/-- It has not made a link. -/
def Probe.isSearching : Probe → Bool
  | .parttype => true
  | .losetup => true
  | .findRootfs => true
  | .findVerity _ => true
  | .lnRootfs _ _ => true
  | _ => false

/-- How many steps of its own it has left at most. -/
def Probe.remaining : Probe → Nat
  | .parttype => 11
  | .losetup => 10
  | .findRootfs => 9
  | .findVerity _ => 8
  | .lnRootfs _ _ => 7
  | .lnVerity _ => 6
  | .redirfd => 5
  | .reopen => 4
  | .unread => 3
  | .echo => 2
  | .exit => 1

def Init.remaining : Init → Nat
  | .mkfifo => 7
  | .mdevd => 6
  | .modprobe => 5
  | .redirfd => 4
  | .opening _ => 3
  | .head => 2
  | .veritysetup => 1
  | .opened _ _ => 0
  | .failed => 0

def Meeting.probeLeft (m : Meeting) : Nat := (m.probe.map fun r => r.2.remaining).getD 0

/-- What a step can do to a meeting. -/
inductive Move (m : Meeting) : Meeting → Prop
  | onward {i : Init} (h : m.init.hasCome = false) (hi : i.hasCome = false) :
      Move m { m with init := i }
  | enter (h : m.init = .redirfd) :
      Move m { m with poll := m.poll.enterRead
                      init := if m.poll.writers = 0 then .opening m.poll.writersEver else .head }
  | wake {seen : Nat} (h : m.init = .opening seen) (hever : m.poll.writersEver ≠ seen) :
      Move m { m with init := .head }
  | head {bytes : List UInt8} {f : Fifo} (h : m.init = .head)
      (hread : m.poll.read 1 = some (bytes, f)) :
      Move m { m with poll := f.closeRead, init := .veritysetup }
  | opened {rootfs verity : Dev} (h : m.init = .veritysetup) (hrootfs : m.rootfs = some rootfs)
      (hverity : m.verity = some verity) : Move m { m with init := .opened rootfs verity }
  | failed (h : m.init = .veritysetup) (hlinks : m.rootfs = none ∨ m.verity = none) :
      Move m { m with init := .failed }
  | take {p : Part} (h : m.probe = none) : Move m { m with probe := some (p, .parttype) }
  | search {p : Part} {phase phase' : Probe} (h : m.probe = some (p, phase))
      (hphase : phase.isSearching = true) (hphase' : phase'.isSearching = true) :
      Move m { m with probe := some (p, phase') }
  | quit {p : Part} {phase : Probe} (h : m.probe = some (p, phase))
      (hphase : phase.isSearching = true ∨ m.verity ≠ none ∧ phase.isHalfway = true) :
      Move m { m with probe := none }
  | lnRootfs {p : Part} {rootfs verity : Dev} (h : m.probe = some (p, .lnRootfs rootfs verity))
      (hrootfs : m.rootfs = none) :
      Move m { m with rootfs := some rootfs, probe := some (p, .lnVerity verity) }
  | lnVerity {p : Part} {verity : Dev} (h : m.probe = some (p, .lnVerity verity))
      (hverity : m.verity = none) :
      Move m { m with verity := some verity, probe := some (p, .redirfd) }
  | readSelf {p : Part} (h : m.probe = some (p, .redirfd)) :
      Move m { m with poll := m.poll.enterRead, probe := some (p, .reopen) }
  | write {p : Part} (h : m.probe = some (p, .redirfd)) :
      Move m { m with poll := m.poll.enterWrite, probe := some (p, .echo) }
  | reopen {p : Part} (h : m.probe = some (p, .reopen)) :
      Move m { m with poll := m.poll.enterWrite, probe := some (p, .unread) }
  | unread {p : Part} (h : m.probe = some (p, .unread)) :
      Move m { m with poll := m.poll.closeRead, probe := some (p, .echo) }
  | echo {p : Part} (h : m.probe = some (p, .echo)) :
      Move m { m with poll := (m.poll.write [newline]).getD m.poll, probe := some (p, .exit) }
  | exit {p : Part} (h : m.probe = some (p, .exit)) :
      Move m { m with poll := m.poll.closeWrite, probe := none
                      tooEarly := m.tooEarly || !m.init.hasCome }

section Moves

variable {s s' : State}

theorem move_of_initStep (h : initStep s = some s') : Move s.toMeeting s'.toMeeting := by
  rw [initStep] at h
  split at h
  case h_1 hinit => exact Option.some.inj h ▸ .onward (by rw [hinit]; rfl) rfl
  case h_2 hinit => exact Option.some.inj h ▸ .onward (by rw [hinit]; rfl) rfl
  case h_3 hinit => exact Option.some.inj h ▸ .onward (by rw [hinit]; rfl) rfl
  case h_4 hinit => exact Option.some.inj h ▸ .enter hinit
  case h_5 seen hinit =>
    split at h
    · cases h
    · rename_i hever
      exact Option.some.inj h ▸ .wake hinit hever
  case h_6 hinit =>
    obtain ⟨r, hread, hr⟩ := Option.map_eq_some_iff.mp h
    exact hr ▸ .head hinit hread
  case h_7 hinit =>
    split at h
    · rename_i hrootfs hverity
      exact Option.some.inj h ▸ .opened hinit hrootfs hverity
    · rename_i hlinks
      refine Option.some.inj h ▸ .failed hinit ?_
      cases hr : s.rootfs with
      | none => exact .inl rfl
      | some rootfs =>
        cases hv : s.verity with
        | none => exact .inr rfl
        | some verity => exact (hlinks rootfs verity hr hv).elim
  case h_8 => cases h
  case h_9 => cases h

theorem move_of_mdevdStep (h : mdevdStep s = some s') : Move s.toMeeting s'.toMeeting := by
  rw [mdevdStep] at h
  split at h
  · rename_i p queue hprobe _
    split at h
    · exact Option.some.inj h ▸ .take hprobe
    · cases h
  · cases h

theorem move_of_probeStep {uuids : Uuids} {known : List Part} {m m' : Meeting} {ok : Bool}
    (h : probeStep uuids known m ok = some m') : Move m m' := by
  rw [probeStep] at h
  split at h
  · cases h
  rename_i p phase hprobe
  dsimp only at h
  cases phase with
  | parttype =>
    refine Option.some.inj h ▸ .search hprobe rfl ?_
    split <;> rfl
  | losetup =>
    cases ok with
    | true => exact Option.some.inj h ▸ .quit hprobe (.inl rfl)
    | false => exact Option.some.inj h ▸ .search hprobe rfl rfl
  | findRootfs =>
    dsimp only at h
    split at h
    · exact Option.some.inj h ▸ .quit hprobe (.inl rfl)
    · exact Option.some.inj h ▸ .search hprobe rfl rfl
  | findVerity rootfs =>
    dsimp only at h
    split at h
    · exact Option.some.inj h ▸ .quit hprobe (.inl rfl)
    · exact Option.some.inj h ▸ .search hprobe rfl rfl
  | lnRootfs rootfs verity =>
    dsimp only at h
    split at h
    · exact Option.some.inj h ▸ .quit hprobe (.inl rfl)
    · rename_i hrootfs
      exact Option.some.inj h ▸ .lnRootfs hprobe hrootfs
  | lnVerity verity =>
    dsimp only at h
    split at h
    · rename_i hverity
      exact Option.some.inj h ▸ .quit hprobe (.inr ⟨by simp [hverity], rfl⟩)
    · rename_i hverity
      exact Option.some.inj h ▸ .lnVerity hprobe hverity
  | redirfd =>
    dsimp only at h
    split at h
    · exact Option.some.inj h ▸ .readSelf hprobe
    · exact Option.some.inj h ▸ .write hprobe
  | reopen => exact Option.some.inj h ▸ .reopen hprobe
  | unread => exact Option.some.inj h ▸ .unread hprobe
  | echo => exact Option.some.inj h ▸ .echo hprobe
  | exit => exact Option.some.inj h ▸ .exit hprobe

/-- The kernel and the `kill` stay out of it. -/
theorem move_of_step {uuids : Uuids} {a : Actor} (h : step uuids s a = some s') :
    s'.toMeeting = s.toMeeting ∨ Move s.toMeeting s'.toMeeting := by
  cases a with
  | kernel =>
    simp only [step, kernelStep] at h
    split at h
    · cases h
    · exact .inl (Option.some.inj h ▸ rfl)
  | init => exact .inr (move_of_initStep h)
  | mdevd => exact .inr (move_of_mdevdStep h)
  | probe ok =>
    obtain ⟨m, hm, rfl⟩ := Option.map_eq_some_iff.mp h
    exact .inr (move_of_probeStep hm)
  | kill =>
    simp only [step, killStep] at h
    split at h
    · exact .inl (Option.some.inj h ▸ rfl)
    · cases h

end Moves

/-- Where `init` can be when `ever` writers have come and it has not missed one. -/
def Init.Sound (ever : Nat) : Init → Prop
  | .opening seen => seen = 0
  | .head => ever = 1
  | .veritysetup => ever = 1
  | .opened _ _ => ever = 1
  | .failed => False
  | _ => True

/-- Where `init` can be when it has missed the only writer. -/
def Init.Lost : Init → Prop
  | .opening seen => seen = 1
  | i => i.hasCome = false

/-- Nobody has made both links, so nobody has been at the pipe to write. -/
structure Quiet (m : Meeting) : Prop where
  rootfs : m.rootfs.isSome = m.probe.any fun r => r.2.isHalfway
  verity : m.verity = none
  probe : ∀ r ∈ m.probe, r.2.isNotifying = false
  writers : m.poll.writers = 0
  writersEver : m.poll.writersEver = 0
  init : m.init.Sound 0
  tooEarly : m.tooEarly = false

/-- A `probe` has made both links, and is somewhere in its last command. -/
structure Notifying (m : Meeting) (phase : Probe) : Prop where
  rootfs : m.rootfs.isSome = true
  verity : m.verity.isSome = true
  probe : m.probe.map Prod.snd = some phase
  isNotifying : phase.isNotifying = true
  writers : m.poll.writers = phase.writes
  writersEver : m.poll.writersEver = phase.writes
  init : m.init.Sound phase.writes
  tooEarly : m.tooEarly = false

/-- That `probe` is gone. No other one gets as far, because the links are there. -/
structure Notified (m : Meeting) : Prop where
  rootfs : m.rootfs.isSome = true
  verity : m.verity.isSome = true
  probe : ∀ r ∈ m.probe, r.2.isNotifying = false
  writers : m.poll.writers = 0
  writersEver : m.poll.writersEver = 1
  init : if m.tooEarly then m.init.Lost else m.init.Sound 1 ∧ m.init.hasCome = true

inductive Stage (m : Meeting) : Prop
  | quiet (h : Quiet m)
  | notifying (phase : Probe) (h : Notifying m phase)
  | notified (h : Notified m)

theorem stage_start (known future : List Part) : Stage (start known future).toMeeting :=
  .quiet ⟨rfl, rfl, by simp [start], rfl, rfl, trivial, rfl⟩

theorem Init.sound_of_not_hasCome {i : Init} (h : i.hasCome = false) (ever : Nat) :
    i.Sound ever := by
  cases i <;> trivial

theorem Init.lost_of_not_hasCome {i : Init} (h : i.hasCome = false) : i.Lost := by
  cases i <;> first | exact h | cases h

theorem Init.Sound.one {i : Init} (h : i.Sound 0) : i.Sound 1 := by
  cases i <;> first | exact h | rfl

theorem Probe.isNotifying_of_searching {phase : Probe} (h : phase.isSearching = true) :
    phase.isNotifying = false := by
  cases phase <;> first | rfl | cases h

theorem Probe.isHalfway_of_searching {phase : Probe} (h : phase.isSearching = true) :
    phase.isHalfway = false := by
  cases phase <;> first | rfl | cases h

theorem Probe.isNotifying_of_halfway {phase : Probe} (h : phase.isHalfway = true) :
    phase.isNotifying = false := by
  cases phase <;> first | rfl | cases h

theorem Probe.writes_le (phase : Probe) : phase.writes ≤ 1 := by
  cases phase <;> simp [Probe.writes]

section Stages

variable {m m' : Meeting} {phase : Probe}

theorem Quiet.move (h : Quiet m) (hm : Move m m') : Stage m' := by
  have hinit := h.init
  have hrootfs := h.rootfs
  cases hm with
  | onward _ hi => exact .quiet { h with init := Init.sound_of_not_hasCome hi 0 }
  | enter hat =>
    refine .quiet { h with init := ?_ }
    rw [if_pos h.writers]
    exact h.writersEver
  | wake hat hever =>
    rw [hat] at hinit
    exact absurd (h.writersEver.trans hinit.symm) hever
  | head hat => simp [hat, Init.Sound] at hinit
  | opened hat => simp [hat, Init.Sound] at hinit
  | failed hat => simp [hat, Init.Sound] at hinit
  | take hat =>
    rw [hat] at hrootfs
    exact .quiet { h with rootfs := hrootfs, probe := by simp [Probe.isNotifying] }
  | search hat hphase hphase' =>
    refine .quiet { h with rootfs := ?_, probe := ?_ }
    · simpa [hat, Probe.isHalfway_of_searching hphase, Probe.isHalfway_of_searching hphase']
        using hrootfs
    · simp [Probe.isNotifying_of_searching hphase']
  | quit hat hphase =>
    rcases hphase with hphase | ⟨hverity, _⟩
    · refine .quiet { h with rootfs := ?_, probe := by simp }
      simpa [hat, Probe.isHalfway_of_searching hphase] using hrootfs
    · exact absurd h.verity hverity
  | lnRootfs => exact .quiet { h with rootfs := rfl, probe := by simp [Probe.isNotifying] }
  | lnVerity hat =>
    rw [hat] at hrootfs
    exact .notifying .redirfd
      ⟨hrootfs, rfl, rfl, rfl, h.writers, h.writersEver, hinit, h.tooEarly⟩
  | readSelf hat => cases h.probe _ hat
  | write hat => cases h.probe _ hat
  | reopen hat => cases h.probe _ hat
  | unread hat => cases h.probe _ hat
  | echo hat => cases h.probe _ hat
  | exit hat => cases h.probe _ hat

theorem Notifying.phase_eq (h : Notifying m phase) {p : Part} {phase' : Probe}
    (hat : m.probe = some (p, phase')) : phase = phase' := by
  have hprobe := h.probe
  rw [hat] at hprobe
  exact (Option.some.inj hprobe).symm

theorem Notifying.move (h : Notifying m phase) (hm : Move m m') : Stage m' := by
  have hinit := h.init
  have hle := phase.writes_le
  cases hm with
  | onward _ hi => exact .notifying phase { h with init := Init.sound_of_not_hasCome hi _ }
  | enter hat =>
    refine .notifying phase { h with init := ?_ }
    have hwriters := h.writers
    have hever := h.writersEver
    split
    · show m.poll.writersEver = 0
      omega
    · show phase.writes = 1
      omega
  | wake hat hever =>
    refine .notifying phase { h with init := ?_ }
    rw [hat] at hinit
    have hcame := h.writersEver
    have hseen : _ = 0 := hinit
    show phase.writes = 1
    omega
  | head hat hread =>
    obtain ⟨hwriters, hever⟩ := Fifo.writers_of_read hread
    rw [hat] at hinit
    exact .notifying phase
      { h with
        init := hinit
        writers := by simp [hwriters, h.writers]
        writersEver := by simp [hever, h.writersEver] }
  | opened hat =>
    rw [hat] at hinit
    exact .notifying phase { h with init := hinit }
  | failed _ hlinks =>
    have hrootfs := h.rootfs
    have hverity := h.verity
    rcases hlinks with hnone | hnone
    · simp [hnone] at hrootfs
    · simp [hnone] at hverity
  | take hat =>
    have hprobe := h.probe
    simp [hat] at hprobe
  | search hat hphase =>
    have hnotifying := h.isNotifying
    rw [h.phase_eq hat, Probe.isNotifying_of_searching hphase] at hnotifying
    cases hnotifying
  | quit hat hphase =>
    have hnotifying := h.isNotifying
    rw [h.phase_eq hat] at hnotifying
    rcases hphase with hphase | ⟨_, hphase⟩
    · rw [Probe.isNotifying_of_searching hphase] at hnotifying
      cases hnotifying
    · rw [Probe.isNotifying_of_halfway hphase] at hnotifying
      cases hnotifying
  | lnRootfs hat =>
    cases h.phase_eq hat
    cases h.isNotifying
  | lnVerity hat =>
    cases h.phase_eq hat
    cases h.isNotifying
  | readSelf hat =>
    cases h.phase_eq hat
    exact .notifying .reopen { h with probe := rfl, isNotifying := rfl }
  | write hat =>
    cases h.phase_eq hat
    exact .notifying .echo
      { h with
        probe := rfl
        isNotifying := rfl
        writers := congrArg (· + 1) h.writers
        writersEver := congrArg (· + 1) h.writersEver
        init := hinit.one }
  | reopen hat =>
    cases h.phase_eq hat
    exact .notifying .unread
      { h with
        probe := rfl
        isNotifying := rfl
        writers := congrArg (· + 1) h.writers
        writersEver := congrArg (· + 1) h.writersEver
        init := hinit.one }
  | unread hat =>
    cases h.phase_eq hat
    exact .notifying .echo
      { h with
        probe := rfl
        isNotifying := rfl
        writers := by simp [h.writers, Probe.writes]
        writersEver := by simp [h.writersEver, Probe.writes] }
  | echo hat =>
    cases h.phase_eq hat
    exact .notifying .exit
      { h with
        probe := rfl
        isNotifying := rfl
        writers := by simp [h.writers, Probe.writes]
        writersEver := by simp [h.writersEver, Probe.writes] }
  | exit hat =>
    cases h.phase_eq hat
    refine .notified ⟨h.rootfs, h.verity, by simp, by simp [h.writers, Probe.writes],
      by simp [h.writersEver, Probe.writes], ?_⟩
    simp only [h.tooEarly, Bool.false_or]
    cases hcome : m.init.hasCome with
    | false => exact Init.lost_of_not_hasCome hcome
    | true => exact ⟨hinit, rfl⟩

/-- Once the pipe has been left, an `init` that has not come to it comes too late. -/
theorem Notified.tooEarly_of_not_hasCome (h : Notified m) (hcome : m.init.hasCome = false) :
    m.tooEarly = true := by
  have hinit := h.init
  cases hearly : m.tooEarly with
  | true => rfl
  | false => simp [hearly, hcome] at hinit

/-- An `init` that missed the newline is waiting for it or has not come for it. -/
theorem Notified.sound_of_woken (h : Notified m) (hcome : m.init.hasCome = true)
    (hopening : ∀ seen, m.init ≠ .opening seen) :
    m.tooEarly = false ∧ m.init.Sound 1 := by
  have hinit := h.init
  cases hearly : m.tooEarly with
  | false =>
    rw [hearly] at hinit
    exact ⟨rfl, hinit.1⟩
  | true =>
    rw [hearly] at hinit
    cases hi : m.init with
    | opening seen => exact absurd hi (hopening seen)
    | _ => simp_all [Init.Lost, Init.hasCome]

theorem Notified.move (h : Notified m) (hm : Move m m') : Stage m' := by
  have hinit := h.init
  cases hm with
  | onward hcome hi =>
    refine .notified { h with init := ?_ }
    rw [if_pos (h.tooEarly_of_not_hasCome hcome)]
    exact Init.lost_of_not_hasCome hi
  | enter hat =>
    refine .notified { h with init := ?_ }
    rw [if_pos (h.tooEarly_of_not_hasCome (by rw [hat]; rfl)), if_pos h.writers]
    exact h.writersEver
  | wake hat hever =>
    refine .notified { h with init := ?_ }
    cases hearly : m.tooEarly with
    | false => exact ⟨rfl, rfl⟩
    | true =>
      rw [hearly, hat] at hinit
      exact absurd (h.writersEver.trans hinit.symm) hever
  | head hat hread =>
    obtain ⟨hwriters, hever⟩ := Fifo.writers_of_read hread
    obtain ⟨hearly, _⟩ := h.sound_of_woken (by rw [hat]; rfl) (by simp [hat])
    exact .notified
      { h with
        writers := by simp [hwriters, h.writers]
        writersEver := by simp [hever, h.writersEver]
        init := by
          rw [hearly]
          exact ⟨rfl, rfl⟩ }
  | opened hat =>
    obtain ⟨hearly, _⟩ := h.sound_of_woken (by rw [hat]; rfl) (by simp [hat])
    refine .notified { h with init := ?_ }
    rw [hearly]
    exact ⟨rfl, rfl⟩
  | failed _ hlinks =>
    have hrootfs := h.rootfs
    have hverity := h.verity
    rcases hlinks with hnone | hnone
    · simp [hnone] at hrootfs
    · simp [hnone] at hverity
  | take => exact .notified { h with probe := by simp [Probe.isNotifying] }
  | search _ _ hphase' =>
    exact .notified { h with probe := by simp [Probe.isNotifying_of_searching hphase'] }
  | quit => exact .notified { h with probe := by simp }
  | lnRootfs _ hnone =>
    have hrootfs := h.rootfs
    simp [hnone] at hrootfs
  | lnVerity _ hnone =>
    have hverity := h.verity
    simp [hnone] at hverity
  | readSelf hat => cases h.probe _ hat
  | write hat => cases h.probe _ hat
  | reopen hat => cases h.probe _ hat
  | unread hat => cases h.probe _ hat
  | echo hat => cases h.probe _ hat
  | exit hat => cases h.probe _ hat

theorem Stage.move (h : Stage m) (hm : Move m m') : Stage m' := by
  cases h with
  | quiet h => exact h.move hm
  | notifying phase h => exact h.move hm
  | notified h => exact h.move hm

end Stages

theorem stage_step {uuids : Uuids} {s s' : State} {a : Actor} (h : Stage s.toMeeting)
    (hstep : step uuids s a = some s') : Stage s'.toMeeting := by
  rcases move_of_step hstep with heq | hm
  · rwa [heq]
  · exact h.move hm

/-- Both links are there. -/
def Linked (m : Meeting) : Prop := m.rootfs.isSome = true ∧ m.verity.isSome = true

theorem Stage.linked_or_quiet {m : Meeting} (h : Stage m) : Linked m ∨ Quiet m := by
  cases h with
  | quiet h => exact .inr h
  | notifying phase h => exact .inl ⟨h.rootfs, h.verity⟩
  | notified h => exact .inl ⟨h.rootfs, h.verity⟩

theorem Linked.move {m m' : Meeting} (h : Linked m) (hm : Move m m') : Linked m' := by
  cases hm with
  | lnRootfs => exact ⟨rfl, h.2⟩
  | lnVerity => exact ⟨h.1, rfl⟩
  | _ => exact h

end Spectrum.Image.Boot
