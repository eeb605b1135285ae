import Spectrum.Image.Probe

/-!
# Finding the root file system

The initramfs does not know where its partitions are, and `init` waits until a `probe` has found
both.

**What `init` opens are partitions with the labels of the root hash**, in every interleaving, and
it never gets to `veritysetup` without them. Whether it gets there is another matter: a `probe`
does not wait for `init` at the pipe, and only one of them ever writes, so a boot whose partitions
are found before `init` has come to the pipe hangs. That is the only way (`boot_finds`).
-/

set_option autoImplicit false

namespace Spectrum.Image.Boot

open Interact Schedule Text Bytes

/-! ## The labels -/

section Labels

variable (uuids : Uuids) (parts : List Part)

/-- `dev` is a partition with the label `partuuid`. -/
def Label (partuuid : List UInt8) (dev : Dev) : Prop :=
  ∃ p ∈ parts, p.dev = dev ∧ p.partuuid = partuuid

variable {parts} in
theorem label_of_findfs {known : List Part} {partuuid : List UInt8} {dev : Dev}
    (hknown : ∀ p ∈ known, p ∈ parts) (h : findfs known partuuid = some dev) :
    Label parts partuuid dev := by
  obtain ⟨p, hfind, hdev⟩ := Option.map_eq_some_iff.mp h
  exact ⟨p, hknown p (List.mem_of_find?_eq_some hfind), hdev, by simpa using List.find?_some hfind⟩

/-- What a `probe` has found. -/
def Probe.Labelled : Probe → Prop
  | .findVerity rootfs => Label parts uuids.rootfs rootfs
  | .lnRootfs rootfs verity => Label parts uuids.rootfs rootfs ∧ Label parts uuids.verity verity
  | .lnVerity verity => Label parts uuids.verity verity
  | _ => True

structure Labelled (s : State) : Prop where
  mem : ∀ p, p ∈ parts ↔ p ∈ s.known ∨ p ∈ s.future
  probe : ∀ r ∈ s.probe, r.2.Labelled uuids parts
  rootfs : ∀ dev ∈ s.rootfs, Label parts uuids.rootfs dev
  verity : ∀ dev ∈ s.verity, Label parts uuids.verity dev
  opened : ∀ rootfs verity, s.init = .opened rootfs verity →
    Label parts uuids.rootfs rootfs ∧ Label parts uuids.verity verity

variable {uuids parts} {s s' : State}

theorem labelled_start (known future : List Part) :
    Labelled uuids (known ++ future) (start known future) :=
  ⟨fun _ => List.mem_append, by simp [start], by simp [start], by simp [start], by simp [start]⟩

theorem Labelled.known (h : Labelled uuids parts s) : ∀ p ∈ s.known, p ∈ parts :=
  fun p hp => (h.mem p).mpr (.inl hp)

theorem Labelled.kernelStep (h : Labelled uuids parts s) (hstep : kernelStep s = some s') :
    Labelled uuids parts s' := by
  rw [Boot.kernelStep] at hstep
  split at hstep
  · cases hstep
  · rename_i p future hfuture
    cases hstep
    refine { h with mem := fun q => ?_ }
    rw [h.mem q, hfuture, List.mem_append, List.mem_singleton, List.mem_cons, or_assoc]

theorem Labelled.initStep (h : Labelled uuids parts s) (hstep : initStep s = some s') :
    Labelled uuids parts s' := by
  rw [Boot.initStep] at hstep
  split at hstep
  case h_1 | h_2 | h_3 =>
    cases hstep
    exact { h with opened := by simp }
  case h_4 =>
    cases hstep
    refine { h with opened := ?_ }
    dsimp only
    split <;> simp
  case h_5 =>
    split at hstep
    · cases hstep
    · cases hstep
      exact { h with opened := by simp }
  case h_6 =>
    obtain ⟨r, _, rfl⟩ := Option.map_eq_some_iff.mp hstep
    exact { h with opened := by simp }
  case h_7 =>
    split at hstep
    · rename_i hrootfs hverity
      cases hstep
      refine { h with opened := fun rootfs verity heq => ?_ }
      cases heq
      exact ⟨h.rootfs _ hrootfs, h.verity _ hverity⟩
    · cases hstep
      exact { h with opened := by simp }
  case h_8 | h_9 => cases hstep

theorem Labelled.mdevdStep (h : Labelled uuids parts s) (hstep : mdevdStep s = some s') :
    Labelled uuids parts s' := by
  rw [Boot.mdevdStep] at hstep
  split at hstep
  · split at hstep
    · cases hstep
      exact { h with probe := by simp [Probe.Labelled] }
    · cases hstep
  · cases hstep

theorem Labelled.probeStep {m : Meeting} {ok : Bool} (h : Labelled uuids parts s)
    (hstep : probeStep uuids s.known s.toMeeting ok = some m) :
    Labelled uuids parts { s with toMeeting := m } := by
  rw [Boot.probeStep] at hstep
  split at hstep
  · cases hstep
  rename_i p phase hprobe
  have hphase : phase.Labelled uuids parts := h.probe _ hprobe
  dsimp only at hstep
  cases phase with
  | parttype =>
    cases hstep
    refine { h with probe := ?_ }
    dsimp only
    split <;> simp [Probe.Labelled]
  | losetup =>
    cases ok with
    | true =>
      cases hstep
      exact { h with probe := by simp }
    | false =>
      cases hstep
      exact { h with probe := by simp [Probe.Labelled] }
  | findRootfs =>
    dsimp only at hstep
    split at hstep
    · cases hstep
      exact { h with probe := by simp }
    · rename_i rootfs hfound
      cases hstep
      exact { h with probe := by simpa [Probe.Labelled] using label_of_findfs h.known hfound }
  | findVerity rootfs =>
    dsimp only at hstep
    split at hstep
    · cases hstep
      exact { h with probe := by simp }
    · rename_i verity hfound
      cases hstep
      exact { h with
        probe := by simpa [Probe.Labelled] using ⟨hphase, label_of_findfs h.known hfound⟩ }
  | lnRootfs rootfs verity =>
    dsimp only at hstep
    split at hstep
    · cases hstep
      exact { h with probe := by simp }
    · cases hstep
      exact { h with
        rootfs := by simpa using hphase.1
        probe := by simpa [Probe.Labelled] using hphase.2 }
  | lnVerity verity =>
    dsimp only at hstep
    split at hstep
    · cases hstep
      exact { h with probe := by simp }
    · cases hstep
      exact { h with
        verity := by simpa [Probe.Labelled] using hphase
        probe := by simp [Probe.Labelled] }
  | redirfd =>
    dsimp only at hstep
    split at hstep <;> cases hstep <;> exact { h with probe := by simp [Probe.Labelled] }
  | reopen | unread | echo =>
    cases hstep
    exact { h with probe := by simp [Probe.Labelled] }
  | exit =>
    cases hstep
    exact { h with probe := by simp }

theorem Labelled.step {a : Actor} (h : Labelled uuids parts s)
    (hstep : step uuids s a = some s') : Labelled uuids parts s' := by
  cases a with
  | kernel => exact h.kernelStep hstep
  | init => exact h.initStep hstep
  | mdevd => exact h.mdevdStep hstep
  | probe ok =>
    obtain ⟨m, hm, rfl⟩ := Option.map_eq_some_iff.mp hstep
    exact h.probeStep hm
  | kill =>
    simp only [Boot.step, killStep] at hstep
    split at hstep
    · cases hstep
      exact { h with }
    · cases hstep

end Labels

/-! ## Why a boot goes on -/

section Progress

variable (uuids : Uuids)

/-- The partitions to boot from are among `parts`, and none of them is taken for a partition of
images. -/
structure Provided (parts : List Part) : Prop where
  rootfs : ∃ p ∈ parts, p.partuuid = uuids.rootfs
  verity : ∃ p ∈ parts, p.partuuid = uuids.verity
  images : ∀ p ∈ parts, p.partuuid = uuids.rootfs ∨ p.partuuid = uuids.verity →
    p.parttype ≠ eosimagesType

/-- A `probe` for `p` that looks for the labels or has found them. -/
def Probe.Going (p : Part) : Probe → Prop
  | .parttype => p.parttype ≠ eosimagesType
  | .losetup => False
  | _ => True

/-- There is a `probe` to come. -/
def Pending (s : State) : Prop :=
  s.init.hasStarted = false ∨ (∃ p ∈ s.queue, p.parttype ≠ eosimagesType) ∨
    ∃ r ∈ s.probe, r.2.Going r.1

structure Progress (s : State) : Prop where
  pending : Provided uuids s.known → Linked s.toMeeting ∨ Pending s
  killed : s.killed = true → s.init.isWoken = true

variable {uuids} {s s' : State}

theorem progress_start (known future : List Part) : Progress uuids (start known future) :=
  ⟨fun _ => .inr (.inl rfl), fun h => (nomatch h)⟩

theorem findfs_isSome {known : List Part} {partuuid : List UInt8}
    (h : ∃ p ∈ known, p.partuuid = partuuid) : ∃ dev, findfs known partuuid = some dev := by
  obtain ⟨p, hp, hpartuuid⟩ := h
  cases hfind : known.find? fun p => p.partuuid = partuuid with
  | none => exact absurd hpartuuid (by simpa using List.find?_eq_none.mp hfind p hp)
  | some q => exact ⟨q.dev, by rw [findfs, hfind]; rfl⟩

theorem probeStep_frame {known : List Part} {m m' : Meeting} {ok : Bool}
    (h : probeStep uuids known m ok = some m') :
    m'.init = m.init ∧ m'.probeLeft < m.probeLeft := by
  rw [probeStep] at h
  split at h
  · cases h
  rename_i p phase hprobe
  rw [Meeting.probeLeft, Meeting.probeLeft, hprobe]
  cases phase <;> dsimp only at h <;> try split at h
  all_goals
    cases h
    exact ⟨rfl, by simp [Probe.remaining]⟩

/-- As long as one link is missing, a `probe` gets to the next thing it does. -/
theorem pending_of_probeStep {m : Meeting} {ok : Bool} (hquiet : Quiet s.toMeeting)
    (hknown : Provided uuids s.known) (h : ∃ r ∈ s.probe, r.2.Going r.1)
    (hstep : probeStep uuids s.known s.toMeeting ok = some m) : ∃ r ∈ m.probe, r.2.Going r.1 := by
  obtain ⟨⟨p, phase⟩, hmem, hgoing⟩ := h
  have hprobe : s.probe = some (p, phase) := hmem
  have hnotifying : phase.isNotifying = false := hquiet.probe _ hprobe
  have hrootfs := hquiet.rootfs
  rw [probeStep, hprobe] at hstep
  dsimp only at hstep
  cases phase with
  | parttype =>
    cases hstep
    refine ⟨_, rfl, ?_⟩
    dsimp only
    rw [if_neg hgoing]
    trivial
  | losetup => exact hgoing.elim
  | findRootfs =>
    obtain ⟨dev, hdev⟩ := findfs_isSome hknown.rootfs
    rw [hdev] at hstep
    cases hstep
    exact ⟨_, rfl, trivial⟩
  | findVerity rootfs =>
    obtain ⟨dev, hdev⟩ := findfs_isSome hknown.verity
    rw [hdev] at hstep
    cases hstep
    exact ⟨_, rfl, trivial⟩
  | lnRootfs rootfs verity =>
    have hnone : s.rootfs = none := by simpa [hprobe, Probe.isHalfway] using hrootfs
    rw [hnone] at hstep
    cases hstep
    exact ⟨_, rfl, trivial⟩
  | lnVerity verity =>
    rw [hquiet.verity] at hstep
    cases hstep
    exact ⟨_, rfl, trivial⟩
  | _ => cases hnotifying

theorem Progress.kernelStep (h : Progress uuids s) (hprovided : ∀ p ∈ s.future,
      p.partuuid = uuids.rootfs ∨ p.partuuid = uuids.verity → p.parttype ≠ eosimagesType)
    (hstep : kernelStep s = some s') : Progress uuids s' := by
  rw [Boot.kernelStep] at hstep
  split at hstep
  · cases hstep
  rename_i p future hfuture
  cases hstep
  refine ⟨fun hknown => ?_, h.killed⟩
  cases hstarted : s.init.hasStarted with
  | false => exact .inr (.inl hstarted)
  | true =>
    by_cases hneeded : p.partuuid = uuids.rootfs ∨ p.partuuid = uuids.verity
    -- The new event is one that finds the last partition.
    · refine .inr (.inr (.inl ⟨p, by simp, hprovided p ?_ hneeded⟩))
      rw [hfuture]
      exact List.mem_cons_self
    · rw [not_or] at hneeded
      have hbefore : Provided uuids s.known := by
        obtain ⟨hrootfs, hverity, himages⟩ := hknown
        simp only [List.mem_append, List.mem_singleton] at hrootfs hverity himages
        refine ⟨?_, ?_, fun q hq => himages q (.inl hq)⟩
        · obtain ⟨q, hq | rfl, hpartuuid⟩ := hrootfs
          · exact ⟨q, hq, hpartuuid⟩
          · exact absurd hpartuuid hneeded.1
        · obtain ⟨q, hq | rfl, hpartuuid⟩ := hverity
          · exact ⟨q, hq, hpartuuid⟩
          · exact absurd hpartuuid hneeded.2
      rcases h.pending hbefore with hlinked | hunstarted | ⟨q, hq, htype⟩ | hprobe
      · exact .inl hlinked
      · rw [hstarted] at hunstarted
        cases hunstarted
      · exact .inr (.inr (.inl ⟨q, by simp [hq], htype⟩))
      · exact .inr (.inr (.inr hprobe))

/-- What a step of `init` leaves alone. -/
structure InitFrame (s s' : State) : Prop where
  probe : s'.probe = s.probe
  known : s'.known = s.known
  future : s'.future = s.future
  killed : s'.killed = s.killed
  queue : s.init = .mdevd ∧ s'.init = .modprobe ∧ s'.queue = s.known ∨
    s'.init.hasStarted = s.init.hasStarted ∧ s'.queue = s.queue
  woken : s.init.isWoken = true → s'.init.isWoken = true
  remaining : s'.init.remaining < s.init.remaining

theorem initFrame_of_step (hstep : initStep s = some s') : InitFrame s s' := by
  rw [initStep] at hstep
  split at hstep
  case h_2 hinit =>
    cases hstep
    exact ⟨rfl, rfl, rfl, rfl, .inl ⟨hinit, rfl, rfl⟩, by simp [hinit, Init.isWoken],
      by simp [hinit, Init.remaining]⟩
  case h_5 hinit =>
    split at hstep
    · cases hstep
    · cases hstep
      exact ⟨rfl, rfl, rfl, rfl, .inr ⟨by rw [hinit]; rfl, rfl⟩, by simp [hinit, Init.isWoken],
        by simp [hinit, Init.remaining]⟩
  case h_4 hinit =>
    cases hstep
    refine ⟨rfl, rfl, rfl, rfl, .inr ⟨?_, rfl⟩, by simp [hinit, Init.isWoken], ?_⟩
    · dsimp only
      split <;> rw [hinit] <;> rfl
    · dsimp only
      split <;> simp [hinit, Init.remaining]
  case h_6 hinit =>
    obtain ⟨r, _, rfl⟩ := Option.map_eq_some_iff.mp hstep
    exact ⟨rfl, rfl, rfl, rfl, .inr ⟨by rw [hinit]; rfl, rfl⟩, fun _ => rfl,
      by simp [hinit, Init.remaining]⟩
  case h_7 hinit =>
    split at hstep
    all_goals
      cases hstep
      exact ⟨rfl, rfl, rfl, rfl, .inr ⟨by rw [hinit]; rfl, rfl⟩, fun _ => rfl,
        by simp [hinit, Init.remaining]⟩
  case h_8 | h_9 => cases hstep
  all_goals
    rename_i hinit
    cases hstep
    exact ⟨rfl, rfl, rfl, rfl, .inr ⟨by rw [hinit]; rfl, rfl⟩, by simp [hinit, Init.isWoken],
      by simp [hinit, Init.remaining]⟩

theorem Progress.initStep (h : Progress uuids s) (hstep : initStep s = some s') :
    Progress uuids s' := by
  have hframe := initFrame_of_step hstep
  refine ⟨fun hknown => ?_, fun hkilled => hframe.woken (h.killed (hframe.killed ▸ hkilled))⟩
  rw [hframe.known] at hknown
  rcases h.pending hknown with hlinked | hpending
  · exact .inl (hlinked.move (move_of_initStep hstep))
  · refine .inr ?_
    rcases hframe.queue with ⟨_, _, hqueue⟩ | ⟨hstarted, hqueue⟩
    · obtain ⟨p, hp, hpartuuid⟩ := hknown.rootfs
      exact .inr (.inl ⟨p, hqueue ▸ hp, hknown.images p hp (.inl hpartuuid)⟩)
    · rwa [Pending, hstarted, hqueue, hframe.probe]

theorem Progress.mdevdStep (h : Progress uuids s) (hstep : mdevdStep s = some s') :
    Progress uuids s' := by
  rw [Boot.mdevdStep] at hstep
  split at hstep
  · rename_i p queue hprobe hqueue
    split at hstep
    case isFalse => cases hstep
    cases hstep
    refine ⟨fun hknown => ?_, h.killed⟩
    rcases h.pending hknown with hlinked | hunstarted | ⟨q, hq, htype⟩ | ⟨r, hr, _⟩
    · exact .inl hlinked
    · exact .inr (.inl hunstarted)
    · rw [hqueue] at hq
      rcases List.mem_cons.mp hq with rfl | hq
      · exact .inr (.inr (.inr ⟨_, rfl, htype⟩))
      · exact .inr (.inr (.inl ⟨q, hq, htype⟩))
    · rw [hprobe] at hr
      cases hr
  · cases hstep

theorem Progress.probeStep {m : Meeting} {ok : Bool} (hstage : Stage s.toMeeting)
    (h : Progress uuids s) (hstep : probeStep uuids s.known s.toMeeting ok = some m) :
    Progress uuids { s with toMeeting := m } := by
  have hinit := (probeStep_frame hstep).1
  refine ⟨fun hknown => ?_, fun hkilled => ?_⟩
  · rcases hstage.linked_or_quiet with hlinked | hquiet
    · exact .inl (hlinked.move (move_of_probeStep hstep))
    · rcases h.pending hknown with hlinked | hunstarted | hqueue | hprobe
      · exact .inl (hlinked.move (move_of_probeStep hstep))
      · exact .inr (.inl (by rwa [hinit]))
      · exact .inr (.inr (.inl hqueue))
      · exact .inr (.inr (.inr (pending_of_probeStep hquiet hknown hprobe hstep)))
  · show m.init.isWoken = true
    rw [hinit]
    exact h.killed hkilled

theorem Progress.killStep (h : Progress uuids s) (hstep : killStep s = some s') :
    Progress uuids s' := by
  rw [Boot.killStep] at hstep
  split at hstep
  · rename_i hwoken
    cases hstep
    exact ⟨h.pending, fun _ => hwoken.1⟩
  · cases hstep

end Progress

/-! ## Every boot -/

section Main

variable {uuids : Uuids} {parts : List Part} {s s' : State}

structure Inv (uuids : Uuids) (parts : List Part) (s : State) : Prop where
  stage : Stage s.toMeeting
  labelled : Labelled uuids parts s
  progress : Provided uuids parts → Progress uuids s

theorem inv_start (known future : List Part) :
    Inv uuids (known ++ future) (start known future) :=
  ⟨stage_start known future, labelled_start known future, fun _ => progress_start known future⟩

theorem Inv.step {a : Actor} (h : Inv uuids parts s) (hstep : step uuids s a = some s') :
    Inv uuids parts s' := by
  refine ⟨stage_step h.stage hstep, h.labelled.step hstep, fun hprovided => ?_⟩
  have hprogress := h.progress hprovided
  cases a with
  | kernel =>
    exact hprogress.kernelStep
      (fun p hp => hprovided.images p ((h.labelled.mem p).mpr (.inr hp))) hstep
  | init => exact hprogress.initStep hstep
  | mdevd => exact hprogress.mdevdStep hstep
  | probe ok =>
    obtain ⟨m, hm, rfl⟩ := Option.map_eq_some_iff.mp hstep
    exact hprogress.probeStep h.stage hm
  | kill => exact hprogress.killStep hstep

/-- The events mdevd has to see to, if it is given the time. -/
def State.events (s : State) : Nat := if s.init.hasStarted then s.queue.length else s.known.length

def State.remaining (s : State) : Nat :=
  13 * s.future.length + 12 * s.events + s.probeLeft + s.init.remaining + if s.killed then 0 else 1

theorem remaining_lt_of_step {a : Actor} (hstep : step uuids s a = some s') :
    s'.remaining < s.remaining := by
  cases a with
  | kernel =>
    simp only [step, kernelStep] at hstep
    split at hstep
    · cases hstep
    rename_i p future hfuture
    cases hstep
    simp only [State.remaining, State.events, hfuture, List.length_cons]
    cases s.init.hasStarted <;> simp <;> omega
  | init =>
    have hframe := initFrame_of_step hstep
    have hevents : s'.events = s.events := by
      rcases hframe.queue with ⟨hinit, hinit', hqueue⟩ | ⟨hstarted, hqueue⟩
      · simp [State.events, hinit, hinit', hqueue, Init.hasStarted]
      · rw [State.events, State.events, hstarted, hqueue, hframe.known]
    have hleft : s'.probeLeft = s.probeLeft := by
      rw [Meeting.probeLeft, hframe.probe, Meeting.probeLeft]
    have hinit := hframe.remaining
    simp only [State.remaining, hevents, hleft, hframe.future, hframe.killed]
    omega
  | mdevd =>
    simp only [step, mdevdStep] at hstep
    split at hstep
    · rename_i p queue hprobe hqueue
      split at hstep
      case isFalse => cases hstep
      rename_i hrunning
      cases hstep
      simp only [State.remaining, State.events, Meeting.probeLeft, hprobe, hqueue, hrunning.1,
        List.length_cons, if_true, Option.map_some, Option.map_none, Option.getD_some,
        Option.getD_none, Probe.remaining]
      omega
    · cases hstep
  | probe ok =>
    obtain ⟨m, hm, rfl⟩ := Option.map_eq_some_iff.mp hstep
    obtain ⟨hinit, hleft⟩ := probeStep_frame hm
    simp only [State.remaining, State.events, hinit]
    omega
  | kill =>
    simp only [step, killStep] at hstep
    split at hstep
    · rename_i hkilled
      cases hstep
      simp [State.remaining, State.events, hkilled.2]
    · cases hstep

/-- A boot that gets nowhere is one whose partitions are missing, or were found too early. -/
structure Boots (uuids : Uuids) (parts : List Part) (s : State) : Prop where
  safe : s.init ≠ .failed
  opened : ∀ rootfs verity, s.init = .opened rootfs verity →
    Label parts uuids.rootfs rootfs ∧ Label parts uuids.verity verity
  live : Provided uuids parts → Stuck (step uuids) s →
    ((∃ rootfs verity, s.init = .opened rootfs verity) ↔ s.tooEarly = false)

theorem probe_of_stuck (h : Stuck (step uuids) s) : s.probe = none := by
  cases hprobe : s.probe with
  | none => rfl
  | some r =>
    obtain ⟨p, phase⟩ := r
    have hstuck := h (.probe true)
    simp only [step, Option.map_eq_none_iff, probeStep, hprobe] at hstuck
    cases phase <;> dsimp only at hstuck <;> try split at hstuck
    all_goals cases hstuck

theorem future_of_stuck (h : Stuck (step uuids) s) : s.future = [] := by
  cases hfuture : s.future with
  | nil => rfl
  | cons p future =>
    have hstuck := h .kernel
    simp [step, kernelStep, hfuture] at hstuck

theorem started_of_stuck (h : Stuck (step uuids) s) : s.init.hasStarted = true := by
  have hstuck := h .init
  cases hinit : s.init with
  | mkfifo => simp [step, initStep, hinit] at hstuck
  | mdevd => simp [step, initStep, hinit] at hstuck
  | _ => rfl

/-- If mdevd has nothing to do any more, the links are made. -/
theorem linked_of_stuck (h : Inv uuids parts s) (hprovided : Provided uuids parts)
    (hstuck : Stuck (step uuids) s) : Linked s.toMeeting := by
  have hprogress := h.progress hprovided
  have hprobe := probe_of_stuck hstuck
  have hstarted := started_of_stuck hstuck
  have hknown : Provided uuids s.known := by
    have hmem : ∀ p, p ∈ parts ↔ p ∈ s.known := by
      simpa [future_of_stuck hstuck] using h.labelled.mem
    obtain ⟨hrootfs, hverity, himages⟩ := hprovided
    simp only [hmem] at hrootfs hverity himages
    exact ⟨hrootfs, hverity, himages⟩
  rcases hprogress.pending hknown with hlinked | hunstarted | ⟨p, hp, _⟩ | ⟨r, hr, _⟩
  · exact hlinked
  · rw [hstarted] at hunstarted
    cases hunstarted
  · cases hkilled : s.killed with
    | false =>
      have hmdevd := hstuck .mdevd
      obtain ⟨q, queue, hqueue⟩ := List.exists_cons_of_ne_nil (List.ne_nil_of_mem hp)
      simp [step, mdevdStep, hprobe, hqueue, hstarted, hkilled] at hmdevd
    | true =>
      have hwoken := hprogress.killed hkilled
      rcases h.stage.linked_or_quiet with hlinked | hquiet
      · exact hlinked
      · have hinit := hquiet.init
        cases hi : s.init <;> simp_all [Init.isWoken, Init.Sound]
  · rw [hprobe] at hr
    cases hr

theorem notified_of_linked (h : Stage s.toMeeting) (hlinked : Linked s.toMeeting)
    (hprobe : s.probe = none) : Notified s.toMeeting := by
  cases h with
  | quiet h => simp [Linked, h.verity] at hlinked
  | notifying phase h =>
    have hphase := h.probe
    simp [hprobe] at hphase
  | notified h => exact h

/-- An `init` that has not missed the newline is not waiting. -/
theorem opened_of_stuck (h : Notified s.toMeeting) (hearly : s.tooEarly = false)
    (hstuck : Stuck (step uuids) s) : ∃ rootfs verity, s.init = .opened rootfs verity := by
  have hinit := h.init
  rw [hearly] at hinit
  obtain ⟨hsound, hcome⟩ := hinit
  have hstep := hstuck .init
  simp only [step, initStep] at hstep
  cases hi : s.init with
  | opening seen =>
    rw [hi] at hsound hstep
    have hseen : seen = 0 := hsound
    simp [hseen, h.writersEver] at hstep
  | head =>
    obtain ⟨r, hr⟩ : ∃ r, s.poll.read 1 = some r := Fifo.read_of_closed h.writers
    simp [hi, hr] at hstep
  | veritysetup =>
    simp only [hi] at hstep
    split at hstep <;> cases hstep
  | opened rootfs verity => exact ⟨rootfs, verity, rfl⟩
  | failed => simp [hi, Init.Sound] at hsound
  | _ => simp [hi, Init.hasCome] at hcome

theorem Inv.boots (h : Inv uuids parts s) : Boots uuids parts s := by
  refine ⟨fun hfailed => ?_, h.labelled.opened, fun hprovided hstuck => ?_⟩
  · cases h.stage with
    | quiet h => exact absurd h.init (by simp [hfailed, Init.Sound])
    | notifying phase h => exact absurd h.init (by simp [hfailed, Init.Sound])
    | notified h =>
      have hinit := h.init
      rw [hfailed] at hinit
      cases hearly : s.tooEarly <;> simp [hearly, Init.Sound, Init.Lost, Init.hasCome] at hinit
  · have hnotified := notified_of_linked h.stage (linked_of_stuck h hprovided hstuck)
      (probe_of_stuck hstuck)
    refine ⟨fun hopened => ?_, fun hearly => opened_of_stuck hnotified hearly hstuck⟩
    obtain ⟨rootfs, verity, hinit⟩ := hopened
    exact (hnotified.sound_of_woken (by rw [hinit]; rfl) (by simp [hinit])).1

/-- **Every interleaving of `init`, mdevd with its `probe`s, and a kernel** that finds the
partitions `future` when it likes. The script does not fail; what it opens are partitions with the
labels; if both are there, and are not taken for partitions of images, then a boot that cannot go on
has opened them exactly if no `probe` was done with the pipe too early; and every boot gets that
far. -/
theorem boot_finds (uuids : Uuids) (known future : List Part) {sched : List Actor}
    (h : run (step uuids) (start known future) sched = some s) :
    Boots uuids (known ++ future) s ∧
      sched.length ≤ 8 + 12 * known.length + 13 * future.length := by
  have hinv : ∀ {s a s'}, Inv uuids (known ++ future) s → step uuids s a = some s' →
      Inv uuids (known ++ future) s' := fun hs hstep => hs.step hstep
  have hstart : Inv uuids (known ++ future) (start known future) := inv_start known future
  refine ⟨(run_invariant hinv hstart h).boots, ?_⟩
  have hlen := length_le_of_run State.remaining hinv
    (fun _ hstep => remaining_lt_of_step hstep) hstart h
  have hall : (start known future).remaining = 8 + 12 * known.length + 13 * future.length := by
    simp only [State.remaining, State.events, Meeting.probeLeft, start, Init.hasStarted,
      Init.remaining, Option.map_none, Option.getD_none, Bool.false_eq_true, if_false]
    omega
  rwa [hall] at hlen

/-- Two partitions, and the labels they have. -/
def bootUuids : Uuids := ⟨[1], [2]⟩

def bootParts : List Part := [⟨[11], [1], []⟩, ⟨[12], [2], []⟩]

theorem provided_bootParts : Provided bootUuids bootParts := by
  refine ⟨⟨_, .head _, rfl⟩, ⟨_, .tail _ (.head _), rfl⟩, ?_⟩
  intro p hp _
  simp only [bootParts, List.mem_cons, List.not_mem_nil, or_false] at hp
  rcases hp with rfl | rfl <;> decide

/-- The partitions turn up when `init` is waiting, and it opens them. Or both are there before
`init` is, and the only newline is written before anybody reads: the links are made, and `init`
waits at the pipe for ever. -/
theorem boot_finds_either_way :
    let inTime : List Actor := List.replicate 4 .init ++ [.kernel, .kernel, .mdevd] ++
      List.replicate 8 (.probe true) ++ List.replicate 3 .init ++ [.kill]
    let tooEarly : List Actor := [.init, .init, .mdevd] ++ List.replicate 10 (.probe true) ++
      [.mdevd] ++ List.replicate 4 (.probe true) ++ [.init, .init]
    (∃ s, run (step bootUuids) (start [] bootParts) inTime = some s ∧ Stuck (step bootUuids) s ∧
      ∃ rootfs verity, s.init = .opened rootfs verity) ∧
    ∃ s, run (step bootUuids) (start bootParts []) tooEarly = some s ∧ Stuck (step bootUuids) s ∧
      ¬ ∃ rootfs verity, s.init = .opened rootfs verity := by
  intro inTime tooEarly
  constructor
  · let s : State :=
      { probe := none, rootfs := some [11], verity := some [12], poll := ⟨0, 0, 1, 1, []⟩
        init := .opened [11] [12], tooEarly := false, future := [], known := bootParts
        queue := [⟨[12], [2], []⟩], killed := true }
    have hrun : run (step bootUuids) (start [] bootParts) inTime = some s := rfl
    have hstuck : Stuck (step bootUuids) s := fun a => by cases a <;> rfl
    exact ⟨s, hrun, hstuck, ((boot_finds _ _ _ hrun).1.live provided_bootParts hstuck).mpr rfl⟩
  · let s : State :=
      { probe := none, rootfs := some [11], verity := some [12], poll := ⟨1, 0, 2, 1, []⟩
        init := .opening 1, tooEarly := true, future := [], known := bootParts, queue := []
        killed := false }
    have hrun : run (step bootUuids) (start bootParts []) tooEarly = some s := rfl
    have hstuck : Stuck (step bootUuids) s := fun a => by cases a <;> rfl
    refine ⟨s, hrun, hstuck, fun hopened => ?_⟩
    cases ((boot_finds _ _ _ hrun).1.live provided_bootParts hstuck).mp hopened

end Main

end Spectrum.Image.Boot
