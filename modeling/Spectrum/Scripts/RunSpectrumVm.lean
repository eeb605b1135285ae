import Mathlib.Logic.Function.Basic
import Spectrum.Interact.Schedule

/-!
# `run-spectrum-vm`

`scripts/run-spectrum-vm.c` runs a VM in a temporary directory, and two more processes go with it:
virtiofsd, which is to end with the VM, and the exit listener, which is to remove the directory
when everything else has ended, however that came about. Nobody waits for anybody. virtiofsd has the
kernel send it SIGTERM when its parent dies, and has to see to it that the parent is not dead by
then; the exit listener polls the write end of a pipe, and POLLERR is what it gets when no process
has the read end any more.

This is the model of the three processes, and what holds in every state that it can come to
(`Inv`). The main process is a reader of the pipe until virtiofsd is one too. What comes after that
depends on the descriptors the program was started with: the main process puts `/dev/null` at
descriptor 3, and that is where the read end of the pipe is unless something else was there from
the start.

The main process becomes `start-vmm`, and that becomes cloud-hypervisor. What they start has their
descriptors. A call that fails ends its process, but for the exit listener's `signal`. A `poll` that
is interrupted is done again, and no step.
-/

set_option autoImplicit false

namespace Spectrum.Scripts.RunSpectrumVm

open Schedule

/-! ## Descriptors -/

inductive Desc
  | inherited
  | readEnd
  | writeEnd
  | file (cloexec : Bool)
  deriving DecidableEq

/-- The descriptors of a process. -/
abbrev Table := Nat → Option Desc

section
variable (limit : Nat)

/-- The lowest descriptor that is free. -/
def lowest (t : Table) : Option Nat := (List.range limit).find? fun i => (t i).isNone

/-- `open`, or one half of `pipe`: the new table and the descriptor. -/
def allocate (t : Table) (d : Desc) : Option (Table × Nat) :=
  (lowest limit t).map fun i => (Function.update t i (some d), i)

def close (t : Table) (fd : Nat) : Table := Function.update t fd none

def dup2 (t : Table) (fd new : Nat) : Table := Function.update t new (t fd)

def exec (t : Table) : Table := fun i => if t i = some (.file true) then none else t i

/-- The process is a reader of the pipe. -/
def Reads (t : Table) : Prop := ∃ i < limit, t i = some .readEnd

instance (t : Table) : Decidable (Reads limit t) := inferInstanceAs (Decidable (∃ _ < _, _))

/-! ## The processes -/

/-- The calls of `main` that have to do with nothing but files, mounts and the main process. -/
inductive Call
  | chdir (path : String)
  | mkdir (path : String)
  | create (path : String)
  | symlink (target path : String)
  | openPath (path : String)
  | unshare
  | bindMount (source target : String)
  | chroot (path : String)
  deriving DecidableEq

/-- From the exit listener to virtiofsd. -/
def setupCalls : List Call :=
  [.chdir "dir_path", .mkdir "bin", .mkdir "dev", .mkdir "nix", .mkdir "proc", .mkdir "run",
    .mkdir "vm-fs-virtiofs0", .mkdir "vm-fs-virtiofs0/env", .mkdir "vm",
    .create "bin/cloud-hypervisor", .chdir "vm", .mkdir "env", .mkdir "data",
    .symlink "CONFIG_PATH" "data/config", .symlink "APPVM_PATH" "../usr"]

/-- From `/dev/null` to `start-vmm`. -/
def enterCalls : List Call :=
  [.openPath "START_VMM_PATH", .unshare,
    .bindMount "CLOUD_HYPERVISOR_PATH" "../bin/cloud-hypervisor", .bindMount "/dev" "../dev",
    .bindMount "/nix" "../nix", .bindMount "/proc" "../proc", .chroot "dir_path"]

/-- What a call does to the descriptors, unless there are too many of them. -/
def Call.descriptors (t : Table) : Call → Option Table
  | .create _ | .openPath _ => (allocate limit t (.file true)).map Prod.fst
  | _ => some t

/-- How far `main` has got. -/
inductive Main
  | mkdtemp
  | pipe
  | forkListener
  | closeWrite
  /-- What is left of `setupCalls`, and then virtiofsd is started. -/
  | setup (rest : List Call)
  | openNull
  | dup2
  | closeNull
  /-- What is left of `enterCalls`, and then it is `fexecve`. -/
  | enter (rest : List Call)
  | vmm
  | dead
  deriving DecidableEq

def Main.stage : Main → Nat
  | .mkdtemp => 0
  | .pipe => 1
  | .forkListener => 2
  | .closeWrite => 3
  | .setup _ => 4
  | .openNull => 5
  | .dup2 => 6
  | .closeNull => 7
  | .enter _ => 8
  | .vmm => 9
  | .dead => 10

/-- How far `exit_listener_main` has got. -/
inductive Listener
  | none
  | close
  | sigint
  | sigterm
  | poll
  | rm
  | done
  /-- One of its own calls has failed. -/
  | failed
  | killed
  deriving DecidableEq

/-- It has seen the pipe without readers. -/
def Listener.Removing (l : Listener) : Prop := l = .rm ∨ l = .done

/-- It has been started, and has not ended before it has removed the directory. -/
def Listener.Lives (l : Listener) : Prop := l ≠ .none ∧ l ≠ .failed ∧ l ≠ .killed

instance (l : Listener) : Decidable l.Lives := inferInstanceAs (Decidable (_ ∧ _))

/-- How far the child of `spawn_virtiofsd` has got. -/
inductive Virtiofsd
  | none
  | prctl
  | getppid
  | sigemptyset
  | sigaddset
  | sigprocmask
  | execv
  | running
  | dead
  deriving DecidableEq

def Virtiofsd.Alive (v : Virtiofsd) : Prop := v ≠ .none ∧ v ≠ .dead

instance (v : Virtiofsd) : Decidable v.Alive := inferInstanceAs (Decidable (_ ∧ _))

/-- It gets SIGTERM when its parent dies. -/
def Virtiofsd.armed : Virtiofsd → Bool
  | .none | .prctl | .dead => false
  | _ => true

def Virtiofsd.blocksSigint : Virtiofsd → Bool
  | .execv | .running => true
  | _ => false

structure State where
  dir : Bool
  main : Main
  table : Table
  /-- The array `fd` of `exit_listener_setup`. -/
  pipeFd : Nat × Nat
  /-- The variable `fd` of `main`. -/
  fd : Nat
  listener : Listener
  /-- The exit listener ignores SIGINT. -/
  ignoring : Bool
  virtiofsd : Virtiofsd
  virtiofsdTable : Table
  /-- SIGTERM is on its way to virtiofsd. -/
  term : Bool
  /-- The processes that the VMM has started. -/
  others : Nat

/-- The main process ends. -/
def State.die (s : State) : State :=
  { s with main := .dead, term := s.term || s.virtiofsd.armed }

/-- No process has the read end of the pipe. -/
def State.Unread (s : State) : Prop :=
  (s.main ≠ .dead → ¬ Reads limit s.table) ∧ s.listener ≠ .close ∧
    (s.virtiofsd.Alive → ¬ Reads limit s.virtiofsdTable) ∧
    (s.others ≠ 0 → ¬ Reads limit s.table)

instance (s : State) : Decidable (s.Unread limit) := inferInstanceAs (Decidable (_ ∧ _))

/-- The next call of the main process. -/
def State.mainCall (s : State) : Option State :=
  match s.main with
  | .mkdtemp => some { s with dir := true, main := .pipe }
  | .pipe =>
    (allocate limit s.table .readEnd).bind fun r =>
      (allocate limit r.1 .writeEnd).map fun w =>
        { s with table := w.1, pipeFd := (r.2, w.2), main := .forkListener }
  | .forkListener => some { s with listener := .close, main := .closeWrite }
  | .closeWrite => some { s with table := close s.table s.pipeFd.2, main := .setup setupCalls }
  | .setup (c :: rest) =>
    (c.descriptors limit s.table).map fun t => { s with table := t, main := .setup rest }
  | .setup [] =>
    some { s with virtiofsd := .prctl, virtiofsdTable := s.table, main := .openNull }
  | .openNull =>
    (allocate limit s.table (.file false)).map fun n =>
      { s with table := n.1, fd := n.2, main := .dup2 }
  | .dup2 => some { s with table := dup2 s.table s.fd 3, main := .closeNull }
  | .closeNull =>
    some { s with
      table := if s.fd = 3 then s.table else close s.table s.fd
      main := .enter enterCalls }
  | .enter (c :: rest) =>
    (c.descriptors limit s.table).map fun t => { s with table := t, main := .enter rest }
  | .enter [] => some { s with table := exec s.table, main := .vmm }
  | .vmm | .dead => none

/-- The exit listener, where `ok` says whether its next call succeeds. -/
def State.listenerStep (s : State) (ok : Bool) : Option State :=
  match s.listener with
  | .close => some { s with listener := .sigint }
  | .sigint => some { s with listener := .sigterm, ignoring := ok }
  | .sigterm => some { s with listener := .poll }
  | .poll =>
    if ok = false then some { s with listener := .failed }
    else if s.Unread limit then some { s with listener := .rm } else none
  | .rm =>
    some (if ok then { s with listener := .done, dir := false } else { s with listener := .failed })
  | .none | .done | .failed | .killed => none

/-- virtiofsd, where `ok` says whether its next call succeeds. -/
def State.virtiofsdStep (s : State) (ok : Bool) : Option State :=
  if s.virtiofsd.Alive ∧ s.term then some { s with virtiofsd := .dead }
  else match s.virtiofsd with
  | .prctl => some { s with virtiofsd := if ok then .getppid else .dead }
  | .getppid => some { s with virtiofsd := if s.main = .dead then .dead else .sigemptyset }
  | .sigemptyset => some { s with virtiofsd := if ok then .sigaddset else .dead }
  | .sigaddset => some { s with virtiofsd := if ok then .sigprocmask else .dead }
  | .sigprocmask => some { s with virtiofsd := if ok then .execv else .dead }
  | .execv => some { s with virtiofsd := if ok then .running else .dead }
  | .none | .running | .dead => none

/-- Who goes next, and whether the call succeeds. The exit listener's do. -/
inductive Inner
  | main (ok : Bool)
  | listener
  | virtiofsd (ok : Bool)
  deriving DecidableEq

def inner (s : State) : Inner → Option State
  | .main ok =>
    if s.main = .vmm ∨ s.main = .dead then none
    else some (if ok then (s.mainCall limit).getD s.die else s.die)
  | .listener => s.listenerStep limit true
  | .virtiofsd ok => s.virtiofsdStep ok

/-- What can happen at any time. -/
inductive Outer
  /-- The main process ends, or is killed. -/
  | stop
  | virtiofsdStop
  /-- A call of the exit listener fails. -/
  | listenerFail
  /-- The VMM starts a process. -/
  | fork
  /-- A process that the VMM has started ends. -/
  | otherStop
  /-- SIGINT, to all of them. The VMM does with it what it likes. -/
  | sigint
  deriving DecidableEq

def outer (s : State) : Outer → Option State
  | .stop => if s.main = .dead then none else some s.die
  | .virtiofsdStop => if s.virtiofsd.Alive then some { s with virtiofsd := .dead } else none
  | .listenerFail => s.listenerStep limit false
  | .fork => if s.main = .vmm then some { s with others := s.others + 1 } else none
  | .otherStop => if s.others = 0 then none else some { s with others := s.others - 1 }
  | .sigint =>
    let t := if s.main = .vmm ∨ s.main = .dead then s else s.die
    some { t with
      listener :=
        if s.listener.Lives ∧ s.listener ≠ .done ∧ s.ignoring = false then .killed else s.listener
      virtiofsd :=
        if s.virtiofsd.Alive ∧ s.virtiofsd.blocksSigint = false then .dead else s.virtiofsd }

def step (s : State) : Inner ⊕ Outer → Option State
  | .inl a => inner limit s a
  | .inr a => outer limit s a

/-- With these descriptors from the start. -/
def start (inherited : Nat → Bool) : State where
  dir := false
  main := .mkdtemp
  table i := if inherited i then some .inherited else none
  pipeFd := (0, 0)
  fd := 0
  listener := .none
  ignoring := false
  virtiofsd := .none
  virtiofsdTable _ := none
  term := false
  others := 0

end

/-! ## What holds at any time -/

variable {limit : Nat} {inherited : Nat → Bool} {s s' : State}

theorem allocate_eq_some {t t' : Table} {d : Desc} {fd : Nat}
    (h : allocate limit t d = some (t', fd)) :
    t fd = none ∧ fd < limit ∧ t' = Function.update t fd (some d) := by
  obtain ⟨i, hi, heq⟩ := Option.map_eq_some_iff.mp h
  obtain ⟨rfl, rfl⟩ := Prod.mk.inj heq
  have hmem := List.mem_of_find?_eq_some hi
  have hnone := List.find?_some hi
  exact ⟨by simpa using hnone, by simpa using hmem, rfl⟩

/-- A call leaves the read end where it is, and makes no other one. -/
theorem Call.descriptors_eq {t t' : Table} {c : Call} (h : c.descriptors limit t = some t')
    (i : Nat) : t' i = some .readEnd ↔ t i = some .readEnd := by
  have hfile : ∀ {t'}, (allocate limit t (.file true)).map Prod.fst = some t' →
      (t' i = some .readEnd ↔ t i = some .readEnd) := by
    intro t' h
    obtain ⟨⟨u, fd⟩, hu, rfl⟩ := Option.map_eq_some_iff.mp h
    obtain ⟨hnone, _, rfl⟩ := allocate_eq_some hu
    by_cases hi : i = fd
    · subst hi
      simp [hnone]
    · simp [hi]
  cases c
  case create => exact hfile h
  case openPath => exact hfile h
  all_goals
    cases h
    rfl

/-- The main process is a reader. -/
def State.Reading (limit : Nat) (s : State) : Prop :=
  s.pipeFd.1 < limit ∧ s.table s.pipeFd.1 = some .readEnd

theorem State.Reading.reads (h : s.Reading limit) : Reads limit s.table := ⟨_, h⟩

structure Inv (limit : Nat) (inherited : Nat → Bool) (s : State) : Prop where
  fresh : s.main.stage ≤ 1 → ∀ i, inherited i = true → s.table i ≠ none
  unwatched : s.main.stage ≤ 2 → s.listener = .none
  unserved : s.main.stage ≤ 4 → s.virtiofsd = .none
  alone : s.main.stage ≤ 8 → s.others = 0
  reading : 2 ≤ s.main.stage → s.main.stage ≤ 6 → s.Reading limit
  apart : 2 ≤ s.main.stage → s.main.stage ≤ 3 → s.pipeFd.2 ≠ s.pipeFd.1
  null : 6 ≤ s.main.stage → s.main.stage ≤ 7 → s.fd ≠ s.pipeFd.1
  /-- It stays a reader if there was something else at descriptor 3. -/
  kept : inherited 3 = true → 2 ≤ s.main.stage ∧ s.main.stage ≤ 9 ∨ s.others ≠ 0 →
    s.Reading limit ∧ s.pipeFd.1 ≠ 3
  serving : s.virtiofsd.Alive → Reads limit s.virtiofsdTable
  /-- When the parent dies, virtiofsd is told or has yet to ask. -/
  orphan : s.main = .dead → s.virtiofsd.Alive →
    s.term = true ∨ s.virtiofsd = .prctl ∨ s.virtiofsd = .getppid
  removing : s.listener.Removing → s.Unread limit
  gone : s.listener = .done → s.dir = false

theorem inv_start : Inv limit inherited (start inherited) where
  fresh _ i hi := by simp [start, hi]
  unwatched _ := rfl
  unserved _ := rfl
  alone _ := rfl
  reading h _ := absurd h (Nat.not_succ_le_zero 1)
  apart h _ := absurd h (Nat.not_succ_le_zero 1)
  null h _ := absurd h (Nat.not_succ_le_zero 5)
  kept _ h := by simp [start, Main.stage] at h
  serving h := absurd rfl h.1
  orphan h := by cases h
  removing h := by simp [Listener.Removing, start] at h
  gone h := by cases h

/-- While the main process is a reader, or before it has started the listener, nothing is
removed. -/
theorem Inv.not_removing (h : Inv limit inherited s) (hs : s.main.stage ≤ 6) :
    ¬ s.listener.Removing := by
  intro hl
  by_cases hw : s.main.stage ≤ 2
  · simp [Listener.Removing, h.unwatched hw] at hl
  · have hm : s.main ≠ .dead := by
      intro hd
      rw [hd] at hs
      exact absurd hs (by decide)
    exact (h.removing hl).1 hm (h.reading (by omega) hs).reads

/-! ## The main process -/

theorem Virtiofsd.armed_of_alive {v : Virtiofsd} (h : v.Alive) (hp : v ≠ .prctl) :
    v.armed = true := by
  cases v
  case none => exact absurd rfl h.1
  case dead => exact absurd rfl h.2
  case prctl => exact absurd rfl hp
  all_goals rfl

theorem Inv.die (h : Inv limit inherited s) : Inv limit inherited s.die where
  fresh hs := absurd hs (by simp [State.die, Main.stage])
  unwatched hs := absurd hs (by simp [State.die, Main.stage])
  unserved hs := absurd hs (by simp [State.die, Main.stage])
  alone hs := absurd hs (by simp [State.die, Main.stage])
  reading _ hs := absurd hs (by simp [State.die, Main.stage])
  apart _ hs := absurd hs (by simp [State.die, Main.stage])
  null _ hs := absurd hs (by simp [State.die, Main.stage])
  kept h3 hs := by
    have hothers : s.others ≠ 0 := hs.resolve_left (by simp [State.die, Main.stage])
    exact h.kept h3 (.inr hothers)
  serving := h.serving
  orphan _ hv := by
    by_cases hp : s.virtiofsd = .prctl
    · exact .inr (.inl hp)
    · have harmed : s.virtiofsd.armed = true := Virtiofsd.armed_of_alive hv hp
      exact .inl (by simp [State.die, harmed])
  removing hl := ⟨fun hne => absurd rfl hne, (h.removing hl).2⟩
  gone := h.gone

theorem Inv.mkdtemp (h : Inv limit inherited s) (hm : s.main = .mkdtemp) :
    Inv limit inherited { s with dir := true, main := .pipe } where
  fresh _ := h.fresh (by simp [hm, Main.stage])
  unwatched _ := h.unwatched (by simp [hm, Main.stage])
  unserved _ := h.unserved (by simp [hm, Main.stage])
  alone _ := h.alone (by simp [hm, Main.stage])
  reading hs := by simp [Main.stage] at hs
  apart hs := by simp [Main.stage] at hs
  null hs := by simp [Main.stage] at hs
  kept _ hs := by simp [Main.stage, h.alone (by simp [hm, Main.stage])] at hs
  serving := h.serving
  orphan hd := by cases hd
  removing hl := absurd hl (h.not_removing (by simp [hm, Main.stage]))
  gone hl := by simp [h.unwatched (by simp [hm, Main.stage])] at hl

theorem Inv.pipe {r w : Table × Nat} (h : Inv limit inherited s) (hm : s.main = .pipe)
    (hr : allocate limit s.table .readEnd = some r) (hw : allocate limit r.1 .writeEnd = some w) :
    Inv limit inherited { s with table := w.1, pipeFd := (r.2, w.2), main := .forkListener } := by
  obtain ⟨hfree, hbound, hr⟩ := allocate_eq_some hr
  obtain ⟨hfree', _, hw⟩ := allocate_eq_some hw
  have hne : w.2 ≠ r.2 := by
    rintro he
    simp [hr, he] at hfree'
  have hreading : w.1 r.2 = some .readEnd := by
    rw [hw, Function.update_of_ne hne.symm, hr, Function.update_self]
  constructor
  case fresh => exact fun hs => by simp [Main.stage] at hs
  case unwatched => exact fun _ => h.unwatched (by simp [hm, Main.stage])
  case unserved => exact fun _ => h.unserved (by simp [hm, Main.stage])
  case alone => exact fun _ => h.alone (by simp [hm, Main.stage])
  case reading => exact fun _ _ => ⟨hbound, hreading⟩
  case apart => exact fun _ _ => hne
  case null => exact fun hs => by simp [Main.stage] at hs
  case kept =>
    intro h3 _
    refine ⟨⟨hbound, hreading⟩, fun he => ?_⟩
    exact h.fresh (by simp [hm, Main.stage]) 3 h3 (he ▸ hfree)
  case serving => exact h.serving
  case orphan => exact fun hd => by cases hd
  case removing => exact fun hl => absurd hl (h.not_removing (by simp [hm, Main.stage]))
  case gone => exact h.gone

theorem Inv.forkListener (h : Inv limit inherited s) (hm : s.main = .forkListener) :
    Inv limit inherited { s with listener := .close, main := .closeWrite } where
  fresh hs := by simp [Main.stage] at hs
  unwatched hs := by simp [Main.stage] at hs
  unserved _ := h.unserved (by simp [hm, Main.stage])
  alone _ := h.alone (by simp [hm, Main.stage])
  reading _ _ := h.reading (by simp [hm, Main.stage]) (by simp [hm, Main.stage])
  apart _ _ := h.apart (by simp [hm, Main.stage]) (by simp [hm, Main.stage])
  null hs := by simp [Main.stage] at hs
  kept h3 _ := h.kept h3 (.inl (by simp [hm, Main.stage]))
  serving := h.serving
  orphan hd := by cases hd
  removing hl := by simp [Listener.Removing] at hl
  gone hl := by cases hl

/-- The calls between the listener and virtiofsd leave the read end where it is. -/
theorem Inv.setup {rest : List Call} {t : Table} (h : Inv limit inherited s)
    (hs : s.main.stage = 3 ∨ s.main.stage = 4)
    (hkeep : s.table s.pipeFd.1 = some .readEnd → t s.pipeFd.1 = some .readEnd) :
    Inv limit inherited { s with table := t, main := .setup rest } where
  fresh hs := by simp [Main.stage] at hs
  unwatched hs := by simp [Main.stage] at hs
  unserved _ := h.unserved (by omega)
  alone _ := h.alone (by omega)
  reading _ _ :=
    have hr := h.reading (by omega) (by omega)
    ⟨hr.1, hkeep hr.2⟩
  apart _ hs := by simp [Main.stage] at hs
  null hs := by simp [Main.stage] at hs
  kept h3 _ :=
    have hk := h.kept h3 (.inl (by omega))
    ⟨⟨hk.1.1, hkeep hk.1.2⟩, hk.2⟩
  serving := h.serving
  orphan hd := by cases hd
  removing hl := absurd hl (h.not_removing (by omega))
  gone := h.gone

theorem Inv.forkVirtiofsd {rest : List Call} (h : Inv limit inherited s)
    (hm : s.main = .setup rest) :
    Inv limit inherited { s with
      virtiofsd := .prctl, virtiofsdTable := s.table, main := .openNull } where
  fresh hs := by simp [Main.stage] at hs
  unwatched hs := by simp [Main.stage] at hs
  unserved hs := by simp [Main.stage] at hs
  alone _ := h.alone (by simp [hm, Main.stage])
  reading _ _ := h.reading (by simp [hm, Main.stage]) (by simp [hm, Main.stage])
  apart _ hs := by simp [Main.stage] at hs
  null hs := by simp [Main.stage] at hs
  kept h3 _ := h.kept h3 (.inl (by simp [hm, Main.stage]))
  serving _ := (h.reading (by simp [hm, Main.stage]) (by simp [hm, Main.stage])).reads
  orphan hd := by cases hd
  removing hl := absurd hl (h.not_removing (by simp [hm, Main.stage]))
  gone := h.gone

theorem Inv.openNull {n : Table × Nat} (h : Inv limit inherited s) (hm : s.main = .openNull)
    (hn : allocate limit s.table (.file false) = some n) :
    Inv limit inherited { s with table := n.1, fd := n.2, main := .dup2 } := by
  obtain ⟨hfree, _, hn⟩ := allocate_eq_some hn
  have hr := h.reading (by simp [hm, Main.stage]) (by simp [hm, Main.stage])
  have hne : n.2 ≠ s.pipeFd.1 := by
    intro he
    rw [he, hr.2] at hfree
    cases hfree
  have hr' : s.pipeFd.1 < limit ∧ n.1 s.pipeFd.1 = some .readEnd :=
    ⟨hr.1, by rw [hn, Function.update_of_ne hne.symm, hr.2]⟩
  constructor
  case fresh => exact fun hs => by simp [Main.stage] at hs
  case unwatched => exact fun hs => by simp [Main.stage] at hs
  case unserved => exact fun hs => by simp [Main.stage] at hs
  case alone => exact fun _ => h.alone (by simp [hm, Main.stage])
  case reading => exact fun _ _ => hr'
  case apart => exact fun _ hs => by simp [Main.stage] at hs
  case null => exact fun _ _ => hne
  case kept => exact fun h3 _ => ⟨hr', (h.kept h3 (.inl (by simp [hm, Main.stage]))).2⟩
  case serving => exact h.serving
  case orphan => exact fun hd => by cases hd
  case removing => exact fun hl => absurd hl (h.not_removing (by simp [hm, Main.stage]))
  case gone => exact h.gone

/-- Whatever is at descriptor 3 is closed. -/
theorem Inv.dup2 (h : Inv limit inherited s) (hm : s.main = .dup2) :
    Inv limit inherited
      { s with table := RunSpectrumVm.dup2 s.table s.fd 3, main := .closeNull } where
  fresh hs := by simp [Main.stage] at hs
  unwatched hs := by simp [Main.stage] at hs
  unserved hs := by simp [Main.stage] at hs
  alone _ := h.alone (by simp [hm, Main.stage])
  reading _ hs := by simp [Main.stage] at hs
  apart _ hs := by simp [Main.stage] at hs
  null _ _ := h.null (by simp [hm, Main.stage]) (by simp [hm, Main.stage])
  kept h3 _ := by
    have hk := h.kept h3 (.inl (by simp [hm, Main.stage]))
    refine ⟨⟨hk.1.1, ?_⟩, hk.2⟩
    exact (Function.update_of_ne hk.2 ..).trans hk.1.2
  serving := h.serving
  orphan hd := by cases hd
  removing hl := absurd hl (h.not_removing (by simp [hm, Main.stage]))
  gone := h.gone

/-- From there to the VMM, nothing but a read end that is left stays. -/
theorem Inv.enter {m : Main} {t : Table} (h : Inv limit inherited s)
    (hs : s.main.stage = 7 ∨ s.main.stage = 8) (hm : m.stage = 8 ∨ m.stage = 9)
    (hkeep : s.table s.pipeFd.1 = some .readEnd → t s.pipeFd.1 = some .readEnd)
    (hnew : ∀ i, t i = some .readEnd → s.table i = some .readEnd) :
    Inv limit inherited { s with table := t, main := m } := by
  have halive : s.main ≠ .dead := fun hd => by simp [hd, Main.stage] at hs
  constructor
  case fresh => intro (hs : m.stage ≤ 1); omega
  case unwatched => intro (hs : m.stage ≤ 2); omega
  case unserved => intro (hs : m.stage ≤ 4); omega
  case alone => exact fun _ => h.alone (by omega)
  case reading => intro _ (hs : m.stage ≤ 6); omega
  case apart => intro _ (hs : m.stage ≤ 3); omega
  case null => intro _ (hs : m.stage ≤ 7); omega
  case kept =>
    intro h3 _
    have hk := h.kept h3 (.inl (by omega))
    exact ⟨⟨hk.1.1, hkeep hk.1.2⟩, hk.2⟩
  case serving => exact h.serving
  case orphan =>
    intro (hd : m = .dead)
    simp [hd, Main.stage] at hm
  case removing =>
    intro hl
    have hu := h.removing hl
    have hno : ¬ Reads limit t := by
      rintro ⟨i, hi, ht⟩
      exact hu.1 halive ⟨i, hi, hnew i ht⟩
    exact ⟨fun _ => hno, hu.2.1, hu.2.2.1, fun _ => hno⟩
  case gone => exact h.gone

theorem Inv.mainCall (h : Inv limit inherited s) (hcall : s.mainCall limit = some s') :
    Inv limit inherited s' := by
  unfold State.mainCall at hcall
  split at hcall
  case h_1 hm =>
    cases hcall
    exact h.mkdtemp hm
  case h_2 hm =>
    obtain ⟨r, hr, hcall⟩ := Option.bind_eq_some_iff.mp hcall
    obtain ⟨w, hw, rfl⟩ := Option.map_eq_some_iff.mp hcall
    exact h.pipe hm hr hw
  case h_3 hm =>
    cases hcall
    exact h.forkListener hm
  case h_4 hm =>
    cases hcall
    refine h.setup (.inl (by simp [hm, Main.stage])) fun hr => ?_
    have hne := h.apart (by simp [hm, Main.stage]) (by simp [hm, Main.stage])
    exact (Function.update_of_ne hne.symm ..).trans hr
  case h_5 c rest hm =>
    obtain ⟨t, ht, rfl⟩ := Option.map_eq_some_iff.mp hcall
    exact h.setup (.inr (by simp [hm, Main.stage])) (Call.descriptors_eq ht _).mpr
  case h_6 hm =>
    cases hcall
    exact h.forkVirtiofsd hm
  case h_7 hm =>
    obtain ⟨n, hn, rfl⟩ := Option.map_eq_some_iff.mp hcall
    exact h.openNull hm hn
  case h_8 hm =>
    cases hcall
    exact h.dup2 hm
  case h_9 hm =>
    cases hcall
    have hne := h.null (by simp [hm, Main.stage]) (by simp [hm, Main.stage])
    refine h.enter (.inl (by simp [hm, Main.stage])) (.inl rfl) (fun hr => ?_) fun i hi => ?_
    · split
      · exact hr
      · exact (Function.update_of_ne hne.symm ..).trans hr
    · split at hi
      · exact hi
      · by_cases hfd : i = s.fd
        · simp [close, hfd] at hi
        · rwa [close, Function.update_of_ne hfd] at hi
  case h_10 c rest hm =>
    obtain ⟨t, ht, rfl⟩ := Option.map_eq_some_iff.mp hcall
    exact h.enter (.inr (by simp [hm, Main.stage])) (.inl rfl) (Call.descriptors_eq ht _).mpr
      fun i => (Call.descriptors_eq ht i).mp
  case h_11 hm =>
    cases hcall
    refine h.enter (.inr (by simp [hm, Main.stage])) (.inr rfl) (fun hr => ?_) fun i hi => ?_
    · simp [exec, hr]
    · unfold exec at hi
      split at hi
      · cases hi
      · exact hi
  case h_12 => cases hcall
  case h_13 => cases hcall

/-! ## The other processes, and what happens to them -/

theorem Inv.listener {l : Listener} {dir ignoring : Bool} (h : Inv limit inherited s)
    (hl : s.listener ≠ .none) (hremoving : l.Removing → s.Unread limit) (hclose : l ≠ .close)
    (hgone : l = .done → dir = false) :
    Inv limit inherited { s with listener := l, dir, ignoring } where
  fresh := h.fresh
  unwatched hs := absurd (h.unwatched hs) hl
  unserved := h.unserved
  alone := h.alone
  reading := h.reading
  apart := h.apart
  null := h.null
  kept := h.kept
  serving := h.serving
  orphan := h.orphan
  removing hr :=
    have hu := hremoving hr
    ⟨hu.1, hclose, hu.2.2⟩
  gone := hgone

theorem Inv.listenerStep {ok : Bool} (h : Inv limit inherited s)
    (hstep : s.listenerStep limit ok = some s') : Inv limit inherited s' := by
  unfold State.listenerStep at hstep
  split at hstep
  case h_4 hl =>
    split at hstep
    · cases hstep
      exact h.listener (by simp [hl]) (by simp [Listener.Removing]) (by simp) (by simp)
    · obtain ⟨hunread, hs⟩ := Option.ite_none_right_eq_some.mp hstep
      cases hs
      exact h.listener (by simp [hl]) (fun _ => hunread) (by simp) (by simp)
  case h_5 hl =>
    cases hstep
    split
    · exact h.listener (by simp [hl]) (fun _ => h.removing (.inl hl)) (by simp) (fun _ => rfl)
    · exact h.listener (by simp [hl]) (by simp [Listener.Removing]) (by simp) (by simp)
  case h_6 => cases hstep
  case h_7 => cases hstep
  case h_8 => cases hstep
  case h_9 => cases hstep
  all_goals
    rename_i hl
    cases hstep
    exact h.listener (by simp [hl]) (by simp [Listener.Removing]) (by simp) (by simp)

theorem Inv.virtiofsd {v : Virtiofsd} (h : Inv limit inherited s) (hs : s.virtiofsd.Alive)
    (horphan : s.main = .dead → v.Alive → s.term = true ∨ v = .prctl ∨ v = .getppid) :
    Inv limit inherited { s with virtiofsd := v } where
  fresh := h.fresh
  unwatched := h.unwatched
  unserved hs' := absurd (h.unserved hs') hs.1
  alone := h.alone
  reading := h.reading
  apart := h.apart
  null := h.null
  kept := h.kept
  serving _ := h.serving hs
  orphan := horphan
  removing hl :=
    have hu := h.removing hl
    ⟨hu.1, hu.2.1, fun _ => hu.2.2.1 hs, hu.2.2.2⟩
  gone := h.gone

theorem Inv.virtiofsdStep {ok : Bool} (h : Inv limit inherited s)
    (hstep : s.virtiofsdStep ok = some s') : Inv limit inherited s' := by
  unfold State.virtiofsdStep at hstep
  split at hstep
  case isTrue hterm =>
    cases hstep
    exact h.virtiofsd hterm.1 fun _ hv => absurd rfl hv.2
  case isFalse hterm =>
    -- virtiofsd gets past `getppid` only while its parent lives
    have hlives : ∀ {v : Virtiofsd}, s.virtiofsd.Alive → s.virtiofsd ≠ .prctl →
        s.virtiofsd ≠ .getppid → (if ok then v else .dead).Alive →
        s.main = .dead → s.term = true ∨ (if ok then v else .dead) = .prctl ∨
          (if ok then v else .dead) = .getppid := by
      intro v hs hp hg _ hd
      rcases h.orphan hd hs with ht | hp' | hg'
      · exact .inl ht
      · exact absurd hp' hp
      · exact absurd hg' hg
    split at hstep
    case h_1 hv =>
      cases hstep
      refine h.virtiofsd (by simp [hv, Virtiofsd.Alive]) fun _ halive => ?_
      cases ok
      · exact absurd rfl halive.2
      · exact .inr (.inr rfl)
    case h_2 hv =>
      cases hstep
      refine h.virtiofsd (by simp [hv, Virtiofsd.Alive]) fun hd halive => ?_
      rw [if_pos hd] at halive
      exact absurd rfl halive.2
    case h_3 hv =>
      cases hstep
      have hs : s.virtiofsd.Alive := by simp [hv, Virtiofsd.Alive]
      exact h.virtiofsd hs fun hd halive => hlives hs (by simp [hv]) (by simp [hv]) halive hd
    case h_4 hv =>
      cases hstep
      have hs : s.virtiofsd.Alive := by simp [hv, Virtiofsd.Alive]
      exact h.virtiofsd hs fun hd halive => hlives hs (by simp [hv]) (by simp [hv]) halive hd
    case h_5 hv =>
      cases hstep
      have hs : s.virtiofsd.Alive := by simp [hv, Virtiofsd.Alive]
      exact h.virtiofsd hs fun hd halive => hlives hs (by simp [hv]) (by simp [hv]) halive hd
    case h_6 hv =>
      cases hstep
      have hs : s.virtiofsd.Alive := by simp [hv, Virtiofsd.Alive]
      exact h.virtiofsd hs fun hd halive => hlives hs (by simp [hv]) (by simp [hv]) halive hd
    all_goals cases hstep

theorem Inv.others {n : Nat} (h : Inv limit inherited s)
    (hn : s.others ≠ 0 ∨ s.main = .vmm) : Inv limit inherited { s with others := n } := by
  have hstage : 9 ≤ s.main.stage := by
    rcases hn with hn | hn
    · by_contra hs
      exact hn (h.alone (by omega))
    · simp [hn, Main.stage]
  constructor
  case fresh => exact h.fresh
  case unwatched => exact h.unwatched
  case unserved => exact h.unserved
  case alone => exact fun hs => absurd hs (by show ¬ s.main.stage ≤ 8; omega)
  case reading => exact h.reading
  case apart => exact h.apart
  case null => exact h.null
  case kept =>
    intro h3 _
    refine h.kept h3 ?_
    rcases hn with hn | hn
    · exact .inr hn
    · exact .inl (by simp [hn, Main.stage])
  case serving => exact h.serving
  case orphan => exact h.orphan
  case removing =>
    intro hl
    have hu := h.removing hl
    refine ⟨hu.1, hu.2.1, hu.2.2.1, fun _ => ?_⟩
    rcases hn with hn | hn
    · exact hu.2.2.2 hn
    · exact hu.1 (by simp [hn])
  case gone => exact h.gone

theorem Inv.inner {a : Inner} (h : Inv limit inherited s)
    (hstep : RunSpectrumVm.inner limit s a = some s') : Inv limit inherited s' := by
  cases a with
  | main ok =>
    rw [RunSpectrumVm.inner] at hstep
    split at hstep
    · cases hstep
    · cases hstep
      cases ok with
      | false => exact h.die
      | true =>
        rw [if_pos rfl]
        cases hcall : s.mainCall limit with
        | none => exact h.die
        | some t => exact h.mainCall hcall
  | listener => exact h.listenerStep hstep
  | virtiofsd ok => exact h.virtiofsdStep hstep

theorem Inv.outer {a : Outer} (h : Inv limit inherited s)
    (hstep : RunSpectrumVm.outer limit s a = some s') : Inv limit inherited s' := by
  cases a with
  | stop =>
    obtain ⟨_, hs⟩ := Option.ite_none_left_eq_some.mp hstep
    cases hs
    exact h.die
  | virtiofsdStop =>
    obtain ⟨halive, hs⟩ := Option.ite_none_right_eq_some.mp hstep
    cases hs
    exact h.virtiofsd halive fun _ hv => absurd rfl hv.2
  | listenerFail => exact h.listenerStep hstep
  | fork =>
    obtain ⟨hvmm, hs⟩ := Option.ite_none_right_eq_some.mp hstep
    cases hs
    exact h.others (.inr hvmm)
  | otherStop =>
    obtain ⟨hne, hs⟩ := Option.ite_none_left_eq_some.mp hstep
    cases hs
    exact h.others (.inl hne)
  | sigint =>
    cases hstep
    -- the main process first, then the listener, then virtiofsd
    generalize ht : (if s.main = .vmm ∨ s.main = .dead then s else s.die) = t
    have hlistener : t.listener = s.listener := by rw [← ht]; split <;> rfl
    have hignoring : t.ignoring = s.ignoring := by rw [← ht]; split <;> rfl
    have hvirtiofsd : t.virtiofsd = s.virtiofsd := by rw [← ht]; split <;> rfl
    have h : Inv limit inherited t := by
      rw [← ht]
      split
      · exact h
      · exact h.die
    rw [← hlistener, ← hignoring, ← hvirtiofsd]
    generalize hl : (if t.listener.Lives ∧ t.listener ≠ .done ∧ t.ignoring = false then
      Listener.killed else t.listener) = l
    have h : Inv limit inherited { t with listener := l } := by
      rw [← hl]
      split
      · rename_i hearly
        exact h.listener hearly.1.1 (by simp [Listener.Removing]) (by simp) (by simp)
      · exact h
    split
    · rename_i hv
      exact h.virtiofsd hv.1 fun _ hv => absurd rfl hv.2
    · exact h

theorem Inv.step {a : Inner ⊕ Outer} (h : Inv limit inherited s)
    (hstep : RunSpectrumVm.step limit s a = some s') : Inv limit inherited s' := by
  cases a with
  | inl a => exact h.inner hstep
  | inr a => exact h.outer hstep

end Spectrum.Scripts.RunSpectrumVm
