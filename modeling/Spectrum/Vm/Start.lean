import Spectrum.Interact.Depend
import Spectrum.Interact.Schedule

/-!
# `vm-start`

Starting a VM first starts the VMs that provide its network: `vm-start` runs itself once for
every entry of `config/providers/net`, all at the same time, waits for all of them, and only then
becomes `ch-remote … boot`. A provider that serves two VMs is started twice, and the script keeps no
record of what it has already started.

The system here is the tree of `vm-start` processes that one call leads to, and a schedule says
which process goes next. External commands succeed and come back. A directory that cannot be read
has no entries: `cd` fails and the block around it ends.

**Providers are booted before the VMs that depend on them**, whatever the provider graph looks
like. The same order is why the script does not always come back: a VM below which the graph has a
cycle is never booted.
-/

set_option autoImplicit false

namespace Spectrum.Vm

open Relation Schedule Depend

/-! ## The script -/

/-- How far a `vm-start` process has got. The process that runs the block `foreground { … }` does
nothing its parent does not wait for, so it is counted as part of it. -/
inductive Phase (V : Type)
  /-- `s6-rc -bu change ext-rc` runs in the foreground. -/
  | ext
  /-- The block is about to read `config/providers/net`. -/
  | elglob
  /-- `forx -p` has yet to start `vm-start` for each of `todo`. -/
  | forx (todo : List V)
  /-- It has become `ch-remote --api-socket /run/vm/$1/vmm boot`. -/
  | boot
  | exited

structure Proc (V : Type) where
  vm : V
  parent : Option Nat
  phase : Phase V

structure State (V : Type) where
  procs : List (Proc V)
  /-- The boot commands issued so far, in order. -/
  boots : List V

variable {V : Type}

def Phase.isExited : Phase V → Bool
  | .exited => true
  | _ => false

/-- What `forx -p` waits for when it has started everything. -/
def State.childrenExited (s : State V) (i : Nat) : Bool :=
  s.procs.all fun c => c.parent ≠ some i || c.phase.isExited

variable (providers : V → List V)

/-- What process `i`, with entry `p`, does next: its new phase, the processes it starts and the
boot commands it issues. -/
def turn (s : State V) (i : Nat) (p : Proc V) : Option (Phase V × List (Proc V) × List V) :=
  match p.phase with
  | .ext => some (.elglob, [], [])
  | .elglob => some (.forx (providers p.vm), [], [])
  | .forx (provider :: todo) => some (.forx todo, [⟨provider, some i, .ext⟩], [])
  | .forx [] => if s.childrenExited i then some (.boot, [], [p.vm]) else none
  | .boot => some (.exited, [], [])
  | .exited => none

def step (s : State V) (i : Nat) : Option (State V) :=
  match s.procs[i]? with
  | none => none
  | some p =>
    match turn providers s i p with
    | none => none
    | some (phase, started, issued) =>
      some ⟨s.procs.set i { p with phase } ++ started, s.boots ++ issued⟩

/-- `vm-start v`. -/
def start (v : V) : State V := ⟨[⟨v, none, .ext⟩], []⟩

def Provides (w p : V) : Prop := p ∈ providers w

/-! ## What a step can do -/

inductive Turn (s : State V) (i : Nat) (p : Proc V) :
    Phase V → List (Proc V) → List V → Prop
  | ext (h : p.phase = .ext) : Turn s i p .elglob [] []
  | elglob (h : p.phase = .elglob) : Turn s i p (.forx (providers p.vm)) [] []
  | forx {provider : V} {todo : List V} (h : p.phase = .forx (provider :: todo)) :
      Turn s i p (.forx todo) [⟨provider, some i, .ext⟩] []
  | boot (h : p.phase = .forx []) (hchildren : s.childrenExited i = true) :
      Turn s i p .boot [] [p.vm]
  | exit (h : p.phase = .boot) : Turn s i p .exited [] []

variable {providers} {v : V} {s s' : State V} {i : Nat}

theorem turn_sound {p : Proc V} {phase : Phase V} {started : List (Proc V)} {issued : List V}
    (h : turn providers s i p = some (phase, started, issued)) :
    Turn providers s i p phase started issued := by
  unfold turn at h
  split at h
  case h_1 hp =>
    cases h
    exact .ext hp
  case h_2 hp =>
    cases h
    exact .elglob hp
  case h_3 hp =>
    cases h
    exact .forx hp
  case h_4 hp =>
    split at h
    case isTrue hchildren =>
      cases h
      exact .boot hp hchildren
    case isFalse => cases h
  case h_5 hp =>
    cases h
    exact .exit hp
  case h_6 => cases h

theorem step_cases (h : step providers s i = some s') :
    ∃ p phase started issued, s.procs[i]? = some p ∧
      Turn providers s i p phase started issued ∧
      s' = ⟨s.procs.set i { p with phase } ++ started, s.boots ++ issued⟩ := by
  unfold step at h
  split at h
  case h_1 => cases h
  case h_2 p hp =>
    split at h
    case h_1 => cases h
    case h_2 phase started issued hturn =>
      cases h
      exact ⟨p, phase, started, issued, hp, turn_sound hturn, rfl⟩

/-- A process of the new state is the one that moved, one that did not, or a new one. -/
theorem get_moved {l : List (Proc V)} {x c : Proc V} {started : List (Proc V)} {j : Nat}
    (h : (l.set i x ++ started)[j]? = some c) :
    (j = i ∧ c = x) ∨ (j ≠ i ∧ l[j]? = some c) ∨ (l.length ≤ j ∧ c ∈ started) := by
  by_cases hj : j < l.length
  · rw [List.getElem?_append_left (by simpa using hj)] at h
    by_cases hij : i = j
    · subst hij
      rw [List.getElem?_set_self hj] at h
      exact .inl ⟨rfl, (Option.some.inj h).symm⟩
    · rw [List.getElem?_set_ne hij] at h
      exact .inr (.inl ⟨Ne.symm hij, h⟩)
  · rw [List.getElem?_append_right (by simpa using hj)] at h
    exact .inr (.inr ⟨by omega, List.mem_of_getElem? h⟩)

/-- Processes stay where they are and keep their VM and their parent. -/
theorem get_kept {l : List (Proc V)} {p c : Proc V} {j : Nat} (phase : Phase V)
    (started : List (Proc V)) (hp : l[i]? = some p) (hc : l[j]? = some c) :
    ∃ c', (l.set i { p with phase } ++ started)[j]? = some c' ∧ c'.vm = c.vm ∧
      c'.parent = c.parent := by
  have hj : j < l.length := (List.getElem?_eq_some_iff.mp hc).1
  rw [List.getElem?_append_left (by simpa using hj)]
  by_cases hij : i = j
  · subst hij
    rw [hp] at hc
    cases hc
    exact ⟨_, List.getElem?_set_self hj, rfl, rfl⟩
  · rw [List.getElem?_set_ne hij]
    exact ⟨c, hc, rfl, rfl⟩

/-! ## The invariant -/

/-- Process `i` has started `vm-start q`. -/
def State.HasChild (s : State V) (i : Nat) (q : V) : Prop :=
  ∃ (j : Nat) (c : Proc V), s.procs[j]? = some c ∧ c.parent = some i ∧ c.vm = q

/-- What holds of the process tree of `vm-start v`. -/
structure Inv (providers : V → List V) (v : V) (s : State V) : Prop where
  respects : Respects (Provides providers) s.boots
  todo : ∀ {i : Nat} {p : Proc V} {todo : List V}, s.procs[i]? = some p → p.phase = .forx todo →
    ∀ q ∈ todo, Provides providers p.vm q
  /-- A provider that is no longer to be started has been started. -/
  started : ∀ {i : Nat} {p : Proc V} {todo : List V}, s.procs[i]? = some p →
    p.phase = .forx todo → ∀ q, Provides providers p.vm q → q ∈ todo ∨ s.HasChild i q
  booted : ∀ {i : Nat} {p : Proc V}, s.procs[i]? = some p →
    p.phase = .boot ∨ p.phase = .exited → p.vm ∈ s.boots
  younger : ∀ {i j : Nat} {c : Proc V}, s.procs[j]? = some c → c.parent = some i → i < j
  below : ∀ {i : Nat} {p : Proc V}, s.procs[i]? = some p →
    ReflTransGen (Provides providers) v p.vm
  root : ∃ p, s.procs[0]? = some p ∧ p.vm = v

theorem inv_start (providers : V → List V) (v : V) : Inv providers v (start v) := by
  have hget : ∀ {i : Nat} {p : Proc V}, (start v).procs[i]? = some p →
      p = ⟨v, none, .ext⟩ := by
    intro i p h
    cases i with
    | zero => exact (Option.some.inj h).symm
    | succ i => simp [start] at h
  refine ⟨respects_nil, ?_, ?_, ?_, ?_, ?_, ⟨_, rfl, rfl⟩⟩
  · intro i p todo h hphase
    rw [hget h] at hphase
    cases hphase
  · intro i p todo h hphase
    rw [hget h] at hphase
    cases hphase
  · intro i p h hphase
    rw [hget h] at hphase
    cases hphase <;> contradiction
  · intro i j c h hparent
    rw [hget h] at hparent
    cases hparent
  · intro i p h
    rw [hget h]

/-- When all children have exited, all providers have been booted. -/
theorem Inv.providers_booted (hs : Inv providers v s) {p : Proc V} (hp : s.procs[i]? = some p)
    (hphase : p.phase = .forx []) (hchildren : s.childrenExited i = true) {q : V}
    (hq : Provides providers p.vm q) : q ∈ s.boots := by
  cases hs.started hp hphase q hq with
  | inl hmem => cases hmem
  | inr hchild =>
    obtain ⟨j, c, hc, hparent, rfl⟩ := hchild
    have hdone := List.all_eq_true.mp hchildren c (List.mem_of_getElem? hc)
    refine hs.booted hc (.inr ?_)
    cases hexited : c.phase with
    | exited => rfl
    | _ => simp [hparent, hexited, Phase.isExited] at hdone

section Step

variable {p : Proc V} {phase : Phase V} {started : List (Proc V)} {issued : List V}

/-- Started children stay. -/
theorem hasChild_moved (hp : s.procs[i]? = some p) {j : Nat} {q : V} (h : s.HasChild j q) :
    State.HasChild ⟨s.procs.set i { p with phase } ++ started, s.boots ++ issued⟩ j q := by
  obtain ⟨k, c, hc, hparent, hvm⟩ := h
  obtain ⟨c', hc', hvm', hparent'⟩ := get_kept phase started hp hc
  exact ⟨k, c', hc', hparent'.trans hparent, hvm'.trans hvm⟩

theorem hasChild_new (provider : V) :
    State.HasChild ⟨s.procs.set i { p with phase } ++ [⟨provider, some i, .ext⟩],
      s.boots ++ issued⟩ i provider :=
  ⟨s.procs.length, ⟨provider, some i, .ext⟩, by simp, rfl, rfl⟩

/-- A new process is a provider of the one that started it, and has not done anything. -/
theorem Turn.of_mem_started (hturn : Turn providers s i p phase started issued) {c : Proc V}
    (hc : c ∈ started) : ∃ todo, p.phase = .forx (c.vm :: todo) ∧ c.parent = some i ∧
      c.phase = .ext := by
  cases hturn with
  | forx h =>
    cases List.mem_singleton.mp hc
    exact ⟨_, h, rfl, rfl⟩
  | _ => cases hc

theorem Turn.respects (hturn : Turn providers s i p phase started issued)
    (hs : Inv providers v s) (hp : s.procs[i]? = some p) :
    Respects (Provides providers) (s.boots ++ issued) := by
  cases hturn with
  | boot hphase hchildren =>
    exact hs.respects.snoc fun q hq => hs.providers_booted hp hphase hchildren hq
  | _ => simpa using hs.respects

theorem Turn.todo (hturn : Turn providers s i p phase started issued) (hs : Inv providers v s)
    (hp : s.procs[i]? = some p) {todo : List V} (hphase : phase = .forx todo) :
    ∀ q ∈ todo, Provides providers p.vm q := by
  cases hturn with
  | elglob =>
    cases hphase
    exact fun q hq => hq
  | forx h =>
    cases hphase
    exact fun q hq => hs.todo hp h q (List.mem_cons_of_mem _ hq)
  | _ => cases hphase

theorem Turn.hasChild (hturn : Turn providers s i p phase started issued) (hs : Inv providers v s)
    (hp : s.procs[i]? = some p) {todo : List V} (hphase : phase = .forx todo) {q : V}
    (hq : Provides providers p.vm q) : q ∈ todo ∨
      State.HasChild ⟨s.procs.set i { p with phase } ++ started, s.boots ++ issued⟩ i q := by
  cases hturn with
  | elglob =>
    cases hphase
    exact .inl hq
  | forx h =>
    cases hphase
    cases hs.started hp h q hq with
    | inl hmem =>
      cases List.mem_cons.mp hmem with
      | inl e =>
        rw [e]
        exact .inr (hasChild_new _)
      | inr hmem => exact .inl hmem
    | inr hchild => exact .inr (hasChild_moved hp hchild)
  | _ => cases hphase

theorem Turn.booted (hturn : Turn providers s i p phase started issued) (hs : Inv providers v s)
    (hp : s.procs[i]? = some p) (hphase : phase = .boot ∨ phase = .exited) :
    p.vm ∈ s.boots ++ issued := by
  cases hturn with
  | boot => simp
  | exit h => exact List.mem_append_left _ (hs.booted hp (.inl h))
  | _ => cases hphase <;> contradiction

end Step

theorem inv_step (hs : Inv providers v s) (h : step providers s i = some s') :
    Inv providers v s' := by
  obtain ⟨p, phase, started, issued, hp, hturn, rfl⟩ := step_cases h
  have hi : i < s.procs.length := (List.getElem?_eq_some_iff.mp hp).1
  refine ⟨hturn.respects hs hp, ?_, ?_, ?_, ?_, ?_, ?_⟩
  · intro j c todo hc hphase
    rcases get_moved hc with ⟨rfl, rfl⟩ | ⟨-, hold⟩ | ⟨-, hnew⟩
    · exact hturn.todo hs hp hphase
    · exact hs.todo hold hphase
    · obtain ⟨_, -, -, hext⟩ := hturn.of_mem_started hnew
      rw [hext] at hphase
      cases hphase
  · intro j c todo hc hphase q hq
    rcases get_moved hc with ⟨rfl, rfl⟩ | ⟨-, hold⟩ | ⟨-, hnew⟩
    · exact hturn.hasChild hs hp hphase hq
    · exact (hs.started hold hphase q hq).imp id (hasChild_moved hp)
    · obtain ⟨_, -, -, hext⟩ := hturn.of_mem_started hnew
      rw [hext] at hphase
      cases hphase
  · intro j c hc hphase
    rcases get_moved hc with ⟨rfl, rfl⟩ | ⟨-, hold⟩ | ⟨-, hnew⟩
    · exact hturn.booted hs hp hphase
    · exact List.mem_append_left _ (hs.booted hold hphase)
    · obtain ⟨_, -, -, hext⟩ := hturn.of_mem_started hnew
      rw [hext] at hphase
      cases hphase <;> contradiction
  · intro k j c hc hparent
    rcases get_moved hc with ⟨rfl, rfl⟩ | ⟨-, hold⟩ | ⟨hlen, hnew⟩
    · exact hs.younger hp hparent
    · exact hs.younger hold hparent
    · obtain ⟨_, -, hpar, -⟩ := hturn.of_mem_started hnew
      rw [hpar] at hparent
      cases hparent
      omega
  · intro j c hc
    rcases get_moved hc with ⟨rfl, rfl⟩ | ⟨-, hold⟩ | ⟨-, hnew⟩
    · exact (hs.below hp :)
    · exact hs.below hold
    · obtain ⟨_, hphase, -, -⟩ := hturn.of_mem_started hnew
      exact (hs.below hp).tail (hs.todo hp hphase c.vm List.mem_cons_self)
  · obtain ⟨r, hr, hv⟩ := hs.root
    obtain ⟨r', hr', hvm, -⟩ := get_kept phase started hp hr
    exact ⟨r', hr', hvm.trans hv⟩

theorem inv_run {sched : List Nat} (h : run (step providers) (start v) sched = some s) :
    Inv providers v s :=
  run_invariant inv_step (inv_start providers v) h

/-! ## The order of the boot commands -/

/-- **Providers are booted first.** Whatever the provider relation and the interleaving, when the
boot command of `w` is issued it has been issued for every provider of `w`, and for everything
they depend on in turn. -/
theorem providers_boot_first (providers : V → List V) (v : V) {sched : List Nat} {s : State V}
    (h : run (step providers) (start v) sched = some s) {before after : List V} {w : V}
    (hw : s.boots = before ++ w :: after) :
    (∀ p ∈ providers w, p ∈ before) ∧
      ∀ u, TransGen (Provides providers) w u → u ∈ before := by
  have hrespects := (inv_run h).respects
  exact ⟨hrespects before w after hw, fun u hu => hrespects.transGen hw hu⟩

/-- The provider relation of an application VM (`true`) and a network VM (`false`). -/
def appAndNet : Bool → List Bool
  | true => [false]
  | false => []

theorem providers_boot_first_app :
    ∃ s, run (step appAndNet) (start true) [0, 0, 0, 1, 1, 1, 1, 0] = some s ∧
      s.boots = [false] ++ true :: [] ∧ ∀ p ∈ appAndNet true, p ∈ [false] :=
  ⟨_, rfl, rfl, (providers_boot_first appAndNet true
    (show run (step appAndNet) (start true) [0, 0, 0, 1, 1, 1, 1, 0] = some _ from rfl)
    (show [false, true] = [false] ++ true :: [] from rfl)).1⟩

/-! ## Coming back -/

/-- `vm-start v` comes back, having booted `v`. -/
structure Terminates (providers : V → List V) (v : V) : Prop where
  /-- Only so many processes are ever started. -/
  finite : ∃ N, ∀ sched s, run (step providers) (start v) sched = some s → s.procs.length ≤ N
  halts : ∃ N, ∀ sched s, run (step providers) (start v) sched = some s → sched.length ≤ N
  /-- A run that can go no further has issued the boot command of `v`. -/
  boots : ∀ sched s, run (step providers) (start v) sched = some s →
    Stuck (step providers) s → v ∈ s.boots

theorem step_of_turn {p : Proc V} (hp : s.procs[i]? = some p)
    (hstuck : step providers s i = none) : turn providers s i p = none := by
  simp only [step, hp] at hstuck
  cases hturn : turn providers s i p with
  | none => rfl
  | some r =>
    rw [hturn] at hstuck
    cases hstuck

/-- **No deadlock**: a process that cannot go on is done, or waits for a younger one. -/
theorem Inv.exited_of_stuck (hs : Inv providers v s) (hstuck : Stuck (step providers) s)
    {p : Proc V} (hp : s.procs[i]? = some p) : p.phase = .exited := by
  -- Children stand behind their parent, so the induction is on what stands behind `i`.
  suffices hgo : ∀ k i (p : Proc V), s.procs.length - i = k → s.procs[i]? = some p →
      p.phase = .exited from hgo _ i p rfl hp
  intro k
  induction k using Nat.strong_induction_on with
  | _ k ih =>
    intro i p hk hp
    have hi : i < s.procs.length := (List.getElem?_eq_some_iff.mp hp).1
    have hturn := step_of_turn hp (hstuck i)
    have hchildren : s.childrenExited i = true := by
      refine List.all_eq_true.mpr fun c hc => ?_
      obtain ⟨j, hj⟩ := List.mem_iff_getElem?.mp hc
      by_cases hparent : c.parent = some i
      · have hlt : i < j := hs.younger hj hparent
        have hjl : j < s.procs.length := (List.getElem?_eq_some_iff.mp hj).1
        have hexited := ih (s.procs.length - j) (by omega) j c rfl hj
        simp [hexited, Phase.isExited]
      · simp [hparent]
    unfold turn at hturn
    cases hphase : p.phase with
    | exited => rfl
    | forx todo => cases todo <;> simp [hphase, hchildren] at hturn
    | _ => simp [hphase] at hturn

theorem Inv.booted_of_stuck (hs : Inv providers v s) (hstuck : Stuck (step providers) s) :
    v ∈ s.boots := by
  obtain ⟨r, hr, rfl⟩ := hs.root
  exact hs.booted hr (.inr (hs.exited_of_stuck hstuck hr))

/-! ### How much is left to do -/

/-- What starting each of `l` costs: the start itself, and what the process then does. -/
noncomputable def startCost (providers : V → List V) (l : List V) : Nat :=
  (l.map fun q => 1 + weight providers 4 q).sum

/-- The steps process `p` and its future children have left. -/
noncomputable def remaining (providers : V → List V) (p : Proc V) : Nat :=
  match p.phase with
  | .ext => weight providers 4 p.vm
  | .elglob => 3 + startCost providers (providers p.vm)
  | .forx todo => 2 + startCost providers todo
  | .boot => 1
  | .exited => 0

noncomputable def State.remaining (providers : V → List V) (s : State V) : Nat :=
  (s.procs.map (Vm.remaining providers)).sum

theorem sum_set {f : Proc V → Nat} {l : List (Proc V)} {p : Proc V} (x : Proc V)
    (hp : l[i]? = some p) : ((l.set i x).map f).sum + f p = (l.map f).sum + f x := by
  induction l generalizing i with
  | nil => cases hp
  | cons c l ih =>
    cases i with
    | zero =>
      cases hp
      simp only [List.set_cons_zero, List.map_cons, List.sum_cons]
      omega
    | succ i =>
      have ih := ih (i := i) (by simpa using hp)
      simp only [List.set_cons_succ, List.map_cons, List.sum_cons]
      omega

/-- Every turn does one thing. -/
theorem Turn.remaining {p : Proc V} {phase : Phase V} {started : List (Proc V)} {issued : List V}
    (hturn : Turn providers s i p phase started issued)
    (hacc : Acc (fun q w => q ∈ providers w) p.vm) :
    Vm.remaining providers { p with phase } + (started.map (Vm.remaining providers)).sum + 1 =
      Vm.remaining providers p := by
  cases hturn with
  | ext h =>
    simp only [Vm.remaining, h, weight_eq providers 4 hacc, startCost, List.map_nil, List.sum_nil]
    omega
  | elglob h =>
    simp only [Vm.remaining, h, List.map_nil, List.sum_nil]
    omega
  | forx h =>
    simp only [Vm.remaining, h, startCost, List.map_cons, List.map_nil, List.sum_cons,
      List.sum_nil]
    omega
  | boot h => simp [Vm.remaining, h, startCost]
  | exit h => simp [Vm.remaining, h]

theorem step_remaining (hacc : ∀ u, ReflTransGen (Provides providers) v u →
      Acc (fun q w => q ∈ providers w) u) (hs : Inv providers v s)
    (h : step providers s i = some s') : s'.remaining providers < s.remaining providers := by
  obtain ⟨p, phase, started, issued, hp, hturn, rfl⟩ := step_cases h
  have hone := hturn.remaining (hacc _ (hs.below hp))
  have hset := sum_set (f := Vm.remaining providers) { p with phase } hp
  simp only [State.remaining, List.map_append, List.sum_append]
  omega

theorem length_procs_le {sched : List Nat} (h : run (step providers) s sched = some s') :
    s'.procs.length ≤ s.procs.length + sched.length := by
  induction sched generalizing s with
  | nil =>
    cases h
    exact Nat.le_refl _
  | cons i sched ih =>
    obtain ⟨t, hstep, hrest⟩ := Option.bind_eq_some_iff.mp h
    have hlen := ih hrest
    obtain ⟨p, phase, started, issued, -, hturn, rfl⟩ := step_cases hstep
    have hone : started.length ≤ 1 := by cases hturn <;> simp
    simp only [List.length_append, List.length_set] at hlen
    rw [List.length_cons]
    omega

theorem terminates_of_acyclic [Finite V] (hv : Acyclic (Provides providers) v) :
    Terminates providers v := by
  have hacc : ∀ u, ReflTransGen (Provides providers) v u →
      Acc (fun q w => q ∈ providers w) u := by
    intro u hu
    exact acc_of_acyclic fun w hw => hv w (hu.trans hw)
  have hlen : ∀ sched s, run (step providers) (start v) sched = some s →
      sched.length ≤ (start v).remaining providers := by
    intro sched s h
    exact length_le_of_run (State.remaining providers) inv_step
      (fun hs hstep => step_remaining hacc hs hstep) (inv_start providers v) h
  refine ⟨⟨1 + (start v).remaining providers, fun sched s h => ?_⟩, ⟨_, hlen⟩, ?_⟩
  · have hprocs := length_procs_le h
    have := hlen sched s h
    simp only [start, List.length_singleton] at hprocs ⊢
    simp only [start] at this
    omega
  · intro sched s h hstuck
    exact (inv_run h).booted_of_stuck hstuck

/-- **Above a cycle nothing is ever booted**, and the processes never come to an end. -/
theorem never_boots_of_cycle (hv : ¬ Acyclic (Provides providers) v) {sched : List Nat}
    (h : run (step providers) (start v) sched = some s) :
    v ∉ s.boots ∧ ¬ Stuck (step providers) s := by
  have hs := inv_run h
  have hnot : v ∉ s.boots := fun hmem => hv (hs.respects.acyclic hmem)
  exact ⟨hnot, fun hstuck => hnot (hs.booted_of_stuck hstuck)⟩

theorem acyclic_of_terminates (h : Terminates providers v) : Acyclic (Provides providers) v := by
  by_contra hv
  obtain ⟨N, hN⟩ := h.halts
  obtain ⟨sched, s, hrun, hstuck⟩ := exists_stuck hN
  exact (never_boots_of_cycle hv hrun).2 hstuck

/-- **`vm-start v` comes back exactly when no cycle of the provider relation can be reached from
`v`.** -/
theorem terminates_iff_acyclic [Fintype V] (providers : V → List V) (v : V) :
    Terminates providers v ↔
      ∀ u, ReflTransGen (Provides providers) v u → ¬ TransGen (Provides providers) u u :=
  ⟨acyclic_of_terminates, terminates_of_acyclic⟩

/-- A VM that lists itself as its provider. -/
theorem self_provider_never_terminates : ¬ Terminates (fun _ : Unit => [()]) () := by
  intro h
  exact acyclic_of_terminates h () .refl (.single List.mem_cons_self)

end Spectrum.Vm
