import Spectrum.Rc.Host

/-!
# What stays true during the boot

No device is forgotten between the kernel, `mdevd-coldplug`, mdevd and the script for it
(`Tracked`), and a service is up only if what it waited for was announced. The invariant is kept by
every step, one lemma for each kind of step.
-/

set_option autoImplicit false

namespace Spectrum.Rc

open Schedule Services Spectrum.Vmm

variable (cfg : Config)

/-! ## The invariant -/

/-- `net/add` waits for s6-rc, or s6-rc runs for it. -/
def State.Asking (s : State) (d : OsString) : Prop :=
  .netAdd d ∈ s.blocked ∨ s.holder = some (.netAdd d)

/-- `net/add` is not through. -/
def State.Serving (s : State) (d : OsString) : Prop :=
  (∃ phase, s.handling = some (d, phase)) ∨ s.Asking d ∨ ∃ phase, (d, phase) ∈ s.adds

/-- mdevd has come to the device, and what followed from that has been done or will be. -/
def Seen (s : State) : Device → Prop
  | .kvm => (s.meet .kvm).listeners ≠ []
  | .card0 => (s.meet .card0).listeners ≠ []
  | .block d => d ∈ s.blocks ∨ (cfg.isExt d = true → s.link ≠ none)
  | .net d => s.Serving d ∨ d ∈ s.added ∨ d ∈ s.lost ∨ os "netvm" ∉ cfg.vms ∨
      s.services.Lacks dependencies .extRcInit

/-- The device is not forgotten. -/
def Tracked (s : State) (dev : Device) : Prop :=
  ¬ s.services.known .mdevdColdplug ∨ dev ∈ s.todo ∨ dev ∈ s.queue ∨ Seen cfg s dev

structure Inv (s : State) : Prop where
  sound : s.services.Sound dependencies
  held : s.holder = none → s.services.starting = []
  booted : s.init = .change → s.holder = some .rcInit ∨
    ∀ v, v ∈ s.services.up ∨ s.services.Lacks dependencies v
  stage : ∀ n, Mdev.Stage (s.meet n)
  waited : ∀ n : Name, n.service ∈ s.services.up → (s.meet n).waiter.isExited = true
  todo : ∀ dev ∈ s.todo, dev ∈ s.present
  triggered : .mdevdColdplug ∈ s.services.up → s.todo = []
  queue : ∀ dev ∈ s.queue, dev ∈ s.present
  blocks : ∀ d ∈ s.blocks, .block d ∈ s.present
  kvm : (s.meet .kvm).listeners ≠ [] → .kvm ∈ s.present
  link : ∀ d, s.link = some d → cfg.isExt d = true ∧ .block d ∈ s.present
  ext : (s.meet .ext).listeners ≠ [] ↔ s.link ≠ none
  tracked : ∀ dev ∈ s.present, Tracked cfg s dev
  fresh : ¬ s.services.known .extRcInit → s.imports = [] ∧ s.instances = []
  imports : s.services.known .extRcInit → s.imports.map Prod.fst = cfg.vms
  imported : .extRcInit ∈ s.services.up → ∀ i ∈ s.imports, i.2 = .done
  done : ∀ name, (name, .done) ∈ s.imports → vmName name ∈ s.ready
  waiting : ∀ name, (name, .svwait) ∈ s.imports → vmName name ∈ s.instances
  ready : ∀ name ∈ s.ready, name ∈ s.instances
  bound : ∀ d, s.Asking d ∨ (∃ phase, (d, phase) ∈ s.adds) ∨ d ∈ s.added → d ∈ s.bound
  asked : s.adds ≠ [] → .extRcInit ∈ s.services.up ∨ s.services.Lacks dependencies .extRcInit
  added : (∃ d, (d, .addDevice) ∈ s.adds) ∨ s.added ≠ [] → netvm ∈ s.ready

variable {cfg} {s s' : State}

theorem inv_start (present : List Device) : Inv cfg (start present) := by
  constructor
  case stage => exact fun _ => Mdev.stage_start false 0
  case tracked => exact fun dev _ => .inl (by simp [start, Status.known])
  all_goals simp [start, Status.Sound, Status.known, State.Asking, Mdev.start]

theorem Tracked.imp {dev : Device} (h : Tracked cfg s dev)
    (hknown : s'.services.known .mdevdColdplug → s.services.known .mdevdColdplug)
    (htodo : dev ∈ s.todo → Tracked cfg s' dev) (hqueue : dev ∈ s.queue → Tracked cfg s' dev)
    (hseen : Seen cfg s dev → Seen cfg s' dev) : Tracked cfg s' dev := by
  rcases h with hnew | hmem | hmem | hold
  · exact .inl fun h => hnew (hknown h)
  · exact htodo hmem
  · exact hqueue hmem
  · exact .inr (.inr (.inr (hseen hold)))

/-- What `mdevd-coldplug` and mdevd still have to do is the same. -/
theorem Tracked.imp_seen {dev : Device} (h : Tracked cfg s dev)
    (hservices : s'.services = s.services) (htodo : s'.todo = s.todo) (hqueue : s'.queue = s.queue)
    (hseen : Seen cfg s dev → Seen cfg s' dev) : Tracked cfg s' dev := by
  refine h.imp (by rw [hservices]; exact id) (fun hmem => ?_) (fun hmem => ?_) hseen
  · exact .inr (.inl (htodo ▸ hmem))
  · exact .inr (.inr (.inl (hqueue ▸ hmem)))

/-- More services are up, or have failed. -/
theorem Seen.services {dev : Device} {services : Status Service} (h : Seen cfg s dev)
    (hle : Status.Le s.services services) : Seen cfg { s with services } dev := by
  cases dev with
  | net d => exact h.imp_right (.imp_right (.imp_right (.imp_right hle.lacks)))
  | _ => exact h

/-! ### The service manager -/

def Service.rank : Service → Nat
  | .extRcInit => 1
  | .mdevdColdplug => 1
  | .weston => 1
  | _ => 0

theorem rank_lt : ∀ v, ∀ u ∈ dependencies v, u.rank < v.rank := by
  intro v
  cases v <;> decide

theorem mem_wants_rcInit (v : Service) : v ∈ Client.rcInit.wants := by
  cases v <;> decide

theorem wants_closed (c : Client) : ∀ v ∈ c.wants, ∀ u ∈ dependencies v, u ∈ c.wants := by
  cases c with
  | rcInit => exact fun _ _ u _ => mem_wants_rcInit u
  | netAdd d =>
    have hwants : (Client.netAdd d).wants = closure dependencies 2 [.extRcInit] := rfl
    rw [hwants]
    decide
  | vmStart => decide

/-- What s6-rc has done for a client when it is through. -/
theorem up_of_release {c : Client} (hstarting : s.services.starting = [])
    (hidle : ∀ v ∈ c.wants, ¬ s.services.Ready dependencies v) {v : Service} (hv : v ∈ c.wants) :
    v ∈ s.services.up ∨ s.services.Lacks dependencies v :=
  Status.up_of_idle rank_lt (wants_closed c) hstarting hidle hv

theorem scriptDone_service (n : Name) :
    s.scriptDone n.service = (s.meet n).waiter.isExited := by
  cases n <;> rfl

theorem Inv.finish {v : Service} {ok : Bool} (h : Inv cfg s) (hv : v ∈ s.services.starting)
    (hdone : ok = true → s.scriptDone v = true) :
    Inv cfg { s with services := s.services.finish v ok } := by
  have hle : Status.Le s.services (s.services.finish v ok) := Status.finish_le
  refine { h with
    sound := h.sound.finish hv
    held := fun hnone => ?_
    booted := fun hinit =>
      (h.booted hinit).imp_right fun hall w => (hall w).imp (hle.up w) hle.lacks
    waited := fun n hn => ?_
    triggered := fun hup => ?_
    tracked := fun dev hdev => ?_
    fresh := fun hnot => h.fresh fun hknown => hnot ((Status.known_finish hv).mpr hknown)
    imports := fun hknown => h.imports ((Status.known_finish hv).mp hknown)
    imported := fun hup => ?_
    asked := fun hne => (h.asked hne).imp (hle.up _) hle.lacks }
  · rw [h.held hnone] at hv
    cases hv
  · rcases Status.up_of_finish hn with hup | ⟨rfl, hok⟩
    · exact h.waited n hup
    · have hdone := hdone hok
      rwa [scriptDone_service] at hdone
  · rcases Status.up_of_finish hup with hup | ⟨rfl, hok⟩
    · exact h.triggered hup
    · simpa [State.scriptDone] using hdone hok
  · refine (h.tracked dev hdev).imp (Status.known_finish hv).mp ?_ ?_ (·.services hle)
    · exact fun hmem => .inr (.inl hmem)
    · exact fun hmem => .inr (.inr (.inl hmem))
  · rcases Status.up_of_finish hup with hup | ⟨rfl, hok⟩
    · exact h.imported hup
    · simpa [State.scriptDone] using hdone hok

theorem Inv.begin {c : Client} {v : Service} (h : Inv cfg s) (hheld : s.holder = some c)
    (hready : s.services.Ready dependencies v) : Inv cfg (s.begin cfg v) := by
  have hle : Status.Le s.services (s.services.begin v) := Status.begin_le
  refine { h with
    sound := h.sound.begin hready
    held := fun hnone => by simp [State.begin, hheld] at hnone
    booted := fun hinit =>
      (h.booted hinit).imp_right fun hall w => (hall w).imp (hle.up w) hle.lacks
    todo := ?_
    triggered := fun hup => ?_
    tracked := fun dev hdev => ?_
    fresh := fun hnot => ?_
    imports := fun hknown => ?_
    imported := fun hup => ?_
    done := fun name hname => ?_
    waiting := fun name hname => ?_ }
  · intro dev hdev
    by_cases hv : v = .mdevdColdplug
    · simpa [State.begin, hv] using hdev
    · exact h.todo dev (by simpa [State.begin, hv] using hdev)
  · by_cases hv : v = .mdevdColdplug
    · subst hv
      exact absurd (.inl hup) hready.1
    · have hold := h.triggered hup
      simpa [State.begin, hv] using hold
  · by_cases hv : v = .mdevdColdplug
    · exact .inr (.inl (by simpa [State.begin, hv] using hdev))
    · refine (h.tracked dev hdev).imp ?_ ?_ ?_ ?_
      · exact fun hknown => (Status.known_begin.mp hknown).resolve_right fun heq => hv heq.symm
      · exact fun hmem => .inr (.inl (by simpa [State.begin, hv] using hmem))
      · exact fun hmem => .inr (.inr (.inl hmem))
      · intro hseen
        have hseen := hseen.services hle
        cases dev <;> exact hseen
  · by_cases hv : v = .extRcInit
    · exact absurd (Status.known_begin.mpr (.inr hv.symm)) hnot
    · have hold := h.fresh fun hknown => hnot (Status.known_begin.mpr (.inl hknown))
      simpa [State.begin, hv] using hold
  · by_cases hv : v = .extRcInit
    · simp [State.begin, hv, Function.comp_def]
    · have hold := h.imports ((Status.known_begin.mp hknown).resolve_right fun heq => hv heq.symm)
      simpa [State.begin, hv] using hold
  · by_cases hv : v = .extRcInit
    · subst hv
      exact absurd (.inl hup) hready.1
    · have hold := h.imported hup
      simpa [State.begin, hv] using hold
  · by_cases hv : v = .extRcInit
    · simp [State.begin, hv] at hname
    · exact h.done name (by simpa [State.begin, hv] using hname)
  · by_cases hv : v = .extRcInit
    · simp [State.begin, hv] at hname
    · exact h.waiting name (by simpa [State.begin, hv] using hname)

/-! ### The lock -/

theorem Inv.granted (h : Inv cfg s) (hfree : s.holder = none) :
    Inv cfg { s with init := .change, holder := some .rcInit } := by
  refine { h with
    held := by simp
    booted := fun _ => .inl rfl
    tracked := fun dev hdev => (h.tracked dev hdev).imp_seen rfl rfl rfl fun hseen => ?_
    bound := fun d hd => h.bound d ?_ }
  · cases dev with
    | net d => simpa [Seen, State.Serving, State.Asking, hfree] using hseen
    | _ => exact hseen
  · simpa [State.Asking, hfree] using hd

theorem Inv.refused (h : Inv cfg s) : Inv cfg { s with init := .refused } :=
  { h with
    booted := by simp
    tracked := fun dev hdev => (h.tracked dev hdev).imp_seen rfl rfl rfl fun hseen => by
      cases dev <;> exact hseen }

theorem Inv.lock {pre post : List Client} {c : Client} (h : Inv cfg s) (hfree : s.holder = none)
    (hblocked : s.blocked = pre ++ c :: post) :
    Inv cfg { s with holder := some c, blocked := pre ++ post } := by
  have hasking : ∀ d, State.Asking { s with holder := some c, blocked := pre ++ post } d ↔
      s.Asking d := by
    intro d
    simp only [State.Asking, hfree, hblocked, List.mem_append, List.mem_cons, reduceCtorEq,
      or_false, Option.some.injEq, eq_comm (a := c)]
    tauto
  refine { h with
    held := by simp
    booted := fun hinit => .inr ((h.booted hinit).resolve_left (by simp [hfree]))
    tracked := fun dev hdev => (h.tracked dev hdev).imp_seen rfl rfl rfl fun hseen => ?_
    bound := fun d hd => h.bound d (hd.imp_left (hasking d).mp) }
  cases dev with
  | net d => exact hseen.imp_left (.imp_right (.imp_left (hasking d).mpr))
  | _ => exact hseen

theorem Inv.release {c : Client} (h : Inv cfg s) (hheld : s.holder = some c)
    (hstarting : s.services.starting = [])
    (hidle : ∀ v ∈ c.wants, ¬ s.services.Ready dependencies v) :
    Inv cfg { s with holder := none, adds := s.adds ++ c.rest } := by
  have hrest : ∀ {d phase}, (d, phase) ∈ c.rest → c = .netAdd d ∧ phase = .svwait := by
    intro d phase hmem
    cases c with
    | netAdd d' =>
      cases List.mem_singleton.mp hmem
      exact ⟨rfl, rfl⟩
    | _ => cases hmem
  refine { h with
    held := fun _ => hstarting
    booted := fun hinit => .inr ?_
    tracked := fun dev hdev => (h.tracked dev hdev).imp_seen rfl rfl rfl fun hseen => ?_
    bound := fun d hd => h.bound d ?_
    asked := fun hne => ?_
    added := fun hadded => h.added (hadded.imp_left ?_) }
  · rcases h.booted hinit with hinit | hall
    · rw [hheld] at hinit
      cases hinit
      exact fun v => up_of_release hstarting hidle (mem_wants_rcInit v)
    · exact hall
  · cases dev with
    | net d =>
      refine hseen.imp_left fun hserving => ?_
      rcases hserving with hhandling | (hblocked | hholder) | ⟨phase, hadds⟩
      · exact .inl hhandling
      · exact .inr (.inl (.inl hblocked))
      · rw [hheld] at hholder
        cases hholder
        exact .inr (.inr ⟨.svwait, List.mem_append_right _ List.mem_cons_self⟩)
      · exact .inr (.inr ⟨phase, List.mem_append_left _ hadds⟩)
    | _ => exact hseen
  · rcases hd with (hblocked | hholder) | ⟨phase, hadds⟩ | hadded
    · exact .inl (.inl hblocked)
    · cases hholder
    · rcases List.mem_append.mp hadds with hold | hnew
      · exact .inr (.inl ⟨phase, hold⟩)
      · obtain ⟨rfl, -⟩ := hrest hnew
        exact .inl (.inr hheld)
    · exact .inr (.inr hadded)
  · cases c with
    | netAdd d => exact up_of_release hstarting hidle (List.mem_cons_self)
    | _ => exact h.asked (by simpa [Client.rest] using hne)
  · rintro ⟨d, hd⟩
    rcases List.mem_append.mp hd with hold | hnew
    · exact ⟨d, hold⟩
    · cases (hrest hnew).2

/-! ### Devices -/

theorem listeners_of_step {m m' : Mdev.State} {a : Mdev.Actor} (h : Mdev.step m a = some m') :
    m'.listeners ≠ [] ↔ m.listeners ≠ [] := by
  cases a with
  | wait =>
    obtain ⟨r, -, rfl⟩ := Option.map_eq_some_iff.mp h
    exact Iff.rfl
  | listen i =>
    obtain ⟨l, -, hmove⟩ := Option.bind_eq_some_iff.mp h
    obtain ⟨r, -, rfl⟩ := Option.map_eq_some_iff.mp hmove
    simp

theorem isExited_of_step {m m' : Mdev.State} {a : Mdev.Actor} (h : Mdev.step m a = some m')
    (hexited : m.waiter.isExited = true) : m'.waiter.isExited = true := by
  cases a with
  | wait =>
    obtain ⟨r, hstep, -⟩ := Option.map_eq_some_iff.mp h
    cases hw : m.waiter with
    | exited =>
      rw [hw] at hstep
      cases hstep
    | _ => simp [hw, Mdev.Wait.isExited] at hexited
  | listen i =>
    obtain ⟨l, -, hmove⟩ := Option.bind_eq_some_iff.mp h
    obtain ⟨r, -, rfl⟩ := Option.map_eq_some_iff.mp hmove
    exact hexited

/-- One of the pipes has changed. -/
theorem Inv.update_meet {n : Name} {m : Mdev.State} (h : Inv cfg s) (hstage : Mdev.Stage m)
    (hexited : (s.meet n).waiter.isExited = true → m.waiter.isExited = true) :
    (∀ n', Mdev.Stage (Function.update s.meet n m n')) ∧
      ∀ n' : Name, n'.service ∈ s.services.up →
        (Function.update s.meet n m n').waiter.isExited = true := by
  refine ⟨fun n' => ?_, fun n' hup => ?_⟩
  · by_cases hn : n' = n
    · subst hn
      rw [Function.update_self]
      exact hstage
    · rw [Function.update_of_ne hn]
      exact h.stage n'
  · by_cases hn : n' = n
    · subst hn
      rw [Function.update_self]
      exact hexited (h.waited n' hup)
    · rw [Function.update_of_ne hn]
      exact h.waited n' hup

theorem Inv.meet {n : Name} {a : Mdev.Actor} {m : Mdev.State} (h : Inv cfg s)
    (hstep : Mdev.step (s.meet n) a = some m) :
    Inv cfg { s with meet := Function.update s.meet n m } := by
  have hlisteners : ∀ n', (Function.update s.meet n m n').listeners ≠ [] ↔
      (s.meet n').listeners ≠ [] := by
    intro n'
    by_cases hn : n' = n
    · subst hn
      rw [Function.update_self]
      exact listeners_of_step hstep
    · rw [Function.update_of_ne hn]
  obtain ⟨hstage, hwaited⟩ :=
    h.update_meet (Mdev.stage_step (h.stage n) hstep) (isExited_of_step hstep)
  refine { h with
    stage := hstage
    waited := hwaited
    kvm := fun hne => h.kvm ((hlisteners .kvm).mp hne)
    ext := (hlisteners .ext).trans h.ext
    tracked := fun dev hdev => (h.tracked dev hdev).imp_seen rfl rfl rfl fun hseen => ?_ }
  cases dev with
  | kvm => exact (hlisteners .kvm).mpr hseen
  | card0 => exact (hlisteners .card0).mpr hseen
  | _ => exact hseen

theorem listeners_announce (n n' : Name) :
    ((s.announce n).meet n').listeners ≠ [] ↔ n' = n ∨ (s.meet n').listeners ≠ [] := by
  dsimp only [State.announce]
  by_cases hn : n' = n
  · subst hn
    simp [Mdev.State.announce]
  · rw [Function.update_of_ne hn]
    simp [hn]

theorem Inv.coldplug {dev : Device} {todo : List Device} (h : Inv cfg s)
    (htodo : s.todo = dev :: todo) : Inv cfg { s with todo, queue := s.queue ++ [dev] } := by
  refine { h with
    todo := fun d hd => h.todo d (by rw [htodo]; exact List.mem_cons_of_mem _ hd)
    triggered := fun hup => by simp [h.triggered hup] at htodo
    queue := fun d hd => ?_
    tracked := fun d hd =>
      (h.tracked d hd).imp id (fun hmem => ?_) (fun hmem => ?_) fun hseen => ?_ }
  · rcases List.mem_append.mp hd with hold | hnew
    · exact h.queue d hold
    · rw [List.mem_singleton.mp hnew]
      exact h.todo dev (by rw [htodo]; exact List.mem_cons_self)
  · rw [htodo] at hmem
    rcases List.mem_cons.mp hmem with rfl | hold
    · exact .inr (.inr (.inl (List.mem_append_right _ List.mem_cons_self)))
    · exact .inr (.inl hold)
  · exact .inr (.inr (.inl (List.mem_append_left _ hmem)))
  · cases d <;> exact hseen

/-- mdevd takes an event. -/
theorem Inv.mdevd {dev : Device} {queue : List Device} (h : Inv cfg s)
    (hqueue : s.queue = dev :: queue) (hfree : s.handling = none) :
    Inv cfg (handle { s with queue } dev) := by
  have hpresent : dev ∈ s.present := h.queue dev (by rw [hqueue]; exact List.mem_cons_self)
  have hrest : ∀ d ∈ queue, d ∈ s.present := fun d hd =>
    h.queue d (by rw [hqueue]; exact List.mem_cons_of_mem _ hd)
  -- Whatever the event is for, the others are still where they were.
  have htracked : ∀ {t : State}, t.services = s.services → t.todo = s.todo → t.queue = queue →
      Seen cfg t dev → (∀ d, Seen cfg s d → Seen cfg t d) → ∀ d ∈ s.present, Tracked cfg t d := by
    intro t hservices htodo hq hnew hold d hd
    refine (h.tracked d hd).imp (by rw [hservices]; exact id) (fun hmem => ?_) (fun hmem => ?_)
      (hold d)
    · exact .inr (.inl (htodo ▸ hmem))
    · rw [hqueue] at hmem
      rcases List.mem_cons.mp hmem with rfl | hmem
      · exact .inr (.inr (.inr hnew))
      · exact .inr (.inr (.inl (hq ▸ hmem)))
  have hannounce := fun n => h.update_meet (h.stage n).announce (n := n) id
  cases dev with
  | kvm =>
    refine { h with
      stage := (hannounce .kvm).1
      waited := (hannounce .kvm).2
      queue := hrest
      kvm := fun _ => hpresent
      ext := ?_
      tracked := htracked rfl rfl rfl ((listeners_announce .kvm .kvm).mpr (.inl rfl)) ?_ }
    · exact ((listeners_announce .kvm .ext).trans (or_iff_right (by simp))).trans h.ext
    · intro d hseen
      cases d with
      | kvm => exact (listeners_announce .kvm .kvm).mpr (.inr hseen)
      | card0 => exact (listeners_announce .kvm .card0).mpr (.inr hseen)
      | _ => exact hseen
  | card0 =>
    refine { h with
      stage := (hannounce .card0).1
      waited := (hannounce .card0).2
      queue := hrest
      kvm := fun hne => h.kvm (((listeners_announce .card0 .kvm).mp hne).resolve_left (by simp))
      ext := ?_
      tracked := htracked rfl rfl rfl ((listeners_announce .card0 .card0).mpr (.inl rfl)) ?_ }
    · exact ((listeners_announce .card0 .ext).trans (or_iff_right (by simp))).trans h.ext
    · intro d hseen
      cases d with
      | kvm => exact (listeners_announce .card0 .kvm).mpr (.inr hseen)
      | card0 => exact (listeners_announce .card0 .card0).mpr (.inr hseen)
      | _ => exact hseen
  | block d =>
    refine { h with
      queue := hrest
      blocks := fun d' hd' => ?_
      tracked := htracked rfl rfl rfl (.inl (List.mem_append_right _ List.mem_cons_self)) ?_ }
    · rcases List.mem_append.mp hd' with hold | hnew
      · exact h.blocks d' hold
      · rw [List.mem_singleton.mp hnew]
        exact hpresent
    · intro d' hseen
      cases d' with
      | block d' => exact hseen.imp_left (List.mem_append_left _)
      | _ => exact hseen
  | net d =>
    refine { h with
      queue := hrest
      tracked := htracked rfl rfl rfl (.inl (.inl ⟨.modprobe, rfl⟩)) ?_ }
    intro d' hseen
    cases d' with
    | net d' =>
      refine hseen.imp_left fun hserving => .inr (hserving.resolve_left ?_)
      simp [hfree]
    | _ => exact hseen

theorem Inv.modprobe {d : OsString} (h : Inv cfg s) (hat : s.handling = some (d, .modprobe)) :
    Inv cfg { s with handling := some (d, .bind) } := by
  refine { h with
    tracked := fun dev hdev => (h.tracked dev hdev).imp_seen rfl rfl rfl fun hseen => ?_ }
  cases dev with
  | net d' =>
    refine hseen.imp_left (.imp_left ?_)
    rintro ⟨phase, hphase⟩
    rw [hat] at hphase
    cases hphase
    exact ⟨.bind, rfl⟩
  | _ => exact hseen

theorem Inv.bind {d : OsString} (h : Inv cfg s) (hat : s.handling = some (d, .bind)) :
    Inv cfg { s with
      handling := none, bound := s.bound ++ [d], blocked := s.blocked ++ [.netAdd d] } := by
  refine { h with
    tracked := fun dev hdev => (h.tracked dev hdev).imp_seen rfl rfl rfl fun hseen => ?_
    bound := fun d' hd' => ?_ }
  · cases dev with
    | net d' =>
      refine hseen.imp_left fun hserving => .inr ?_
      rcases hserving with ⟨phase, hphase⟩ | (hblocked | hholder) | hadds
      · rw [hat] at hphase
        cases hphase
        exact .inl (.inl (List.mem_append_right _ List.mem_cons_self))
      · exact .inl (.inl (List.mem_append_left _ hblocked))
      · exact .inl (.inr hholder)
      · exact .inr hadds
    | _ => exact hseen
  · rcases hd' with (hblocked | hholder) | hrest
    · rcases List.mem_append.mp hblocked with hold | hnew
      · exact List.mem_append_left _ (h.bound d' (.inl (.inl hold)))
      · cases List.mem_singleton.mp hnew
        exact List.mem_append_right _ List.mem_cons_self
    · exact List.mem_append_left _ (h.bound d' (.inl (.inr hholder)))
    · exact List.mem_append_left _ (h.bound d' (.inr hrest))

theorem Inv.ln {pre post : List OsString} {d : OsString} (h : Inv cfg s)
    (hblocks : s.blocks = pre ++ d :: post) (hext : cfg.isExt d = true) :
    Inv cfg (State.announce { s with blocks := pre ++ post, link := some d } .ext) := by
  have hmem : ∀ d' ∈ pre ++ post, d' ∈ s.blocks := by
    rw [hblocks]
    simp only [List.mem_append, List.mem_cons]
    tauto
  obtain ⟨hstage, hwaited⟩ := h.update_meet (h.stage .ext).announce (n := .ext) id
  refine { h with
    stage := hstage
    waited := hwaited
    blocks := fun d' hd' => h.blocks d' (hmem d' hd')
    kvm := fun hne => h.kvm (((listeners_announce .ext .kvm).mp hne).resolve_left (by simp))
    link := fun d' hd' => ?_
    ext := ?_
    tracked := fun dev hdev => (h.tracked dev hdev).imp_seen rfl rfl rfl fun hseen => ?_ }
  · cases hd'
    exact ⟨hext, h.blocks d (by rw [hblocks]; simp)⟩
  · exact iff_of_true ((listeners_announce .ext .ext).mpr (.inl rfl)) (by simp [State.announce])
  · cases dev with
    | kvm => exact (listeners_announce .ext .kvm).mpr (.inr hseen)
    | card0 => exact (listeners_announce .ext .card0).mpr (.inr hseen)
    | block d' => exact .inr fun _ => by simp [State.announce]
    | net d' => exact hseen

theorem Inv.noExt {pre post : List OsString} {d : OsString} (h : Inv cfg s)
    (hblocks : s.blocks = pre ++ d :: post) (hnot : cfg.isExt d = true → s.link ≠ none) :
    Inv cfg { s with blocks := pre ++ post } := by
  refine { h with
    blocks := fun d' hd' => h.blocks d' ?_
    tracked := fun dev hdev => (h.tracked dev hdev).imp_seen rfl rfl rfl fun hseen => ?_ }
  · rw [hblocks]
    simp only [List.mem_append, List.mem_cons] at hd' ⊢
    tauto
  · cases dev with
    | block d' =>
      rcases hseen with hmem | hlink
      · rw [hblocks] at hmem
        by_cases hd : d' = d
        · exact .inr (hd ▸ hnot)
        · refine .inl ?_
          simp only [List.mem_append, List.mem_cons, hd, false_or] at hmem ⊢
          exact hmem
      · exact .inr hlink
    | _ => exact hseen

/-! ### VMs -/

/-- The import of one VM has gone on. -/
theorem Inv.vmImport {pre post : List (OsString × Import)} {name : OsString}
    {phase phase' : Import} {instances : List OsString} (h : Inv cfg s)
    (himports : s.imports = pre ++ (name, phase) :: post) (hphase : phase ≠ .done)
    (hdone : phase' = .done → vmName name ∈ s.ready)
    (hwaiting : phase' = .svwait → vmName name ∈ instances)
    (hinstances : ∀ vm ∈ s.instances, vm ∈ instances) :
    Inv cfg { s with imports := pre ++ (name, phase') :: post, instances } := by
  have hknown : s.services.known .extRcInit := by
    by_contra hnot
    have hnil := (h.fresh hnot).1
    simp [himports] at hnil
  have hmem : ∀ {i}, i ∈ pre ++ (name, phase') :: post →
      i ∈ s.imports ∨ i.1 = name ∧ i.2 = phase' := by
    intro i hi
    rw [himports]
    simp only [List.mem_append, List.mem_cons, Prod.ext_iff] at hi ⊢
    tauto
  refine { h with
    tracked := fun dev hdev => (h.tracked dev hdev).imp_seen rfl rfl rfl fun hseen => ?_
    fresh := fun hnot => absurd hknown hnot
    imports := fun hknown => ?_
    imported := fun hup => ?_
    done := fun name' hname' => ?_
    waiting := fun name' hname' => ?_
    ready := fun vm hvm => hinstances vm (h.ready vm hvm) }
  · cases dev <;> exact hseen
  · have hnames := h.imports hknown
    rw [himports] at hnames
    simpa using hnames
  · have hall := h.imported hup (name, phase) (by rw [himports]; simp)
    exact absurd hall hphase
  · rcases hmem hname' with hold | ⟨rfl, heq⟩
    · exact h.done name' hold
    · exact hdone heq.symm
  · rcases hmem hname' with hold | ⟨rfl, heq⟩
    · exact hinstances _ (h.waiting name' hold)
    · exact hwaiting heq.symm

theorem Inv.vmm {name : OsString} (h : Inv cfg s) (hinstance : name ∈ s.instances) :
    Inv cfg { s with ready := s.ready ++ [name] } := by
  refine { h with
    tracked := fun dev hdev => (h.tracked dev hdev).imp_seen rfl rfl rfl fun hseen => ?_
    done := fun name' hname' => List.mem_append_left _ (h.done name' hname')
    ready := fun vm hvm => ?_
    added := fun hadded => List.mem_append_left _ (h.added hadded) }
  · cases dev <;> exact hseen
  · rcases List.mem_append.mp hvm with hold | hnew
    · exact h.ready vm hold
    · rwa [List.mem_singleton.mp hnew]

/-- If the VMs have been imported, the network VM is up. -/
theorem Inv.netvm_ready (h : Inv cfg s) (hup : .extRcInit ∈ s.services.up)
    (hnetvm : os "netvm" ∈ cfg.vms) : netvm ∈ s.ready := by
  rw [← h.imports (.inl hup)] at hnetvm
  obtain ⟨⟨name, phase⟩, hi, hname⟩ := List.mem_map.mp hnetvm
  have hdone := h.imported hup _ hi
  cases hname
  cases hdone
  exact h.done _ hi

theorem Inv.svwait {pre post : List (OsString × Add)} {d : OsString} (h : Inv cfg s)
    (hadds : s.adds = pre ++ (d, .svwait) :: post) (hready : netvm ∈ s.ready) :
    Inv cfg { s with adds := pre ++ (d, .addDevice) :: post } := by
  have hmem : ∀ d', (∃ phase, (d', phase) ∈ pre ++ (d, .addDevice) :: post) ↔
      ∃ phase, (d', phase) ∈ s.adds := by
    intro d'
    rw [hadds]
    simp only [List.mem_append, List.mem_cons, Prod.mk.injEq, exists_or, exists_and_left,
      exists_eq, and_true]
  refine { h with
    tracked := fun dev hdev => (h.tracked dev hdev).imp_seen rfl rfl rfl fun hseen => ?_
    bound := fun d' hd' => h.bound d' (hd'.imp_right (.imp_left (hmem d').mp))
    asked := fun _ => h.asked (by simp [hadds])
    added := fun _ => hready }
  cases dev with
  | net d' => exact hseen.imp_left (.imp_right (.imp_right (hmem d').mpr))
  | _ => exact hseen

/-- One `net/add` is over. -/
theorem Inv.removeAdd {pre post : List (OsString × Add)} {d : OsString} {phase : Add}
    {added : List OsString} (h : Inv cfg s) (hadds : s.adds = pre ++ (d, phase) :: post)
    (hadded : added = s.added ∨ phase = .addDevice ∧ added = s.added ++ [d])
    (hseen : d ∈ added ∨ os "netvm" ∉ cfg.vms ∨ s.services.Lacks dependencies .extRcInit) :
    Inv cfg { s with adds := pre ++ post, added } := by
  have hmem : ∀ i ∈ pre ++ post, i ∈ s.adds := by
    rw [hadds]
    simp only [List.mem_append, List.mem_cons]
    tauto
  have hold : ∀ d' ∈ s.added, d' ∈ added := by
    intro d' hd'
    rcases hadded with rfl | ⟨-, rfl⟩
    · exact hd'
    · exact List.mem_append_left _ hd'
  refine { h with
    tracked := fun dev hdev => (h.tracked dev hdev).imp_seen rfl rfl rfl fun hs => ?_
    bound := fun d' hd' => ?_
    asked := fun _ => h.asked (by simp [hadds])
    added := fun hnew => ?_ }
  · cases dev with
    | net d' =>
      rcases hs with (hhandling | hasking | ⟨phase', hadd⟩) | hmore
      · exact .inl (.inl hhandling)
      · exact .inl (.inr (.inl hasking))
      · rw [hadds] at hadd
        simp only [List.mem_append, List.mem_cons, Prod.mk.injEq] at hadd
        rcases hadd with hpre | ⟨rfl, -⟩ | hpost
        · exact .inl (.inr (.inr ⟨phase', List.mem_append_left _ hpre⟩))
        · exact .inr (hseen.imp_right .inr)
        · exact .inl (.inr (.inr ⟨phase', List.mem_append_right _ hpost⟩))
      · exact .inr (hmore.imp_left (hold d'))
    | _ => exact hs
  · rcases hd' with hasking | ⟨phase', hadd⟩ | hdone
    · exact h.bound d' (.inl hasking)
    · exact h.bound d' (.inr (.inl ⟨phase', hmem _ hadd⟩))
    · rcases hadded with rfl | ⟨-, rfl⟩
      · exact h.bound d' (.inr (.inr hdone))
      · rcases List.mem_append.mp hdone with hdone | hnew
        · exact h.bound d' (.inr (.inr hdone))
        · rw [List.mem_singleton.mp hnew]
          exact h.bound d (.inr (.inl ⟨phase, by rw [hadds]; simp⟩))
  · rcases hnew with ⟨d', hd'⟩ | hne
    · exact h.added (.inl ⟨d', hmem _ hd'⟩)
    · rcases hadded with rfl | ⟨rfl, -⟩
      · exact h.added (.inr hne)
      · exact h.added (.inl ⟨d, by rw [hadds]; simp⟩)

theorem Inv.noNetvm {pre post : List (OsString × Add)} {d : OsString} (h : Inv cfg s)
    (hadds : s.adds = pre ++ (d, .svwait) :: post) (hnone : netvm ∉ s.instances) :
    Inv cfg { s with adds := pre ++ post } := by
  refine h.removeAdd hadds (.inl rfl) (.inr ?_)
  rcases h.asked (by simp [hadds]) with hup | hlacks
  · exact .inl fun hnetvm => hnone (h.ready _ (h.netvm_ready hup hnetvm))
  · exact .inr hlacks

/-! ### Every step -/

theorem Inv.move (h : Inv cfg s) (hmove : Move cfg s s') : Inv cfg s' := by
  cases hmove with
  | granted _ hfree => exact h.granted hfree
  | refused => exact h.refused
  | lock hfree hblocked => exact h.lock hfree hblocked
  | begin hheld _ hready => exact h.begin hheld hready
  | finish hstarting hdone => exact h.finish hstarting fun _ => hdone
  | timeout hstarting => exact h.finish hstarting (by simp)
  | release hheld hstarting hidle => exact h.release hheld hstarting hidle
  | meet hstep => exact h.meet hstep
  | coldplug htodo => exact h.coldplug htodo
  | mdevd hqueue _ hfree => exact h.mdevd hqueue hfree
  | modprobe hat => exact h.modprobe hat
  | bind hat => exact h.bind hat
  | ln hblocks hext => exact h.ln hblocks hext
  | noExt hblocks hnot => exact h.noExt hblocks hnot
  | vmImport himports hphase =>
    refine h.vmImport himports ?_ ?_ ?_ fun _ hvm => hvm
    · rcases hphase with ⟨rfl, -⟩ | ⟨rfl, -⟩ | ⟨rfl, -⟩ <;> simp
    · rcases hphase with ⟨-, rfl⟩ | ⟨-, rfl⟩ | ⟨-, rfl⟩ <;> simp
    · rcases hphase with ⟨-, rfl⟩ | ⟨-, rfl⟩ | ⟨-, rfl⟩ <;> simp
  | create himports =>
    exact h.vmImport himports (by simp) (by simp)
      (fun _ => List.mem_append_right _ List.mem_cons_self) fun _ hvm => List.mem_append_left _ hvm
  | imported himports hready =>
    exact h.vmImport himports (by simp) (fun _ => hready) (by simp) fun _ hvm => hvm
  | svwait hadds hready => exact h.svwait hadds hready
  | noNetvm hadds hnone => exact h.noNetvm hadds hnone
  | addDevice hadds =>
    exact h.removeAdd hadds (.inr ⟨rfl, rfl⟩) (.inl (List.mem_append_right _ List.mem_cons_self))

theorem Inv.appear (h : Inv cfg s) (dev : Device) :
    Inv cfg { s with
      present := s.present ++ [dev]
      queue := if .mdevd ∈ s.services.up then s.queue ++ [dev] else s.queue } := by
  have hold : ∀ d ∈ s.present, d ∈ s.present ++ [dev] := fun d hd => List.mem_append_left _ hd
  refine { h with
    todo := fun d hd => hold d (h.todo d hd)
    queue := fun d hd => ?_
    blocks := fun d hd => hold _ (h.blocks d hd)
    kvm := fun hne => hold _ (h.kvm hne)
    link := fun d hd => (h.link d hd).imp_right (hold _)
    tracked := fun d hd => ?_ }
  · dsimp only at hd
    split at hd
    · rcases List.mem_append.mp hd with hd | hnew
      · exact hold d (h.queue d hd)
      · exact List.mem_append_right _ hnew
    · exact hold d (h.queue d hd)
  · rcases List.mem_append.mp hd with hd | hnew
    · refine (h.tracked d hd).imp id (fun hmem => .inr (.inl hmem)) (fun hmem => ?_) fun hseen => ?_
      · refine .inr (.inr (.inl ?_))
        dsimp only
        split
        · exact List.mem_append_left _ hmem
        · exact hmem
      · cases d <;> exact hseen
    · -- Either mdevd is there to get the event, or `mdevd-coldplug` has not been started.
      by_cases hmdevd : .mdevd ∈ s.services.up
      · refine .inr (.inr (.inl ?_))
        rw [if_pos hmdevd, List.mem_singleton.mp hnew]
        exact List.mem_append_right _ List.mem_cons_self
      · exact .inl fun hknown => hmdevd (h.sound _ hknown _ List.mem_cons_self)

theorem Inv.failModprobe {d : OsString} (h : Inv cfg s) (hat : s.handling = some (d, .modprobe)) :
    Inv cfg { s with handling := none, lost := s.lost ++ [d] } := by
  refine { h with
    tracked := fun dev hdev => (h.tracked dev hdev).imp_seen rfl rfl rfl fun hseen => ?_ }
  cases dev with
  | net d' =>
    rcases hseen with (⟨phase, hphase⟩ | hserving) | hadded | hlost | hrest
    · rw [hat] at hphase
      cases hphase
      exact .inr (.inr (.inl (List.mem_append_right _ List.mem_cons_self)))
    · exact .inl (.inr hserving)
    · exact .inr (.inl hadded)
    · exact .inr (.inr (.inl (List.mem_append_left _ hlost)))
    · exact .inr (.inr (.inr hrest))
  | _ => exact hseen

theorem Inv.vmStart (h : Inv cfg s) : Inv cfg { s with blocked := s.blocked ++ [.vmStart] } := by
  have hasking : ∀ d, State.Asking { s with blocked := s.blocked ++ [.vmStart] } d ↔
      s.Asking d := by
    intro d
    simp [State.Asking]
  refine { h with
    tracked := fun dev hdev => (h.tracked dev hdev).imp_seen rfl rfl rfl fun hseen => ?_
    bound := fun d hd => h.bound d (hd.imp_left (hasking d).mp) }
  cases dev with
  | net d => exact hseen.imp_left (.imp_right (.imp_left (hasking d).mpr))
  | _ => exact hseen

theorem Inv.step {a : Inner ⊕ Outer} (h : Inv cfg s) (hstep : step cfg s a = some s') :
    Inv cfg s' := by
  cases a with
  | inl a => exact h.move (move_of_inner hstep)
  | inr a =>
    cases a with
    | appear dev =>
      cases hstep
      exact h.appear dev
    | vmStart =>
      cases hstep
      exact h.vmStart
    | fail v =>
      obtain ⟨hstarting, hs⟩ := Option.ite_none_right_eq_some.mp hstep
      cases hs
      exact h.finish hstarting (by simp)
    | failModprobe =>
      rw [Rc.step, outer] at hstep
      split at hstep
      case h_1 hat =>
        cases hstep
        exact h.failModprobe hat
      case h_2 => cases hstep
    | supply name =>
      obtain ⟨-, hs⟩ := Option.ite_none_right_eq_some.mp hstep
      cases hs
      refine { h with
        tracked := fun dev hdev => (h.tracked dev hdev).imp_seen rfl rfl rfl fun hseen => ?_ }
      cases dev <;> exact hseen
    | vmm name =>
      obtain ⟨hinstance, hs⟩ := Option.ite_none_right_eq_some.mp hstep
      cases hs
      exact h.vmm (List.contains_iff_mem.mp hinstance)

end Spectrum.Rc
