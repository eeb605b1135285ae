import Spectrum.Net.Phases
import Spectrum.Net.System

/-!
# One complete lifetime

`net_setup` succeeds, the VM process exits, and the exit listener runs to its end, with no
failures but those the state of the network forces. The schedule of the two processes is
arbitrary; the listener may run ahead up to its `poll`, which holds it until the VM process is
gone.

**A lifetime leaves one interface behind**: the router's tap, which cloud-hypervisor keeps open.
It is renamed to `_dead<pid>` to free its name, unless that name is taken, in which case it stays
`router<pid>`. That is `Lifetime.leaves`, and what it means for pids that are used again is in
`Net/Reuse.lean`.
-/

set_option autoImplicit false

namespace Spectrum.Net

open Interact Bytes

/-- Events in which processes take steps and no call fails of its own accord. -/
def Quiet (evs : List Event) : Prop := ∀ ev ∈ evs, ∃ t, ev = .step t none

/-- From `s` to `s'` there is exactly one lifetime, with this pid. -/
structure Lifetime (vm : VmDir) (pid : Nat) (s s' : System) : Prop where
  exists_run : ∃ setup cleanup : List Event, ∃ r : NetConfig,
    Quiet setup ∧ Quiet cleanup ∧
    (s.run (.spawn pid vm :: setup)).pool.result? (.vmm (s.cur + 1)) = some r ∧ r.fd ≠ -1 ∧
    s' = (s.run (.spawn pid vm :: setup)).run (.die :: cleanup) ∧
    s'.pool.thread (.listener (s.cur + 1)) = none

/-- No lifetime is in progress. -/
structure System.Idle (s : System) : Prop where
  dead : s.alive = false
  threads : ∀ t, s.pool.thread t = none
  descs : ∀ d ∈ s.net.descs, ¬ d.proc.Ours

/-! ## The two processes together -/

variable {N₀ : NetState} {g pid : Nat} {vm : VmDir}

theorem NetState.obj_dropDescs {N : NetState} {p : Desc → Bool} {q : Proc} {fd : Int}
    (h : ∀ d ∈ N.descs, d.proc = q → (d.fd : Int) = fd → p d = false) :
    (N.dropDescs p).obj q fd = N.obj q fd := by
  change ((N.descs.filter fun d => !p d).find? _).map Desc.obj = _
  rw [List.find?_filter, obj]
  congr 1
  refine List.find?_congr fun d hd => ?_
  by_cases hq : d.proc = q ∧ (d.fd : Int) = fd
  · simp [hq.1, hq.2, h d hd hq.1 hq.2]
  · rw [not_and_or] at hq
    rcases hq with hq | hq <;> simp [hq]

/-- The child of a fork finds every descriptor where the parent has it. -/
theorem NetState.obj_forkFds {N : NetState} {p q : Proc} (hq : ∀ d ∈ N.descs, d.proc ≠ q)
    (fd : Int) : (N.forkFds p q).obj q fd = N.obj p fd := by
  have hnone : N.descs.find? (fun d => decide (d.proc = q) && decide ((d.fd : Int) = fd)) = none :=
    List.find?_eq_none.mpr fun d hd => by simp [hq d hd]
  simp only [obj, forkFds, List.find?_append, hnone, Option.none_or, List.find?_map,
    List.find?_filter, Option.map_map]
  congr 1
  refine List.find?_congr fun d _ => ?_
  simp

theorem Parked.dropDescs {N : NetState} {b c rt : Iface} {p v : Nat} {q : Desc → Bool}
    (h : Parked N₀ g pid vm b c rt p v N) (hq : ∀ d ∈ N.descs, q d = true → d.proc.Ours)
    (hclient : ∀ d ∈ N.descs, d.proc = .listener g → d.obj = .tap c.index → q d = false)
    (hwrites : ∀ d ∈ N.descs, d.proc = .listener g → d.fd = v → q d = false) :
    Parked N₀ g pid vm b c rt p v (N.dropDescs q) := by
  obtain ⟨d, hd, hp, ho⟩ := h.client
  have hqd := hclient d hd hp ho
  refine ⟨h.wired.dropDescs hq ⟨d, hd, hqd, ho⟩,
    ⟨d, List.mem_filter.mpr ⟨hd, by simp [hqd]⟩, hp, ho⟩, ?_⟩
  rw [NetState.obj_dropDescs fun d hd hp hf => hwrites d hd hp (by exact_mod_cast hf)]
  exact h.writes

/-- The phases of the VM process and of the listener, and what is true of the host. -/
inductive Joint (N₀ : NetState) (g pid : Nat) (vm : VmDir) :
    Option LifePhase → Option LifePhase → Host → Prop
  | setup {w : Host} : Joint N₀ g pid vm (some (.setup w)) none w
  | piped {r v : Nat} {w : Host} : Joint N₀ g pid vm (some (.piped r v w)) none w
  | upChild {v' r v p : Nat} {b c rt : Iface} {w : Host}
    (hp : Parked N₀ g pid vm b c rt p v w.net) (hr : Reads g p v' w.net)
    (hs : Spare g p r v w.net) : Joint N₀ g pid vm (some (.up v')) (some (.child r v)) w
  | upWaiting {v' v p : Nat} {b c rt : Iface} {w : Host}
    (hp : Parked N₀ g pid vm b c rt p v w.net) (hr : Reads g p v' w.net) :
    Joint N₀ g pid vm (some (.up v')) (some (.waiting v)) w
  | child {r v p : Nat} {b c rt : Iface} {w : Host}
    (hp : Parked N₀ g pid vm b c rt p v w.net) (hs : Spare g p r v w.net)
    (hdown : ∀ d ∈ w.net.descs, d.proc ≠ .vmm g) :
    Joint N₀ g pid vm none (some (.child r v)) w
  | waiting {v p : Nat} {b c rt : Iface} {w : Host} (hp : Parked N₀ g pid vm b c rt p v w.net)
    (hdown : ∀ d ∈ w.net.descs, d.proc ≠ .vmm g) :
    Joint N₀ g pid vm none (some (.waiting v)) w
  | cleaning {w : Host} : Joint N₀ g pid vm none (some (.cleaning w)) w
  | left {w : Host} (h : Left N₀ pid w.net) : Joint N₀ g pid vm none none w

namespace Joint

variable {w w' : Host} {x : LifePhase} {l : Option LifePhase} {β : Type} {c : Sys β} {b : β}

/-- A descriptor of the VM process other than its read end is closed. -/
theorem close_vmm {v' : Nat} (h : Joint N₀ g pid vm (some (.up v')) l w) :
    Joint N₀ g pid vm (some (.up v')) l (w.withNet (w.net.closeFd (.vmm g) v')) := by
  have hparked : ∀ {b c rt : Iface} {p v : Nat}, Parked N₀ g pid vm b c rt p v w.net →
      Parked N₀ g pid vm b c rt p v (w.net.closeFd (.vmm g) v') := by
    intro b c rt p v hp
    have hnot : ∀ d : Desc, d.proc = .listener g →
        (decide (d.proc = .vmm g) && decide ((d.fd : Int) = v')) = false := by
      intro d hd
      simp [hd]
    refine hp.dropDescs (fun d _ hq => ?_) (fun d _ hd _ => hnot d hd) (fun d _ hd _ => hnot d hd)
    simp only [Bool.and_eq_true, decide_eq_true_eq] at hq
    exact hq.1 ▸ trivial
  have hreads : ∀ {p : Nat}, Reads g p v' w.net → Reads g p v' (w.net.closeFd (.vmm g) v') := by
    rintro p ⟨d, hd, hp, hf, ho⟩
    exact ⟨d, NetState.mem_closeFd_descs.mpr ⟨hd, fun h => hf (by exact_mod_cast h.2)⟩, hp, hf, ho⟩
  cases h with
  | upChild hp hr hs =>
    exact .upChild (hparked hp) (hreads hr)
      ⟨hs.1, fun d hd => hs.2 d (NetState.mem_closeFd_descs.mp hd).1⟩
  | upWaiting hp hr => exact .upWaiting (hparked hp) (hreads hr)

/-- The listener closes the read end it inherited. -/
theorem close_child {r v : Nat} {u : Option LifePhase}
    (h : Joint N₀ g pid vm u (some (.child r v)) w) :
    Joint N₀ g pid vm u (some (.waiting v)) (w.withNet (w.net.closeFd (.listener g) r)) := by
  have hparked : ∀ {b c rt : Iface} {p : Nat}, Parked N₀ g pid vm b c rt p v w.net →
      Spare g p r v w.net → Parked N₀ g pid vm b c rt p v (w.net.closeFd (.listener g) r) := by
    intro b c rt p hp hs
    refine hp.dropDescs (fun d _ hq => ?_) (fun d hd hdp ho => ?_) (fun d _ hdp hf => ?_)
    · simp only [Bool.and_eq_true, decide_eq_true_eq] at hq
      exact hq.1 ▸ trivial
    · have : d.fd ≠ r := fun hf => by
        rw [hs.2 d hd hdp hf] at ho
        cases ho
      simpa [hdp] using this
    · have : ¬ v = r := fun hv => hs.1 hv.symm
      simpa [hdp, hf] using this
  cases h with
  | upChild hp hr hs =>
    obtain ⟨d, hd, hdp, hf, ho⟩ := hr
    refine .upWaiting (hparked hp hs) ⟨d, NetState.mem_closeFd_descs.mpr ⟨hd, ?_⟩, hdp, hf, ho⟩
    simp [hdp]
  | child hp hs hdown =>
    exact .waiting (hparked hp hs) fun d hd => hdown d (NetState.mem_closeFd_descs.mp hd).1

/-- A call of the VM process. -/
theorem vmm (h : Joint N₀ g pid vm (some x) l w) (hpre : (lifeSpec N₀ g pid vm).pre x c)
    (hx : exec (.vmm g) c w none = some (.resume b, w')) :
    ∃ y, (lifeSpec N₀ g pid vm).post x c b y ∧ Joint N₀ g pid vm (some y) l w' := by
  cases x with
  | setup u =>
    cases h
    cases c with
    | pipe =>
      have hx' : w.attempt (.vmm g) .pipe (fun _ => none) none (w.net.pipe (.vmm g)) =
        some (.resume b, w') := hx
      rcases Host.attempt_cases hx' with ⟨e, he, -, -⟩ | ⟨ends, N, -, hN, ho, rfl⟩
      · rcases he with he | ⟨-, he⟩
        · cases he
        · simp [NetState.pipe] at he
      · cases ho
        obtain ⟨r, v, rfl, -⟩ := NetState.pipe_ok hN
        exact ⟨_, ⟨_, r, v, hx, rfl, rfl⟩, .piped⟩
    | fork | poll | exit => exact hpre.elim
    | _ => exact ⟨_, ⟨w', hx, rfl⟩, .setup⟩
  | piped r v u =>
    cases c with
    | fork => cases hx
    | _ => exact hpre.elim
  | up v =>
    cases c with
    | close fd =>
      obtain rfl : fd = v := hpre
      refine ⟨_, rfl, ?_⟩
      simp only [exec] at hx
      split at hx <;> cases hx
      · exact h.close_vmm
      · cases h with
        | upChild hp hr hs => exact .upChild hp hr hs
        | upWaiting hp hr => exact .upWaiting hp hr
    | _ => exact hpre.elim
  | child r v => cases h
  | waiting v => cases h
  | cleaning u => cases h

/-- A call of the listener. -/
theorem listener {u : Option LifePhase} (h : Joint N₀ g pid vm u (some x) w)
    (hpre : (lifeSpec N₀ g pid vm).pre x c)
    (hx : exec (.listener g) c w none = some (.resume b, w')) :
    ∃ y, (lifeSpec N₀ g pid vm).post x c b y ∧ Joint N₀ g pid vm u (some y) w' := by
  cases x with
  | setup _ => cases h
  | piped _ _ _ => cases h
  | up _ => cases h
  | child r v =>
    cases c with
    | close fd =>
      obtain rfl : fd = r := hpre
      refine ⟨_, rfl, ?_⟩
      simp only [exec] at hx
      split at hx <;> cases hx
      · exact h.close_child
      · cases h with
        | upChild hp hr hs => exact .upWaiting hp hr
        | child hp hs hdown => exact .waiting hp hdown
    | _ => exact hpre.elim
  | waiting v =>
    cases c with
    | poll fd =>
      obtain rfl : fd = v := hpre
      simp only [exec] at hx
      split at hx <;> cases hx
      rename_i hgone
      cases h with
      | upWaiting hp hr =>
        -- The VM process still has the read end, so `poll` does not return.
        obtain ⟨d, hd, -, -, ho⟩ := hr
        simp only [NetState.readerGone, hp.writes, Bool.not_eq_true', List.any_eq_false,
          decide_eq_true_eq] at hgone
        exact absurd ho (hgone d hd)
      | waiting hp hdown => exact ⟨_, ⟨rfl, w, ⟨_, _, _, _, _, hp, hdown⟩, rfl⟩, .cleaning⟩
    | _ => exact hpre.elim
  | cleaning _ =>
    cases h
    cases c with
    | pipe | fork | poll => exact hpre.elim
    | exit => cases hx
    | _ => exact ⟨_, ⟨w', hx, rfl⟩, .cleaning⟩

/-- The fork. -/
theorem fork {r v : Nat} (hf : Forkable N₀ g pid vm r v w.net) :
    Joint N₀ g pid vm (some (.up v)) (some (.child r v))
      (w.withNet (w.net.forkFds (.vmm g) (.listener g))) := by
  obtain ⟨b, c, rt, p, hw, hne, ⟨d₁, hd₁, hp₁, ho₁⟩, ⟨d₂, hd₂, hp₂, hf₂, ho₂⟩, huniq, hobj,
    hfresh⟩ := hf
  have hcopy : ∀ d ∈ w.net.descs, d.proc = .vmm g →
      { d with proc := .listener g } ∈ (w.net.forkFds (.vmm g) (.listener g)).descs := by
    intro d hd hp
    refine List.mem_append_right _ (List.mem_map.mpr ⟨d, List.mem_filter.mpr ⟨hd, ?_⟩, rfl⟩)
    simpa using hp
  have hparked : Parked N₀ g pid vm b c rt p v (w.net.forkFds (.vmm g) (.listener g)) :=
    ⟨hw.forkFds, ⟨_, hcopy d₁ hd₁ hp₁, rfl, ho₁⟩, (NetState.obj_forkFds hfresh _).trans hobj⟩
  refine .upChild hparked ⟨d₂, List.mem_append_left _ hd₂, hp₂, hf₂ ▸ hne, ho₂⟩ ⟨hne, ?_⟩
  intro d hd hp hfd
  rcases List.mem_append.mp hd with hd | hd
  · exact absurd hp (hfresh d hd)
  · obtain ⟨d', hd', rfl⟩ := List.mem_map.mp hd
    obtain ⟨hm, hproc⟩ := List.mem_filter.mp hd'
    exact huniq d' hm (by simpa using hproc) hfd

/-- Only the VM process can be about to fork, and it is alone then. -/
theorem of_piped {r v : Nat} {w₁ : Host} (h : Joint N₀ g pid vm (some (.piped r v w₁)) l w) :
    l = none ∧ w₁ = w := by
  cases h
  exact ⟨rfl, rfl⟩

theorem not_piped {u : Option LifePhase} {r v : Nat} {w₁ : Host} :
    ¬ Joint N₀ g pid vm u (some (.piped r v w₁)) w := nofun

/-- Only the listener cleans up, and it is alone then. -/
theorem of_cleaning {u : Option LifePhase} {w₁ : Host}
    (h : Joint N₀ g pid vm u (some (.cleaning w₁)) w) : u = none ∧ w₁ = w := by
  cases h
  exact ⟨rfl, rfl⟩

theorem not_cleaning {w₁ : Host} : ¬ Joint N₀ g pid vm (some (.cleaning w₁)) l w := nofun

/-- The VM process dies. -/
theorem die {v' : Nat} (h : Joint N₀ g pid vm (some (.up v')) l w) :
    Joint N₀ g pid vm none l (w.withNet (w.net.exitProc (.vmm g))) := by
  have hparked : ∀ {b c rt : Iface} {p v : Nat}, Parked N₀ g pid vm b c rt p v w.net →
      Parked N₀ g pid vm b c rt p v (w.net.exitProc (.vmm g)) := by
    intro b c rt p v hp
    have hnot : ∀ d : Desc, d.proc = .listener g → decide (d.proc = .vmm g) = false := by
      intro d hd
      simp [hd]
    refine hp.dropDescs (fun d _ hq => ?_) (fun d _ hd _ => hnot d hd) (fun d _ hd _ => hnot d hd)
    rw [decide_eq_true_eq] at hq
    exact hq ▸ trivial
  have hdown : ∀ d ∈ (w.net.exitProc (.vmm g)).descs, d.proc ≠ .vmm g := by
    intro d hd
    simpa using (List.mem_filter.mp hd).2
  cases h with
  | upChild hp _ hs =>
    exact .child (hparked hp) ⟨hs.1, fun d hd => hs.2 d (List.mem_of_mem_filter hd)⟩ hdown
  | upWaiting hp _ => exact .waiting (hparked hp) hdown

end Joint

/-- Only the two processes are running, and they are where `Joint` says. -/
def LifeInv (N₀ : NetState) (g pid : Nat) (vm : VmDir) (w : Host) (ph : Proc → Option LifePhase) :
    Prop :=
  (∀ t, t ≠ .vmm g → t ≠ .listener g → ph t = none) ∧
    Joint N₀ g pid vm (ph (.vmm g)) (ph (.listener g)) w

theorem LifeInv.who {w : Host} {ph : Proc → Option LifePhase} (h : LifeInv N₀ g pid vm w ph)
    {t : Proc} {x : LifePhase} (ht : ph t = some x) : t = .vmm g ∨ t = .listener g := by
  by_cases hv : t = .vmm g
  · exact Or.inl hv
  · by_cases hl : t = .listener g
    · exact Or.inr hl
    · rw [h.1 t hv hl] at ht
      cases ht

theorem life_modular (N₀ : NetState) (g pid : Nat) (vm : VmDir) :
    Modular kernel (lifeSpec N₀ g pid vm) (fun _ ch => ch = none) (LifeInv N₀ g pid vm) where
  resume := by
    rintro β t c w w' ph x ch b rfl hinv ht hpre h
    have hothers : ∀ {u : Proc} (y : LifePhase), u = .vmm g ∨ u = .listener g →
        ∀ t, t ≠ .vmm g → t ≠ .listener g → Function.update ph u (some y) t = none := by
      rintro u y hu t hv hl
      rw [Function.update_of_ne (by rintro rfl; exact hu.elim hv hl)]
      exact hinv.1 t hv hl
    rcases hinv.who ht with rfl | rfl
    · obtain ⟨y, hpost, hj⟩ := (ht ▸ hinv.2).vmm hpre h
      refine ⟨y, hpost, hothers y (Or.inl rfl), ?_⟩
      simpa using hj
    · obtain ⟨y, hpost, hj⟩ := (ht ▸ hinv.2).listener hpre h
      refine ⟨y, hpost, hothers y (Or.inr rfl), ?_⟩
      simpa using hj
  fork := by
    rintro β t t' c w w' ph x ch b b' rfl hinv ht hpre h
    have hfork := (exec_fork h).1
    cases c with
    | fork =>
      cases h
      -- Only `start-vmm` with its pipe open may fork.
      cases x with
      | piped r v u =>
        rcases hinv.who ht with rfl | rfl
        · obtain ⟨-, rfl⟩ := Joint.of_piped (ht ▸ hinv.2)
          refine ⟨_, _, Or.inl ⟨rfl, rfl⟩, Or.inr ⟨rfl, rfl⟩, ?_⟩
          simp only [Proc.life]
          refine ⟨fun t hv hl => ?_, ?_⟩
          · rw [Function.update_of_ne hl, Function.update_of_ne hv]
            exact hinv.1 t hv hl
          · simpa using Joint.fork hpre
        · exact absurd (ht ▸ hinv.2) Joint.not_piped
      | setup | cleaning | up | child | waiting => exact hpre.elim
    | _ => cases hfork
  halt := by
    rintro β t c w w' ph x ch rfl hinv ht hpre h
    obtain ⟨hexit, rfl⟩ := exec_halt h
    cases c with
    | exit =>
      cases x with
      | cleaning u =>
        rcases hinv.who ht with rfl | rfl
        · exact absurd (ht ▸ hinv.2) Joint.not_cleaning
        · obtain ⟨hnone, rfl⟩ := Joint.of_cleaning (ht ▸ hinv.2)
          have hleft : Joint N₀ g pid vm none none (u.withNet (u.net.exitProc (.listener g))) :=
            .left hpre
          refine ⟨fun t hv hl => ?_, ?_⟩
          · rw [Function.update_of_ne hl]
            exact hinv.1 t hv hl
          · simpa [hnone] using hleft
      | setup | piped | up | child | waiting => exact hpre.elim
    | _ => cases hexit

/-! ## What a lifetime leaves -/

/-- Quiet events keep a good pool good, and start no VM process. -/
theorem System.run_quiet {s : System} {evs : List Event} (hq : Quiet evs)
    (hs : s.pool.Good (lifeSpec N₀ g pid vm) SetupDone (LifeInv N₀ g pid vm)) :
    (s.run evs).pool.Good (lifeSpec N₀ g pid vm) SetupDone (LifeInv N₀ g pid vm) ∧
      (s.run evs).cur = s.cur ∧ (s.run evs).alive = s.alive ∧
      ∀ n, s.pool.thread (.vmm n) = none → (s.run evs).pool.thread (.vmm n) = none := by
  induction evs generalizing s with
  | nil => exact ⟨hs, rfl, rfl, fun _ => id⟩
  | cons ev evs ih =>
    obtain ⟨t, rfl⟩ := hq ev List.mem_cons_self
    have hstep := (life_modular N₀ g pid vm).step (t := t) hs rfl
    obtain ⟨hgood, hcur, halive, hthread⟩ :=
      ih (s := s.next (.step t none)) (fun ev h => hq ev (List.mem_cons_of_mem _ h)) hstep
    refine ⟨hgood, hcur, halive, fun n hn => hthread n (Pool.step_thread hn ?_)⟩
    intro β c w w' b b' he
    cases (exec_fork he).2.1

/-- **One interface is left, under the name `_dead<pid>` if that was free.** -/
theorem Lifetime.leaves {s s' : System} (h : Lifetime vm pid s s') (hidle : s.Idle) :
    Left s.net pid s'.net ∧ s'.Idle := by
  obtain ⟨σ, τ, r, hσ, hτ, hres, hfd, rfl, hgone⟩ := h.exists_run
  -- The lifetime begins with the VM process alone.
  have hstart : (s.next (.spawn pid vm)) = s.start pid vm := by simp [System.next, hidle.dead]
  have h₀ : (s.start pid vm).pool.Good (lifeSpec s.net (s.cur + 1) pid vm) SetupDone
      (LifeInv s.net (s.cur + 1) pid vm) := by
    have hnone : Pool.Phased (lifeSpec s.net (s.cur + 1) pid vm) SetupDone s.pool.thread
        fun _ => none := fun t => by simp [hidle.threads t]
    refine ⟨_, ⟨fun t hv _ => ?_, ?_⟩, hnone.update (wp_netSetup_life (w := s.pool.world) rfl
      hidle.descs wp_child_life)⟩
    · rw [Function.update_of_ne hv]
    · simpa [System.start] using Joint.setup
  simp only [System.run_cons, hstart] at hres hgone ⊢
  obtain ⟨h₁, hcur, halive, -⟩ := System.run_quiet hσ h₀
  generalize (s.start pid vm).run σ = s₁ at *
  have hcur : s₁.cur = s.cur + 1 := hcur
  have halive : s₁.alive = true := halive
  -- It has returned a descriptor, so it has forked.
  obtain ⟨ph, hinv, hph⟩ := h₁
  obtain ⟨p, hp, hret⟩ := Option.bind_eq_some_iff.mp hres
  obtain ⟨x, hx, hwp⟩ := hph.get hp
  rw [Prog.eq_ret_of_returned? hret] at hwp
  obtain ⟨v, rfl⟩ := (show SetupDone r x from hwp).resolve_left hfd
  -- It dies.
  have hkill : s₁.next .die = s₁.kill := by simp [System.next, halive]
  have h₂ : s₁.kill.pool.Good (lifeSpec s.net (s.cur + 1) pid vm) SetupDone
      (LifeInv s.net (s.cur + 1) pid vm) := by
    refine ⟨_, ⟨fun t hv hl => ?_, ?_⟩, hph.erase (.vmm s₁.cur)⟩
    · rw [hcur, Function.update_of_ne hv]
      exact hinv.1 t hv hl
    · have hj := (hx ▸ hinv.2 : Joint _ _ _ _ (some (.up v)) _ _).die
      simpa [System.kill, System.net, hcur] using hj
  rw [hkill] at hgone ⊢
  obtain ⟨⟨ph', hinv', hph'⟩, -, hdead, hthread⟩ := System.run_quiet hτ h₂
  -- The listener has run to its end.
  have hvmm := hthread (s.cur + 1) (by simp [System.kill, hcur])
  have hj := hinv'.2
  rw [hph'.eq_none.mp hvmm, hph'.eq_none.mp hgone] at hj
  cases hj with
  | left hleft =>
    refine ⟨hleft, hdead, fun t => ?_, hleft.descs⟩
    by_cases hv : t = .vmm (s.cur + 1)
    · exact hv ▸ hvmm
    · by_cases hl : t = .listener (s.cur + 1)
      · exact hl ▸ hgone
      · exact hph'.eq_none.mpr (hinv'.1 t hv hl)

end Spectrum.Net
