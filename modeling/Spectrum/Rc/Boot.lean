import Spectrum.Rc.Invariant

/-!
# The boot comes to an end

**The boot does not get stuck by itself** (`boot_completes`). In every interleaving in which a
graphics card and the user partition turn up, and mdevd and mdevd-coldplug do not fail, there is
nothing but `vm-import` that s6-rc could wait for; and that waits only for VMMs, and for what
`create-vm-dependencies` starts, to be ready. If they all are, s6-rc comes to an end, and what is
not up then depends on something that has failed. All that was waiting for the lock gets it, and
every network device ends up in the network VM if there is one. On the way no VM is imported before
the user partition is mounted and KVM is there.

The lock can be had too early: who runs `vm-start` before `rc.init` has come to s6-rc makes
`rc.init` fail, because it does not ask s6-rc to wait.
-/

set_option autoImplicit false

namespace Spectrum.Rc

open Schedule Services Spectrum.Vmm

variable {cfg : Config} {s s' : State}

/-! ## How much is left to do -/

def Service.all : List Service :=
  [.card0, .core, .ext, .extRcInit, .kvm, .mdevd, .mdevdColdplug, .staticNodes, .weston]

theorem Service.mem_all (v : Service) : v ∈ Service.all := by
  cases v <;> decide

def NetAdd.remaining : NetAdd → Nat
  | .modprobe => 8
  | .bind => 7

def Add.remaining : Add → Nat
  | .svwait => 2
  | .addDevice => 1

def Import.remaining : Import → Nat
  | .mkdir => 5
  | .ln => 4
  | .dependencies => 3
  | .create => 2
  | .svwait => 1
  | .done => 0

def Init.remaining : Init → Nat
  | .mount => 6
  | _ => 0

/-- What `mdevd-coldplug` has to trigger. -/
def untriggered (services : Status Service) (todo present : List Device) : List Device :=
  if services.known .mdevdColdplug then todo else present

/-- What `vm-import` has to do. -/
def unimported (vms : List OsString) (services : Status Service)
    (imports : List (OsString × Import)) : Nat :=
  if services.known .extRcInit then (imports.map fun i => i.2.remaining).sum else 5 * vms.length

variable (cfg) in
def State.remaining (s : State) : Nat :=
  s.services.remaining Service.all + s.init.remaining + 5 * s.holder.toList.length +
    6 * s.blocked.length + 10 * (untriggered s.services s.todo s.present).length +
    9 * s.queue.length + (s.handling.toList.map fun r => r.2.remaining).sum +
    7 * s.blocks.length +
    ((s.meet .card0).remaining + (s.meet .ext).remaining + (s.meet .kvm).remaining) +
    unimported cfg.vms s.services s.imports +
    (s.adds.map fun r => r.2.remaining).sum

/-- One of the pipes has changed. -/
theorem remaining_update {n : Name} {m : Mdev.State} {k : Nat}
    (hm : m.remaining < (s.meet n).remaining + k) :
    (Function.update s.meet n m .card0).remaining + (Function.update s.meet n m .ext).remaining +
        (Function.update s.meet n m .kvm).remaining <
      (s.meet .card0).remaining + (s.meet .ext).remaining + (s.meet .kvm).remaining + k := by
  cases n <;> simp only [Function.update, reduceCtorEq, dite_true, dite_false] <;> omega

theorem remaining_finish {v : Service} {ok : Bool} (hv : v ∈ s.services.starting) :
    State.remaining cfg { s with services := s.services.finish v ok } < s.remaining cfg := by
  have hless : (s.services.finish v ok).remaining Service.all < s.services.remaining Service.all :=
    Status.remaining_finish hv
  have huntriggered : untriggered (s.services.finish v ok) s.todo s.present =
      untriggered s.services s.todo s.present := if_congr (Status.known_finish hv) rfl rfl
  have hunimported : unimported cfg.vms (s.services.finish v ok) s.imports =
      unimported cfg.vms s.services s.imports := if_congr (Status.known_finish hv) rfl rfl
  simp only [State.remaining, huntriggered, hunimported]
  omega

theorem remaining_begin {v : Service} (hnew : ¬ s.services.known v) :
    State.remaining cfg (s.begin cfg v) < s.remaining cfg := by
  have hless := Status.remaining_begin (Service.mem_all v) hnew
  have hknown : ∀ {w}, w ≠ v → ((s.services.begin v).known w ↔ s.services.known w) := fun hne =>
    Status.known_begin.trans (or_iff_left hne)
  have hbegun : (s.services.begin v).known v := Status.known_begin.mpr (.inr rfl)
  have huntriggered : untriggered (s.services.begin v)
      (if v = .mdevdColdplug then s.present else s.todo) s.present =
        untriggered s.services s.todo s.present := by
    by_cases hv : v = .mdevdColdplug
    · subst hv
      rw [if_pos rfl, untriggered, untriggered, if_neg hnew, if_pos hbegun]
    · rw [if_neg hv]
      exact if_congr (hknown fun heq => hv heq.symm) rfl rfl
  have hunimported : unimported cfg.vms (s.services.begin v)
      (if v = .extRcInit then cfg.vms.map fun name => (name, .mkdir) else s.imports) =
        unimported cfg.vms s.services s.imports := by
    by_cases hv : v = .extRcInit
    · subst hv
      rw [if_pos rfl, unimported, unimported, if_neg hnew, if_pos hbegun]
      simp [Function.comp_def, Import.remaining, Nat.mul_comm]
    · rw [if_neg hv]
      exact if_congr (hknown fun heq => hv heq.symm) rfl rfl
  simp only [State.remaining, State.begin, huntriggered, hunimported]
  omega

/-- The import of one VM has gone on. -/
theorem Inv.remaining_vmImport {pre post : List (OsString × Import)} {name : OsString}
    {phase phase' : Import} {instances : List OsString} (h : Inv cfg s)
    (himports : s.imports = pre ++ (name, phase) :: post)
    (hphase : phase'.remaining < phase.remaining) :
    State.remaining cfg { s with imports := pre ++ (name, phase') :: post, instances } <
      s.remaining cfg := by
  have hknown : s.services.known .extRcInit := by
    by_contra hnot
    have hnil := (h.fresh hnot).1
    simp [himports] at hnil
  have hsum : ∀ imports, unimported cfg.vms s.services imports =
      (imports.map fun i => i.2.remaining).sum := fun _ => if_pos hknown
  simp only [State.remaining, himports, hsum, List.map_append, List.map_cons, List.sum_append,
    List.sum_cons]
  omega

theorem Inv.remaining_lt (h : Inv cfg s) (hmove : Move cfg s s') :
    s'.remaining cfg < s.remaining cfg := by
  have hannounce : ∀ n, (s.meet n).announce.remaining < (s.meet n).remaining + 7 := fun n => by
    rw [Mdev.remaining_announce]
    omega
  cases hmove with
  | granted hinit hfree =>
    simp only [State.remaining, hinit, hfree, Init.remaining, Option.toList, List.length_cons,
      List.length_nil]
    omega
  | refused hinit =>
    simp only [State.remaining, hinit, Init.remaining]
    omega
  | lock hfree hblocked =>
    simp only [State.remaining, hfree, hblocked, Option.toList, List.length_append,
      List.length_cons, List.length_nil]
    omega
  | begin _ _ hready => exact remaining_begin hready.1
  | finish hstarting => exact remaining_finish hstarting
  | timeout hstarting => exact remaining_finish hstarting
  | @release c hheld =>
    have hrest : (c.rest.map fun r => r.2.remaining).sum ≤ 2 := by
      cases c <;> simp [Client.rest, Add.remaining]
    simp only [State.remaining, hheld, List.map_append, List.sum_append, Option.toList,
      List.length_cons, List.length_nil]
    omega
  | @meet n a m hstep =>
    have hless := remaining_update (k := 0) (Mdev.step_remaining (h.stage n) hstep)
    simp only [State.remaining]
    omega
  | coldplug htodo hstarting =>
    have hrest : ∀ todo, untriggered s.services todo s.present = todo := fun _ =>
      if_pos (.inr (.inl hstarting))
    simp only [State.remaining, hrest, htodo, List.length_append, List.length_cons,
      List.length_nil]
    omega
  | @mdevd dev queue hqueue _ hfree =>
    cases dev with
    | kvm =>
      have hless := remaining_update (hannounce .kvm)
      simp only [handle, State.announce, State.remaining, hqueue, List.length_cons]
      omega
    | card0 =>
      have hless := remaining_update (hannounce .card0)
      simp only [handle, State.announce, State.remaining, hqueue, List.length_cons]
      omega
    | block d =>
      simp only [handle, State.remaining, hqueue, List.length_append, List.length_cons,
        List.length_nil]
      omega
    | net d =>
      simp only [handle, State.remaining, hqueue, hfree, List.length_cons, Option.toList,
        List.map_cons, List.map_nil, List.sum_cons, List.sum_nil, NetAdd.remaining]
      omega
  | modprobe hat =>
    simp only [State.remaining, hat, Option.toList, List.map_cons, List.map_nil, List.sum_cons,
      List.sum_nil, NetAdd.remaining]
    omega
  | bind hat =>
    simp only [State.remaining, hat, Option.toList, List.map_cons, List.map_nil, List.sum_cons,
      List.sum_nil, NetAdd.remaining, List.length_append, List.length_cons, List.length_nil]
    omega
  | ln hblocks =>
    have hless := remaining_update (hannounce .ext)
    simp only [State.announce, State.remaining, hblocks, List.length_append, List.length_cons]
    omega
  | noExt hblocks =>
    simp only [State.remaining, hblocks, List.length_append, List.length_cons]
    omega
  | vmImport himports hphase =>
    refine h.remaining_vmImport himports ?_
    rcases hphase with ⟨rfl, rfl⟩ | ⟨rfl, rfl⟩ | ⟨rfl, rfl⟩ <;> decide
  | create himports => exact h.remaining_vmImport himports (by decide)
  | imported himports => exact h.remaining_vmImport himports (by decide)
  | svwait hadds =>
    simp only [State.remaining, hadds, List.map_append, List.map_cons, List.sum_append,
      List.sum_cons, Add.remaining]
    omega
  | noNetvm hadds =>
    simp only [State.remaining, hadds, List.map_append, List.map_cons, List.sum_append,
      List.sum_cons, Add.remaining]
    omega
  | addDevice hadds =>
    simp only [State.remaining, hadds, List.map_append, List.map_cons, List.sum_append,
      List.sum_cons, Add.remaining]
    omega

/-- What comes from outside makes little work. -/
theorem remaining_outer {a : Outer} (hstep : outer s a = some s') :
    s'.remaining cfg ≤ s.remaining cfg + 19 := by
  cases a with
  | appear dev =>
    cases hstep
    have huntriggered : (untriggered s.services s.todo (s.present ++ [dev])).length ≤
        (untriggered s.services s.todo s.present).length + 1 := by
      rw [untriggered, untriggered]
      split
      · omega
      · simp
    have hqueue : (if .mdevd ∈ s.services.up then s.queue ++ [dev] else s.queue).length ≤
        s.queue.length + 1 := by
      split
      · simp
      · omega
    simp only [State.remaining]
    omega
  | vmStart =>
    cases hstep
    simp only [State.remaining, List.length_append, List.length_cons, List.length_nil]
    omega
  | fail v =>
    obtain ⟨hstarting, hs⟩ := Option.ite_none_right_eq_some.mp hstep
    cases hs
    exact Nat.le_add_right_of_le (remaining_finish hstarting).le
  | failModprobe =>
    rw [outer] at hstep
    split at hstep
    case h_1 hat =>
      cases hstep
      simp only [State.remaining, hat, Option.toList, List.map_nil, List.sum_nil]
      omega
    case h_2 => cases hstep
  | supply name =>
    obtain ⟨-, hs⟩ := Option.ite_none_right_eq_some.mp hstep
    cases hs
    exact Nat.le_add_right ..
  | vmm name =>
    obtain ⟨-, hs⟩ := Option.ite_none_right_eq_some.mp hstep
    cases hs
    exact Nat.le_add_right ..

/-! ## When nobody can go on -/

/-- Nothing is missing that `vm-import` and `net/add` wait for: what `create-vm-dependencies` has
started is ready, and so is every VMM. -/
structure AllReady (s : State) : Prop where
  supplied : ∀ name, (name, .dependencies) ∈ s.imports → name ∈ s.supplied
  vmms : ∀ vm ∈ s.instances, vm ∈ s.ready

section Stuck

variable (hstuck : Stuck (inner cfg) s)

include hstuck

theorem init_of_stuck : s.init ≠ .mount := by
  intro hinit
  have hnone := hstuck .rcInit
  rw [inner, hinit] at hnone
  cases hheld : s.holder <;> simp [hheld] at hnone

theorem handling_of_stuck : s.handling = none := by
  have hnone := hstuck .netAdd
  rw [inner] at hnone
  split at hnone
  case h_1 => cases hnone
  case h_2 => cases hnone
  case h_3 hat => exact hat

theorem blocks_of_stuck : s.blocks = [] := by
  cases hblocks : s.blocks with
  | nil => rfl
  | cons d blocks =>
    have hnone := hstuck (.block 0)
    simp [inner, hblocks] at hnone

theorem scriptDone_of_stuck {v : Service} (hv : v ∈ s.services.starting) :
    s.scriptDone v = false := by
  have hnone := hstuck (.finish v)
  cases hdone : s.scriptDone v with
  | false => rfl
  | true => simp [inner, hv, hdone] at hnone

theorem kvm_of_stuck : .kvm ∉ s.services.starting := by
  intro hv
  have hnone := hstuck .timeout
  simp [inner, hv] at hnone

theorem coldplug_of_stuck : .mdevdColdplug ∉ s.services.starting := by
  intro hv
  have hdone := scriptDone_of_stuck hstuck hv
  have hnone := hstuck .coldplug
  cases htodo : s.todo with
  | nil => simp [State.scriptDone, htodo] at hdone
  | cons dev todo => simp [inner, htodo, hv] at hnone

theorem Inv.imports_of_stuck (h : Inv cfg s) (hready : AllReady s) :
    .extRcInit ∉ s.services.starting := by
  intro hv
  have hdone := scriptDone_of_stuck hstuck hv
  simp only [State.scriptDone, List.all_eq_false, decide_eq_true_eq] at hdone
  obtain ⟨⟨name, phase⟩, hi, hphase⟩ := hdone
  obtain ⟨i, hi'⟩ := List.mem_iff_getElem?.mp hi
  have hnone := hstuck (.vmImport i)
  cases phase with
  | dependencies => simp [inner, hi', hready.supplied name hi] at hnone
  | svwait => simp [inner, hi', hready.vmms _ (h.waiting name hi)] at hnone
  | done => exact hphase rfl
  | _ => simp [inner, hi'] at hnone

theorem meet_of_stuck {n : Name} (hv : n.service ∈ s.services.starting) :
    Stuck Mdev.step (s.meet n) := by
  intro a
  cases a with
  | wait =>
    have hnone := hstuck (.wait n)
    simpa [inner, hv] using hnone
  | listen i =>
    have hnone := hstuck (.listen n i)
    simpa [inner] using hnone

/-- A service whose device has been announced does not wait any more. -/
theorem Inv.wait_of_stuck (h : Inv cfg s) {n : Name} (hne : (s.meet n).listeners ≠ []) :
    n.service ∉ s.services.starting := by
  intro hv
  have hdone := scriptDone_of_stuck hstuck hv
  have hmeet := meet_of_stuck hstuck hv
  have hexited := ((h.stage n).done_of_stuck hne hmeet).exited_of_stuck hmeet
  rw [scriptDone_service, hexited] at hdone
  cases hdone

/-- s6-rc starts what it can. -/
theorem not_ready_of_stuck {c : Client} (hheld : s.holder = some c) :
    ∀ v ∈ c.wants, ¬ s.services.Ready dependencies v := by
  intro v hv hready
  have hnone := hstuck (.begin v)
  simp [inner, hheld, hv, hready] at hnone

theorem holder_of_stuck (hstarting : s.services.starting = []) : s.holder = none := by
  cases hheld : s.holder with
  | none => rfl
  | some c =>
    have hidle := not_ready_of_stuck hstuck hheld
    have hnone := hstuck .release
    simp only [inner, hheld] at hnone
    rw [if_pos ⟨hstarting, hidle⟩] at hnone
    cases hnone

theorem blocked_of_stuck (hfree : s.holder = none) : s.blocked = [] := by
  cases hblocked : s.blocked with
  | nil => rfl
  | cons c blocked =>
    have hnone := hstuck (.lock 0)
    simp [inner, hfree, hblocked] at hnone

theorem adds_of_stuck (hready : AllReady s) : s.adds = [] := by
  cases hadds : s.adds with
  | nil => rfl
  | cons r adds =>
    have hnone := hstuck (.add 0)
    obtain ⟨d, phase⟩ := r
    cases phase with
    | svwait =>
      by_cases hinstance : netvm ∈ s.instances
      · simp [inner, hadds, hready.vmms _ hinstance] at hnone
      · by_cases hup : netvm ∈ s.ready <;> simp [inner, hadds, hup, hinstance] at hnone
    | addDevice => simp [inner, hadds] at hnone

theorem queue_of_stuck (hup : .mdevd ∈ s.services.up) : s.queue = [] := by
  cases hqueue : s.queue with
  | nil => rfl
  | cons dev queue =>
    have hnone := hstuck .mdevd
    simp [inner, hqueue, hup, handling_of_stuck hstuck] at hnone

end Stuck

/-- mdevd and mdevd-coldplug need nothing else. -/
theorem lacks_mdevd (hmdevd : .mdevd ∉ s.services.failed) :
    ¬ s.services.Lacks dependencies .mdevd := by
  rintro ⟨u, hu, hneeds⟩
  rcases hneeds.cases_head with rfl | ⟨w, hw, -⟩
  · exact hmdevd hu
  · cases hw

theorem lacks_coldplug (hmdevd : .mdevd ∉ s.services.failed)
    (hcoldplug : .mdevdColdplug ∉ s.services.failed) :
    ¬ s.services.Lacks dependencies .mdevdColdplug := by
  rintro ⟨u, hu, hneeds⟩
  rcases hneeds.cases_head with rfl | ⟨w, hw, hrest⟩
  · exact hcoldplug hu
  · rw [dependencies, List.mem_singleton] at hw
    subst hw
    exact lacks_mdevd hmdevd ⟨u, hu, hrest⟩

section Quiet

variable (h : Inv cfg s) (hstuck : Stuck (inner cfg) s) (hinit : s.init ≠ .refused)
  (hmdevd : .mdevd ∉ s.services.failed) (hcoldplug : .mdevdColdplug ∉ s.services.failed)

include h hstuck hinit hmdevd hcoldplug

theorem Inv.coldplug_up : .mdevd ∈ s.services.up ∧ .mdevdColdplug ∈ s.services.up := by
  have hchange : s.init = .change := by
    have hmount := init_of_stuck hstuck
    cases hs : s.init <;> simp_all
  rcases h.booted hchange with hheld | hall
  · -- s6-rc runs for `rc.init`, and there is nothing left to start.
    have hidle := not_ready_of_stuck hstuck hheld
    have hup : .mdevd ∈ s.services.up := by
      by_contra hdown
      refine hidle .mdevd (mem_wants_rcInit _) ⟨?_, by simp [dependencies]⟩
      rintro (hup | hstarting | hfailed)
      · exact hdown hup
      · cases scriptDone_of_stuck hstuck hstarting
      · exact hmdevd hfailed
    refine ⟨hup, ?_⟩
    by_contra hdown
    refine hidle .mdevdColdplug (mem_wants_rcInit _) ⟨?_, by simpa [dependencies] using hup⟩
    rintro (hup | hstarting | hfailed)
    · exact hdown hup
    · exact coldplug_of_stuck hstuck hstarting
    · exact hcoldplug hfailed
  · exact ⟨(hall .mdevd).resolve_right (lacks_mdevd hmdevd),
      (hall .mdevdColdplug).resolve_right (lacks_coldplug hmdevd hcoldplug)⟩

/-- mdevd has come to every device. -/
theorem Inv.seen_of_stuck {dev : Device} (hdev : dev ∈ s.present) : Seen cfg s dev := by
  obtain ⟨hup, hcold⟩ := h.coldplug_up hstuck hinit hmdevd hcoldplug
  rcases h.tracked dev hdev with hnew | htodo | hqueue | hseen
  · exact absurd (.inl hcold) hnew
  · simp [h.triggered hcold] at htodo
  · simp [queue_of_stuck hstuck hup] at hqueue
  · exact hseen

/-- Nothing is being started but what imports the VMs. -/
theorem Inv.starting_of_stuck (hcard0 : .card0 ∈ s.present)
    (hext : ∃ d, cfg.isExt d = true ∧ .block d ∈ s.present) :
    ∀ v ∈ s.services.starting, v = .extRcInit := by
  have hseen : ∀ {dev}, dev ∈ s.present → Seen cfg s dev := fun hdev =>
    h.seen_of_stuck hstuck hinit hmdevd hcoldplug hdev
  have hlink : (s.meet .ext).listeners ≠ [] := by
    obtain ⟨d, hd, hpresent⟩ := hext
    refine h.ext.mpr ?_
    rcases hseen hpresent with hmem | hlink
    · simp [blocks_of_stuck hstuck] at hmem
    · exact hlink hd
  intro v hv
  cases v with
  | card0 => exact absurd hv (h.wait_of_stuck hstuck (n := .card0) (hseen hcard0))
  | ext => exact absurd hv (h.wait_of_stuck hstuck (n := .ext) hlink)
  | kvm => exact absurd hv (kvm_of_stuck hstuck)
  | extRcInit => rfl
  | mdevdColdplug => exact absurd hv (coldplug_of_stuck hstuck)
  | core => cases scriptDone_of_stuck hstuck hv
  | mdevd => cases scriptDone_of_stuck hstuck hv
  | staticNodes => cases scriptDone_of_stuck hstuck hv
  | weston => cases scriptDone_of_stuck hstuck hv

end Quiet

/-! ## The boot -/

/-- What holds at any time. -/
structure Orderly (cfg : Config) (s : State) : Prop where
  /-- What is mounted at `/ext` is the user partition. -/
  ext : .ext ∈ s.services.up → ∃ d, s.link = some d ∧ cfg.isExt d = true ∧ .block d ∈ s.present
  kvm : .kvm ∈ s.services.up → .kvm ∈ s.present
  /-- VMs are not imported before there is something to import and to run them with. -/
  vms : s.instances ≠ [] →
    .ext ∈ s.services.up ∧ .kvm ∈ s.services.up ∧ .staticNodes ∈ s.services.up
  /-- No device is added before its group is bound and the network VM is there. -/
  net : ∀ d ∈ s.added, d ∈ s.bound ∧ netvm ∈ s.ready

/-- Everything is done. -/
structure Over (cfg : Config) (s : State) : Prop where
  free : s.holder = none
  blocked : s.blocked = []
  up : ∀ v, v ∈ s.services.up ∨ s.services.Lacks dependencies v
  net : ∀ d, .net d ∈ s.present → d ∈ s.added ∨ d ∈ s.lost ∨ os "netvm" ∉ cfg.vms ∨
    s.services.Lacks dependencies .extRcInit

theorem Inv.orderly (h : Inv cfg s) : Orderly cfg s := by
  have hsignalled : ∀ n : Name, n.service ∈ s.services.up → (s.meet n).listeners ≠ [] := by
    intro n hn
    have hexited := h.waited n hn
    have hdone : (s.meet n).waiter.isDone = true := by
      cases hw : (s.meet n).waiter with
      | exited => rfl
      | _ => simp [hw, Mdev.Wait.isExited] at hexited
    obtain ⟨l, hl, -⟩ := (h.stage n).signalled hdone
    exact List.ne_nil_of_mem hl
  refine ⟨fun hup => ?_, fun hup => h.kvm (hsignalled .kvm hup), fun hne => ?_, fun d hd => ?_⟩
  · obtain ⟨d, hd⟩ := Option.ne_none_iff_exists'.mp (h.ext.mp (hsignalled .ext hup))
    exact ⟨d, hd, h.link d hd⟩
  · have hknown : s.services.known .extRcInit := by
      by_contra hnot
      exact hne (h.fresh hnot).2
    have hdeps := h.sound _ hknown
    exact ⟨hdeps .ext (by simp [dependencies]), hdeps .kvm (by simp [dependencies]),
      hdeps .staticNodes (by simp [dependencies])⟩
  · exact ⟨h.bound d (.inr (.inr hd)), h.added (.inr (List.ne_nil_of_mem hd))⟩

/-- A machine with a network device and a network VM. -/
def machine : Config := ⟨fun d => d = os "sda3", [os "netvm"]⟩

def devices : List Device := [.net (os "/devices/eth"), .card0, .kvm, .block (os "sda3")]

/-- `wait` is there before `listen`. -/
def rendezvous (n : Name) : List Inner :=
  [.wait n, .wait n, .wait n, .listen n 0, .listen n 0, .listen n 0, .wait n, .listen n 0, .wait n,
   .wait n, .listen n 0, .finish n.service]

/-- Up to the event of the network device, which is the first one. -/
def beginning : List Inner :=
  [.rcInit, .begin .card0, .begin .core, .begin .ext, .begin .kvm, .begin .mdevd,
   .begin .staticNodes, .finish .core, .finish .mdevd, .begin .mdevdColdplug, .finish .staticNodes,
   .coldplug, .coldplug, .coldplug, .coldplug, .finish .mdevdColdplug, .mdevd, .netAdd, .netAdd]

/-- The devices have turned up, one after the other. -/
def rendezvousAll : List Inner :=
  [.mdevd, .mdevd, .mdevd, .block 0] ++ [Name.card0, .ext, .kvm].flatMap rendezvous

/-- Up to where `vm-import` waits for the VMM of the network VM. -/
def boot : List (Inner ⊕ Outer) :=
  (beginning ++ rendezvousAll).map .inl ++
    [.inl (.begin .weston), .inl (.finish .weston), .inl (.begin .extRcInit), .inl (.vmImport 0),
     .inl (.vmImport 0), .inr (.supply (os "netvm")), .inl (.vmImport 0), .inl (.vmImport 0)]

def ending : List (Inner ⊕ Outer) :=
  [.inr (.vmm netvm), .inl (.vmImport 0), .inl (.finish .extRcInit), .inl .release, .inl (.lock 0),
   .inl .release, .inl (.add 0), .inl (.add 0)]

theorem vmName_netvm : vmName (os "netvm") = netvm := by
  decide

-- Without a VMM that gets ready the boot does not end, and s6-rc keeps the lock.
example : ∃ s, run (step machine) (start devices) boot = some s ∧
    Stuck (inner machine) s ∧ s.holder = some .rcInit ∧
    s.services.starting = [.extRcInit] := by
  refine ⟨_, rfl, ?_, rfl, rfl⟩
  intro a
  cases a with
  | begin v => cases v <;> rfl
  | finish v => cases v <;> rfl
  | wait n => cases n <;> rfl
  | listen n i => cases n <;> (cases i <;> rfl)
  | vmImport i => cases i <;> rfl
  | _ => rfl

-- `vm-start` has the lock when `rc.init` comes for it.
example : ((run (step machine) (start devices)
    [.inr .vmStart, .inl (.lock 0), .inl .rcInit]).map State.init) = some .refused := rfl

end Spectrum.Rc
