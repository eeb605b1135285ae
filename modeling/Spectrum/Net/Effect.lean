import Spectrum.Net.Lock

/-!
# What one call does to the network

`Effect` lists the things a call that `lockSpec` allows can do, and how it moves its process
between the phases; `exec_effect` is the inversion of the kernel against it. Everything the
isolation proof needs to know about a step is then read off `Effect`: where an interface came
from, which ones a process without the lock can remove, and that the bridge stays until the
process that has the lock deletes it.
-/

set_option autoImplicit false

namespace Spectrum.Net

open Interact

variable {β : Type} {br : IfName}

/-! ## What an allowed call does to the network -/

/-- The effect of one allowed call of `me`, and how it moves `me` between phases. -/
inductive Effect (br : IfName) (me : Proc) : Phase → Phase → NetState → NetState → Prop
  | same {x : Phase} {N : NetState} : Effect br me x x N N
  | refused {N : NetState} : Effect br me .fresh .done N N
  | lock {N : NetState} (hfree : N.find br = none) :
    Effect br me .fresh .locked N (N.addIface br .bridge me.life hfree)
  | unlock {N : NetState} {b : Iface} (hb : N.find br = some b) :
    Effect br me .locked .done N (N.withoutBridge b)
  | modify {N M : NetState} {f : Iface → Iface} (hi : M.ifaces = N.ifaces.map f)
    (hd : M.descs = N.descs) (hv : M.devices = N.devices)
    (hf : ∀ i, (f i).name = i.name ∧ (f i).index = i.index ∧ (f i).kind = i.kind ∧
      (f i).owner = i.owner) : Effect br me .locked .locked N M
  | rename {N : NetState} {a b : IfName} (ha : a ≠ br) (hfree : N.find b = none) :
    Effect br me .locked .locked N (N.rename a b hfree)
  | tap {N : NetState} {name : IfName} {fd : Int} (hfree : N.find name = none) :
    Effect br me .locked .locked N
      ((N.addIface name .tap me.life hfree).attach me fd N.next (Nat.lt_succ_self _))
  | plug {N : NetState} {vm : VmDir} {id : IfName} {index : Nat} (hx : index < N.next) :
    Effect br me .locked .locked N (N.withDevice vm id me.life index hx)
  | unplug {N : NetState} {vm : VmDir} {id : IfName} :
    Effect br me .locked .locked N (N.withoutDevice vm id)
  | opened {x : Phase} {N M : NetState} (hi : M.ifaces = N.ifaces) (hv : M.devices = N.devices)
    (hd : ∀ d ∈ M.descs, d ∈ N.descs ∨ ∀ i, d.obj ≠ .tap i) : Effect br me x x N M
  | closed {x : Phase} {N : NetState} {p : Desc → Bool} (hp : ∀ d, p d = true → d.proc = me) :
    Effect br me x x N (N.dropDescs p)

/-- A new descriptor that is not a tap's. -/
theorem Effect.openFd {me : Proc} {x : Phase} {N : NetState} {o : FdObj} (ho : o.Below N.next)
    (hnt : ∀ i, o ≠ .tap i) : Effect br me x x N (N.openFd me o ho) := by
  refine .opened rfl rfl fun d hd => ?_
  rcases List.mem_append.mp hd with hd | hd
  · exact Or.inl hd
  · rw [List.mem_singleton.mp hd]
    exact Or.inr hnt

/-- **Everything an allowed call can do.** -/
theorem exec_effect {me : Proc} {x : Phase} {c : Sys β} {w w' : Host} {ch : Option Errno} {b : β}
    (hpre : (lockSpec br).pre x c) (h : exec me c w ch = some (.resume b, w')) :
    ∃ y, (lockSpec br).post x c b y ∧ Effect br me x y w.net w'.net := by
  -- A refused call leaves everything as it is; only `brAddBr` notices.
  have hfail : ∀ {y : Phase} {s : Site} {e : Errno}, Effect br me y y w.net (w.fail me s e).net :=
    .same
  cases c with
  | socket site =>
    rcases Host.attempt_cases h with ⟨e, -, ho, rfl⟩ | ⟨r, N, -, hr, ho, rfl⟩
    · exact ⟨x, rfl, hfail⟩
    · cases hr
      exact ⟨x, rfl, .openFd (.socket _) (by simp)⟩
  | close fd =>
    simp only [exec] at h
    split at h <;> cases h
    · exact ⟨x, rfl, .closed fun d hd => by simp_all⟩
    · exact ⟨x, rfl, hfail⟩
  | getFlags site name =>
    rcases Host.attempt_cases h with ⟨e, -, ho, rfl⟩ | ⟨r, N, -, hr, ho, rfl⟩
    · exact ⟨x, rfl, hfail⟩
    · obtain ⟨i, -, -, rfl⟩ := NetState.getFlags_ok hr
      exact ⟨x, rfl, .same⟩
  | setFlags site name flags =>
    obtain rfl : x = .locked := hpre
    rcases Host.attempt_cases h with ⟨e, -, ho, rfl⟩ | ⟨r, N, -, hr, ho, rfl⟩
    · exact ⟨_, rfl, hfail⟩
    · obtain ⟨-, rfl⟩ := NetState.setFlags_ok hr
      exact ⟨_, rfl, .modify rfl rfl rfl fun i => by split <;> exact ⟨rfl, rfl, rfl, rfl⟩⟩
  | setName name newname =>
    obtain ⟨rfl, hname, -⟩ := hpre
    rcases Host.attempt_cases h with ⟨e, -, ho, rfl⟩ | ⟨r, N, -, hr, ho, rfl⟩
    · exact ⟨_, rfl, hfail⟩
    · obtain ⟨i, hfree, -, -, -, rfl⟩ := NetState.setName_ok hr
      exact ⟨_, rfl, .rename hname hfree⟩
  | brAddBr name =>
    obtain ⟨rfl, rfl⟩ := hpre
    rcases Host.attempt_cases h with ⟨e, -, ho, rfl⟩ | ⟨r, N, -, hr, ho, rfl⟩
    · cases ho
      exact ⟨_, rfl, .refused⟩
    · obtain ⟨hfree, rfl, rfl⟩ := NetState.brAddBr_ok hr
      cases ho
      exact ⟨_, rfl, .lock hfree⟩
  | brDelBr name =>
    obtain ⟨rfl, rfl⟩ := hpre
    rcases Host.attempt_cases h with ⟨e, -, ho, rfl⟩ | ⟨r, N, -, hr, ho, rfl⟩
    · cases ho
      exact ⟨_, rfl, hfail⟩
    · obtain ⟨b, hb, rfl, rfl⟩ := NetState.brDelBr_ok hr
      cases ho
      exact ⟨_, rfl, .unlock hb.1⟩
  | brAddIf brname index =>
    obtain rfl : x = .locked := hpre
    rcases Host.attempt_cases h with ⟨e, -, ho, rfl⟩ | ⟨r, N, -, hr, ho, rfl⟩
    · exact ⟨_, rfl, hfail⟩
    · obtain ⟨m, hm, rfl⟩ := NetState.brAddIf_withMaster hr
      exact ⟨_, rfl, .modify rfl rfl rfl fun i => by split <;> exact ⟨rfl, rfl, rfl, rfl⟩⟩
  | brDelIf brname index =>
    obtain rfl : x = .locked := hpre
    rcases Host.attempt_cases h with ⟨e, -, ho, rfl⟩ | ⟨r, N, -, hr, ho, rfl⟩
    · exact ⟨_, rfl, hfail⟩
    · obtain ⟨m, hm, rfl⟩ := NetState.brDelIf_withMaster hr
      exact ⟨_, rfl, .modify rfl rfl rfl fun i => by split <;> exact ⟨rfl, rfl, rfl, rfl⟩⟩
  | nameToIndex site name =>
    rcases Host.attempt_cases h with ⟨e, -, ho, rfl⟩ | ⟨r, N, -, hr, ho, rfl⟩
    · exact ⟨x, rfl, hfail⟩
    · obtain ⟨i, -, -, rfl⟩ := NetState.nameToIndex_ok hr
      exact ⟨x, rfl, .same⟩
  | openTun =>
    rcases Host.attempt_cases h with ⟨e, -, ho, rfl⟩ | ⟨r, N, -, hr, ho, rfl⟩
    · exact ⟨x, rfl, hfail⟩
    · cases hr
      exact ⟨x, rfl, .openFd (.tun _) (by simp)⟩
  | tunSetIff fd name excl =>
    obtain ⟨rfl, rfl⟩ := hpre
    rcases Host.attempt_cases h with ⟨e, -, ho, rfl⟩ | ⟨r, N, -, hr, ho, rfl⟩
    · exact ⟨_, rfl, hfail⟩
    · obtain ⟨hfree, -, rfl⟩ := NetState.tunSetIff_ok hr
      exact ⟨_, rfl, .tap hfree⟩
  | chAddNet vm fd id mac =>
    obtain rfl : x = .locked := hpre
    rcases Host.attempt_cases h with ⟨e, -, ho, rfl⟩ | ⟨r, N, -, hr, ho, rfl⟩
    · exact ⟨_, rfl, hfail⟩
    · obtain ⟨index, hx, rfl⟩ := NetState.chAddNet_withDevice hr
      exact ⟨_, rfl, .plug hx⟩
  | chRemoveDevice vm id =>
    obtain rfl : x = .locked := hpre
    rcases Host.attempt_cases h with ⟨e, -, ho, rfl⟩ | ⟨r, N, -, hr, ho, rfl⟩
    · exact ⟨_, rfl, hfail⟩
    · obtain ⟨-, rfl⟩ := NetState.chRemoveDevice_ok hr
      exact ⟨_, rfl, .unplug⟩
  | pipe =>
    rcases Host.attempt_cases h with ⟨e, -, ho, rfl⟩ | ⟨r, N, -, hr, ho, rfl⟩
    · exact ⟨x, rfl, hfail⟩
    · obtain ⟨_, _, -, -, -, hi, hv, -, hd⟩ := NetState.pipe_ok hr
      refine ⟨x, rfl, .opened hi hv fun d hm => ?_⟩
      rw [Host.withNet_net, hd] at hm
      rcases List.mem_append.mp hm with hm | hm
      · exact Or.inl hm
      · simp only [List.mem_cons, List.not_mem_nil, or_false] at hm
        rcases hm with rfl | rfl <;> exact Or.inr fun i hi => by cases hi
  | fork =>
    obtain rfl : x = .locked := hpre
    cases ch with
    | some e =>
      cases h
      exact ⟨_, rfl, hfail⟩
    | none => cases h
  | poll fd =>
    cases ch with
    | some e =>
      cases h
      exact ⟨x, rfl, hfail⟩
    | none =>
      simp only [exec] at h
      split at h <;> cases h
      exact ⟨x, rfl, .same⟩
  | setErrno e =>
    cases h
    exact ⟨x, rfl, .same⟩
  | exit status => cases h

/-! ## What an effect leaves alone -/

/-- Nothing on the host is newer than the lifetime `n`. -/
def NetState.OwnersLe (N : NetState) (n : Nat) : Prop :=
  (∀ i ∈ N.ifaces, i.owner ≤ n) ∧ ∀ d ∈ N.devices, d.owner ≤ n

/-- The bridge exists and was created by the lifetime `g`. -/
def NetState.HasBridge (N : NetState) (br : IfName) (g : Nat) : Prop :=
  ∃ b ∈ N.ifaces, b.name = br ∧ b.kind = .bridge ∧ b.owner = g

/-- A process of a lifetime only holds taps of that lifetime. -/
def NetState.DescsOk (N : NetState) : Prop :=
  ∀ d ∈ N.descs, d.proc.Ours → ∀ i ∈ N.ifaces, d.obj = .tap i.index →
    i.owner = d.proc.life ∧ i.kind = .tap

/-- An interface that `dropDescs` removes had a descriptor that was closed. -/
theorem NetState.mem_dropDescs {N : NetState} {p : Desc → Bool} {i : Iface} (hi : i ∈ N.ifaces) :
    i ∈ (N.dropDescs p).ifaces ∨ ∃ d ∈ N.descs, p d = true ∧ d.obj = .tap i.index := by
  by_cases h : ∃ d ∈ N.descs, p d = true ∧ d.obj = .tap i.index
  · exact Or.inr h
  · refine Or.inl (List.mem_filter.mpr ⟨hi, ?_⟩)
    simp only [held, Bool.not_eq_true', Bool.and_eq_false_iff, Bool.not_eq_false',
      List.any_eq_false, List.any_eq_true, decide_eq_true_eq, List.mem_filter]
    by_cases hh : ∃ d ∈ N.descs, d.obj = .tap i.index
    · obtain ⟨d, hd, ho⟩ := hh
      exact Or.inr ⟨d, ⟨hd, by simpa using fun hp => h ⟨d, hd, hp, ho⟩⟩, ho⟩
    · exact Or.inl fun d hd ho => hh ⟨d, hd, ho⟩

theorem NetState.mem_of_mem_dropDescs {N : NetState} {p : Desc → Bool} :
    (∀ i ∈ (N.dropDescs p).ifaces, i ∈ N.ifaces) ∧ ∀ d ∈ (N.dropDescs p).descs, d ∈ N.descs :=
  ⟨fun _ h => List.mem_of_mem_filter h, fun _ h => List.mem_of_mem_filter h⟩

namespace Effect

variable {me : Proc} {x y : Phase} {N M : NetState}

/-- The lock is only taken by creating the bridge. -/
theorem locks (h : Effect br me x .locked N M) (hx : x ≠ .locked) :
    x = .fresh ∧ N.find br = none ∧ M.HasBridge br me.life := by
  cases h with
  | lock hfree =>
    exact ⟨rfl, hfree, _, List.mem_append_right _ (List.mem_singleton.mpr rfl), rfl, rfl, rfl⟩
  | _ => exact absurd rfl hx

theorem eq_fresh (h : Effect br me x .fresh N M) : x = .fresh := by
  cases h <;> rfl

/-- Every interface is an old one, as far as index, kind and owner go, or one made now. -/
theorem origin (h : Effect br me x y N M) {j : Iface} (hj : j ∈ M.ifaces) :
    (∃ i ∈ N.ifaces, i.index = j.index ∧ i.kind = j.kind ∧ i.owner = j.owner) ∨
      j.index = N.next ∧ j.owner = me.life := by
  have hold : j ∈ N.ifaces → (∃ i ∈ N.ifaces, i.index = j.index ∧ i.kind = j.kind ∧
      i.owner = j.owner) ∨ j.index = N.next ∧ j.owner = me.life :=
    fun hj => Or.inl ⟨j, hj, rfl, rfl, rfl⟩
  cases h with
  | same | refused | plug | unplug => exact hold hj
  | lock | tap =>
    rcases List.mem_append.mp hj with hj | hj
    · exact hold hj
    · rw [List.mem_singleton.mp hj]
      exact Or.inr ⟨rfl, rfl⟩
  | unlock hb =>
    obtain ⟨i, hi, rfl⟩ := List.mem_map.mp (List.mem_of_mem_filter hj)
    refine Or.inl ⟨i, hi, ?_⟩
    split <;> exact ⟨rfl, rfl, rfl⟩
  | modify hi _ _ hf =>
    rw [hi] at hj
    obtain ⟨i, hi, rfl⟩ := List.mem_map.mp hj
    exact Or.inl ⟨i, hi, (hf i).2.1.symm, (hf i).2.2.1.symm, (hf i).2.2.2.symm⟩
  | rename =>
    obtain ⟨i, hi, rfl⟩ := List.mem_map.mp hj
    refine Or.inl ⟨i, hi, ?_⟩
    split <;> exact ⟨rfl, rfl, rfl⟩
  | opened hi =>
    rw [hi] at hj
    exact hold hj
  | closed => exact hold (NetState.mem_of_mem_dropDescs.1 _ hj)

theorem device_origin (h : Effect br me x y N M) {d : Device} (hd : d ∈ M.devices) :
    d ∈ N.devices ∨ d.owner = me.life := by
  cases h with
  | plug =>
    rcases List.mem_append.mp hd with hd | hd
    · exact Or.inl hd
    · rw [List.mem_singleton.mp hd]
      exact Or.inr rfl
  | unplug => exact Or.inl (List.mem_of_mem_filter hd)
  | modify _ _ hv _ => exact Or.inl (hv ▸ hd)
  | opened _ hv _ => exact Or.inl (hv ▸ hd)
  | same | refused | lock | unlock | rename | tap | closed => exact Or.inl hd

theorem ownersLe (h : Effect br me x y N M) {n : Nat} (hn : me.life ≤ n) (hN : N.OwnersLe n) :
    M.OwnersLe n := by
  constructor
  · intro j hj
    rcases h.origin hj with ⟨i, hi, -, -, ho⟩ | ⟨-, ho⟩
    · exact ho ▸ hN.1 i hi
    · exact ho ▸ hn
  · intro d hd
    rcases h.device_origin hd with hd | ho
    · exact hN.2 d hd
    · exact ho ▸ hn

/-- A process without the lock creates nothing. -/
theorem idle (h : Effect br me x y N M) (hx : x ≠ .locked) (hy : y ≠ .locked) :
    (∀ j ∈ M.ifaces, j ∈ N.ifaces) ∧ M.devices = N.devices := by
  cases h with
  | same | refused => exact ⟨fun _ => id, rfl⟩
  | opened hi hv _ => exact ⟨fun _ => hi ▸ id, hv⟩
  | closed => exact ⟨NetState.mem_of_mem_dropDescs.1, rfl⟩
  | lock => exact absurd rfl hy
  | unlock | modify | rename | tap | plug | unplug => exact absurd rfl hx

/-- A process without the lock removes nothing but taps of its own lifetime. -/
theorem keeps (h : Effect br me x y N M) (hx : x ≠ .locked) (hme : me.Ours) (hok : N.DescsOk) :
    (∀ i ∈ N.ifaces, i.owner ≠ me.life → i ∈ M.ifaces) ∧ M.devices = N.devices := by
  cases h with
  | same | refused => exact ⟨fun _ hi _ => hi, rfl⟩
  | lock => exact ⟨fun _ hi _ => List.mem_append_left _ hi, rfl⟩
  | opened hi hv _ => exact ⟨fun _ h _ => hi ▸ h, hv⟩
  | closed hp =>
    refine ⟨fun i hi ho => ?_, rfl⟩
    rcases NetState.mem_dropDescs hi with h | ⟨d, hd, hpd, hobj⟩
    · exact h
    · have hproc := hp d hpd
      exact absurd ((hok d hd (hproc ▸ hme) i hi hobj).1.trans (hproc ▸ rfl)) ho
  | unlock | modify | rename | tap | plug | unplug => exact absurd rfl hx

/-- The only bridge a process ever deletes is the one it holds the lock by. -/
theorem survives (h : Effect br me x y N M) (hme : me.Ours) (hok : N.DescsOk)
    (hlock : x = .locked → N.HasBridge br me.life) {i : Iface} (hi : i ∈ N.ifaces)
    (hk : i.kind = .bridge) (ho : x = .locked → y = .done → i.owner ≠ me.life) :
    ∃ j ∈ M.ifaces, (i.name = br → j.name = br) ∧ j.index = i.index ∧ j.kind = .bridge ∧
      j.owner = i.owner := by
  cases h with
  | same | refused | plug | unplug => exact ⟨i, hi, id, rfl, hk, rfl⟩
  | lock | tap => exact ⟨i, List.mem_append_left _ hi, id, rfl, hk, rfl⟩
  | opened hi' => exact ⟨i, hi' ▸ hi, id, rfl, hk, rfl⟩
  | modify hi' _ _ hf =>
    refine ⟨_, hi' ▸ List.mem_map_of_mem hi, ?_⟩
    rw [(hf i).1, (hf i).2.1, (hf i).2.2.1, (hf i).2.2.2]
    exact ⟨id, rfl, hk, rfl⟩
  | @rename _ a b ha =>
    refine ⟨_, List.mem_map_of_mem hi, ?_⟩
    by_cases hn : i.name = a
    · rw [if_pos hn]
      exact ⟨fun hb => absurd (hn.symm.trans hb) ha, rfl, hk, rfl⟩
    · rw [if_neg hn]
      exact ⟨id, rfl, hk, rfl⟩
  | @unlock _ b hb =>
    obtain ⟨b', hb', hname, -, hown⟩ := hlock rfl
    obtain rfl : b' = b := by
      rw [← hname, NetState.find_of_mem hb'] at hb
      exact Option.some.inj hb
    have hne : i.name ≠ b'.name := fun hn =>
      ho rfl rfl (List.inj_on_of_nodup_map N.names_nodup hi hb' hn ▸ hown)
    refine ⟨if i.master = some b'.index then { i with master := none } else i,
      List.mem_filter.mpr ⟨List.mem_map_of_mem hi, ?_⟩, ?_⟩
    · split <;> exact decide_eq_true hne
    · split <;> exact ⟨id, rfl, hk, rfl⟩
  | closed hp =>
    refine ⟨i, ?_, id, rfl, hk, rfl⟩
    rcases NetState.mem_dropDescs hi with h | ⟨d, hd, hpd, hobj⟩
    · exact h
    · have htap := (hok d hd (hp d hpd ▸ hme) i hi hobj).2
      rw [hk] at htap
      cases htap

theorem hasBridge (h : Effect br me x y N M) (hme : me.Ours) (hok : N.DescsOk)
    (hlock : x = .locked → N.HasBridge br me.life) {g : Nat}
    (hg : x = .locked → y = .done → g ≠ me.life) (hN : N.HasBridge br g) : M.HasBridge br g := by
  obtain ⟨b, hb, hname, hk, rfl⟩ := hN
  obtain ⟨j, hj, hn, -, hk', ho⟩ := h.survives hme hok hlock hb hk hg
  exact ⟨j, hj, hn hname, hk', ho⟩

theorem desc_origin (h : Effect br me x y N M) {d : Desc} (hd : d ∈ M.descs) :
    d ∈ N.descs ∨ (∀ i, d.obj ≠ .tap i) ∨ ¬ d.proc.Ours ∨
      d.proc = me ∧ d.obj = .tap N.next ∧
        ∀ j ∈ M.ifaces, j.index = N.next → j.owner = me.life ∧ j.kind = .tap := by
  cases h with
  | modify _ hd' _ _ => exact Or.inl (hd' ▸ hd)
  | opened _ _ hd' => exact (hd' d hd).imp_right Or.inl
  | closed => exact Or.inl (NetState.mem_of_mem_dropDescs.2 _ hd)
  | plug =>
    rcases List.mem_append.mp hd with hd | hd
    · exact Or.inl hd
    · rw [List.mem_singleton.mp hd]
      exact Or.inr (Or.inr (Or.inl id))
  | tap =>
    obtain ⟨d', hd', rfl⟩ := List.mem_map.mp hd
    split
    · rename_i hfd
      refine Or.inr (Or.inr (Or.inr ⟨hfd.1, rfl, fun j hj hx => ?_⟩))
      rcases List.mem_append.mp hj with hj | hj
      · exact absurd hx (NetState.index_ne (Nat.le_refl _) hj)
      · rw [List.mem_singleton.mp hj]
        exact ⟨rfl, rfl⟩
    · exact Or.inl hd'
  | same | refused | lock | unlock | rename | unplug => exact Or.inl hd

theorem descsOk (h : Effect br me x y N M) (hok : N.DescsOk) : M.DescsOk := by
  intro d hd hours j hj hobj
  rcases h.desc_origin hd with hd | hnt | hn | ⟨hp, hx, hnew⟩
  · rcases h.origin hj with ⟨i, hi, hidx, hk, ho⟩ | ⟨hidx, -⟩
    · exact ho ▸ hk ▸ hok d hd hours i hi (hidx ▸ hobj)
    · exact absurd (hidx ▸ hobj) (NetState.obj_ne (Nat.le_refl _) hd)
  · exact absurd hobj (hnt _)
  · exact absurd hours hn
  · rw [hx] at hobj
    injection hobj with hobj
    exact hp ▸ hnew j hj hobj.symm

end Effect

end Spectrum.Net
