import Spectrum.Net.Setup

/-!
# When a failed `net_setup` leaves nothing behind

`net_setup` has more than a dozen ways to fail, and undoes what it did through two labels: `fail`
in `setup_tap` and `fail_bridge`. The rollback consists of `bridge_delete` and `close`, so it is
complete as long as nothing has to be undone that these two do not undo. The one such thing is
the device plugged into the router VM: once `router_net_setup` has returned, the router's VMM
holds the tap `router<pid>`, and only the exit listener ever calls `ch_remove_device`.

**A failed `net_setup` leaves the network as it was exactly if the failure was not in
`exit_listener_setup`**, that is, if neither `pipe` nor `fork` failed.
-/

set_option autoImplicit false

namespace Spectrum.Net

open Interact Bytes

/-! ## Deleting the bridge -/

/-- What a port becomes when the bridge `x` is deleted. -/
def Iface.released (x : Nat) (i : Iface) : Iface :=
  if i.master = some x then { i with master := none } else i

@[simp] theorem Iface.released_name (x : Nat) (i : Iface) : (i.released x).name = i.name := by
  unfold released
  split <;> rfl

/-- Deleting a bridge that is newer than `N` touches nothing of `N`. -/
theorem NetState.delete_ifaces {N M : NetState} {b : Iface} {rest : List Iface}
    (h : M.ifaces = N.ifaces ++ b :: rest) (hfree : N.find b.name = none)
    (hx : N.next ≤ b.index) (flags : BitVec 16) :
    ((M.withFlags b.name flags).withoutBridge b).ifaces =
      N.ifaces ++ rest.map (Iface.released b.index) := by
  have hnodup := M.names_nodup
  rw [h, List.map_append, List.map_cons, List.nodup_append] at hnodup
  have hrest : ∀ i ∈ rest, i.name ≠ b.name := fun i hi hn =>
    (List.nodup_cons.mp hnodup.2.1).1 (hn ▸ List.mem_map_of_mem hi)
  have hflags : (M.withFlags b.name flags).ifaces = N.ifaces ++ { b with flags } :: rest := by
    change M.ifaces.map _ = _
    rw [h, List.map_append, List.map_cons, map_eq_self fun j hj => if_neg (name_ne hfree hj),
      if_pos rfl, map_eq_self fun i hi => if_neg (hrest i hi)]
  change ((M.withFlags b.name flags).ifaces.map _).filter _ = _
  rw [hflags, List.map_append, List.filter_append, map_eq_self fun j hj => if_neg (master_ne hx hj),
    List.filter_eq_self.mpr fun j hj => by simpa using name_ne hfree hj, List.map_cons,
    List.filter_cons_of_neg (by split <;> simp)]
  congr 1
  refine List.filter_eq_self.mpr fun j hj => ?_
  obtain ⟨i, hi, rfl⟩ := List.mem_map.mp hj
  have : (i.released b.index).name ≠ b.name := by
    rw [Iface.released_name]
    exact hrest i hi
  exact decide_eq_true this

/-! ## Rolling back -/

/-- The calls `fail_bridge` makes have all succeeded: no failure is logged for them. -/
def RollbackSucceeds (w : Host) : Prop :=
  ∀ x ∈ w.failed, x.1 ≠ .ifDown ∧ x.1 ≠ .bridgeDelete

instance (w : Host) : Decidable (RollbackSucceeds w) := by
  unfold RollbackSucceeds
  infer_instance

/-- Neither call of `exit_listener_setup` has failed. -/
def ListenerStarts (w : Host) : Prop := ∀ x ∈ w.failed, x.1 ≠ .pipe ∧ x.1 ≠ .fork

instance (w : Host) : Decidable (ListenerStarts w) := by
  unfold ListenerStarts
  infer_instance

/-- Bridges, taps, memberships, descriptors and plugged devices are what they were. -/
def Unchanged (w w' : Host) : Prop :=
  w'.net.ifaces = w.net.ifaces ∧ w'.net.descs = w.net.descs ∧ w'.net.devices = w.net.devices

instance (w w' : Host) : Decidable (Unchanged w w') := by
  unfold Unchanged
  infer_instance

/-- What is claimed of a finished `net_setup` that started at `w`. -/
def Atomic (w : Host) (r : NetConfig) (w' : Host) : Prop :=
  RollbackSucceeds w' → ((r.fd = -1 → Unchanged w w') ↔ ListenerStarts w')

theorem Atomic.of_unchanged {w w' : Host} {r : NetConfig} (h : Unchanged w w')
    (hlog : ListenerStarts w') : Atomic w r w' :=
  fun _ => ⟨fun _ => hlog, fun _ _ => h⟩

theorem Atomic.of_changed {w w' : Host} {r : NetConfig} (hfd : r.fd = -1)
    (h : w'.net.devices ≠ w.net.devices) (hlog : ¬ ListenerStarts w') : Atomic w r w' :=
  fun _ => ⟨fun hu => absurd (hu hfd).2.2 h, fun hs => absurd hs hlog⟩

theorem NetState.obj_neg (N : NetState) (p : Proc) : N.obj p (-1) = none := by
  simp only [obj, Option.map_eq_none_iff, List.find?_eq_none, Bool.and_eq_true, decide_eq_true_eq,
    not_and]
  omega

variable {life : Nat} {ok : Option Errno → Prop} {H : Host → Prop} {pid : Nat} {vm : VmDir}

/-- `fail_bridge`, up to its `close`. -/
theorem wp_failBridge {me : Proc} {r : NetConfig} {N : NetState} {b : Iface} {rest : List Iface}
    {Q : NetConfig → Host → Prop} {w : Host} (hM : w.net.ifaces = N.ifaces ++ b :: rest)
    (hname : b.name = bridgeName pid)
    (hfree : N.find (bridgeName pid) = none) (hx : N.next ≤ b.index)
    (hbad : ∀ a w', ¬ RollbackSucceeds w' → Q a w')
    (hgood : ∀ M, M.ifaces = N.ifaces ++ rest.map (Iface.released b.index) →
      M.descs = w.net.descs → M.devices = w.net.devices →
      (Prog.call (.close r.fd) fun _ => .ret { r with fd := -1 }).wp (kernel.spec me ok H) Q
        (w.withNet M)) :
    (failBridge pid r).wp (kernel.spec me ok H) Q w := by
  have hfind : w.net.find (ifrName (bridgeName pid)) = some b := by
    rw [ifrName_bridgeName]
    exact NetState.find_of_ifaces hM (by simp) hname
  refine Prog.wp_bind.mpr (wp_bridgeDelete ?_ ?_)
  · intro r' w' hlog _
    have hlog : ¬ RollbackSucceeds w' := fun h => by
      obtain ⟨e, he | he⟩ := hlog
      · exact (h _ he).1 rfl
      · exact (h _ he).2 rfl
    cases ho : w'.net.obj me r.fd with
    | some o => exact wp_close ho (hbad _ _ hlog)
    | none =>
      exact wp_close_bad ho (hbad _ _ fun h => hlog fun x hx => h x (List.mem_append_left _ hx))
  · intro b' hb' _
    obtain rfl : b = b' := Option.some.inj (hfind.symm.trans hb')
    refine hgood _ ?_ rfl rfl
    rw [ifrName_bridgeName, ← hname]
    exact NetState.delete_ifaces hM (hname ▸ hfree) hx _

/-- Only the bridge has been made. -/
theorem wp_failBridge_bridge {me : Proc} {id : IfName} {mac : Mac} {w w₁ : Host} {b : Iface}
    (hw : w.net.Plus b [] w₁.net) (hdev : w₁.net.devices = w.net.devices)
    (hname : b.name = bridgeName pid)
    (hfree : w.net.find (bridgeName pid) = none) (hlog : ListenerStarts w₁) :
    (failBridge pid ⟨-1, id, mac⟩).wp (kernel.spec me ok H) (Atomic w) w₁ := by
  refine wp_failBridge hw.ifaces hname hfree hw.index.ge (fun a w' h hr => absurd hr h) ?_
  intro M hi hd hv
  refine wp_close_bad (NetState.obj_neg _ _) (.of_unchanged ⟨?_, ?_, hv.trans hdev⟩ ?_)
  · simpa using hi
  · simpa using hd.trans hw.descs
  · intro x hx
    rcases List.mem_append.mp hx with hx | hx
    · exact hlog x hx
    · rw [List.mem_singleton.mp hx]
      simp

/-- The bridge and the client's tap have been made. -/
theorem wp_failBridge_client {me : Proc} {id : IfName} {mac : Mac} {w w₁ : Host} {N : NetState}
    {b c : Iface} (hb : w.net.Plus b [] N)
    (hw : N.Plus c [⟨me, N.freeFd me, .tap N.next⟩] w₁.net)
    (hdev : w₁.net.devices = w.net.devices)
    (hname : b.name = bridgeName pid)
    (hfree : w.net.find (bridgeName pid) = none) (hlog : ListenerStarts w₁) :
    (failBridge pid ⟨N.freeFd me, id, mac⟩).wp (kernel.spec me ok H) (Atomic w) w₁ := by
  have hM : w₁.net.ifaces = w.net.ifaces ++ b :: [c] := by
    rw [hw.ifaces, hb.ifaces, List.append_assoc]
    rfl
  refine wp_failBridge hM hname hfree hb.index.ge (fun a w' h hr => absurd hr h) ?_
  intro M hi hd hv
  -- The tap has lost its bridge, and loses its last descriptor now.
  have hMd := hd.trans hw.descs
  have hgone := NetState.closeFd_tap hMd (Nat.le_refl _)
  refine wp_close (NetState.obj_of_descs hMd) (.of_unchanged ⟨?_, ?_, hv.trans hdev⟩ hlog)
  · have hold : w.net.ifaces.filter (fun i => decide (i.index ≠ N.next)) = w.net.ifaces :=
      List.filter_eq_self.mpr fun i hi' => by
        simpa using NetState.index_ne (Nat.le_of_lt hb.next) hi'
    have hnew : (c.released b.index).index = N.next := by
      unfold Iface.released
      split <;> exact hw.index
    refine hgone.trans ?_
    rw [hi, List.filter_append, hold]
    simp [hnew]
  · simpa [hb.descs] using NetState.closeFd_descs hMd (by simp)

/-- The router's device has been plugged in as well, and stays. -/
theorem wp_failBridge_device {me : Proc} {r : NetConfig} {w w₁ : Host} {b : Iface}
    {rest : List Iface} (hM : w₁.net.ifaces = w.net.ifaces ++ b :: rest)
    (hx : w.net.next ≤ b.index) (hdev : w₁.net.devices ≠ w.net.devices)
    (hname : b.name = bridgeName pid)
    (hfree : w.net.find (bridgeName pid) = none) (hlog : ¬ ListenerStarts w₁) :
    (failBridge pid r).wp (kernel.spec me ok H) (Atomic w) w₁ := by
  refine wp_failBridge hM hname hfree hx (fun a w' h hr => absurd hr h) ?_
  intro M _ _ hv
  cases ho : M.obj me r.fd with
  | some o => exact wp_close ho (.of_changed rfl (fun h => hdev (hv.symm.trans h)) hlog)
  | none =>
    exact wp_close_bad ho (.of_changed rfl (fun h => hdev (hv.symm.trans h))
      fun h => hlog fun x hx => h x (List.mem_append_left _ hx))

/-! ## The whole of `net_setup` -/

/-- The three names `net_setup` is about to use are free. -/
structure NamesFree (N : NetState) (pid : Nat) : Prop where
  bridge : N.find (bridgeName pid) = none
  client : N.find (clientName pid) = none
  router : N.find (routerName pid) = none

theorem ListenerStarts.of_failedAt {sites : List Site} {w w' : Host} (h : FailedAt sites w w')
    (hlog : w.failed = []) (hs : .pipe ∉ sites ∧ .fork ∉ sites) : ListenerStarts w' := by
  obtain ⟨s, hmem, e, he⟩ := h.log
  intro x hx
  rw [he, hlog, List.nil_append, List.mem_singleton] at hx
  subst hx
  exact ⟨fun h => hs.1 (h ▸ hmem), fun h => hs.2 (h ▸ hmem)⟩

theorem not_listenerStarts_of_failedAt {w w' : Host} (h : FailedAt [.pipe, .fork] w w') :
    ¬ ListenerStarts w' := by
  obtain ⟨s, hs, e, he⟩ := h.log
  intro hq
  have := hq (s, e) (by simp [he])
  simp_all

theorem ListenerStarts.fail {w : Host} {me : Proc} {s : Site} {e : Errno} (hlog : w.failed = [])
    (hp : s ≠ .pipe) (hf : s ≠ .fork) : ListenerStarts (w.fail me s e) := by
  have h : FailedAt [s] w (w.fail me s e) := ⟨.refl _, s, by simp, e, rfl⟩
  exact .of_failedAt h hlog (by simp [hp.symm, hf.symm])

theorem wp_netSetup_atomic {w : Host} (hlog : w.failed = []) (hfree : NamesFree w.net pid) :
    (netSetup pid vm).wp (kernel.spec (.vmm life) ok H) (Atomic w) w := by
  unfold netSetup
  simp only [Prog.bind_eq, Prog.pure_eq]
  refine Prog.wp_bind.mpr (wp_bridgeAdd_plus ?_ ?_)
  · intro e _
    exact .of_unchanged ⟨rfl, rfl, rfl⟩ (.fail hlog (by simp) (by simp))
  intro N₁ _ h₁ hdev₁
  rw [if_neg (by decide)]
  refine Prog.wp_bind.mpr (wp_ifUp_plus h₁ rfl hfree.bridge (ifrName_bridgeName pid) ?_ ?_)
  · intro e _
    rw [if_pos rfl]
    exact wp_failBridge_bridge h₁ hdev₁ rfl hfree.bridge (.fail hlog (by simp) (by simp))
  intro N₂ h₂ hdev₂
  rw [if_neg (by decide)]
  refine Prog.wp_bind.mpr (wp_setupTap (h₂.find_bridge rfl) rfl ?_ ?_)
  · intro w' hw' _
    exact wp_failBridge_bridge (h₂.agree hw'.agree)
      (hw'.agree.devices.trans (hdev₂.trans hdev₁)) rfl hfree.bridge
      (.of_failedAt hw' hlog (by simp))
  intro N₃ _ h₃ hdev₃
  have hdev₃ : N₃.devices = w.net.devices := hdev₃.trans (hdev₂.trans hdev₁)
  rw [if_neg (by omega)]
  refine Prog.wp_bind.mpr
    (wp_routerNetSetup (by simp) (h₃.find_old (h₂.find_bridge rfl)) rfl ?_ ?_)
  · intro w' hw' _
    exact wp_failBridge_client h₂ (h₃.agree hw'.agree) (hw'.agree.devices.trans hdev₃) rfl
      hfree.bridge (.of_failedAt hw' hlog (by simp))
  intro N₄ f _ h₄ hdev₄
  rw [if_neg (by simp)]
  refine Prog.wp_bind.mpr (wp_exitListenerSetup ?_ ?_)
  · -- From here on the device is plugged in, and nothing unplugs it.
    intro w' hw' _
    have hdev : w'.net.devices = w.net.devices ++ [⟨vm, routerName pid, life⟩] :=
      hw'.agree.devices.trans (hdev₄.trans (congrArg (· ++ _) hdev₃))
    have hifaces := hw'.agree.ifaces.trans (h₄.ifaces.trans (congrArg (· ++ _)
      (h₃.ifaces.trans (congrArg (· ++ _) h₂.ifaces))))
    simp only [List.append_assoc] at hifaces
    exact wp_failBridge_device hifaces (Nat.le_refl _) (by simp [hdev]) rfl hfree.bridge
      (not_listenerStarts_of_failedAt hw')
  · intro N
    rw [if_neg (by decide)]
    intro _
    exact ⟨fun _ x hx => absurd hx (by simp [hlog]), fun _ h => absurd h (by simp)⟩

/-- **A failed `net_setup` changed nothing exactly if the exit listener was not what failed.** For
every run, every assignment of outcomes to its calls, under which the calls of the rollback
succeed. -/
theorem netSetup_atomic_iff {w w' : Host} {r : NetConfig} {chs : List (Option Errno)}
    (hlog : w.failed = []) (hfree : NamesFree w.net pid)
    (hrun : kernel.run (.vmm life) (netSetup pid vm) w chs = .returned r w')
    (hroll : RollbackSucceeds w') :
    (r.fd = -1 → Unchanged w w') ↔ ListenerStarts w' := by
  have hwp : (netSetup pid vm).wp (kernel.spec (.vmm life) (fun _ => True) fun _ => True)
      (Atomic w) w := wp_netSetup_atomic hlog hfree
  exact Kernel.run_returned (fun _ _ => trivial) hwp hrun hroll

theorem netSetup_atomic_addNet_fails :
    ∃ r w', kernel.run (.vmm 1) (netSetup 7 [114]) .boot
        (List.replicate 27 none ++ some EPROTO :: List.replicate 10 none) = .returned r w' ∧
      r.fd = -1 ∧ Unchanged .boot w' := by
  have hrun : ∃ r w', kernel.run (.vmm 1) (netSetup 7 [114]) .boot
        (List.replicate 27 none ++ some EPROTO :: List.replicate 10 none) = .returned r w' ∧
      RollbackSucceeds w' ∧ ListenerStarts w' ∧ r.fd = -1 :=
    ⟨_, _, rfl, by decide, by decide, by decide⟩
  obtain ⟨r, w', hrun, hroll, hstart, hfd⟩ := hrun
  exact ⟨r, w', hrun, hfd,
    (netSetup_atomic_iff rfl ⟨rfl, rfl, rfl⟩ hrun hroll).mpr hstart hfd⟩

/-- `pipe` fails with `EMFILE`: the VM gets no network, but the router VM keeps the device and
the tap, and no exit listener will ever remove them. -/
theorem netSetup_pipe_fails_device_left :
    ∃ r w', kernel.run (.vmm 1) (netSetup 7 [114]) .boot
        (List.replicate 29 none ++ some EMFILE :: List.replicate 8 none) = .returned r w' ∧
      NamesFree Host.boot.net 7 ∧ RollbackSucceeds w' ∧ w'.failed = [(.pipe, EMFILE)] ∧
      r.fd = -1 ∧ ¬ Unchanged .boot w' ∧ w'.net.devices = [⟨[114], routerName 7, 1⟩] :=
  ⟨_, _, rfl, ⟨rfl, rfl, rfl⟩, by decide, by decide, by decide, by decide, by decide⟩

end Spectrum.Net
