import Mathlib.Data.List.Nodup
import Mathlib.Data.List.Perm.Subperm
import Spectrum.Errno
import Spectrum.Interact.Bytes

/-!
# The host's network state

What `net.c` manipulates: network interfaces (bridges and taps share one name space), the
descriptors processes hold on them, bridge membership, and the devices plugged into router VMs.

An interface is found by its *name* and identified by its *index*, and the difference matters:
a name can be freed and taken again, or be changed under a descriptor that stays open. A tap
lives exactly as long as some process holds a descriptor on it, which is why descriptors of all
processes are part of the state, the router's VMM included.

`NetState` carries its well-formedness as fields. Names are unique, and every index in use was
handed out by the counter `next`, which starts at 1; a fresh interface is therefore distinct from
everything a caller already has, and no operation below has to argue about it again.

`Iface.owner` and `Device.owner` are ghost fields: the lifetime (one run of `start-vmm`, counted
upwards) that created the thing. No operation reads them.
-/

set_option autoImplicit false

namespace Spectrum.Net

abbrev IfName := List UInt8

/-- A VM's directory under `/run/vm`: how a router VM is addressed. -/
abbrev VmDir := List UInt8

def IFNAMSIZ : Nat := 16

/-- `IFF_UP`, the one interface flag the code changes. -/
def IFF_UP : BitVec 16 := 1

/-! ## Processes, interfaces, descriptors -/

/-- The processes that hold descriptors. `vmm n` is the `start-vmm` process of lifetime `n`, which
becomes the VM's cloud-hypervisor; `listener n` is the exit listener it forks. -/
inductive Proc
  | vmm (life : Nat)
  | listener (life : Nat)
  | router (dir : VmDir)
  | other (n : Nat)
  deriving Repr, DecidableEq

/-- The lifetime a process belongs to; `0` is everything that was there before. -/
def Proc.life : Proc → Nat
  | .vmm n => n
  | .listener n => n
  | .router _ => 0
  | .other _ => 0

/-- The processes of the lifetimes, as opposed to bystanders and the router. -/
def Proc.Ours : Proc → Prop
  | .vmm _ | .listener _ => True
  | _ => False

inductive Kind
  | bridge
  | tap
  | other
  deriving Repr, DecidableEq

structure Iface where
  name : IfName
  index : Nat
  kind : Kind
  flags : BitVec 16
  /-- Index of the bridge this interface is a port of. -/
  master : Option Nat
  owner : Nat
  deriving Repr, DecidableEq

def Iface.isUp (i : Iface) : Bool := i.flags &&& IFF_UP != 0

inductive FdObj
  | socket
  /-- `/dev/net/tun`, opened but not attached to an interface. -/
  | tun
  | tap (index : Nat)
  | pipeRead (id : Nat)
  | pipeWrite (id : Nat)
  | other (n : Nat)
  deriving Repr, DecidableEq

/-- The identity a descriptor refers to was handed out before `n`. -/
def FdObj.Below (n : Nat) : FdObj → Prop
  | .tap i => i < n
  | .pipeRead i => i < n
  | .pipeWrite i => i < n
  | _ => True

theorem FdObj.Below.mono {m n : Nat} (h : m ≤ n) {o : FdObj} (ho : o.Below m) : o.Below n := by
  cases o with
  | tap i | pipeRead i | pipeWrite i => exact Nat.lt_of_lt_of_le ho h
  | socket | tun | other _ => trivial

theorem FdObj.Below.socket (n : Nat) : FdObj.socket.Below n := trivial

theorem FdObj.Below.tun (n : Nat) : FdObj.tun.Below n := trivial

structure Desc where
  proc : Proc
  fd : Nat
  obj : FdObj
  deriving Repr, DecidableEq

structure Device where
  vm : VmDir
  id : IfName
  owner : Nat
  deriving Repr, DecidableEq

@[ext] structure NetState where
  ifaces : List Iface
  descs : List Desc
  devices : List Device
  next : Nat
  next_pos : 0 < next
  index_range : ∀ i ∈ ifaces, 0 < i.index ∧ i.index < next
  master_below : ∀ i ∈ ifaces, ∀ m ∈ i.master, m < next
  names_nodup : (ifaces.map Iface.name).Nodup
  indices_nodup : (ifaces.map Iface.index).Nodup
  desc_below : ∀ d ∈ descs, d.obj.Below next

namespace NetState

/-- No interfaces, nothing open. -/
def empty : NetState where
  ifaces := []
  descs := []
  devices := []
  next := 1
  next_pos := Nat.one_pos
  index_range := by simp
  master_below := by simp
  names_nodup := List.nodup_nil
  indices_nodup := List.nodup_nil
  desc_below := by simp

variable (N : NetState)

/-! ## Interfaces -/

def find (name : IfName) : Option Iface := N.ifaces.find? fun i => decide (i.name = name)

theorem find_eq_none {N : NetState} {name : IfName} :
    N.find name = none ↔ name ∉ N.ifaces.map Iface.name := by
  simp only [find, List.find?_eq_none, decide_eq_true_eq, List.mem_map, not_exists, not_and]

theorem find_some {N : NetState} {name : IfName} {i : Iface} (h : N.find name = some i) :
    i ∈ N.ifaces ∧ i.name = name :=
  ⟨List.mem_of_find?_eq_some h, by simpa using List.find?_some h⟩

/-- Names are unique, so an interface is found under its own. -/
theorem find_of_mem {N : NetState} {i : Iface} (h : i ∈ N.ifaces) : N.find i.name = some i := by
  cases hf : N.find i.name with
  | none => exact absurd (List.mem_map_of_mem h) (find_eq_none.mp hf)
  | some j =>
    obtain ⟨hj, hn⟩ := find_some hf
    rw [List.inj_on_of_nodup_map N.names_nodup hj h hn]

theorem find_of_ifaces {N : NetState} {l : List Iface} (h : N.ifaces = l) {i : Iface} (hi : i ∈ l)
    {name : IfName} (hn : i.name = name) : N.find name = some i := by
  subst h hn
  exact find_of_mem hi

def findIndex (index : Nat) : Option Iface := N.ifaces.find? fun i => decide (i.index = index)

theorem findIndex_of_mem {N : NetState} {i : Iface} (h : i ∈ N.ifaces) :
    N.findIndex i.index = some i := by
  cases hf : N.findIndex i.index with
  | none => simpa using List.find?_eq_none.mp hf i h
  | some j =>
    have hj : j.index = i.index := by simpa using List.find?_some hf
    rw [List.inj_on_of_nodup_map N.indices_nodup (List.mem_of_find?_eq_some hf) h hj]

/-- Change interfaces in place, keeping what identifies them. -/
def modify (f : Iface → Iface) (hn : ∀ i, (f i).name = i.name) (hx : ∀ i, (f i).index = i.index)
    (hm : ∀ i ∈ N.ifaces, ∀ m ∈ (f i).master, m < N.next) : NetState :=
  { N with
    ifaces := N.ifaces.map f
    master_below := by
      intro i hi
      obtain ⟨j, hj, rfl⟩ := List.mem_map.mp hi
      exact hm j hj
    index_range := by
      intro i hi
      obtain ⟨j, hj, rfl⟩ := List.mem_map.mp hi
      rw [hx]
      exact N.index_range j hj
    names_nodup := by
      rw [List.map_map, show Iface.name ∘ f = Iface.name from funext hn]
      exact N.names_nodup
    indices_nodup := by
      rw [List.map_map, show Iface.index ∘ f = Iface.index from funext hx]
      exact N.indices_nodup }

/-- Keep only the interfaces that satisfy `p`. -/
def keep (p : Iface → Bool) : NetState :=
  { N with
    ifaces := N.ifaces.filter p
    index_range := fun i hi => N.index_range i (List.mem_of_mem_filter hi)
    master_below := fun i hi => N.master_below i (List.mem_of_mem_filter hi)
    names_nodup := N.names_nodup.sublist (List.filter_sublist.map _)
    indices_nodup := N.indices_nodup.sublist (List.filter_sublist.map _) }

/-- A new interface under a free name, with the next index. -/
def addIface (name : IfName) (kind : Kind) (owner : Nat) (hfree : N.find name = none) : NetState :=
  { N with
    ifaces := N.ifaces ++ [⟨name, N.next, kind, 0, none, owner⟩]
    next := N.next + 1
    next_pos := Nat.succ_pos _
    index_range := by
      intro i hi
      rcases List.mem_append.mp hi with h | h
      · exact ⟨(N.index_range i h).1, Nat.lt_succ_of_lt (N.index_range i h).2⟩
      · rw [List.mem_singleton.mp h]
        exact ⟨N.next_pos, Nat.lt_succ_self _⟩
    master_below := by
      intro i hi m hm
      rcases List.mem_append.mp hi with h | h
      · exact Nat.lt_succ_of_lt (N.master_below i h m hm)
      · rw [List.mem_singleton.mp h] at hm
        cases hm
    names_nodup := by
      rw [List.map_append]
      refine List.Nodup.append N.names_nodup (by simp) ?_
      simpa [List.disjoint_singleton] using find_eq_none.mp hfree
    indices_nodup := by
      rw [List.map_append]
      refine List.Nodup.append N.indices_nodup (by simp) ?_
      simp only [List.map_cons, List.map_nil, List.disjoint_singleton, List.mem_map, not_exists,
        not_and]
      exact fun i hi => Nat.ne_of_lt (N.index_range i hi).2
    desc_below := fun d hd => (N.desc_below d hd).mono (Nat.le_succ _) }

/-- Rename the interface `a`, if there is one, to the free name `b`. -/
def rename (a b : IfName) (hfree : N.find b = none) : NetState :=
  { N with
    ifaces := N.ifaces.map fun i => if i.name = a then { i with name := b } else i
    index_range := by
      intro i hi
      obtain ⟨j, hj, rfl⟩ := List.mem_map.mp hi
      have := N.index_range j hj
      split <;> exact this
    master_below := by
      intro i hi
      obtain ⟨j, hj, rfl⟩ := List.mem_map.mp hi
      have := N.master_below j hj
      split <;> exact this
    names_nodup := by
      have hb := find_eq_none.mp hfree
      have hinj := List.inj_on_of_nodup_map N.names_nodup
      rw [List.map_map]
      refine List.Nodup.map_on ?_ (List.Nodup.of_map _ N.names_nodup)
      intro i hi j hj hij
      simp only [Function.comp_apply] at hij
      have hne : ∀ k ∈ N.ifaces, k.name ≠ b := fun k hk hkb => hb (hkb ▸ List.mem_map_of_mem hk)
      by_cases h1 : i.name = a <;> by_cases h2 : j.name = a
      · exact hinj hi hj (h1.trans h2.symm)
      · simp only [h1, h2, if_true, if_false] at hij
        exact absurd hij.symm (hne j hj)
      · simp only [h1, h2, if_true, if_false] at hij
        exact absurd hij (hne i hi)
      · simp only [h1, h2, if_false] at hij
        exact hinj hi hj hij
    indices_nodup := by
      rw [List.map_map]
      convert N.indices_nodup using 2
      funext i
      simp only [Function.comp_apply]
      split <;> rfl }

/-- One more identity handed out. -/
def tick : NetState :=
  { N with
    next := N.next + 1
    next_pos := Nat.succ_pos _
    index_range := fun i hi => ⟨(N.index_range i hi).1, Nat.lt_succ_of_lt (N.index_range i hi).2⟩
    master_below := fun i hi m hm => Nat.lt_succ_of_lt (N.master_below i hi m hm)
    desc_below := fun d hd => (N.desc_below d hd).mono (Nat.le_succ _) }

/-! ## Descriptors -/

def fdsOf (p : Proc) : List Nat := (N.descs.filter fun d => decide (d.proc = p)).map Desc.fd

/-- The lowest descriptor number the process does not use. -/
def freeFd (p : Proc) : Nat :=
  ((List.range ((N.fdsOf p).length + 1)).find? fun n => decide (n ∉ N.fdsOf p)).getD 0

theorem freeFd_not_mem (p : Proc) : N.freeFd p ∉ N.fdsOf p := by
  unfold freeFd
  cases hf : (List.range ((N.fdsOf p).length + 1)).find? fun n => decide (n ∉ N.fdsOf p) with
  | some n => simpa using List.find?_some hf
  | none =>
    -- Otherwise `length + 1` distinct numbers would all be among `length` used ones.
    have hsub : List.range ((N.fdsOf p).length + 1) ⊆ N.fdsOf p := by
      intro n hn
      simpa using List.find?_eq_none.mp hf n hn
    have := (List.nodup_range.subperm hsub).length_le
    simp at this

/-- The object behind a descriptor of `p`. -/
def obj (p : Proc) (fd : Int) : Option FdObj :=
  (N.descs.find? fun d => decide (d.proc = p) && decide ((d.fd : Int) = fd)).map Desc.obj

/-- A new descriptor of `p`. -/
def openFd (p : Proc) (o : FdObj) (ho : o.Below N.next) : NetState :=
  { N with
    descs := N.descs ++ [⟨p, N.freeFd p, o⟩]
    desc_below := by
      intro d hd
      rcases List.mem_append.mp hd with h | h
      · exact N.desc_below d h
      · rw [List.mem_singleton.mp h]
        exact ho }

/-- Some process holds a descriptor on the tap with this index. -/
def held (index : Nat) : Bool := N.descs.any fun d => decide (d.obj = .tap index)

/-- Close every descriptor that satisfies `p`. A tap that loses its last descriptor vanishes. -/
def dropDescs (p : Desc → Bool) : NetState :=
  let N' : NetState := { N with
    descs := N.descs.filter fun d => !p d
    desc_below := fun d hd => N.desc_below d (List.mem_of_mem_filter hd) }
  N'.keep fun i => !(N.held i.index && !N'.held i.index)

/-- Close one descriptor of `p`. -/
def closeFd (p : Proc) (fd : Int) : NetState :=
  N.dropDescs fun d => decide (d.proc = p) && decide ((d.fd : Int) = fd)

/-- The end of a process closes all its descriptors. -/
def exitProc (p : Proc) : NetState := N.dropDescs fun d => decide (d.proc = p)

/-- `fork`: the child starts with a copy of the parent's descriptor table. -/
def forkFds (p child : Proc) : NetState :=
  { N with
    descs := N.descs ++
      (N.descs.filter fun d => decide (d.proc = p)).map fun d => { d with proc := child }
    desc_below := by
      intro d hd
      rcases List.mem_append.mp hd with h | h
      · exact N.desc_below d h
      · obtain ⟨d', hd', rfl⟩ := List.mem_map.mp h
        exact N.desc_below d' (List.mem_of_mem_filter hd') }

/-- Attach the descriptor `fd` of `p` to the tap with this index. -/
def attach (p : Proc) (fd : Int) (index : Nat) (hx : index < N.next) : NetState :=
  { N with
    descs := N.descs.map fun d =>
      if d.proc = p ∧ (d.fd : Int) = fd then { d with obj := .tap index } else d
    desc_below := by
      intro d hd
      obtain ⟨d', hd', rfl⟩ := List.mem_map.mp hd
      split
      · exact hx
      · exact N.desc_below d' hd' }

/-! ## Frames

What a state does not have cannot be meant by a request about it. -/

/-- Interfaces, descriptors and devices are the same; identities may have been used up. -/
structure Agree (N M : NetState) : Prop where
  ifaces : M.ifaces = N.ifaces
  descs : M.descs = N.descs
  devices : M.devices = N.devices
  next : N.next ≤ M.next

theorem Agree.refl (N : NetState) : N.Agree N := ⟨rfl, rfl, rfl, Nat.le_refl _⟩

variable {N} {name : IfName} {x : Nat}

theorem map_eq_self {l : List Iface} {f : Iface → Iface} (h : ∀ i ∈ l, f i = i) : l.map f = l :=
  (List.map_congr_left h).trans (List.map_id _)

theorem name_ne (hfree : N.find name = none) {i : Iface} (hi : i ∈ N.ifaces) : i.name ≠ name :=
  fun h => find_eq_none.mp hfree (h ▸ List.mem_map_of_mem hi)

theorem index_ne (hx : N.next ≤ x) {i : Iface} (hi : i ∈ N.ifaces) : i.index ≠ x :=
  Nat.ne_of_lt (Nat.lt_of_lt_of_le (N.index_range i hi).2 hx)

theorem master_ne (hx : N.next ≤ x) {i : Iface} (hi : i ∈ N.ifaces) : i.master ≠ some x :=
  fun h => absurd (N.master_below i hi x h) (Nat.not_lt.mpr hx)

theorem obj_ne (hx : N.next ≤ x) {d : Desc} (hd : d ∈ N.descs) : d.obj ≠ .tap x := by
  intro ho
  have := N.desc_below d hd
  rw [ho] at this
  exact absurd this (Nat.not_lt.mpr hx)

/-! ## Closing -/

theorem freeFd_unused (N : NetState) {p : Proc} {d : Desc} (hm : d ∈ N.descs) :
    ¬ (d.proc = p ∧ d.fd = N.freeFd p) := by
  rintro ⟨hp, hf⟩
  refine N.freeFd_not_mem p ?_
  rw [← hf]
  exact List.mem_map_of_mem (List.mem_filter.mpr ⟨hm, by simpa using hp⟩)

/-- Closing the one descriptor of its number. -/
theorem closeFd_descs_of {p : Proc} {f : Nat} {o : FdObj} {ds more : List Desc}
    (hd : N.descs = ds ++ ⟨p, f, o⟩ :: more)
    (hone : ∀ d ∈ ds ++ more, ¬ (d.proc = p ∧ d.fd = f)) :
    (N.closeFd p f).descs = ds ++ more := by
  have hkeep : ∀ l : List Desc, (∀ d ∈ l, d ∈ ds ++ more) →
      l.filter (fun d => !(decide (d.proc = p) && decide ((d.fd : Int) = f))) = l := by
    intro l hl
    refine List.filter_eq_self.mpr fun d hm => ?_
    simpa only [Bool.not_eq_true', Bool.and_eq_false_iff, decide_eq_false_iff_not, Nat.cast_inj,
      not_and_or] using hone d (hl d hm)
  change N.descs.filter _ = _
  rw [hd, List.filter_append, List.filter_cons, hkeep ds (by simp +contextual),
    hkeep more (by simp +contextual)]
  simp

theorem obj_of_descs_of {p : Proc} {f : Nat} {o : FdObj} {ds more : List Desc}
    (hd : N.descs = ds ++ ⟨p, f, o⟩ :: more) (hone : ∀ d ∈ ds, ¬ (d.proc = p ∧ d.fd = f)) :
    N.obj p f = some o := by
  have hnone : ds.find? (fun d => decide (d.proc = p) && decide (d.fd = f)) = none := by
    refine List.find?_eq_none.mpr fun d hm => ?_
    simpa only [Bool.and_eq_true, decide_eq_true_eq] using hone d hm
  simp [obj, hd, List.find?_append, hnone]

/-- A descriptor opened in `N` is the only one of its number until it is closed again. -/
theorem closeFd_descs {M N : NetState} {p : Proc} {o : FdObj} {more : List Desc}
    (hd : M.descs = N.descs ++ ⟨p, N.freeFd p, o⟩ :: more)
    (hmore : ∀ d ∈ more, ¬ (d.proc = p ∧ d.fd = N.freeFd p)) :
    (M.closeFd p (N.freeFd p)).descs = N.descs ++ more :=
  closeFd_descs_of hd fun d hm => (List.mem_append.mp hm).elim N.freeFd_unused (hmore d)

theorem obj_of_descs {M N : NetState} {p : Proc} {o : FdObj} {more : List Desc}
    (hd : M.descs = N.descs ++ ⟨p, N.freeFd p, o⟩ :: more) : M.obj p (N.freeFd p) = some o :=
  obj_of_descs_of hd fun _ => N.freeFd_unused

theorem held_iff {x : Nat} : N.held x = true ↔ ∃ d ∈ N.descs, d.obj = .tap x := by
  simp [held]

theorem mem_closeFd_descs {p : Proc} {fd : Int} {d : Desc} :
    d ∈ (N.closeFd p fd).descs ↔ d ∈ N.descs ∧ ¬ (d.proc = p ∧ (d.fd : Int) = fd) := by
  simp only [closeFd, dropDescs, keep, List.mem_filter, Bool.not_eq_true', Bool.and_eq_false_iff,
    decide_eq_false_iff_not, not_and_or]

/-- Closing a descriptor leaves the interfaces alone if no tap loses its last one. -/
theorem closeFd_ifaces {p : Proc} {fd : Int}
    (h : ∀ d ∈ N.descs, d.proc = p → (d.fd : Int) = fd → ∀ x, d.obj = .tap x →
      (N.closeFd p fd).held x = true) :
    (N.closeFd p fd).ifaces = N.ifaces := by
  refine List.filter_eq_self.mpr fun i _ => ?_
  change (!(N.held i.index && !(N.closeFd p fd).held i.index)) = true
  cases hheld : N.held i.index with
  | false => rfl
  | true =>
    obtain ⟨d, hd, ho⟩ := held_iff.mp hheld
    suffices hstill : (N.closeFd p fd).held i.index = true by simp [hstill]
    by_cases hclosed : d.proc = p ∧ (d.fd : Int) = fd
    · exact h d hd hclosed.1 hclosed.2 _ ho
    · exact held_iff.mpr ⟨d, mem_closeFd_descs.mpr ⟨hd, hclosed⟩, ho⟩

theorem closeFd_openFd (N : NetState) {p : Proc} {o : FdObj} (ho : o.Below N.next)
    (hnt : ∀ i, o ≠ .tap i) : (N.openFd p o ho).closeFd p (N.freeFd p) = N := by
  have hdescs : ((N.openFd p o ho).closeFd p (N.freeFd p)).descs = N.descs ++ [] :=
    closeFd_descs rfl (by simp)
  refine NetState.ext (closeFd_ifaces fun d hm hp hf i hi => ?_) (by simpa using hdescs) rfl rfl
  rcases List.mem_append.mp hm with hm | hm
  · exact absurd ⟨hp, by exact_mod_cast hf⟩ (N.freeFd_unused hm)
  · rw [List.mem_singleton.mp hm] at hi
    exact absurd hi (hnt i)

/-- Closing the only descriptor of a tap that is newer than `N` removes the tap. -/
theorem closeFd_tap {M N : NetState} {p : Proc} {x : Nat}
    (hd : M.descs = N.descs ++ [⟨p, N.freeFd p, .tap x⟩]) (hx : N.next ≤ x) :
    (M.closeFd p (N.freeFd p)).ifaces = M.ifaces.filter fun i => decide (i.index ≠ x) := by
  refine List.filter_congr fun i _ => ?_
  have hheld : (M.closeFd p (N.freeFd p)).held i.index = N.held i.index := by
    simp only [held, closeFd_descs hd (by simp), List.append_nil]
  change (!(M.held i.index && !(M.closeFd p (N.freeFd p)).held i.index)) = _
  rw [hheld]
  by_cases hi : i.index = x
  · have hN : ∀ d ∈ N.descs, d.obj ≠ .tap x := fun d => obj_ne hx
    simpa [hi, held, hd] using hN
  · have hne : ¬ FdObj.tap x = .tap i.index := fun h => hi (by injection h with h; exact h.symm)
    simp [held, hd, hne, hi]

/-! ## Changing one interface -/

theorem map_last_name {pre : List Iface} {r : Iface} (h : N.ifaces = pre ++ [r])
    (f : Iface → Iface) :
    N.ifaces.map (fun i => if i.name = r.name then f i else i) = pre ++ [f r] := by
  have hnodup := N.names_nodup
  rw [h, List.map_append, List.nodup_append] at hnodup
  have hpre : ∀ i ∈ pre, i.name ≠ r.name := fun i hi =>
    hnodup.2.2 _ (List.mem_map_of_mem hi) _ (by simp)
  rw [h, List.map_append, map_eq_self fun i hi => if_neg (hpre i hi)]
  simp

theorem map_last_index {pre : List Iface} {r : Iface} (h : N.ifaces = pre ++ [r])
    (f : Iface → Iface) :
    N.ifaces.map (fun i => if i.index = r.index then f i else i) = pre ++ [f r] := by
  have hnodup := N.indices_nodup
  rw [h, List.map_append, List.nodup_append] at hnodup
  have hpre : ∀ i ∈ pre, i.index ≠ r.index := fun i hi =>
    hnodup.2.2 _ (List.mem_map_of_mem hi) _ (by simp)
  rw [h, List.map_append, map_eq_self fun i hi => if_neg (hpre i hi)]
  simp

end NetState

end Spectrum.Net
