import Spectrum.Interact.Kernel
import Spectrum.Net.Host

/-!
# The calls `net.c` and `net-util.c` make

One constructor of `Sys` per system call, library call or `ch-remote` command, with the answer C
code sees. `exec` says what each one does to the host.

Every fallible call takes its outcome from a choice: `some e` makes it fail with `errno = e`,
whatever the state; `none` lets it do what the network state allows, which may still be a
failure (a name that is taken, an interface that is not there). A failing call changes nothing
but `errno`.

`Host.failed` is a ghost log of the calls that failed, labelled with the function they were made
by. It is how a statement can speak about "the assignment of outcomes to the steps".
-/

set_option autoImplicit false

namespace Spectrum.Net

open Interact

/-- The function a fallible call is made by. -/
inductive Site
  | ifUp
  | ifRename
  | ifDown
  | bridgeAdd
  | bridgeAddIf
  | bridgeRemoveIf
  | bridgeDelete
  | tapOpen
  | chAddNet
  | chRemoveDevice
  | pipe
  | fork
  | poll
  | close
  deriving Repr, DecidableEq

/-- What `fork` returns: `-1`, `0`, or the child's pid (which no caller here looks at). -/
inductive ForkResult
  | error
  | child
  | parent
  deriving Repr, DecidableEq

/-- `uint8_t mac[6]`. -/
abbrev Mac := Vector UInt8 6

/-- The calls. An `Int` answer is C's: `-1` on failure. Calls that return a code instead of
setting `errno` answer `Option Errno`, `none` for `0`. -/
inductive Sys : Type → Type
  | socket (site : Site) : Sys Int
  | close (fd : Int) : Sys Int
  /-- `ioctl(SIOCGIFFLAGS)`. -/
  | getFlags (site : Site) (name : IfName) : Sys (Option (BitVec 16))
  /-- `ioctl(SIOCSIFFLAGS)`. -/
  | setFlags (site : Site) (name : IfName) (flags : BitVec 16) : Sys Int
  /-- `ioctl(SIOCSIFNAME)`. -/
  | setName (name newname : IfName) : Sys Int
  /-- `ioctl(SIOCBRADDBR)`. -/
  | brAddBr (name : IfName) : Sys Int
  /-- `ioctl(SIOCBRDELBR)`. -/
  | brDelBr (name : IfName) : Sys Int
  /-- `ioctl(SIOCBRADDIF)`. -/
  | brAddIf (brname : IfName) (index : Nat) : Sys Int
  /-- `ioctl(SIOCBRDELIF)`. -/
  | brDelIf (brname : IfName) (index : Nat) : Sys Int
  /-- `if_nametoindex`: `0` on failure. -/
  | nameToIndex (site : Site) (name : IfName) : Sys Nat
  /-- `open("/dev/net/tun", O_RDWR)`. -/
  | openTun : Sys Int
  /-- `ioctl(TUNSETIFF)` with `IFF_TAP`; `excl` is `IFF_TUN_EXCL`. -/
  | tunSetIff (fd : Int) (name : IfName) (excl : Bool) : Sys Int
  | chAddNet (vm : VmDir) (fd : Int) (id : IfName) (mac : Mac) : Sys (Option Errno)
  | chRemoveDevice (vm : VmDir) (id : IfName) : Sys (Option Errno)
  /-- `pipe`: the read end and the write end. -/
  | pipe : Sys (Option (Nat × Nat))
  | fork : Sys ForkResult
  /-- `poll` on one descriptor, without a timeout: `none` once `POLLERR` is reported. -/
  | poll (fd : Nat) : Sys (Option Errno)
  | setErrno (e : Errno) : Sys Unit
  | exit (status : Nat) : Sys Empty

structure Host where
  net : NetState
  /-- Every process has its own `errno`. -/
  errno : Proc → Errno
  failed : List (Site × Errno)

/-! ## The effect of each call, when it is let through -/

namespace NetState

variable (N : NetState)

def getFlags (name : IfName) : Except Errno (Option (BitVec 16) × NetState) :=
  match N.find name with
  | none => .error ENODEV
  | some i => .ok (some i.flags, N)

/-- The state after the flags of `name` have been set. -/
def withFlags (name : IfName) (flags : BitVec 16) : NetState :=
  N.modify (fun i => if i.name = name then { i with flags } else i)
    (fun i => by split <;> rfl) (fun i => by split <;> rfl)
    (fun i hi => by split <;> exact N.master_below i hi)

def setFlags (name : IfName) (flags : BitVec 16) : Except Errno (Int × NetState) :=
  match N.find name with
  | none => .error ENODEV
  | some _ => .ok (0, N.withFlags name flags)

/-- An interface that is up cannot be renamed, and no name is used twice. -/
def setName (name newname : IfName) : Except Errno (Int × NetState) :=
  match N.find name with
  | none => .error ENODEV
  | some i =>
    if i.isUp then .error EBUSY
    else if hfree : N.find newname = none then .ok (0, N.rename name newname hfree)
    else .error EEXIST

def brAddBr (life : Nat) (name : IfName) : Except Errno (Int × NetState) :=
  if hfree : N.find name = none then .ok (0, N.addIface name .bridge life hfree)
  else .error EEXIST

/-- The state after the interface `index` has become a port of `master`, or of nothing. -/
def withMaster (index : Nat) (master : Option Nat) (hm : ∀ m ∈ master, m < N.next) : NetState :=
  N.modify (fun i => if i.index = index then { i with master } else i)
    (fun i => by split <;> rfl) (fun i => by split <;> rfl)
    (fun i hi => by
      split
      · exact hm
      · exact N.master_below i hi)

theorem index_below {N : NetState} {name : IfName} {b : Iface} (hb : N.find name = some b) :
    ∀ m ∈ some b.index, m < N.next := by
  rintro m ⟨⟩
  exact (N.index_range b (find_some hb).1).2

theorem none_below {N : NetState} : ∀ m ∈ (none : Option Nat), m < N.next := by
  rintro m ⟨⟩

/-- The state after the bridge `b` is gone: its ports are released. -/
def withoutBridge (b : Iface) : NetState :=
  (N.modify (fun i => if i.master = some b.index then { i with master := none } else i)
    (fun i => by split <;> rfl) (fun i => by split <;> rfl)
    (fun i hi => by
      split
      · exact none_below
      · exact N.master_below i hi)).keep
      fun i => decide (i.name ≠ b.name)

/-- Only a bridge that is down can be deleted. -/
def brDelBr (name : IfName) : Except Errno (Int × NetState) :=
  match N.find name with
  | none => .error ENXIO
  | some b =>
    if b.kind ≠ .bridge then .error EPERM
    else if b.isUp then .error EBUSY
    else .ok (0, N.withoutBridge b)

def brAddIf (brname : IfName) (index : Nat) : Except Errno (Int × NetState) :=
  match hb : N.find brname, N.findIndex index with
  | some b, some i =>
    if b.kind ≠ .bridge then .error EINVAL
    else if i.master ≠ none then .error EBUSY
    else .ok (0, N.withMaster index (some b.index) (index_below hb))
  | none, _ => .error ENODEV
  | _, none => .error EINVAL

def brDelIf (brname : IfName) (index : Nat) : Except Errno (Int × NetState) :=
  match N.find brname, N.findIndex index with
  | some b, some i =>
    if b.kind ≠ .bridge ∨ i.master ≠ some b.index then .error EINVAL
    else .ok (0, N.withMaster index none none_below)
  | none, _ => .error ENODEV
  | _, none => .error EINVAL

def nameToIndex (name : IfName) : Except Errno (Nat × NetState) :=
  match N.find name with
  | none => .error ENODEV
  | some i => .ok (i.index, N)

/-- The state after a new tap has been opened by `me` under a free name. -/
def withTap (me : Proc) (name : IfName) (hfree : N.find name = none) : NetState :=
  (N.addIface name .tap me.life hfree).openFd me (.tap N.next) (Nat.lt_succ_self N.next)

/-- Attaching to an existing tap needs it to be free, and `IFF_TUN_EXCL` refuses it outright. -/
def tunSetIff (me : Proc) (fd : Int) (name : IfName) (excl : Bool) :
    Except Errno (Int × NetState) :=
  if N.obj me fd ≠ some .tun then .error EBADF
  else if hfree : N.find name = none then
    .ok (0, (N.addIface name .tap me.life hfree).attach me fd N.next (Nat.lt_succ_self _))
  else
    match hi : N.find name with
    | none => .error EBUSY
    | some i =>
      if excl ∨ i.kind ≠ .tap ∨ N.held i.index then .error EBUSY
      else .ok (0, N.attach me fd i.index (N.index_range i (find_some hi).1).2)

/-- A device with this id is plugged into the VM. -/
def plugged (vm : VmDir) (id : IfName) : Bool :=
  N.devices.any fun d => decide (d.vm = vm) && decide (d.id = id)

/-- The state after a device for the tap `index` has been plugged into the VM, whose VMM then has
its own descriptor of the tap. -/
def withDevice (vm : VmDir) (id : IfName) (owner index : Nat) (hx : index < N.next) : NetState :=
  { N.openFd (.router vm) (.tap index) hx with devices := N.devices ++ [⟨vm, id, owner⟩] }

/-- `ch-remote add-net`: the router's VMM receives its own copy of the tap descriptor. -/
def chAddNet (me : Proc) (vm : VmDir) (fd : Int) (id : IfName) :
    Except Errno (Option Errno × NetState) :=
  if N.plugged vm id then .error EPROTO
  else
    match hd : N.descs.find? fun d => decide (d.proc = me) && decide ((d.fd : Int) = fd) with
    | some ⟨_, _, .tap index⟩ =>
      .ok (none, N.withDevice vm id me.life index (N.desc_below _ (List.mem_of_find?_eq_some hd)))
    | _ => .error EPROTO

def withoutDevice (vm : VmDir) (id : IfName) : NetState :=
  { N with devices := N.devices.filter fun d => !(decide (d.vm = vm) && decide (d.id = id)) }

/-- `ch-remote remove-device`: the device goes, but cloud-hypervisor keeps the tap open. -/
def chRemoveDevice (vm : VmDir) (id : IfName) : Except Errno (Option Errno × NetState) :=
  if N.plugged vm id then .ok (none, N.withoutDevice vm id) else .error EPROTO

def pipe (me : Proc) : Except Errno (Option (Nat × Nat) × NetState) :=
  let r := N.tick.openFd me (.pipeRead N.next) (Nat.lt_succ_self _)
  let w := r.openFd me (.pipeWrite N.next) (Nat.lt_succ_self _)
  .ok (some (N.tick.freeFd me, r.freeFd me), w)

/-! ### Inversion: what a request that went through did, and why one did not -/

section

variable {N} {M : NetState} {name newname brname : IfName} {e : Errno}

theorem getFlags_ok {b : Option (BitVec 16)} (h : N.getFlags name = .ok (b, M)) :
    ∃ i, N.find name = some i ∧ b = some i.flags ∧ M = N := by
  unfold getFlags at h
  split at h
  · cases h
  · rename_i i hi
    cases h
    exact ⟨i, hi, rfl, rfl⟩

theorem getFlags_error (h : N.getFlags name = .error e) : N.find name = none := by
  unfold getFlags at h
  split at h
  · assumption
  · cases h

theorem setFlags_ok {flags : BitVec 16} {b : Int} (h : N.setFlags name flags = .ok (b, M)) :
    b = 0 ∧ M = N.withFlags name flags := by
  unfold setFlags at h
  split at h <;> cases h
  exact ⟨rfl, rfl⟩

theorem setFlags_error {flags : BitVec 16} (h : N.setFlags name flags = .error e) :
    N.find name = none := by
  unfold setFlags at h
  split at h
  · assumption
  · cases h

theorem setName_ok {b : Int} (h : N.setName name newname = .ok (b, M)) :
    ∃ i hfree, N.find name = some i ∧ i.isUp = false ∧ b = 0 ∧ M = N.rename name newname hfree := by
  unfold setName at h
  split at h
  · cases h
  · rename_i i hi
    split at h
    · cases h
    · rename_i hup
      split at h
      · rename_i hfree
        cases h
        exact ⟨i, hfree, hi, by simpa using hup, rfl, rfl⟩
      · cases h

theorem setName_error (h : N.setName name newname = .error e) :
    N.find name = none ∨ (∃ i, N.find name = some i ∧ i.isUp = true) ∨ N.find newname ≠ none := by
  unfold setName at h
  split at h
  · exact Or.inl (by assumption)
  · rename_i i hi
    split at h
    · rename_i hup
      exact Or.inr (Or.inl ⟨i, hi, hup⟩)
    · split at h
      · cases h
      · exact Or.inr (Or.inr (by assumption))

theorem brAddBr_ok {life : Nat} {b : Int} (h : N.brAddBr life name = .ok (b, M)) :
    ∃ hfree, b = 0 ∧ M = N.addIface name .bridge life hfree := by
  unfold brAddBr at h
  split at h
  · rename_i hfree
    cases h
    exact ⟨hfree, rfl, rfl⟩
  · cases h

theorem brAddBr_error {life : Nat} (h : N.brAddBr life name = .error e) : N.find name ≠ none := by
  unfold brAddBr at h
  split at h
  · cases h
  · assumption

/-- What a bridge has to be for `SIOCBRDELBR` to delete it. -/
def Deletable (N : NetState) (name : IfName) (b : Iface) : Prop :=
  N.find name = some b ∧ b.kind = .bridge ∧ b.isUp = false

theorem brDelBr_ok {r : Int} (h : N.brDelBr name = .ok (r, M)) :
    ∃ b, N.Deletable name b ∧ r = 0 ∧ M = N.withoutBridge b := by
  unfold brDelBr at h
  split at h
  · cases h
  · rename_i b hb
    split at h
    · cases h
    · rename_i hk
      split at h
      · cases h
      · rename_i hup
        cases h
        exact ⟨b, ⟨hb, by simpa using hk, by simpa using hup⟩, rfl, rfl⟩

theorem brDelBr_error (h : N.brDelBr name = .error e) : ¬ ∃ b, N.Deletable name b := by
  rintro ⟨b, hb, hk, hup⟩
  simp [brDelBr, hb, hk, hup] at h

/-- The port `ifname` may be given to the bridge `brname`. -/
def Attachable (N : NetState) (brname ifname : IfName) (b i : Iface) : Prop :=
  N.find brname = some b ∧ N.find ifname = some i ∧ b.kind = .bridge ∧ i.master = none

theorem brAddIf_ok {i : Iface} (hi : N.find name = some i) {r : Int}
    (h : N.brAddIf brname i.index = .ok (r, M)) :
    ∃ b hm, N.Attachable brname name b i ∧ r = 0 ∧
      M = N.withMaster i.index (some b.index) hm := by
  unfold brAddIf at h
  split at h
  · rename_i b j hb hj
    obtain rfl : j = i := by
      rw [findIndex_of_mem (find_some hi).1] at hj
      exact (Option.some.inj hj).symm
    split at h
    · cases h
    · rename_i hk
      split at h
      · cases h
      · rename_i hm
        cases h
        exact ⟨b, index_below hb, ⟨hb, hi, by simpa using hk, by simpa using hm⟩, rfl, rfl⟩
  · cases h
  · cases h

theorem brAddIf_error {i : Iface} (hi : N.find name = some i)
    (h : N.brAddIf brname i.index = .error e) : ¬ ∃ b, N.Attachable brname name b i := by
  rintro ⟨b, hb, -, hk, hm⟩
  unfold brAddIf at h
  split at h
  · rename_i b' j hb' hj
    obtain rfl : b' = b := Option.some.inj (hb'.symm.trans hb)
    obtain rfl : j = i := by
      rw [findIndex_of_mem (find_some hi).1] at hj
      exact (Option.some.inj hj).symm
    simp [hk, hm] at h
  · rename_i hb'
    simp [hb] at hb'
  · rename_i hj _
    simp [findIndex_of_mem (find_some hi).1] at hj

theorem brAddIf_withMaster {index : Nat} {r : Int} (h : N.brAddIf brname index = .ok (r, M)) :
    ∃ m hm, M = N.withMaster index m hm := by
  unfold brAddIf at h
  split at h
  · split at h
    · cases h
    · split at h <;> cases h
      exact ⟨_, _, rfl⟩
  · cases h
  · cases h

/-- The interface `ifname` is a port of the bridge `brname`. -/
def PortOf (N : NetState) (brname ifname : IfName) (b i : Iface) : Prop :=
  N.find brname = some b ∧ N.find ifname = some i ∧ b.kind = .bridge ∧ i.master = some b.index

theorem brDelIf_ok {i : Iface} (hi : N.find name = some i) {r : Int}
    (h : N.brDelIf brname i.index = .ok (r, M)) :
    ∃ b, N.PortOf brname name b i ∧ r = 0 ∧ M = N.withMaster i.index none none_below := by
  unfold brDelIf at h
  rw [findIndex_of_mem (find_some hi).1] at h
  cases hb : N.find brname with
  | none => simp [hb] at h
  | some b =>
    simp only [hb] at h
    split at h
    · cases h
    · rename_i hk
      cases h
      rw [not_or, not_not, not_not] at hk
      exact ⟨b, ⟨hb, hi, hk.1, hk.2⟩, rfl, rfl⟩

theorem brDelIf_error {i : Iface} (hi : N.find name = some i)
    (h : N.brDelIf brname i.index = .error e) : ¬ ∃ b, N.PortOf brname name b i := by
  rintro ⟨b, hb, -, hk, hm⟩
  simp [brDelIf, findIndex_of_mem (find_some hi).1, hb, hk, hm] at h

theorem brDelIf_withMaster {index : Nat} {r : Int} (h : N.brDelIf brname index = .ok (r, M)) :
    ∃ m hm, M = N.withMaster index m hm := by
  unfold brDelIf at h
  split at h
  · split at h <;> cases h
    exact ⟨_, _, rfl⟩
  · cases h
  · cases h

theorem nameToIndex_ok {x : Nat} (h : N.nameToIndex name = .ok (x, M)) :
    ∃ i, N.find name = some i ∧ x = i.index ∧ M = N := by
  unfold nameToIndex at h
  split at h
  · cases h
  · rename_i i hi
    cases h
    exact ⟨i, hi, rfl, rfl⟩

theorem nameToIndex_error (h : N.nameToIndex name = .error e) : N.find name = none := by
  unfold nameToIndex at h
  split at h
  · assumption
  · cases h

/-- Under `IFF_TUN_EXCL` only a free name is accepted. -/
theorem tunSetIff_ok {me : Proc} {fd : Int} {r : Int}
    (h : N.tunSetIff me fd name true = .ok (r, M)) :
    ∃ hfree, r = 0 ∧
      M = (N.addIface name .tap me.life hfree).attach me fd N.next (Nat.lt_succ_self _) := by
  unfold tunSetIff at h
  split at h
  · cases h
  · split at h
    · rename_i hfree
      cases h
      exact ⟨hfree, rfl, rfl⟩
    · split at h
      · cases h
      · simp at h

theorem tunSetIff_error {me : Proc} {fd : Int} (ho : N.obj me fd = some .tun)
    (h : N.tunSetIff me fd name true = .error e) : N.find name ≠ none := by
  intro hfree
  simp [tunSetIff, ho, hfree] at h

theorem chAddNet_ok {me : Proc} {vm : VmDir} {fd : Int} {x : Nat} {r : Option Errno}
    (ho : N.obj me fd = some (.tap x)) (h : N.chAddNet me vm fd name = .ok (r, M)) :
    ∃ hx, N.plugged vm name = false ∧ r = none ∧ M = N.withDevice vm name me.life x hx := by
  unfold chAddNet at h
  split at h
  · cases h
  · rename_i hp
    split at h
    · rename_i index hd
      cases h
      simp only [obj, hd, Option.map_some, Option.some.injEq, FdObj.tap.injEq] at ho
      subst ho
      exact ⟨_, by simpa using hp, rfl, rfl⟩
    · cases h

theorem chAddNet_withDevice {me : Proc} {vm : VmDir} {fd : Int} {r : Option Errno}
    (h : N.chAddNet me vm fd name = .ok (r, M)) :
    ∃ x hx, M = N.withDevice vm name me.life x hx := by
  unfold chAddNet at h
  split at h
  · cases h
  · split at h <;> cases h
    exact ⟨_, _, rfl⟩

theorem chAddNet_error {me : Proc} {vm : VmDir} {fd : Int} {x : Nat}
    (ho : N.obj me fd = some (.tap x)) (h : N.chAddNet me vm fd name = .error e) :
    N.plugged vm name = true := by
  unfold chAddNet at h
  split at h
  · assumption
  · split at h
    · cases h
    · rename_i hnot
      obtain ⟨d, hd, hdo⟩ := Option.map_eq_some_iff.mp ho
      obtain ⟨p, f, o⟩ := d
      simp only at hdo
      subst hdo
      exact absurd hd (hnot _ _ _)

theorem chRemoveDevice_ok {vm : VmDir} {r : Option Errno}
    (h : N.chRemoveDevice vm name = .ok (r, M)) : r = none ∧ M = N.withoutDevice vm name := by
  unfold chRemoveDevice at h
  split at h <;> cases h
  exact ⟨rfl, rfl⟩

theorem chRemoveDevice_error {vm : VmDir} (h : N.chRemoveDevice vm name = .error e) :
    N.plugged vm name = false := by
  unfold chRemoveDevice at h
  split at h
  · cases h
  · rename_i hp
    simpa using hp

end

/-- No process holds the read end of the pipe `fd` writes to. -/
def readerGone (me : Proc) (fd : Nat) : Bool :=
  match N.obj me fd with
  | some (.pipeWrite id) => !N.descs.any fun d => decide (d.obj = .pipeRead id)
  | _ => false

end NetState

/-! ## Executing a call -/

namespace Host

/-- A host on which nothing has happened yet. -/
def boot : Host := ⟨.empty, fun _ => 0, []⟩

/-- A failed call: `errno` is set, and the log remembers it. -/
def fail (w : Host) (me : Proc) (site : Site) (e : Errno) : Host :=
  { w with errno := Function.update w.errno me e, failed := w.failed ++ [(site, e)] }

def withNet (w : Host) (N : NetState) : Host := { w with net := N }

@[simp] theorem withNet_net (w : Host) (N : NetState) : (w.withNet N).net = N := rfl

@[simp] theorem withNet_failed (w : Host) (N : NetState) : (w.withNet N).failed = w.failed := rfl

@[simp] theorem withNet_withNet (w : Host) (N N' : NetState) :
    (w.withNet N).withNet N' = w.withNet N' := rfl

@[simp] theorem withNet_fail (w : Host) (N : NetState) (me : Proc) (site : Site) (e : Errno) :
    (w.withNet N).fail me site e = (w.fail me site e).withNet N := rfl

/-- A fallible call, answered `bad e` when it fails with `e`. -/
def attempt {β : Type} (w : Host) (me : Proc) (site : Site) (bad : Errno → β) (ch : Option Errno)
    (r : Except Errno (β × NetState)) : Option (Outcome Proc β × Host) :=
  match ch, r with
  | some e, _ => some (.resume (bad e), w.fail me site e)
  | none, .error e => some (.resume (bad e), w.fail me site e)
  | none, .ok (b, N) => some (.resume b, w.withNet N)

/-- Everything a fallible call can do. -/
theorem attempt_cases {β : Type} {w w' : Host} {me : Proc} {site : Site} {bad : Errno → β}
    {ch : Option Errno} {r : Except Errno (β × NetState)} {o : Outcome Proc β}
    (h : w.attempt me site bad ch r = some (o, w')) :
    (∃ e, (ch = some e ∨ ch = none ∧ r = .error e) ∧ o = .resume (bad e) ∧
      w' = w.fail me site e) ∨
    (∃ b N, ch = none ∧ r = .ok (b, N) ∧ o = .resume b ∧ w' = w.withNet N) := by
  cases ch with
  | some e =>
    simp only [attempt, Option.some.injEq, Prod.mk.injEq] at h
    exact Or.inl ⟨e, Or.inl rfl, h.1.symm, h.2.symm⟩
  | none =>
    cases r with
    | error e =>
      simp only [attempt, Option.some.injEq, Prod.mk.injEq] at h
      exact Or.inl ⟨e, Or.inr ⟨rfl, rfl⟩, h.1.symm, h.2.symm⟩
    | ok bN =>
      simp only [attempt, Option.some.injEq, Prod.mk.injEq] at h
      exact Or.inr ⟨_, _, rfl, rfl, h.1.symm, h.2.symm⟩

/-- A fallible call always resumes its caller. -/
theorem attempt_resumes {β : Type} {w w' : Host} {me : Proc} {site : Site} {bad : Errno → β}
    {ch : Option Errno} {r : Except Errno (β × NetState)} {o : Outcome Proc β}
    (h : w.attempt me site bad ch r = some (o, w')) : ∃ b, o = .resume b := by
  rcases attempt_cases h with ⟨e, -, ho, -⟩ | ⟨b, N, -, -, ho, -⟩
  · exact ⟨_, ho⟩
  · exact ⟨_, ho⟩

end Host

/-- One call of the process `me`. `exit` closes what the process holds; `fork` starts the exit
listener of the same lifetime; `poll` blocks until the pipe has no reader. -/
def exec {β : Type} (me : Proc) (c : Sys β) (w : Host) (ch : Option Errno) :
    Option (Outcome Proc β × Host) :=
  match c with
  | .socket site =>
    w.attempt me site (fun _ => -1) ch (.ok (w.net.freeFd me, w.net.openFd me .socket (.socket _)))
  | .close fd =>
    if (w.net.obj me fd).isSome then some (.resume 0, w.withNet (w.net.closeFd me fd))
    else some (.resume (-1), w.fail me .close EBADF)
  | .getFlags site name => w.attempt me site (fun _ => none) ch (w.net.getFlags name)
  | .setFlags site name flags => w.attempt me site (fun _ => -1) ch (w.net.setFlags name flags)
  | .setName name newname => w.attempt me .ifRename (fun _ => -1) ch (w.net.setName name newname)
  | .brAddBr name => w.attempt me .bridgeAdd (fun _ => -1) ch (w.net.brAddBr me.life name)
  | .brDelBr name => w.attempt me .bridgeDelete (fun _ => -1) ch (w.net.brDelBr name)
  | .brAddIf brname index => w.attempt me .bridgeAddIf (fun _ => -1) ch (w.net.brAddIf brname index)
  | .brDelIf brname index =>
    w.attempt me .bridgeRemoveIf (fun _ => -1) ch (w.net.brDelIf brname index)
  | .nameToIndex site name => w.attempt me site (fun _ => 0) ch (w.net.nameToIndex name)
  | .openTun =>
    w.attempt me .tapOpen (fun _ => -1) ch (.ok (w.net.freeFd me, w.net.openFd me .tun (.tun _)))
  | .tunSetIff fd name excl =>
    w.attempt me .tapOpen (fun _ => -1) ch (w.net.tunSetIff me fd name excl)
  | .chAddNet vm fd id _ => w.attempt me .chAddNet some ch (w.net.chAddNet me vm fd id)
  | .chRemoveDevice vm id => w.attempt me .chRemoveDevice some ch (w.net.chRemoveDevice vm id)
  | .pipe => w.attempt me .pipe (fun _ => none) ch (w.net.pipe me)
  | .fork =>
    match ch with
    | some e => some (.resume .error, w.fail me .fork e)
    | none =>
      some (.fork .parent (.listener me.life) .child,
        w.withNet (w.net.forkFds me (.listener me.life)))
  | .poll fd =>
    match ch with
    | some e => some (.resume (some e), w.fail me .poll e)
    | none => if w.net.readerGone me fd then some (.resume none, w) else none
  | .setErrno e => some (.resume (), { w with errno := Function.update w.errno me e })
  | .exit _ => some (.halt, w.withNet (w.net.exitProc me))

def kernel : Kernel Sys Proc Host (Option Errno) := ⟨exec⟩

def Sys.isFork {β : Type} : Sys β → Bool
  | .fork => true
  | _ => false

def Sys.isExit {β : Type} : Sys β → Bool
  | .exit _ => true
  | _ => false

/-- Only `fork` forks, and what it starts is the listener of the caller's lifetime. -/
theorem exec_fork {β : Type} {me t : Proc} {c : Sys β} {w w' : Host} {ch : Option Errno} {b b' : β}
    (h : exec me c w ch = some (.fork b t b', w')) :
    c.isFork ∧ t = .listener me.life ∧ w' = w.withNet (w.net.forkFds me (.listener me.life)) := by
  cases c with
  | fork =>
    cases ch <;> cases h
    exact ⟨rfl, rfl, rfl⟩
  | exit | setErrno => cases h
  | close | poll =>
    simp only [exec] at h
    split at h <;> (try split at h) <;> cases h
  | _ =>
    obtain ⟨b, ho⟩ := Host.attempt_resumes h
    cases ho

/-- Only `exit` ends a process. -/
theorem exec_halt {β : Type} {me : Proc} {c : Sys β} {w w' : Host} {ch : Option Errno}
    (h : exec me c w ch = some (.halt, w')) :
    c.isExit ∧ w' = w.withNet (w.net.exitProc me) := by
  cases c with
  | exit =>
    cases h
    exact ⟨rfl, rfl⟩
  | fork => cases ch <;> cases h
  | setErrno => cases h
  | close | poll =>
    simp only [exec] at h
    split at h <;> (try split at h) <;> cases h
  | _ =>
    obtain ⟨b, ho⟩ := Host.attempt_resumes h
    cases ho

/-! ## The one rule for fallible calls -/

variable {me : Proc} {ok : Option Errno → Prop} {H : Host → Prop} {α β : Type}

/-- **A fallible call either fails and changes nothing, or has its effect.** The two premises
are the two ways on: a failure, which has to be one the choices allow or one the state forces,
and the effect. -/
theorem wp_attempt {c : Sys β} {k : β → Prog Sys α} {Q : α → Host → Prop} {w : Host}
    {site : Site} {bad : Errno → β} {r : Except Errno (β × NetState)}
    (hc : ∀ ch, exec me c w ch = w.attempt me site bad ch r)
    (hbad : ∀ e, (ok (some e) ∨ (ok none ∧ r = .error e)) →
      (k (bad e)).wp (kernel.spec me ok H) Q (w.fail me site e))
    (hgood : ∀ b N, r = .ok (b, N) → (k b).wp (kernel.spec me ok H) Q (w.withNet N)) :
    (Prog.call c k).wp (kernel.spec me ok H) Q w := by
  constructor
  · intro ch w' _ hx
    change exec me c w ch = _ at hx
    rw [hc] at hx
    obtain ⟨b, ho⟩ := Host.attempt_resumes hx
    cases ho
  · rintro b w' ⟨ch, o, hok, hx, ho⟩
    change exec me c w ch = _ at hx
    rw [hc] at hx
    rcases Host.attempt_cases hx with ⟨e, he, rfl, rfl⟩ | ⟨b, N, rfl, hr, rfl, rfl⟩
    · cases ho
      rcases he with rfl | ⟨rfl, he⟩
      · exact hbad e (Or.inl hok)
      · exact hbad e (Or.inr ⟨hok, he⟩)
    · cases ho
      exact hgood _ _ hr

/-- A call the choices have no say in. -/
theorem wp_resume {c : Sys β} {k : β → Prog Sys α} {Q : α → Host → Prop} {w w' : Host} {b : β}
    (hc : ∀ ch, exec me c w ch = some (.resume b, w'))
    (hk : (k b).wp (kernel.spec me ok H) Q w') :
    (Prog.call c k).wp (kernel.spec me ok H) Q w := by
  constructor
  · intro ch w'' _ hx
    change exec me c w ch = _ at hx
    rw [hc] at hx
    simp at hx
  · rintro b' w'' ⟨ch, o, -, hx, ho⟩
    change exec me c w ch = _ at hx
    rw [hc] at hx
    simp only [Option.some.injEq, Prod.mk.injEq] at hx
    obtain ⟨rfl, rfl⟩ := hx
    simp only [Outcome.answer, Option.some.injEq] at ho
    subst ho
    exact hk

theorem wp_close {fd : Int} {k : Int → Prog Sys α} {Q : α → Host → Prop} {w : Host} {o : FdObj}
    (ho : w.net.obj me fd = some o)
    (hk : (k 0).wp (kernel.spec me ok H) Q (w.withNet (w.net.closeFd me fd))) :
    (Prog.call (.close fd) k).wp (kernel.spec me ok H) Q w :=
  wp_resume (fun _ => by simp [exec, ho]) hk

/-- `close(-1)` in particular. -/
theorem wp_close_bad {fd : Int} {k : Int → Prog Sys α} {Q : α → Host → Prop} {w : Host}
    (ho : w.net.obj me fd = none)
    (hk : (k (-1)).wp (kernel.spec me ok H) Q (w.fail me .close EBADF)) :
    (Prog.call (.close fd) k).wp (kernel.spec me ok H) Q w :=
  wp_resume (fun _ => by simp [exec, ho]) hk

end Spectrum.Net
