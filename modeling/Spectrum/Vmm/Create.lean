import Spectrum.Path
import Spectrum.Vmm.Fork

/-!
# `start-vmm`: creating the VM

`start-vmm` binds the API socket, leaves a process behind that will configure the VM through that
socket, and becomes cloud-hypervisor by `exec`. The process left behind is the grandchild of a
`double_fork`. When it cannot create the VM it sends SIGTERM to its parent, meaning to stop
cloud-hypervisor.

**The signal never reaches cloud-hypervisor.** The parent of the grandchild is the child that
`double_fork` uses in between, or the reaper once that child has exited, and neither of them is the
process that becomes cloud-hypervisor.

The configuration built by `vm_config` is a parameter here, and so are the texts and numbers that
come from outside: the program's name, the descriptions of errors, the encoding as JSON and the
number of the socket's descriptor.
-/

set_option autoImplicit false

namespace Spectrum.Vmm

open Interact Bytes

/-! ## `ch.rs` -/

/-- Paths and arguments. -/
abbrev OsString := List UInt8

def os (s : String) : OsString := ascii s.toList

abbrev MacAddress := Vector UInt8 6

/-- `{:02X}`. -/
def hex2 (b : UInt8) : String :=
  let digit (n : Nat) : Char := (Nat.digitChar n).toUpper
  String.ofList [digit (b.toNat / 16), digit (b.toNat % 16)]

def MacAddress.display (mac : MacAddress) : String := ":".intercalate (mac.toList.map hex2)

structure ConsoleConfig where
  mode : String
  file : Option String

structure DiskConfig where
  path : String
  readonly : Bool

structure FsConfig where
  socket : String
  tag : String

structure GpuConfig where
  socket : String

structure NetConfig where
  fd : Int
  id : String
  mac : MacAddress

structure MemoryConfig where
  size : Int
  shared : Bool

structure PayloadConfig where
  kernel : String
  cmdline : String

structure VsockConfig where
  cid : Nat
  socket : String

structure VmConfig where
  console : ConsoleConfig
  disks : List DiskConfig
  fs : FsConfig
  gpu : List GpuConfig
  memory : MemoryConfig
  net : List NetConfig
  payload : PayloadConfig
  serial : ConsoleConfig
  vsock : VsockConfig

/-- What `start-vmm` gets from outside. -/
structure Env where
  progName : String
  /-- `io::Error::from_raw_os_error` as text. -/
  strerror : Int → String
  json : VmConfig → String
  apiSocketFd : Nat

section

variable (env : Env)

def command (vmDir : OsString) (s : String) : List OsString :=
  [os "ch-remote", os "--api-socket", Path.join vmDir (os "vmm"), os s]

namespace Ch

def addNet (vmDir : OsString) (net : NetConfig) : Prog Call (Except Errno Unit) := do
  let arg := s!"fd={net.fd},id={net.id},mac={net.mac.display}"
  match ← Prog.lift (.io (.spawn (command vmDir "add-net" ++ [os arg]))) with
  | some _ => return .error EPERM
  | none =>
    match ← Prog.lift .wait with
    | .exited 0 => return .ok ()
    | _ => return .error EPROTO

def addNets (vmDir : OsString) : List NetConfig → Prog Call (Except String Unit)
  | [] => return .ok ()
  | net :: nets => do
    match ← addNet vmDir net with
    | .error e => return .error s!"failed to add net: {e}"
    | .ok () => addNets vmDir nets

def createVm (vmDir : OsString) (config : VmConfig) : Prog Call (Except String Unit) := do
  match ← Prog.lift (.io (.spawn (command vmDir "create" ++ [os "--", os "-"]))) with
  | some e => return .error s!"failed to start ch-remote: {env.strerror e}"
  | none =>
    -- Net devices are not part of the configuration sent here, they are added afterwards.
    match ← Prog.lift (.io (.writeStdin (env.json { config with net := [] }))) with
    | some e => return .error s!"writing to ch-remote's stdin: {env.strerror e}"
    | none =>
      match ← Prog.lift .wait with
      | .error e => return .error s!"waiting for ch-remote: {env.strerror e}"
      | .signaled signal => return .error s!"ch-remote killed by signal {signal}"
      | .exited code =>
        if code ≠ 0 then
          return .error s!"ch-remote exited {code}"
        else
          addNets vmDir config.net

end Ch

/-! ## `lib.rs` and `start-vmm.rs` -/

/-- `eprintln!`, which panics if it cannot write. -/
def eprintln (line : String) : Prog Call Unit := do
  match ← Prog.lift (.io (.eprint line)) with
  | some _ => exitWith 101
  | none => return ()

def notifyReadiness : Prog Call (Except String Unit) := do
  match ← Prog.lift (.io (.writeReady "\n")) with
  | some e => return .error s!"notifying readiness: {env.strerror e}"
  | none => return .ok ()

/-- Runs in the grandchild, and does not return. -/
def createVmChildMain {α : Type} (vmDir : OsString) (config : VmConfig) : Prog Call α := do
  match ← Ch.createVm env vmDir config with
  | .error e =>
    eprintln s!"{env.progName}: creating VM: {e}"
    let parent ← Prog.lift .getppid
    match ← Prog.lift (.kill parent SIGTERM) with
    | some e => eprintln s!"{env.progName}: killing cloud-hypervisor: {env.strerror e}"
    | none => pure ()
    exitWith 1
  | .ok () =>
    match ← notifyReadiness env with
    | .error e =>
      eprintln s!"{env.progName}: failed to notify readiness: {e}"
      exitWith 1
    | .ok () => exitWith 0

/-- `config` is what `vm_config` returned. -/
def createVm (vmDir : OsString) (config : Except String VmConfig) (junk : Fin 4 → UInt8) :
    Prog Call (Except String Unit) := do
  match config with
  | .error e => return .error e
  | .ok config =>
    let v ← doubleFork junk
    if v < 0 then
      return .error s!"double fork: {env.strerror (-v)}"
    else if v = 0 then
      createVmChildMain env vmDir config
    else
      return .ok ()

def createApiSocket (vmDir : OsString) : Prog Call (Except String Unit) := do
  let path := Path.join vmDir (os "vmm")
  let _ ← Prog.lift (.io (.removeFile path))
  match ← Prog.lift (.io (.bind path)) with
  | some e => return .error s!"creating API socket: {env.strerror e}"
  | none =>
    match ← Prog.lift (.io .clearCloexec) with
    | some e => return .error s!"clearing CLOEXEC on API socket fd: {env.strerror e}"
    | none => return .ok ()

def vmCommand (apiSocketFd : Nat) : List OsString :=
  [os "cloud-hypervisor", os "--api-socket", os s!"fd={apiSocketFd}"]

def exUsage {α : Type} : Prog Call α := do
  eprintln "Usage: start-vmm vm"
  exitWith 1

/-- The message of the error it ended with. -/
def run (args : List OsString) (config : Except String VmConfig) (junk : Fin 4 → UInt8) :
    Prog Call String :=
  match args.tail with
  | [vmName] => do
    let vmDir := Path.join (os "/run/vm") vmName
    match ← createApiSocket env vmDir with
    | .error e => return e
    | .ok () =>
      match ← createVm env vmDir config junk with
      | .error e => return e
      | .ok () =>
        let e ← Prog.lift (.exec (vmCommand env.apiSocketFd))
        return s!"failed to exec: {env.strerror e}"
  | _ => exUsage

def main (args : List OsString) (config : Except String VmConfig) (junk : Fin 4 → UInt8) :
    Prog Call Unit := do
  let e ← run env args config junk
  eprintln s!"{env.progName}: {e}"
  exitWith 1

end

/-! ## Who can be signalled -/

/-- What a process is to `start-vmm`: that process itself before it has forked, the child it forks,
one that runs `create_vm_child_main` or may still do so, one that has asked for its parent. -/
inductive Role
  | first
  | child
  | free
  | aiming (target : Pid)

def roleSpec : Spec Call Role where
  pre x c :=
    match c with
    | .fork => x = .first ∨ x = .child
    | .getppid => x = .free
    | .kill p signo => signo ≠ SIGTERM ∨ x = .aiming p
    | _ => True
  post x c b y :=
    match c with
    | .fork =>
      match x, b with
      | .first, .child => y = .child
      | .first, _ => y = .free
      | .child, .child => y = .free
      | .child, _ => y = .child
      | _, _ => False
    | .getppid => y = .aiming b
    | _ => y = x

/-- The calls that leave the role of a process as it is. -/
def Plain {β : Type} (c : Call β) : Prop :=
  match c with
  | .fork | .getppid => False
  | .kill _ signo => signo ≠ SIGTERM
  | _ => True

theorem wp_plain {α : Type} {p : Prog Call α} (hp : p.Only Plain) (x : Role) :
    p.wp roleSpec (fun _ y => y = x) x := by
  refine Prog.wp_of_only (P := Plain) (fun y => y = x) ?_ ?_ hp rfl
  · rintro β c _ hc rfl
    cases c <;> first | trivial | exact hc.elim | exact Or.inl hc
  · rintro β c _ b y hc rfl hy
    cases c <;> first | exact hc.elim | exact hy

/-- Code that ends in `exit` owes nothing on return. -/
theorem wp_exitWith {α : Type} {status : Nat} {Q : α → Role → Prop} {x : Role} :
    (exitWith status : Prog Call α).wp roleSpec Q x := ⟨trivial, fun b => b.elim⟩

/-- The calls that have to do with files and other programs. -/
def Outward {β : Type} (c : Call β) : Prop :=
  match c with
  | .io _ | .wait | .exit _ => True
  | _ => False

theorem wp_outward {α : Type} {p : Prog Call α} (hp : p.Only Outward) (x : Role) :
    p.wp roleSpec (fun _ y => y = x) x := by
  refine wp_plain (hp.mono ?_) x
  intro β c hc
  cases c <;> trivial

theorem outward_eprintln (line : String) : (eprintln line).Only Outward := by
  refine ⟨trivial, fun r => ?_⟩
  cases r with
  | none => trivial
  | some e => exact ⟨trivial, fun b => b.elim⟩

theorem wp_eprintln_exit {α : Type} {line : String} {status : Nat} {Q : α → Role → Prop}
    {x : Role} :
    ((eprintln line).bind fun _ => exitWith status).wp roleSpec Q x :=
  Prog.wp_seq (wp_outward (outward_eprintln line) x) fun _ _ _ => wp_exitWith

theorem outward_addNet (vmDir : OsString) (net : NetConfig) :
    (Ch.addNet vmDir net).Only Outward := by
  refine ⟨trivial, fun r => ?_⟩
  cases r with
  | some e => trivial
  | none =>
    refine ⟨trivial, fun s => ?_⟩
    match s with
    | .exited 0 | .exited (_ + 1) | .error _ | .signaled _ => trivial

theorem outward_addNets (vmDir : OsString) (nets : List NetConfig) :
    (Ch.addNets vmDir nets).Only Outward := by
  induction nets with
  | nil => trivial
  | cons net nets ih =>
    refine (outward_addNet vmDir net).bind fun r => ?_
    cases r with
    | error e => trivial
    | ok _ => exact ih

theorem outward_createVm (env : Env) (vmDir : OsString) (config : VmConfig) :
    (Ch.createVm env vmDir config).Only Outward := by
  refine ⟨trivial, fun r => ?_⟩
  cases r with
  | some e => trivial
  | none =>
    refine ⟨trivial, fun r => ?_⟩
    cases r with
    | some e => trivial
    | none =>
      refine ⟨trivial, fun s => ?_⟩
      cases s with
      | error e => trivial
      | signaled signal => trivial
      | exited code =>
        change (ite _ _ _ : Prog Call _).Only Outward
        split
        · trivial
        · exact outward_addNets vmDir config.net

theorem plain_receivePid (fd child : Nat) (v : List UInt8) :
    (receivePid fd child v).Only Plain := by
  refine fun s => ⟨trivial, fun r => ⟨trivial, fun _ => ?_⟩⟩
  cases r with
  | ok bytes => trivial
  | error e => exact ⟨show SIGKILL ≠ SIGTERM by decide, fun _ => ⟨trivial, fun _ => trivial⟩⟩

theorem wp_sendPid_role {fd : Nat} {v : Int} {Q : Int → Role → Prop} {x : Role} :
    (sendPid fd v).wp roleSpec Q x := by
  refine Prog.wp_loop (fun _ y => y = x) rfl ?_
  rintro acc _ rfl
  refine ⟨trivial, fun r y hy => ⟨fun _ _ => hy, fun _ => ?_⟩⟩
  cases r <;> exact wp_exitWith

/-- Only the caller and the grandchild return from `double_fork`. -/
theorem wp_doubleFork_role (junk : Fin 4 → UInt8) :
    (doubleFork junk).wp roleSpec (fun n y => y = .free ∨ n = -1) .first := by
  refine ⟨trivial, ?_⟩
  rintro r _ rfl
  cases r with
  | error e => exact Or.inr rfl
  | ok fds =>
    obtain ⟨r, v⟩ := fds
    refine ⟨Or.inl rfl, fun b y hb => ?_⟩
    cases b with
    | error e =>
      obtain rfl : y = .free := hb
      refine ⟨trivial, ?_⟩
      rintro - _ rfl
      refine ⟨trivial, ?_⟩
      rintro - _ rfl
      exact Or.inl rfl
    | parent p =>
      obtain rfl : y = .free := hb
      refine ⟨trivial, ?_⟩
      rintro - _ rfl
      exact Prog.wp_mono (fun _ _ => Or.inl) (wp_plain (plain_receivePid _ _ _) .free)
    | child =>
      obtain rfl : y = .child := hb
      refine ⟨trivial, ?_⟩
      rintro - _ rfl
      refine ⟨Or.inr rfl, fun b y hb => ?_⟩
      cases b with
      | error e => exact wp_sendPid_role
      | parent p => exact wp_sendPid_role
      | child =>
        obtain rfl : y = .free := hb
        refine ⟨trivial, ?_⟩
        rintro - _ rfl
        exact Or.inl rfl

theorem wp_createVmChildMain {α : Type} {env : Env} {vmDir : OsString} {config : VmConfig}
    {Q : α → Role → Prop} : (createVmChildMain env vmDir config).wp roleSpec Q .free := by
  refine Prog.wp_seq (wp_outward (outward_createVm env vmDir config) .free) ?_
  rintro r _ rfl
  cases r with
  | error e =>
    refine Prog.wp_seq (wp_outward (outward_eprintln _) .free) ?_
    rintro - _ rfl
    refine ⟨rfl, ?_⟩
    rintro parent _ rfl
    refine ⟨Or.inr rfl, ?_⟩
    rintro r _ rfl
    cases r with
    | none => exact wp_exitWith
    | some e => exact wp_eprintln_exit
  | ok u =>
    refine ⟨trivial, ?_⟩
    rintro r _ rfl
    cases r with
    | none => exact wp_exitWith
    | some e => exact wp_eprintln_exit

theorem wp_createVm {env : Env} {vmDir : OsString} {config : Except String VmConfig}
    {junk : Fin 4 → UInt8} :
    (createVm env vmDir config junk).wp roleSpec (fun _ _ => True) .first := by
  cases config with
  | error e => trivial
  | ok config =>
    refine Prog.wp_seq (wp_doubleFork_role junk) fun n y hn => ?_
    by_cases hneg : n < 0
    · rw [if_pos hneg]
      trivial
    · rw [if_neg hneg]
      obtain rfl : y = .free := hn.resolve_right (by omega)
      by_cases hzero : n = 0
      · rw [if_pos hzero]
        exact wp_createVmChildMain
      · rw [if_neg hzero]
        trivial

theorem outward_createApiSocket (env : Env) (vmDir : OsString) :
    (createApiSocket env vmDir).Only Outward := by
  refine ⟨trivial, fun _ => ⟨trivial, fun r => ?_⟩⟩
  cases r with
  | some e => trivial
  | none =>
    refine ⟨trivial, fun r => ?_⟩
    cases r <;> trivial

theorem wp_main {env : Env} {args : List OsString} {config : Except String VmConfig}
    {junk : Fin 4 → UInt8} : (main env args config junk).wp roleSpec (fun _ _ => True) .first := by
  suffices hrun : (run env args config junk).wp roleSpec (fun _ _ => True) .first from
    Prog.wp_seq hrun fun e y _ => wp_eprintln_exit
  unfold run
  split
  · refine Prog.wp_seq (wp_outward (outward_createApiSocket env _) .first) ?_
    rintro r _ rfl
    cases r with
    | error e => trivial
    | ok u =>
      refine Prog.wp_seq wp_createVm fun r y _ => ?_
      cases r with
      | error e => trivial
      | ok u => exact ⟨trivial, fun _ _ _ => trivial⟩
  · exact wp_eprintln_exit

/-! ## The process tree -/

/-- The parents a process other than the child can have. -/
def Parent (vmm supervisor : Pid) (w : Procs) (p : Pid) : Prop :=
  (vmm, p) ∈ w.forks ∨ p = supervisor ∨ p = w.reaper

/-- What is known of a process by its role. -/
def RoleOk (vmm supervisor : Pid) (w : Procs) (t : Pid) : Role → Prop
  | .first => t = vmm ∧ Parent vmm supervisor w (w.parent t)
  | .child => (vmm, t) ∈ w.forks
  | .free => Parent vmm supervisor w (w.parent t)
  | .aiming p => Parent vmm supervisor w p

structure TreeInv (vmm supervisor reaper : Pid) (w : Procs) (ph : Pid → Option Role) : Prop where
  reaper : w.reaper = reaper
  known : vmm ∈ w.pids
  forks : (vmm, vmm) ∉ w.forks
  roles : ∀ t x, ph t = some x → RoleOk vmm supervisor w t x
  signals : ∀ x ∈ w.signals, x.signo = SIGTERM → Parent vmm supervisor w x.target

section

variable {vmm supervisor reaper : Pid} {w w' : Procs} {ph : Pid → Option Role}

theorem Parent.mono (hforks : w.forks ⊆ w'.forks) (hreaper : w'.reaper = w.reaper) {p : Pid}
    (h : Parent vmm supervisor w p) : Parent vmm supervisor w' p :=
  h.imp (fun h => hforks h) (Or.imp_right fun h => h.trans hreaper.symm)

/-- Parents change only when a process ends, and then to the reaper. -/
theorem RoleOk.mono (hforks : w.forks ⊆ w'.forks) (hreaper : w'.reaper = w.reaper) {t : Pid}
    (hparent : w'.parent t = w.parent t ∨ w'.parent t = w.reaper) {x : Role}
    (h : RoleOk vmm supervisor w t x) : RoleOk vmm supervisor w' t x := by
  have hp : Parent vmm supervisor w (w.parent t) → Parent vmm supervisor w' (w'.parent t) := by
    intro h
    rcases hparent with he | he
    · exact he ▸ h.mono hforks hreaper
    · exact Or.inr (Or.inr (he.trans hreaper.symm))
  cases x with
  | first => exact ⟨h.1, hp h.2⟩
  | child => exact hforks h
  | free => exact hp h
  | aiming p => exact Parent.mono hforks hreaper h

theorem TreeInv.frame (h : TreeInv vmm supervisor reaper w ph) (hreaper : w'.reaper = w.reaper)
    (hpids : w'.pids = w.pids) (hforks : w'.forks = w.forks)
    (hparent : ∀ t, w'.parent t = w.parent t ∨ w'.parent t = w.reaper)
    (hsignals : ∀ x ∈ w'.signals, x ∈ w.signals ∨
      (x.signo = SIGTERM → Parent vmm supervisor w x.target)) :
    TreeInv vmm supervisor reaper w' ph where
  reaper := hreaper.trans h.reaper
  known := hpids ▸ h.known
  forks := hforks ▸ h.forks
  roles := fun t x hx =>
    (h.roles t x hx).mono (fun _ hm => hforks ▸ hm) hreaper (hparent t)
  signals := fun x hx hs => by
    refine Parent.mono (fun _ hm => hforks ▸ hm) hreaper ?_
    rcases hsignals x hx with hold | hnew
    · exact h.signals x hold hs
    · exact hnew hs

theorem TreeInv.setRole (h : TreeInv vmm supervisor reaper w ph) {t : Pid} {x : Role}
    (hx : RoleOk vmm supervisor w t x) :
    TreeInv vmm supervisor reaper w (Function.update ph t (some x)) where
  reaper := h.reaper
  known := h.known
  forks := h.forks
  roles := by
    intro u y hy
    by_cases hu : u = t
    · subst hu
      rw [Function.update_self] at hy
      exact Option.some.inj hy ▸ hx
    · rw [Function.update_of_ne hu] at hy
      exact h.roles u y hy
  signals := h.signals

theorem TreeInv.erase (h : TreeInv vmm supervisor reaper w ph) (t : Pid) :
    TreeInv vmm supervisor reaper w (Function.update ph t none) where
  reaper := h.reaper
  known := h.known
  forks := h.forks
  roles := by
    intro u y hy
    by_cases hu : u = t
    · simp [hu] at hy
    · rw [Function.update_of_ne hu] at hy
      exact h.roles u y hy
  signals := h.signals

theorem Procs.parent_terminate (w : Procs) (t u : Pid) :
    (w.terminate t).parent u = w.parent u ∨ (w.terminate t).parent u = w.reaper := by
  unfold Procs.terminate
  dsimp only
  split
  · exact Or.inr rfl
  · exact Or.inl rfl

theorem TreeInv.terminate (h : TreeInv vmm supervisor reaper w ph) (t : Pid) :
    TreeInv vmm supervisor reaper (w.terminate t) ph :=
  h.frame rfl rfl rfl (w.parent_terminate t) fun _ => Or.inl

theorem TreeInv.refused (h : TreeInv vmm supervisor reaper w ph) (t : Pid) (site : Site)
    (e : Errno) : TreeInv vmm supervisor reaper (w.refused t site e) ph :=
  h.frame rfl rfl rfl (fun _ => Or.inl rfl) fun _ => Or.inl

/-- A signal is aimed at the parent of its sender. -/
theorem TreeInv.signalled (h : TreeInv vmm supervisor reaper w ph) {t p : Pid} {signo : Nat}
    {b : Bool} {x : Role} (hx : ph t = some x) (hpre : signo ≠ SIGTERM ∨ x = .aiming p) :
    TreeInv vmm supervisor reaper (w.signalled ⟨t, p, signo, b⟩) ph := by
  refine h.frame rfl rfl rfl (fun _ => Or.inl rfl) fun y hy => ?_
  rcases List.mem_cons.mp hy with rfl | hy
  · refine Or.inr fun hs => ?_
    obtain rfl := hpre.resolve_left (not_not.mpr hs)
    exact h.roles t _ hx
  · exact Or.inl hy

theorem TreeInv.deliver (h : TreeInv vmm supervisor reaper w ph) {t p : Pid} {signo : Nat}
    {x : Role} (hx : ph t = some x) (hpre : signo ≠ SIGTERM ∨ x = .aiming p) :
    TreeInv vmm supervisor reaper (w.deliver ⟨t, p, signo, true⟩) ph := by
  unfold Procs.deliver
  split
  · exact (h.signalled hx hpre).terminate p
  · exact h.signalled hx hpre

/-- A fork: whatever the two processes are from then on, the others stay what they were. -/
theorem TreeInv.addChild (h : TreeInv vmm supervisor reaper w ph) {t p : Pid} (hp : w.Fresh p)
    {y z : Role} (hy : RoleOk vmm supervisor (w.addChild t p) t y)
    (hz : RoleOk vmm supervisor (w.addChild t p) p z) :
    TreeInv vmm supervisor reaper (w.addChild t p)
      (Function.update (Function.update ph t (some y)) p (some z)) where
  reaper := h.reaper
  known := List.mem_cons_of_mem _ h.known
  forks := by
    intro hm
    rcases List.mem_cons.mp hm with he | hm
    · exact hp.1 ((Prod.mk.inj he).2 ▸ h.known)
    · exact h.forks hm
  roles := by
    intro u x hx
    by_cases hup : u = p
    · subst hup
      rw [Function.update_self] at hx
      exact Option.some.inj hx ▸ hz
    · rw [Function.update_of_ne hup] at hx
      by_cases hut : u = t
      · subst hut
        rw [Function.update_self] at hx
        exact Option.some.inj hx ▸ hy
      · rw [Function.update_of_ne hut] at hx
        exact (h.roles u x hx).mono (w.le_addChild t p).forks rfl
          (Or.inl (Function.update_of_ne hup _ _))
  signals := fun x hx hs => (h.signals x hx hs).mono (w.le_addChild t p).forks rfl

end

theorem tree_modular (vmm supervisor reaper : Pid) :
    Modular kernel roleSpec (fun _ _ => True) (TreeInv vmm supervisor reaper) where
  halt := by
    intro β t c w w' ph x ch _ hinv hx _ he
    cases exec_step he with
    | exit | killed => exact (hinv.terminate t).erase t
    | exec | gone => exact hinv.erase t
  fork := by
    intro β t t' c w w' ph x ch b b' _ hinv hx hpre he
    cases exec_step he with
    | fork hfresh =>
      have hrole := hinv.roles t x hx
      rcases hpre with rfl | rfl
      · -- The caller forks the child.
        obtain ⟨rfl, hparent⟩ := hrole
        have hne : t ≠ t' := fun h => hfresh.1 (h ▸ hinv.known)
        refine ⟨.free, .child, rfl, rfl, hinv.addChild hfresh ?_ List.mem_cons_self⟩
        exact RoleOk.mono (x := .free) (w.le_addChild t t').forks rfl
          (Or.inl (Function.update_of_ne hne _ _)) hparent
      · -- The child forks the grandchild.
        refine ⟨.child, .free, rfl, rfl, hinv.addChild hfresh ((w.le_addChild t t').forks hrole) ?_⟩
        refine Or.inl (List.mem_cons_of_mem _ ?_)
        rw [Procs.parent_addChild]
        exact hrole
  resume := by
    intro β t c w w' ph x ch b _ hinv hx hpre he
    have hstay : ∀ {w' : Procs}, TreeInv vmm supervisor reaper w' ph →
        ∃ y, y = x ∧ TreeInv vmm supervisor reaper w' (Function.update ph t (some y)) :=
      fun h => ⟨x, rfl, by rwa [Function.update_eq_self_iff.mpr hx.symm]⟩
    cases exec_step he with
    | forkError hv =>
      rcases hpre with rfl | rfl
      · exact ⟨.free, rfl, (hinv.refused _ _ _).setRole (hinv.roles t _ hx).2⟩
      · exact hstay (hinv.refused _ _ _)
    | getppid =>
      obtain rfl : x = .free := hpre
      have hparent : Parent vmm supervisor w (w.parent t) := hinv.roles t _ hx
      exact ⟨.aiming _, rfl, hinv.setRole hparent⟩
    | killError hv => exact hstay ((hinv.signalled hx hpre).refused _ _ _)
    | kill => exact hstay (hinv.deliver hx hpre)
    | pipeError | writeError | readError | execError | ioError => exact hstay (hinv.refused _ _ _)
    | waitpid | io | wait => exact hstay hinv
    | pipe | close | write | read =>
      exact hstay (hinv.frame rfl rfl rfl (fun _ => Or.inl rfl) fun _ => Or.inl)

/-! ## The result -/

/-- **No SIGTERM is sent to cloud-hypervisor**, in any run and at any time. What is signalled is
a child of it, or a process that has nothing to do with this VM. -/
theorem sigterm_never_vmm {vmm supervisor reaper : Pid} (hsupervisor : supervisor ≠ vmm)
    (hreaper : reaper ≠ vmm) (env : Env) (args : List OsString) (config : Except String VmConfig)
    (junk : Fin 4 → UInt8) (sched : List (Pid × Choice)) :
    ∀ x ∈ ((solo vmm supervisor reaper (main env args config junk)).run kernel sched).world.signals,
      x.signo = SIGTERM → x.target ≠ vmm := by
  have hstart : (solo vmm supervisor reaper (main env args config junk)).Good roleSpec
      (fun _ _ => True) (TreeInv vmm supervisor reaper) := by
    have hnone : Pool.Phased roleSpec (fun (_ : Unit) _ => True) (fun _ : Pid => none)
        fun _ => none := fun _ => trivial
    have hinv : TreeInv vmm supervisor reaper (Procs.init vmm supervisor reaper) fun _ => none :=
      ⟨rfl, List.mem_singleton_self vmm, nofun, nofun, nofun⟩
    have hfirst : RoleOk vmm supervisor (Procs.init vmm supervisor reaper) vmm .first :=
      ⟨rfl, Or.inr (Or.inl rfl)⟩
    exact ⟨_, hinv.setRole hfirst, hnone.update wp_main⟩
  obtain ⟨ph, hinv, -⟩ := (tree_modular vmm supervisor reaper).run (fun _ _ => trivial) hstart
  rintro x hx hs rfl
  rcases hinv.signals x hx hs with hfork | rfl | he
  · exact hinv.forks hfork
  · exact hsupervisor rfl
  · exact hreaper (hinv.reaper.symm.trans he.symm)

/-- `start-vmm appvm`, run as process 10 by the supervisor 2, with init as the reaper. -/
def startAppvm : Pool Call Pid Procs Unit :=
  solo 10 2 1 (main ⟨"start-vmm", toString, fun _ => "", 4⟩ [os "start-vmm", os "appvm"]
    (.ok
      { console := ⟨"Null", none⟩
        disks := []
        fs := ⟨"", ""⟩
        gpu := []
        memory := ⟨0, true⟩
        net := []
        payload := ⟨"", ""⟩
        serial := ⟨"File", none⟩
        vsock := ⟨3, ""⟩ })
    fun _ => 0)

/-- Up to the point where the grandchild 12 is about to start `ch-remote`. -/
def untilGrandchild : List (Pid × Choice) :=
  [(10, .ok), (10, .ok), (10, .ok), (10, .fds 5 6), (10, .pid 11), (11, .ok), (11, .pid 12),
    (12, .ok)]

/-- `ch-remote` cannot be started, and the grandchild does what it does then. -/
def creationFails : List (Pid × Choice) := [(12, .fail .io 2), (12, .ok), (12, .ok), (12, .ok)]

theorem sigterm_never_vmm_early :
    ∃ x ∈ (startAppvm.run kernel (untilGrandchild ++ creationFails)).world.signals,
      x.signo = SIGTERM ∧ x.target ≠ 10 := by
  have hmem : (⟨12, 11, SIGTERM, true⟩ : Signal) ∈
      (startAppvm.run kernel (untilGrandchild ++ creationFails)).world.signals := by
    decide +kernel
  exact ⟨_, hmem, rfl, sigterm_never_vmm (by decide) (by decide) _ _ _ _ _ _ hmem rfl⟩

/-- The child 11 gets the signal if it is still there, and init if it has exited. -/
theorem sigterm_misses_vmm :
    (startAppvm.run kernel (untilGrandchild ++ creationFails)).world.signals =
      [⟨12, 11, SIGTERM, true⟩] ∧
    (startAppvm.run kernel (untilGrandchild ++ [(11, .count 4), (11, .ok)] ++
      creationFails)).world.signals = [⟨12, 1, SIGTERM, true⟩] := by
  decide +kernel

end Spectrum.Vmm
