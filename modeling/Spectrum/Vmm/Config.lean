import Spectrum.Interact.Play
import Spectrum.Interact.Utf8
import Spectrum.Net.Setup
import Spectrum.Vmm.Create

/-!
# `vm_config`

The configuration of a VM is put together from its directory: the images in `config/blk` become
disks, and the first entry of `config/providers/net` names the VM that provides the network, which
is set up on the way. What the directories hold and what `net_setup` does is answered by a script,
so that a run is the calls made and the result.

**Disk discovery is exact**: the disks are the images of the listing in its order, and the first
item that stands in the way is the one reported, before anything is done about the network. When the
code panics instead is in `Vmm/Panic.lean`.
-/

set_option autoImplicit false

namespace Spectrum.Vmm

open Interact Bytes

/-! ## The calls -/

/-- The name of a directory entry. -/
structure FileName where
  bytes : OsString
  ne_nil : bytes ≠ []
  slash_not_mem : Path.slash ∉ bytes
  nul_not_mem : 0 ∉ bytes

/-- What `readdir` returns, call by call. -/
abbrev Listing := List (Except Errno FileName)

structure NetConfigC where
  fd : Int
  id : Vector UInt8 16
  mac : MacAddress

inductive ConfigCall : Type → Type
  | readDir (dir : Path) : ConfigCall (Except Errno Listing)
  /-- The second component of the answer is `errno`. -/
  | netSetup (providerVmDir : Path) : ConfigCall (NetConfigC × Errno)

/-- The `unwrap`s, by what they are applied to. -/
inductive Unwrap
  | fileName
  | entry
  | parent
  | net
  | kernelPath
  | vsock
  deriving Repr, DecidableEq

/-- How `vm_config` ends without a configuration. -/
inductive Stop
  | err (e : String)
  | panic (site : Unwrap)
  deriving Repr, DecidableEq

def unwrap {α : Type} (site : Unwrap) : Option α → Except Stop α
  | some a => .ok a
  | none => .error (.panic site)

/-- What comes from the standard library and from the build. -/
structure ConfigEnv where
  /-- An `io::Error` as text. -/
  strerror : Errno → String
  /-- `{:?}` of a path or an `OsString`. -/
  debugOs : OsString → String
  /-- `{:?}` of a string. -/
  debugStr : String → String
  /-- `cfg(target_arch = "x86_64")`. -/
  x86 : Bool

/-! ## The code -/

def configDir (vmDir : Path) : Path := Path.join vmDir (os "config")

def blkDir (vmDir : Path) : Path := Path.join (configDir vmDir) (os "blk")

def kernelPath (vmDir : Path) : Path := Path.join (configDir vmDir) (os "vmlinux")

def netProvidersDir (vmDir : Path) : Path := Path.join (configDir vmDir) (os "providers/net")

section

variable (env : ConfigEnv)

/-! ### Disks -/

/-- The first `map`. -/
def entryPath (dir : Path) : Except Errno FileName → Except String Path
  | .error e => .error s!"examining directory entry: {env.strerror e}"
  | .ok entry => .ok (Path.join dir entry.bytes)

/-- The `filter`, which lets errors pass. -/
def keep : Except String Path → Bool
  | .error _ => true
  | .ok entry => Path.extension entry = some (os "img")

/-- The second `map`. -/
def diskConfig : Except String Path → Except Stop DiskConfig
  | .error e => .error (.err e)
  | .ok entry => do
    let entry ← unwrap .entry (Utf8.decode? entry)
    if ',' ∈ entry.toList then
      .error (.err s!"illegal ',' character in path {env.debugStr entry}")
    else
      .ok { path := entry, readonly := true }

/-- `collect` stops at the first error. -/
def diskConfigs (dir : Path) (entries : Listing) : Except Stop (List DiskConfig) :=
  ((entries.map (entryPath env dir)).filter keep).mapM (diskConfig env)

/-! ### Network -/

/-- `TryFrom<NetConfigC> for NetConfig`. -/
def NetConfig.tryFrom (c : NetConfigC) : Option NetConfig :=
  let nulIndex := c.id.toList.findIdx (· = 0)
  (Utf8.decode? (c.id.toList.take nulIndex)).map fun id => { fd := c.fd, id, mac := c.mac }

def netConfig (vmDir : Path) (item : Except Errno FileName) :
    Prog ConfigCall (Except Stop NetConfig) :=
  match item with
  | .error e => return .error (.err s!"examining directory entry: {env.strerror e}")
  | .ok entry =>
    match Utf8.decode? entry.bytes with
    | none => return .error (.err s!"provider name {env.debugOs entry.bytes} is not UTF-8")
    | some providerName =>
      match Path.parent vmDir with
      | none => return .error (.panic .parent)
      | some dir => do
        let (net, errno) ← Prog.lift (.netSetup (Path.join dir (Utf8.encode providerName)))
        if net.fd = -1 then
          return .error (.err s!"setting up networking failed: {env.strerror errno}")
        else
          return unwrap .net (NetConfig.tryFrom net)

def netConfigs (vmDir : Path) : Listing → Prog ConfigCall (Except Stop (List NetConfig))
  | [] => return .ok []
  | item :: items => do
    match ← netConfig env vmDir item with
    | .error stop => return .error stop
    | .ok net =>
      match ← netConfigs vmDir items with
      | .error stop => return .error stop
      | .ok nets => return .ok (net :: nets)

def netProviders (vmDir : Path) : Prog ConfigCall (Except Stop (List NetConfig)) := do
  match ← Prog.lift (.readDir (netProvidersDir vmDir)) with
  | .ok entries => netConfigs env vmDir (entries.take 1)
  | .error e =>
    if e = ENOENT then
      return .ok []
    else
      return .error (.err
        s!"reading directory {env.debugOs (netProvidersDir vmDir)}: {env.strerror e}")

/-! ### The configuration -/

/-- What is left to do when everything has been read. -/
def finishConfig (vmDir : Path) (vmName : String) (disks : List DiskConfig)
    (net : List NetConfig) : Except Stop VmConfig := do
  let kernel ← unwrap .kernelPath (Utf8.decode? (kernelPath vmDir))
  let socket ← unwrap .vsock (Utf8.decode? (Path.join vmDir (os "vsock")))
  return {
    console := { mode := "Pty", file := none }
    disks
    fs := {
      tag := "virtiofs0"
      socket := s!"/run/service/vhost-user-fs/instance/{vmName}/env/virtiofsd.sock" }
    gpu := [{ socket := s!"/run/service/vhost-user-gpu/instance/{vmName}/env/crosvm.sock" }]
    memory := { size := 2 ^ 30, shared := true }
    net
    payload := {
      kernel
      cmdline := if env.x86 then "console=ttyS0 root=PARTLABEL=root" else "root=PARTLABEL=root" }
    serial := { mode := "File", file := some s!"/run/{vmName}.log" }
    vsock := { cid := 3, socket } }

/-- What follows once the disks are known. -/
def afterDisks (vmDir : Path) (vmName : String) (disks : List DiskConfig) :
    Prog ConfigCall (Except Stop VmConfig) := do
  match ← netProviders env vmDir with
  | .error stop => return .error stop
  | .ok net => return finishConfig env vmDir vmName disks net

def vmConfig (vmDir : Path) : Prog ConfigCall (Except Stop VmConfig) :=
  match Path.fileName vmDir with
  | none => return .error (.panic .fileName)
  | some fileName =>
    match Utf8.decode? fileName with
    | none => return .error (.err s!"VM dir {env.debugOs vmDir} is not valid UTF-8")
    | some vmName =>
      if ':' ∈ vmName.toList then
        return .error (.err s!"VM name may not contain a colon: {env.debugStr vmName}")
      else do
        match ← Prog.lift (.readDir (blkDir vmDir)) with
        | .error e =>
          return .error (.err s!"reading directory {env.debugOs (blkDir vmDir)}: {env.strerror e}")
        | .ok entries =>
          match diskConfigs env (blkDir vmDir) entries with
          | .error stop => return .error stop
          | .ok disks => afterDisks env vmDir vmName disks

end

/-! ## Names and text -/

theorem valid_join {a b : Path} (ha : Utf8.Valid a) :
    Utf8.Valid (Path.join a b) ↔ Utf8.Valid b := by
  unfold Path.join
  split
  · rfl
  · split
    · rw [Utf8.valid_append_iff ha, Utf8.valid_cons_iff (by decide)]
    · exact Utf8.valid_append_iff ha

/-- A string of the source, which is ASCII. -/
theorem valid_os {s : String} (h : s.toList.all fun c => c.toNat < 128) : Utf8.Valid (os s) := by
  apply Utf8.valid_of_ascii
  intro b hb
  obtain ⟨c, hc, rfl⟩ := List.mem_map.mp hb
  have hlt : c.toNat < 128 := by simpa using List.all_eq_true.mp h c hc
  rwa [toNat_ofNat (by omega)]

theorem valid_configDir {vmDir : Path} (h : Utf8.Valid vmDir) : Utf8.Valid (configDir vmDir) :=
  (valid_join h).mpr (valid_os rfl)

theorem valid_blkDir {vmDir : Path} (h : Utf8.Valid vmDir) : Utf8.Valid (blkDir vmDir) :=
  (valid_join (valid_configDir h)).mpr (valid_os rfl)

/-- The file name of an image: `.img` behind a stem that is not empty. -/
def IsImage (name : OsString) : Prop := ∃ stem, stem ≠ [] ∧ name = stem ++ os ".img"

theorem isImage_iff (name : OsString) : IsImage name ↔ os ".img" <:+ name ∧ name ≠ os ".img" := by
  constructor
  · intro ⟨stem, hne, heq⟩
    refine ⟨⟨stem, heq.symm⟩, fun h => hne ?_⟩
    rw [h] at heq
    exact List.self_eq_append_left.mp heq
  · intro ⟨⟨stem, heq⟩, hne⟩
    refine ⟨stem, fun h => hne ?_, heq.symm⟩
    rw [← heq, h, List.nil_append]

instance (name : OsString) : Decidable (IsImage name) := decidable_of_iff _ (isImage_iff name).symm

theorem fileName_blkDir (vmDir : Path) : Path.fileName (blkDir vmDir) = some (os "blk") :=
  Path.fileName_join (by decide) (by decide) (by decide) (by decide)

/-- **The entries with the extension `img` are those that are named like an image.** -/
theorem extension_blkDir (vmDir : Path) (entry : FileName) :
    Path.extension (Path.join (blkDir vmDir) entry.bytes) = some (os "img") ↔
      IsImage entry.bytes := by
  have hrel := Path.not_isAbsolute_of_slash_not_mem entry.slash_not_mem
  have hnames := @Path.names_join (blkDir vmDir) _ hrel
  by_cases hdot : entry.bytes = ascii ['.']
  · -- `.` is skipped, and the directory itself has no extension.
    have hfile : Path.fileName (Path.join (blkDir vmDir) entry.bytes) = some (os "blk") := by
      rw [Path.fileName_eq, hnames, hdot, ← fileName_blkDir vmDir, Path.fileName_eq]
      simp [show Path.names (ascii ['.']) = [] by decide]
    rw [Path.extension_of_dot_not_mem hfile (by decide), hdot]
    decide
  · by_cases hdots : entry.bytes = ascii ['.', '.']
    · have hfile : Path.fileName (Path.join (blkDir vmDir) entry.bytes) = none := by
        rw [Path.fileName_eq, hnames, hdots]
        simp [show Path.names (ascii ['.', '.']) = [ascii ['.', '.']] by decide]
      rw [Path.extension, hfile, hdots]
      decide
    · have hfile := @Path.fileName_join (blkDir vmDir) _ entry.ne_nil entry.slash_not_mem hdot hdots
      exact Path.extension_eq_some hfile (by decide)

/-! ## Disks -/

def comma : UInt8 := 44

def colon : UInt8 := 58

/-- An item of the listing that there is an error for. -/
def Offending (dir : Path) : Except Errno FileName → Prop
  | .error _ => True
  | .ok entry =>
    Path.extension (Path.join dir entry.bytes) = some (os "img") ∧
      comma ∈ Path.join dir entry.bytes

instance (dir : Path) (item : Except Errno FileName) : Decidable (Offending dir item) :=
  match item with
  | .error _ => inferInstanceAs (Decidable True)
  | .ok _ => inferInstanceAs (Decidable (_ ∧ _))

/-- An image whose name is not text. -/
def Garbled : Except Errno FileName → Prop
  | .error _ => False
  | .ok entry => IsImage entry.bytes ∧ ¬ Utf8.Valid entry.bytes

instance (item : Except Errno FileName) : Decidable (Garbled item) :=
  match item with
  | .error _ => inferInstanceAs (Decidable False)
  | .ok _ => inferInstanceAs (Decidable (_ ∧ _))

/-- An item at which the search for disks ends. -/
def Stops (dir : Path) (item : Except Errno FileName) : Prop := Offending dir item ∨ Garbled item

/-- The error for an offending item. -/
def complaint (env : ConfigEnv) (dir : Path) : Except Errno FileName → Option String
  | .error e => some s!"examining directory entry: {env.strerror e}"
  | .ok entry =>
    (Utf8.decode? (Path.join dir entry.bytes)).map fun path =>
      s!"illegal ',' character in path {env.debugStr path}"

/-- The names of the images in a listing. -/
def images (entries : Listing) : List OsString :=
  entries.filterMap fun item =>
    match item with
    | .error _ => none
    | .ok entry => if IsImage entry.bytes then some entry.bytes else none

/-! ### One item -/

/-- What becomes of an item in the chain, and nothing if it is filtered out. -/
def diskItem (env : ConfigEnv) (dir : Path) (item : Except Errno FileName) :
    Option (Except Stop DiskConfig) :=
  if keep (entryPath env dir item) then some (diskConfig env (entryPath env dir item)) else none

theorem diskConfigs_cons (env : ConfigEnv) (dir : Path) (item : Except Errno FileName)
    (items : Listing) :
    diskConfigs env dir (item :: items) =
      match diskItem env dir item with
      | none => diskConfigs env dir items
      | some (.error stop) => .error stop
      | some (.ok disk) => (diskConfigs env dir items).map (disk :: ·) := by
  unfold diskItem diskConfigs
  by_cases hkeep : keep (entryPath env dir item) = true
  · rw [List.map_cons, List.filter_cons_of_pos hkeep, List.mapM_cons, if_pos hkeep]
    cases diskConfig env (entryPath env dir item) with
    | error stop => rfl
    | ok disk =>
      cases ((items.map (entryPath env dir)).filter keep).mapM (diskConfig env) <;> rfl
  · rw [List.map_cons, List.filter_cons_of_neg hkeep, if_neg hkeep]

theorem diskConfig_of_text {env : ConfigEnv} {entry : Path} {path : String}
    (h : Utf8.decode? entry = some path) :
    diskConfig env (.ok entry) =
      if ',' ∈ path.toList then
        .error (.err s!"illegal ',' character in path {env.debugStr path}")
      else
        .ok { path, readonly := true } := by
  rw [diskConfig, h]
  rfl

/-- How the chain deals with an item. -/
inductive Handled (env : ConfigEnv) (dir : Path) (item : Except Errno FileName) :
    Option (Except Stop DiskConfig) → Prop
  | skipped (hstops : ¬ Stops dir item) (himages : images [item] = []) : Handled env dir item none
  | disk {name : OsString} {disk : DiskConfig} (hstops : ¬ Stops dir item)
      (himages : images [item] = [name]) (hreadonly : disk.readonly = true)
      (hpath : Utf8.encode disk.path = Path.join dir name) : Handled env dir item (some (.ok disk))
  | offending {e : String} (hstops : Offending dir item) (hgarbled : ¬ Garbled item)
      (he : complaint env dir item = some e) : Handled env dir item (some (.error (.err e)))
  | garbled (hgarbled : Garbled item) : Handled env dir item (some (.error (.panic .entry)))

theorem handled_diskItem (env : ConfigEnv) {vmDir : Path} (hdir : Utf8.Valid vmDir)
    (item : Except Errno FileName) :
    Handled env (blkDir vmDir) item (diskItem env (blkDir vmDir) item) := by
  cases item with
  | error e => exact .offending trivial id rfl
  | ok entry =>
    have hext := extension_blkDir vmDir entry
    unfold diskItem
    by_cases himg : IsImage entry.bytes
    · rw [if_pos (by simp [keep, entryPath, hext, himg]), entryPath]
      by_cases hvalid : Utf8.Valid entry.bytes
      · obtain ⟨path, hdecode, hencode⟩ := ((valid_join (valid_blkDir hdir)).mpr hvalid).decode?
        have hgarbled : ¬ Garbled (.ok entry) := fun h => h.2 hvalid
        have hcomma : comma ∈ Path.join (blkDir vmDir) entry.bytes ↔ ',' ∈ path.toList := by
          rw [← hencode]
          exact @Utf8.mem_encode path ',' (by decide)
        rw [diskConfig_of_text hdecode]
        split
        · rename_i hmem
          exact .offending ⟨hext.mpr himg, hcomma.mpr hmem⟩ hgarbled (by simp [complaint, hdecode])
        · rename_i hmem
          refine .disk ?_ (by simp [images, himg]) rfl hencode
          intro hstops
          rcases hstops with h | h
          · exact hmem (hcomma.mp h.2)
          · exact hgarbled h
      · have hnone : Utf8.decode? (Path.join (blkDir vmDir) entry.bytes) = none := by
          rw [Utf8.decode?_eq_none, valid_join (valid_blkDir hdir)]
          exact hvalid
        rw [diskConfig, hnone]
        exact .garbled ⟨himg, hvalid⟩
    · rw [if_neg (by simp [keep, entryPath, hext, himg])]
      refine .skipped ?_ (by simp [images, himg])
      intro hstops
      rcases hstops with h | h
      · exact himg (hext.mp h.1)
      · exact himg h.1

/-! ### The listing -/

theorem images_cons (item : Except Errno FileName) (items : Listing) :
    images (item :: items) = images [item] ++ images items :=
  List.filterMap_append (l := [item])

/-- **The search ends with the images of the listing, or at its first item that stops it.** -/
theorem diskConfigs_cases (env : ConfigEnv) {vmDir : Path} (hdir : Utf8.Valid vmDir)
    (entries : Listing) :
    (∃ disks, diskConfigs env (blkDir vmDir) entries = .ok disks ∧
      (∀ item ∈ entries, ¬ Stops (blkDir vmDir) item) ∧ (∀ disk ∈ disks, disk.readonly = true) ∧
      disks.map (fun disk => Utf8.encode disk.path) =
        (images entries).map (Path.join (blkDir vmDir))) ∨
    ∃ before item after stop, entries = before ++ item :: after ∧
      (∀ item ∈ before, ¬ Stops (blkDir vmDir) item) ∧
      diskConfigs env (blkDir vmDir) entries = .error stop ∧
      Handled env (blkDir vmDir) item (some (.error stop)) := by
  induction entries with
  | nil => exact Or.inl ⟨[], rfl, by simp, by simp, rfl⟩
  | cons item items ih =>
    have hitem := handled_diskItem env hdir item
    rw [diskConfigs_cons, images_cons]
    generalize diskItem env (blkDir vmDir) item = outcome at hitem
    -- An item behind which the search goes on is put in front of what follows.
    have hfront : ∀ before, ¬ Stops (blkDir vmDir) item →
        (∀ i ∈ before, ¬ Stops (blkDir vmDir) i) → ∀ i ∈ item :: before, ¬ Stops (blkDir vmDir) i :=
      fun before hstops hbefore => List.forall_mem_cons.mpr ⟨hstops, hbefore⟩
    cases hitem with
    | skipped hstops himages =>
      rcases ih with ⟨disks, hok, hnone, hro, hpaths⟩ | ⟨before, i, after, stop, rfl, hb, herr, hi⟩
      · exact Or.inl ⟨disks, hok, hfront _ hstops hnone, hro, by simpa [himages] using hpaths⟩
      · exact Or.inr ⟨item :: before, i, after, stop, rfl, hfront _ hstops hb, herr, hi⟩
    | @disk name disk hstops himages hreadonly hpath =>
      rcases ih with ⟨disks, hok, hnone, hro, hpaths⟩ | ⟨before, i, after, stop, rfl, hb, herr, hi⟩
      · refine Or.inl ⟨disk :: disks, by simp only [hok]; rfl, hfront _ hstops hnone, ?_, ?_⟩
        · exact List.forall_mem_cons.mpr ⟨hreadonly, hro⟩
        · rw [himages, List.map_cons, hpath, hpaths]
          rfl
      · refine Or.inr ⟨item :: before, i, after, stop, rfl, hfront _ hstops hb, ?_, hi⟩
        simp only [herr]
        rfl
    | offending hstops hgarbled he =>
      exact Or.inr ⟨[], item, items, _, rfl, by simp, rfl, .offending hstops hgarbled he⟩
    | garbled hgarbled =>
      exact Or.inr ⟨[], item, items, _, rfl, by simp, rfl, .garbled hgarbled⟩

/-! ## Runs -/

def ConfigCall.isNetSetup {β : Type} : ConfigCall β → Bool
  | .netSetup _ => true
  | .readDir _ => false

def isNetSetup (event : Event ConfigCall) : Bool := event.call.isNetSetup

/-- `vm_config` has gone on to the next directory. -/
def PastDisks (vmDir : Path) (events : List (Event ConfigCall)) : Prop :=
  ∃ answer, events[1]? = some ⟨.readDir (netProvidersDir vmDir), answer⟩

section

variable {env : ConfigEnv} {vmDir : Path} {script : Script ConfigCall}

theorem countP_netConfig (item : Except Errno FileName) (n : Nat) :
    ((netConfig env vmDir item).play script n).1.countP isNetSetup ≤ 1 := by
  unfold netConfig
  split
  · exact Nat.zero_le _
  · split
    · exact Nat.zero_le _
    · split
      · exact Nat.zero_le _
      · refine Prog.countP_play_bind isNetSetup (j := 1) (k := 0) ?_ ?_ n
        · intro n
          rw [Prog.play_lift_events]
          exact Nat.le_refl 1
        · intro r n
          dsimp only
          split <;> exact Nat.le_refl 0

theorem countP_netConfigs (items : Listing) (n : Nat) :
    ((netConfigs env vmDir items).play script n).1.countP isNetSetup ≤ items.length := by
  induction items generalizing n with
  | nil => exact Nat.le_refl 0
  | cons item items ih =>
    rw [List.length_cons, Nat.add_comm]
    refine Prog.countP_play_bind isNetSetup (countP_netConfig item) ?_ n
    intro r n
    cases r with
    | error stop => exact Nat.zero_le _
    | ok net =>
      refine Prog.countP_play_bind isNetSetup (k := 0) ih ?_ n
      intro r n
      cases r <;> exact Nat.le_refl 0

theorem countP_readDir {α : Type} {dir : Path} {k : Except Errno Listing → Prog ConfigCall α}
    {j : Nat} (hk : ∀ r n, ((k r).play script n).1.countP isNetSetup ≤ j) (n : Nat) :
    (((Prog.lift (ConfigCall.readDir dir)).bind k).play script n).1.countP isNetSetup ≤ j := by
  refine (Prog.countP_play_bind isNetSetup (j := 0) ?_ hk n).trans_eq (Nat.zero_add j)
  intro n
  rw [Prog.play_lift_events]
  exact Nat.le_refl 0

theorem countP_afterDisks (vmName : String) (disks : List DiskConfig) (n : Nat) :
    ((afterDisks env vmDir vmName disks).play script n).1.countP isNetSetup ≤ 1 := by
  refine Prog.countP_play_bind isNetSetup (j := 1) (k := 0) ?_ ?_ n
  · refine countP_readDir ?_
    intro r n
    cases r with
    | error e =>
      dsimp only
      split <;> exact Nat.zero_le _
    | ok entries => exact (countP_netConfigs _ n).trans (List.length_take_le ..)
  · intro r n
    cases r <;> exact Nat.le_refl 0

/-- **`net_setup` is called once, if at all.** -/
theorem countP_vmConfig (n : Nat) :
    ((vmConfig env vmDir).play script n).1.countP isNetSetup ≤ 1 := by
  unfold vmConfig
  split
  · exact Nat.zero_le _
  · split
    · exact Nat.zero_le _
    · split
      · exact Nat.zero_le _
      · refine countP_readDir ?_ n
        intro r n
        cases r with
        | error e => exact Nat.zero_le _
        | ok entries =>
          dsimp only
          split
          · exact Nat.zero_le _
          · exact countP_afterDisks _ _ n

section

variable {name : OsString} {vmName : String} {entries : Listing}
  (hname : Path.fileName vmDir = some name) (htext : Utf8.decode? name = some vmName)
  (hcolon : ':' ∉ vmName.toList)
  (hscript : script 0 (ConfigCall.readDir (blkDir vmDir)) = some (.ok entries))

include hname htext hcolon hscript

theorem play_vmConfig {rest : Prog ConfigCall (Except Stop VmConfig)}
    (hrest : rest = match diskConfigs env (blkDir vmDir) entries with
      | .error stop => .ret (.error stop)
      | .ok disks => afterDisks env vmDir vmName disks) :
    (vmConfig env vmDir).play script 0 =
      (⟨.readDir (blkDir vmDir), some (.ok entries)⟩ :: (rest.play script 1).1,
        (rest.play script 1).2) := by
  rw [hrest, vmConfig, hname]
  dsimp only
  rw [htext]
  dsimp only
  rw [if_neg hcolon]
  exact Prog.play_call hscript

theorem play_vmConfig_ok {disks : List DiskConfig}
    (hok : diskConfigs env (blkDir vmDir) entries = .ok disks) :
    (vmConfig env vmDir).play script 0 =
      (⟨.readDir (blkDir vmDir), some (.ok entries)⟩ ::
          ((afterDisks env vmDir vmName disks).play script 1).1,
        ((afterDisks env vmDir vmName disks).play script 1).2) :=
  play_vmConfig hname htext hcolon hscript (by rw [hok])

theorem play_vmConfig_error {stop : Stop}
    (herr : diskConfigs env (blkDir vmDir) entries = .error stop) :
    (vmConfig env vmDir).play script 0 =
      ([⟨.readDir (blkDir vmDir), some (.ok entries)⟩], some (.error stop)) := by
  have hrest : Prog.ret (.error stop) = match diskConfigs env (blkDir vmDir) entries with
      | .error stop => .ret (.error stop)
      | .ok disks => afterDisks env vmDir vmName disks := by rw [herr]
  exact play_vmConfig hname htext hcolon hscript hrest

end

theorem finishConfig_ok (hdir : Utf8.Valid vmDir) (vmName : String) (disks : List DiskConfig)
    (net : List NetConfig) :
    ∃ config, finishConfig env vmDir vmName disks net = .ok config ∧ config.disks = disks := by
  have hkernel : Utf8.Valid (kernelPath vmDir) :=
    (valid_join (valid_configDir hdir)).mpr (valid_os rfl)
  have hvsock : Utf8.Valid (Path.join vmDir (os "vsock")) := (valid_join hdir).mpr (valid_os rfl)
  obtain ⟨kernel, hkernel, -⟩ := hkernel.decode?
  obtain ⟨socket, hsocket, -⟩ := hvsock.decode?
  rw [finishConfig, hkernel, hsocket]
  exact ⟨_, rfl, rfl⟩

/-- The next thing that happens is a look at the network providers. -/
theorem pastDisks_afterDisks (vmName : String) (disks : List DiskConfig)
    (first : Event ConfigCall) :
    PastDisks vmDir (first :: ((afterDisks env vmDir vmName disks).play script 1).1) := by
  obtain ⟨k, hk⟩ : ∃ k, afterDisks env vmDir vmName disks =
      .call (ConfigCall.readDir (netProvidersDir vmDir)) k := ⟨_, rfl⟩
  refine ⟨script 1 (ConfigCall.readDir (netProvidersDir vmDir)), ?_⟩
  rw [List.getElem?_cons_succ, ← List.head?_eq_getElem?, hk, Prog.play_call_head]

theorem disks_of_afterDisks (hdir : Utf8.Valid vmDir) {vmName : String} {disks : List DiskConfig}
    {n : Nat} {config : VmConfig}
    (h : ((afterDisks env vmDir vmName disks).play script n).2 = some (.ok config)) :
    config.disks = disks := by
  rw [afterDisks, Prog.bind_eq, Prog.play_bind] at h
  cases hnet : (netProviders env vmDir).play script n with
  | mk events r =>
    rw [hnet] at h
    cases r with
    | none => cases h
    | some r =>
      cases r with
      | error stop => cases h
      | ok net =>
        obtain ⟨config', hfinish, hdisks⟩ := @finishConfig_ok env vmDir hdir vmName disks net
        have h : some (finishConfig env vmDir vmName disks net) = some (.ok config) := h
        rw [hfinish] at h
        cases h
        exact hdisks

end

/-! ## Disk discovery -/

/-- How the search for disks turns out in a VM directory of this name, with this listing. -/
structure Discovers (env : ConfigEnv) (vmDir : Path) (script : Script ConfigCall)
    (name : OsString) (entries : Listing) : Prop where
  /-- It is passed exactly if there is nothing in the way. -/
  past : PastDisks vmDir ((vmConfig env vmDir).play script 0).1 ↔
    ∀ item ∈ entries, ¬ Offending (blkDir vmDir) item
  /-- There is one disk for each image then, and the rest is done with these disks. -/
  disks : (∀ item ∈ entries, ¬ Offending (blkDir vmDir) item) →
    ∃ vmName disks, Utf8.encode vmName = name ∧ (∀ disk ∈ disks, disk.readonly = true) ∧
      disks.map (fun disk => Utf8.encode disk.path) =
        (images entries).map (Path.join (blkDir vmDir)) ∧
      ((vmConfig env vmDir).play script 0).2 =
        ((afterDisks env vmDir vmName disks).play script 1).2 ∧
      ∀ config, ((vmConfig env vmDir).play script 0).2 = some (.ok config) → config.disks = disks
  /-- Otherwise the first item in the way is reported, and nothing else is done. -/
  first : (∃ item ∈ entries, Offending (blkDir vmDir) item) →
    ∃ before item after e, entries = before ++ item :: after ∧
      (∀ item ∈ before, ¬ Offending (blkDir vmDir) item) ∧ Offending (blkDir vmDir) item ∧
      complaint env (blkDir vmDir) item = some e ∧
      (vmConfig env vmDir).play script 0 =
        ([⟨.readDir (blkDir vmDir), some (.ok entries)⟩], some (.error (.err e)))

section

variable {env : ConfigEnv} {vmDir : Path} {script : Script ConfigCall} {name : OsString}
  {entries : Listing}

theorem discovers_of_past {vmName : String} {disks : List DiskConfig} (hdir : Utf8.Valid vmDir)
    (hname : Utf8.encode vmName = name)
    (hgood : ∀ item ∈ entries, ¬ Offending (blkDir vmDir) item)
    (hro : ∀ disk ∈ disks, disk.readonly = true)
    (hpaths : disks.map (fun disk => Utf8.encode disk.path) =
      (images entries).map (Path.join (blkDir vmDir)))
    (hrun : (vmConfig env vmDir).play script 0 =
      (⟨.readDir (blkDir vmDir), some (.ok entries)⟩ ::
          ((afterDisks env vmDir vmName disks).play script 1).1,
        ((afterDisks env vmDir vmName disks).play script 1).2)) :
    Discovers env vmDir script name entries where
  past := by
    rw [hrun]
    exact ⟨fun _ => hgood, fun _ => pastDisks_afterDisks vmName disks _⟩
  disks := by
    intro _
    refine ⟨vmName, disks, hname, hro, hpaths, by rw [hrun], ?_⟩
    intro config hconfig
    rw [hrun] at hconfig
    exact disks_of_afterDisks hdir hconfig
  first := by
    intro h
    obtain ⟨item, hitem, hoff⟩ := h
    exact absurd hoff (hgood item hitem)

theorem discovers_of_offending {before after : Listing} {item : Except Errno FileName} {e : String}
    (hsplit : entries = before ++ item :: after)
    (hbefore : ∀ item ∈ before, ¬ Offending (blkDir vmDir) item)
    (hitem : Offending (blkDir vmDir) item) (he : complaint env (blkDir vmDir) item = some e)
    (hrun : (vmConfig env vmDir).play script 0 =
      ([⟨.readDir (blkDir vmDir), some (.ok entries)⟩], some (.error (.err e)))) :
    Discovers env vmDir script name entries := by
  have hmem : item ∈ entries := by simp [hsplit]
  refine ⟨⟨fun h => ?_, fun h => absurd hitem (h item hmem)⟩,
    fun h => absurd hitem (h item hmem), ?_⟩
  · rw [hrun] at h
    obtain ⟨answer, h⟩ := h
    cases h
  · intro _
    exact ⟨before, item, after, e, hsplit, hbefore, hitem, he, hrun⟩

end

/-- **The disks are the images of the listing, or the first item in the way is reported.** A VM
directory is `/run/vm` with the name of the VM behind it; any other directory will do that is
text. -/
theorem vmConfig_discovers_disks (env : ConfigEnv) (vmDir : Path) (script : Script ConfigCall) :
    ((vmConfig env vmDir).play script 0).1.countP isNetSetup ≤ 1 ∧
    ∀ name entries, Utf8.Valid vmDir → Path.fileName vmDir = some name → Utf8.Valid name →
      colon ∉ name → script 0 (ConfigCall.readDir (blkDir vmDir)) = some (.ok entries) →
      (∀ entry, .ok entry ∈ entries → Utf8.Valid entry.bytes) →
      Discovers env vmDir script name entries := by
  refine ⟨countP_vmConfig 0, ?_⟩
  intro name entries hdir hname htext hcolon hscript hentries
  obtain ⟨vmName, hdecode, hencode⟩ := htext.decode?
  have hcolon : ':' ∉ vmName.toList := by
    rw [← @Utf8.mem_encode vmName ':' (by decide), hencode]
    exact hcolon
  rcases diskConfigs_cases env hdir entries with
    ⟨disks, hok, hnone, hro, hpaths⟩ | ⟨before, item, after, stop, hsplit, hbefore, herr, hitem⟩
  · have hgood : ∀ item ∈ entries, ¬ Offending (blkDir vmDir) item :=
      fun item hitem h => hnone item hitem (Or.inl h)
    exact discovers_of_past hdir hencode hgood hro hpaths
      (play_vmConfig_ok hname hdecode hcolon hscript hok)
  · have hrun := play_vmConfig_error hname hdecode hcolon hscript herr
    cases hitem with
    | offending hstops hgarbled he =>
      exact discovers_of_offending hsplit (fun i hi h => hbefore i hi (Or.inl h)) hstops he hrun
    | garbled hgarbled =>
      -- All names are text.
      cases item with
      | error e => exact absurd hgarbled id
      | ok entry => exact absurd (hentries entry (by simp [hsplit])) hgarbled.2

/-- `x,y` is not an image, `a.img` is one. -/
theorem vmConfig_discovers_one_disk :
    let env : ConfigEnv := ⟨fun _ => "", fun _ => "", fun _ => "", true⟩
    let vmDir := os "/run/vm/a"
    let entries : Listing :=
      [.ok ⟨os "x,y", by decide, by decide, by decide⟩,
        .ok ⟨os "a.img", by decide, by decide, by decide⟩]
    let script : Script ConfigCall := fun _ _ c =>
      match c with
      | .readDir _ => some (.ok entries)
      | .netSetup _ => none
    let run := (vmConfig env vmDir).play script 0
    PastDisks vmDir run.1 ∧
    ∃ disks, (∀ disk ∈ disks, disk.readonly = true) ∧
      disks.map (fun disk => Utf8.encode disk.path) = [os "/run/vm/a/config/blk/a.img"] ∧
      ∀ config, run.2 = some (.ok config) → config.disks = disks := by
  intro env vmDir entries script run
  have hentries : ∀ entry, .ok entry ∈ entries → Utf8.Valid entry.bytes := by
    intro entry h
    simp only [entries, List.mem_cons, Except.ok.injEq, List.not_mem_nil, or_false] at h
    rcases h with rfl | rfl <;> exact valid_os rfl
  have hgood : ∀ item ∈ entries, ¬ Offending (blkDir vmDir) item := by decide
  have hdiscovers := (vmConfig_discovers_disks env vmDir script).2 (os "a") entries
    (valid_os rfl) (by decide) (valid_os rfl) (by decide) rfl hentries
  obtain ⟨vmName, disks, -, hro, hpaths, -, hconfig⟩ := hdiscovers.disks hgood
  exact ⟨hdiscovers.past.mpr hgood, disks, hro, hpaths.trans (by decide), hconfig⟩

end Spectrum.Vmm
