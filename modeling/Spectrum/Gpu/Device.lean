import Mathlib.Logic.Function.Basic
import Spectrum.Path

/-!
# Adding a GPU device

`vm.add-gpu` goes through three layers. `Vmm::vm_add_gpu` validates the new configuration on a copy;
`Vm::add_gpu` has the device made and plugged in, writes it to the configuration and tells the
guest; `DeviceManager::make_virtio_gpu_device` connects to the backend, takes an address range,
reserves memory, takes a memory slot for it and puts a node into the device tree. Almost every step
can fail.

Nothing is undone when one does. **So the request is all or nothing up to the moment the range has
been taken, and from then on only if everything goes well**, at each of the layers. A device that is
added to a VM that is not running is another matter: that only changes the configuration.
-/

set_option autoImplicit false

namespace Spectrum.Gpu

/-! ## Configuration -/

structure GpuConfig where
  socket : Path
  id : Option String
  pciSegment : UInt16
  deriving Repr, DecidableEq

structure PlatformConfig where
  numPciSegments : UInt16
  iommuSegments : Option (List UInt16)
  deriving Repr, DecidableEq

/-- The parts of the configuration that the code here looks at. -/
structure VmConfig where
  platform : Option PlatformConfig
  memoryShared : Bool
  gpu : Option (List GpuConfig)
  deriving Repr, DecidableEq

/-- The text of an error of code that is not modelled. -/
abbrev Fault := String

inductive ValidationError
  | invalidPciSegment (segment : UInt16)
  | iommuNotSupportedOnSegment (segment : UInt16)
  | vhostUserRequiresSharedMemory
  | other (e : Fault)
  deriving Repr, DecidableEq

/-- What `VmConfig::validate` does besides looking at the GPU devices. The set of identifiers it has
come across is handed from one check to the next. -/
structure Checks where
  before : VmConfig → Except ValidationError (List String)
  validateIdentifier : List String → Option String → Except ValidationError (List String)
  after : VmConfig → List String → Except ValidationError Unit

def GpuConfig.validate (gpu : GpuConfig) (config : VmConfig) : Except ValidationError Unit := do
  if let some platform := config.platform then
    if platform.numPciSegments ≤ gpu.pciSegment then
      throw (.invalidPciSegment gpu.pciSegment)
    if let some iommuSegments := platform.iommuSegments then
      if gpu.pciSegment ∈ iommuSegments then
        throw (.iommuNotSupportedOnSegment gpu.pciSegment)

def VmConfig.validateGpus (checks : Checks) (config : VmConfig) (ids : List String) :
    Except ValidationError (List String) := do
  match config.gpu with
  | none => return ids
  | some gpus =>
    if gpus ≠ [] ∧ config.memoryShared = false then
      throw .vhostUserRequiresSharedMemory
    gpus.foldlM (fun ids gpu => do
      gpu.validate config
      checks.validateIdentifier ids gpu.id) ids

def VmConfig.validate (checks : Checks) (config : VmConfig) : Except ValidationError Unit := do
  let ids ← checks.before config
  let ids ← config.validateGpus checks ids
  checks.after config ids

def addToConfig {α : Type} (items : Option (List α)) (item : α) : Option (List α) :=
  match items with
  | some items => some (items ++ [item])
  | none => some [item]

/-- The configuration with the device. -/
def VmConfig.addGpu (config : VmConfig) (gpuCfg : GpuConfig) : VmConfig :=
  { config with gpu := addToConfig config.gpu gpuCfg }

/-! ## State -/

/-- A range of addresses that has been taken. -/
structure AddressRange where
  base : UInt64
  size : UInt64
  deriving Repr, DecidableEq

/-- A memory slot, and what it maps. -/
structure MemorySlot where
  slot : UInt32
  guestAddr : UInt64
  length : UInt64
  hostAddr : UInt64
  deriving Repr, DecidableEq

structure DeviceNode where
  id : String
  /-- `Resource::MmioAddressRange`. -/
  resources : List AddressRange
  deriving Repr, DecidableEq

structure DeviceManager where
  /-- The `mem64_allocator` of each segment. -/
  pciSegments : List (List AddressRange)
  /-- The slots of the memory manager. -/
  memorySlots : List MemorySlot
  deviceTree : String → Option DeviceNode

structure VirtioSharedMemory where
  offset : UInt64
  len : UInt64
  deriving Repr, DecidableEq

structure VirtioSharedMemoryList where
  hostAddr : UInt64
  memSlot : UInt32
  addr : UInt64
  len : UInt64
  regionList : List (UInt8 × VirtioSharedMemory)
  deriving Repr, DecidableEq

structure GpuDevice where
  id : String
  socketPath : String
  cache : Option VirtioSharedMemoryList
  deriving Repr, DecidableEq

structure MetaVirtioDevice where
  virtioDevice : GpuDevice
  iommu : Bool
  id : String
  pciSegment : UInt16
  deriving Repr, DecidableEq

structure PciDeviceInfo where
  id : String
  bdf : UInt32
  deriving Repr, DecidableEq

structure Vm where
  config : VmConfig
  deviceManager : DeviceManager

/-- A VM that runs shares its configuration with the VMM. -/
inductive Vmm
  | notCreated
  | created (config : VmConfig)
  | running (vm : Vm)

def Vmm.config? : Vmm → Option VmConfig
  | .notCreated => none
  | .created config => some config
  | .running vm => some vm.config

def Vmm.deviceManager? : Vmm → Option DeviceManager
  | .running vm => some vm.deviceManager
  | _ => none

/-! ## Steps -/

/-- `VhostSharedMemoryRegion`. -/
structure Region where
  id : UInt8
  length : UInt64
  deriving Repr, DecidableEq

/-- How the steps that are not modelled turn out. Each is taken at most once in a request; one that
fails changes nothing. -/
structure Steps where
  /-- `DeviceManager::validate_identifier`. -/
  validateIdentifier : Except Fault Unit
  nextDeviceName : Except Fault String
  /-- `exit_evt.try_clone()`. -/
  exitEvt : Except Fault Unit
  /-- `Gpu::new`. -/
  newGpu : Except Fault Region
  allocate : Option UInt64
  /-- `MmapRegion::build`. -/
  build : Except Fault UInt64
  createUserspaceMapping : Except Fault UInt32
  /-- `hotplug_virtio_pci_device`, which may do anything to the state if it succeeds. -/
  hotplug : Except Fault (PciDeviceInfo × (DeviceManager → DeviceManager))
  notifyHotplug : Except Fault Unit
  /-- `serde_json::to_vec`. -/
  serialize : Except Fault (List UInt8)

inductive DeviceManagerError
  | eventFd (e : Fault)
  | createVirtioGpu (e : Fault)
  | noVirtioGpuSock
  | gpuRangeAllocation
  | newMmapRegion (e : Fault)
  | memoryManager (e : Fault)
  | other (e : Fault)
  deriving Repr, DecidableEq

inductive VmError
  | vmNotCreated
  | configValidation (e : ValidationError)
  | deviceManager (e : DeviceManagerError)
  | serializeJson (e : Fault)
  deriving Repr, DecidableEq

/-- Why code stops: it returns an error, or it panics. -/
inductive Stop (E : Type)
  | error (e : E)
  | panicked
  deriving Repr, DecidableEq

def Stop.mapErr {E F : Type} (f : E → F) : Stop E → Stop F
  | .error e => .error (f e)
  | .panicked => .panicked

/-- Code with a state, which stays what it has become if the code stops. -/
def Act (S E α : Type) : Type := S → Except (Stop E) α × S

namespace Act

variable {S E α β : Type}

instance : Monad (Act S E) where
  pure a s := (.ok a, s)
  bind x f s :=
    match x s with
    | (.ok a, s') => f a s'
    | (.error e, s') => (.error e, s')

def fail (e : E) : Act S E α := fun s => (.error (.error e), s)

def modify (f : S → S) : Act S E Unit := fun s => (.ok (), f s)

/-- `r.map_err(wrap)?`. -/
def ofExcept {F : Type} (wrap : F → E) (r : Except F α) : Act S E α := fun s =>
  match r with
  | .ok a => (.ok a, s)
  | .error e => (.error (.error (wrap e)), s)

variable {x : Act S E α} {f : α → Act S E β} {s s' : S}

theorem bind_ok {a : α} (h : x s = (.ok a, s')) : (x >>= f) s = f a s' := by
  show (match x s with | (.ok a, s') => f a s' | (.error e, s') => (.error e, s')) = _
  rw [h]

theorem bind_error {e : Stop E} (h : x s = (.error e, s')) : (x >>= f) s = (.error e, s') := by
  show (match x s with | (.ok a, s') => f a s' | (.error e, s') => (.error e, s')) = _
  rw [h]

theorem modify_bind {g : S → S} {f : Unit → Act S E β} : (modify g >>= f) s = f () (g s) := rfl

theorem ofExcept_ok {F : Type} (wrap : F → E) {r : Except F α} (h : r.isOk) :
    ∃ a, (ofExcept wrap r : Act S E α) s = (.ok a, s) := by
  cases r with
  | ok a => exact ⟨a, rfl⟩
  | error e => cases h

theorem ofExcept_error {F : Type} (wrap : F → E) {r : Except F α} (h : ¬ r.isOk) :
    ∃ e, (ofExcept wrap r : Act S E α) s = (.error (.error e), s) := by
  cases r with
  | ok a => exact absurd rfl h
  | error e => exact ⟨_, rfl⟩

end Act

/-! ## The code -/

/-- `Path::to_str`. -/
def toStr (p : Path) : Option String := String.fromUTF8? ⟨p.toArray⟩

namespace DeviceManager

/-- `mem64_allocator.allocate(None, size, Some(size))`, on the allocator of a segment. -/
def allocate (o : Steps) (segment : UInt16) (size : UInt64) :
    Act DeviceManager DeviceManagerError UInt64 := fun dm =>
  if segment.toNat < dm.pciSegments.length then
    match o.allocate with
    | some base =>
      (.ok base,
        { dm with
          pciSegments := dm.pciSegments.modify segment.toNat (· ++ [⟨base, size⟩]) })
    | none => (.error (.error .gpuRangeAllocation), dm)
  else (.error .panicked, dm)

def createUserspaceMapping (o : Steps) (guestAddr length hostAddr : UInt64) :
    Act DeviceManager DeviceManagerError UInt32 := do
  let slot ← Act.ofExcept .memoryManager o.createUserspaceMapping
  Act.modify fun dm =>
    { dm with memorySlots := dm.memorySlots ++ [⟨slot, guestAddr, length, hostAddr⟩] }
  return slot

/-- The identifier of the device; `gpu_cfg` is given one if it has none. -/
def gpuId (o : Steps) (gpuCfg : GpuConfig) :
    Act DeviceManager DeviceManagerError (String × GpuConfig) :=
  match gpuCfg.id with
  | some id => return (id, gpuCfg)
  | none => do
    let id ← Act.ofExcept .other o.nextDeviceName
    return (id, { gpuCfg with id := some id })

/-- `gpu_cfg` is changed in place, so it is returned. -/
def makeVirtioGpuDevice (o : Steps) (gpuCfg : GpuConfig) :
    Act DeviceManager DeviceManagerError (MetaVirtioDevice × GpuConfig) := do
  let (id, gpuCfg) ← gpuId o gpuCfg
  match toStr gpuCfg.socket with
  | none => Act.fail .noVirtioGpuSock
  | some gpuSocket =>
    Act.ofExcept .eventFd o.exitEvt
    let region ← Act.ofExcept .createVirtioGpu o.newGpu
    let virtioGpuDevice : GpuDevice := ⟨id, gpuSocket, none⟩
    let cacheBase ← allocate o gpuCfg.pciSegment region.length
    let node : DeviceNode := ⟨id, [⟨cacheBase, region.length⟩]⟩
    let hostAddr ← Act.ofExcept .newMmapRegion o.build
    let memSlot ← createUserspaceMapping o cacheBase region.length hostAddr
    let cache : VirtioSharedMemoryList :=
      ⟨hostAddr, memSlot, cacheBase, region.length, [(region.id, ⟨0, region.length⟩)]⟩
    Act.modify fun dm =>
      { dm with deviceTree := Function.update dm.deviceTree id (some node) }
    return (⟨{ virtioGpuDevice with cache := some cache }, false, id, gpuCfg.pciSegment⟩, gpuCfg)

def hotplugVirtioPciDevice (o : Steps) (_ : MetaVirtioDevice) :
    Act DeviceManager DeviceManagerError PciDeviceInfo := do
  let (info, plug) ← Act.ofExcept .other o.hotplug
  Act.modify plug
  return info

def addGpu (o : Steps) (gpuCfg : GpuConfig) :
    Act DeviceManager DeviceManagerError (PciDeviceInfo × GpuConfig) := do
  Act.ofExcept .other o.validateIdentifier
  let (device, gpuCfg) ← makeVirtioGpuDevice o gpuCfg
  let info ← hotplugVirtioPciDevice o device
  return (info, gpuCfg)

end DeviceManager

namespace Vm

/-- `self.device_manager.lock().unwrap()`, and `map_err(Error::DeviceManager)`. -/
def onDeviceManager {α : Type} (x : Act DeviceManager DeviceManagerError α) : Act Vm VmError α :=
  fun vm =>
    match x vm.deviceManager with
    | (.ok a, dm) => (.ok a, { vm with deviceManager := dm })
    | (.error e, dm) => (.error (e.mapErr .deviceManager), { vm with deviceManager := dm })

def addGpu (o : Steps) (gpuCfg : GpuConfig) : Act Vm VmError PciDeviceInfo := do
  let (info, gpuCfg) ← onDeviceManager (DeviceManager.addGpu o gpuCfg)
  Act.modify fun vm => { vm with config := vm.config.addGpu gpuCfg }
  onDeviceManager (Act.ofExcept .other o.notifyHotplug)
  return info

end Vm

/-- The response is the serialised `PciDeviceInfo`, if the VM runs. -/
def Vmm.vmAddGpu (checks : Checks) (o : Steps) (gpuCfg : GpuConfig) :
    Act Vmm VmError (Option (List UInt8)) := fun vmm =>
  match vmm.config? with
  | none => (.error (.error .vmNotCreated), vmm)
  | some config =>
    match (config.addGpu gpuCfg).validate checks with
    | .error e => (.error (.error (.configValidation e)), vmm)
    | .ok () =>
      match vmm with
      | .running vm =>
        match (Vm.addGpu o gpuCfg >>= fun _ => Act.ofExcept .serializeJson o.serialize) vm with
        | (.ok json, vm') => (.ok (some json), .running vm')
        | (.error e, vm') => (.error e, .running vm')
      | _ => (.ok none, .created (config.addGpu gpuCfg))

/-! ## All or nothing -/

/-- The allocators, the slots, the device tree and the list of GPU devices are what they were. -/
def Vmm.Unchanged (vmm vmm' : Vmm) : Prop :=
  vmm'.deviceManager? = vmm.deviceManager? ∧
    vmm'.config?.map VmConfig.gpu = vmm.config?.map VmConfig.gpu

/-- Adding a device is all or nothing, at each layer. -/
structure AllOrNothing (checks : Checks) (o : Steps) (gpuCfg : GpuConfig) (vmm : Vmm) : Prop where
  make : ∀ dm e dm', vmm.deviceManager? = some dm →
    DeviceManager.makeVirtioGpuDevice o gpuCfg dm = (.error (.error e), dm') → dm' = dm
  add : ∀ vm e vm', vmm = .running vm →
    Vm.addGpu o gpuCfg vm = (.error (.error e), vm') →
    Vmm.Unchanged vmm (.running vm')
  vmAdd : ∀ e vmm', Vmm.vmAddGpu checks o gpuCfg vmm = (.error (.error e), vmm') →
    vmm.Unchanged vmm'
  cold : ∀ config response vmm', vmm = .created config →
    Vmm.vmAddGpu checks o gpuCfg vmm = (.ok response, vmm') →
    ∃ config', vmm' = .created config' ∧
      config'.gpu = some (config.gpu.getD [] ++ [gpuCfg]) ∧ config'.validate checks = .ok ()

/-- The request gets as far as taking an address range. -/
structure Steps.Reserves (o : Steps) (gpuCfg : GpuConfig) (dm : DeviceManager) : Prop where
  id : gpuCfg.id.isSome ∨ o.nextDeviceName.isOk
  socket : (toStr gpuCfg.socket).isSome
  exitEvt : o.exitEvt.isOk
  newGpu : o.newGpu.isOk
  segment : gpuCfg.pciSegment.toNat < dm.pciSegments.length
  allocate : o.allocate.isSome

namespace DeviceManager

variable {o : Steps} {gpuCfg : GpuConfig} {dm : DeviceManager}

theorem gpuId_ok (dm : DeviceManager) (h : gpuCfg.id.isSome ∨ o.nextDeviceName.isOk) :
    ∃ id, gpuId o gpuCfg dm = (.ok (id, { gpuCfg with id := some id }), dm) := by
  obtain ⟨socket, id, segment⟩ := gpuCfg
  cases id with
  | some id => exact ⟨id, rfl⟩
  | none =>
    obtain ⟨id, hname⟩ := Act.ofExcept_ok (S := DeviceManager) (s := dm)
      DeviceManagerError.other
      (h.resolve_left Bool.false_ne_true)
    exact ⟨id, Act.bind_ok hname⟩

theorem gpuId_error (dm : DeviceManager) (h : ¬ (gpuCfg.id.isSome ∨ o.nextDeviceName.isOk)) :
    ∃ e, gpuId o gpuCfg dm = (.error e, dm) := by
  obtain ⟨socket, id, segment⟩ := gpuCfg
  cases id with
  | some id => exact absurd (Or.inl rfl) h
  | none =>
    obtain ⟨e, hname⟩ := Act.ofExcept_error (S := DeviceManager) (s := dm) DeviceManagerError.other
      fun hok => h (Or.inr hok)
    exact ⟨_, Act.bind_error hname⟩

/-- The range stays taken. -/
theorem allocate_ok {segment : UInt16} (size : UInt64)
    (hsegment : segment.toNat < dm.pciSegments.length) (h : o.allocate.isSome) :
    ∃ base dm', allocate o segment size dm = (.ok base, dm') ∧
      dm'.pciSegments ≠ dm.pciSegments := by
  obtain ⟨base, hbase⟩ := Option.isSome_iff_exists.mp h
  refine ⟨base, _, by rw [allocate, if_pos hsegment, hbase], ?_⟩
  intro heq
  have hat := congrArg (·[segment.toNat]?) heq
  simp only [List.getElem?_modify_eq, List.getElem?_eq_getElem hsegment] at hat
  simp at hat

theorem allocate_error {segment : UInt16} (size : UInt64)
    (h : ¬ (segment.toNat < dm.pciSegments.length ∧ o.allocate.isSome)) :
    ∃ e, allocate o segment size dm = (.error e, dm) := by
  unfold allocate
  split
  · rename_i hsegment
    split
    · rename_i base hbase
      exact absurd ⟨hsegment, by rw [hbase]; rfl⟩ h
    · exact ⟨_, rfl⟩
  · exact ⟨_, rfl⟩

theorem createUserspaceMapping_ok (dm : DeviceManager) {guestAddr length hostAddr : UInt64}
    (h : o.createUserspaceMapping.isOk) :
    ∃ slot dm', createUserspaceMapping o guestAddr length hostAddr dm = (.ok slot, dm') ∧
      dm'.pciSegments = dm.pciSegments := by
  obtain ⟨slot, hslot⟩ := Act.ofExcept_ok (S := DeviceManager) (s := dm)
    DeviceManagerError.memoryManager h
  exact ⟨slot, _, Act.bind_ok hslot, rfl⟩

theorem createUserspaceMapping_error (dm : DeviceManager) {guestAddr length hostAddr : UInt64}
    (h : ¬ o.createUserspaceMapping.isOk) :
    ∃ e, createUserspaceMapping o guestAddr length hostAddr dm = (.error (.error e), dm) := by
  obtain ⟨e, hslot⟩ := Act.ofExcept_error (S := DeviceManager) (s := dm)
    DeviceManagerError.memoryManager h
  exact ⟨_, Act.bind_error hslot⟩

/-- Up to the range, a failure changes nothing. -/
theorem make_of_not_reserves (h : ¬ o.Reserves gpuCfg dm) :
    ∃ e, makeVirtioGpuDevice o gpuCfg dm = (.error e, dm) := by
  by_cases hid : gpuCfg.id.isSome ∨ o.nextDeviceName.isOk
  case neg =>
    obtain ⟨e, he⟩ := gpuId_error dm hid
    exact ⟨e, Act.bind_error he⟩
  obtain ⟨id, hid'⟩ := gpuId_ok dm hid
  rw [makeVirtioGpuDevice, Act.bind_ok hid']
  dsimp only
  cases hsocket : toStr gpuCfg.socket with
  | none => exact ⟨_, rfl⟩
  | some gpuSocket =>
    dsimp only
    by_cases hexit : o.exitEvt.isOk
    case neg =>
      obtain ⟨e, he⟩ := Act.ofExcept_error (s := dm) DeviceManagerError.eventFd hexit
      exact ⟨_, Act.bind_error he⟩
    obtain ⟨u, hu⟩ := Act.ofExcept_ok (s := dm) DeviceManagerError.eventFd hexit
    rw [Act.bind_ok hu]
    by_cases hnew : o.newGpu.isOk
    case neg =>
      obtain ⟨e, he⟩ := Act.ofExcept_error (s := dm) DeviceManagerError.createVirtioGpu hnew
      exact ⟨_, Act.bind_error he⟩
    obtain ⟨region, hregion⟩ := Act.ofExcept_ok (s := dm) DeviceManagerError.createVirtioGpu hnew
    rw [Act.bind_ok hregion]
    have hnone : ¬ (gpuCfg.pciSegment.toNat < dm.pciSegments.length ∧ o.allocate.isSome) :=
      fun hall => h ⟨hid, by rw [hsocket]; rfl, hexit, hnew, hall.1, hall.2⟩
    obtain ⟨e, he⟩ := allocate_error region.length hnone
    exact ⟨e, Act.bind_error he⟩

/-- From then on the range stays taken whatever happens, and two more steps have to succeed. -/
theorem make_of_reserves (h : o.Reserves gpuCfg dm) :
    ∃ dm', dm'.pciSegments ≠ dm.pciSegments ∧
      ((∃ device gpuCfg', (o.build.isOk ∧ o.createUserspaceMapping.isOk) ∧
          makeVirtioGpuDevice o gpuCfg dm = (.ok (device, gpuCfg'), dm')) ∨
        (∃ e, ¬ (o.build.isOk ∧ o.createUserspaceMapping.isOk) ∧
          makeVirtioGpuDevice o gpuCfg dm = (.error (.error e), dm'))) := by
  obtain ⟨id, hid⟩ := gpuId_ok dm h.id
  obtain ⟨gpuSocket, hsocket⟩ := Option.isSome_iff_exists.mp h.socket
  obtain ⟨u, hu⟩ := Act.ofExcept_ok (s := dm) DeviceManagerError.eventFd h.exitEvt
  obtain ⟨region, hregion⟩ := Act.ofExcept_ok (s := dm) DeviceManagerError.createVirtioGpu h.newGpu
  obtain ⟨base, dm₁, halloc, hne⟩ := allocate_ok region.length h.segment h.allocate
  rw [makeVirtioGpuDevice, Act.bind_ok hid]
  dsimp only
  rw [hsocket]
  dsimp only
  rw [Act.bind_ok hu, Act.bind_ok hregion, Act.bind_ok halloc]
  by_cases hbuild : o.build.isOk
  case neg =>
    obtain ⟨e, he⟩ := Act.ofExcept_error (s := dm₁) DeviceManagerError.newMmapRegion hbuild
    exact ⟨dm₁, hne, Or.inr ⟨_, fun hall => hbuild hall.1, Act.bind_error he⟩⟩
  obtain ⟨hostAddr, hhost⟩ := Act.ofExcept_ok (s := dm₁) DeviceManagerError.newMmapRegion hbuild
  rw [Act.bind_ok hhost]
  by_cases hmap : o.createUserspaceMapping.isOk
  case neg =>
    obtain ⟨e, he⟩ := createUserspaceMapping_error dm₁ hmap
    exact ⟨dm₁, hne, Or.inr ⟨_, fun hall => hmap hall.2, Act.bind_error he⟩⟩
  obtain ⟨slot, dm₂, hslot, hsame⟩ := createUserspaceMapping_ok dm₁ hmap
  rw [Act.bind_ok hslot]
  exact ⟨_, hsame ▸ hne, Or.inl ⟨_, _, ⟨hbuild, hmap⟩, rfl⟩⟩

theorem addGpu_unchanged (h : ¬ (o.validateIdentifier.isOk ∧ o.Reserves gpuCfg dm)) :
    ∃ e, addGpu o gpuCfg dm = (.error e, dm) := by
  by_cases hid : o.validateIdentifier.isOk
  case neg =>
    obtain ⟨e, he⟩ := Act.ofExcept_error (s := dm) DeviceManagerError.other hid
    exact ⟨_, Act.bind_error he⟩
  obtain ⟨u, hu⟩ := Act.ofExcept_ok (s := dm) DeviceManagerError.other hid
  obtain ⟨e, he⟩ := make_of_not_reserves fun hres => h ⟨hid, hres⟩
  rw [addGpu, Act.bind_ok hu]
  exact ⟨e, Act.bind_error he⟩

theorem addGpu_of_reserves (hid : o.validateIdentifier.isOk) (h : o.Reserves gpuCfg dm) :
    (∃ r dm', (o.build.isOk ∧ o.createUserspaceMapping.isOk ∧ o.hotplug.isOk) ∧
        addGpu o gpuCfg dm = (.ok r, dm')) ∨
      (∃ e dm', ¬ (o.build.isOk ∧ o.createUserspaceMapping.isOk ∧ o.hotplug.isOk) ∧
        addGpu o gpuCfg dm = (.error (.error e), dm') ∧ dm' ≠ dm) := by
  obtain ⟨u, hu⟩ := Act.ofExcept_ok (s := dm) DeviceManagerError.other hid
  rw [addGpu, Act.bind_ok hu]
  obtain ⟨dm₁, hne, ⟨device, gpuCfg', hok, hmake⟩ | ⟨e, hfail, hmake⟩⟩ := make_of_reserves h
  · rw [Act.bind_ok hmake]
    dsimp only
    by_cases hplug : o.hotplug.isOk
    case neg =>
      obtain ⟨e, he⟩ := Act.ofExcept_error (s := dm₁) DeviceManagerError.other hplug
      refine Or.inr ⟨_, dm₁, fun hall => hplug hall.2.2, Act.bind_error (Act.bind_error he), ?_⟩
      intro heq
      exact hne (congrArg pciSegments heq)
    obtain ⟨r, hr⟩ := Act.ofExcept_ok (s := dm₁) DeviceManagerError.other hplug
    exact Or.inl ⟨_, _, ⟨hok.1, hok.2, hplug⟩, Act.bind_ok (Act.bind_ok hr)⟩
  · refine Or.inr ⟨e, dm₁, fun hall => hfail ⟨hall.1, hall.2.1⟩, Act.bind_error hmake, ?_⟩
    intro heq
    exact hne (congrArg pciSegments heq)

end DeviceManager

theorem VmConfig.addGpu_gpu (config : VmConfig) (gpuCfg : GpuConfig) :
    (config.addGpu gpuCfg).gpu = some (config.gpu.getD [] ++ [gpuCfg]) := by
  cases hgpu : config.gpu <;> simp [addGpu, addToConfig, hgpu]

theorem VmConfig.addGpu_ne (config : VmConfig) (gpuCfg : GpuConfig) :
    (config.addGpu gpuCfg).gpu ≠ config.gpu := by
  rw [addGpu_gpu]
  cases config.gpu <;> simp

namespace Vm

variable {o : Steps} {gpuCfg : GpuConfig} {vm : Vm}

/-- The steps after the range. -/
structure Completes (o : Steps) : Prop where
  build : o.build.isOk
  createUserspaceMapping : o.createUserspaceMapping.isOk
  hotplug : o.hotplug.isOk
  notifyHotplug : o.notifyHotplug.isOk

theorem onDeviceManager_ok (vm : Vm) {α : Type} {x : Act DeviceManager DeviceManagerError α} {a : α}
    {dm : DeviceManager} (h : x vm.deviceManager = (.ok a, dm)) :
    onDeviceManager x vm = (.ok a, { vm with deviceManager := dm }) := by
  rw [onDeviceManager, h]

theorem onDeviceManager_error (vm : Vm) {α : Type} {x : Act DeviceManager DeviceManagerError α}
    {e : Stop DeviceManagerError} {dm : DeviceManager}
    (h : x vm.deviceManager = (.error e, dm)) :
    onDeviceManager x vm = (.error (e.mapErr .deviceManager), { vm with deviceManager := dm }) := by
  rw [onDeviceManager, h]

theorem addGpu_unchanged (h : ¬ (o.validateIdentifier.isOk ∧ o.Reserves gpuCfg vm.deviceManager)) :
    ∃ e, addGpu o gpuCfg vm = (.error e, vm) := by
  obtain ⟨e, he⟩ := DeviceManager.addGpu_unchanged h
  exact ⟨_, Act.bind_error (onDeviceManager_error vm he)⟩

theorem addGpu_of_reserves (hid : o.validateIdentifier.isOk)
    (h : o.Reserves gpuCfg vm.deviceManager) :
    (∃ info vm', Completes o ∧ addGpu o gpuCfg vm = (.ok info, vm') ∧
        vm'.config.gpu ≠ vm.config.gpu) ∨
      (∃ e vm', ¬ Completes o ∧ addGpu o gpuCfg vm = (.error (.error e), vm') ∧
        ¬ Vmm.Unchanged (.running vm) (.running vm')) := by
  obtain ⟨⟨info, gpuCfg'⟩, dm', hok, hadd⟩ | ⟨e, dm', hfail, hadd, hne⟩ :=
    DeviceManager.addGpu_of_reserves hid h
  · have hconfig : (vm.config.addGpu gpuCfg').gpu ≠ vm.config.gpu := VmConfig.addGpu_ne _ _
    rw [addGpu, Act.bind_ok (onDeviceManager_ok vm hadd)]
    dsimp only
    rw [Act.modify_bind]
    by_cases hnotify : o.notifyHotplug.isOk
    case neg =>
      obtain ⟨e, he⟩ := Act.ofExcept_error (s := dm') DeviceManagerError.other hnotify
      have hstop := onDeviceManager_error ⟨vm.config.addGpu gpuCfg', dm'⟩ he
      refine Or.inr ⟨.deviceManager e, _, fun hall => hnotify hall.notifyHotplug,
        Act.bind_error hstop, ?_⟩
      intro hsame
      exact hconfig (Option.some.inj hsame.2)
    obtain ⟨u, hu⟩ := Act.ofExcept_ok (s := dm') DeviceManagerError.other hnotify
    exact Or.inl ⟨info, _, ⟨hok.1, hok.2.1, hok.2.2, hnotify⟩,
      Act.bind_ok (onDeviceManager_ok ⟨_, dm'⟩ hu), hconfig⟩
  · refine Or.inr ⟨.deviceManager e, _, ?_, Act.bind_error (onDeviceManager_error vm hadd), ?_⟩
    · intro hall
      exact hfail ⟨hall.build, hall.createUserspaceMapping, hall.hotplug⟩
    · intro hsame
      exact hne (Option.some.inj hsame.1)

end Vm

namespace Vmm

variable {checks : Checks} {o : Steps} {gpuCfg : GpuConfig} {vm : Vm}

theorem unchanged_refl (vmm : Vmm) : vmm.Unchanged vmm := ⟨rfl, rfl⟩

theorem vmAddGpu_invalid (vmm : Vmm) {config : VmConfig} (hconfig : vmm.config? = some config)
    (h : (config.addGpu gpuCfg).validate checks ≠ .ok ()) :
    ∃ e, vmAddGpu checks o gpuCfg vmm = (.error e, vmm) := by
  rw [vmAddGpu, hconfig]
  dsimp only
  split
  · exact ⟨_, rfl⟩
  · contradiction

theorem vmAddGpu_created {config : VmConfig} (h : (config.addGpu gpuCfg).validate checks = .ok ()) :
    vmAddGpu checks o gpuCfg (.created config) = (.ok none, .created (config.addGpu gpuCfg)) := by
  rw [vmAddGpu, config?]
  dsimp only
  rw [h]

theorem vmAddGpu_running (h : (vm.config.addGpu gpuCfg).validate checks = .ok ()) :
    vmAddGpu checks o gpuCfg (.running vm) =
      match (Vm.addGpu o gpuCfg >>= fun _ => Act.ofExcept .serializeJson o.serialize) vm with
      | (.ok json, vm') => (.ok (some json), .running vm')
      | (.error e, vm') => (.error e, .running vm') := by
  rw [vmAddGpu, config?]
  dsimp only
  rw [h]

/-- The condition for a request to a running VM: once the range has been taken, every step that is
left succeeds. -/
def Sound (checks : Checks) (o : Steps) (gpuCfg : GpuConfig) (vm : Vm) : Prop :=
  o.Reserves gpuCfg vm.deviceManager →
    (o.build.isOk ∧ o.createUserspaceMapping.isOk) ∧
      (o.validateIdentifier.isOk →
        (o.hotplug.isOk ∧ o.notifyHotplug.isOk) ∧
          ((vm.config.addGpu gpuCfg).validate checks = .ok () → o.serialize.isOk))

theorem Sound.make (h : Sound checks o gpuCfg vm) {e : DeviceManagerError} {dm' : DeviceManager}
    (hmake : DeviceManager.makeVirtioGpuDevice o gpuCfg vm.deviceManager =
      (.error (.error e), dm')) :
    dm' = vm.deviceManager := by
  by_cases hres : o.Reserves gpuCfg vm.deviceManager
  · obtain ⟨_, -, ⟨_, _, -, hmake'⟩ | ⟨_, hfail, -⟩⟩ := DeviceManager.make_of_reserves hres
    · cases hmake.symm.trans hmake'
    · exact absurd (h hres).1 hfail
  · obtain ⟨_, hmake'⟩ := DeviceManager.make_of_not_reserves hres
    cases hmake.symm.trans hmake'
    rfl

theorem Sound.add (h : Sound checks o gpuCfg vm) {e : VmError} {vm' : Vm}
    (hadd : Vm.addGpu o gpuCfg vm = (.error (.error e), vm')) : vm' = vm := by
  by_cases hres : o.validateIdentifier.isOk ∧ o.Reserves gpuCfg vm.deviceManager
  · obtain ⟨hid, hres⟩ := hres
    obtain ⟨_, _, -, hadd', -⟩ | ⟨_, _, hfail, -⟩ := Vm.addGpu_of_reserves hid hres
    · cases hadd.symm.trans hadd'
    · obtain ⟨hmade, hrest⟩ := h hres
      have hplugged := (hrest hid).1
      exact absurd ⟨hmade.1, hmade.2, hplugged.1, hplugged.2⟩ hfail
  · obtain ⟨_, hadd'⟩ := Vm.addGpu_unchanged hres
    cases hadd.symm.trans hadd'
    rfl

theorem Sound.vmAdd (h : Sound checks o gpuCfg vm) {e : VmError} {vmm' : Vmm}
    (hadd : vmAddGpu checks o gpuCfg (.running vm) = (.error (.error e), vmm')) :
    vmm' = .running vm := by
  by_cases hvalid : (vm.config.addGpu gpuCfg).validate checks = .ok ()
  case neg =>
    obtain ⟨_, hadd'⟩ := vmAddGpu_invalid (o := o) (.running vm) rfl hvalid
    cases hadd.symm.trans hadd'
    rfl
  rw [vmAddGpu_running hvalid] at hadd
  cases hvm : Vm.addGpu o gpuCfg vm with
  | mk r vm' =>
    cases r with
    | error stop =>
      rw [Act.bind_error hvm] at hadd
      cases hadd
      rw [h.add hvm]
    | ok info =>
      rw [Act.bind_ok hvm] at hadd
      by_cases hres : o.validateIdentifier.isOk ∧ o.Reserves gpuCfg vm.deviceManager
      · have hserialize := ((h hres.2).2 hres.1).2 hvalid
        obtain ⟨_, hok⟩ := Act.ofExcept_ok (s := vm') VmError.serializeJson hserialize
        rw [hok] at hadd
        cases hadd
      · obtain ⟨_, hvm'⟩ := Vm.addGpu_unchanged hres
        cases hvm.symm.trans hvm'

end Vmm

/-- **Adding a device is all or nothing exactly when, once the range has been taken, every step that
is left succeeds**; a VM that does not run has nothing to lose. -/
theorem allOrNothing_iff (checks : Checks) (o : Steps) (gpuCfg : GpuConfig) (vmm : Vmm) :
    AllOrNothing checks o gpuCfg vmm ↔
      ∀ vm, vmm = .running vm → Vmm.Sound checks o gpuCfg vm := by
  constructor
  · intro h vm hvm hres
    subst hvm
    have hmade : o.build.isOk ∧ o.createUserspaceMapping.isOk := by
      obtain ⟨dm', hne, ⟨_, _, hok, -⟩ | ⟨e, -, hmake⟩⟩ := DeviceManager.make_of_reserves hres
      · exact hok
      · exact absurd (congrArg _ (h.make _ e dm' rfl hmake)) hne
    refine ⟨hmade, ?_⟩
    intro hid
    obtain ⟨info, vm', hall, hadd, hconfig⟩ | ⟨e, vm', -, hadd, hchanged⟩ :=
      Vm.addGpu_of_reserves hid hres
    · refine ⟨⟨hall.hotplug, hall.notifyHotplug⟩, ?_⟩
      intro hvalid
      by_contra hserialize
      obtain ⟨e, he⟩ := Act.ofExcept_error (s := vm') VmError.serializeJson hserialize
      have hrun := Vmm.vmAddGpu_running (o := o) hvalid
      rw [Act.bind_ok hadd, he] at hrun
      exact hconfig (Option.some.inj (h.vmAdd e _ hrun).2)
    · exact absurd (h.add vm e vm' rfl hadd) hchanged
  · intro h
    refine ⟨?_, ?_, ?_, ?_⟩
    · intro dm e dm' hdm hmake
      cases vmm with
      | running vm =>
        cases hdm
        exact (h vm rfl).make hmake
      | notCreated => cases hdm
      | created config => cases hdm
    · intro vm e vm' hvm hadd
      rw [hvm, (h vm hvm).add hadd]
      exact Vmm.unchanged_refl _
    · intro e vmm' hadd
      cases vmm with
      | notCreated =>
        cases hadd
        exact Vmm.unchanged_refl _
      | created config =>
        by_cases hvalid : (config.addGpu gpuCfg).validate checks = .ok ()
        · rw [Vmm.vmAddGpu_created hvalid] at hadd
          cases hadd
        · obtain ⟨e', hadd'⟩ := Vmm.vmAddGpu_invalid (o := o) (.created config) rfl hvalid
          cases hadd.symm.trans hadd'
          exact Vmm.unchanged_refl _
      | running vm =>
        rw [(h vm rfl).vmAdd hadd]
        exact Vmm.unchanged_refl _
    · intro config response vmm' hvmm hadd
      subst hvmm
      by_cases hvalid : (config.addGpu gpuCfg).validate checks = .ok ()
      · rw [Vmm.vmAddGpu_created hvalid] at hadd
        cases hadd
        exact ⟨_, rfl, config.addGpu_gpu gpuCfg, hvalid⟩
      · obtain ⟨e', hadd'⟩ := Vmm.vmAddGpu_invalid (o := o) (.created config) rfl hvalid
        cases hadd.symm.trans hadd'

/-- Everything succeeds but `MmapRegion::build`. -/
def noMemory : Steps where
  validateIdentifier := .ok ()
  nextDeviceName := .ok "_gpu0"
  exitEvt := .ok ()
  newGpu := .ok ⟨0, 0x200000000⟩
  allocate := some 0x4000000000
  build := .error "Cannot allocate memory"
  createUserspaceMapping := .ok 5
  hotplug := .ok (⟨"_gpu0", 0x30⟩, id)
  notifyHotplug := .ok ()
  serialize := .ok []

/-- A VM with one segment of which nothing has been taken, and without GPU devices. -/
def plainVm : Vm := ⟨⟨none, true, none⟩, ⟨[[]], [], fun _ => none⟩⟩

/-- The range of the device that could not be made stays taken. -/
theorem noMemory_keeps_range :
    ¬ AllOrNothing ⟨fun _ => .ok [], fun ids _ => .ok ids, fun _ _ => .ok ()⟩ noMemory
      ⟨[47, 116, 109, 112, 47, 115, 111, 99, 107], none, 0⟩ (.running plainVm) := by
  intro h
  have hres : noMemory.Reserves ⟨[47, 116, 109, 112, 47, 115, 111, 99, 107], none, 0⟩
      plainVm.deviceManager :=
    ⟨by decide, by decide, by decide, by decide, by decide, by decide⟩
  obtain ⟨dm', hne, ⟨_, _, hok, -⟩ | ⟨e, -, hmake⟩⟩ := DeviceManager.make_of_reserves hres
  · exact absurd hok.1 (by decide)
  · exact hne (congrArg _ (h.make _ e dm' rfl hmake))

end Spectrum.Gpu
