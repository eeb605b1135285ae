import Spectrum.Errno
import Spectrum.Interact.Pages

/-!
# Shared memory requests of the GPU backend

The GPU backend is a process of its own. It asks the VMM to map files into a region of the VMM's
address space, which the VMM has reserved and the guest can see: `BackendReqHandler` in
`virtio-devices/src/vhost_user/gpu.rs`, for messages that `vhost_user/message.rs` has checked.

**Whatever the backend asks for, the requests stay inside the region.** The check is on bytes, and
`mmap` works on pages, so the length that is checked and the length that is replaced are not the
same; that they agree about the region is `Pages.covers_sub`, and it depends on `mmap` refusing an
address that is not at a page boundary.
-/

set_option autoImplicit false

namespace Spectrum.Gpu

open Pages

/-! ## `mmap` -/

def PROT_NONE : Nat := 0
def PROT_WRITE : Nat := 2
def MAP_SHARED : Nat := 0x01
def MAP_PRIVATE : Nat := 0x02
def MAP_FIXED : Nat := 0x10
def MAP_ANONYMOUS : Nat := 0x20

/-- What is at a page: which page of which file, if it is not anonymous memory. -/
structure Mapping where
  prot : Nat
  flags : Nat
  file : Option (Int × Nat)
  deriving Repr, DecidableEq

structure MmapArgs where
  addr : UInt64
  length : UInt64
  prot : Nat
  flags : Nat
  fd : Int
  offset : UInt64
  deriving Repr, DecidableEq

/-- What the kernel does: it fails for a reason of its own, or goes on, and then `place` is where it
puts a mapping whose address is up to it. -/
inductive MmapOutcome
  | fail (e : Errno)
  | place (page : Nat)
  deriving Repr, DecidableEq

/-- `mmap` needs a page-aligned address and file offset and a length, rounds the length up to whole
pages, and replaces what was there. -/
def mmap (pageSize : Nat) (space : Space Mapping) (args : MmapArgs) (outcome : MmapOutcome) :
    Except Errno (Space Mapping) :=
  match outcome with
  | .fail e => .error e
  | .place page =>
    let fixed := args.flags &&& MAP_FIXED ≠ 0
    if (fixed ∧ ¬ pageSize ∣ args.addr.toNat) ∨ ¬ pageSize ∣ args.offset.toNat ∨
        args.length = 0 then
      .error EINVAL
    else
      let addr := if fixed then args.addr.toNat else page * pageSize
      .ok (space.replace pageSize addr args.length.toNat fun i =>
        ⟨args.prot, args.flags,
          if args.flags &&& MAP_ANONYMOUS ≠ 0 then none
          else some (args.fd, args.offset.toNat / pageSize + i)⟩)

/-! ## Messages -/

def checkedAdd (a b : UInt64) : Option UInt64 :=
  if a.toNat + b.toNat < 2 ^ 64 then some (a + b) else none

structure ShmemMapMsg where
  flags : UInt8
  shmid : UInt8
  shmOffset : UInt64
  fdOffset : UInt64
  len : UInt64
  deriving Repr, DecidableEq

structure ShmemUnmapMsg where
  shmid : UInt8
  shmOffset : UInt64
  len : UInt64
  deriving Repr, DecidableEq

/-- `MAP_R` and `MAP_W`. -/
def ShmemMapMsg.allFlags : UInt8 := 0x1 ||| 0x2

def ShmemMapMsg.isValid (msg : ShmemMapMsg) : Bool :=
  msg.flags &&& ~~~allFlags = 0 && (checkedAdd msg.fdOffset msg.len).isSome &&
    (checkedAdd msg.shmOffset msg.len).isSome

def ShmemUnmapMsg.isValid (msg : ShmemUnmapMsg) : Bool :=
  (checkedAdd msg.shmOffset msg.len).isSome

/-! ## The handler -/

inductive HandlerResult
  | ok (n : Nat)
  | err (e : Errno)
  /-- The message is not passed on to the handler. -/
  | invalidMessage
  /-- An addition of the handler has overflowed. -/
  | overflow
  deriving Repr, DecidableEq

structure BackendReqHandler where
  cacheSize : UInt64
  mmapCacheAddr : UInt64
  deriving Repr, DecidableEq

namespace BackendReqHandler

variable (h : BackendReqHandler) (pageSize : Nat) (space : Space Mapping)

def isReqValid (offset len : UInt64) : Bool :=
  match checkedAdd offset len with
  | none => false
  | some stop => !(offset ≥ h.cacheSize || stop > h.cacheSize)

/-- What `shmem_map` and `shmem_unmap` have in common; `args` are `mmap`'s, for its address. -/
def remap (offset len : UInt64) (args : UInt64 → MmapArgs) (outcome : MmapOutcome) :
    HandlerResult × Space Mapping :=
  if !h.isReqValid offset len then
    (.err EINVAL, space)
  else
    match checkedAdd h.mmapCacheAddr offset with
    | none => (.overflow, space)
    | some addr =>
      match mmap pageSize space (args addr) outcome with
      | .error e => (.err e, space)
      | .ok space' => (.ok 0, space')

def shmemMap (req : ShmemMapMsg) (fd : Int) (outcome : MmapOutcome) :
    HandlerResult × Space Mapping :=
  h.remap pageSize space req.shmOffset req.len (fun addr =>
    { addr := addr
      length := req.len
      prot := req.flags.toNat
      flags :=
        (if req.flags.toNat &&& PROT_WRITE ≠ 0 then MAP_SHARED else MAP_PRIVATE) ||| MAP_FIXED
      fd := fd
      offset := req.fdOffset }) outcome

def shmemUnmap (req : ShmemUnmapMsg) (outcome : MmapOutcome) : HandlerResult × Space Mapping :=
  h.remap pageSize space req.shmOffset req.len (fun addr =>
    { addr := addr
      length := req.len
      prot := PROT_NONE
      flags := MAP_ANONYMOUS ||| MAP_PRIVATE ||| MAP_FIXED
      fd := -1
      offset := 0 }) outcome

end BackendReqHandler

inductive Request
  | map (msg : ShmemMapMsg) (fd : Int)
  | unmap (msg : ShmemUnmapMsg)
  deriving Repr, DecidableEq

namespace Request

def shmOffset : Request → UInt64
  | .map msg _ => msg.shmOffset
  | .unmap msg => msg.shmOffset

def len : Request → UInt64
  | .map msg _ => msg.len
  | .unmap msg => msg.len

end Request

/-- The part of `handle_request` that is about these two messages. -/
def handleRequest (h : BackendReqHandler) (pageSize : Nat) (space : Space Mapping)
    (outcome : MmapOutcome) : Request → HandlerResult × Space Mapping
  | .map msg fd =>
    if !msg.isValid then (.invalidMessage, space) else h.shmemMap pageSize space msg fd outcome
  | .unmap msg =>
    if !msg.isValid then (.invalidMessage, space) else h.shmemUnmap pageSize space msg outcome

def handleRequests (h : BackendReqHandler) (pageSize : Nat) (space : Space Mapping)
    (reqs : List (Request × MmapOutcome)) : Space Mapping :=
  reqs.foldl (fun space r => (handleRequest h pageSize space r.2 r.1).2) space

/-! ## Containment -/

/-- The pages reserved for the cache. -/
def Reserved (h : BackendReqHandler) (pageSize page : Nat) : Prop :=
  Covers pageSize h.mmapCacheAddr.toNat h.cacheSize.toNat page

def RegionMapped (h : BackendReqHandler) (pageSize : Nat) (space : Space Mapping) : Prop :=
  ∀ page, Reserved h pageSize page → space page ≠ none

/-- What one request may do. -/
structure Contained (h : BackendReqHandler) (pageSize : Nat) (req : Request)
    (before after : Space Mapping) (r : HandlerResult) : Prop where
  noOverflow : r ≠ .overflow
  inRegion : ∀ page, after page ≠ before page → Reserved h pageSize page
  inRequest : ∀ page, after page ≠ before page →
    Covers pageSize (h.mmapCacheAddr.toNat + req.shmOffset.toNat) req.len.toNat page
  onError : (∀ n, r ≠ .ok n) → after = before
  mapped : RegionMapped h pageSize before → RegionMapped h pageSize after

section

variable {h : BackendReqHandler} {pageSize : Nat} {space : Space Mapping}

theorem checkedAdd_eq_some {a b c : UInt64} :
    checkedAdd a b = some c ↔ a.toNat + b.toNat < 2 ^ 64 ∧ c.toNat = a.toNat + b.toNat := by
  unfold checkedAdd
  split
  · next hlt =>
    rw [Option.some.injEq, ← UInt64.toNat_inj, UInt64.toNat_add, Nat.mod_eq_of_lt hlt]
    exact ⟨fun heq => ⟨hlt, heq.symm⟩, fun heq => heq.2.symm⟩
  · next hge => exact ⟨nofun, fun heq => absurd heq.1 hge⟩

/-- **The bound check is exact.** -/
theorem isReqValid_iff {offset len : UInt64} :
    h.isReqValid offset len = true ↔
      offset.toNat < h.cacheSize.toNat ∧ offset.toNat + len.toNat ≤ h.cacheSize.toNat := by
  unfold BackendReqHandler.isReqValid
  cases hc : checkedAdd offset len with
  | none =>
    have hge : ¬ offset.toNat + len.toNat < 2 ^ 64 := by
      intro hlt
      rw [checkedAdd, if_pos hlt] at hc
      cases hc
    have hsize := h.cacheSize.toNat_lt
    simp
    omega
  | some stop =>
    obtain ⟨-, hstop⟩ := checkedAdd_eq_some.mp hc
    simp [UInt64.le_iff_toNat_le, UInt64.lt_iff_toNat_lt, hstop]

/-- `MAP_FIXED`: what is replaced is the range asked for, and it begins at a page. -/
theorem mmap_fixed {args : MmapArgs} {outcome : MmapOutcome} {space' : Space Mapping}
    (hfixed : args.flags &&& MAP_FIXED ≠ 0)
    (hmmap : mmap pageSize space args outcome = .ok space') :
    pageSize ∣ args.addr.toNat ∧
      ∃ m, space' = space.replace pageSize args.addr.toNat args.length.toNat m := by
  unfold mmap at hmmap
  cases outcome with
  | fail e => cases hmmap
  | place page =>
    simp only [hfixed, ne_eq, not_false_eq_true, true_and, if_true] at hmmap
    split at hmmap
    · cases hmmap
    · next hargs =>
      cases hmmap
      exact ⟨not_not.mp (not_or.mp hargs).1, _, rfl⟩

theorem Contained.same {req : Request} {r : HandlerResult} (hr : r ≠ .overflow) :
    Contained h pageSize req space space r :=
  ⟨hr, fun _ hne => absurd rfl hne, fun _ hne => absurd rfl hne, fun _ => rfl, id⟩

variable (hsize : 0 < pageSize) (haligned : pageSize ∣ h.mmapCacheAddr.toNat)
  (hfits : h.mmapCacheAddr.toNat + pageSize * count pageSize h.cacheSize.toNat ≤ 2 ^ 64)

include hsize haligned hfits

/-- One request that has passed the checks on the message. -/
theorem remap_contained {req : Request} {args : UInt64 → MmapArgs} {outcome : MmapOutcome}
    (hargs : ∀ addr, (args addr).addr = addr ∧ (args addr).length = req.len ∧
      (args addr).flags &&& MAP_FIXED ≠ 0) :
    let r := h.remap pageSize space req.shmOffset req.len args outcome
    Contained h pageSize req space r.2 r.1 := by
  dsimp only
  unfold BackendReqHandler.remap
  split
  · exact .same nofun
  next hvalid =>
  have hcheck : h.isReqValid req.shmOffset req.len = true := by simpa using hvalid
  obtain ⟨hlt, hle⟩ := isReqValid_iff.mp hcheck
  have hregion := le_mul_count hsize h.cacheSize.toNat
  cases hc : checkedAdd h.mmapCacheAddr req.shmOffset with
  | none =>
    have hsum : h.mmapCacheAddr.toNat + req.shmOffset.toNat < 2 ^ 64 := by omega
    rw [checkedAdd, if_pos hsum] at hc
    cases hc
  | some addr =>
    obtain ⟨-, haddr⟩ := checkedAdd_eq_some.mp hc
    obtain ⟨hargaddr, hlength, hflags⟩ := hargs addr
    dsimp only
    cases hm : mmap pageSize space (args addr) outcome with
    | error e => exact .same nofun
    | ok space' =>
      obtain ⟨hdvd, m, rfl⟩ := mmap_fixed hflags hm
      rw [hargaddr, haddr] at hdvd
      rw [hargaddr, hlength, haddr]
      -- The request begins at a page of the region.
      have hoffset : pageSize ∣ req.shmOffset.toNat := (Nat.dvd_add_right haligned).mp hdvd
      have hchanged : ∀ page, space.replace pageSize (h.mmapCacheAddr.toNat + req.shmOffset.toNat)
          req.len.toNat m page ≠ space page →
          Covers pageSize (h.mmapCacheAddr.toNat + req.shmOffset.toNat) req.len.toNat page := by
        intro page hne
        by_contra hnot
        exact hne (Space.replace_of_not_covers hnot)
      refine ⟨nofun, fun page hne => ?_, hchanged, fun hr => absurd rfl (hr 0),
        fun hmapped page hpage => ?_⟩
      · exact covers_sub hsize hoffset hle (hchanged page hne)
      · exact Space.replace_ne_none (hmapped page hpage)

theorem handleRequest_contained (space : Space Mapping) (req : Request) (outcome : MmapOutcome) :
    let r := handleRequest h pageSize space outcome req
    Contained h pageSize req space r.2 r.1 := by
  have hshared : ∀ flags : Nat, ((if flags &&& PROT_WRITE ≠ 0 then MAP_SHARED else MAP_PRIVATE) |||
      MAP_FIXED) &&& MAP_FIXED ≠ 0 := by
    intro flags
    split <;> decide
  have hanonymous : (MAP_ANONYMOUS ||| MAP_PRIVATE ||| MAP_FIXED) &&& MAP_FIXED ≠ 0 := by decide
  cases req with
  | map msg fd =>
    simp only [handleRequest]
    split
    · exact .same nofun
    · exact remap_contained hsize haligned hfits fun _ => ⟨rfl, rfl, hshared _⟩
  | unmap msg =>
    simp only [handleRequest]
    split
    · exact .same nofun
    · exact remap_contained hsize haligned hfits fun _ => ⟨rfl, rfl, hanonymous⟩

/-- No page of the region is ever left unmapped. -/
theorem handleRequests_mapped (hmapped : RegionMapped h pageSize space)
    (reqs : List (Request × MmapOutcome)) :
    RegionMapped h pageSize (handleRequests h pageSize space reqs) := by
  induction reqs generalizing space with
  | nil => exact hmapped
  | cons r reqs ih =>
    exact ih ((handleRequest_contained hsize haligned hfits _ r.1 r.2).mapped hmapped)

/-- **Whatever the backend asks for, and however `mmap` answers, it stays inside the region.** Each
request of a sequence is contained when its turn comes, and no page of the region is unmapped before
it, after it or at the end. The check of the bounds is exact. -/
theorem requests_contained (hmapped : RegionMapped h pageSize space)
    (reqs : List (Request × MmapOutcome)) :
    (∀ before req outcome after, reqs = before ++ (req, outcome) :: after →
      let space' := handleRequests h pageSize space before
      let r := handleRequest h pageSize space' outcome req
      Contained h pageSize req space' r.2 r.1 ∧ RegionMapped h pageSize r.2) ∧
    RegionMapped h pageSize (handleRequests h pageSize space reqs) ∧
    ∀ offset len : UInt64, h.isReqValid offset len = true ↔
      offset.toNat < h.cacheSize.toNat ∧ offset.toNat + len.toNat ≤ h.cacheSize.toNat := by
  refine ⟨fun before req outcome after _ => ?_,
    handleRequests_mapped hsize haligned hfits hmapped reqs, fun _ _ => isReqValid_iff⟩
  have hbefore := handleRequests_mapped hsize haligned hfits hmapped before
  have hcontained := handleRequest_contained hsize haligned hfits
    (handleRequests h pageSize space before) req outcome
  exact ⟨hcontained, hcontained.mapped hbefore⟩

end

/-- One byte is mapped, which takes a page; the region is two pages and a byte. -/
theorem requests_contained_byte :
    let h : BackendReqHandler := ⟨8193, 65536⟩
    let space : Space Mapping := fun _ => some ⟨PROT_NONE, MAP_ANONYMOUS ||| MAP_PRIVATE, none⟩
    let req : Request := .map ⟨3, 0, 4096, 0, 1⟩ 5
    let r := handleRequest h 4096 space (.place 0) req
    Contained h 4096 req space r.2 r.1 ∧ RegionMapped h 4096 r.2 ∧ r.1 = .ok 0 ∧
      r.2 17 = some ⟨3, MAP_SHARED ||| MAP_FIXED, some (5, 0)⟩ := by
  intro h space req r
  have hstart : RegionMapped h 4096 space := fun _ _ => nofun
  have hall := requests_contained (by decide) (by decide) (by decide) hstart [(req, .place 0)]
  obtain ⟨hcontained, hmapped⟩ := hall.1 [] req (.place 0) [] rfl
  exact ⟨hcontained, hmapped, by decide, by decide⟩

end Spectrum.Gpu
