import Mathlib.Data.List.Basic
import Spectrum.VhostUser.Endpoint

/-!
# The list of shared memory regions

A frontend asks its backend for the shared memory regions of the device. The backend's handler
replies with a count, followed by the regions; `get_shared_memory_regions` of the frontend compares
the count with the length of what follows, and then cuts that into regions.

**The regions that the loop has pushed are the bytes up to its offset.** That is its invariant, and
it says what is returned if the count fits the payload; if the loop is told to go on after the last
region, it panics.
-/

set_option autoImplicit false

namespace Spectrum.VhostUser

open Bytes ByteValued VhostUserMsgValidator MsgHeader

/-! ## Regions -/

structure VhostSharedMemoryRegion where
  /-- The region's shmid. -/
  id : UInt8
  padding : Vector UInt8 7
  length : UInt64
  deriving Repr, DecidableEq

def VhostSharedMemoryRegion.new (id : UInt8) (length : UInt64) : VhostSharedMemoryRegion :=
  ⟨id, Vector.replicate 7 0, length⟩

instance : ByteValued VhostSharedMemoryRegion where
  byteSize := 16
  byteSize_lt := by decide
  toBytes r := r.id :: (r.padding.toList ++ toLE 8 r.length.toNat)
  ofBytes l := ⟨l.headD 0, Vector.ofFn fun i => l.tail.getD i 0, .ofNat (ofLE (l.tail.drop 7))⟩
  length_toBytes := by simp
  ofBytes_toBytes := by
    intro r
    have hpadding : (Vector.ofFn fun i : Fin 7 =>
        (r.padding.toList ++ toLE 8 r.length.toNat).getD i 0) = r.padding := by
      apply Vector.toList_inj.mp
      apply List.ext_getElem
      · simp
      · intro i hi hi'
        simp at hi
        simp [List.getElem?_append_left]
    have hdrop : (r.padding.toList ++ toLE 8 r.length.toNat).drop 7 = toLE 8 r.length.toNat :=
      List.drop_left' (by simp)
    simp only [List.headD_cons, List.tail_cons, hpadding, hdrop, ofNat_ofLE_toLE_eight]
  toBytes_ofBytes := by
    intro l hl
    cases l with
    | nil => cases hl
    | cons b l =>
      have hlen : l.length = 15 := by simpa using hl
      have hpadding : (Vector.ofFn fun i : Fin 7 => l.getD i 0).toList = l.take 7 := by
        apply List.ext_getElem
        · simp [hlen]
        · intro i hi hi'
          simp at hi
          simp [hlen, show i < 15 by omega]
      have hdrop : (l.drop 7).length = 8 := by simp [hlen]
      simp only [List.headD_cons, List.tail_cons, hpadding, toLE_ofNat_ofLE_eight hdrop,
        List.take_append_drop]

/-! ## The backend's side -/

/-- `buf` after the loop of the handler. -/
def encodeRegions (regions : List VhostSharedMemoryRegion) : List UInt8 :=
  regions.foldl (fun buf r => buf ++ toBytes r) []

/-- What the handler of `GET_SHARED_MEMORY_REGIONS` sends, if the backend has these regions. -/
def handleGetSharedMemoryRegions (crate : Crate) (error : Option Errno)
    (hdr : VhostUserMsgHeader FrontendReq)
    (regions : Except VhostUserError (List VhostSharedMemoryRegion)) :
    Except VhostUserError (List UInt8) :=
  match regions with
  | .error e => .error e
  | .ok regions =>
    crate.sendReplyWithPayload error hdr (VhostUserU64.mk (.ofNat regions.length))
      (encodeRegions regions)

/-! ## The frontend's side -/

/-- Addition and multiplication in `usize`: without overflow checks they wrap. -/
def usizeAdd (overflowChecks : Bool) (a b : Nat) : Except Fault Nat :=
  if a + b < 2 ^ 64 then .ok (a + b)
  else if overflowChecks then .error (.panic "attempt to add with overflow")
  else .ok ((a + b) % 2 ^ 64)

def usizeMul (overflowChecks : Bool) (a b : Nat) : Except Fault Nat :=
  if a * b < 2 ^ 64 then .ok (a * b)
  else if overflowChecks then .error (.panic "attempt to multiply with overflow")
  else .ok (a * b % 2 ^ 64)

/-- `&buf[start..stop]`. -/
def slice (buf : List UInt8) (start stop : Nat) : Except Fault (List UInt8) :=
  if stop < start then
    .error (.panic ("slice index starts at " ++ toString start ++ " but ends at " ++ toString stop))
  else if buf.length < stop then
    .error (.panic ("range end index " ++ toString stop ++ " out of range for slice of length " ++
      toString buf.length))
  else .ok ((buf.take stop).drop start)

/-- `ByteValued::from_slice`; the region is packed, so its alignment is one. -/
def fromSlice (T : Type) [ByteValued T] (data : List UInt8) : Option T :=
  if data.length = byteSize T then some (ofBytes data) else none

/-- What the loop has: the regions so far, and where the next one begins. -/
structure Cursor where
  regions : List VhostSharedMemoryRegion
  offset : Nat

/-- One iteration. -/
def decodeRegion (overflowChecks : Bool) (buf : List UInt8) (s : Cursor) : Except Fault Cursor := do
  let stop ← usizeAdd overflowChecks s.offset (byteSize VhostSharedMemoryRegion)
  let data ← slice buf s.offset stop
  match fromSlice VhostSharedMemoryRegion data with
  | none => .error (.panic "called `Option::unwrap()` on a `None` value")
  | some region =>
    let offset ← usizeAdd overflowChecks s.offset (byteSize VhostSharedMemoryRegion)
    return ⟨s.regions ++ [region], offset⟩

/-- The result, and how many iterations of the loop were completed. -/
structure Decoded where
  iterations : Nat
  result : Except Fault (List VhostSharedMemoryRegion)

/-- The loop, with the iterations that are left and those that are done. -/
def decodeLoop (overflowChecks : Bool) (buf : List UInt8) : Nat → Nat → Cursor → Decoded
  | 0, done, s => ⟨done, .ok s.regions⟩
  | n + 1, done, s =>
    match decodeRegion overflowChecks buf s with
    | .error f => ⟨done, .error f⟩
    | .ok s' => decodeLoop overflowChecks buf n (done + 1) s'

/-- What `get_shared_memory_regions` does with the reply. -/
def decodeRegions (overflowChecks : Bool) (body : VhostUserU64) (buf : List UInt8) (rfds : Files) :
    Decoded :=
  if rfds.isSome then ⟨0, .error (.err .invalidMessage)⟩
  else
    match usizeMul overflowChecks body.value.toNat (byteSize VhostSharedMemoryRegion) with
    | .error f => ⟨0, .error f⟩
    | .ok size =>
      if buf.length ≠ size then ⟨0, .error (.err .invalidMessage)⟩
      else decodeLoop overflowChecks buf body.value.toNat 0 ⟨[], 0⟩

/-- A frontend's connection: the error that has made it unusable, and whether its requests ask for
an acknowledgement. -/
structure Node where
  error : Option Errno
  needReply : Bool

/-- `new_request_header`; `NEED_REPLY` is the only flag of a request. -/
def Node.newRequestHeader (node : Node) (request : FrontendReq) (size : UInt32) :
    VhostUserMsgHeader FrontendReq :=
  Header.new request.code (if node.needReply then 8 else 0) size

/-- `send_request_header`, with how the sending turned out. -/
def Node.sendRequestHeader (node : Node) (request : FrontendReq)
    (sending : Except VhostUserError Unit) :
    Except VhostUserError (VhostUserMsgHeader FrontendReq) :=
  match node.error with
  | some e => .error (.socketBroken e)
  | none =>
    match sending with
    | .error e => .error e
    | .ok () => .ok (node.newRequestHeader request 0)

def getSharedMemoryRegions (crate : Crate) (overflowChecks : Bool) (node : Node)
    (sending : Except VhostUserError Unit) (c : Incoming) : Decoded :=
  match node.sendRequestHeader .GET_SHARED_MEMORY_REGIONS sending with
  | .error e => ⟨0, .error (.err e)⟩
  | .ok hdr =>
    match recvReplyWithPayload crate VhostUserU64 overflowChecks node.error hdr c with
    | .error f => ⟨0, .error f⟩
    | .ok (body, buf, rfds) => decodeRegions overflowChecks body buf rfds

/-! ## The loop -/

theorem encodeRegions_eq (regions : List VhostSharedMemoryRegion) :
    encodeRegions regions = regions.flatMap toBytes :=
  List.flatMap_eq_foldl.symm

theorem length_encodeRegions (regions : List VhostSharedMemoryRegion) :
    (encodeRegions regions).length = 16 * regions.length := by
  rw [encodeRegions_eq]
  induction regions with
  | nil => rfl
  | cons r regions ih =>
    have hlen : (toBytes r).length = 16 := length_toBytes r
    rw [List.flatMap_cons, List.length_append, hlen, ih, List.length_cons]
    omega

theorem encodeRegions_append (regions : List VhostSharedMemoryRegion)
    (r : VhostSharedMemoryRegion) :
    encodeRegions (regions ++ [r]) = encodeRegions regions ++ toBytes r := by
  simp [encodeRegions]

/-- Regions can be told apart by their bytes. -/
theorem encodeRegions_injective : Function.Injective encodeRegions := by
  intro regions
  induction regions with
  | nil =>
    intro regions' h
    have hlen := congrArg List.length h
    rw [length_encodeRegions, length_encodeRegions] at hlen
    cases regions' with
    | nil => rfl
    | cons r regions' => simp at hlen
  | cons r regions ih =>
    intro regions' h
    cases regions' with
    | nil =>
      have hlen := congrArg List.length h
      rw [length_encodeRegions, length_encodeRegions] at hlen
      simp at hlen
    | cons r' regions' =>
      simp only [encodeRegions_eq, List.flatMap_cons] at h
      obtain ⟨hhead, htail⟩ := List.append_inj h (by rw [length_toBytes, length_toBytes])
      have hr : r = r' := by rw [← ofBytes_toBytes r, hhead, ofBytes_toBytes]
      rw [← encodeRegions_eq, ← encodeRegions_eq] at htail
      rw [hr, ih htail]

/-- The regions are the bytes up to the offset, one for each iteration. -/
structure Pushed (buf : List UInt8) (done : Nat) (s : Cursor) : Prop where
  offset : s.offset = 16 * done
  length : s.regions.length = done
  bytes : encodeRegions s.regions = buf.take s.offset

theorem Pushed.start (buf : List UInt8) : Pushed buf 0 ⟨[], 0⟩ :=
  ⟨rfl, rfl, rfl⟩

variable (overflowChecks : Bool) {buf : List UInt8} {done : Nat} {s : Cursor}

/-- The offset has not gone past the bytes. -/
theorem Pushed.le (h : Pushed buf done s) : 16 * done ≤ buf.length := by
  have hlen := congrArg List.length h.bytes
  rw [length_encodeRegions, h.length, h.offset, List.length_take] at hlen
  omega

theorem usizeAdd_of_lt {a b : Nat} (h : a + b < 2 ^ 64) :
    usizeAdd overflowChecks a b = .ok (a + b) :=
  if_pos h

/-- **An iteration pushes the next region**, if there are bytes for it. -/
theorem decodeRegion_ok (hbuf : buf.length < 2 ^ 63) (h : Pushed buf done s)
    (hroom : 16 * (done + 1) ≤ buf.length) :
    ∃ s', decodeRegion overflowChecks buf s = .ok s' ∧ Pushed buf (done + 1) s' := by
  have hoffset := h.offset
  have hadd : usizeAdd overflowChecks s.offset (byteSize VhostSharedMemoryRegion) =
      .ok (s.offset + 16) := usizeAdd_of_lt _ (by show s.offset + 16 < _; omega)
  have hslice : slice buf s.offset (s.offset + 16) =
      .ok ((buf.take (s.offset + 16)).drop s.offset) := by
    unfold slice
    rw [if_neg (by omega), if_neg (by omega)]
  have hlen : ((buf.take (s.offset + 16)).drop s.offset).length = 16 := by
    simp
    omega
  refine ⟨⟨s.regions ++ [ofBytes ((buf.take (s.offset + 16)).drop s.offset)], s.offset + 16⟩,
    ?_, ?_, ?_, ?_⟩
  · have hfrom : fromSlice VhostSharedMemoryRegion ((buf.take (s.offset + 16)).drop s.offset) =
        some (ofBytes ((buf.take (s.offset + 16)).drop s.offset)) := if_pos hlen
    simp only [decodeRegion, hadd, Bind.bind, Except.bind, hslice, hfrom]
    rfl
  · dsimp only
    omega
  · simp [h.length]
  · have htake : (buf.take (s.offset + 16)).take s.offset = buf.take s.offset := by
      rw [List.take_take, Nat.min_eq_left (by omega)]
    rw [encodeRegions_append, h.bytes, toBytes_ofBytes _ hlen, ← htake, List.take_append_drop]

/-- Without the bytes for another region it panics. -/
theorem decodeRegion_panics (hbuf : buf.length < 2 ^ 63) (h : Pushed buf done s)
    (hroom : buf.length < 16 * (done + 1)) :
    ∃ reason, decodeRegion overflowChecks buf s = .error (.panic reason) := by
  have hoffset := h.offset
  have hle := h.le
  have hadd : usizeAdd overflowChecks s.offset (byteSize VhostSharedMemoryRegion) =
      .ok (s.offset + 16) := usizeAdd_of_lt _ (by show s.offset + 16 < _; omega)
  have hslice : ∃ reason, slice buf s.offset (s.offset + 16) = .error (.panic reason) := by
    unfold slice
    rw [if_neg (by omega), if_pos (by omega)]
    exact ⟨_, rfl⟩
  obtain ⟨reason, hslice⟩ := hslice
  refine ⟨reason, ?_⟩
  simp only [decodeRegion, hadd, Bind.bind, Except.bind, hslice]

/-- **The loop pushes as many regions as it is told**, if they are there. -/
theorem decodeLoop_ok (hbuf : buf.length < 2 ^ 63) (n : Nat) (h : Pushed buf done s)
    (hroom : 16 * (done + n) ≤ buf.length) :
    ∃ s', decodeLoop overflowChecks buf n done s = ⟨done + n, .ok s'.regions⟩ ∧
      Pushed buf (done + n) s' := by
  induction n generalizing done s with
  | zero => exact ⟨s, rfl, h⟩
  | succ n ih =>
    obtain ⟨s', hstep, h'⟩ := decodeRegion_ok overflowChecks hbuf h (by omega)
    obtain ⟨s'', hloop, h''⟩ := ih h' (by omega)
    have hdone : done + 1 + n = done + (n + 1) := by omega
    rw [hdone] at hloop h''
    refine ⟨s'', ?_, h''⟩
    rw [decodeLoop, hstep]
    exact hloop

/-- If they are not, it panics when it has pushed those that are. -/
theorem decodeLoop_panics (hbuf : buf.length < 2 ^ 63) (n : Nat) (h : Pushed buf done s)
    (hroom : buf.length < 16 * (done + n)) :
    ∃ reason, decodeLoop overflowChecks buf n done s =
      ⟨buf.length / 16, .error (.panic reason)⟩ := by
  induction n generalizing done s with
  | zero =>
    have hle := h.le
    omega
  | succ n ih =>
    rw [decodeLoop]
    by_cases hnext : 16 * (done + 1) ≤ buf.length
    · obtain ⟨s', hstep, h'⟩ := decodeRegion_ok overflowChecks hbuf h hnext
      rw [hstep]
      exact ih h' (by omega)
    · have hle := h.le
      have hdiv : buf.length / 16 = done := by omega
      obtain ⟨reason, hstep⟩ := decodeRegion_panics overflowChecks hbuf h
        (by omega)
      rw [hstep, hdiv]
      exact ⟨reason, rfl⟩

/-! ## Decoding -/

theorem byteSize_region : byteSize VhostSharedMemoryRegion = 16 := rfl

variable {body : VhostUserU64}

/-- **A count that fits the payload**: the regions are the payload. -/
theorem decodeRegions_exact (hbuf : buf.length < 2 ^ 63)
    (hlen : buf.length = 16 * body.value.toNat) :
    ∃ regions, decodeRegions overflowChecks body buf none = ⟨body.value.toNat, .ok regions⟩ ∧
      regions.length = body.value.toNat ∧ encodeRegions regions = buf := by
  have hmul : usizeMul overflowChecks body.value.toNat 16 = .ok buf.length := by
    unfold usizeMul
    rw [Nat.mul_comm, ← hlen, if_pos (by omega)]
  obtain ⟨s, hloop, hs⟩ := decodeLoop_ok overflowChecks hbuf body.value.toNat
    (Pushed.start buf) (by omega)
  rw [Nat.zero_add] at hloop hs
  refine ⟨s.regions, ?_, hs.length, ?_⟩
  · simp only [decodeRegions, byteSize_region, hmul, Option.isSome_none, Bool.false_eq_true,
      if_false, ne_eq, not_true_eq_false, hloop]
  · rw [hs.bytes, hs.offset, ← hlen, List.take_length]

/-- A count that does not fit, with a product that is not too large, is rejected. -/
theorem decodeRegions_mismatch (hprod : 16 * body.value.toNat < 2 ^ 64)
    (hlen : buf.length ≠ 16 * body.value.toNat) :
    decodeRegions overflowChecks body buf none = ⟨0, .error (.err .invalidMessage)⟩ := by
  have hmul : usizeMul overflowChecks body.value.toNat 16 = .ok (16 * body.value.toNat) := by
    unfold usizeMul
    rw [Nat.mul_comm, if_pos hprod]
  simp only [decodeRegions, byteSize_region, hmul, Option.isSome_none, Bool.false_eq_true, if_false,
    ne_eq, hlen, not_false_eq_true, if_true]

/-- With overflow checks, a product that is too large is a panic. -/
theorem decodeRegions_checked (hprod : 2 ^ 64 ≤ 16 * body.value.toNat) :
    decodeRegions true body buf none =
      ⟨0, .error (.panic "attempt to multiply with overflow")⟩ := by
  have hmul : usizeMul true body.value.toNat 16 =
      .error (.panic "attempt to multiply with overflow") := by
    unfold usizeMul
    rw [if_neg (by omega), if_pos rfl]
  simp only [decodeRegions, byteSize_region, hmul, Option.isSome_none, Bool.false_eq_true, if_false]

/-- Without them it is compared with the payload as if it were small. -/
theorem decodeRegions_wrapped (hprod : 2 ^ 64 ≤ 16 * body.value.toNat) :
    decodeRegions false body buf none =
      if buf.length ≠ 16 * body.value.toNat % 2 ^ 64 then ⟨0, .error (.err .invalidMessage)⟩
      else decodeLoop false buf body.value.toNat 0 ⟨[], 0⟩ := by
  have hmul : usizeMul false body.value.toNat 16 = .ok (16 * body.value.toNat % 2 ^ 64) := by
    unfold usizeMul
    rw [if_neg (by omega), if_neg Bool.false_ne_true, Nat.mul_comm]
  simp only [decodeRegions, byteSize_region, hmul, Option.isSome_none, Bool.false_eq_true, if_false]

/-- **Nothing is returned for a count that does not fit.** -/
theorem decodeRegions_ok {rfds : Files} (hbuf : buf.length < 2 ^ 63)
    {regions : List VhostSharedMemoryRegion}
    (h : (decodeRegions overflowChecks body buf rfds).result = .ok regions) :
    rfds = none ∧ buf.length = 16 * body.value.toNat := by
  cases rfds with
  | some files => cases h
  | none =>
    refine ⟨rfl, ?_⟩
    by_cases hlen : buf.length = 16 * body.value.toNat
    · exact hlen
    · by_cases hprod : 16 * body.value.toNat < 2 ^ 64
      · rw [decodeRegions_mismatch overflowChecks hprod hlen] at h
        cases h
      · cases overflowChecks with
        | true =>
          rw [decodeRegions_checked (by omega)] at h
          cases h
        | false =>
          rw [decodeRegions_wrapped (by omega)] at h
          split at h
          · cases h
          · obtain ⟨reason, hloop⟩ := decodeLoop_panics false hbuf body.value.toNat
              (Pushed.start buf) (by omega)
            rw [hloop] at h
            cases h

end Spectrum.VhostUser
