import Spectrum.VhostUser.Regions

/-!
# Replies with shared memory regions

The two sides put together, with the bytes in between. A reply to `GET_SHARED_MEMORY_REGIONS` is a
header, a count and a payload, and a frontend that gets one decodes just these two.

**What the handler sends is what the frontend gets, and what the frontend gets is what was sent.**

A backend does not have to use the handler. It can send any count with any bytes behind it, and the
comparison multiplies the count by the size of a region in 64 bits: a count that is wrong by a
multiple of `2 ^ 60` passes it, and the loop runs out of bytes.
-/

set_option autoImplicit false

namespace Spectrum.VhostUser

open Bytes ByteValued VhostUserMsgValidator MsgHeader

/-! ## Replies to the request -/

theorem getCode_eq_some_iff (hdr : VhostUserMsgHeader FrontendReq) :
    hdr.getCode = some .GET_SHARED_MEMORY_REGIONS ↔ hdr.request = 1004 := by
  simp only [Header.getCode, Req.ofCode]
  split <;> simp_all

/-- Whatever the state of the connection, a request that was sent has the code it was sent for. -/
theorem getCode_of_sendRequestHeader {node : Node} {sending : Except VhostUserError Unit}
    {hdr : VhostUserMsgHeader FrontendReq}
    (h : node.sendRequestHeader .GET_SHARED_MEMORY_REGIONS sending = .ok hdr) :
    hdr.getCode = some .GET_SHARED_MEMORY_REGIONS := by
  unfold Node.sendRequestHeader at h
  split at h
  · cases h
  · split at h
    · cases h
    · cases h
      rfl

/-- The flags of a reply. It may be marked as a request for an acknowledgement too. -/
def replyFlags (needReply : Bool) : UInt32 := if needReply then 13 else 5

/-- What a backend can send as a reply: any count, and as many bytes behind it as a message may
have. -/
structure RegionsReply where
  needReply : Bool
  count : UInt64
  payload : List UInt8
  fits : 8 + payload.length ≤ MAX_MSG_SIZE (VhostUserMsgHeader FrontendReq)

namespace RegionsReply

variable (reply : RegionsReply)

def header : VhostUserMsgHeader FrontendReq :=
  ⟨1004, replyFlags reply.needReply, .ofNat (8 + reply.payload.length)⟩

def bytes : List UInt8 :=
  toBytes reply.header ++ (toBytes (VhostUserU64.mk reply.count) ++ reply.payload)

theorem length_payload_le : 8 + reply.payload.length ≤ 4096 := reply.fits

theorem getSize_header : (getSize reply.header).toNat = 8 + reply.payload.length := by
  have hfits := reply.length_payload_le
  exact UInt32.toNat_ofNat_of_lt' (show _ < 2 ^ 32 by omega)

theorem isValid_header : isValid reply.header := by
  have hsize : reply.header.size.toNat ≤ 4096 :=
    reply.getSize_header.trans_le reply.length_payload_le
  have hflags : ∀ needReply, replyFlags needReply &&& 3 = 1 ∧ replyFlags needReply >>> 4 = 0 := by
    decide
  exact (isValid_iff _).mpr ⟨rfl, hsize, hflags _⟩

theorem isReplyFor_header (node : Node) :
    reply.header.isReplyFor (node.newRequestHeader .GET_SHARED_MEMORY_REGIONS 0) := by
  have hflags : ∀ needReply, replyFlags needReply &&& 4 ≠ 0 := by decide
  refine (isReplyFor_iff _ _).mpr ⟨.GET_SHARED_MEMORY_REGIONS, rfl, rfl, ?_, ?_⟩
  · exact decide_eq_true (hflags _)
  · unfold Node.newRequestHeader
    cases node.needReply <;> decide

/-- A reply to the request can come with no other header. -/
theorem header_eq {hdr : VhostUserMsgHeader FrontendReq} {n : Nat} (hvalid : isValid hdr)
    (hcode : hdr.getCode = some .GET_SHARED_MEMORY_REGIONS) (hreply : hdr.isReply)
    (hsize : (getSize hdr).toNat = n) :
    ∃ needReply, hdr = ⟨1004, replyFlags needReply, .ofNat n⟩ := by
  obtain ⟨-, -, hversion, hreserved⟩ := (isValid_iff hdr).mp hvalid
  have hrequest := (getCode_eq_some_iff hdr).mp hcode
  have hlt : hdr.flags.toNat < 16 := by
    have h := congrArg UInt32.toNat hreserved
    rw [UInt32.toNat_shiftRight, Nat.shiftRight_eq_div_pow] at h
    exact Nat.lt_of_div_eq_zero (by decide) h
  -- The version and the mark of a reply leave one bit.
  have hall : ∀ n : Fin 16, UInt32.ofNat n &&& 3 = 1 → UInt32.ofNat n &&& 4 ≠ 0 →
      ∃ needReply, UInt32.ofNat n = replyFlags needReply := by decide
  have hflags := hall ⟨hdr.flags.toNat, hlt⟩
  simp only [UInt32.ofNat_toNat] at hflags
  obtain ⟨needReply, hflags⟩ := hflags hversion (of_decide_eq_true hreply)
  have hofNat : UInt32.ofNat n = hdr.size := by rw [← hsize]; exact UInt32.ofNat_toNat
  refine ⟨needReply, ?_⟩
  rw [← hrequest, ← hflags, hofNat]

/-- **A frontend that gets a reply decodes its count and payload.** -/
theorem getSharedMemoryRegions_eq (crate : Crate) (overflowChecks needReply : Bool)
    (after : List UInt8) (ending : Option Errno) :
    getSharedMemoryRegions crate overflowChecks ⟨none, needReply⟩ (.ok ())
        ⟨reply.bytes ++ after, ending, none, none⟩ =
      decodeRegions overflowChecks ⟨reply.count⟩ reply.payload none := by
  have hreq : (Node.newRequestHeader ⟨none, needReply⟩ .GET_SHARED_MEMORY_REGIONS 0).isReply =
      false := by
    cases needReply <;> decide
  have hbody : isValid (VhostUserU64.mk reply.count) := rfl
  have hrecv := recvReplyWithPayload_toBytes crate overflowChecks hreq (reply.isReplyFor_header _)
    reply.isValid_header hbody reply.getSize_header.symm after ending
  have hdata : reply.bytes ++ after = toBytes reply.header ++
      (toBytes (VhostUserU64.mk reply.count) ++ (reply.payload ++ after)) := by
    simp only [bytes, List.append_assoc]
  simp only [getSharedMemoryRegions, Node.sendRequestHeader, hdata, hrecv]

/-- The reply with these regions. -/
def ofRegions (needReply : Bool) (regions : List VhostSharedMemoryRegion)
    (fits : 8 + 16 * regions.length ≤ MAX_MSG_SIZE (VhostUserMsgHeader FrontendReq)) :
    RegionsReply :=
  ⟨needReply, .ofNat regions.length, encodeRegions regions, by rwa [length_encodeRegions]⟩

variable {regions : List VhostSharedMemoryRegion}

theorem toNat_count_ofRegions (needReply : Bool)
    (fits : 8 + 16 * regions.length ≤ MAX_MSG_SIZE (VhostUserMsgHeader FrontendReq)) :
    (ofRegions needReply regions fits).count.toNat = regions.length := by
  have hfits : 8 + 16 * regions.length ≤ 4096 := fits
  exact UInt64.toNat_ofNat_of_lt' (show _ < 2 ^ 64 by omega)

/-- **The handler sends such a reply** to the request of any frontend. -/
theorem handleGetSharedMemoryRegions_eq (crate : Crate) (node : Node)
    (fits : 8 + 16 * regions.length ≤ MAX_MSG_SIZE (VhostUserMsgHeader FrontendReq)) :
    handleGetSharedMemoryRegions crate none (node.newRequestHeader .GET_SHARED_MEMORY_REGIONS 0)
      (.ok regions) = .ok (ofRegions false regions fits).bytes := by
  have hreq : (node.newRequestHeader .GET_SHARED_MEMORY_REGIONS 0).getCode.isSome := rfl
  have hsize : byteSize VhostUserU64 + (encodeRegions regions).length ≤
      MAX_MSG_SIZE (VhostUserMsgHeader FrontendReq) := by
    rw [length_encodeRegions]
    exact fits
  exact crate.sendReplyWithPayload_eq hreq hsize (VhostUserU64.mk (.ofNat regions.length))

/-- **What the frontend accepts is a reply with the regions it returns.** -/
theorem eq_bytes_of_ok {crate : Crate} {overflowChecks : Bool} {node : Node}
    {sending : Except VhostUserError Unit} {c : Incoming}
    (h : (getSharedMemoryRegions crate overflowChecks node sending c).result = .ok regions) :
    ∃ needReply fits after, c.data = (ofRegions needReply regions fits).bytes ++ after := by
  unfold getSharedMemoryRegions at h
  split at h
  · cases h
  · rename_i hdr hreq
    split at h
    · cases h
    · rename_i body payload rfds hrecv
      obtain ⟨-, reply, after, hdata, hvalid, hreply, hsize⟩ := recvReplyWithPayload_ok hrecv
      have hmax : (getSize reply).toNat ≤ 4096 := getSize_le reply hvalid
      have hbody : byteSize VhostUserU64 = 8 := rfl
      obtain ⟨hrfds, hlen⟩ := decodeRegions_ok overflowChecks (by omega) h
      obtain ⟨regions', hok, hcount, hbytes⟩ := decodeRegions_exact overflowChecks (by omega) hlen
      rw [hrfds, hok] at h
      cases h
      obtain ⟨code, hcode, hreqCode, hisReply, -⟩ := (isReplyFor_iff _ _).mp hreply
      have hreqCode' := getCode_of_sendRequestHeader hreq
      rw [hreqCode, Option.some.injEq] at hreqCode'
      rw [hreqCode'] at hcode
      obtain ⟨needReply, hheader⟩ := header_eq hvalid hcode hisReply hsize.symm
      have hbody : body = ⟨.ofNat regions.length⟩ := by rw [hcount, UInt64.ofNat_toNat]
      have hfits : 8 + 16 * regions.length ≤ 4096 := by omega
      have hreply : toBytes reply ++ (toBytes body ++ payload) =
          (ofRegions needReply regions hfits).bytes := by
        rw [hheader, hbody, ← hbytes]
        rfl
      refine ⟨needReply, hfits, after, ?_⟩
      rw [hdata, ← hreply, List.append_assoc, List.append_assoc]

end RegionsReply

/-- **The list of regions survives the wire**: a frontend gets the regions of a backend that uses
the handler, and it gets no regions but those that make up the reply. -/
theorem getSharedMemoryRegions_roundTrip (crate : Crate) (overflowChecks : Bool) :
    (∀ (needReply : Bool) (regions : List VhostSharedMemoryRegion)
      (fits : 8 + 16 * regions.length ≤ MAX_MSG_SIZE (VhostUserMsgHeader FrontendReq)),
      handleGetSharedMemoryRegions crate none
          (Node.newRequestHeader ⟨none, needReply⟩ .GET_SHARED_MEMORY_REGIONS 0) (.ok regions) =
        .ok (RegionsReply.ofRegions false regions fits).bytes ∧
      ∀ after ending, getSharedMemoryRegions crate overflowChecks ⟨none, needReply⟩ (.ok ())
          ⟨(RegionsReply.ofRegions false regions fits).bytes ++ after, ending, none, none⟩ =
        ⟨regions.length, .ok regions⟩) ∧
    ∀ (node : Node) (sending : Except VhostUserError Unit) (c : Incoming)
      (regions : List VhostSharedMemoryRegion),
      (getSharedMemoryRegions crate overflowChecks node sending c).result = .ok regions →
      ∃ needReply fits after,
        c.data = (RegionsReply.ofRegions needReply regions fits).bytes ++ after := by
  constructor
  · intro needReply regions fits
    refine ⟨RegionsReply.handleGetSharedMemoryRegions_eq crate _ fits, ?_⟩
    intro after ending
    have hcount := RegionsReply.toNat_count_ofRegions false fits
    have hfits : 8 + 16 * regions.length ≤ 4096 := fits
    have hlen : (encodeRegions regions).length =
        16 * (RegionsReply.ofRegions false regions fits).count.toNat := by
      rw [hcount, length_encodeRegions]
    obtain ⟨regions', hok, -, hbytes⟩ := decodeRegions_exact overflowChecks
      (show (encodeRegions regions).length < 2 ^ 63 by omega) hlen
    have hregions : (⟨(RegionsReply.ofRegions false regions fits).count.toNat, .ok regions'⟩ :
        Decoded) = ⟨regions.length, .ok regions⟩ := by
      rw [hcount, encodeRegions_injective hbytes]
    exact (RegionsReply.getSharedMemoryRegions_eq _ crate overflowChecks needReply after
      ending).trans (hok.trans hregions)
  · intro node sending c regions h
    exact RegionsReply.eq_bytes_of_ok h

theorem getSharedMemoryRegions_roundTrip_two :
    let regions : List VhostSharedMemoryRegion := [.new 1 4294967296, .new 0 4096]
    8 + 16 * regions.length ≤ MAX_MSG_SIZE (VhostUserMsgHeader FrontendReq) ∧
      ∃ sent, handleGetSharedMemoryRegions Crate.plain none
          (Node.newRequestHeader ⟨none, true⟩ .GET_SHARED_MEMORY_REGIONS 0) (.ok regions) =
            .ok sent ∧
        getSharedMemoryRegions Crate.plain false ⟨none, true⟩ (.ok ())
          ⟨sent ++ [], none, none, none⟩ = ⟨2, .ok regions⟩ := by
  intro regions
  have fits : 8 + 16 * regions.length ≤ MAX_MSG_SIZE (VhostUserMsgHeader FrontendReq) := by decide
  obtain ⟨hsent, hreceived⟩ := (getSharedMemoryRegions_roundTrip .plain false).1 true regions fits
  exact ⟨fits, _, hsent, hreceived [] none⟩

/-! ## The region of a GPU -/

/-- The errors of `Gpu::new` that have to do with regions. -/
inductive GpuError
  | vhostUserGetSharedMemoryRegions (e : VhostUserError)
  | vhostUserUnexpectedSharedMemoryRegionsCount (expected got : Nat)
  | panicked (reason : String)
  deriving Repr, DecidableEq

/-- What `Gpu::new` makes of the regions: it wants exactly one. -/
def shmRegion (regions : Except Fault (List VhostSharedMemoryRegion)) :
    Except GpuError VhostSharedMemoryRegion :=
  match regions with
  | .error (.err e) => .error (.vhostUserGetSharedMemoryRegions e)
  | .error (.panic reason) => .error (.panicked reason)
  | .ok [region] => .ok region
  | .ok regions => .error (.vhostUserUnexpectedSharedMemoryRegionsCount 1 regions.length)

/-- The region of a GPU is all that its backend replied. -/
theorem shmRegion_ok {crate : Crate} {overflowChecks : Bool} {node : Node}
    {sending : Except VhostUserError Unit} {c : Incoming} {region : VhostSharedMemoryRegion}
    (h : shmRegion (getSharedMemoryRegions crate overflowChecks node sending c).result =
      .ok region) :
    ∃ needReply fits after,
      c.data = (RegionsReply.ofRegions needReply [region] fits).bytes ++ after := by
  have hregions : (getSharedMemoryRegions crate overflowChecks node sending c).result =
      .ok [region] := by
    unfold shmRegion at h
    split at h
    · cases h
    · cases h
    · rename_i region' hresult
      cases h
      exact hresult
    · cases h
  exact RegionsReply.eq_bytes_of_ok hregions

/-! ## Counts that do not fit -/

/-- A malformed reply is rejected, and never trusted: the loop does not go past the payload, and
it takes as many iterations as there are regions. -/
structure Rejects (reply : RegionsReply) (d : Decoded) : Prop where
  mismatch : reply.payload.length ≠ 16 * reply.count.toNat →
    d.result = .error (.err .invalidMessage)
  noPanic : ∀ reason, d.result ≠ .error (.panic reason)
  complete : reply.payload.length = 16 * reply.count.toNat →
    d.iterations = reply.payload.length / 16 ∧
      ∃ regions, d.result = .ok regions ∧ regions.length = d.iterations

/-- **A frontend without overflow checks rejects exactly those malformed replies whose count does
not wrap around to the length of the payload.** -/
theorem getSharedMemoryRegions_rejects_iff (crate : Crate) (reply : RegionsReply)
    (needReply : Bool) (after : List UInt8) (ending : Option Errno) :
    Rejects reply (getSharedMemoryRegions crate false ⟨none, needReply⟩ (.ok ())
        ⟨reply.bytes ++ after, ending, none, none⟩) ↔
      ¬ (16 * reply.count.toNat ≠ reply.payload.length ∧
        16 * reply.count.toNat % 2 ^ 64 = reply.payload.length) := by
  have hpayload : reply.payload.length < 2 ^ 63 := by
    have hfits := reply.length_payload_le
    omega
  rw [reply.getSharedMemoryRegions_eq]
  by_cases hlen : reply.payload.length = 16 * reply.count.toNat
  · obtain ⟨regions, hok, hcount, -⟩ :=
      @decodeRegions_exact false reply.payload ⟨reply.count⟩ hpayload hlen
    rw [hok]
    refine ⟨fun _ h => h.1 hlen.symm, fun _ => ⟨fun h => absurd hlen h, nofun, fun _ => ?_⟩⟩
    refine ⟨?_, regions, rfl, hcount⟩
    show reply.count.toNat = _
    omega
  · by_cases hwrap : 16 * reply.count.toNat % 2 ^ 64 = reply.payload.length
    · have hprod : 2 ^ 64 ≤ 16 * reply.count.toNat := by omega
      obtain ⟨reason, hloop⟩ := decodeLoop_panics false hpayload reply.count.toNat
        (Pushed.start reply.payload) (by omega)
      rw [decodeRegions_wrapped hprod, if_neg (not_not.mpr hwrap.symm), hloop]
      refine ⟨fun h => absurd rfl (h.noPanic reason), fun h => absurd ⟨Ne.symm hlen, hwrap⟩ h⟩
    · have hrejected : decodeRegions false ⟨reply.count⟩ reply.payload none =
          ⟨0, .error (.err .invalidMessage)⟩ := by
        by_cases hprod : 16 * reply.count.toNat < 2 ^ 64
        · exact decodeRegions_mismatch false hprod hlen
        · rw [decodeRegions_wrapped (Nat.not_lt.mp hprod), if_pos (Ne.symm hwrap)]
      rw [hrejected]
      exact ⟨fun _ h => hwrap h.2, fun _ => ⟨fun _ => rfl, nofun, fun h => absurd h hlen⟩⟩

/-- A reply of eight bytes, with the count `2 ^ 60`. -/
theorem getSharedMemoryRegions_wrapped :
    let reply : RegionsReply := ⟨false, 0x1000000000000000, [], by decide⟩
    ∀ crate : Crate, ∃ reason, getSharedMemoryRegions crate false ⟨none, false⟩ (.ok ())
      ⟨reply.bytes ++ [], none, none, none⟩ = ⟨0, .error (.panic reason)⟩ := by
  intro reply crate
  have hcount : reply.count.toNat = 2 ^ 60 := by decide
  have hprod : 2 ^ 64 ≤ 16 * reply.count.toNat := by omega
  obtain ⟨reason, hloop⟩ := decodeLoop_panics false (by decide) reply.count.toNat
    (Pushed.start []) (by rw [hcount]; decide)
  refine ⟨reason, ?_⟩
  rw [reply.getSharedMemoryRegions_eq, decodeRegions_wrapped hprod, if_neg (by rw [hcount]; decide)]
  exact hloop

end Spectrum.VhostUser
