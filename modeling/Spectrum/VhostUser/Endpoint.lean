import Spectrum.Errno
import Spectrum.Interact.Bytes

/-!
# Receiving vhost-user messages

`recv_payload_into_buf` of the patched vhost crate, for every header and body type. What it calls,
`recv_header` and `recv_into_iovec_all`, is the crate's own and not part of the patches, so it is a
parameter here, with what is assumed about it. The peer decides about every byte that arrives, in
particular about the length in the header, from which the length of the payload is computed before
anything has compared it with the size of the body.

**Receiving is safe exactly if the length is at least that size.** A shorter one makes the
subtraction overflow: with overflow checks that is a panic at once, and without them the length of
the payload is one that no allocation can have, which is a panic too.
-/

set_option autoImplicit false

namespace Spectrum.VhostUser

open Bytes

/-! ## Messages -/

/-- Types whose values are given by their bytes, as `ByteValued` in Rust. -/
class ByteValued (T : Type) where
  byteSize : Nat
  /-- No type is larger than half of the address space. -/
  byteSize_lt : byteSize < 2 ^ 63
  toBytes : T → List UInt8
  ofBytes : List UInt8 → T
  length_toBytes : ∀ t, (toBytes t).length = byteSize
  ofBytes_toBytes : ∀ t, ofBytes (toBytes t) = t
  toBytes_ofBytes : ∀ l, l.length = byteSize → toBytes (ofBytes l) = l

class VhostUserMsgValidator (T : Type) where
  isValid : T → Bool

/-- Header types. A valid header has no more than the largest size a message may have. -/
class MsgHeader (H : Type) extends ByteValued H, VhostUserMsgValidator H where
  MAX_MSG_SIZE : Nat
  getSize : H → UInt32
  getSize_le : ∀ h, isValid h → (getSize h).toNat ≤ MAX_MSG_SIZE

/-- The requests of one direction, with the codes that stand for them. -/
class Req (R : Type) where
  ofCode : UInt32 → Option R

open ByteValued VhostUserMsgValidator MsgHeader

inductive HeaderKind
  | vhostUser
  | gpu

/-- Both of the crate's header types have these fields. -/
structure Header (kind : HeaderKind) (R : Type) where
  request : UInt32
  flags : UInt32
  size : UInt32
  deriving Repr, DecidableEq

abbrev VhostUserMsgHeader := Header .vhostUser
abbrev VhostUserGpuMsgHeader := Header .gpu

theorem toNat_ofNat_ofLE {l : List UInt8} (h : l.length = 4) :
    (UInt32.ofNat (ofLE l)).toNat = ofLE l := by
  have hlt := ofLE_lt l
  rw [h] at hlt
  exact UInt32.toNat_ofNat_of_lt' hlt

theorem toLE_ofNat_ofLE {l : List UInt8} (h : l.length = 4) :
    toLE 4 (UInt32.ofNat (ofLE l)).toNat = l := by
  rw [toNat_ofNat_ofLE h, ← h, toLE_ofLE]

theorem ofNat_ofLE_toLE (n : UInt32) : UInt32.ofNat (ofLE (toLE 4 n.toNat)) = n := by
  rw [ofLE_toLE n.toNat_lt, UInt32.ofNat_toNat]

theorem toLE_ofNat_ofLE_eight {l : List UInt8} (h : l.length = 8) :
    toLE 8 (UInt64.ofNat (ofLE l)).toNat = l := by
  have hlt := ofLE_lt l
  rw [h] at hlt
  rw [UInt64.toNat_ofNat_of_lt' hlt, ← h, toLE_ofLE]

theorem ofNat_ofLE_toLE_eight (n : UInt64) : UInt64.ofNat (ofLE (toLE 8 n.toNat)) = n := by
  rw [ofLE_toLE n.toNat_lt, UInt64.ofNat_toNat]

instance {kind : HeaderKind} {R : Type} : ByteValued (Header kind R) where
  byteSize := 12
  byteSize_lt := by decide
  toBytes h := toLE 4 h.request.toNat ++ (toLE 4 h.flags.toNat ++ toLE 4 h.size.toNat)
  ofBytes l := ⟨.ofNat (ofLE (l.take 4)), .ofNat (ofLE ((l.drop 4).take 4)),
    .ofNat (ofLE ((l.drop 4).drop 4))⟩
  length_toBytes := by simp
  ofBytes_toBytes := by
    intro h
    simp [ofNat_ofLE_toLE]
  toBytes_ofBytes := by
    intro l hl
    have htake : (l.take 4).length = 4 := by simp [hl]
    have hmid : ((l.drop 4).take 4).length = 4 := by simp [hl]
    have hdrop : ((l.drop 4).drop 4).length = 4 := by simp [hl]
    rw [toLE_ofNat_ofLE htake, toLE_ofNat_ofLE hmid, toLE_ofNat_ofLE hdrop,
      List.take_append_drop, List.take_append_drop]

namespace Header

variable {kind : HeaderKind} {R : Type}

/-- `VhostUserMsgHeader::new`: the flags that may be set, and the version. -/
def new (request flags size : UInt32) : Header kind R :=
  ⟨request, flags &&& 12 ||| 1, size⟩

variable [Req R]

def getCode (h : Header kind R) : Option R := Req.ofCode h.request

def getVersion (h : Header kind R) : UInt32 := h.flags &&& 3

def isReply (h : Header kind R) : Bool := h.flags &&& 4 ≠ 0

/-- A reply to this request. -/
def isReplyFor [DecidableEq R] (h req : Header kind R) : Bool :=
  match h.getCode, req.getCode with
  | some code, some code' => h.isReply && !req.isReply && code = code'
  | _, _ => false

end Header

instance {R : Type} [Req R] : MsgHeader (VhostUserMsgHeader R) where
  isValid h := h.getCode.isSome && h.size.toNat ≤ 4096 && h.getVersion = 1 && h.flags >>> 4 = 0
  MAX_MSG_SIZE := 4096
  getSize h := h.size
  getSize_le := by
    intro h hvalid
    simp only [Bool.and_eq_true, decide_eq_true_eq] at hvalid
    exact hvalid.1.1.2

instance {R : Type} [Req R] : MsgHeader (VhostUserGpuMsgHeader R) where
  isValid h := h.getCode.isSome && h.flags &&& ~~~4 = 0
  MAX_MSG_SIZE := 2 ^ 32 - 1
  getSize h := h.size
  getSize_le := fun h _ => Nat.le_sub_one_of_lt h.size.toNat_lt

/-- The requests of the frontend: the one that the patches add, and those it is added to, the last
of which is `CHECK_DEVICE_STATE`, with the code 43. -/
inductive FrontendReq
  | GET_SHARED_MEMORY_REGIONS
  | other (code : UInt32) (known : 1 ≤ code ∧ code ≤ 43)
  deriving Repr, DecidableEq

def FrontendReq.code : FrontendReq → UInt32
  | .GET_SHARED_MEMORY_REGIONS => 1004
  | .other code _ => code

instance : Req FrontendReq where
  ofCode code :=
    if code = 1004 then some .GET_SHARED_MEMORY_REGIONS
    else if known : 1 ≤ code ∧ code ≤ 43 then some (.other code known)
    else none

/-- The body that is just a number. -/
structure VhostUserU64 where
  value : UInt64
  deriving Repr, DecidableEq, Inhabited

instance : ByteValued VhostUserU64 where
  byteSize := 8
  byteSize_lt := by decide
  toBytes n := toLE 8 n.value.toNat
  ofBytes l := ⟨.ofNat (ofLE l)⟩
  length_toBytes := by simp
  ofBytes_toBytes := by
    intro n
    rw [ofNat_ofLE_toLE_eight]
  toBytes_ofBytes := by
    intro l hl
    exact toLE_ofNat_ofLE_eight hl

instance : VhostUserMsgValidator VhostUserU64 := ⟨fun _ => true⟩

/-! ## Receiving -/

inductive VhostUserError
  | invalidParam
  | invalidMessage
  | partialMessage
  | disconnected
  | socketBroken (e : Errno)
  | socketError (e : Errno)
  deriving Repr, DecidableEq

inductive Fault
  | err (e : VhostUserError)
  | panic (reason : String)
  deriving Repr, DecidableEq

abbrev Files := Option (List Nat)

/-- What the peer sends: the bytes, how the stream ends if they are not enough (it is closed, or
there is an error), and the files that come with the header and with what follows it. -/
structure Incoming where
  data : List UInt8
  ending : Option Errno
  headerFiles : Files
  bodyFiles : Files

/-- What the patches call and do not change, with what is assumed about it. -/
structure Crate where
  /-- The bytes that there is room for, what is left of the data, and the files. -/
  recvIntoIovecAll (data : List UInt8) (ending : Option Errno) (files : Files) (room : Nat) :
    Except VhostUserError (List UInt8 × List UInt8 × Files)
  /-- The header, its files, and what follows it. -/
  recvHeader (H : Type) [MsgHeader H] (c : Incoming) :
    Except VhostUserError (H × Files × List UInt8)
  /-- The bytes that are written to the socket; the error is one that has made the connection
  unusable before. -/
  sendReplyWithPayload {R : Type} [Req R] {T : Type} [ByteValued T] (error : Option Errno)
    (req : VhostUserMsgHeader R) (msg : T) (payload : List UInt8) :
    Except VhostUserError (List UInt8)
  /-- Only a stream that ends leaves room. -/
  recvIntoIovecAll_ok {data : List UInt8} {ending : Option Errno} {files : Files} {room : Nat}
    {got rest : List UInt8} {files' : Files} :
    recvIntoIovecAll data ending files room = .ok (got, rest, files') →
    data = got ++ rest ∧ (got.length = room ∨ got.length < room ∧ rest = [])
  /-- What there is room for is received, however it arrives. -/
  recvIntoIovecAll_append (got rest : List UInt8) (ending : Option Errno) :
    recvIntoIovecAll (got ++ rest) ending none got.length = .ok (got, rest, none)
  /-- A header that was received is the beginning of the data, and it is valid. -/
  recvHeader_ok {H : Type} [MsgHeader H] {c : Incoming} {hdr : H} {files : Files}
    {rest : List UInt8} : recvHeader H c = .ok (hdr, files, rest) →
    c.data = toBytes hdr ++ rest ∧ isValid hdr
  /-- A valid header that was sent is received, with what follows. -/
  recvHeader_toBytes {H : Type} [MsgHeader H] {hdr : H} (hvalid : isValid hdr)
    (hpos : byteSize H ≠ 0) (rest : List UInt8) (ending : Option Errno) (files bodyFiles : Files) :
    recvHeader H ⟨toBytes hdr ++ rest, ending, files, bodyFiles⟩ = .ok (hdr, files, rest)
  /-- A reply that is not too long is sent with the code of the request and the reply flag. -/
  sendReplyWithPayload_eq {R : Type} [Req R] {T : Type} [ByteValued T] {req : VhostUserMsgHeader R}
    {payload : List UInt8} (hcode : req.getCode.isSome)
    (hfits : byteSize T + payload.length ≤ MAX_MSG_SIZE (VhostUserMsgHeader R)) (msg : T) :
    sendReplyWithPayload none req msg payload =
      .ok (toBytes (Header.new req.request 4 (.ofNat (byteSize T + payload.length)) :
        VhostUserMsgHeader R) ++ (toBytes msg ++ payload))

namespace Crate

/-! There are such functions: for instance those that read and write without a pause. -/

/-- As many bytes as there is room for, or as many as there are. -/
def recvPlain (data : List UInt8) (ending : Option Errno) (files : Files) (room : Nat) :
    Except VhostUserError (List UInt8 × List UInt8 × Files) :=
  if room ≤ data.length then
    .ok (data.take room, data.drop room, if room = 0 then none else files)
  else
    match ending with
    | none => .ok (data, [], if data = [] then none else files)
    | some e => .error (.socketError e)

def recvHeaderPlain (H : Type) [MsgHeader H] (c : Incoming) :
    Except VhostUserError (H × Files × List UInt8) :=
  match recvPlain c.data c.ending c.headerFiles (byteSize H) with
  | .error e => .error e
  | .ok (got, rest, files) =>
    if got = [] then .error .disconnected
    else if got.length ≠ byteSize H then .error .partialMessage
    else if ¬ isValid (ofBytes got : H) then .error .invalidMessage
    else .ok (ofBytes got, files, rest)

def sendReplyPlain {R : Type} [Req R] {T : Type} [ByteValued T] (error : Option Errno)
    (req : VhostUserMsgHeader R) (msg : T) (payload : List UInt8) :
    Except VhostUserError (List UInt8) :=
  if MAX_MSG_SIZE (VhostUserMsgHeader R) < byteSize T + payload.length then .error .invalidParam
  else
    match error with
    | some e => .error (.socketBroken e)
    | none =>
      match req.getCode with
      | none => .error .invalidMessage
      | some _ =>
        .ok (toBytes (Header.new req.request 4 (.ofNat (byteSize T + payload.length)) :
          VhostUserMsgHeader R) ++ (toBytes msg ++ payload))

theorem recvPlain_ok {data got rest : List UInt8} {ending : Option Errno} {files files' : Files}
    {room : Nat} (h : recvPlain data ending files room = .ok (got, rest, files')) :
    data = got ++ rest ∧ (got.length = room ∨ got.length < room ∧ rest = []) := by
  unfold recvPlain at h
  split at h
  · cases h
    exact ⟨(List.take_append_drop _ _).symm, Or.inl (by simpa)⟩
  · rename_i hroom
    split at h
    · cases h
      exact ⟨(List.append_nil _).symm, Or.inr ⟨by omega, rfl⟩⟩
    · cases h

theorem recvPlain_append (got rest : List UInt8) (ending : Option Errno) (files : Files) :
    recvPlain (got ++ rest) ending files got.length =
      .ok (got, rest, if got.length = 0 then none else files) := by
  unfold recvPlain
  rw [if_pos (by simp), List.take_left, List.drop_left]

/-- A crate that meets the assumptions. -/
def plain : Crate where
  recvIntoIovecAll := recvPlain
  recvHeader H := recvHeaderPlain H
  sendReplyWithPayload := sendReplyPlain
  recvIntoIovecAll_ok := recvPlain_ok
  recvIntoIovecAll_append := by
    intro got rest ending
    rw [recvPlain_append, ite_self]
  recvHeader_ok := by
    intro H _ c hdr files rest h
    unfold recvHeaderPlain at h
    split at h
    · cases h
    · rename_i got rest' files' hrecv
      obtain ⟨hdata, -⟩ := recvPlain_ok hrecv
      repeat' split at h
      all_goals cases h
      rename_i hlen hvalid
      rw [toBytes_ofBytes got (not_not.mp hlen)]
      exact ⟨hdata, not_not.mp hvalid⟩
  recvHeader_toBytes := by
    intro H _ hdr hvalid hpos rest ending files bodyFiles
    have hlen := length_toBytes hdr
    have hne : toBytes hdr ≠ [] := fun h => hpos (by rw [← hlen, h]; rfl)
    have hrecv := recvPlain_append (toBytes hdr) rest ending files
    rw [hlen, if_neg hpos] at hrecv
    simp only [recvHeaderPlain, hrecv, if_neg hne, hlen, ne_eq, not_true_eq_false, if_false,
      ofBytes_toBytes, hvalid]
  sendReplyWithPayload_eq := by
    intro R _ T _ req payload hcode hfits msg
    obtain ⟨code, hcode⟩ := Option.isSome_iff_exists.mp hcode
    simp only [sendReplyPlain, if_neg (Nat.not_lt.mpr hfits), hcode]

end Crate

/-- Subtraction in `usize`: without overflow checks it wraps. -/
def usizeSub (overflowChecks : Bool) (a b : Nat) : Except Fault Nat :=
  if b ≤ a then .ok (a - b)
  else if overflowChecks then .error (.panic "attempt to subtract with overflow")
  else .ok (2 ^ 64 + a - b)

/-- What is in a buffer after these bytes have been received into it. -/
def fill (buf got : List UInt8) : List UInt8 := got.take buf.length ++ buf.drop got.length

/-- The result, and how much memory has been allocated for the payload. -/
structure Received (H T : Type) where
  allocated : Nat
  result : Except Fault (H × T × List UInt8 × Files)

section

variable (crate : Crate) (H T : Type) [MsgHeader H] [ByteValued T] [VhostUserMsgValidator T]
  [Inhabited T]

/-- The rest of `recv_payload_into_buf`, with its buffer. -/
def recvIntoBuf (hdr : H) (files : Files) (rest : List UInt8) (ending : Option Errno)
    (bodyFiles : Files) (payloadSize : Nat) : Except Fault (H × T × List UInt8 × Files) :=
  match crate.recvIntoIovecAll rest ending bodyFiles (byteSize T + payloadSize) with
  | .error e => .error (.err e)
  | .ok (got, _, moreFiles) =>
    let body : T := ofBytes (fill (toBytes (default : T)) got)
    let buf := fill (List.replicate payloadSize 0) (got.drop (byteSize T))
    if got.length < (getSize hdr).toNat then .error (.err .partialMessage)
    else if ¬ isValid body ∨ moreFiles.isSome then .error (.err .invalidMessage)
    else .ok (hdr, body, buf, files)

def recvPayloadIntoBuf (overflowChecks : Bool) (c : Incoming) : Received H T :=
  match crate.recvHeader H c with
  | .error e => ⟨0, .error (.err e)⟩
  | .ok (hdr, files, rest) =>
    match usizeSub overflowChecks (getSize hdr).toNat (byteSize T) with
    | .error f => ⟨0, .error f⟩
    | .ok payloadSize =>
      -- A vector has at most `isize::MAX` bytes.
      if 2 ^ 63 ≤ payloadSize then ⟨0, .error (.panic "capacity overflow")⟩
      else ⟨payloadSize, recvIntoBuf crate H T hdr files rest c.ending c.bodyFiles payloadSize⟩

end

/-- `recv_reply_with_payload`, with the error that has made the connection unusable before. -/
def recvReplyWithPayload (crate : Crate) {R : Type} [Req R] [DecidableEq R] (T : Type)
    [ByteValued T] [VhostUserMsgValidator T] [Inhabited T] (overflowChecks : Bool)
    (error : Option Errno) (hdr : VhostUserMsgHeader R) (c : Incoming) :
    Except Fault (T × List UInt8 × Files) :=
  if MAX_MSG_SIZE (VhostUserMsgHeader R) < byteSize T ∨ hdr.isReply then .error (.err .invalidParam)
  else
    match error with
    | some e => .error (.err (.socketBroken e))
    | none =>
      match (recvPayloadIntoBuf crate (VhostUserMsgHeader R) T overflowChecks c).result with
      | .error f => .error f
      | .ok (reply, body, buf, files) =>
        if ¬ reply.isReplyFor hdr ∨ files.isSome ∨ ¬ isValid body then
          .error (.err .invalidMessage)
        else .ok (body, buf, files)

/-! ## Safety -/

/-- Nothing panics, no more is allocated than a message may have, and what is returned are the bytes
that follow the header, as many as it says. -/
structure Safe (H T : Type) [MsgHeader H] [ByteValued T] (c : Incoming) (r : Received H T) :
    Prop where
  noPanic : ∀ reason, r.result ≠ .error (.panic reason)
  bounded : r.allocated ≤ MAX_MSG_SIZE H
  exact : ∀ hdr body buf files, r.result = .ok (hdr, body, buf, files) →
    (toBytes body).length = byteSize T ∧
    byteSize T + buf.length = (getSize hdr).toNat ∧
    c.data.take (byteSize H + (getSize hdr).toNat) = toBytes hdr ++ (toBytes body ++ buf)

section

variable {crate : Crate} {H T : Type} [MsgHeader H] [ByteValued T] [VhostUserMsgValidator T]
  [Inhabited T]

theorem fill_eq {buf got : List UInt8} (h : buf.length ≤ got.length) :
    fill buf got = got.take buf.length := by
  rw [fill, List.drop_eq_nil_of_le h, List.append_nil]

/-- **With the right length of the payload, body and payload are what follows the header.** -/
theorem recvIntoBuf_cases (hdr : H) (files bodyFiles : Files) (rest : List UInt8)
    (ending : Option Errno) {payloadSize : Nat}
    (hsize : byteSize T + payloadSize = (getSize hdr).toNat) :
    (∃ e, recvIntoBuf crate H T hdr files rest ending bodyFiles payloadSize = .error (.err e)) ∨
    ∃ (body : T) (buf after : List UInt8),
      recvIntoBuf crate H T hdr files rest ending bodyFiles payloadSize =
        .ok (hdr, body, buf, files) ∧
      buf.length = payloadSize ∧ rest = toBytes body ++ (buf ++ after) := by
  unfold recvIntoBuf
  cases hrecv : crate.recvIntoIovecAll rest ending bodyFiles (byteSize T + payloadSize) with
  | error e => exact Or.inl ⟨e, rfl⟩
  | ok r =>
    obtain ⟨got, after, moreFiles⟩ := r
    obtain ⟨hrest, hlen⟩ := crate.recvIntoIovecAll_ok hrecv
    dsimp only
    by_cases hshort : got.length < (getSize hdr).toNat
    · exact Or.inl ⟨_, if_pos hshort⟩
    · rw [if_neg hshort]
      split
      · exact Or.inl ⟨_, rfl⟩
      · have hgot : got.length = byteSize T + payloadSize := by omega
        have hbody : fill (toBytes (default : T)) got = got.take (byteSize T) := by
          rw [fill_eq (by rw [length_toBytes]; omega), length_toBytes]
        have hbuf : fill (List.replicate payloadSize 0) (got.drop (byteSize T)) =
            got.drop (byteSize T) := by
          rw [fill_eq (by simp; omega), List.take_of_length_le (by simp; omega)]
        refine Or.inr ⟨_, _, after, rfl, ?_, ?_⟩
        · rw [hbuf, List.length_drop]
          omega
        · rw [hbody, toBytes_ofBytes _ (by simp; omega), hbuf, ← List.append_assoc,
            List.take_append_drop, hrest]

/-- A length below the size of the body makes the subtraction overflow, and that is a panic with and
without checks. -/
theorem recvPayloadIntoBuf_short (overflowChecks : Bool) {c : Incoming} {hdr : H} {files : Files}
    {rest : List UInt8} (hhdr : crate.recvHeader H c = .ok (hdr, files, rest))
    (hshort : (getSize hdr).toNat < byteSize T) :
    recvPayloadIntoBuf crate H T overflowChecks c = ⟨0, .error (.panic
      (if overflowChecks then "attempt to subtract with overflow" else "capacity overflow"))⟩ := by
  have hlt := byteSize_lt (T := T)
  simp only [recvPayloadIntoBuf, hhdr, usizeSub, if_neg (Nat.not_le.mpr hshort)]
  cases overflowChecks with
  | true => rfl
  | false =>
    simp only [Bool.false_eq_true, if_false]
    rw [if_pos (by omega)]

/-- Otherwise the payload gets a buffer of the length that is left. -/
theorem recvPayloadIntoBuf_of_le (overflowChecks : Bool) {c : Incoming} {hdr : H} {files : Files}
    {rest : List UInt8} (hhdr : crate.recvHeader H c = .ok (hdr, files, rest))
    (hle : byteSize T ≤ (getSize hdr).toNat) :
    recvPayloadIntoBuf crate H T overflowChecks c =
      ⟨(getSize hdr).toNat - byteSize T, recvIntoBuf crate H T hdr files rest c.ending c.bodyFiles
        ((getSize hdr).toNat - byteSize T)⟩ := by
  have hsize := (getSize hdr).toNat_lt
  simp only [recvPayloadIntoBuf, hhdr, usizeSub, if_pos hle]
  rw [if_neg (by omega)]

/-- What receiving can come to: an error, a panic where the header has less than the size of the
body, or the message as it was sent. -/
inductive Outcome (crate : Crate) (c : Incoming) : Received H T → Prop
  | failed {n : Nat} {e : VhostUserError} (hn : n ≤ MAX_MSG_SIZE H)
      (hsize : ∀ hdr files rest, crate.recvHeader H c = .ok (hdr, files, rest) →
        byteSize T ≤ (getSize hdr).toNat) : Outcome crate c ⟨n, .error (.err e)⟩
  | short {hdr : H} {files : Files} {rest : List UInt8} {reason : String}
      (hhdr : crate.recvHeader H c = .ok (hdr, files, rest))
      (hshort : (getSize hdr).toNat < byteSize T) :
      Outcome crate c ⟨0, .error (.panic reason)⟩
  | received {hdr : H} {files : Files} {rest after buf : List UInt8} {body : T}
      (hhdr : crate.recvHeader H c = .ok (hdr, files, rest)) (hvalid : isValid hdr)
      (hsize : byteSize T + buf.length = (getSize hdr).toNat)
      (hdata : c.data = toBytes hdr ++ (toBytes body ++ (buf ++ after))) :
      Outcome crate c ⟨buf.length, .ok (hdr, body, buf, files)⟩

theorem recvPayloadIntoBuf_outcome (crate : Crate) (overflowChecks : Bool) (c : Incoming) :
    Outcome crate c (recvPayloadIntoBuf crate H T overflowChecks c) := by
  cases hhdr : crate.recvHeader H c with
  | error e =>
    simp only [recvPayloadIntoBuf, hhdr]
    apply Outcome.failed (Nat.zero_le _)
    intro hdr files rest h
    rw [hhdr] at h
    cases h
  | ok r =>
    obtain ⟨hdr, files, rest⟩ := r
    obtain ⟨hdata, hvalid⟩ := crate.recvHeader_ok hhdr
    by_cases hle : byteSize T ≤ (getSize hdr).toNat
    · have hmax := getSize_le hdr hvalid
      have hpayload : byteSize T + ((getSize hdr).toNat - byteSize T) = (getSize hdr).toNat := by
        omega
      rw [recvPayloadIntoBuf_of_le overflowChecks hhdr hle]
      rcases recvIntoBuf_cases (T := T) hdr files c.bodyFiles rest c.ending hpayload with
        ⟨e, hr⟩ | ⟨body, buf, after, hr, hbuf, hrest⟩
      · rw [hr]
        apply Outcome.failed (by omega)
        intro hdr' files' rest' h
        rw [hhdr] at h
        cases h
        exact hle
      · rw [hr, ← hbuf]
        exact .received hhdr hvalid (by omega) (by rw [hdata, hrest])
    · rw [recvPayloadIntoBuf_short overflowChecks hhdr (Nat.not_le.mp hle)]
      exact .short hhdr (Nat.not_le.mp hle)

/-- **Receiving a message is safe exactly if its header has at least the size of the body.** -/
theorem recvPayloadIntoBuf_safe_iff (crate : Crate) (overflowChecks : Bool) (c : Incoming) :
    Safe H T c (recvPayloadIntoBuf crate H T overflowChecks c) ↔
      ∀ hdr files rest, crate.recvHeader H c = .ok (hdr, files, rest) →
        byteSize T ≤ (getSize hdr).toNat := by
  have houtcome := recvPayloadIntoBuf_outcome (H := H) (T := T) crate overflowChecks c
  generalize recvPayloadIntoBuf crate H T overflowChecks c = r at houtcome ⊢
  cases houtcome with
  | failed hn hsize => exact ⟨fun _ => hsize, fun _ => ⟨nofun, hn, nofun⟩⟩
  | @short hdr files rest reason hhdr hshort =>
    constructor
    · intro h
      exact absurd rfl (h.noPanic reason)
    · intro h
      exact absurd (h hdr files rest hhdr) (Nat.not_le.mpr hshort)
  | @received hdr files rest after buf body hhdr hvalid hsize hdata =>
    have hmax := getSize_le hdr hvalid
    constructor
    · intro _ hdr' files' rest' h
      rw [hhdr] at h
      cases h
      omega
    · intro _
      refine ⟨nofun, by dsimp only; omega, ?_⟩
      intro hdr' body' buf' files' heq
      cases heq
      have hall : c.data = (toBytes hdr ++ (toBytes body ++ buf)) ++ after := by
        simp only [hdata, List.append_assoc]
      refine ⟨length_toBytes body, hsize, ?_⟩
      rw [hall]
      apply List.take_left'
      simp only [List.length_append, length_toBytes, hsize]

end

/-- A backend replies with a valid header, a length of zero, and nothing else. -/
theorem recvPayloadIntoBuf_empty_reply :
    let hdr : VhostUserMsgHeader FrontendReq := ⟨1004, 5, 0⟩
    let c : Incoming := ⟨toBytes hdr ++ [], none, none, none⟩
    Crate.plain.recvHeader (VhostUserMsgHeader FrontendReq) c = .ok (hdr, none, []) ∧
      ∀ (crate : Crate) (overflowChecks : Bool), ∃ reason,
        (recvPayloadIntoBuf crate (VhostUserMsgHeader FrontendReq) VhostUserU64 overflowChecks
          c).result = .error (.panic reason) := by
  intro hdr c
  have hhdr : ∀ crate : Crate,
      crate.recvHeader (VhostUserMsgHeader FrontendReq) c = .ok (hdr, none, []) :=
    fun crate => crate.recvHeader_toBytes (by decide) (by decide) [] none none none
  refine ⟨hhdr _, fun crate overflowChecks => ?_⟩
  have hshort : (getSize hdr).toNat < byteSize VhostUserU64 := by decide
  exact ⟨_, congrArg Received.result (recvPayloadIntoBuf_short overflowChecks (hhdr crate) hshort)⟩

/-- A frontend that waits for a reply panics exactly if the reply is shorter than its body. -/
theorem recvReplyWithPayload_panics_iff (crate : Crate) {R : Type} [Req R] [DecidableEq R]
    {T : Type} [ByteValued T] [VhostUserMsgValidator T] [Inhabited T] (overflowChecks : Bool)
    (error : Option Errno) (hdr : VhostUserMsgHeader R) (c : Incoming) :
    (∃ reason, recvReplyWithPayload crate T overflowChecks error hdr c = .error (.panic reason)) ↔
      ¬ (MAX_MSG_SIZE (VhostUserMsgHeader R) < byteSize T ∨ hdr.isReply) ∧ error = none ∧
      ∃ reply files rest, crate.recvHeader (VhostUserMsgHeader R) c = .ok (reply, files, rest) ∧
        (getSize reply).toNat < byteSize T := by
  unfold recvReplyWithPayload
  by_cases hparam : MAX_MSG_SIZE (VhostUserMsgHeader R) < byteSize T ∨ hdr.isReply
  · simp [hparam]
  · rw [if_neg hparam]
    cases error with
    | some e => simp
    | none =>
      simp only [hparam, not_false_eq_true, true_and]
      have houtcome :=
        recvPayloadIntoBuf_outcome (H := VhostUserMsgHeader R) (T := T) crate overflowChecks c
      generalize recvPayloadIntoBuf crate (VhostUserMsgHeader R) T overflowChecks c = r
        at houtcome ⊢
      cases houtcome with
      | failed hn hsize =>
        apply iff_of_false
        · simp
        · intro h
          obtain ⟨reply, files, rest, hhdr, hshort⟩ := h
          exact Nat.not_le.mpr hshort (hsize reply files rest hhdr)
      | @short reply files rest reason hhdr hshort =>
        exact iff_of_true ⟨reason, rfl⟩ ⟨reply, files, rest, hhdr, hshort⟩
      | @received reply files rest after buf body hhdr hvalid hsize hdata =>
        apply iff_of_false
        · intro h
          obtain ⟨reason, h⟩ := h
          dsimp only at h
          split at h <;> cases h
        · intro h
          obtain ⟨reply', files', rest', hhdr', hshort⟩ := h
          rw [hhdr] at hhdr'
          cases hhdr'
          omega

/-! ## Replies -/

theorem isValid_iff {R : Type} [Req R] (hdr : VhostUserMsgHeader R) :
    isValid hdr ↔ hdr.getCode.isSome ∧ hdr.size.toNat ≤ 4096 ∧ hdr.getVersion = 1 ∧
      hdr.flags >>> 4 = 0 := by
  simp [isValid, and_assoc]

theorem isReplyFor_iff {kind : HeaderKind} {R : Type} [Req R] [DecidableEq R]
    (hdr req : Header kind R) :
    hdr.isReplyFor req ↔
      ∃ code, hdr.getCode = some code ∧ req.getCode = some code ∧ hdr.isReply ∧ ¬ req.isReply := by
  unfold Header.isReplyFor
  cases hdr.getCode with
  | none => simp
  | some code =>
    cases req.getCode with
    | none => simp
    | some code' =>
      simp only [Bool.and_eq_true, Bool.not_eq_true', decide_eq_true_eq, Option.some.injEq,
        Bool.not_eq_true]
      constructor
      · intro h
        exact ⟨code, rfl, h.2.symm, h.1⟩
      · intro h
        obtain ⟨_, rfl, rfl, hreply⟩ := h
        exact ⟨hreply, rfl⟩

section

variable {crate : Crate} {R : Type} [Req R] [DecidableEq R] {T : Type} [ByteValued T]
  [VhostUserMsgValidator T] [Inhabited T]

/-- A body and a payload that follow a header of the right size are received. -/
theorem recvIntoBuf_toBytes (crate : Crate) {H : Type} [MsgHeader H] {hdr : H} {body : T}
    {payload : List UInt8} (hsize : byteSize T + payload.length = (getSize hdr).toNat)
    (hvalid : isValid body) (after : List UInt8) (ending : Option Errno) (files : Files) :
    recvIntoBuf crate H T hdr files (toBytes body ++ (payload ++ after)) ending none
        payload.length = .ok (hdr, body, payload, files) := by
  have hlen := length_toBytes body
  have hall : (toBytes body ++ payload).length = byteSize T + payload.length := by simp [hlen]
  have hrecv := crate.recvIntoIovecAll_append (toBytes body ++ payload) after ending
  rw [List.append_assoc, hall] at hrecv
  have hbody : fill (toBytes (default : T)) (toBytes body ++ payload) = toBytes body := by
    rw [fill_eq (by simp [length_toBytes]), length_toBytes, List.take_left' hlen]
  have hbuf : fill (List.replicate payload.length 0) ((toBytes body ++ payload).drop (byteSize T)) =
      payload := by
    rw [List.drop_left' hlen, fill_eq (by simp), List.length_replicate, List.take_length]
  simp only [recvIntoBuf, hrecv, hbody, hbuf, ofBytes_toBytes]
  rw [if_neg (by omega), if_neg (by simp [hvalid])]

/-- **A reply that fits the request is received as it was sent**, whatever follows it. -/
theorem recvReplyWithPayload_toBytes (crate : Crate) (overflowChecks : Bool)
    {hdr reply : VhostUserMsgHeader R} {body : T} {payload : List UInt8}
    (hreq : hdr.isReply = false) (hreply : reply.isReplyFor hdr) (hhdr : isValid reply)
    (hbody : isValid body) (hsize : byteSize T + payload.length = (getSize reply).toNat)
    (after : List UInt8) (ending : Option Errno) :
    recvReplyWithPayload crate T overflowChecks none hdr
        ⟨toBytes reply ++ (toBytes body ++ (payload ++ after)), ending, none, none⟩ =
      .ok (body, payload, none) := by
  have hmax := getSize_le reply hhdr
  have hpos : byteSize (VhostUserMsgHeader R) ≠ 0 := Nat.succ_ne_zero 11
  have hrecv := crate.recvHeader_toBytes hhdr hpos
    (toBytes body ++ (payload ++ after)) ending none none
  have hpayload : (getSize reply).toNat - byteSize T = payload.length := by omega
  unfold recvReplyWithPayload
  rw [if_neg (by simp [hreq]; omega)]
  dsimp only
  rw [recvPayloadIntoBuf_of_le overflowChecks hrecv (by omega)]
  dsimp only
  rw [hpayload, recvIntoBuf_toBytes crate hsize hbody]
  dsimp only
  rw [if_neg (by simp [hreply, hbody])]

/-- **What is received was sent**: a header that fits the request, the body and the payload. -/
theorem recvReplyWithPayload_ok {overflowChecks : Bool} {error : Option Errno}
    {hdr : VhostUserMsgHeader R} {c : Incoming} {body : T} {payload : List UInt8} {files : Files}
    (h : recvReplyWithPayload crate T overflowChecks error hdr c = .ok (body, payload, files)) :
    files = none ∧ ∃ (reply : VhostUserMsgHeader R) (after : List UInt8),
      c.data = toBytes reply ++ (toBytes body ++ (payload ++ after)) ∧ isValid reply ∧
      reply.isReplyFor hdr ∧ byteSize T + payload.length = (getSize reply).toNat := by
  unfold recvReplyWithPayload at h
  split at h
  · cases h
  · cases error with
    | some e => cases h
    | none =>
      dsimp only at h
      have houtcome :=
        recvPayloadIntoBuf_outcome (H := VhostUserMsgHeader R) (T := T) crate overflowChecks c
      generalize recvPayloadIntoBuf crate (VhostUserMsgHeader R) T overflowChecks c = r
        at houtcome h
      cases houtcome with
      | failed hn hsize => cases h
      | short hhdr hshort => cases h
      | @received reply files' rest after buf body' hhdr hvalid hsize hdata =>
        dsimp only at h
        split at h
        · cases h
        · rename_i hok
          cases h
          obtain ⟨hreply, hfiles, -⟩ := not_or.mp hok |>.imp_right not_or.mp
          exact ⟨by simpa using hfiles, reply, after, hdata, hvalid, not_not.mp hreply, hsize⟩

end

end Spectrum.VhostUser
