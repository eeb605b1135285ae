import Spectrum.Interact.Numeral
import Spectrum.Portal.Socket

/-!
# `xdg-desktop-portal-spectrum.c`

The program D-Bus activation starts in the guest. It finds the port of the guest's bus in the
address it was started with, connects to the host, agrees on a version of the protocol, and tells
the host the port and where the host's files appear in the guest. The host then connects to the bus
itself, and says how that went.

**Its exit status is truthful if the address has a vsock entry and the host does not hang up.**
Without such an entry `main` ends without having done anything, and with status 0; and where the
host closes the connection, `read` leaves the variable it should have set as it was.
-/

set_option autoImplicit false

namespace Spectrum.Portal

open Interact Bytes Numeral

/-! ## The code -/

/-- An entry of a parsed D-Bus address. -/
structure AddressEntry where
  method : List UInt8
  values : List (List UInt8 × CString)
  deriving DecidableEq

/-- What `parse_u32` returns and leaves behind. -/
structure Parsed where
  ret : Int
  errno : Errno
  v : BitVec 32
  deriving Repr, DecidableEq

/-- `parse_u32`, for a string or a null pointer; `v` is what `*v` holds before. -/
def parseU32 (s : Option CString) (v : BitVec 32) : Parsed :=
  match s with
  | none => ⟨-1, EINVAL, v⟩
  | some s =>
    if ¬ isDigit (CString.deref s.bytes) then ⟨-1, EINVAL, v⟩
    else
      let r := strtol 64 s.bytes
      let errno := if r.range then ERANGE else 0
      let v := BitVec.ofInt 32 r.number
      if errno ≠ 0 then ⟨-1, errno, v⟩
      else if CString.deref r.rest ≠ 0 then ⟨-1, EINVAL, v⟩
      else ⟨0, errno, v⟩

/-- `err` and `errx`. The description of `errno` that `err` adds to the text is left out. -/
def err {α : Type} (text : String) : Prog Call α := do
  Prog.lift (.msg text)
  exitWith 1

/-- `write_all`, which writes at least once, even nothing. -/
def cWriteAll (bytes : List UInt8) : Prog Call Int :=
  .loop bytes (fun rest => .write .conn rest)
    (fun rest r =>
      match r with
      | .ok n => if rest.drop n ≠ [] then some (rest.drop n) else none
      | .error _ => none)
    (fun _ r =>
      match r with
      | .ok _ => .ret 0
      | .error _ => .ret (-1))

/-- The destination of a `read` of one byte, which keeps its value at the end of the stream. -/
def readInto (old : UInt8) (bytes : List UInt8) : UInt8 := bytes.headD old

/-- The versions offered are `[1]` in the source; `junk` is what `version` contains before it is
written to. -/
def connectToHost (versions : List UInt8) (junk : UInt8) : Prog Call Unit := do
  match ← Prog.lift .socket with
  | some _ => err "creating vsock socket"
  | none =>
    match ← Prog.lift (.connect .conn) with
    | some _ => err "connecting to cid 2 port 219"
    | none =>
      if (← cWriteAll (UInt8.ofNat versions.length :: versions)) = -1 then
        err "writing handshake to vsock socket"
      else
        match ← Prog.lift (.read .conn 1) with
        | .error _ => err "reading handshake version"
        | .ok bytes =>
          if readInto junk bytes ≠ 1 then
            err s!"unexpected protocol version {(readInto junk bytes).toInt8.toInt}"
          else
            return ()

/-- `htonl`, as the bytes it leaves in memory. -/
def htonl (n : Nat) : List UInt8 := toBE 4 n

def sendInfo (port : BitVec 32) (fsRootDir : List UInt8) : Prog Call Unit := do
  if (← cWriteAll (htonl port.toNat)) = -1 then
    err "writing port to vsock socket"
  else if (← cWriteAll (htonl fsRootDir.length)) = -1 then
    err "writing fs root length to vsock socket"
  else if (← cWriteAll fsRootDir) = -1 then
    err "writing fs root to vsock socket"
  else
    return ()

def checkResult (junk : UInt8) : Prog Call Unit := do
  match ← Prog.lift (.read .conn 1) with
  | .error _ => err "reading result"
  | .ok bytes =>
    if readInto junk bytes ≠ 0 then
      err s!"host sent bad result: {(readInto junk bytes).toInt8.toInt}"
    else
      return ()

/-- What the stack contains where `version`, `r` and `port` are. -/
structure Junk where
  version : UInt8
  result : UInt8
  port : BitVec 32

/-- The loop over the entries, which ends at the first one for vsock. -/
def tryEntries (addr : String) (fsRootDir : List UInt8) (junk : Junk) :
    List AddressEntry → Prog Call Unit
  | [] => return ()
  | entry :: entries =>
    if entry.method ≠ ascii ['v', 's', 'o', 'c', 'k'] then
      tryEntries addr fsRootDir junk entries
    else
      match entry.values.lookup (ascii ['p', 'o', 'r', 't']) with
      | none => err s!"missing vsock port in D-Bus address '{addr}'"
      | some portStr =>
        let parsed := parseU32 (some portStr) junk.port
        if parsed.ret = -1 then err "D-Bus address vsock port"
        else do
          connectToHost [1] junk.version
          sendInfo parsed.v fsRootDir
          checkResult junk.result

/-- `address` is the value of `DBUS_STARTER_ADDRESS`, if it is set, with what `dbus_parse_address`
makes of it. At its end, `main` returns 0. -/
def guestMain (address : Option (String × Except String (List AddressEntry)))
    (fsRootDir : List UInt8) (junk : Junk) : Prog Call Unit := do
  match address with
  | none => err "DBUS_STARTER_ADDRESS not set"
  | some (addr, .error message) => err s!"parsing D-Bus address '{addr}': {message}"
  | some (addr, .ok entries) =>
    tryEntries addr fsRootDir junk entries
    exitWith 0

/-! ## What the guest has to have done -/

/-- The number that was parsed, if there was one. -/
def Parsed.number? (p : Parsed) : Option (BitVec 32) := if p.ret = -1 then none else some p.v

/-- It does not depend on what was there before. -/
theorem number?_parseU32 (s : Option CString) (v v' : BitVec 32) :
    (parseU32 s v).number? = (parseU32 s v').number? := by
  unfold parseU32
  split
  · rfl
  · split <;> rfl

/-- The port in the first vsock entry. -/
def vsockPort (entries : List AddressEntry) : Option (BitVec 32) :=
  match entries.find? fun entry => entry.method = ascii ['v', 's', 'o', 'c', 'k'] with
  | none => none
  | some entry => (parseU32 (entry.values.lookup (ascii ['p', 'o', 'r', 't'])) 0).number?

/-- What `send_info` sends. -/
def info (port : BitVec 32) (fsRootDir : List UInt8) : List UInt8 :=
  htonl port.toNat ++ htonl fsRootDir.length ++ fsRootDir

def sends (chunks : List (List UInt8)) : List Event := chunks.map (.sent .conn)

/-- One run of the protocol: the guest has connected and offered its versions, got `v`, sent its
information and got `r`. -/
def Session (versions : List UInt8) (port : BitVec 32) (fsRootDir : List UInt8) (v r : Event)
    (trace : List Event) : Prop :=
  ∃ offer answer : List (List UInt8),
    trace = .connected .conn :: (sends offer ++ v :: (sends answer ++ [r])) ∧
      offer.flatten = UInt8.ofNat versions.length :: versions ∧
      answer.flatten = info port fsRootDir

/-- What status 0 says: the host has chosen version 1, been told everything, and succeeded. -/
def Truthful (address : Option (String × Except String (List AddressEntry)))
    (fsRootDir : List UInt8) (trace : List Event) : Prop :=
  ∃ addr entries port, address = some (addr, .ok entries) ∧ vsockPort entries = some port ∧
    Session [1] port fsRootDir (.got .conn [1]) (.got .conn [0]) trace

def HasVsock (address : Option (String × Except String (List AddressEntry))) : Prop :=
  ∃ addr entries, address = some (addr, .ok entries) ∧
    ∃ entry ∈ entries, entry.method = ascii ['v', 's', 'o', 'c', 'k']

/-! ## The functions -/

namespace Log

def sends (w : Log) (chunks : List (List UInt8)) : Log :=
  { w with trace := w.trace ++ Portal.sends chunks }

end Log

section

variable {H : Log → Prop} {α : Type}

theorem wp_err (hfail : ∀ w : Log, H (w.ends (.exited 1))) {text : String} {Q : α → Log → Prop}
    {w : Log} : (err text).wp (logSpec H) Q w :=
  ⟨trivial, fun _ w' _ => ⟨hfail w', fun b => b.elim⟩⟩

/-- However the bytes are split, all of them are sent. -/
theorem wp_cWriteAll {bytes : List UInt8} {Q : Int → Log → Prop} {w : Log}
    (hbad : ∀ w', Q (-1) w') (hgood : ∀ chunks, chunks.flatten = bytes → Q 0 (w.sends chunks)) :
    (cWriteAll bytes).wp (logSpec H) Q w := by
  refine Prog.wp_loop (fun rest y => ∃ chunks, y = w.sends chunks ∧ chunks.flatten ++ rest = bytes)
    ⟨[], by simp [Log.sends, sends], rfl⟩ ?_
  rintro rest _ ⟨chunks, rfl, hchunks⟩
  refine ⟨trivial, fun r y hr => ?_⟩
  cases r with
  | error e => exact ⟨nofun, fun _ => hbad y⟩
  | ok n =>
    obtain ⟨-, rfl⟩ := hr
    have hsent : (w.sends chunks).add (.sent .conn (rest.take n)) =
        w.sends (chunks ++ [rest.take n]) := by
      simp [Log.sends, Log.add, sends]
    have hsplit : (chunks ++ [rest.take n]).flatten ++ rest.drop n = bytes := by
      simpa using hchunks
    rw [hsent]
    refine ⟨fun rest' h => ?_, fun h => ?_⟩
    · dsimp only at h
      split at h
      · cases h
        exact ⟨_, rfl, hsplit⟩
      · cases h
    · have hend : rest.drop n = [] := by
        by_contra hne
        simp [hne] at h
      exact hgood _ (by simpa [hend] using hsplit)

theorem wp_connectToHost (hfail : ∀ w : Log, H (w.ends (.exited 1))) {versions : List UInt8}
    {junk : UInt8} {Q : Unit → Log → Prop} {w : Log}
    (hgood : ∀ offer v, offer.flatten = UInt8.ofNat versions.length :: versions →
      v = .got .conn [1] ∨ v = .eof .conn → Q () (((w.add (.connected .conn)).sends offer).add v)) :
    (connectToHost versions junk).wp (logSpec H) Q w := by
  refine ⟨trivial, ?_⟩
  rintro r _ rfl
  cases r with
  | some e => exact wp_err hfail
  | none =>
    refine ⟨trivial, ?_⟩
    rintro r _ rfl
    cases r with
    | some e => exact wp_err hfail
    | none =>
      change ((cWriteAll _).bind _).wp _ _ _
      refine Prog.wp_bind.mpr (wp_cWriteAll (fun w' => ?_) fun offer hoffer => ?_)
      · exact wp_err hfail
      · refine ⟨trivial, fun r y hr => ?_⟩
        cases r with
        | error e => exact wp_err hfail
        | ok bytes =>
          obtain ⟨hlen, rfl⟩ := hr
          change (ite _ _ _ : Prog Call Unit).wp _ _ _
          split
          · exact wp_err hfail
          · next hv =>
            refine hgood offer _ hoffer ?_
            match bytes, hlen with
            | [], _ => exact Or.inr rfl
            | [b], _ => exact Or.inl (by simp [show b = 1 from not_not.mp hv])

theorem wp_sendInfo (hfail : ∀ w : Log, H (w.ends (.exited 1))) {port : BitVec 32}
    {fsRootDir : List UInt8} {Q : Unit → Log → Prop} {w : Log}
    (hgood : ∀ answer, answer.flatten = info port fsRootDir → Q () (w.sends answer)) :
    (sendInfo port fsRootDir).wp (logSpec H) Q w := by
  have hsends : ∀ (w : Log) (a b : List (List UInt8)), (w.sends a).sends b = w.sends (a ++ b) := by
    intro w a b
    simp [Log.sends, sends]
  refine Prog.wp_bind.mpr (wp_cWriteAll (fun w' => wp_err hfail) fun a ha => ?_)
  refine Prog.wp_bind.mpr (wp_cWriteAll (fun w' => wp_err hfail) fun b hb => ?_)
  refine Prog.wp_bind.mpr (wp_cWriteAll (fun w' => wp_err hfail) fun c hc => ?_)
  rw [hsends, hsends]
  exact hgood _ (by simp [ha, hb, hc, info])

theorem wp_checkResult (hfail : ∀ w : Log, H (w.ends (.exited 1))) {junk : UInt8}
    {Q : Unit → Log → Prop} {w : Log}
    (hgood : ∀ r, r = .got .conn [0] ∨ r = .eof .conn → Q () (w.add r)) :
    (checkResult junk).wp (logSpec H) Q w := by
  refine ⟨trivial, fun r y hr => ?_⟩
  cases r with
  | error e => exact wp_err hfail
  | ok bytes =>
    obtain ⟨hlen, rfl⟩ := hr
    change (ite _ _ _ : Prog Call Unit).wp _ _ _
    split
    · exact wp_err hfail
    · next hv =>
      refine hgood _ ?_
      match bytes, hlen with
      | [], _ => exact Or.inr rfl
      | [b], _ => exact Or.inl (by simp [show b = 0 from not_not.mp hv])

/-- The loop ends after a session for the first vsock entry, or having done nothing. -/
theorem wp_tryEntries (hfail : ∀ w : Log, H (w.ends (.exited 1))) {addr : String}
    {fsRootDir : List UInt8} {junk : Junk} {entries : List AddressEntry} :
    (tryEntries addr fsRootDir junk entries).wp (logSpec H) (fun _ w =>
      ((∀ entry ∈ entries, entry.method ≠ ascii ['v', 's', 'o', 'c', 'k']) ∧ w = .empty) ∨
      ((∃ entry ∈ entries, entry.method = ascii ['v', 's', 'o', 'c', 'k']) ∧
        ∃ port v r, vsockPort entries = some port ∧
          (v = .got .conn [1] ∨ v = .eof .conn) ∧ (r = .got .conn [0] ∨ r = .eof .conn) ∧
          Session [1] port fsRootDir v r w.trace)) .empty := by
  induction entries with
  | nil => exact Or.inl ⟨nofun, rfl⟩
  | cons entry entries ih =>
    unfold tryEntries
    by_cases hm : entry.method = ascii ['v', 's', 'o', 'c', 'k']
    · rw [if_neg (not_not.mpr hm)]
      cases hport : entry.values.lookup (ascii ['p', 'o', 'r', 't']) with
      | none => exact wp_err hfail
      | some portStr =>
        dsimp only
        split
        · exact wp_err hfail
        · rename_i hret
          have hvsock : vsockPort (entry :: entries) =
              some (parseU32 (some portStr) junk.port).v := by
            simp only [vsockPort, hm, hport, List.find?_cons, decide_true]
            rw [number?_parseU32 _ 0 junk.port, Parsed.number?, if_neg hret]
          refine Prog.wp_bind.mpr (wp_connectToHost hfail fun offer v hoffer hv => ?_)
          refine Prog.wp_bind.mpr (wp_sendInfo hfail fun answer hanswer => ?_)
          refine wp_checkResult hfail fun r hr => Or.inr ⟨⟨entry, List.mem_cons_self, hm⟩, _, v,
            r, hvsock, hv, hr, offer, answer, ?_, hoffer, hanswer⟩
          simp [Log.add, Log.sends, Log.empty]
    · rw [if_pos hm]
      refine Prog.wp_mono (fun _ w h => ?_) ih
      rcases h with ⟨hnone, hw⟩ | ⟨⟨e, he, hem⟩, port, v, r, hport, hrest⟩
      · exact Or.inl ⟨List.forall_mem_cons.mpr ⟨hm, hnone⟩, hw⟩
      · refine Or.inr ⟨⟨e, List.mem_cons_of_mem _ he, hem⟩, port, v, r, ?_, hrest⟩
        simpa [vsockPort, hm] using hport

end

/-! ## The exit status -/

theorem Session.no_eof {versions : List UInt8} {port : BitVec 32} {fsRootDir : List UInt8}
    {v r : Event} {trace : List Event} (h : Session versions port fsRootDir v r trace) :
    .eof .conn ∉ trace ↔ v ≠ .eof .conn ∧ r ≠ .eof .conn := by
  obtain ⟨offer, answer, rfl, -, -⟩ := h
  have hsends : ∀ chunks, .eof .conn ∉ sends chunks := by simp [sends]
  simp [hsends, eq_comm]

/-- A session that ended well, up to the end of the stream, is truthful if there was no such end. -/
theorem Session.truthful_iff {address : Option (String × Except String (List AddressEntry))}
    {addr : String} {entries : List AddressEntry} (haddress : address = some (addr, .ok entries))
    (hentry : ∃ entry ∈ entries, entry.method = ascii ['v', 's', 'o', 'c', 'k'])
    {port : BitVec 32} (hport : vsockPort entries = some port) {fsRootDir : List UInt8}
    {v r : Event} (hv : v = .got .conn [1] ∨ v = .eof .conn)
    (hr : r = .got .conn [0] ∨ r = .eof .conn)
    {trace : List Event} (h : Session [1] port fsRootDir v r trace) :
    Truthful address fsRootDir trace ↔ HasVsock address ∧ .eof .conn ∉ trace := by
  constructor
  · rintro ⟨addr', entries', port', -, -, h'⟩
    exact ⟨⟨addr, entries, haddress, hentry⟩, h'.no_eof.mpr ⟨nofun, nofun⟩⟩
  · rintro ⟨-, heof⟩
    obtain ⟨hv', hr'⟩ := h.no_eof.mp heof
    obtain rfl := hv.resolve_right hv'
    obtain rfl := hr.resolve_right hr'
    exact ⟨addr, entries, port, haddress, hport, h⟩

/-- **When status 0 is truthful.** -/
theorem guestMain_truthful_iff {address : Option (String × Except String (List AddressEntry))}
    {fsRootDir : List UInt8} {junk : Junk} {chs : List Choice} {w : Log}
    (hrun : kernel.run () (guestMain address fsRootDir junk) .empty chs = .halted w)
    (hzero : w.ended = some (.exited 0)) :
    Truthful address fsRootDir w.trace ↔ HasVsock address ∧ .eof .conn ∉ w.trace := by
  suffices hwp : (guestMain address fsRootDir junk).wp (logSpec fun w =>
      w.ended = some (.exited 0) →
        (Truthful address fsRootDir w.trace ↔ HasVsock address ∧ .eof .conn ∉ w.trace))
      (fun _ _ => True) .empty by
    have hmeets := run_meets (fun _ => nofun) hwp chs
    rw [hrun] at hmeets
    exact hmeets hzero
  match address with
  | none => exact wp_err fun _ => nofun
  | some (addr, .error message) => exact wp_err fun _ => nofun
  | some (addr, .ok entries) =>
    refine Prog.wp_seq (wp_tryEntries fun _ => nofun) fun _ w hw => ⟨fun _ => ?_, fun b => b.elim⟩
    rcases hw with ⟨hnone, rfl⟩ | ⟨hentry, port, v, r, hport, hv, hr, hsession⟩
    · -- Nothing has been done, and nothing claims that it was.
      constructor
      · rintro ⟨addr', entries', port, -, -, offer, answer, htrace, -⟩
        cases htrace
      · rintro ⟨⟨addr', entries', he, entry, hm, hvsock⟩, -⟩
        cases he
        exact absurd hvsock (hnone entry hm)
    · exact hsession.truthful_iff rfl hentry hport hv hr

/-- The address `vsock:port=7`. -/
def vsockAddress : Option (String × Except String (List AddressEntry)) :=
  some ("vsock:port=7", .ok [⟨ascii ['v', 's', 'o', 'c', 'k'],
    [(ascii ['p', 'o', 'r', 't'], ⟨ascii ['7'], by decide⟩)]⟩])

theorem guestMain_truthful_split :
    ∃ w, kernel.run () (guestMain vsockAddress [47, 104] ⟨0xAA, 0xAA, 0xAAAA⟩) .empty
        [.ok, .ok, .count 1, .count 1, .bytes [1], .count 4, .count 3, .count 1, .count 2,
          .bytes [0], .ok] = .halted w ∧
      Truthful vsockAddress [47, 104] w.trace := by
  have hrun : ∃ w, kernel.run () (guestMain vsockAddress [47, 104] ⟨0xAA, 0xAA, 0xAAAA⟩) .empty
        [.ok, .ok, .count 1, .count 1, .bytes [1], .count 4, .count 3, .count 1, .count 2,
          .bytes [0], .ok] = .halted w ∧ w.ended = some (.exited 0) ∧ .eof .conn ∉ w.trace :=
    ⟨_, rfl, rfl, by decide⟩
  obtain ⟨w, hrun, hzero, heof⟩ := hrun
  exact ⟨w, hrun, (guestMain_truthful_iff hrun hzero).mpr
    ⟨⟨_, _, rfl, _, List.mem_cons_self, rfl⟩, heof⟩⟩

/-- Status 0 without a vsock entry; and when the host hangs up, with the right values left on the
stack. -/
theorem guestMain_status_untruthful :
    (∃ w, kernel.run () (guestMain (some ("unix:", .ok [⟨ascii ['u', 'n', 'i', 'x'], []⟩]))
        [47, 104] ⟨0xAA, 0xAA, 0xAAAA⟩) .empty [.ok] = .halted w ∧ w.ended = some (.exited 0) ∧
      ¬ Truthful (some ("unix:", .ok [⟨ascii ['u', 'n', 'i', 'x'], []⟩])) [47, 104] w.trace) ∧
    (∃ w, kernel.run () (guestMain vsockAddress [47, 104] ⟨1, 0, 0⟩) .empty
        [.ok, .ok, .count 2, .bytes [], .count 4, .count 4, .count 2, .bytes [], .ok] = .halted w ∧
      w.ended = some (.exited 0) ∧ ¬ Truthful vsockAddress [47, 104] w.trace) := by
  refine ⟨⟨_, rfl, rfl, ?_⟩, ⟨_, rfl, rfl, ?_⟩⟩
  · rintro ⟨addr, entries, port, he, hport, -⟩
    cases he
    cases hport
  · rintro ⟨addr, entries, port, -, -, h⟩
    exact absurd (h.no_eof.mpr ⟨nofun, nofun⟩) (by decide)

end Spectrum.Portal
