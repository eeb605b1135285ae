import Spectrum.Dbus.Socket
import Spectrum.Portal.Port

/-!
# Listening and connecting

`_dbus_listen_vsock` makes a listening socket and prints the name it got;
`_dbus_server_new_for_vsock` makes a server of it, whose address says that name and which keeps the
list of CIDs that may connect. `_dbus_connect_vsock` is the other side.

**A server's address is the name of its socket** (`serverNewForVsock_runs`), and nothing that fails
leaves a socket open. There is one exception to each. The name is not asked for again if both halves
of it were given, so if `port=4294967295` was given, which is any port, the address has that number
where the socket has another. And if libdbus makes no server of the socket, for want of memory or
for another reason, the code stores the list through a null pointer.

A client that is given the address asks to be connected to that name, and the portal, which reads
only the port and reads it with `strtol`, reports the port of the socket (`address_reaches`).
-/

set_option autoImplicit false

namespace Spectrum.Dbus

open Interact Bytes Numeral

/-! ## The code -/

variable (lib : Lib)

def noMemory : DBusError := ⟨.noMemory, []⟩

/-- The socket is closed, and the caller gets an error. -/
def closing {α : Type} (fd : Int) (e : DBusError) : Prog Call (Except DBusError α) := do
  Prog.lift (.close fd)
  return .error e

/-- So many allocations, as far as they succeed. -/
def allocate : Nat → Prog Call Bool
  | 0 => return true
  | k + 1 => do
    if ← Prog.lift .memory then allocate k else return false

/-- The name that `_dbus_listen_vsock` asks for. -/
def wanted (cid port : Option CString) : Except DBusError SockaddrVm := do
  let cid ← match cid with
    | none => .ok vmaddrAny
    | some cid => vsockParseCid lib cid
  let port ← match port with
    | none => .ok vmaddrAny
    | some port => vsockParsePort lib port
  return ⟨cid, port⟩

def numbers (sa : SockaddrVm) (between : String) : List UInt8 :=
  decimal sa.cid.toNat ++ text between ++ decimal sa.port.toNat

/-- `_dbus_listen_vsock`, with what it appends to `retcid` and `retport`. -/
def listenVsock (cid port : Option CString) :
    Prog Call (Except DBusError (Nat × List UInt8 × List UInt8)) := do
  match wanted lib cid port with
  | .error e => return .error e
  | .ok sa =>
    match ← Prog.lift .openSocket with
    | .error e => return .error e
    | .ok fd =>
      match ← Prog.lift (.bind fd sa) with
      | some e =>
        closing fd ⟨.fromErrno e, text "Failed to bind VSOCK socket of CID:" ++
          numbers sa ": port:" ++ text ": " ++ lib.strerror e⟩
      | none =>
        match ← Prog.lift (.setNonblocking fd) with
        | some e => closing fd e
        | none =>
          match ← Prog.lift (.listen fd 30) with
          | some e =>
            closing fd ⟨.fromErrno e, text "Failed to listen on VSOCK socket of CID:" ++
              numbers sa " port:" ++ text ": " ++ lib.strerror e⟩
          | none =>
            match ← (if port = none ∨ cid = none then Prog.lift (.getsockname fd)
              else pure (.ok sa)) with
            | .error e =>
              closing fd ⟨.fromErrno e,
                text "Failed to retrieve VSOCK socket name: " ++ lib.strerror e⟩
            | .ok sa =>
              if ← allocate 2 then
                return .ok (fd, decimal sa.cid.toNat, decimal sa.port.toNat)
              else closing fd noMemory

/-- What is of interest about a `DBusServerSocket`. -/
structure Server where
  fd : Nat
  address : List UInt8
  allowCids : List (BitVec 32)
  nAllowCids : Nat

/-- `_dbus_server_new_for_vsock`. Where the listening socket is not open or belongs to the server,
`listen_fd` is `-1` by the time it is closed. -/
def serverNewForVsock (cid port allow : Option CString) : Prog Call (Except DBusError Server) := do
  let memory ← (if allow = none then pure true else Prog.lift .memory)
  match vsockParseCidList lib memory allow with
  | .fault => crash
  | .error e => closing (-1) e
  | .ok allowCids nAllowCids =>
    if ← allocate 3 then
      match ← listenVsock lib cid port with
      | .error e => closing (-1) e
      | .ok (fd, cidStr, portStr) =>
        if ← allocate 4 then
          let address := text "vsock:cid=" ++ cidStr ++ text ",port=" ++ portStr
          match ← Prog.lift (.serverNewForSocket fd address) with
          | none =>
            Prog.lift (.close (-1))
            return .ok ⟨fd, address, allowCids, nAllowCids⟩
          -- `server_socket->n_allow_cids` is stored although there is no server.
          | some _ => crash
        else closing fd noMemory
    else closing (-1) noMemory

/-- `_dbus_connect_vsock`. -/
def connectVsock (cid port : CString) : Prog Call (Except DBusError Nat) := do
  match wanted lib (some cid) (some port) with
  | .error e => return .error e
  | .ok sa =>
    match ← Prog.lift .openSocket with
    | .error e => return .error e
    | .ok fd =>
      match ← Prog.lift (.connect fd sa) with
      | some e =>
        closing fd ⟨.fromErrno e, text "Failed to connect to vsock CID:" ++ cid.bytes ++
          text " port:" ++ port.bytes ++ text ": " ++ lib.strerror e⟩
      | none =>
        match ← Prog.lift (.setNonblocking fd) with
        | some e => closing fd e
        | none => return .ok fd

/-- `_dbus_transport_new_for_vsock`: the socket of the transport, and its address. -/
def transportNewForVsock (cid port : CString) :
    Prog Call (Except DBusError (Nat × List UInt8)) := do
  if ← allocate 2 then
    let address := text "vsock:cid=" ++ cid.bytes ++ text ",port=" ++ port.bytes
    match ← connectVsock lib cid port with
    | .error e => closing (-1) e
    | .ok fd =>
      if ← Prog.lift (.transportNewForSocket fd address) then
        Prog.lift (.close (-1))
        return .ok (fd, address)
      else closing fd noMemory
  else closing (-1) noMemory

inductive OpenResult
  | badAddress (e : DBusError)
  | didNotConnect (e : DBusError)
  | ok (fd : Nat) (address : List UInt8)

/-- `_dbus_transport_open_platform_specific`, for an entry with the method `vsock`. -/
def transportOpen (cid port : Option CString) : Prog Call OpenResult := do
  match cid with
  | none => return .badAddress ⟨.badAddress, text "Missing vsock CID to connect to"⟩
  | some cid =>
    match port with
    | none => return .badAddress ⟨.badAddress, text "Missing vsock port to connect to"⟩
    | some port =>
      match ← transportNewForVsock lib cid port with
      | .error e => return .didNotConnect e
      | .ok (fd, address) => return .ok fd address

/-! ## Sockets -/

section Triples

variable {lib}

/-- The sockets and connections are as before. -/
structure Same (w w' : World) : Prop where
  socks : w'.socks = w.socks
  clients : w'.clients = w.clients
  hungUp : w'.hungUp = w.hungUp
  nameless : w'.nameless = w.nameless

theorem Same.refl (w : World) : Same w w := ⟨rfl, rfl, rfl, rfl⟩

theorem Same.trans {w w₁ w₂ : World} (h : Same w w₁) (h₁ : Same w₁ w₂) : Same w w₂ :=
  ⟨h₁.socks.trans h.socks, h₁.clients.trans h.clients, h₁.hungUp.trans h.hungUp,
    h₁.nameless.trans h.nameless⟩

theorem same_starve (w : World) : Same w w.starve := ⟨rfl, rfl, rfl, rfl⟩

theorem Same.set {w w' : World} (h : Same w w') (fd : Nat) (s : Option Sock) :
    Same (w.set fd s) (w'.set fd s) := by
  refine ⟨?_, h.clients, h.hungUp, h.nameless⟩
  simp only [World.set, h.socks]

theorem set_set (w : World) (fd : Nat) (s s' : Option Sock) :
    (w.set fd s).set fd s' = w.set fd s' := by
  simp only [World.set, Function.update_idem]

theorem set_socks (w : World) (fd : Nat) (s : Option Sock) : (w.set fd s).socks fd = s :=
  Function.update_self ..

/-- A socket that is made and closed again is gone, and nobody was at its other end. -/
theorem same_close {w w' : World} {fd : Nat} {s : Sock} (hfree : w.socks fd = none)
    (hpeer : s.peer = none) (h : Same (w.set fd (some s)) w') : Same w (w'.close fd) := by
  have hsock : w'.socks fd = some s := by
    rw [h.socks, set_socks]
  refine ⟨?_, h.clients, ?_, h.nameless⟩
  · show Function.update w'.socks fd none = w.socks
    rw [h.socks]
    show Function.update (Function.update w.socks fd (some s)) fd none = w.socks
    rw [Function.update_idem, ← hfree, Function.update_eq_self]
  · show w'.hungUp ++ (w'.peerOf (.ofNat fd)).toList = w.hungUp
    rw [World.peerOf, hsock, Option.bind_some, hpeer, h.hungUp]
    exact List.append_nil _

variable {α : Type} {w : World} {reason : World → Prop}

theorem wp_closing {fd : Int} {e : DBusError} {Q : Except DBusError α → World → Prop}
    (h : Q (.error e) (w.close fd)) : (closing fd e).wp (sockSpec reason) Q w := by
  refine ⟨trivial, ?_⟩
  rintro _ _ rfl
  exact h

theorem wp_allocate {k : Nat} {Q : Bool → World → Prop} (htrue : Q true w)
    (hfalse : Q false w.starve) : (allocate k).wp (sockSpec reason) Q w := by
  induction k with
  | zero => exact htrue
  | succ k ih =>
    refine ⟨trivial, ?_⟩
    intro b w' hb
    obtain rfl : w' = if b then w else w.starve := hb
    cases b with
    | true => exact ih
    | false => exact hfalse

/-- What is printed of a socket that asks for `sa` and is called `name`. -/
def shown (cid port : Option CString) (sa name : SockaddrVm) : SockaddrVm :=
  if port = none ∨ cid = none then name else sa

/-- A listening socket called `name`, and nothing else. -/
structure Listens (lib : Lib) (cid port : Option CString) (fd : Nat) (printed : SockaddrVm)
    (w w' : World) : Prop where
  intro ::
  free : w.socks fd = none
  socket : ∃ sa port', wanted lib cid port = .ok sa ∧ printed = shown cid port sa (sa.given port') ∧
    Same (w.set fd (some ⟨some (sa.given port'), none⟩)) w'

def Listened (lib : Lib) (cid port : Option CString) (w : World) :
    Except DBusError (Nat × List UInt8 × List UInt8) → World → Prop
  | .error _, w' => Same w w'
  | .ok (fd, cidStr, portStr), w' => ∃ sa : SockaddrVm, Listens lib cid port fd sa w w' ∧
      cidStr = decimal sa.cid.toNat ∧ portStr = decimal sa.port.toNat

theorem wp_listenVsock {cid port : Option CString} :
    (listenVsock lib cid port).wp (sockSpec reason) (Listened lib cid port w) w := by
  unfold listenVsock
  cases hwanted : wanted lib cid port with
  | error e => exact Same.refl w
  | ok sa =>
    refine ⟨trivial, ?_⟩
    intro b w₁ hb
    cases b with
    | error e =>
      obtain rfl : w₁ = w := hb
      exact Same.refl w₁
    | ok fd =>
      obtain ⟨hfree, rfl⟩ := hb
      have hclose : ∀ {s : Sock} {w' : World}, s.peer = none → Same (w.set fd (some s)) w' →
          Same w (w'.close fd) := fun hpeer h => same_close hfree hpeer h
      refine ⟨trivial, ?_⟩
      intro b w₂ hb
      cases b with
      | some e =>
        obtain rfl : w₂ = _ := hb
        exact wp_closing (hclose rfl (Same.refl _))
      | none =>
        obtain ⟨s, port', hs, rfl⟩ := hb
        rw [set_socks] at hs
        cases hs
        rw [set_set]
        refine ⟨trivial, ?_⟩
        intro b w₃ hb
        obtain rfl : w₃ = _ := hb
        cases b with
        | some e => exact wp_closing (hclose rfl (Same.refl _))
        | none =>
          refine ⟨trivial, ?_⟩
          intro b w₄ hb
          obtain rfl : w₄ = _ := hb
          cases b with
          | some e => exact wp_closing (hclose rfl (Same.refl _))
          | none =>
            -- Both ways the number printed is the one that `shown` says.
            have hprint : ∀ printed, printed = shown cid port sa (sa.given port') →
                ((allocate 2).bind fun b =>
                  if b = true then
                    pure (.ok (fd, decimal printed.cid.toNat, decimal printed.port.toNat))
                  else closing fd noMemory).wp (sockSpec reason) (Listened lib cid port w)
                  (w.set fd (some ⟨some (sa.given port'), none⟩)) := by
              intro printed hprinted
              refine Prog.wp_bind.mpr (wp_allocate ?_ ?_)
              · exact ⟨printed, ⟨hfree, sa, port', hwanted, hprinted, Same.refl _⟩, rfl, rfl⟩
              · exact wp_closing (hclose rfl (same_starve _))
            by_cases hask : port = none ∨ cid = none
            · rw [if_pos hask]
              refine ⟨trivial, ?_⟩
              intro b w₅ hb
              cases b with
              | error e =>
                obtain rfl : w₅ = _ := hb
                exact wp_closing (hclose rfl (Same.refl _))
              | ok name =>
                obtain ⟨hname, rfl⟩ := hb
                rw [set_socks] at hname
                cases hname
                exact hprint _ (by rw [shown, if_pos hask])
            · rw [if_neg hask]
              exact hprint _ (by rw [shown, if_neg hask])

/-- A server and the name its address has, and nothing else. -/
def Serves (lib : Lib) (cid port allow : Option CString) (server : Server) (w w' : World) : Prop :=
  ∃ sa : SockaddrVm, Listens lib cid port server.fd sa w w' ∧
    server.address = text "vsock:cid=" ++ numbers sa ",port=" ∧
    vsockParseCidList lib true allow = .ok server.allowCids server.nAllowCids

def Served (lib : Lib) (cid port allow : Option CString) (w : World) :
    Except DBusError Server → World → Prop
  | .error _, w' => Same w w'
  | .ok server, w' => Serves lib cid port allow server w w'

theorem Listens.same {cid port : Option CString} {fd : Nat} {printed : SockaddrVm}
    {w₁ w₂ : World} (h : Listens lib cid port fd printed w w₁) (h' : Same w₁ w₂) :
    Listens lib cid port fd printed w w₂ := by
  obtain ⟨hfree, sa, port', hwanted, hprinted, hsame⟩ := h
  exact ⟨hfree, sa, port', hwanted, hprinted, hsame.trans h'⟩

theorem Listens.close {cid port : Option CString} {fd : Nat} {printed : SockaddrVm} {w' : World}
    (h : Listens lib cid port fd printed w w') : Same w (w'.close fd) := by
  obtain ⟨hfree, sa, port', -, -, hsame⟩ := h
  exact same_close hfree rfl hsame

theorem Listens.of_same {cid port : Option CString} {fd : Nat} {printed : SockaddrVm}
    {w₁ w₂ : World} (h : Listens lib cid port fd printed w₁ w₂) (h' : Same w w₁) :
    Listens lib cid port fd printed w w₂ := by
  obtain ⟨hfree, sa, port', hwanted, hprinted, hsame⟩ := h
  exact ⟨h'.socks ▸ hfree, sa, port', hwanted, hprinted, (h'.set _ _).trans hsame⟩

theorem wp_listMemory {allow : Option CString} :
    (if allow = none then pure true else Prog.lift .memory : Prog Call Bool).wp (sockSpec reason)
      (fun memory w' => Same w w' ∧ (memory = false → w'.starved = true)) w := by
  split
  · exact ⟨Same.refl w, by simp⟩
  · refine ⟨trivial, ?_⟩
    intro b w' hb
    obtain rfl : w' = if b then w else w.starve := hb
    cases b with
    | true => exact ⟨Same.refl w, by simp⟩
    | false => exact ⟨same_starve w, fun _ => rfl⟩

theorem wp_serverNewForVsock {cid port allow : Option CString} :
    (serverNewForVsock lib cid port allow).wp (sockSpec World.Faulted)
      (Served lib cid port allow w) w := by
  unfold serverNewForVsock
  refine Prog.wp_seq wp_listMemory ?_
  rintro memory w₁ ⟨hsame, hmemory⟩
  have hlist : vsockParseCidList lib memory allow = .fault → memory = false := by
    intro hfault
    cases memory with
    | false => rfl
    | true =>
      cases allow with
      | none => cases hfault
      | some list => exact absurd hfault (vsockParseCidList_reads list).1
  split
  · rename_i hfault
    exact ⟨.inl (hmemory (hlist hfault)), fun b => b.elim⟩
  · exact wp_closing hsame
  · rename_i allowCids nAllowCids hok
    have hcids : vsockParseCidList lib true allow = .ok allowCids nAllowCids := by
      cases memory with
      | true => exact hok
      | false =>
        cases allow with
        | none => exact hok
        | some list => exact vsockParseCidList_starved hok
    have hstrings : (allocate 3).wp (sockSpec World.Faulted) (fun _ w' => Same w w') w₁ :=
      wp_allocate hsame (hsame.trans (same_starve _))
    refine Prog.wp_seq hstrings ?_
    intro b w₂ hsame
    cases b with
    | false => exact wp_closing hsame
    | true =>
      refine Prog.wp_seq wp_listenVsock ?_
      intro r w₃ hr
      cases r with
      | error e => exact wp_closing (hsame.trans hr)
      | ok printed =>
        obtain ⟨fd, cidStr, portStr⟩ := printed
        obtain ⟨sa, hlistens, rfl, rfl⟩ := hr
        replace hlistens := hlistens.of_same hsame
        have hpieces : (allocate 4).wp (sockSpec World.Faulted)
            (fun _ w' => Listens lib cid port fd sa w w') w₃ :=
          wp_allocate hlistens (hlistens.same (same_starve _))
        refine Prog.wp_seq hpieces ?_
        intro b w₄ hlistens
        cases b with
        | false => exact wp_closing hlistens.close
        | true =>
          refine ⟨trivial, ?_⟩
          intro b w₅ hb
          cases b with
          | some e =>
            obtain rfl : w₅ = { w₄ with unserved := true } := hb
            exact ⟨.inr rfl, fun b => b.elim⟩
          | none =>
            obtain rfl : w₅ = w₄ := hb
            refine ⟨trivial, ?_⟩
            rintro _ _ rfl
            exact ⟨sa, hlistens, by simp [numbers], hcids⟩

/-! ## The other side -/

/-- A socket that is connected to `sa`, and no other new one. -/
def Connects (sa : SockaddrVm) (fd : Nat) (w w' : World) : Prop :=
  w.socks fd = none ∧ w'.socks = Function.update w.socks fd (some ⟨none, some sa⟩)

theorem Connects.close {sa : SockaddrVm} {fd : Nat} {w w' : World} (h : Connects sa fd w w') :
    (w'.close fd).socks = w.socks := by
  obtain ⟨hfree, hsocks⟩ := h
  show Function.update w'.socks fd none = w.socks
  rw [hsocks, Function.update_idem, ← hfree, Function.update_eq_self]

def Connected (sa : SockaddrVm) (w : World) : Except DBusError Nat → World → Prop
  | .error _, w' => w'.socks = w.socks
  | .ok fd, w' => Connects sa fd w w'

theorem wp_connectVsock {cid port : CString} {sa : SockaddrVm}
    (hwanted : wanted lib (some cid) (some port) = .ok sa) :
    (connectVsock lib cid port).wp (sockSpec reason) (Connected sa w) w := by
  unfold connectVsock
  rw [hwanted]
  refine ⟨trivial, ?_⟩
  intro b w₁ hb
  cases b with
  | error e =>
    obtain rfl : w₁ = w := hb
    exact rfl
  | ok fd =>
    obtain ⟨hfree, rfl⟩ := hb
    refine ⟨trivial, ?_⟩
    intro b w₂ hb
    cases b with
    | some e =>
      obtain rfl : w₂ = _ := hb
      exact wp_closing (same_close hfree rfl (Same.refl _)).socks
    | none =>
      obtain ⟨s, hs, rfl⟩ := hb
      rw [set_socks] at hs
      cases hs
      rw [set_set]
      have hconnects : Connects sa fd w (w.set fd (some ⟨none, some sa⟩)) := ⟨hfree, rfl⟩
      refine ⟨trivial, ?_⟩
      intro b w₃ hb
      obtain rfl : w₃ = _ := hb
      cases b with
      | some e => exact wp_closing hconnects.close
      | none => exact hconnects

/-- What a client says it is connected to. -/
def clientAddress (cid port : CString) : List UInt8 :=
  text "vsock:cid=" ++ cid.bytes ++ text ",port=" ++ port.bytes

def Transported (sa : SockaddrVm) (cid port : CString) (w : World) :
    Except DBusError (Nat × List UInt8) → World → Prop
  | .error _, w' => w'.socks = w.socks
  | .ok (fd, address), w' => Connects sa fd w w' ∧ address = clientAddress cid port

theorem wp_transportNewForVsock {cid port : CString} {sa : SockaddrVm}
    (hwanted : wanted lib (some cid) (some port) = .ok sa) :
    (transportNewForVsock lib cid port).wp (sockSpec reason)
      (Transported sa cid port w) w := by
  unfold transportNewForVsock
  have hstrings : (allocate 2).wp (sockSpec reason) (fun _ w' => w'.socks = w.socks) w :=
    wp_allocate rfl rfl
  refine Prog.wp_seq hstrings ?_
  intro b w₁ hsocks
  cases b with
  | false => exact wp_closing hsocks
  | true =>
    refine Prog.wp_seq (wp_connectVsock hwanted) ?_
    intro r w₂ hr
    cases r with
    | error e => exact wp_closing (Eq.trans hr hsocks)
    | ok fd =>
      have hconnects : Connects sa fd w w₂ := by
        obtain ⟨hfree, hsocks₂⟩ := hr
        rw [hsocks] at hfree hsocks₂
        exact ⟨hfree, hsocks₂⟩
      refine ⟨trivial, ?_⟩
      intro b w₃ hb
      obtain rfl : w₃ = w₂ := hb
      cases b with
      | false => exact wp_closing hconnects.close
      | true =>
        refine ⟨trivial, ?_⟩
        rintro _ _ rfl
        exact ⟨hconnects, rfl⟩

/-- What a client gets that is given `cid` and `port`, and that a socket can be called `sa`. -/
def Opened (sa : SockaddrVm) (cid port : CString) (w : World) : OpenResult → World → Prop
  | .badAddress _, _ => False
  | .didNotConnect _, w' => w'.socks = w.socks
  | .ok fd address, w' => Connects sa fd w w' ∧ address = clientAddress cid port

theorem wp_transportOpen {cid port : CString} {sa : SockaddrVm}
    (hwanted : wanted lib (some cid) (some port) = .ok sa) :
    (transportOpen lib (some cid) (some port)).wp (sockSpec reason)
      (Opened sa cid port w) w := by
  unfold transportOpen
  refine Prog.wp_seq (wp_transportNewForVsock hwanted) ?_
  intro r w₁ hr
  cases r with
  | error e => exact hr
  | ok made => exact hr

end Triples

/-! ## Addresses -/

/-- What is printed can be read again. -/
def decimalString (n : Nat) : CString where
  bytes := decimal n
  noNul h := by
    have hdigit := isDigit_of_mem_decimal h
    revert hdigit
    decide

theorem vsockParse_decimal (what : String) (n : BitVec 32) :
    vsockParse lib what (decimalString n.toNat) = .ok n := by
  have hlt := n.isLt
  have hread : lib.strtoul.read (decimal n.toNat) = ⟨n.toNat, [], false⟩ :=
    lib.strtoul.read_decimal (by omega)
  have hlen : (decimal n.toNat).length ≠ 0 := by
    rw [ne_eq, List.length_eq_zero_iff]
    exact (isNumeral_decimal _).1
  have hparse : lib.stringParseUint (decimal n.toNat) 0 =
      some (n.toNat, (decimal n.toNat).length) := by
    simp only [lib.stringParseUint_eq, List.drop_zero, hread]
    rw [if_neg (by simpa using hlen.symm)]
    simp
  simp only [vsockParse, decimalString, hparse]
  rw [if_neg (by rw [uint32Max]; omega), BitVec.ofNat_toNat, BitVec.setWidth_eq]

theorem wanted_decimal (sa : SockaddrVm) :
    wanted lib (some (decimalString sa.cid.toNat)) (some (decimalString sa.port.toNat)) =
      .ok sa := by
  simp only [wanted, vsockParseCid, vsockParsePort, vsockParse_decimal]
  rfl

/-- The entry of an address that names `sa`. -/
def vsockEntry (sa : SockaddrVm) : Portal.AddressEntry where
  method := text "vsock"
  values := [(text "cid", decimalString sa.cid.toNat),
    (text "port", decimalString sa.port.toNat)]

/-- An entry as it is written, if nothing in it has to be escaped. -/
def render (entry : Portal.AddressEntry) : List UInt8 :=
  entry.method ++ text ":" ++
    (text ",").intercalate (entry.values.map fun kv => kv.1 ++ text "=" ++ kv.2.bytes)

/-- **The portal reports the port it finds in the address.** -/
theorem tryEntries_vsockEntry (sa : SockaddrVm) (addr : String) (root : List UInt8)
    (junk : Portal.Junk) :
    Portal.tryEntries addr root junk [vsockEntry sa] =
      Portal.guestSession [1] junk sa.port root := by
  have hlt := sa.port.isLt
  have hlookup : (vsockEntry sa).values.lookup (ascii ['p', 'o', 'r', 't']) =
      some (decimalString sa.port.toNat) := rfl
  have hvalue : value (decimalString sa.port.toNat).bytes = sa.port.toNat := value_decimal _
  refine Portal.tryEntries_vsock rfl hlookup ?_
  rw [Portal.Port.number?_of_fits (isNumeral_decimal _) (by omega), hvalue, BitVec.ofNat_toNat,
    BitVec.setWidth_eq]

theorem shown_eq {cid port : Option CString} {sa : SockaddrVm} {port' : BitVec 32}
    (h : cid = none ∨ port = none ∨ sa.port ≠ vmaddrAny) :
    shown cid port sa (sa.given port') = sa.given port' := by
  unfold shown
  split
  · rfl
  · rename_i hboth
    rw [not_or] at hboth
    have hport : sa.port ≠ vmaddrAny := (h.resolve_left hboth.2).resolve_left hboth.1
    rw [SockaddrVm.given, if_neg hport]

/-- The address of a server says the name of its socket, and it is read as that name: a client that
is given it asks to be connected to `name` and to nothing else, and the portal reports its port. If
the CID is `VMADDR_CID_ANY` then the name is not that of a place a client can connect to, and the
port is what is of use. -/
structure Reaches (lib : Lib) (server : Server) (w : World) (name : SockaddrVm) : Prop where
  named : (w.socks server.fd).bind Sock.name = some name
  address : server.address = render (vsockEntry name)
  client : ∀ v chs,
    (kernel.run () (transportOpen lib (some (decimalString name.cid.toNat))
      (some (decimalString name.port.toNat))) v chs).Meets
      (Opened name (decimalString name.cid.toNat) (decimalString name.port.toNat) v)
      fun _ => False
  portal : ∀ addr root junk, Portal.tryEntries addr root junk [vsockEntry name] =
    Portal.guestSession [1] junk name.port root

theorem Serves.reaches {cid port allow : Option CString} {server : Server} {w w' : World}
    (h : Serves lib cid port allow server w w')
    (hport : ∀ sa, wanted lib cid port = .ok sa → cid = none ∨ port = none ∨ sa.port ≠ vmaddrAny) :
    ∃ name, Reaches lib server w' name := by
  obtain ⟨printed, ⟨-, sa, port', hwanted, rfl, hsame⟩, haddress, -⟩ := h
  rw [shown_eq (hport sa hwanted)] at haddress
  refine ⟨sa.given port', ?_, ?_, ?_, tryEntries_vsockEntry _⟩
  · rw [hsame.socks, set_socks]
    rfl
  · rw [haddress]
    simp [render, vsockEntry, decimalString, numbers, text, ascii]
  · intro v chs
    exact run_meets (wp_transportOpen (wanted_decimal _ _)) chs

/-- **Every run of `_dbus_server_new_for_vsock`.** If it returns a server then there is one new
socket, the address says the name that was asked for or the one the kernel gave, and the list is the
one that `allow` says. If it returns an error then no socket is left and nothing else has changed.
And if it crashes then an allocation has failed or libdbus has made no server of the socket. -/
theorem serverNewForVsock_runs (lib : Lib) (cid port allow : Option CString) (w : World)
    (chs : List Choice) :
    (kernel.run () (serverNewForVsock lib cid port allow) w chs).Meets
      (Served lib cid port allow w) World.Faulted :=
  run_meets wp_serverNewForVsock chs

/-- There is memory for a server, and it is not made for another reason. -/
example :
    let w : World := ⟨fun _ => none, [], [], false, false, false⟩
    let chs : List Choice := [.ok, .ok, .ok, .fd 5, .port 1234, .ok, .ok, .ok, .ok, .ok, .ok, .ok,
      .ok, .ok]
    ∃ w', kernel.run () (serverNewForVsock .plain none none none) w
      (chs ++ [.failWith ⟨.badAddress, []⟩, .ok]) = .halted w' := ⟨_, rfl⟩

/-- **An address says where the server is**, unless any port was asked for by its number: it is
the name of the socket, clients ask for that name, and the portal reports its port. -/
theorem address_reaches (lib : Lib) {cid port allow : Option CString} {w w' : World}
    {chs : List Choice} {server : Server}
    (h : kernel.run () (serverNewForVsock lib cid port allow) w chs =
      .returned (.ok server) w')
    (hport : ∀ sa, wanted lib cid port = .ok sa → cid = none ∨ port = none ∨ sa.port ≠ vmaddrAny) :
    ∃ name, Reaches lib server w' name := by
  have hmeets : (kernel.run () (serverNewForVsock lib cid port allow) w chs).Meets
      (Served lib cid port allow w) World.Faulted :=
    run_meets wp_serverNewForVsock chs
  rw [h] at hmeets
  exact Serves.reaches lib hmeets hport

/-- The address `vsock:`, which is that of the bus in a VM. -/
theorem address_reaches_any :
    let w : World := ⟨fun _ => none, [], [], false, false, false⟩
    let chs : List Choice := [.ok, .ok, .ok, .fd 5, .port 1234, .ok, .ok, .ok, .ok, .ok, .ok, .ok,
      .ok, .ok, .ok, .ok]
    ∃ server w', kernel.run () (serverNewForVsock .plain none none none) w chs =
        .returned (.ok server) w' ∧
      server.address = text "vsock:cid=4294967295,port=1234" ∧
      ∃ name, Reaches Lib.plain server w' name := by
  intro w chs
  have hrun : kernel.run () (serverNewForVsock .plain none none none) w chs =
      .returned (.ok ⟨5, text "vsock:cid=4294967295,port=1234", [], 0⟩)
        ((w.set 5 (some ⟨none, none⟩)).set 5 (some ⟨some ⟨vmaddrAny, 1234⟩, none⟩)) := rfl
  exact ⟨_, _, hrun, rfl, address_reaches .plain hrun fun _ _ => .inl rfl⟩

end Spectrum.Dbus
