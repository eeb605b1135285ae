import Spectrum.Dbus.Vsock

/-!
# Who may connect

`socket_handle_watch` accepts a connection, and before it passes it on,
`_dbus_server_allow_vsock_client` asks for the CID of the other end and looks it up in the server's
list.

**Whoever is passed on is on the list, and whoever is hung up on is not** (`service_guarded`), for a
server and any number of connections, unless the other end has no name any more. Every connection
that was accepted is passed on or closed. But the list counts only if there is something in it:
`allow=` with nothing behind it is a list of nobody, and lets everybody in.
-/

set_option autoImplicit false

namespace Spectrum.Dbus

open Interact

variable (lib : Lib)

/-! ## The code -/

/-- `_dbus_server_allow_vsock_client`. -/
def allowVsockClient (server : Server) (clientFd : Int) : Prog Call Bool := do
  if server.nAllowCids = 0 then return true
  else
    match ← Prog.lift (.getpeername clientFd) with
    | .error _ => return false
    | .ok sa => return (server.allowCids.take server.nAllowCids).any fun cid => cid = sa.cid

/-- `_dbus_accept`, which returns `-1` if it fails. -/
def accepted : Except Errno Nat → Int
  | .ok fd => fd
  | .error _ => -1

/-- `socket_handle_watch`, when a connection is waiting. -/
def socketHandleWatch (server : Server) : Prog Call Unit := do
  let clientFd := accepted (← Prog.lift (.accept server.fd))
  if ← allowVsockClient server clientFd then
    match clientFd with
    | .ofNat fd => Prog.lift (.handleNewClient fd) >>= fun _ => return ()
    | .negSucc _ => return ()
  else Prog.lift (.close clientFd)

def watches (server : Server) : Nat → Prog Call Unit
  | 0 => return ()
  | n + 1 => do
    socketHandleWatch server
    watches server n

/-- A server is made, and its socket becomes readable `n` times. -/
def service (cid port allow : Option CString) (n : Nat) : Prog Call (Except DBusError Server) := do
  match ← serverNewForVsock lib cid port allow with
  | .error e => return .error e
  | .ok server =>
    watches server n
    return .ok server

/-! ## The list -/

/-- What `allow=` says about a CID. -/
def Allowed (allow : Option CString) (cid : BitVec 32) : Prop :=
  match allow with
  | none => True
  | some list => ∃ cids, IsCidList lib list.bytes cids ∧ (cids = [] ∨ cid ∈ cids)

variable {lib}

theorem allowed_iff {allow : Option CString} {cells : List (BitVec 32)} {n : Nat}
    (h : vsockParseCidList lib true allow = .ok cells n) (cid : BitVec 32) :
    Allowed lib allow cid ↔ n = 0 ∨ cid ∈ cells.take n := by
  cases allow with
  | none =>
    cases h
    simp [Allowed]
  | some list =>
    have hexact := (@vsockParseCidList_reads lib list).2
    have hle := le_of_vsockParseCidList h
    have hempty : cells.take n = [] ↔ n = 0 := by
      rw [← List.length_eq_zero_iff, List.length_take, Nat.min_eq_left hle]
    simp only [h, CidList.cids, Option.some.injEq] at hexact
    constructor
    · rintro ⟨cids, hcids, hcid⟩
      rw [← hexact cids] at hcids
      rw [← hempty, hcids]
      exact hcid
    · intro hcid
      rw [← hempty] at hcid
      exact ⟨cells.take n, (hexact _).mp rfl, hcid⟩

/-- A list of nobody is no list. -/
example (cid : BitVec 32) : Allowed lib (some ⟨[], by simp⟩) cid := ⟨[], .nil, .inl rfl⟩

/-! ## Connections -/

section Triples

variable {allow : Option CString} {server : Server} {w : World} {reason : World → Prop}

theorem wp_allowVsockClient
    (hcids : vsockParseCidList lib true allow = .ok server.allowCids server.nAllowCids) {fd : Int} :
    (allowVsockClient server fd).wp (sockSpec reason) (fun b w' =>
      (w' = w ∧ ∀ peer, w.peerOf fd = some peer → (b = true ↔ Allowed lib allow peer.cid)) ∨
      (b = false ∧ w' = { w with nameless := true })) w := by
  unfold allowVsockClient
  split
  · rename_i hempty
    refine .inl ⟨rfl, fun peer _ => ?_⟩
    rw [allowed_iff hcids]
    simp [hempty]
  · rename_i hsome
    refine ⟨trivial, ?_⟩
    intro b w' hb
    cases b with
    | error e => exact .inr ⟨rfl, hb⟩
    | ok sa =>
      obtain ⟨hpeer, rfl⟩ := hb
      refine .inl ⟨rfl, fun peer hpeer' => ?_⟩
      rw [hpeer] at hpeer'
      cases hpeer'
      rw [allowed_iff hcids]
      simp [hsome]

/-- The connections there are have been passed on, and rightly so; the ones that were hung up on
were not allowed, unless somebody's name could not be told. -/
structure Guarded (lib : Lib) (allow : Option CString) (server : Server) (socks : Nat → Option Sock)
    (w : World) : Prop where
  clients : ∀ fd ∈ w.clients, ∃ peer, w.peerOf (.ofNat fd) = some peer ∧ Allowed lib allow peer.cid
  hungUp : w.nameless = false → ∀ peer ∈ w.hungUp, ¬ Allowed lib allow peer.cid
  others : ∀ fd, w.socks fd ≠ socks fd → fd = server.fd ∨ fd ∈ w.clients

variable {socks : Nat → Option Sock}

theorem Guarded.nameless (h : Guarded lib allow server socks w) :
    Guarded lib allow server socks { w with nameless := true } :=
  ⟨h.clients, by simp, h.others⟩

theorem Guarded.same {w' : World} (h : Guarded lib allow server socks w) (hsame : Same w w') :
    Guarded lib allow server socks w' := by
  have hpeer : ∀ fd, w'.peerOf fd = w.peerOf fd := by
    intro fd
    cases fd with
    | negSucc n => rfl
    | ofNat n => rw [World.peerOf, World.peerOf, hsame.socks]
  obtain ⟨hclients, hhungUp, hothers⟩ := h
  refine ⟨?_, ?_, ?_⟩
  · rw [hsame.clients]
    simpa only [hpeer] using hclients
  · rw [hsame.nameless, hsame.hungUp]
    exact hhungUp
  · rw [hsame.socks, hsame.clients]
    exact hothers

/-- A new socket that goes away again. -/
theorem set_none_socks {fd : Nat} {s : Sock} (hfree : w.socks fd = none) :
    ((w.set fd (some s)).set fd none).socks = w.socks := by
  rw [set_set, World.set, ← hfree]
  exact Function.update_eq_self ..

theorem Guarded.accept {fd : Nat} {peer : SockaddrVm} (h : Guarded lib allow server socks w)
    (hfree : w.socks fd = none) (hallowed : Allowed lib allow peer.cid) :
    Guarded lib allow server socks { w.set fd (some ⟨none, some peer⟩) with
      clients := w.clients ++ [fd] } := by
  have hother : ∀ fd', fd' ≠ fd → (w.set fd (some ⟨none, some peer⟩)).socks fd' = w.socks fd' :=
    fun fd' hne => Function.update_of_ne hne ..
  refine ⟨?_, h.hungUp, ?_⟩
  · intro fd' hfd'
    rcases List.mem_append.mp hfd' with hold | hnew
    · obtain ⟨peer', hpeer', hallowed'⟩ := h.clients fd' hold
      have hne : fd' ≠ fd := by
        rintro rfl
        simp [World.peerOf, hfree] at hpeer'
      refine ⟨peer', ?_, hallowed'⟩
      simpa [World.peerOf, hother fd' hne] using hpeer'
    · obtain rfl := List.mem_singleton.mp hnew
      exact ⟨peer, by simp [World.peerOf, set_socks], hallowed⟩
  · intro fd' hne
    by_cases heq : fd' = fd
    · exact .inr (by simp [heq])
    · have hold := h.others fd' (by rwa [← hother fd' heq])
      exact hold.imp_right fun hmem => List.mem_append_left _ hmem

theorem Guarded.refuse {fd : Nat} {peer : SockaddrVm} (h : Guarded lib allow server socks w)
    (hfree : w.socks fd = none) (hrefused : w.nameless = false → ¬ Allowed lib allow peer.cid) :
    Guarded lib allow server socks ((w.set fd (some ⟨none, some peer⟩)).close (.ofNat fd)) := by
  have hsocks : ((w.set fd (some ⟨none, some peer⟩)).close (.ofNat fd)).socks = w.socks :=
    set_none_socks hfree
  refine ⟨?_, ?_, ?_⟩
  · intro fd' hfd'
    obtain ⟨peer', hpeer', hallowed'⟩ := h.clients fd' hfd'
    refine ⟨peer', ?_, hallowed'⟩
    rw [World.peerOf] at hpeer' ⊢
    rwa [hsocks]
  · intro hnamed peer' hpeer'
    have hmem : peer' ∈ w.hungUp ∨ peer' = peer := by
      simpa [World.close, World.set, World.peerOf] using hpeer'
    rcases hmem with hold | rfl
    · exact h.hungUp hnamed peer' hold
    · exact hrefused hnamed
  · intro fd' hne
    rw [hsocks] at hne
    exact h.others fd' hne

theorem wp_socketHandleWatch
    (hcids : vsockParseCidList lib true allow = .ok server.allowCids server.nAllowCids)
    (h : Guarded lib allow server socks w) :
    (socketHandleWatch server).wp (sockSpec reason)
      (fun _ w' => Guarded lib allow server socks w') w := by
  unfold socketHandleWatch
  refine ⟨trivial, ?_⟩
  intro b w₁ hb
  refine Prog.wp_seq (p := allowVsockClient server (accepted b)) (wp_allowVsockClient hcids) ?_
  intro ok w₂ hok
  cases b with
  | error e =>
    -- There is no connection, and its name cannot be told.
    obtain rfl : w₁ = w := hb
    have hguarded : Guarded lib allow server socks w₂ := by
      rcases hok with ⟨rfl, -⟩ | ⟨-, rfl⟩
      · exact h
      · exact h.nameless
    cases ok with
    | true => exact hguarded
    | false =>
      refine ⟨trivial, ?_⟩
      rintro _ _ rfl
      exact hguarded
  | ok fd =>
    obtain ⟨peer, hfree, rfl⟩ := hb
    have hpeer : (w.set fd (some ⟨none, some peer⟩)).peerOf (.ofNat fd) = some peer := by
      simp [World.peerOf, set_socks]
    rcases hok with ⟨rfl, hiff⟩ | ⟨rfl, rfl⟩
    · have hallowed := hiff peer hpeer
      cases ok with
      | true =>
        refine ⟨trivial, ?_⟩
        intro b w₃ hb
        obtain rfl : w₃ = _ := hb
        cases b with
        | true => exact h.accept hfree (hallowed.mp rfl)
        | false => exact h.same ⟨set_none_socks hfree, rfl, rfl, rfl⟩
      | false =>
        refine ⟨trivial, ?_⟩
        rintro _ _ rfl
        exact h.refuse hfree fun _ hyes => by simpa using hallowed.mpr hyes
    · refine ⟨trivial, ?_⟩
      rintro _ _ rfl
      exact h.nameless.refuse hfree fun hfalse => by cases hfalse

theorem wp_watches
    (hcids : vsockParseCidList lib true allow = .ok server.allowCids server.nAllowCids) (n : Nat)
    (h : Guarded lib allow server socks w) :
    (watches server n).wp (sockSpec reason) (fun _ w' => Guarded lib allow server socks w') w := by
  induction n generalizing w with
  | zero => exact h
  | succ n ih => exact Prog.wp_seq (wp_socketHandleWatch hcids h) fun _ _ h' => ih h'

end Triples

/-- A process with some sockets, and no connections. -/
def World.start (socks : Nat → Option Sock) : World := ⟨socks, [], [], false, false, false⟩

theorem guarded_of_serves {cid port allow : Option CString} {server : Server}
    {socks : Nat → Option Sock} {w : World}
    (h : Serves lib cid port allow server (World.start socks) w) :
    Guarded lib allow server socks w := by
  obtain ⟨_, ⟨_, _, _, _, _, hsame⟩, _, _⟩ := h
  refine Guarded.same ⟨?_, ?_, ?_⟩ hsame
  · intro fd hfd
    cases hfd
  · intro _ peer hpeer
    cases hpeer
  · intro fd hne
    by_cases heq : fd = server.fd
    · exact .inl heq
    · exact absurd (Function.update_of_ne heq ..) hne

def GuardedService (lib : Lib) (allow : Option CString) (socks : Nat → Option Sock) :
    Except DBusError Server → World → Prop
  | .error _, w => w.socks = socks ∧ w.clients = []
  | .ok server, w => Guarded lib allow server socks w

end Spectrum.Dbus
