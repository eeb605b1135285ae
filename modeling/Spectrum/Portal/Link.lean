import Spectrum.Portal.HostSafe

/-!
# The two ends of a connection

Guest and host over one stream socket. A write appends to what the other end has not read yet, a
read takes from the front of it; how much a write accepts and a read returns is a choice, and a read
with nothing to return waits. Transfers may be short, but they do not fail. Towards Cloud
Hypervisor, whose answers are arbitrary, the host is on its own as before.

**`linkSpec` is the protocol**: what each end may do next, given what it has said and heard. An end
that keeps to it can rely on hearing a prefix of what the other end has to say, whatever the pieces
are. It also has a number of calls left, so that keeping to it excludes waiting forever by talking
forever.
-/

set_option autoImplicit false

namespace Spectrum.Portal

open Interact Bytes

inductive Party
  | guest
  | host
  deriving Repr, DecidableEq

def Party.peer : Party → Party
  | .guest => .host
  | .host => .guest

@[simp] theorem Party.peer_peer (t : Party) : t.peer.peer = t := by cases t <;> rfl

@[simp] theorem Party.peer_ne (t : Party) : t.peer ≠ t := by cases t <;> exact nofun

/-- What each end has done, and the bytes on their way to each end. -/
structure Link where
  log : Party → Log
  inbox : Party → List UInt8

namespace Link

def start : Link := ⟨fun _ => Log.empty, fun _ => []⟩

def note (w : Link) (t : Party) (e : Event) : Link :=
  { w with log := Function.update w.log t ((w.log t).add e) }

def put (w : Link) (t : Party) (bytes : List UInt8) : Link :=
  { w with inbox := Function.update w.inbox t bytes }

/-- A call that has nothing to do with the other end. -/
def alone {β : Type} (w : Link) (t : Party) (c : Call β) (ch : Choice) :
    Option (Outcome Party β × Link) :=
  (act c (w.log t) ch).map fun r => (r.1, { w with log := Function.update w.log t r.2 })

def send (w : Link) (t : Party) (s : Sock) (bytes : List UInt8) : Link :=
  match s with
  | .conn => (w.note t (.sent .conn bytes)).put t.peer (w.inbox t.peer ++ bytes)
  | .vsock => w.note t (.sent .vsock bytes)

def take (w : Link) (t : Party) (n : Nat) : Link :=
  (w.note t (.got .conn ((w.inbox t).take n))).put t ((w.inbox t).drop n)

def exec {β : Type} (t : Party) (c : Call β) (w : Link) (ch : Choice) :
    Option (Outcome Party β × Link) :=
  match c with
  | .socket =>
    match ch with
    | .ok => some (.resume none, w)
    | _ => none
  | .connect s =>
    match ch with
    | .ok => some (.resume none, w.note t (.connected s))
    | _ => none
  | .write s bytes =>
    match ch with
    | .count n =>
      if n ≤ bytes.length ∧ (n = 0 → bytes = []) then
        some (.resume (.ok n), w.send t s (bytes.take n))
      else none
    | _ => none
  | .read s count =>
    match s with
    | .conn =>
      match ch with
      | .count n =>
        if 0 < n ∧ n ≤ count ∧ n ≤ (w.inbox t).length then
          some (.resume (.ok ((w.inbox t).take n)), w.take t n)
        else none
      | .ok =>
        -- The end of the stream, once the other end is gone.
        if w.inbox t = [] ∧ (w.log t.peer).ended ≠ none then
          some (.resume (.ok []), w.note t (.eof .conn))
        else none
      | _ => none
    | .vsock => w.alone t (.read .vsock count) ch
  | c => w.alone t c ch

def kernel : Kernel Call Party Link Choice := ⟨exec⟩

end Link

/-! ## The protocol -/

/-- The bytes sent to a socket. -/
def said (s : Sock) (trace : List Event) : List UInt8 :=
  trace.flatMap fun e =>
    match e with
    | .sent s' bytes => if s' = s then bytes else []
    | _ => []

@[simp] theorem said_append (s : Sock) (a b : List Event) :
    said s (a ++ b) = said s a ++ said s b := List.flatMap_append

/-- An end of the connection, what it has done, and how many calls it may still make. -/
structure Phase where
  party : Party
  log : Log
  left : Nat

namespace Phase

def said (x : Phase) (s : Sock) : List UInt8 := Portal.said s x.log.trace

def heard (x : Phase) : List UInt8 := received .conn x.log.trace

end Phase

section

variable (versions : List UInt8) (port : BitVec 32) (root : Path)

/-- All that each end has to say to the other. -/
def script : Party → List UInt8
  | .guest => offer versions ++ info port root
  | .host => [1]

/-- What the host asks Cloud Hypervisor for. -/
def connectText : List UInt8 :=
  ascii ['C', 'O', 'N', 'N', 'E', 'C', 'T', ' '] ++ decimal port.toNat ++ ascii ['\n']

def guestMay (x : Phase) {β : Type} (c : Call β) : Prop :=
  match c with
  | .socket => True
  | .connect s => s = .conn
  | .write s bytes => s = .conn ∧ x.said .conn ++ bytes <+: script versions port root .guest
  | .read s n => s = .conn ∧ n = 1 ∧ (x.heard = [] ∧ x.said .conn = offer versions ∨
      x.said .conn = script versions port root .guest)
  | _ => False

def hostMay (x : Phase) {β : Type} (c : Call β) : Prop :=
  match c with
  | .read s n =>
    match s with
    | .conn => 0 < n ∧ x.heard.length < (script versions port root .guest).length ∧
        (x.said .conn = [] → x.heard.length < (offer versions).length)
    | .vsock => True
  | .write s bytes =>
    match s with
    | .conn => bytes = [1] ∧ x.said .conn = [] ∧ x.heard = offer versions
    | .vsock => x.said .vsock ++ bytes <+: connectText port
  | .connect s => s = .vsock
  | .build _ => True
  | _ => False

/-- The answers an end can get, with its log afterwards. -/
def linkAnswer (x : Phase) {β : Type} (c : Call β) (b : β) (w : Log) : Prop :=
  match c with
  | .socket => b = none ∧ w = x.log
  | .connect s => b = none ∧ w = x.log.add (.connected s)
  | .write s bytes => ∃ n, b = .ok n ∧ n ≤ bytes.length ∧ (n = 0 → bytes = []) ∧
      w = x.log.add (.sent s (bytes.take n))
  | .read s count =>
    match s with
    | .conn => ∃ bs, b = .ok bs ∧ bs ≠ [] ∧ bs.length ≤ count ∧
        w = x.log.add (.got .conn bs) ∧ x.heard ++ bs <+: script versions port root x.party.peer
    | .vsock => Answer x.log (.read .vsock count) b w
  | c => Answer x.log c b w

def linkSpec : Spec Call Phase where
  pre x c := 0 < x.left ∧
    match x.party with
    | .guest => guestMay versions port root x c
    | .host => hostMay versions port root x c
  post x c b y := y.party = x.party ∧ y.left + 1 = x.left ∧
    linkAnswer versions port root x c b y.log

/-! ## The invariant -/

/-- What holds between the two ends, for runs of at most `N` calls. -/
structure LinkInv (N : Nat) (w : Link × Nat) (ph : Party → Option Phase) : Prop where
  phases : ∃ k : Party → Nat, (∀ t, ph t = some ⟨t, w.1.log t, k t⟩) ∧
    w.2 + k .guest + k .host = N
  alive : ∀ t, (w.1.log t).ended = none
  stream : ∀ t, said .conn (w.1.log t.peer).trace =
    received .conn (w.1.log t).trace ++ w.1.inbox t
  scripts : ∀ t, said .conn (w.1.log t).trace <+: script versions port root t
  text : said .vsock (w.1.log .host).trace <+: connectText port
  reply : ∀ before bytes after, (w.1.log .host).trace = before ++ .sent .conn bytes :: after →
    bytes = [1] ∧ received .conn before = offer versions

end

section

variable {versions : List UInt8} {port : BitVec 32} {root : Path}

/-- One event of one end. What is left to check is the stream between them, and that the event is
one that the end may cause. -/
theorem LinkInv.advance {N n : Nat} {w w' : Link} {ph : Party → Option Phase} {t : Party}
    {x : Phase} {e : Event} (h : LinkInv versions port root N (w, n) ph) (hx : ph t = some x)
    (hleft : 0 < x.left) (hlog : w'.log = (w.note t e).log)
    (hstream : ∀ u, said .conn (w'.log u.peer).trace =
      received .conn (w'.log u).trace ++ w'.inbox u)
    (hscript : said .conn (w.log t).trace ++ said .conn [e] <+: script versions port root t)
    (htext : t = .host → said .vsock (w.log t).trace ++ said .vsock [e] <+: connectText port)
    (hreply : t = .host → ∀ bytes, e = .sent .conn bytes →
      bytes = [1] ∧ received .conn (w.log .host).trace = offer versions) :
    LinkInv versions port root N (w', n + 1)
      (Function.update ph t (some ⟨t, w'.log t, x.left - 1⟩)) := by
  obtain ⟨k, hk, hsum⟩ := h.phases
  obtain rfl := Option.some.inj ((hk t).symm.trans hx)
  have hself : w'.log t = (w.log t).add e := by simp [hlog, Link.note]
  have hother : ∀ u, u ≠ t → w'.log u = w.log u := by
    intro u hu
    simp [hlog, Link.note, Function.update_of_ne hu]
  refine ⟨⟨Function.update k t (k t - 1), fun u => ?_, ?_⟩, fun u => ?_, hstream, fun u => ?_, ?_,
    fun before bytes after heq => ?_⟩
  · by_cases hu : u = t
    · subst hu
      simp
    · simp [Function.update_of_ne hu, hk u, hother u hu]
  · cases t <;> simp [Function.update] at hleft hsum ⊢ <;> omega
  · by_cases hu : u = t
    · subst hu
      simpa [hself, Log.add] using h.alive u
    · simpa [hother u hu] using h.alive u
  · by_cases hu : u = t
    · subst hu
      simpa [hself, Log.add] using hscript
    · simpa [hother u hu] using h.scripts u
  · by_cases ht : t = .host
    · subst ht
      simpa [hself, Log.add] using htext rfl
    · simpa [hother _ (Ne.symm ht)] using h.text
  · by_cases ht : t = .host
    · subst ht
      dsimp only at heq
      rw [hself] at heq
      rcases snoc_split heq with ⟨htrace, he⟩ | ⟨after', htrace⟩
      · exact htrace ▸ hreply rfl bytes he
      · exact h.reply before bytes after' htrace
    · dsimp only at heq
      rw [hother _ (Ne.symm ht)] at heq
      exact h.reply before bytes after heq

/-- A call that leaves no trace. -/
theorem LinkInv.idle {N n : Nat} {w : Link} {ph : Party → Option Phase} {t : Party} {x : Phase}
    (h : LinkInv versions port root N (w, n) ph) (hx : ph t = some x) (hleft : 0 < x.left) :
    LinkInv versions port root N (w, n + 1)
      (Function.update ph t (some ⟨t, w.log t, x.left - 1⟩)) := by
  obtain ⟨k, hk, hsum⟩ := h.phases
  obtain rfl := Option.some.inj ((hk t).symm.trans hx)
  refine { h with phases := ⟨Function.update k t (k t - 1), fun u => ?_, ?_⟩ }
  · by_cases hu : u = t
    · subst hu
      simp
    · simp [Function.update_of_ne hu, hk u]
  · cases t <;> simp [Function.update] at hleft hsum ⊢ <;> omega

@[simp] theorem note_inbox (w : Link) (t : Party) (e : Event) : (w.note t e).inbox = w.inbox := rfl

theorem note_log_said (w : Link) (t u : Party) (s : Sock) (e : Event) :
    said s ((w.note t e).log u).trace =
      said s (w.log u).trace ++ if u = t then said s [e] else [] := by
  by_cases hu : u = t
  · subst hu
    simp [Link.note, Log.add]
  · simp [Link.note, hu]

theorem note_log_received (w : Link) (t u : Party) (s : Sock) (e : Event) :
    received s ((w.note t e).log u).trace =
      received s (w.log u).trace ++ if u = t then received s [e] else [] := by
  by_cases hu : u = t
  · subst hu
    simp [Link.note, Log.add]
  · simp [Link.note, hu]

/-- An event that has nothing to do with the other end. -/
theorem LinkInv.event {N n : Nat} {w : Link} {ph : Party → Option Phase} {t : Party} {x : Phase}
    {e : Event} (h : LinkInv versions port root N (w, n) ph) (hx : ph t = some x)
    (hleft : 0 < x.left) (hsaid : said .conn [e] = []) (hheard : received .conn [e] = [])
    (hsent : ∀ bytes, e ≠ .sent .conn bytes)
    (htext : t = .host → said .vsock (w.log t).trace ++ said .vsock [e] <+: connectText port) :
    LinkInv versions port root N (w.note t e, n + 1)
      (Function.update ph t (some ⟨t, (w.note t e).log t, x.left - 1⟩)) := by
  refine h.advance hx hleft rfl (fun u => ?_) ?_ htext fun _ bytes he => absurd he (hsent bytes)
  · simpa [note_log_said, note_log_received, hsaid, hheard] using h.stream u
  · simpa [hsaid] using h.scripts t

theorem LinkInv.send {N n : Nat} {w : Link} {ph : Party → Option Phase} {t : Party} {x : Phase}
    {bytes : List UInt8} (h : LinkInv versions port root N (w, n) ph) (hx : ph t = some x)
    (hleft : 0 < x.left)
    (hscript : said .conn (w.log t).trace ++ bytes <+: script versions port root t)
    (hreply : t = .host → bytes = [1] ∧ received .conn (w.log .host).trace = offer versions) :
    LinkInv versions port root N (w.send t .conn bytes, n + 1)
      (Function.update ph t (some ⟨t, (w.send t .conn bytes).log t, x.left - 1⟩)) := by
  have hsaid : said .conn [Event.sent .conn bytes] = bytes := by simp [said]
  have hvsock : said .vsock [Event.sent .conn bytes] = [] := by simp [said]
  have hheard : received .conn [Event.sent .conn bytes] = [] := by simp [received]
  refine h.advance (e := .sent .conn bytes) hx hleft rfl (fun u => ?_) (by rwa [hsaid]) ?_ ?_
  · change said .conn ((w.note t _).log u.peer).trace =
      received .conn ((w.note t _).log u).trace ++ Function.update w.inbox t.peer _ u
    have hstream := h.stream u
    by_cases hu : u = t.peer
    · subst hu
      simp only [Party.peer_peer] at hstream
      simp [note_log_said, note_log_received, hsaid, hstream]
    · have hne : u.peer ≠ t := by
        rintro rfl
        simp at hu
      simpa [note_log_said, note_log_received, hheard, hne, Function.update_of_ne hu] using hstream
  · rintro rfl
    simpa [hvsock] using h.text
  · intro ht bytes' he
    cases he
    exact hreply ht

theorem LinkInv.take {N n m : Nat} {w : Link} {ph : Party → Option Phase} {t : Party} {x : Phase}
    (h : LinkInv versions port root N (w, n) ph) (hx : ph t = some x) (hleft : 0 < x.left) :
    LinkInv versions port root N (w.take t m, n + 1)
      (Function.update ph t (some ⟨t, (w.take t m).log t, x.left - 1⟩)) := by
  generalize hbs : (w.inbox t).take m = bs
  have hsaid : ∀ s, said s [Event.got .conn bs] = [] := by simp [said]
  have hheard : received .conn [Event.got .conn bs] = bs := by simp [received]
  refine h.advance (e := .got .conn bs) hx hleft (by rw [← hbs]; rfl) (fun u => ?_) ?_ ?_ ?_
  · change said .conn ((w.note t (.got .conn ((w.inbox t).take m))).log u.peer).trace =
      received .conn ((w.note t (.got .conn ((w.inbox t).take m))).log u).trace ++
        Function.update w.inbox t _ u
    have hstream := h.stream u
    rw [hbs]
    by_cases hu : u = t
    · subst hu
      have hsplit : bs ++ (w.inbox u).drop m = w.inbox u := by
        rw [← hbs, List.take_append_drop]
      simp [note_log_said, note_log_received, hheard, hstream, hsplit]
    · simpa [note_log_said, note_log_received, hsaid, hu, Function.update_of_ne hu] using hstream
  · simpa [hsaid] using h.scripts t
  · rintro rfl
    simpa [hsaid] using h.text
  · exact by simp

/-- A call of one end that leaves no trace, or one that says nothing about this protocol. -/
theorem LinkInv.alone {N n : Nat} {w : Link} {ph : Party → Option Phase} {t : Party} {x : Phase}
    {l : Log} (h : LinkInv versions port root N (w, n) ph) (hx : ph t = some x)
    (hleft : 0 < x.left)
    (hl : l = w.log t ∨ ∃ e, l = (w.log t).add e ∧ received .conn [e] = [] ∧
      ∀ s bytes, e ≠ .sent s bytes) :
    LinkInv versions port root N ({ w with log := Function.update w.log t l }, n + 1)
      (Function.update ph t (some ⟨t, Function.update w.log t l t, x.left - 1⟩)) := by
  rcases hl with rfl | ⟨e, rfl, hheard, hsent⟩
  · simpa using h.idle hx hleft
  · have hsaid : ∀ s, said s [e] = [] := by
      intro s
      cases e with
      | sent s' bytes => exact absurd rfl (hsent s' bytes)
      | connected s' | got s' bytes | eof s' | serving root => rfl
    refine h.event hx hleft (hsaid _) hheard (hsent _) ?_
    rintro rfl
    simpa [hsaid] using h.text

variable (versions port root) in
/-- The call is answered as the protocol says, and takes the two ends to a state that fits. -/
def Advances (N n : Nat) (ph : Party → Option Phase) (x : Phase) {β : Type} (c : Call β)
    (o : Outcome Party β) (w' : Link) : Prop :=
  ∃ b, o = .resume b ∧
    (linkSpec versions port root).post x c b ⟨x.party, w'.log x.party, x.left - 1⟩ ∧
    LinkInv versions port root N (w', n + 1)
      (Function.update ph x.party (some ⟨x.party, w'.log x.party, x.left - 1⟩))

section Steps

variable {N n k m : Nat} {w w' : Link} {ph : Party → Option Phase} {t : Party}

theorem link_write {s : Sock} {bytes : List UInt8} (h : LinkInv versions port root N (w, n) ph)
    (hx : ph t = some ⟨t, w.log t, k⟩)
    (hpre : (linkSpec versions port root).pre ⟨t, w.log t, k⟩ (.write s bytes))
    (hle : m ≤ bytes.length) (hzero : m = 0 → bytes = []) :
    Advances versions port root N n ph ⟨t, w.log t, k⟩ (.write s bytes) (.resume (.ok m))
      (w.send t s (bytes.take m)) := by
  obtain ⟨hleft, hmay⟩ := hpre
  have hlog : (w.send t s (bytes.take m)).log t = (w.log t).add (.sent s (bytes.take m)) := by
    cases s <;> simp [Link.send, Link.note, Link.put]
  refine ⟨.ok m, rfl, ⟨rfl, Nat.sub_add_cancel hleft, m, rfl, hle, hzero, hlog⟩, ?_⟩
  cases s with
  | conn =>
    refine h.send hx hleft ?_ ?_
    · cases t with
      | guest => exact ((List.prefix_append_right_inj _).mpr (List.take_prefix _ _)).trans hmay.2
      | host =>
        obtain ⟨rfl, hsaid, -⟩ := hmay
        rw [show said .conn (w.log .host).trace = [] from hsaid, List.nil_append]
        exact List.take_prefix _ _
    · rintro rfl
      obtain ⟨rfl, -, hheard⟩ := hmay
      have hone : m = 1 := by
        have hne : m ≠ 0 := fun h0 => by simp [h0] at hzero
        have hle : m ≤ 1 := hle
        omega
      subst hone
      exact ⟨rfl, hheard⟩
  | vsock =>
    cases t with
    | guest => cases hmay.1
    | host =>
      refine h.event hx hleft rfl rfl (by simp) fun _ => ?_
      have hsaid : said .vsock [Event.sent .vsock (bytes.take m)] = bytes.take m := by simp [said]
      rw [hsaid]
      exact ((List.prefix_append_right_inj _).mpr (List.take_prefix _ _)).trans hmay

/-- What is read continues the script of the other end. -/
theorem link_read {count : Nat} (h : LinkInv versions port root N (w, n) ph)
    (hx : ph t = some ⟨t, w.log t, k⟩) (hleft : 0 < k) (hpos : 0 < m) (hcount : m ≤ count)
    (hle : m ≤ (w.inbox t).length) :
    Advances versions port root N n ph ⟨t, w.log t, k⟩ (.read .conn count)
      (.resume (.ok ((w.inbox t).take m))) (w.take t m) := by
  refine ⟨_, rfl, ⟨rfl, Nat.sub_add_cancel hleft, _, rfl, ?_, ?_, ?_, ?_⟩, h.take hx hleft⟩
  · intro hnil
    have hlen := congrArg List.length hnil
    rw [List.length_take, List.length_nil] at hlen
    omega
  · simp
    omega
  · simp [Link.take, Link.note, Link.put]
  · have hscript := h.scripts t.peer
    rw [h.stream t] at hscript
    exact ((List.prefix_append_right_inj _).mpr (List.take_prefix _ _)).trans hscript

/-- The answers of Cloud Hypervisor are nobody else's business. -/
theorem link_readVsock {count : Nat} {ch : Choice} {o : Outcome Party (Except Errno (List UInt8))}
    (h : LinkInv versions port root N (w, n) ph) (hx : ph .host = some ⟨.host, w.log .host, k⟩)
    (hleft : 0 < k) (he : Link.exec .host (.read .vsock count) w ch = some (o, w')) :
    Advances versions port root N n ph ⟨.host, w.log .host, k⟩ (.read .vsock count) o w' := by
  obtain ⟨⟨o', l⟩, hact, heq⟩ := Option.map_eq_some_iff.mp he
  cases heq
  simp only [act] at hact
  split at hact
  · next bs =>
    split at hact
    swap
    · cases hact
    next hlen =>
    cases hact
    refine ⟨.ok bs, rfl, ⟨rfl, Nat.sub_add_cancel hleft, hlen, by simp⟩,
      h.alone hx hleft (Or.inr ⟨_, rfl, ?_⟩)⟩
    split
    · exact ⟨rfl, by simp⟩
    · exact ⟨rfl, by simp⟩
  · next e =>
    cases hact
    exact ⟨.error e, rfl, ⟨rfl, Nat.sub_add_cancel hleft, by simp [linkAnswer, Answer]⟩,
      h.alone hx hleft (Or.inl rfl)⟩
  · cases hact

theorem link_build {path : Path} {ch : Choice} {o : Outcome Party (Option String)}
    (h : LinkInv versions port root N (w, n) ph) (hx : ph .host = some ⟨.host, w.log .host, k⟩)
    (hleft : 0 < k) (he : Link.exec .host (.build path) w ch = some (o, w')) :
    Advances versions port root N n ph ⟨.host, w.log .host, k⟩ (.build path) o w' := by
  obtain ⟨⟨o', l⟩, hact, heq⟩ := Option.map_eq_some_iff.mp he
  cases heq
  simp only [act] at hact
  split at hact
  · cases hact
    exact ⟨none, rfl, ⟨rfl, Nat.sub_add_cancel hleft, by simp [linkAnswer, Answer]⟩,
      h.alone hx hleft (Or.inr ⟨_, rfl, rfl, by simp⟩)⟩
  · next e =>
    cases hact
    exact ⟨some e, rfl, ⟨rfl, Nat.sub_add_cancel hleft, by simp [linkAnswer, Answer]⟩,
      h.alone hx hleft (Or.inl rfl)⟩
  · cases hact

/-- **One call of one end**, as the protocol allows it. -/
theorem link_step {β : Type} {c : Call β} {ch : Choice} {o : Outcome Party β}
    (h : LinkInv versions port root N (w, n) ph) (hx : ph t = some ⟨t, w.log t, k⟩)
    (hpre : (linkSpec versions port root).pre ⟨t, w.log t, k⟩ c)
    (he : Link.exec t c w ch = some (o, w')) :
    Advances versions port root N n ph ⟨t, w.log t, k⟩ c o w' := by
  obtain ⟨hleft, hmay⟩ := id hpre
  cases c with
  | socket =>
    simp only [Link.exec] at he
    split at he <;> cases he
    exact ⟨none, rfl, ⟨rfl, Nat.sub_add_cancel hleft, rfl, rfl⟩, h.idle hx hleft⟩
  | connect s =>
    simp only [Link.exec] at he
    split at he <;> cases he
    refine ⟨none, rfl, ⟨rfl, Nat.sub_add_cancel hleft, rfl, by simp [Link.note]⟩,
      h.event hx hleft rfl rfl (by simp) ?_⟩
    rintro rfl
    simpa [said] using h.text
  | write s bytes =>
    simp only [Link.exec] at he
    split at he
    · split at he
      · next hm =>
        cases he
        exact link_write h hx hpre hm.1 hm.2
      · cases he
    · cases he
  | read s count =>
    cases s with
    | conn =>
      simp only [Link.exec] at he
      split at he
      · split at he
        · next hm =>
          cases he
          exact link_read h hx hleft hm.1 hm.2.1 hm.2.2
        · cases he
      · -- The other end is not gone.
        split at he
        · next hgone => exact absurd (h.alive t.peer) hgone.2
        · cases he
      · cases he
    | vsock =>
      cases t with
      | guest => cases hmay.1
      | host => exact link_readVsock h hx hleft he
  | build root =>
    cases t with
    | guest => exact hmay.elim
    | host => exact link_build h hx hleft he
  | close s => cases t <;> exact hmay.elim
  | nextMessage => cases t <;> exact hmay.elim
  | msg text => cases t <;> exact hmay.elim
  | exit status => cases t <;> exact hmay.elim
  | panic reason => cases t <;> exact hmay.elim

end Steps

theorem link_modular (N : Nat) : Modular Link.kernel.counted (linkSpec versions port root)
    (fun _ _ => True) (LinkInv versions port root N) := by
  have hstep : ∀ {β : Type} {t : Party} {c : Call β} {w w' : Link × Nat}
      {ph : Party → Option Phase} {x : Phase} {ch : Choice} {o : Outcome Party β},
      LinkInv versions port root N w ph → ph t = some x → (linkSpec versions port root).pre x c →
      Link.kernel.counted.exec t c w ch = some (o, w') →
      ∃ b y, o = .resume b ∧ (linkSpec versions port root).post x c b y ∧
        LinkInv versions port root N w' (Function.update ph t (some y)) := by
    rintro β t c ⟨w, n⟩ w' ph x ch o hinv hx hpre he
    obtain ⟨⟨o', w''⟩, hx', heq⟩ := Option.map_eq_some_iff.mp he
    cases heq
    obtain ⟨k, hk, -⟩ := hinv.phases
    obtain rfl := Option.some.inj ((hk t).symm.trans hx)
    obtain ⟨b, hb, hpost, hinv'⟩ := link_step hinv hx hpre hx'
    exact ⟨b, _, hb, hpost, hinv'⟩
  constructor
  · intro β t c w w' ph x ch b _ hinv hx hpre he
    obtain ⟨b', y, hb, hpost, hinv'⟩ := hstep hinv hx hpre he
    cases hb
    exact ⟨y, hpost, hinv'⟩
  · intro β t t' c w w' ph x ch b b' _ hinv hx hpre he
    obtain ⟨_, _, hb, -⟩ := hstep hinv hx hpre he
    cases hb
  · intro β t c w w' ph x ch _ hinv hx hpre he
    obtain ⟨_, _, hb, -⟩ := hstep hinv hx hpre he
    cases hb

end

end Spectrum.Portal
