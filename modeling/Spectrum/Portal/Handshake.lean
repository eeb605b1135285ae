import Spectrum.Portal.Link

/-!
# The handshake

The guest's half is C, the host's is Rust, and they agree: **however the bytes are split in either
direction, the host replies with version 1 as soon as it has read the versions and nothing more,
decodes the port and the share root that the guest encoded, and asks Cloud Hypervisor for that
port.** Neither end waits for the other forever.

Each half is checked against `linkSpec` by itself. `At` is what an end knows about itself: what it
has said and heard so far. For the host this determines the rest of the stream, so its rules say
which bytes a read returns.
-/

set_option autoImplicit false

namespace Spectrum.Portal

open Interact Bytes

/-! ## The two programs -/

/-- What the guest does for the first vsock entry of its address. -/
def guestSession (versions : List UInt8) (junk : Junk) (port : BitVec 32) (root : Path) :
    Prog Call Unit := do
  connectToHost versions junk.version
  sendInfo port root
  checkResult junk.result

theorem tryEntries_vsock {addr : String} {root : Path} {junk : Junk} {entry : AddressEntry}
    {entries : List AddressEntry} {portStr : CString} {port : BitVec 32}
    (hmethod : entry.method = ascii ['v', 's', 'o', 'c', 'k'])
    (hstr : entry.values.lookup (ascii ['p', 'o', 'r', 't']) = some portStr)
    (hport : (parseU32 (some portStr) junk.port).number? = some port) :
    tryEntries addr root junk (entry :: entries) = guestSession [1] junk port root := by
  unfold Parsed.number? at hport
  split at hport
  · cases hport
  · rename_i hret
    cases hport
    simp only [tryEntries, hmethod, ne_eq, not_true_eq_false, if_false, hstr, hret]
    rfl

inductive Done
  | guest
  | host (r : Except String ((Nat × Path) × Except String Unit))

/-- Guest and host, connected, before either has done anything. -/
def handshake (env : HostEnv) (versions : List UInt8) (junk : Junk) (port : BitVec 32)
    (root : Path) : Pool Call Party (Link × Nat) Done where
  world := (Link.start, 0)
  thread
    | .guest => some ((guestSession versions junk port root).bind fun _ => .ret .guest)
    | .host => some ((hostSession env).bind fun r => .ret (.host r))

/-! ## What an end knows -/

/-- The end `t` has said and heard this much, has sent `text` to Cloud Hypervisor, and has at least
`k` calls left. -/
structure At (t : Party) (said heard text : List UInt8) (k : Nat) (x : Phase) : Prop where
  party : x.party = t
  said : x.said .conn = said
  heard : x.heard = heard
  text : x.said .vsock = text
  left : k ≤ x.left

section

variable {versions : List UInt8} {port : BitVec 32} {root : Path} {said heard text : List UInt8}
  {k : Nat} {x y : Phase} {t : Party}

theorem At.mono {k' : Nat} (h : At t said heard text k x) (hk : k' ≤ k) :
    At t said heard text k' x :=
  { h with left := hk.trans h.left }

/-- An event, with what it adds. -/
theorem At.add {e : Event} (h : At t said heard text (k + 1) x) (hparty : y.party = x.party)
    (hleft : y.left + 1 = x.left) (hlog : y.log = x.log.add e) {said' heard' text' : List UInt8}
    (hsaid : said ++ Portal.said .conn [e] = said') (hheard : heard ++ received .conn [e] = heard')
    (htext : text ++ Portal.said .vsock [e] = text') : At t said' heard' text' k y where
  party := hparty.trans h.party
  said := by
    rw [Phase.said, hlog, Log.add, said_append, ← hsaid, ← h.said]
    rfl
  heard := by
    rw [Phase.heard, hlog, Log.add, received_append, ← hheard, ← h.heard]
    rfl
  text := by
    rw [Phase.said, hlog, Log.add, said_append, ← htext, ← h.text]
    rfl
  left := by
    have := h.left
    omega

/-- A call that leaves no trace. -/
theorem At.spend (h : At t said heard text (k + 1) x) (hparty : y.party = x.party)
    (hleft : y.left + 1 = x.left) (hlog : y.log = x.log) : At t said heard text k y where
  party := hparty.trans h.party
  said := by
    rw [Phase.said, hlog]
    exact h.said
  heard := by
    rw [Phase.heard, hlog]
    exact h.heard
  text := by
    rw [Phase.said, hlog]
    exact h.text
  left := by
    have := h.left
    omega

theorem At.guestPre {β : Type} {c : Call β} (h : At .guest said heard text (k + 1) x)
    (hmay : guestMay versions port root x c) : (linkSpec versions port root).pre x c := by
  refine ⟨Nat.lt_of_lt_of_le (Nat.succ_pos k) h.left, ?_⟩
  rw [h.party]
  exact hmay

theorem At.hostPre {β : Type} {c : Call β} (h : At .host said heard text (k + 1) x)
    (hmay : hostMay versions port root x c) : (linkSpec versions port root).pre x c := by
  refine ⟨Nat.lt_of_lt_of_le (Nat.succ_pos k) h.left, ?_⟩
  rw [h.party]
  exact hmay

/-! ## The guest -/

theorem guest_writes {bytes : List UInt8}
    (h : At .guest said heard text (k + max 1 bytes.length) x)
    (hscript : said ++ bytes <+: script versions port root .guest) :
    (cWriteAll bytes).wp (linkSpec versions port root)
      (fun r y => r = 0 ∧ At .guest (said ++ bytes) heard text k y) x := by
  refine Prog.wp_loop (fun rest y => ∃ done, done ++ rest = bytes ∧
    At .guest (said ++ done) heard text (k + max 1 rest.length) y) ⟨[], rfl, by simpa using h⟩ ?_
  rintro rest y ⟨done, hdone, hy⟩
  have hstep : At .guest (said ++ done) heard text (k + max 1 rest.length - 1 + 1) y :=
    hy.mono (by omega)
  refine ⟨hstep.guestPre ⟨rfl, ?_⟩, ?_⟩
  · rw [hy.said, List.append_assoc, hdone]
    exact hscript
  · rintro _ z ⟨hparty, hz, n, rfl, hn, hzero, hlog⟩
    have hsent : At .guest (said ++ (done ++ rest.take n)) heard text
        (k + max 1 rest.length - 1) z := by
      refine hstep.add (e := .sent .conn (rest.take n)) hparty hz hlog ?_ ?_ ?_
      · simp [Portal.said]
      · simp [received]
      · simp [Portal.said]
    have hsplit : done ++ rest.take n ++ rest.drop n = bytes := by
      rw [List.append_assoc, List.take_append_drop, hdone]
    have hdrop : (rest.drop n).length = rest.length - n := List.length_drop
    refine ⟨fun rest' heq => ?_, fun heq => ?_⟩
    · dsimp only at heq
      split at heq
      · next hne =>
        cases heq
        have hpos := List.length_pos_iff.mpr hne
        have hn0 : n ≠ 0 := by
          intro h0
          rw [hzero h0] at hpos
          simp at hpos
        exact ⟨_, hsplit, hsent.mono (by omega)⟩
      · cases heq
    · have hend : rest.drop n = [] := by
        by_contra hne
        simp [hne] at heq
      rw [hend, List.append_nil] at hsplit
      refine ⟨rfl, ?_⟩
      rw [← hsplit]
      exact hsent.mono (by omega)

/-- How many calls the guest makes at most. -/
def guestCalls (versions : List UInt8) (root : Path) : Nat :=
  (offer versions).length + max 1 root.length + 12

theorem guest_connects {junk : UInt8}
    (h : At .guest [] [] text (k + (offer versions).length + 3) x) :
    (connectToHost versions junk).wp (linkSpec versions port root)
      (fun _ y => At .guest (offer versions) [1] text k y) x := by
  refine ⟨h.guestPre trivial, ?_⟩
  rintro _ y ⟨hparty, hleft, rfl, hlog⟩
  have hy : At .guest [] [] text (k + (offer versions).length + 2) y := h.spend hparty hleft hlog
  refine ⟨hy.guestPre rfl, ?_⟩
  rintro _ z ⟨hparty, hleft, rfl, hlog⟩
  have hz : At .guest [] [] text (k + (offer versions).length + 1) z :=
    hy.add (e := .connected .conn) hparty hleft hlog rfl rfl (by simp [Portal.said])
  have hcalls : k + 1 + max 1 (offer versions).length ≤ k + (offer versions).length + 1 := by
    simp only [offer, List.length_cons]
    omega
  change ((cWriteAll (offer versions)).bind _).wp _ _ _
  refine Prog.wp_seq (guest_writes (hz.mono hcalls) (List.prefix_append _ _)) ?_
  rintro _ u ⟨rfl, hu⟩
  rw [if_neg (by decide)]
  refine ⟨hu.guestPre ⟨rfl, rfl, Or.inl ⟨hu.heard, hu.said⟩⟩, ?_⟩
  rintro _ v ⟨hparty, hleft, bs, rfl, hne, hlen, hlog, hheard⟩
  -- The only thing the host says here is 1.
  have hbs : bs = [1] := by
    rw [hu.party, hu.heard, List.nil_append] at hheard
    exact (List.IsPrefix.eq_of_length_le hheard (List.length_pos_iff.mpr hne))
  subst hbs
  exact hu.add (e := .got .conn [1]) hparty hleft hlog (by simp [Portal.said]) (by simp [received])
    (by simp [Portal.said])

/-- Every part of the introduction continues the script. -/
theorem script_guest (versions : List UInt8) (port : BitVec 32) (root : Path) :
    script versions port root .guest =
      offer versions ++ htonl port.toNat ++ htonl root.length ++ root := by
  simp [script, info]

theorem guest_informs (h : At .guest (offer versions) heard text (k + max 1 root.length + 8) x) :
    (sendInfo port root).wp (linkSpec versions port root)
      (fun _ y => At .guest (script versions port root .guest) heard text k y) x := by
  have hlen : ∀ n, max 1 (htonl n).length = 4 := by simp [htonl]
  have hscript := script_guest versions port root
  refine Prog.wp_seq (guest_writes (k := k + max 1 root.length + 4) (by rw [hlen]; exact h) ?_) ?_
  · rw [hscript, List.append_assoc _ _ root]
    exact List.prefix_append _ _
  rintro _ y ⟨rfl, hy⟩
  rw [if_neg (by decide)]
  refine Prog.wp_seq (guest_writes (k := k + max 1 root.length) (by rw [hlen]; exact hy) ?_) ?_
  · rw [hscript]
    exact List.prefix_append _ _
  rintro _ z ⟨rfl, hz⟩
  rw [if_neg (by decide)]
  refine Prog.wp_seq (guest_writes hz ?_) ?_
  · rw [hscript]
  rintro _ u ⟨rfl, hu⟩
  rw [if_neg (by decide), hscript]
  exact hu

/-- The guest waits for the result: the host has said all it has to say here. -/
theorem guest_session {junk : Junk} (h : At .guest [] [] [] (guestCalls versions root) x) :
    (guestSession versions junk port root).wp (linkSpec versions port root)
      (fun _ _ => False) x := by
  have hcalls : 1 + max 1 root.length + 8 + (offer versions).length + 3 ≤
      guestCalls versions root := by
    unfold guestCalls
    omega
  refine Prog.wp_seq (guest_connects (h.mono hcalls)) fun _ y hy => ?_
  refine Prog.wp_seq (guest_informs hy) fun _ z hz => ?_
  refine ⟨hz.guestPre (k := 0) ⟨rfl, rfl, Or.inr hz.said⟩, ?_⟩
  rintro _ u ⟨-, -, bs, -, hne, -, -, hheard⟩
  rw [hz.party, hz.heard] at hheard
  have hlen := hheard.length_le
  simp [script, Party.peer] at hlen
  exact (hne hlen).elim

/-! ## The host -/

variable {env : HostEnv}

/-- What the host has heard determines what it hears next. -/
theorem host_reads {n : Nat} {next rest : List UInt8} (hn : next.length = n)
    (h : At .host said heard text (k + n) x)
    (hscript : script versions port root .guest = heard ++ (next ++ rest))
    (hoffer : said = [] → heard.length + n ≤ (offer versions).length) :
    (readExact (Call.read .conn) n).wp (linkSpec versions port root)
      (fun r y => r = .ok next ∧ At .host said (heard ++ next) text k y) x := by
  subst hn
  refine Prog.wp_readExact (fun got y => got <+: next ∧
    At .host said (heard ++ got) text (k + (next.length - got.length)) y)
    ⟨List.nil_prefix, by simpa using h⟩ ?_ ?_
  · rintro got y hlt ⟨hgot, hy⟩
    obtain ⟨more, hmore⟩ : ∃ more, next.length - got.length = more + 1 :=
      ⟨next.length - got.length - 1, by omega⟩
    rw [hmore] at hy ⊢
    refine ⟨hy.hostPre ⟨Nat.succ_pos _, ?_, ?_⟩, ?_⟩
    · rw [hscript, hy.heard]
      simp
      omega
    · rw [hy.said, hy.heard, List.length_append]
      intro hnil
      have := hoffer hnil
      omega
    · rintro _ z ⟨hparty, hleft, bs, rfl, hne, hle, hlog, hheard⟩
      rw [hy.party, hy.heard] at hheard
      change _ <+: script versions port root .guest at hheard
      rw [hscript, List.append_assoc, List.prefix_append_right_inj] at hheard
      have hlen : (got ++ bs).length ≤ next.length := by
        rw [List.length_append]
        omega
      refine ⟨fun hnil => absurd hnil hne, fun _ => ⟨by omega, ?_, ?_⟩⟩
      · exact (List.isPrefix_append_of_length hlen).mp hheard
      · have hpos := List.length_pos_iff.mpr hne
        have hz : At .host said (heard ++ (got ++ bs)) text (k + more) z :=
          hy.add (e := .got .conn bs) hparty hleft hlog (by simp [Portal.said])
            (by simp [received]) (by simp [Portal.said])
        exact hz.mono (by simp; omega)
  · rintro got y hlen ⟨hgot, hy⟩
    obtain rfl := hgot.eq_of_length hlen
    exact ⟨rfl, by simpa using hy⟩

theorem host_replies (h : At .host [] (offer versions) text (k + 1) x) :
    (writeAll (Call.write .conn) [1]).wp (linkSpec versions port root)
      (fun r y => r = .ok () ∧ At .host [1] (offer versions) text k y) x := by
  refine Prog.wp_writeAll (fun rest y =>
    (rest = [1] ∧ At .host [] (offer versions) text (k + 1) y) ∨
    (rest = [] ∧ At .host [1] (offer versions) text k y)) (Or.inl ⟨rfl, h⟩) ?_ ?_
  · rintro rest y hne (⟨rfl, hy⟩ | ⟨rfl, -⟩)
    · refine ⟨hy.hostPre ⟨rfl, hy.said, hy.heard⟩, ?_⟩
      rintro _ z ⟨hparty, hleft, n, rfl, hn, hzero, hlog⟩
      have hn1 : n = 1 := by
        have hle : n ≤ 1 := hn
        have hn0 : n ≠ 0 := fun h0 => absurd (hzero h0) (by simp)
        omega
      subst hn1
      refine ⟨nofun, fun _ => Or.inr ⟨rfl, ?_⟩⟩
      exact hy.add (e := .sent .conn [1]) hparty hleft hlog (by simp [Portal.said])
        (by simp [received]) (by simp [Portal.said])
    · exact absurd rfl hne
  · rintro y (⟨hnil, -⟩ | ⟨-, hy⟩)
    · cases hnil
    · exact ⟨rfl, hy⟩

theorem host_asks {bytes : List UInt8} (h : At .host said heard text (k + bytes.length) x)
    (htext : text ++ bytes <+: connectText port) :
    (writeAll (Call.write .vsock) bytes).wp (linkSpec versions port root)
      (fun r y => r = .ok () ∧ At .host said heard (text ++ bytes) k y) x := by
  refine Prog.wp_writeAll (fun rest y => ∃ done, done ++ rest = bytes ∧
    At .host said heard (text ++ done) (k + rest.length) y) ⟨[], rfl, by simpa using h⟩ ?_ ?_
  · rintro rest y hne ⟨done, hdone, hy⟩
    obtain ⟨more, hmore⟩ := Nat.exists_eq_succ_of_ne_zero (List.length_pos_iff.mpr hne).ne'
    rw [hmore] at hy
    refine ⟨hy.hostPre ?_, ?_⟩
    · change _ ++ rest <+: _
      rw [hy.text, List.append_assoc, hdone]
      exact htext
    · rintro _ z ⟨hparty, hleft, n, rfl, hn, hzero, hlog⟩
      refine ⟨fun h0 => absurd (hzero h0) hne, fun hn0 => ⟨done ++ rest.take n, ?_, ?_⟩⟩
      · rw [List.append_assoc, List.take_append_drop, hdone]
      · have hz : At .host said heard (text ++ (done ++ rest.take n)) (k + more) z :=
          hy.add (e := .sent .vsock (rest.take n)) hparty hleft hlog (by simp [Portal.said])
            (by simp [received]) (by simp [Portal.said])
        exact hz.mono (by rw [List.length_drop]; omega)
  · rintro y ⟨done, hdone, hy⟩
    rw [List.append_nil] at hdone
    subst hdone
    exact ⟨rfl, hy⟩

theorem host_receivesU32 {n : Nat} {rest : List UInt8} (hn : n < 2 ^ 32)
    (h : At .host [1] heard text (k + 4) x)
    (hscript : script versions port root .guest = heard ++ (htonl n ++ rest)) :
    receiveU32.wp (linkSpec versions port root)
      (fun r y => r = .ok n ∧ At .host [1] (heard ++ htonl n) text k y) x := by
  refine Prog.wp_seq (host_reads (by simp [htonl]) h hscript nofun) ?_
  rintro _ y ⟨rfl, hy⟩
  refine ⟨?_, hy⟩
  rw [htonl, ofBE_toBE (show n < 256 ^ 4 from hn)]

theorem host_receivesBytestring {bytes rest : List UInt8} (husize : 32 ≤ env.usizeBits)
    (hlen : bytes.length < 2 ^ 32) (h : At .host [1] heard text (k + bytes.length + 4) x)
    (hscript : script versions port root .guest =
      heard ++ (htonl bytes.length ++ (bytes ++ rest))) :
    (receiveBytestring env).wp (linkSpec versions port root)
      (fun r y => r = .ok bytes ∧
        At .host [1] (heard ++ htonl bytes.length ++ bytes) text k y) x := by
  refine Prog.wp_seq (host_receivesU32 hlen h hscript) ?_
  rintro _ y ⟨rfl, hy⟩
  have hfits : ¬ 2 ^ env.usizeBits ≤ bytes.length :=
    Nat.not_le.mpr (hlen.trans_le (Nat.pow_le_pow_right (by omega) husize))
  dsimp only
  rw [if_neg hfits]
  rw [← List.append_assoc] at hscript
  refine Prog.wp_seq (host_reads rfl hy hscript nofun) ?_
  rintro _ z ⟨rfl, hz⟩
  exact ⟨rfl, hz⟩

theorem host_negotiates (hversions : versions.length < 256) (hone : 1 ∈ versions)
    (h : At .host [] [] text (k + versions.length + 2) x) :
    (negotiateVersion env).wp (linkSpec versions port root)
      (fun r y => r = .ok () ∧ At .host [1] (offer versions) text k y) x := by
  have hfirst : script versions port root .guest =
      [] ++ ([UInt8.ofNat versions.length] ++ (versions ++ info port root)) := rfl
  have hsecond : script versions port root .guest =
      [] ++ [UInt8.ofNat versions.length] ++ (versions ++ info port root) := rfl
  have hcount : (UInt8.ofNat versions.length).toNat = versions.length := toNat_ofNat hversions
  refine Prog.wp_seq (host_reads (k := k + versions.length + 1) rfl h hfirst (by simp [offer])) ?_
  rintro _ y ⟨rfl, hy⟩
  refine Prog.wp_seq (host_reads (k := k + 1) hcount.symm (hy.mono (by simp; omega)) hsecond
    (by simp [offer, hcount]; omega)) ?_
  rintro _ z ⟨rfl, hz⟩
  dsimp only
  rw [if_neg (not_not.mpr hone)]
  refine Prog.wp_seq (host_replies hz) ?_
  rintro _ u ⟨rfl, hu⟩
  exact ⟨rfl, hu⟩

theorem host_receivesInfo (husize : 32 ≤ env.usizeBits) (hversions : versions.length < 256)
    (hone : 1 ∈ versions) (hroot : root.length < 2 ^ 32)
    (h : At .host [] [] text (k + root.length + versions.length + 10) x) :
    (receiveInfo env).wp (linkSpec versions port root)
      (fun r y => r = .ok (port.toNat, root) ∧
        At .host [1] (script versions port root .guest) text k y) x := by
  have hscript := script_guest versions port root
  have hport : script versions port root .guest =
      offer versions ++ (htonl port.toNat ++ (htonl root.length ++ root)) := by
    rw [hscript]
    simp
  have hbytes : script versions port root .guest =
      offer versions ++ htonl port.toNat ++ (htonl root.length ++ (root ++ [])) := by
    rw [hscript]
    simp
  refine Prog.wp_seq (host_negotiates (k := k + root.length + 8) hversions hone
    (h.mono (by omega))) ?_
  rintro _ y ⟨rfl, hy⟩
  refine Prog.wp_seq (host_receivesU32 (k := k + root.length + 4) port.isLt hy hport) ?_
  rintro _ z ⟨rfl, hz⟩
  refine Prog.wp_seq (host_receivesBytestring husize hroot hz hbytes) ?_
  rintro _ u ⟨rfl, hu⟩
  exact ⟨rfl, hscript ▸ hu⟩

/-- Whatever Cloud Hypervisor answers, this end has said and heard what it had before. -/
theorem host_listens {n : Nat} (h : At .host said heard text (k + n) x) :
    (readExact (Call.read .vsock) n).wp (linkSpec versions port root)
      (fun _ y => At .host said heard text k y) x := by
  refine Prog.wp_readExact (fun got y => At .host said heard text (k + (n - got.length)) y) h ?_
    fun got y hn hy => hy.mono (by omega)
  intro got y hlt hy
  obtain ⟨more, hmore⟩ : ∃ more, n - got.length = more + 1 := ⟨n - got.length - 1, by omega⟩
  rw [hmore] at hy ⊢
  refine ⟨hy.hostPre trivial, ?_⟩
  rintro r z ⟨hparty, hleft, hr⟩
  cases r with
  | error e =>
    have hz : At .host said heard text (k + more) z := hy.spend hparty hleft hr
    exact hz.mono (by omega)
  | ok bs =>
    obtain ⟨hle, hlog⟩ := hr
    have hz : At .host said heard text (k + more) z := by
      refine hy.add hparty hleft hlog ?_ ?_ ?_ <;> split <;> simp [Portal.said, received]
    refine ⟨fun _ => hz.mono (by omega), fun hne => ⟨by omega, ?_⟩⟩
    have hpos := List.length_pos_iff.mpr hne
    exact hz.mono (by simp; omega)

theorem host_readsResponse {len : Nat} (hmax : len ≤ 14) (hmin : len = 0 ∨ minResponseLen ≤ len)
    (response : Vector UInt8 14) (h : At .host said heard text (k + (14 - len)) x) :
    (readResponse env response len).wp (linkSpec versions port root)
      (fun _ y => At .host said heard text k y) x := by
  induction hleft : 14 - len using Nat.strong_induction_on generalizing len response x with
  | h left ih =>
  rcases readResponse_round hmax hmin response with ⟨-, -, heq⟩ | ⟨stop, hlt, hle, hstop, -, heq⟩
  · rw [heq]
    exact h.mono (by omega)
  · rw [heq]
    refine Prog.wp_seq (host_listens (k := k + (14 - stop)) (h.mono (by omega))) fun r y hy => ?_
    cases r with
    | error e => exact hy.mono (by omega)
    | ok new => exact ih (14 - stop) (by omega) hle (Or.inr hstop) _ hy rfl

theorem host_writesParts (parts : List (List UInt8))
    (h : At .host said heard text (k + parts.flatten.length) x)
    (htext : text ++ parts.flatten <+: connectText port) :
    (writeParts env parts).wp (linkSpec versions port root)
      (fun r y => r = .ok () ∧ At .host said heard (text ++ parts.flatten) k y) x := by
  induction parts generalizing text x with
  | nil => exact ⟨rfl, by simpa using h⟩
  | cons part parts ih =>
    rw [List.flatten_cons, ← List.append_assoc] at htext ⊢
    rw [List.flatten_cons, List.length_append] at h
    have hpart := (List.prefix_append _ _).trans htext
    refine Prog.wp_seq (host_asks (k := k + parts.flatten.length) (h.mono (by omega)) hpart) ?_
    rintro _ y ⟨rfl, hy⟩
    exact ih hy htext

theorem host_asksAll (hpath : env.vsockUnixPath.isSome)
    (h : At .host said heard [] (k + 14 + (connectText port).length + 1) x) :
    (connectToGuest env port.toNat).wp (linkSpec versions port root)
      (fun _ y => At .host said heard (connectText port) k y) x := by
  obtain ⟨path, hpath⟩ := Option.isSome_iff_exists.mp hpath
  rw [connectToGuest, hpath]
  refine ⟨h.hostPre rfl, ?_⟩
  rintro _ y ⟨hparty, hleft, rfl, hlog⟩
  have hy : At .host said heard [] (k + 14 + (connectText port).length) y :=
    h.add (e := .connected .vsock) hparty hleft hlog (by simp [Portal.said])
      (by simp [received]) rfl
  have hflat : (connectParts port.toNat).flatten = connectText port := by
    simp [connectParts, connectText]
  change ((writeParts env (connectParts port.toNat)).bind _).wp _ _ _
  refine Prog.wp_seq (host_writesParts (k := k + 14) _ (by rwa [hflat]) (by rw [hflat]; rfl)) ?_
  rintro _ z ⟨rfl, hz⟩
  rw [hflat, List.nil_append] at hz
  refine Prog.wp_seq (host_readsResponse (Nat.zero_le 14) (Or.inl rfl) _ hz) fun r u hu => ?_
  cases r with
  | error e => exact hu
  | ok response =>
    dsimp only
    split <;> exact hu

theorem host_setsUp (hpath : env.vsockUnixPath.isSome)
    (h : At .host said heard [] (k + 15 + (connectText port).length + 1) x) :
    (setupGuestBus env port.toNat root).wp (linkSpec versions port root)
      (fun _ y => At .host said heard
        (if Path.isAbsolute root then connectText port else []) k y) x := by
  unfold setupGuestBus
  by_cases habs : Path.isAbsolute root
  · rw [if_neg (not_not.mpr habs), if_pos habs]
    refine Prog.wp_seq (host_asksAll (k := k + 1) hpath (h.mono (by omega))) fun r y hy => ?_
    cases r with
    | error e => exact hy.mono (by omega)
    | ok _ =>
      dsimp only
      rw [if_neg (not_not.mpr env.busName_valid), if_neg (not_not.mpr env.objectPath_valid)]
      refine ⟨hy.hostPre trivial, ?_⟩
      rintro r z ⟨hparty, hleft, hr⟩
      cases r with
      | some e => exact hy.spend hparty hleft hr
      | none =>
        exact hy.add (e := .serving root) hparty hleft hr (by simp [Portal.said])
          (by simp [received]) (by simp [Portal.said])
  · rw [if_pos habs, if_neg habs]
    exact h.mono (by omega)

/-- How many calls the host makes at most. -/
def hostCalls (versions : List UInt8) (port : BitVec 32) (root : Path) : Nat :=
  16 + (connectText port).length + root.length + versions.length + 10

theorem host_session (husize : 32 ≤ env.usizeBits) (hpath : env.vsockUnixPath.isSome)
    (hversions : versions.length < 256) (hone : 1 ∈ versions) (hroot : root.length < 2 ^ 32)
    (h : At .host [] [] [] (hostCalls versions port root) x) :
    (hostSession env).wp (linkSpec versions port root) (fun r y =>
      (∃ result, r = .ok ((port.toNat, root), result)) ∧
      At .host [1] (script versions port root .guest)
        (if Path.isAbsolute root then connectText port else []) 0 y) x := by
  refine Prog.wp_seq (host_receivesInfo (k := 16 + (connectText port).length) husize hversions hone
    hroot h) ?_
  rintro _ y ⟨rfl, hy⟩
  refine Prog.wp_seq (host_setsUp (k := 0) hpath (hy.mono (by omega))) fun result z hz => ?_
  exact ⟨⟨result, rfl⟩, hz⟩

end

/-! ## Both ends together -/

/-- What is left on return: the guest does not get that far. -/
def Finished (versions : List UInt8) (port : BitVec 32) (root : Path) (d : Done) (x : Phase) :
    Prop :=
  match d with
  | .guest => False
  | .host r => (∃ result, r = .ok ((port.toNat, root), result)) ∧
      At .host [1] (script versions port root .guest)
        (if Path.isAbsolute root then connectText port else []) 0 x

/-- What holds in every state that the two ends can reach. -/
structure Agreed (versions : List UInt8) (port : BitVec 32) (root : Path)
    (s : Pool Call Party (Link × Nat) Done) : Prop where
  /-- The host says 1, and nothing else, when it has heard the versions and nothing else. -/
  reply : ∀ before bytes after,
    (s.world.1.log .host).trace = before ++ .sent .conn bytes :: after →
      bytes = [1] ∧ received .conn before = offer versions
  consumed : received .conn (s.world.1.log .host).trace <+: offer versions ++ info port root
  text : said .vsock (s.world.1.log .host).trace <+: connectText port
  /-- Where the host has decoded what the guest has said, that is what the guest encoded, and
  nothing of it is left over. -/
  decoded : ∀ r, s.result? .host = some (.host r) →
    (∃ result, r = .ok ((port.toNat, root), result)) ∧
    received .conn (s.world.1.log .host).trace = offer versions ++ info port root ∧
    said .conn (s.world.1.log .guest).trace = offer versions ++ info port root ∧
    s.world.1.inbox .host = [] ∧ said .conn (s.world.1.log .host).trace = [1] ∧
    said .vsock (s.world.1.log .host).trace =
      if Path.isAbsolute root then connectText port else []
  bounded : s.world.2 ≤ guestCalls versions root + hostCalls versions port root
  /-- Until the host is done, one of the two can go on. -/
  progress : s.result? .host = none →
    ∃ t ch, (s.step Link.kernel.counted t ch).world.2 = s.world.2 + 1

section

variable {env : HostEnv} {versions : List UInt8} {port : BitVec 32} {root : Path}

theorem handshake_good {junk : Junk} (husize : 32 ≤ env.usizeBits)
    (hpath : env.vsockUnixPath.isSome) (hversions : versions.length < 256) (hone : 1 ∈ versions)
    (hroot : root.length < 2 ^ 32) :
    (handshake env versions junk port root).Good (linkSpec versions port root)
      (Finished versions port root)
      (LinkInv versions port root (guestCalls versions root + hostCalls versions port root)) := by
  let k : Party → Nat
    | .guest => guestCalls versions root
    | .host => hostCalls versions port root
  have hat : ∀ t, At t [] [] [] (k t) ⟨t, Log.empty, k t⟩ := fun t => ⟨rfl, rfl, rfl, rfl, le_rfl⟩
  refine ⟨fun t => some ⟨t, Log.empty, k t⟩, ⟨⟨k, fun _ => rfl, Nat.zero_add _ ▸ rfl⟩, fun _ => rfl,
    fun _ => rfl, fun _ => List.nil_prefix, List.nil_prefix, fun before _ _ heq => ?_⟩, fun t => ?_⟩
  · exact absurd heq (by simp [handshake, Link.start, Log.empty])
  · cases t with
    | guest => exact Prog.wp_seq (guest_session (hat .guest)) fun _ _ h => h.elim
    | host =>
      have hhost := host_session husize hpath hversions hone hroot (hat .host)
      exact Prog.wp_seq hhost fun _ _ h => h

/-- What an end has said and heard where it waits for the other. -/
def Waits (versions : List UInt8) (port : BitVec 32) (root : Path) (x : Phase) : Prop :=
  match x.party with
  | .guest => x.heard = [] ∧ x.said .conn = offer versions ∨
      x.said .conn = script versions port root .guest
  | .host => x.heard.length < (script versions port root .guest).length ∧
      (x.said .conn = [] → x.heard.length < (offer versions).length)

/-- A call can be executed, unless it waits for bytes that have not been sent. -/
theorem exec_or_waits {w : Link} {x : Phase} {β : Type} {c : Call β}
    (hpre : (linkSpec versions port root).pre x c) :
    (∃ ch, (Link.exec x.party c w ch).isSome) ∨
      (w.inbox x.party = [] ∧ Waits versions port root x) := by
  obtain ⟨t, l, k⟩ := x
  obtain ⟨-, hmay⟩ := hpre
  have hread : ∀ count, 0 < count → w.inbox t ≠ [] →
      (Link.exec t (.read .conn count) w (.count 1)).isSome := by
    intro count hcount hne
    have hpos := List.length_pos_iff.mpr hne
    simp only [Link.exec]
    rw [if_pos ⟨Nat.one_pos, hcount, hpos⟩]
    rfl
  cases c with
  | socket => exact Or.inl ⟨.ok, rfl⟩
  | connect s => exact Or.inl ⟨.ok, rfl⟩
  | write s bytes =>
    refine Or.inl ⟨.count bytes.length, ?_⟩
    simp only [Link.exec]
    rw [if_pos ⟨le_rfl, List.length_eq_zero_iff.mp⟩]
    rfl
  | read s count =>
    by_cases hinbox : w.inbox t = []
    · cases t with
      | guest => exact Or.inr ⟨hinbox, hmay.2.2⟩
      | host =>
        cases s with
        | conn => exact Or.inr ⟨hinbox, hmay.2⟩
        | vsock => exact Or.inl ⟨.bytes [], rfl⟩
    · cases t with
      | guest =>
        obtain ⟨rfl, rfl, -⟩ := hmay
        exact Or.inl ⟨_, hread 1 Nat.one_pos hinbox⟩
      | host =>
        cases s with
        | conn => exact Or.inl ⟨_, hread count hmay.1 hinbox⟩
        | vsock => exact Or.inl ⟨.bytes [], rfl⟩
  | build root => exact Or.inl ⟨.ok, rfl⟩
  | close s => cases t <;> exact hmay.elim
  | nextMessage => cases t <;> exact hmay.elim
  | msg text => cases t <;> exact hmay.elim
  | exit status => cases t <;> exact hmay.elim
  | panic reason => cases t <;> exact hmay.elim

/-- The two ends never wait for each other. -/
theorem not_both_wait {N n : Nat} {w : Link} {ph : Party → Option Phase} {g h : Phase}
    (hinv : LinkInv versions port root N (w, n) ph) (hg : ph .guest = some g)
    (hh : ph .host = some h) (hgw : w.inbox .guest = [] ∧ Waits versions port root g)
    (hhw : w.inbox .host = [] ∧ Waits versions port root h) : False := by
  obtain ⟨k, hk, -⟩ := hinv.phases
  obtain rfl := Option.some.inj ((hk .guest).symm.trans hg)
  obtain rfl := Option.some.inj ((hk .host).symm.trans hh)
  obtain ⟨hgin, hgw⟩ := hgw
  obtain ⟨hhin, hlt, hoffer⟩ := hhw
  -- Everything that has been said has been heard.
  have htoHost : said .conn (w.log .guest).trace = received .conn (w.log .host).trace := by
    have := hinv.stream .host
    rwa [hhin, List.append_nil] at this
  have htoGuest : said .conn (w.log .host).trace = received .conn (w.log .guest).trace := by
    have := hinv.stream .guest
    rwa [hgin, List.append_nil] at this
  simp only [Phase.said, Phase.heard] at hlt hoffer
  rcases hgw with ⟨hheard, hsaid⟩ | hsaid
  · have hlt' := hoffer (htoGuest.trans hheard)
    rw [← htoHost, show said .conn (w.log .guest).trace = _ from hsaid] at hlt'
    exact lt_irrefl _ hlt'
  · rw [← htoHost, show said .conn (w.log .guest).trace = _ from hsaid] at hlt
    exact lt_irrefl _ hlt

/-- A process that has not returned can make its call, or waits. -/
theorem goes_or_waits {N : Nat} {s : Pool Call Party (Link × Nat) Done}
    {ph : Party → Option Phase} {t : Party}
    (hinv : LinkInv versions port root N s.world ph)
    (hph : Pool.Phased (linkSpec versions port root) (Finished versions port root) s.thread ph)
    (hret : s.result? t = none) :
    (∃ ch, (s.step Link.kernel.counted t ch).world.2 = s.world.2 + 1) ∨
      ∃ x, ph t = some x ∧ s.world.1.inbox t = [] ∧ Waits versions port root x := by
  obtain ⟨k, hk, -⟩ := hinv.phases
  have hlive : s.thread t ≠ none := by
    rw [ne_eq, hph.eq_none, hk t]
    exact nofun
  obtain ⟨p, hp⟩ := Option.ne_none_iff_exists'.mp hlive
  obtain ⟨x, hx, hwp⟩ := hph.get hp
  have hparty : x.party = t := by
    rw [← Option.some.inj ((hk t).symm.trans hx)]
  cases hq : p.ask with
  | none =>
    obtain ⟨d, rfl⟩ := Prog.eq_ret_of_ask hq
    simp [Pool.result?, hp, Prog.returned?] at hret
  | some q =>
    rcases exec_or_waits (Prog.wp_ask hwp hq).1 with ⟨ch, hch⟩ | hwait
    · rw [hparty] at hch
      exact Or.inl ⟨ch, Pool.step_counted hp hq hch⟩
    · rw [hparty] at hwait
      exact Or.inr ⟨x, hx, hwait⟩

/-- What every run of the two programs comes to. -/
theorem agreed_of_path {junk : Junk} (husize : 32 ≤ env.usizeBits)
    (hpath : env.vsockUnixPath.isSome) (hversions : versions.length ≤ 255) (hone : 1 ∈ versions)
    (hroot : root.length < 2 ^ 32 - 1) (sched : List (Party × Choice)) :
    Agreed versions port root
      ((handshake env versions junk port root).run Link.kernel.counted sched) := by
  have hshort : root.length < 2 ^ 32 := by omega
  have hgood : ((handshake env versions junk port root).run Link.kernel.counted sched).Good
      (linkSpec versions port root) (Finished versions port root) (LinkInv versions port root _) :=
    (link_modular _).run (fun _ _ => trivial)
      (handshake_good husize hpath (Nat.lt_succ_of_le hversions) hone hshort)
  generalize (handshake env versions junk port root).run Link.kernel.counted sched = s at hgood
  obtain ⟨ph, hinv, hph⟩ := hgood
  obtain ⟨k, hk, hsum⟩ := hinv.phases
  have hstream := hinv.stream .host
  refine ⟨hinv.reply, ?_, hinv.text, fun r hr => ?_, by omega, fun hr => ?_⟩
  · exact (List.prefix_append _ _).trans (hstream ▸ hinv.scripts .guest)
  · obtain ⟨p, hp, hret⟩ := Option.bind_eq_some_iff.mp hr
    obtain rfl := Prog.eq_ret_of_returned? hret
    obtain ⟨x, hx, hfin⟩ := hph.get hp
    obtain rfl := Option.some.inj ((hk .host).symm.trans hx)
    obtain ⟨hresult, hat⟩ := hfin
    have hheard : received .conn (s.world.1.log .host).trace = script versions port root .guest :=
      hat.heard
    have hscript := hinv.scripts .guest
    have hpeer : s.world.1.log .guest = s.world.1.log Party.host.peer := rfl
    rw [hpeer, hstream, hheard] at hscript
    have hempty : s.world.1.inbox .host = [] := by
      have hlen := hscript.length_le
      rw [List.length_append] at hlen
      exact List.length_eq_zero_iff.mp (by omega)
    refine ⟨hresult, hheard, ?_, hempty, hat.said, hat.text⟩
    rw [show s.world.1.log .guest = s.world.1.log Party.host.peer from rfl, hstream, hheard, hempty,
      List.append_nil]
    rfl
  · rcases goes_or_waits hinv hph hr with ⟨ch, hch⟩ | ⟨h, hh, hhw⟩
    · exact ⟨.host, ch, hch⟩
    -- The guest has not returned, so it is the guest's turn.
    have hguest : s.result? .guest = none := by
      by_contra hne
      obtain ⟨d, hd⟩ := Option.ne_none_iff_exists'.mp hne
      obtain ⟨p, hp, hret⟩ := Option.bind_eq_some_iff.mp hd
      obtain rfl := Prog.eq_ret_of_returned? hret
      obtain ⟨x, hx, hfin⟩ := hph.get hp
      obtain rfl := Option.some.inj ((hk .guest).symm.trans hx)
      cases d with
      | guest => exact hfin
      | host r => cases hfin.2.party
    rcases goes_or_waits hinv hph hguest with ⟨ch, hch⟩ | ⟨g, hg, hgw⟩
    · exact ⟨.guest, ch, hch⟩
    · exact (not_both_wait hinv hg hh hgw hhw).elim

/-- **The two halves of the handshake agree.** Let a guest that offers up to 255 versions, 1 among
them, and a share root whose length fits into 32 bits talk to a host that has the path of its VSOCK
socket, as every connection has that `run` serves (`vsockUnixPath_of_run`). However the bytes of
either are split and whoever goes when, `Agreed` holds. -/
theorem handshake_agrees {junk : Junk} (husize : 32 ≤ env.usizeBits)
    (hpath : env.vsockUnixPath.isSome) (hversions : versions.length ≤ 255) (hone : 1 ∈ versions)
    (hroot : root.length < 2 ^ 32 - 1) (sched : List (Party × Choice)) :
    Agreed versions port root
      ((handshake env versions junk port root).run Link.kernel.counted sched) :=
  agreed_of_path husize hpath hversions hone hroot sched

/-- The versions and the port in pieces, and a share root that the host accepts: Cloud Hypervisor is
asked for port 7 and says yes. -/
theorem handshake_agrees_split :
    let sched : List (Party × Choice) := [(.guest, .ok), (.guest, .ok), (.guest, .count 1),
      (.host, .count 1), (.guest, .count 1), (.host, .count 1), (.host, .count 1),
      (.guest, .count 1), (.guest, .count 4), (.host, .count 3), (.host, .count 1),
      (.guest, .count 4), (.host, .count 4), (.guest, .count 2), (.host, .count 2),
      (.host, .ok), (.host, .count 8), (.host, .count 1), (.host, .count 1),
      (.host, .bytes (ascii ['O', 'K', ' ', '1', '\n'])), (.host, .ok)]
    let root := ascii ['/', 'h']
    let s := (handshake plainHost [1] ⟨0, 0, 0⟩ 7 root).run Link.kernel.counted sched
    Agreed [1] 7 root s ∧
      (∃ result, s.result? .host = some (.host (.ok ((7, root), result)))) ∧
      said .vsock (s.world.1.log .host).trace = connectText 7 := by
  intro sched root s
  have hagreed : Agreed [1] 7 root s :=
    handshake_agrees (by decide) rfl (by decide) (by decide) (by decide) _
  have hdone : (s.result? .host).any (fun d => d matches .host _) = true := by
    decide +kernel
  obtain ⟨d, hresult, hd⟩ := (Option.any_eq_true _ _).mp hdone
  cases d with
  | guest => cases hd
  | host r =>
    obtain ⟨⟨result, rfl⟩, -, -, -, -, htext⟩ := hagreed.decoded _ hresult
    exact ⟨hagreed, ⟨result, hresult⟩, htext.trans (if_pos (by decide))⟩

end

end Spectrum.Portal
