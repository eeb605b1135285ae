import Spectrum.Portal.FileChooser
import Spectrum.Portal.Guest
import Spectrum.Portal.Host

/-!
# A guest cannot crash the host

The guest chooses every byte that the host receives: how many versions it offers, the port, the
length of its share root, the share root itself, and, through the socket it makes Cloud Hypervisor
connect to, the answer to the host's own request. **None of it makes an `unwrap`, a slice or a
conversion of `run_guest_connection` fail**, and bytes that are not a complete introduction of a
guest end in an error.

`Stage` is what is known about the host while it is still listening: which bytes it has got so far,
and how many calls it has made. Every function of the host has one rule that takes a stage to a
stage. The calls are counted so that "ends in an error" is more than "does not end well": until the
file chooser is served there are at most `maxCalls` of them.
-/

set_option autoImplicit false

namespace Spectrum.Portal

open Interact Bytes

/-! ## What a guest may say -/

/-- The bytes received from a socket. -/
def received (s : Sock) (trace : List Event) : List UInt8 :=
  trace.flatMap fun e =>
    match e with
    | .got s' bytes => if s' = s then bytes else []
    | _ => []

@[simp] theorem received_append (s : Sock) (a b : List Event) :
    received s (a ++ b) = received s a ++ received s b := List.flatMap_append

/-- The versions a guest offers, with their number. -/
def offer (versions : List UInt8) : List UInt8 := UInt8.ofNat versions.length :: versions

/-- All that a guest has to say. -/
def Introduction (bytes : List UInt8) (port : Nat) (root : Path) : Prop :=
  ∃ versions, versions.length < 256 ∧ 1 ∈ versions ∧ port < 2 ^ 32 ∧ root.length < 2 ^ 32 ∧
    bytes = offer versions ++ (htonl port ++ (htonl root.length ++ root))

/-- What the host has to have heard before it serves the file chooser for a share root. -/
structure Accepted (trace : List Event) (root : Path) : Prop where
  introduction : ∃ port, Introduction (received .conn trace) port root
  absolute : Path.isAbsolute root
  response : ascii ['O', 'K', ' '] <+: received .vsock trace

def Serving (w : Log) : Prop := ∃ root, .serving root ∈ w.trace

/-- The host has not panicked, and serves the file chooser only to a guest that it has accepted. -/
structure Unharmed (w : Log) : Prop where
  noPanic : ∀ reason, w.ended ≠ some (.panicked reason)
  served : ∀ before root after, w.trace = before ++ .serving root :: after → Accepted before root

/-- A panic in `transform_uris` comes from `share_file`, not from the share root. -/
def RootUsable (root : Path) : Prop :=
  ∀ (env : ChooserEnv) (answers : Nat → Answers) (uris : Value) (writable : Bool),
    (∀ p, Path.isAbsolute p → (env.fromFilePath p).isSome) →
    (∀ docId basename, (env.fromFilePath (Path.join root (documentPath docId basename))).isSome) ∧
    ∀ calls reason, transformUris env root answers uris writable = (calls, .error (.panic reason)) →
      ∃ list, uris.strings? = some list ∧ Blocked env root answers writable 0 list

/-- The version offer, the port and the share root are read byte by byte in the worst case. -/
def maxCalls : Nat := 2 ^ 32 + 400

/-- What is promised of a run of `run_guest_connection`. -/
structure HostSafe (r : Run (Except String Unit) (Log × Nat)) : Prop where
  noPanic : ∀ reason, r.world.1.ended ≠ some (.panicked reason)
  served : ∀ before root after, r.world.1.trace = before ++ .serving root :: after →
    Accepted before root ∧ RootUsable root
  bounded : ¬ Serving r.world.1 → r.world.2 ≤ maxCalls
  accepted : ∀ x, r = .returned (.ok ()) x → Serving x.1

/-! ## Stages -/

def hostSpec : Spec Call (Log × Nat) := (logSpec Unharmed).within maxCalls Serving

/-- The bytes heard, with some more from `s`. -/
def hear (heard : Sock → List UInt8) (s : Sock) (bytes : List UInt8) : Sock → List UInt8 :=
  Function.update heard s (heard s ++ bytes)

@[simp] theorem hear_hear (heard : Sock → List UInt8) (s : Sock) (a b : List UInt8) :
    hear (hear heard s a) s b = hear heard s (a ++ b) := by
  simp [hear]

@[simp] theorem hear_nil (heard : Sock → List UInt8) (s : Sock) : hear heard s [] = heard := by
  simp [hear]

/-- The host is listening: it has heard `heard`, in at most `k` calls. -/
structure Stage (heard : Sock → List UInt8) (k : Nat) (x : Log × Nat) : Prop where
  going : x.1.ended = none
  quiet : ∀ root, .serving root ∉ x.1.trace
  heard : ∀ s, received s x.1.trace = heard s
  calls : x.2 ≤ k

theorem Stage.add {heard : Sock → List UInt8} {k : Nat} {x y : Log × Nat} (h : Stage heard k x)
    {e : Event} (he : ∀ root, e ≠ .serving root) (hlog : y.1 = x.1.add e) (hcalls : y.2 = x.2 + 1)
    {heard' : Sock → List UInt8} (hheard : ∀ s, heard s ++ received s [e] = heard' s) :
    Stage heard' (k + 1) y where
  going := by
    rw [hlog]
    exact h.going
  quiet root hmem := by
    rw [hlog] at hmem
    rcases List.mem_append.mp hmem with hmem | hmem
    · exact h.quiet root hmem
    · exact he root (List.mem_singleton.mp hmem).symm
  heard s := by
    rw [hlog, Log.add, received_append, h.heard s, hheard s]
  calls := by
    rw [hcalls]
    exact Nat.succ_le_succ h.calls

theorem Stage.sent {heard : Sock → List UInt8} {k : Nat} {x y : Log × Nat} (h : Stage heard k x)
    {s : Sock} {bytes : List UInt8} (hlog : y.1 = x.1.add (.sent s bytes))
    (hcalls : y.2 = x.2 + 1) : Stage heard (k + 1) y :=
  h.add (e := .sent s bytes) (fun _ => nofun) hlog hcalls fun _ => List.append_nil _

theorem Stage.got {heard : Sock → List UInt8} {k : Nat} {x y : Log × Nat} (h : Stage heard k x)
    {s : Sock} {bytes : List UInt8} (hlog : y.1 = x.1.add (.got s bytes))
    (hcalls : y.2 = x.2 + 1) : Stage (hear heard s bytes) (k + 1) y := by
  refine h.add (e := .got s bytes) (fun _ => nofun) hlog hcalls fun s' => ?_
  by_cases hs : s' = s
  · subst hs
    simp [received, hear]
  · simp [received, hear, Function.update_of_ne hs, Ne.symm hs]

theorem Stage.mono {heard : Sock → List UInt8} {k k' : Nat} {x : Log × Nat} (h : Stage heard k x)
    (hk : k ≤ k') : Stage heard k' x :=
  { h with calls := h.calls.trans hk }

/-! ## Transfers -/

section

variable {heard : Sock → List UInt8} {k : Nat} {x : Log × Nat}

theorem wp_read {s : Sock} {n : Nat} (h : Stage heard k x) (hk : k + n ≤ maxCalls) :
    (readExact (Call.read s) n).wp hostSpec (fun r y =>
      match r with
      | .ok bytes => bytes.length = n ∧ Stage (hear heard s bytes) (k + n) y
      | .error _ => y.2 ≤ k + n) x := by
  refine Prog.wp_readExact (fun got y => Stage (hear heard s got) (k + got.length) y)
    (by simpa using h) ?_ fun got y hn hy => ⟨hn, by simpa [hn] using hy⟩
  intro got y hlt hy
  have hcalls := hy.calls
  refine ⟨⟨trivial, Or.inl (by omega)⟩, ?_⟩
  rintro r z ⟨hr, hz⟩
  cases r with
  | error e =>
    dsimp only
    omega
  | ok bytes =>
    obtain ⟨hle, hlog⟩ := hr
    refine ⟨fun _ => by dsimp only; omega, fun hne => ⟨by omega, ?_⟩⟩
    rw [if_neg hne] at hlog
    have hpos := List.length_pos_iff.mpr hne
    have hgot := hy.got hlog hz
    rw [hear_hear] at hgot
    exact hgot.mono (by simp; omega)

theorem wp_write {s : Sock} {bytes : List UInt8} (h : Stage heard k x)
    (hk : k + bytes.length ≤ maxCalls) :
    (writeAll (Call.write s) bytes).wp hostSpec (fun r y =>
      match r with
      | .ok () => Stage heard (k + bytes.length) y
      | .error _ => y.2 ≤ k + bytes.length) x := by
  refine Prog.wp_writeAll (fun rest y => ∃ j, Stage heard j y ∧ j + rest.length ≤ k + bytes.length)
    ⟨k, h, le_rfl⟩ ?_ fun y ⟨j, hy, hj⟩ => hy.mono hj
  rintro rest y hne ⟨j, hy, hj⟩
  have hpos := List.length_pos_iff.mpr hne
  have hcalls := hy.calls
  refine ⟨⟨trivial, Or.inl (by omega)⟩, ?_⟩
  rintro r z ⟨hr, hz⟩
  cases r with
  | error e =>
    dsimp only
    omega
  | ok n =>
    obtain ⟨hle, hlog⟩ := hr
    refine ⟨fun _ => by dsimp only; omega, fun hn => ⟨j + 1, hy.sent hlog hz, ?_⟩⟩
    rw [List.length_drop]
    omega

/-! ## The introduction of the guest -/

variable {env : HostEnv}

theorem wp_receiveU32 (h : Stage heard k x) (hk : k + 4 ≤ maxCalls) :
    receiveU32.wp hostSpec (fun r y =>
      match r with
      | .ok n => n < 2 ^ 32 ∧ Stage (hear heard .conn (htonl n)) (k + 4) y
      | .error _ => y.2 ≤ k + 4) x := by
  refine Prog.wp_seq (wp_read h hk) fun r y hr => ?_
  cases r with
  | error e => exact hr
  | ok buf =>
    obtain ⟨hlen, hy⟩ := hr
    have hlt := ofBE_lt buf
    rw [hlen] at hlt
    refine ⟨hlt, ?_⟩
    rw [htonl, toBE_ofBE hlen]
    exact hy

theorem wp_receiveBytestring (husize : 32 ≤ env.usizeBits) (h : Stage heard k x)
    (hk : k + 4 + 2 ^ 32 ≤ maxCalls) :
    (receiveBytestring env).wp hostSpec (fun r y =>
      match r with
      | .ok root => root.length < 2 ^ 32 ∧
          Stage (hear heard .conn (htonl root.length ++ root)) (k + 4 + 2 ^ 32) y
      | .error _ => y.2 ≤ k + 4 + 2 ^ 32) x := by
  refine Prog.wp_seq (wp_receiveU32 h (by omega)) fun r y hr => ?_
  cases r with
  | error e => exact hr.trans (by omega)
  | ok len =>
    obtain ⟨hlen, hy⟩ := hr
    -- The conversion to `usize` cannot fail.
    have hfits : ¬ 2 ^ env.usizeBits ≤ len :=
      Nat.not_le.mpr (hlen.trans_le (Nat.pow_le_pow_right (by omega) husize))
    dsimp only
    rw [if_neg hfits]
    refine Prog.wp_seq (wp_read hy (by omega)) fun r z hr => ?_
    cases r with
    | error e => exact hr.trans (by omega)
    | ok buf =>
      obtain ⟨hbuf, hz⟩ := hr
      rw [hear_hear] at hz
      refine ⟨hbuf ▸ hlen, ?_⟩
      rw [hbuf]
      exact hz.mono (by omega)

theorem wp_negotiateVersion (h : Stage heard k x) (hk : k + 257 ≤ maxCalls) :
    (negotiateVersion env).wp hostSpec (fun r y =>
      match r with
      | .ok () => ∃ versions : List UInt8, versions.length < 256 ∧ 1 ∈ versions ∧
          Stage (hear heard .conn (offer versions)) (k + 257) y
      | .error _ => y.2 ≤ k + 257) x := by
  refine Prog.wp_seq (wp_read h (by omega)) fun r y hr => ?_
  cases r with
  | error e => exact hr.trans (by omega)
  | ok numVersions =>
    obtain ⟨hone, hy⟩ := hr
    obtain ⟨n, rfl⟩ := List.length_eq_one_iff.mp hone
    have hn := n.toNat_lt
    refine Prog.wp_seq (wp_read hy (by simp; omega)) fun r z hr => ?_
    cases r with
    | error e => exact hr.trans (by simp; omega)
    | ok versions =>
      obtain ⟨hlen, hz⟩ := hr
      change versions.length = n.toNat at hlen
      dsimp only
      split
      · exact hz.calls.trans (by simp; omega)
      · next hmem =>
        refine Prog.wp_seq (wp_write hz (by simp; omega)) fun r u hr => ?_
        have hle : k + 1 + n.toNat + 1 ≤ k + 257 := by omega
        cases r with
        | error e => exact hr.trans hle
        | ok _ =>
          have hoffer : offer versions = [n] ++ versions := by
            simp [offer, hlen]
          refine ⟨versions, by omega, Decidable.not_not.mp hmem, ?_⟩
          rw [hoffer, ← hear_hear]
          exact hr.mono hle

theorem wp_receiveInfo (husize : 32 ≤ env.usizeBits) (h : Stage heard k x)
    (hk : k + 265 + 2 ^ 32 ≤ maxCalls) :
    (receiveInfo env).wp hostSpec (fun r y =>
      match r with
      | .ok (port, root) => ∃ bytes, Introduction bytes port root ∧
          Stage (hear heard .conn bytes) (k + 265 + 2 ^ 32) y
      | .error _ => y.2 ≤ k + 265 + 2 ^ 32) x := by
  refine Prog.wp_seq (wp_negotiateVersion h (by omega)) fun r y hr => ?_
  cases r with
  | error e => exact hr.trans (by omega)
  | ok _ =>
    obtain ⟨versions, hlen, hone, hy⟩ := hr
    refine Prog.wp_seq (wp_receiveU32 hy (by omega)) fun r z hr => ?_
    cases r with
    | error e => exact hr.trans (by omega)
    | ok port =>
      obtain ⟨hport, hz⟩ := hr
      refine Prog.wp_seq (wp_receiveBytestring husize hz (by omega)) fun r u hr => ?_
      cases r with
      | error e => exact hr.trans (by omega)
      | ok root =>
        obtain ⟨hroot, hu⟩ := hr
        rw [hear_hear, hear_hear] at hu
        exact ⟨_, ⟨versions, hlen, hone, hport, hroot, rfl⟩, hu.mono (by omega)⟩

/-! ## The bus of the guest -/

theorem wp_writeParts (parts : List (List UInt8)) (h : Stage heard k x)
    (hk : k + parts.flatten.length ≤ maxCalls) :
    (writeParts env parts).wp hostSpec (fun r y =>
      match r with
      | .ok () => Stage heard (k + parts.flatten.length) y
      | .error _ => y.2 ≤ k + parts.flatten.length) x := by
  induction parts generalizing k x with
  | nil => exact h
  | cons part parts ih =>
    rw [List.flatten_cons, List.length_append] at hk ⊢
    refine Prog.wp_seq (wp_write h (by omega)) fun r y hr => ?_
    cases r with
    | error e => exact hr.trans (by omega)
    | ok _ =>
      have hrest := ih hr (by omega)
      rw [Nat.add_assoc] at hrest
      exact hrest

theorem length_connectParts {port : Nat} (hport : port < 2 ^ 32) :
    (connectParts port).flatten.length ≤ 19 := by
  have hdigits : (Nat.toDigits 10 port).length ≤ 10 :=
    Nat.toDigits_length 10 port 10 (by omega) (by omega)
  simp [connectParts, ascii, length_decimal]
  omega

/-- Reading into the middle of a buffer keeps what is before and after. -/
theorem toList_patch {n : Nat} {buf : Vector UInt8 n} {before rest bytes : List UInt8}
    (hbuf : buf.toList = before ++ rest) (hlen : bytes.length ≤ rest.length) :
    (patch buf before.length bytes).toList = before ++ bytes ++ rest.drop bytes.length := by
  have hn : before.length + rest.length = n := by
    have := congrArg List.length hbuf
    simp at this
    omega
  refine List.ext_getElem? fun j => ?_
  by_cases hj : j < n
  · have hget : some buf[j] = (before ++ rest)[j]? := by
      rw [← hbuf]
      simp [hj]
    have hpatch : (patch buf before.length bytes).toList[j]? = some
        (if before.length ≤ j ∧ j < before.length + bytes.length
          then bytes.getD (j - before.length) 0 else buf[j]) := by
      simp [patch, hj]
    rw [hpatch, List.append_assoc]
    split
    · next hin =>
      rw [List.getElem?_append_right hin.1, List.getElem?_append_left (by omega)]
      simp [List.getD, show j - before.length < bytes.length by omega]
    · next hout =>
      rw [hget]
      by_cases hbefore : j < before.length
      · rw [List.getElem?_append_left hbefore, List.getElem?_append_left hbefore]
      · rw [List.getElem?_append_right (by omega), List.getElem?_append_right (by omega),
          List.getElem?_append_right (by omega), List.getElem?_drop]
        congr 1
        omega
  · rw [List.getElem?_eq_none (by simp; omega), List.getElem?_eq_none (by simp; omega)]

/-- One round: the loop ends behind a newline or where the buffer is full, and reads on otherwise,
the five bytes of the shortest response first. -/
theorem readResponse_round {len : Nat} (hmax : len ≤ 14) (hmin : len = 0 ∨ minResponseLen ≤ len)
    (response : Vector UInt8 14) :
    (minResponseLen ≤ len ∧ (len = 14 ∨ response[len - 1]? = some 10) ∧
      readResponse env response len = .ret (.ok response)) ∨
    ∃ stop, len < stop ∧ stop ≤ 14 ∧ minResponseLen ≤ stop ∧
      (len = 0 ∧ stop = minResponseLen ∨ response[len - 1]? ≠ some 10 ∧ stop = len + 1) ∧
      readResponse env response len =
        (readExact (Call.read .vsock) (stop - len)).bind fun r =>
          match r with
          | .error e => .ret (.error s!"reading VSOCK connection response: {env.display e}")
          | .ok bytes => readResponse env (patch response len bytes) stop := by
  rw [readResponse]
  unfold minResponseLen at hmin ⊢
  dsimp only
  by_cases hmore : (if len = 0 then none else response[len - 1]?) ≠ some 10 ∧ len < response.size
  · right
    have hlt : len < 14 := hmore.2
    rw [dif_pos hmore]
    rcases hmin with rfl | hmin
    · exact ⟨5, by decide, by decide, by decide, Or.inl ⟨rfl, rfl⟩, rfl⟩
    · have hlast := hmore.1
      rw [if_neg (by omega)] at hlast
      have hstop : max (5 - len) (len + 1) = len + 1 := by omega
      rw [hstop, if_pos ⟨by omega, hlt⟩]
      exact ⟨len + 1, by omega, hlt, by omega, Or.inr ⟨hlast, rfl⟩, rfl⟩
  · left
    rw [dif_neg hmore]
    have hnonzero : len ≠ 0 := by
      intro hzero
      subst hzero
      exact hmore ⟨by simp, Nat.succ_pos 13⟩
    rw [if_neg hnonzero] at hmore
    refine ⟨by omega, ?_, rfl⟩
    by_contra hnot
    push Not at hnot
    exact hmore ⟨hnot.2, lt_of_le_of_ne hmax hnot.1⟩

/-- The response is as long as the shortest one at least, or nothing has been read yet. -/
theorem wp_readResponse {len : Nat} {response : Vector UInt8 14} {bytes : List UInt8}
    (hlen : bytes.length = len) (hmax : len ≤ 14) (hmin : len = 0 ∨ minResponseLen ≤ len)
    (hresponse : response.toList = bytes ++ List.replicate (14 - len) 0)
    (h : Stage (hear heard .vsock bytes) (k + len) x) (hk : k + 14 ≤ maxCalls) :
    (readResponse env response len).wp hostSpec (fun r y =>
      match r with
      | .ok response => ∃ bytes rest, minResponseLen ≤ bytes.length ∧
          response.toList = bytes ++ rest ∧ Stage (hear heard .vsock bytes) (k + 14) y
      | .error _ => y.2 ≤ k + 14) x := by
  -- Every round makes the part of the buffer that is left shorter.
  induction hleft : 14 - len using Nat.strong_induction_on generalizing len response bytes x with
  | h left ih =>
  rcases readResponse_round hmax hmin response with
    ⟨hdone, -, heq⟩ | ⟨stop, hlt, hle, hstop, -, heq⟩
  · rw [heq]
    exact ⟨bytes, _, hlen ▸ hdone, hresponse, h.mono (by omega)⟩
  · rw [heq]
    refine Prog.wp_seq (wp_read h (by omega)) fun r y hr => ?_
    cases r with
    | error e => exact hr.trans (by omega)
    | ok new =>
      obtain ⟨hnew, hy⟩ := hr
      have hsum : k + len + (stop - len) = k + stop := by omega
      rw [hear_hear, hsum] at hy
      have hpatched := toList_patch hresponse (by simp; omega : new.length ≤ _)
      rw [hlen] at hpatched
      refine ih (14 - stop) (by omega) (by simp; omega) hle (Or.inr hstop) ?_ hy rfl
      rw [hpatched, List.drop_replicate, show 14 - len - new.length = 14 - stop by omega]

theorem wp_connectToGuest (hpath : env.vsockUnixPath.isSome) {port : Nat} (hport : port < 2 ^ 32)
    (h : Stage heard k x) (hk : k + 34 ≤ maxCalls) :
    (connectToGuest env port).wp hostSpec (fun r y =>
      match r with
      | .ok () => ∃ bytes, ascii ['O', 'K', ' '] <+: bytes ∧
          Stage (hear heard .vsock bytes) (k + 34) y
      | .error _ => y.2 ≤ k + 34) x := by
  obtain ⟨path, hpath⟩ := Option.isSome_iff_exists.mp hpath
  have hcalls := h.calls
  have hparts := length_connectParts hport
  rw [connectToGuest, hpath]
  refine ⟨⟨trivial, Or.inl (by omega)⟩, ?_⟩
  rintro r y ⟨hr, hy⟩
  cases r with
  | some e =>
    change y.2 ≤ k + 34
    omega
  | none =>
    have hconnected : Stage heard (k + 1) y :=
      h.add (e := .connected .vsock) (fun _ => nofun) hr hy fun _ => List.append_nil _
    change ((writeParts env (connectParts port)).bind _).wp _ _ _
    refine Prog.wp_seq (wp_writeParts _ hconnected (by omega)) fun r z hr => ?_
    cases r with
    | error e => exact hr.trans (by omega)
    | ok _ =>
      have hz := hr.mono (show _ ≤ k + 20 by omega)
      have hstart : Stage (hear heard .vsock []) (k + 20 + 0) z := by
        simpa using hz
      refine Prog.wp_seq (wp_readResponse (by rfl) (Nat.zero_le 14) (Or.inl rfl) (by simp) hstart
        (by omega)) fun r u hr => ?_
      cases r with
      | error e => exact hr
      | ok response =>
        obtain ⟨bytes, rest, hlen, hbuf, hu⟩ := hr
        dsimp only
        split
        · exact hu.calls
        · next hok =>
          refine ⟨bytes, ?_, hu⟩
          -- The first five bytes are not padding.
          have hprefix := Decidable.not_not.mp hok
          rw [hbuf] at hprefix
          exact (List.isPrefix_append_of_length (le_trans (by decide) hlen)).mp hprefix

/-- An event of a trace that has just become longer is the last one, or was there before. -/
theorem snoc_split {trace before after : List Event} {e e' : Event}
    (h : trace ++ [e] = before ++ e' :: after) :
    (trace = before ∧ e = e') ∨ ∃ after', trace = before ++ e' :: after' := by
  rcases List.eq_nil_or_concat after with rfl | ⟨after', last, rfl⟩
  · obtain ⟨htrace, he⟩ := List.append_inj' h rfl
    exact Or.inl ⟨htrace, List.singleton_inj.mp he⟩
  · rw [List.concat_eq_append, ← List.cons_append, ← List.append_assoc] at h
    exact Or.inr ⟨after', (List.append_inj' h rfl).1⟩

/-- The file chooser is served once, after everything has been heard. -/
theorem Stage.serve (h : Stage heard k x) {root : Path} (hacc : Accepted x.1.trace root) :
    Unharmed (x.1.add (.serving root)) where
  noPanic reason := by
    simp [Log.add, h.going]
  served before root' after heq := by
    rcases snoc_split heq with ⟨htrace, he⟩ | ⟨after', htrace⟩
    · cases he
      exact htrace ▸ hacc
    · exact absurd (by simp [htrace]) (h.quiet root')

/-- Nothing has been heard from either socket yet. -/
def silence : Sock → List UInt8 := fun _ => []

theorem wp_setupGuestBus (hpath : env.vsockUnixPath.isSome) {port : Nat} {root : Path}
    {bytes : List UInt8} (hbytes : Introduction bytes port root)
    (h : Stage (hear silence .conn bytes) k x) (hk : k + 35 ≤ maxCalls) :
    (setupGuestBus env port root).wp hostSpec (fun r y => y.2 ≤ k + 35 ∧
      (r = .ok () → Serving y.1)) x := by
  unfold setupGuestBus
  split
  · exact ⟨h.calls.trans (by omega), nofun⟩
  · next habs =>
    have hport : port < 2 ^ 32 := by
      obtain ⟨_, _, _, hport, _⟩ := hbytes
      exact hport
    refine Prog.wp_seq (wp_connectToGuest hpath hport h (by omega)) fun r y hr => ?_
    cases r with
    | error e => exact ⟨hr.trans (by omega), nofun⟩
    | ok _ =>
      obtain ⟨response, hresponse, hy⟩ := hr
      have hconn := hy.heard .conn
      have hvsock := hy.heard .vsock
      simp [hear, silence] at hconn hvsock
      have hacc : Accepted y.1.trace root :=
        ⟨⟨port, hconn ▸ hbytes⟩, Decidable.not_not.mp habs, hvsock ▸ hresponse⟩
      have hcalls := hy.calls
      rw [if_neg (not_not.mpr env.busName_valid), if_neg (not_not.mpr env.objectPath_valid)]
      refine ⟨⟨hy.serve hacc, Or.inl (by omega)⟩, ?_⟩
      rintro r z ⟨hr, hz⟩
      cases r with
      | some e => exact ⟨by omega, nofun⟩
      | none =>
        refine ⟨by omega, fun _ => ⟨root, ?_⟩⟩
        rw [hr]
        simp [Log.add]

theorem wp_handleMessages (hserving : Serving x.1) :
    handleMessages.wp hostSpec (fun r y => r = .ok () → Serving y.1) x := by
  refine Prog.wp_loop (fun _ y => Serving y.1) hserving fun _ y hy => ⟨⟨trivial, Or.inr hy⟩, ?_⟩
  rintro m z ⟨hz, -⟩
  have hserving : Serving z.1 := by
    rw [show z.1 = y.1 from hz]
    exact hy
  refine ⟨fun _ _ => hserving, fun _ => ?_⟩
  cases m <;> exact fun _ => hserving

theorem wp_finishConnection {result : Except String Unit} (hx : x.2 + 2 ≤ maxCalls)
    (hresult : result = .ok () → Serving x.1) :
    (finishConnection result).wp hostSpec (fun r y => r = .ok () → Serving y.1) x := by
  refine ⟨⟨trivial, Or.inl (by omega)⟩, ?_⟩
  rintro _ y ⟨hlog, hy⟩
  cases result with
  | error e => exact nofun
  | ok _ =>
    refine ⟨⟨trivial, Or.inl (by omega)⟩, ?_⟩
    rintro _ z ⟨hlog', -⟩
    have hserving : Serving z.1 := by
      rw [show z.1 = y.1 from hlog', show y.1 = x.1 from hlog]
      exact hresult rfl
    exact wp_handleMessages hserving

theorem wp_tellGuest {result : Except String Unit} (hx : x.2 + 4 ≤ maxCalls)
    (hresult : result = .ok () → Serving x.1) :
    (tellGuest env result).wp hostSpec (fun r y => r = .ok () → Serving y.1) x := by
  have hwrite : ∀ status : UInt8, (writeAll (Call.write .conn) [status]).wp hostSpec
      (fun _ y => y.2 ≤ x.2 + 1 ∧ (result = .ok () → Serving y.1)) x := by
    intro status
    refine Prog.wp_writeAll (fun rest y => y.2 + rest.length ≤ x.2 + 1 ∧
      (result = .ok () → Serving y.1)) ⟨le_rfl, hresult⟩ ?_ fun y hy => ⟨by simpa using hy.1, hy.2⟩
    rintro rest y hne ⟨hcalls, hserving⟩
    have hpos := List.length_pos_iff.mpr hne
    refine ⟨⟨trivial, Or.inl (by omega)⟩, ?_⟩
    rintro r z ⟨hr, hz⟩
    cases r with
    | error e =>
      rw [show z.1 = y.1 from hr]
      exact ⟨by omega, hserving⟩
    | ok n =>
      have hkeep : result = .ok () → Serving z.1 := by
        intro hok
        obtain ⟨root, hmem⟩ := hserving hok
        rw [hr.2]
        exact ⟨root, List.mem_append_left _ hmem⟩
      refine ⟨fun _ => ⟨by omega, hkeep⟩, fun hn => ⟨?_, hkeep⟩⟩
      rw [List.length_drop]
      omega
  refine Prog.wp_seq (hwrite _) fun r y hy => ?_
  cases r with
  | ok _ => exact wp_finishConnection (by omega) hy.2
  | error e =>
    cases result with
    | ok _ => exact nofun
    | error reason =>
      refine ⟨⟨trivial, Or.inl (by omega)⟩, ?_⟩
      rintro _ z ⟨-, hz⟩
      change (finishConnection (.error reason)).wp _ _ _
      exact wp_finishConnection (by omega) nofun

/-- Up to where the guest is told. -/
theorem wp_hostSession (husize : 32 ≤ env.usizeBits) (hpath : env.vsockUnixPath.isSome) :
    (hostSession env).wp hostSpec (fun r y => ∀ info result, r = .ok (info, result) →
      y.2 + 4 ≤ maxCalls ∧ (result = .ok () → Serving y.1)) (Log.empty, 0) := by
  have hstart : Stage silence 0 (Log.empty, 0) := ⟨rfl, fun _ => nofun, fun _ => rfl, le_rfl⟩
  refine Prog.wp_seq (wp_receiveInfo husize hstart (by decide)) fun r y hr => ?_
  cases r with
  | error e => exact fun _ _ => nofun
  | ok said =>
    obtain ⟨bytes, hbytes, hy⟩ := hr
    refine Prog.wp_seq (wp_setupGuestBus hpath hbytes hy (by decide)) fun result z hz => ?_
    rintro info result' heq
    cases heq
    have hcalls := hz.1
    unfold maxCalls
    exact ⟨by omega, hz.2⟩

/-- **The whole connection**, from its first byte on. -/
theorem wp_runGuestConnection (husize : 32 ≤ env.usizeBits) (hpath : env.vsockUnixPath.isSome) :
    (runGuestConnection env).wp hostSpec (fun r y => r = .ok () → Serving y.1) (Log.empty, 0) := by
  rw [runGuestConnection_eq]
  refine Prog.wp_seq (wp_hostSession husize hpath) fun r y hr => ?_
  cases r with
  | error e => exact nofun
  | ok told =>
    obtain ⟨hcalls, hserving⟩ := hr told.1 told.2 rfl
    exact wp_tellGuest hcalls hserving

end

theorem Unharmed.add {w : Log} {e : Event} (he : ∀ root, e ≠ .serving root) (h : Unharmed w) :
    Unharmed (w.add e) where
  noPanic := h.noPanic
  served before root after heq := by
    rcases snoc_split heq with ⟨-, heq⟩ | ⟨after', htrace⟩
    · exact absurd heq (he root)
    · exact h.served before root after' htrace

theorem rootUsable {root : Path} (hroot : Path.isAbsolute root) : RootUsable root := by
  intro env answers uris writable hurl
  refine ⟨fun docId basename => hurl _ (Path.isAbsolute_join hroot _), fun calls reason heq => ?_⟩
  obtain ⟨calls', r, heq', -, hr⟩ := transformUris_cases hroot hurl answers uris writable
  cases heq.symm.trans heq'
  exact hr

/-- What every run of the program comes to. -/
theorem hostSafe_of_path {env : HostEnv} (husize : 32 ≤ env.usizeBits)
    (hpath : env.vsockUnixPath.isSome) (chs : List Choice) :
    HostSafe (kernel.counted.run () (runGuestConnection env) (Log.empty, 0) chs) := by
  have hkernel : kernel.Honours () (logSpec Unharmed) Unharmed :=
    kernel_honours (fun w h => ⟨nofun, h.served⟩) fun w e he h => h.add he
  have hfree : ∀ {β : Type} {c : Call β} {w w' : Log} {ch : Choice} {o : Outcome Unit β},
      kernel.exec () c w ch = some (o, w') → Serving w → Serving w' :=
    fun he ⟨root, hmem⟩ => ⟨root, (exec_trace he).subset hmem⟩
  have hstart : Unharmed Log.empty := ⟨nofun, fun before _ _ heq => by simp [Log.empty] at heq⟩
  obtain ⟨⟨hunharmed, hcalls⟩, hmeets⟩ := (hkernel.counted hfree).run chs
    ⟨hstart, Or.inl (Nat.zero_le _)⟩ (wp_runGuestConnection husize hpath)
  refine ⟨hunharmed.noPanic, fun before root after heq => ?_, fun h => hcalls.resolve_right h,
    fun x hx => ?_⟩
  · have hacc := hunharmed.served before root after heq
    exact ⟨hacc, rootUsable hacc.absolute⟩
  · rw [hx] at hmeets
    exact hmeets rfl

/-- **A guest can do no harm.** Whatever it sends, in whatever pieces, and however the calls of the
host end: there is no panic, the file chooser is served only to a guest that has introduced itself
and whose port Cloud Hypervisor has accepted, with a share root that can be used, and the number of
calls up to there is bounded. The path of the VSOCK socket is there for every connection that `run`
serves (`vsockUnixPath_of_run`). -/
theorem runGuestConnection_safe {env : HostEnv} (husize : 32 ≤ env.usizeBits)
    (hpath : env.vsockUnixPath.isSome) (chs : List Choice) :
    HostSafe (kernel.counted.run () (runGuestConnection env) (Log.empty, 0) chs) :=
  hostSafe_of_path husize hpath chs

/-- A 64-bit host that prints nothing about the data it gets. -/
def plainHost : HostEnv where
  display := fun _ => ""
  debugVersions := fun _ => ""
  debugPath := fun _ => ""
  debugResponse := fun _ => ""
  vsockUnixPath := some (ascii ['/', 'v'])
  usizeBits := 64
  validBusName := fun _ => true
  validObjectPath := fun _ => true
  busName_valid := rfl
  objectPath_valid := rfl

/-- A guest with the share root `h`, which is not absolute, is told so and the connection fails. -/
theorem runGuestConnection_safe_relative :
    let chs : List Choice := [.bytes [1], .bytes [1], .count 1, .bytes [0, 0, 0, 7],
      .bytes [0, 0], .bytes [0, 1], .bytes [104], .count 1, .ok]
    let r := kernel.counted.run () (runGuestConnection plainHost) (Log.empty, 0) chs
    HostSafe r ∧ ∃ e x, r = .returned (.error e) x :=
  ⟨runGuestConnection_safe (by decide) rfl _, _, _, rfl⟩

end Spectrum.Portal
