import Spectrum.Interact.Numeral
import Spectrum.Interact.Remote
import Spectrum.Portal.HostSafe

/-!
# Cloud Hypervisor's reply

`connect_to_guest` asks Cloud Hypervisor for a connection to a port of the guest, and reads the
reply off the same stream on which D-Bus is spoken afterwards. So it has to take exactly the reply:
it reads the five bytes of the shortest one, and then byte by byte up to a newline, or until its
buffer is full.

What it takes from a stream is a `Line`, which does not depend on how the stream is split. **A reply
is taken exactly**, whatever follows. But only the first three bytes of a line are looked at.
**Lines that are not replies are refused exactly if they do not begin with `OK `.**
-/

set_option autoImplicit false

namespace Spectrum.Portal

open Interact Bytes Numeral

/-- The calls of `connect_to_guest` where there is a connection. -/
def socketAnswer (β : Type) (c : Call β) (w : Remote Errno) : Option (β × Remote Errno) :=
  match c with
  | .connect .vsock => some (none, w)
  | .write .vsock bytes => some (w.write bytes)
  | .read .vsock count => some (w.read count)
  | _ => none

theorem evals_read (n : Nat) (w : Remote Errno) :
    ∃ r w', (readExact (Call.read .vsock) n).Evals socketAnswer w r w' ∧
      Remote.Took w w' (w.unread.take n) ∧
      ((n ≤ w.unread.length ∧ r = .ok (w.unread.take n)) ∨
        (w.unread.length < n ∧ ∃ e, r = .error e)) :=
  Remote.evals_readExact (fun _ _ => rfl) n w

/-! ## What the loop takes from a stream -/

/-- There is no newline in the fifth place or behind it, but for the last place. -/
def Clear (bytes : List UInt8) : Prop := ∀ i < bytes.length - 1, 4 ≤ i → bytes[i]? ≠ some 10

instance (bytes : List UInt8) : Decidable (Clear bytes) := Nat.decidableBallLT _ _

/-- The bytes that are read from a stream which has enough of them. -/
def Line (bytes : List UInt8) : Prop :=
  5 ≤ bytes.length ∧ bytes.length ≤ 14 ∧
    (bytes.length = 14 ∨ bytes[bytes.length - 1]? = some 10) ∧ Clear bytes

instance (bytes : List UInt8) : Decidable (Line bytes) := inferInstanceAs (Decidable (_ ∧ _))

/-- The stream ends before the loop does. -/
def Unfinished (stream : List UInt8) : Prop :=
  stream.length < 5 ∨ stream.length < 14 ∧ ∀ i, 4 ≤ i → stream[i]? ≠ some 10

theorem Clear.snoc {bytes : List UInt8} {b : UInt8} (h : Clear bytes)
    (hlast : bytes[bytes.length - 1]? ≠ some 10) : Clear (bytes ++ [b]) := by
  intro i hi h4
  simp only [List.length_append, List.length_singleton, Nat.add_sub_cancel] at hi
  rw [List.getElem?_append_left hi]
  by_cases hlt : i < bytes.length - 1
  · exact h i hlt h4
  · rwa [show i = bytes.length - 1 by omega]

theorem Line.not_lt {a b s t : List UInt8} (ha : Line a) (hb : Line b) (h : a ++ s = b ++ t) :
    ¬ a.length < b.length := by
  intro hlt
  obtain ⟨hmin, -, hlast, -⟩ := ha
  obtain ⟨-, hmax, -, hclear⟩ := hb
  have hlast : a[a.length - 1]? = some 10 := hlast.resolve_left (by omega)
  have hb : (b ++ t)[a.length - 1]? = b[a.length - 1]? := List.getElem?_append_left (by omega)
  apply hclear (a.length - 1) (by omega) (by omega)
  rw [← hb, ← h, List.getElem?_append_left (by omega), hlast]

/-- **A stream begins with one line at most.** -/
theorem Line.unique {a b s t : List UInt8} (ha : Line a) (hb : Line b) (h : a ++ s = b ++ t) :
    a = b := by
  have hab := ha.not_lt hb h
  have hba := hb.not_lt ha h.symm
  exact (List.append_inj h (by omega)).1

theorem Line.not_unfinished {a s : List UInt8} (ha : Line a) : ¬ Unfinished (a ++ s) := by
  obtain ⟨hmin, hmax, hlast, -⟩ := ha
  intro hun
  simp only [Unfinished, List.length_append] at hun
  rcases hun with hun | ⟨hun, hclear⟩
  · omega
  · apply hclear (a.length - 1) (by omega)
    rw [List.getElem?_append_left (by omega)]
    exact hlast.resolve_left (by omega)

section

variable {env : HostEnv}

theorem getElem?_of_toList {response : Vector UInt8 14} {bytes rest : List UInt8}
    (h : response.toList = bytes ++ rest) {i : Nat} (hi : i < bytes.length) :
    response[i]? = bytes[i]? := by
  have hbytes : (bytes ++ rest)[i]? = bytes[i]? := List.getElem?_append_left hi
  rw [← hbytes, ← h]
  simp

/-- **The loop takes a line, or finds that there is none.** -/
theorem evals_readResponse {response : Vector UInt8 14} {bytes : List UInt8}
    (hmax : bytes.length ≤ 14) (hmin : bytes.length = 0 ∨ minResponseLen ≤ bytes.length)
    (hresponse : response.toList = bytes ++ List.replicate (14 - bytes.length) 0)
    (hclear : Clear bytes) (w : Remote Errno) :
    ∃ r w' more, (readResponse env response bytes.length).Evals socketAnswer w r w' ∧
      Remote.Took w w' more ∧
      ((∃ response' rest, r = .ok response' ∧ Line (bytes ++ more) ∧
          response'.toList = bytes ++ more ++ rest) ∨
        ((∃ e, r = .error e) ∧ more = w.unread ∧ Unfinished (bytes ++ more))) := by
  -- Every round makes the part of the buffer that is left shorter.
  induction hleft : 14 - bytes.length using Nat.strongRecOn generalizing response bytes w with
  | ind left ih =>
  rcases readResponse_round hmax hmin response with
    ⟨hlen, hlast, heq⟩ | ⟨stop, hlt, hle, hstop, hwhy, heq⟩
  · rw [heq]
    refine ⟨_, w, [], .ret, Remote.Took.refl w,
      Or.inl ⟨response, _, rfl, ?_, by simpa using hresponse⟩⟩
    unfold minResponseLen at hlen
    rw [getElem?_of_toList hresponse (by omega)] at hlast
    rw [List.append_nil]
    exact ⟨hlen, hmax, hlast, hclear⟩
  · rw [heq]
    unfold minResponseLen at hstop hmin hwhy
    -- After the first round, the last byte is not a newline.
    have hlast : bytes.length ≠ 0 →
        stop = bytes.length + 1 ∧ bytes[bytes.length - 1]? ≠ some 10 := by
      intro hne
      rcases hwhy with ⟨hzero, -⟩ | ⟨hlast, hone⟩
      · exact absurd hzero hne
      · rw [getElem?_of_toList hresponse (by omega)] at hlast
        exact ⟨hone, hlast⟩
    obtain ⟨r, w₁, hread, htook, hr⟩ := evals_read (stop - bytes.length) w
    rcases hr with ⟨henough, rfl⟩ | ⟨hshort, e, rfl⟩
    · generalize hnew : w.unread.take (stop - bytes.length) = new at hread htook
      have hnewLen : new.length = stop - bytes.length := by
        rw [← hnew, List.length_take]
        omega
      have hlen : (bytes ++ new).length = stop := by
        rw [List.length_append]
        omega
      have hresponse' : (patch response bytes.length new).toList =
          (bytes ++ new) ++ List.replicate (14 - (bytes ++ new).length) 0 := by
        rw [toList_patch hresponse (by simp; omega), List.drop_replicate, List.length_append,
          Nat.sub_sub]
      have hclear' : Clear (bytes ++ new) := by
        by_cases hzero : bytes.length = 0
        · intro i hi h4
          rcases hwhy with ⟨-, hfive⟩ | ⟨-, hone⟩ <;> omega
        · obtain ⟨hone, hne⟩ := hlast hzero
          obtain ⟨b, rfl⟩ := List.length_eq_one_iff.mp (show new.length = 1 by omega)
          exact hclear.snoc hne
      have hmax' : (bytes ++ new).length ≤ 14 := by omega
      have hmin' : (bytes ++ new).length = 0 ∨ minResponseLen ≤ (bytes ++ new).length := by
        unfold minResponseLen
        omega
      obtain ⟨r, w', more, hevals, htook', hres⟩ :=
        ih (14 - (bytes ++ new).length) (by omega) hmax' hmin' hresponse' hclear' w₁ rfl
      rw [hlen] at hevals
      refine ⟨r, w', new ++ more, .bind hread hevals, htook.trans htook', ?_⟩
      rw [← List.append_assoc]
      rcases hres with hok | ⟨herr, hmore, hun⟩
      · exact Or.inl hok
      · exact Or.inr ⟨herr, by rw [htook.1, hmore], hun⟩
    · have hall : w.unread.take (stop - bytes.length) = w.unread :=
        List.take_of_length_le (by omega)
      refine ⟨_, w₁, w.unread, .bind hread .ret, hall ▸ htook, Or.inr ⟨⟨_, rfl⟩, rfl, ?_⟩⟩
      by_cases hzero : bytes.length = 0
      · left
        rw [List.length_append]
        rcases hwhy with ⟨-, hfive⟩ | ⟨-, hone⟩ <;> omega
      · -- The stream is at its end, and what has been read is not a line.
        obtain ⟨hone, hne⟩ := hlast hzero
        have hend : w.unread = [] := List.length_eq_zero_iff.mp (by omega)
        rw [hend, List.append_nil]
        refine Or.inr ⟨by omega, fun i h4 hi => ?_⟩
        have hilt : i < bytes.length := (List.getElem?_eq_some_iff.mp hi).1
        by_cases hlt : i < bytes.length - 1
        · exact hclear i hlt h4 hi
        · exact hne (by rwa [show bytes.length - 1 = i by omega])

/-- The loop from the beginning, with an empty buffer. -/
theorem evals_fromStart (env : HostEnv) (w : Remote Errno) :
    ∃ r w' more, (readResponse env (.replicate 14 0) 0).Evals socketAnswer w r w' ∧
      Remote.Took w w' more ∧
      ((∃ response rest, r = .ok response ∧ Line more ∧ response.toList = more ++ rest) ∨
        ((∃ e, r = .error e) ∧ more = w.unread ∧ Unfinished more)) := by
  have hmax : ([] : List UInt8).length ≤ 14 := by decide
  have hstart : (Vector.replicate 14 (0 : UInt8)).toList =
      [] ++ List.replicate (14 - ([] : List UInt8).length) 0 := rfl
  exact evals_readResponse hmax (Or.inl rfl) hstart (by decide) w

theorem evals_writeParts (env : HostEnv) (parts : List (List UInt8)) (w : Remote Errno) :
    ∃ w', (writeParts env parts).Evals socketAnswer w (.ok ()) w' ∧ Remote.Took w w' [] := by
  induction parts generalizing w with
  | nil => exact ⟨w, .ret, Remote.Took.refl w⟩
  | cons part parts ih =>
    have hwrite : ∃ w', (writeAll (Call.write .vsock) part).Evals socketAnswer w (.ok ()) w' ∧
        Remote.Took w w' [] := Remote.evals_writeAll (fun _ _ => rfl) part w
    obtain ⟨w₁, hevals, htook⟩ := hwrite
    obtain ⟨w', hrest, htook'⟩ := ih w₁
    exact ⟨w', .bind hevals hrest, htook.trans htook'⟩

end

/-! ## What is accepted -/

abbrev okBytes : List UInt8 := ascii ['O', 'K', ' ']

/-- The host's environment, once it has found Cloud Hypervisor's socket. -/
def HostEnv.at (env : HostEnv) (path : Path) : HostEnv := { env with vsockUnixPath := some path }

/-- What is made of the bytes that have been read. -/
def checkResponse (env : HostEnv) (r : Except String (Vector UInt8 14)) : Except String Unit :=
  match r with
  | .error e => .error e
  | .ok response =>
    if ¬ okBytes <+: response.toList then
      let debug := env.debugResponse response.toList
      .error s!"unexpected response from Cloud Hypervisor VSOCK handshake: {debug}"
    else .ok ()

/-- With a connection, only the response matters. -/
theorem evals_checkResponse {env : HostEnv} {path : Path} {port : Nat} {w w₁ w' : Remote Errno}
    {r : Except String (Vector UInt8 14)}
    (hwrite : (writeParts (env.at path) (connectParts port)).Evals socketAnswer w (.ok ()) w₁)
    (hread : (readResponse (env.at path) (.replicate 14 0) 0).Evals socketAnswer w₁ r w') :
    (connectToGuest (env.at path) port).Evals socketAnswer w (checkResponse env r) w' := by
  have hconnect : socketAnswer _ (.connect .vsock) w = some (none, w) := rfl
  refine Prog.Evals.of_call hconnect ?_
  change ((writeParts (env.at path) (connectParts port)).bind _).Evals socketAnswer w _ w'
  refine .bind hwrite ?_
  change ((readResponse (env.at path) (.replicate 14 0) 0).bind _).Evals socketAnswer w₁ _ w'
  refine .bind hread ?_
  cases r with
  | error e => exact .ret
  | ok response =>
    dsimp only [checkResponse]
    by_cases hok : okBytes <+: response.toList
    · rw [if_neg (not_not.mpr hok), if_neg (not_not.mpr hok)]
      exact .ret
    · rw [if_pos hok, if_pos hok]
      exact .ret

/-- **What `connect_to_guest` does with any stream**: it accepts the lines that begin with `OK `. -/
theorem evals_connectToGuest (env : HostEnv) (path : Path) (port : Nat) (w : Remote Errno) :
    ∃ r w', (connectToGuest (env.at path) port).Evals socketAnswer w r w' ∧
      ((∃ line, Line line ∧ Remote.Took w w' line ∧
          ((okBytes <+: line ∧ r = .ok ()) ∨ (¬ okBytes <+: line ∧ ∃ e, r = .error e))) ∨
        ((∃ e, r = .error e) ∧ Unfinished w.unread)) := by
  obtain ⟨w₁, hwrite, htook₁⟩ := evals_writeParts (env.at path) (connectParts port) w
  obtain ⟨r, w', more, hread, htook, hres⟩ := evals_fromStart (env.at path) w₁
  have hunread : w₁.unread = w.unread := by rw [htook₁.1, List.nil_append]
  have htook' : Remote.Took w w' more := htook₁.trans htook
  refine ⟨_, w', evals_checkResponse hwrite hread, ?_⟩
  rcases hres with ⟨response, rest, rfl, hline, hbuf⟩ | ⟨⟨e, rfl⟩, hmore, hun⟩
  · left
    refine ⟨more, hline, htook', ?_⟩
    have hpre : okBytes <+: response.toList ↔ okBytes <+: more := by
      rw [hbuf]
      exact List.isPrefix_append_of_length (le_trans (by decide) hline.1)
    by_cases hok : okBytes <+: more
    · exact Or.inl ⟨hok, if_neg (not_not.mpr (hpre.mpr hok))⟩
    · exact Or.inr ⟨hok, _, if_pos fun h => hok (hpre.mp h)⟩
  · right
    rw [hmore, hunread] at hun
    exact ⟨⟨e, rfl⟩, hun⟩

/-- A reply as Cloud Hypervisor sends it. -/
def reply (d : List UInt8) : List UInt8 := okBytes ++ (d ++ [10])

/-- A complete reply: a number below `2 ^ 32`, within the length a reply can have. -/
def Complete (bytes : List UInt8) : Prop :=
  ∃ d, IsNumeral d ∧ value d < 2 ^ 32 ∧ d.length ≤ 10 ∧ bytes = reply d

theorem Complete.line {bytes : List UInt8} (h : Complete bytes) : Line bytes := by
  obtain ⟨d, ⟨hne, hdigits⟩, -, hlen, rfl⟩ := h
  have hpos := List.length_pos_iff.mpr hne
  have hok : okBytes.length = 3 := rfl
  have hlength : (reply d).length = d.length + 4 := by
    simp only [reply, List.length_append, hok, List.length_singleton]
    omega
  refine ⟨by omega, by omega, Or.inr ?_, ?_⟩
  · rw [hlength, reply, List.getElem?_append_right (by omega),
      List.getElem?_append_right (by omega),
      show d.length + 4 - 1 - okBytes.length - d.length = 0 by omega]
    rfl
  · intro i hi h4 hget
    rw [hlength] at hi
    rw [reply, List.getElem?_append_right (by omega), List.getElem?_append_left (by omega)] at hget
    exact absurd (hdigits 10 (List.mem_of_getElem? hget)) (by decide)

theorem complete_decimal (n : UInt32) : Complete (reply (decimal n.toNat)) := by
  refine ⟨_, isNumeral_decimal _, ?_, ?_, rfl⟩
  · rw [value_decimal]
    exact n.toNat_lt
  · rw [length_decimal]
    have hlt := n.toNat_lt
    exact Nat.toDigits_length 10 n.toNat 10 (by omega) (by omega)

/-- A complete reply at the beginning of a stream is what is taken from it. -/
theorem evals_complete (env : HostEnv) (path : Path) (port : Nat) {bytes : List UInt8}
    (h : Complete bytes) {w : Remote Errno} (hpre : bytes <+: w.unread) :
    ∃ w', (connectToGuest (env.at path) port).Evals socketAnswer w (.ok ()) w' ∧
      Remote.Took w w' bytes := by
  obtain ⟨rest, hrest⟩ := hpre
  obtain ⟨r, w', hevals, hres⟩ := evals_connectToGuest env path port w
  rcases hres with ⟨line, hline, htook, hr⟩ | ⟨-, hun⟩
  · obtain rfl : bytes = line := h.line.unique hline (hrest.trans htook.1)
    have hok : okBytes <+: bytes := by
      obtain ⟨d, -, -, -, rfl⟩ := h
      exact List.prefix_append _ _
    rcases hr with ⟨-, rfl⟩ | ⟨hnot, -⟩
    · exact ⟨w', hevals, htook⟩
    · exact absurd hok hnot
  · rw [← hrest] at hun
    exact absurd hun h.line.not_unfinished

/-! ## The reads -/

/-- A program that calls `read_exact` at most so many times, whatever the stream, and does nothing
else before it returns. -/
inductive Reads {α : Type} : Nat → Prog Call α → Prop
  | done {k : Nat} (a : α) : Reads k (.ret a)
  | readExact {k n : Nat} {rest : Except (IoError Errno) (List UInt8) → Prog Call α}
      (herror : ∀ e, Reads k (rest (.error e)))
      (hok : ∀ bytes, bytes.length = n → Reads k (rest (.ok bytes))) :
      Reads (k + 1) ((Interact.readExact (Call.read .vsock) n).bind rest)

theorem reads_readResponse {env : HostEnv} (response : Vector UInt8 14) {len : Nat}
    (hmin : minResponseLen ≤ len) (hmax : len ≤ 14) :
    Reads (14 - len) (readResponse env response len) := by
  induction hleft : 14 - len generalizing response len with
  | zero =>
    rcases readResponse_round hmax (Or.inr hmin) response with ⟨-, -, heq⟩ | ⟨stop, hlt, hle, -⟩
    · rw [heq]
      exact .done _
    · omega
  | succ k ih =>
    rcases readResponse_round hmax (Or.inr hmin) response with
      ⟨-, -, heq⟩ | ⟨stop, hlt, hle, hstop, hwhy, heq⟩
    · rw [heq]
      exact .done _
    · rw [heq]
      have hone : stop = len + 1 := by
        unfold minResponseLen at hmin
        rcases hwhy with ⟨hzero, -⟩ | ⟨-, hone⟩
        · omega
        · exact hone
      exact .readExact (fun _ => .done _) fun bytes _ => ih _ hstop hle (by omega)

/-- **Ten calls of `read_exact` at most**, each for a part of the buffer. -/
theorem reads_fromStart (env : HostEnv) : Reads 10 (readResponse env (.replicate 14 0) 0) := by
  rcases readResponse_round (Nat.zero_le 14) (Or.inl rfl) (.replicate 14 0) with
    ⟨hlen, -⟩ | ⟨stop, hlt, hle, hstop, hwhy, heq⟩
  · exact absurd hlen (by decide)
  · rw [heq]
    have hfive : stop = 5 := by
      unfold minResponseLen at hstop hwhy
      omega
    subst hfive
    exact .readExact (fun _ => .done _) fun bytes _ => reads_readResponse _ hstop hle

/-! ## Replies and other streams -/

/-- **A reply is taken exactly, whatever follows it and however the stream is split**, and on every
stream the loop comes to its end after ten calls of `read_exact` at most, inside its buffer. -/
theorem connectToGuest_takes_reply (env : HostEnv) (path : Path) (port : Nat) (pieces : Nat → Nat)
    (ending : Option Errno) :
    (∀ (n : UInt32) (rest : List UInt8), ∃ w',
      (connectToGuest (env.at path) port).Evals socketAnswer
        (.fresh (reply (decimal n.toNat) ++ rest) pieces ending) (.ok ()) w' ∧
      w'.unread = rest ∧ w'.taken = reply (decimal n.toNat)) ∧
    (∀ stream, ∃ r w', (readResponse (env.at path) (.replicate 14 0) 0).Evals socketAnswer
      (.fresh stream pieces ending) r w') ∧
    Reads 10 (readResponse (env.at path) (.replicate 14 0) 0) := by
  refine ⟨?_, ?_, reads_fromStart _⟩
  · intro n rest
    obtain ⟨w', hevals, hunread, htaken⟩ := evals_complete env path port (complete_decimal n)
      (w := .fresh (reply (decimal n.toNat) ++ rest) pieces ending) (List.prefix_append _ _)
    exact ⟨w', hevals, (List.append_cancel_left hunread).symm, htaken⟩
  · intro stream
    obtain ⟨r, w', _, hevals, _⟩ := evals_fromStart (env.at path) (.fresh stream pieces ending)
    exact ⟨r, w', hevals⟩

/-- Only complete replies are accepted, and everything else is an error. -/
structure OnlyComplete (env : HostEnv) (port : Nat) (w : Remote Errno) : Prop where
  accepts : ∀ w', (connectToGuest env port).Evals socketAnswer w (.ok ()) w' →
    ∃ bytes, Complete bytes ∧ Remote.Took w w' bytes
  rejects : (∀ bytes, Complete bytes → ¬ bytes <+: w.unread) →
    ∃ e w', (connectToGuest env port).Evals socketAnswer w (.error e) w'

/-- A stream on which `connect_to_guest` fails gives no reason to complain. -/
theorem onlyComplete_of_error {env : HostEnv} {port : Nat} {w w' : Remote Errno} {e : String}
    (h : (connectToGuest env port).Evals socketAnswer w (.error e) w') :
    OnlyComplete env port w where
  accepts := fun _ hok => by cases (h.unique hok).1
  rejects := fun _ => ⟨e, w', h⟩

/-- **`connect_to_guest` accepts only complete replies, exactly if the stream begins with one, does
not begin with `OK `, or ends too early.** -/
theorem connectToGuest_onlyComplete_iff (env : HostEnv) (path : Path) (port : Nat)
    (stream : List UInt8) (pieces : Nat → Nat) (ending : Option Errno) :
    OnlyComplete (env.at path) port (.fresh stream pieces ending) ↔
      (∃ bytes, Complete bytes ∧ bytes <+: stream) ∨ ¬ okBytes <+: stream ∨ Unfinished stream := by
  obtain ⟨r, w', hevals, hres⟩ := evals_connectToGuest env path port (.fresh stream pieces ending)
  rcases hres with ⟨line, hline, htook, hr⟩ | ⟨⟨e, rfl⟩, hun⟩
  · have hstream : stream = line ++ w'.unread := htook.1
    have hpre : okBytes <+: stream ↔ okBytes <+: line := by
      rw [hstream]
      exact List.isPrefix_append_of_length (le_trans (by decide) hline.1)
    rcases hr with ⟨hok, rfl⟩ | ⟨hnot, e, rfl⟩
    · constructor
      · intro h
        obtain ⟨bytes, hcomplete, htook'⟩ := h.accepts w' hevals
        exact Or.inl ⟨bytes, hcomplete, _, htook'.1.symm⟩
      · intro h
        have hfinished : ¬ Unfinished stream := hstream ▸ hline.not_unfinished
        obtain ⟨bytes, hcomplete, rest, hrest⟩ :=
          h.resolve_right fun h => h.elim (fun hnot => hnot (hpre.mpr hok)) hfinished
        obtain rfl := hcomplete.line.unique hline (hrest.trans hstream)
        refine ⟨fun w'' hevals' => ?_, fun hnone => absurd ⟨rest, hrest⟩ (hnone bytes hcomplete)⟩
        exact ⟨bytes, hcomplete, (hevals.unique hevals').2 ▸ htook⟩
    · exact ⟨fun _ => Or.inr (Or.inl fun h => hnot (hpre.mp h)),
        fun _ => onlyComplete_of_error hevals⟩
  · exact ⟨fun _ => Or.inr (Or.inr hun), fun _ => onlyComplete_of_error hevals⟩

/-- A reply without a number: what follows it is taken too, and accepted. -/
theorem connectToGuest_accepts_no_number :
    let env : HostEnv := ⟨fun _ => "", fun _ => "", fun _ => "", fun _ => "", none, 64,
      fun _ => true, fun _ => true, rfl, rfl⟩
    let stream := ascii ['O', 'K', ' ', '\n', 'A', 'U', 'T', 'H', ' ', 'E', 'X', 'T', 'E', 'R', 'N']
    let w : Remote Errno := .fresh stream (fun _ => 0) none
    (∃ w', (connectToGuest (env.at (ascii ['/', 'v'])) 1).Evals socketAnswer w (.ok ()) w' ∧
      w'.taken = stream.take 14) ∧ ¬ OnlyComplete (env.at (ascii ['/', 'v'])) 1 w := by
  intro env stream w
  have hline : Line (stream.take 14) := by decide
  obtain ⟨r, w', hevals, hres⟩ := evals_connectToGuest env (ascii ['/', 'v']) 1 w
  have hstream : stream.take 14 ++ stream.drop 14 = stream := List.take_append_drop 14 stream
  rcases hres with ⟨line, hline', htook, hr⟩ | ⟨-, hun⟩
  · obtain rfl := hline.unique hline' (hstream.trans htook.1)
    rcases hr with ⟨-, rfl⟩ | ⟨hnot, -⟩
    · refine ⟨⟨w', hevals, htook.2⟩, fun h => ?_⟩
      obtain ⟨bytes, hcomplete, htook'⟩ := h.accepts w' hevals
      obtain rfl := hcomplete.line.unique hline (htook'.1.symm.trans htook.1)
      -- A complete reply ends with a newline.
      obtain ⟨d, -, -, -, heq⟩ := hcomplete
      have hlast : (stream.take 14).getLast? = some 10 := by rw [heq]; simp [reply]
      revert hlast
      decide
    · exact absurd (by decide) hnot
  · have hun : Unfinished (stream.take 14 ++ stream.drop 14) := hstream.symm ▸ hun
    exact absurd hun hline.not_unfinished

end Spectrum.Portal
