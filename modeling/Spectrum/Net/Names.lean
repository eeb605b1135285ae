import Spectrum.Interact.CBuffer
import Spectrum.Interact.Play
import Spectrum.Net.Setup

/-!
# Interface names in 16 bytes

The kernel takes the name of an interface from a field of 16 bytes, the last of which it treats as
NUL. A name that is too long for that would be cut off without a word, and in a name with a percent
sign it would look for a number to put there. Three functions of `net-util.c` make sure that neither
happens, each in its own way: by measuring the string before it is used, by copying all but the last
byte of a field that is not initialised, and by copying first and looking at the last byte.

This module has the three as they treat memory. **They are the functions of `Net.Util`**, which are
about strings, whatever the memory behind the string and in the request held; and what the kernel
reads is the name they were called with.
-/

set_option autoImplicit false

namespace Spectrum.Net

open Interact Bytes CBuffer

/-- What the kernel reads from a field, or from the memory behind a pointer. -/
def kernelName (field : List UInt8) : IfName := upToNul (field.take (IFNAMSIZ - 1))

/-- The fields of a `struct ifreq` that hold names. They are not initialised. -/
structure Ifreq where
  ifrName : Vector UInt8 IFNAMSIZ
  ifrNewname : Vector UInt8 IFNAMSIZ

/-- The system calls of `tap_open`. -/
def requestTap (name : IfName) (excl : Bool) : Prog Sys Int := do
  let fd ← Prog.lift .openTun
  if fd = -1 then
    return -1
  else
    let r ← Prog.lift (.tunSetIff fd name excl)
    if r = -1 then
      let _ ← Prog.lift (.close fd)
      return -1
    else
      return fd

namespace Memory

/-! ## The code -/

/-- `if_rename`, where `name` and `newname` are the memory behind the pointers. -/
def ifRename (ifr : Ifreq) (name newname : List UInt8) : Prog Sys Int :=
  let ifrName := strncpy ifr.ifrName.toList name IFNAMSIZ
  let ifrNewname := strncpy ifr.ifrNewname.toList newname IFNAMSIZ
  if ifrNewname.getD (IFNAMSIZ - 1) 0 ≠ 0 then failWith ENAMETOOLONG
  else if strchr ifrNewname percent then failWith EINVAL
  else withSocket .ifRename (Prog.lift (.setName (kernelName ifrName) (kernelName ifrNewname)))

def bridgeAdd (name : List UInt8) : Prog Sys Int :=
  if strnlen name IFNAMSIZ = IFNAMSIZ then failWith ENAMETOOLONG
  else if strchr name percent then failWith EINVAL
  else withSocket .bridgeAdd (Prog.lift (.brAddBr (kernelName name)))

/-- `tap_open`, without the name that it hands back, which is what the kernel has put into the
request. -/
def tapOpen (ifr : Ifreq) (name : List UInt8) (excl : Bool) : Prog Sys Int :=
  if strnlen name IFNAMSIZ = IFNAMSIZ then failWith ENAMETOOLONG
  else
    let ifrName := strncpy ifr.ifrName.toList name (IFNAMSIZ - 1)
    requestTap (kernelName ifrName) excl

/-! ## Fields -/

section

variable (s : CString) (after : List UInt8)

theorem strnlen_eq_IFNAMSIZ :
    strnlen (stored s after) IFNAMSIZ = IFNAMSIZ ↔ IFNAMSIZ ≤ s.bytes.length := by
  rw [strnlen_stored]
  omega

/-- The kernel reads as much of a stored name as there is room for. -/
theorem kernelName_stored : kernelName (stored s after) = ifrName s.bytes :=
  upToNul_take_stored s after _

/-- And so it does from a field that the name was copied to, whatever that held before. -/
theorem kernelName_strncpy (dst : List UInt8) {n : Nat} (hn : IFNAMSIZ - 1 ≤ n) :
    kernelName (strncpy dst (stored s after) n) = ifrName s.bytes := by
  have hroom : IFNAMSIZ - 1 ≤
      (s.bytes.take n ++ List.replicate (n - s.bytes.length) 0).length := by
    rw [List.length_append, List.length_take, List.length_replicate]
    omega
  have hclear : 0 ∉ s.bytes.take (IFNAMSIZ - 1) := fun h => s.noNul (List.mem_of_mem_take h)
  rw [kernelName, strncpy_stored, List.take_append_of_le_length hroom, List.take_append,
    List.take_take, Nat.min_eq_left hn, List.take_replicate]
  exact upToNul_padded hclear _

theorem ifrName_of_lt {name : IfName} (h : name.length < IFNAMSIZ) : ifrName name = name :=
  List.take_of_length_le (Nat.le_sub_one_of_lt h)

/-- The last byte of a field tells whether a string was too long for it. -/
theorem last_strncpy (dst : List UInt8) :
    (strncpy dst (stored s after) IFNAMSIZ).getD (IFNAMSIZ - 1) 0 ≠ 0 ↔
      IFNAMSIZ ≤ s.bytes.length := by
  have hpos : 0 < IFNAMSIZ := by decide
  rw [strncpy_stored, List.append_assoc, List.getD_eq_getElem?_getD]
  by_cases hlen : IFNAMSIZ ≤ s.bytes.length
  · have hlt : IFNAMSIZ - 1 < s.bytes.length := by omega
    have hbyte : s.bytes[IFNAMSIZ - 1] ≠ 0 := fun h => s.noNul (h ▸ List.getElem_mem hlt)
    rw [List.getElem?_append_left (by rw [List.length_take]; omega),
      List.getElem?_take_of_lt (by omega), List.getElem?_eq_getElem hlt]
    exact iff_of_true hbyte hlen
  · rw [List.take_of_length_le (by omega), List.getElem?_append_right (by omega),
      List.getElem?_append_left (by rw [List.length_replicate]; omega), List.getElem?_replicate,
      if_pos (by omega)]
    exact iff_of_false (not_not.mpr rfl) hlen

/-- In the field, as in the string. -/
theorem strchr_strncpy (dst : List UInt8) (hlen : s.bytes.length < IFNAMSIZ) (c : UInt8) :
    strchr (strncpy dst (stored s after) IFNAMSIZ) c = true ↔ c ∈ s.bytes := by
  have hupTo : upToNul (strncpy dst (stored s after) IFNAMSIZ) = s.bytes := by
    obtain ⟨k, hk⟩ : ∃ k, IFNAMSIZ - s.bytes.length = k + 1 :=
      ⟨IFNAMSIZ - s.bytes.length - 1, by omega⟩
    rw [strncpy_stored, List.take_of_length_le (by omega), hk, List.append_assoc,
      upToNul_append s.noNul, List.replicate_succ, List.cons_append, upToNul_zero, List.append_nil]
  rw [strchr, hupTo, decide_eq_true_eq]

end

/-! ## The functions on strings -/

section

variable (ifr : Ifreq) (s : CString) (after : List UInt8)

theorem bridgeAdd_eq : bridgeAdd (stored s after) = Net.bridgeAdd s.bytes := by
  unfold bridgeAdd Net.bridgeAdd
  simp only [strnlen_eq_IFNAMSIZ, strchr_stored]
  by_cases hlen : IFNAMSIZ ≤ s.bytes.length
  · rw [if_pos hlen, if_pos hlen]
  · rw [if_neg hlen, if_neg hlen, kernelName_stored, ifrName_of_lt (by omega)]

theorem tapOpen_eq (excl : Bool) :
    tapOpen ifr (stored s after) excl = Net.tapOpen s.bytes excl := by
  unfold tapOpen Net.tapOpen
  simp only [strnlen_eq_IFNAMSIZ]
  by_cases hlen : IFNAMSIZ ≤ s.bytes.length
  · rw [if_pos hlen, if_pos hlen]
  · rw [if_neg hlen, if_neg hlen, kernelName_strncpy s after _ (Nat.le_refl _),
      ifrName_of_lt (by omega)]
    rfl

theorem ifRename_eq (name : CString) (after' : List UInt8) :
    ifRename ifr (stored name after') (stored s after) = Net.ifRename name.bytes s.bytes := by
  unfold ifRename Net.ifRename
  simp only [last_strncpy]
  by_cases hlen : IFNAMSIZ ≤ s.bytes.length
  · rw [if_pos hlen, if_pos hlen]
  · simp only [if_neg hlen, strchr_strncpy s after _ (Nat.not_le.mp hlen)]
    rw [kernelName_strncpy name after' _ (Nat.sub_le _ _),
      kernelName_strncpy s after _ (Nat.sub_le _ _), ifrName_of_lt (Nat.not_le.mp hlen)]

end

end Memory

/-! ## What becomes of a name -/

/-- The name that a call asks the kernel to give to an interface. -/
def Sys.newName {β : Type} : Sys β → Option IfName
  | .setName _ newname => some newname
  | .brAddBr name => some name
  | .tunSetIff _ name _ => some name
  | _ => none

/-- What a function does with the name `s`, where `percents` says whether it is to refuse percent
signs. To fail with an error is to set `errno` and to return `-1` before any system call. -/
structure Exact (s : CString) (percents : Bool) (p : Prog Sys Int) : Prop where
  tooLong : p = failWith ENAMETOOLONG ↔ IFNAMSIZ ≤ s.bytes.length
  invalid : percents → (p = failWith EINVAL ↔ s.bytes.length < IFNAMSIZ ∧ percent ∈ s.bytes)
  exact : p.Emits fun ev => ∀ name, ev.call.newName = some name → name = s.bytes

/-- The error with which a function fails before any system call. -/
def Sys.ownErrno {β : Type} : Sys β → Option Errno
  | .setErrno e => some e
  | _ => none

def ownErrno : Prog Sys Int → Option Errno
  | .call c _ => c.ownErrno
  | _ => none

theorem ownErrno_failWith (e : Errno) : ownErrno (failWith e) = some e := rfl

theorem failWith_inj {e e' : Errno} : failWith e = failWith e' ↔ e = e' := by
  constructor
  · intro h
    have hown := congrArg ownErrno h
    rw [ownErrno_failWith, ownErrno_failWith] at hown
    exact Option.some.inj hown
  · intro h
    rw [h]

/-- A call that asks for no name, or for the right one. -/
abbrev Asks (name : IfName) (ev : Event Sys) : Prop :=
  ∀ name', ev.call.newName = some name' → name' = name

variable {name : IfName}

theorem asks_of_none {ev : Event Sys} (h : ev.call.newName = none) : Asks name ev := by
  intro name' h'
  rw [h] at h'
  cases h'

theorem emits_failWith (e : Errno) : (failWith e).Emits (Asks name) :=
  Prog.emits_call (fun _ => asks_of_none rfl) fun _ => Prog.emits_ret _

theorem emits_withSocket (site : Site) {request : Prog Sys Int} (h : request.Emits (Asks name)) :
    (withSocket site request).Emits (Asks name) := by
  refine Prog.emits_call (fun _ => asks_of_none rfl) fun fd => ?_
  show (if fd = -1 then Prog.ret (-1) else request.bind fun r => _).Emits (Asks name)
  split
  · exact Prog.emits_ret _
  · exact h.bind fun r => Prog.emits_call (fun _ => asks_of_none rfl) fun _ => Prog.emits_ret _

/-- A function that makes one request, for this name. -/
theorem emits_request (site : Site) {c : Sys Int} (h : c.newName = some name) :
    (withSocket site (Prog.lift c)).Emits (Asks name) := by
  refine emits_withSocket site (Prog.emits_call ?_ Prog.emits_ret)
  intro answer name' hname
  exact Option.some.inj (hname.symm.trans h)

theorem emits_requestTap (excl : Bool) : (requestTap name excl).Emits (Asks name) := by
  refine Prog.emits_call (fun _ => asks_of_none rfl) fun fd => ?_
  show (if fd = -1 then Prog.ret (-1) else Prog.call (.tunSetIff fd name excl) fun r =>
    if r = -1 then Prog.call (.close fd) fun _ => Prog.ret (-1) else Prog.ret fd).Emits (Asks name)
  split
  · exact Prog.emits_ret _
  · refine Prog.emits_call (fun _ name' h => (Option.some.inj h).symm) fun r => ?_
    split
    · exact Prog.emits_call (fun _ => asks_of_none rfl) fun _ => Prog.emits_ret _
    · exact Prog.emits_ret _

/-- It is enough to know what a function does with names that are too long, with percent signs, and
with others. -/
theorem Exact.of_cases {s : CString} {percents : Bool} {p : Prog Sys Int}
    (hlong : IFNAMSIZ ≤ s.bytes.length → p = failWith ENAMETOOLONG)
    (hinvalid : percents → s.bytes.length < IFNAMSIZ → percent ∈ s.bytes → p = failWith EINVAL)
    (hgo : s.bytes.length < IFNAMSIZ → ¬ (percents ∧ percent ∈ s.bytes) →
      ownErrno p = none ∧ p.Emits (Asks s.bytes)) : Exact s percents p := by
  have hne : ENAMETOOLONG ≠ EINVAL := by decide
  by_cases hlen : IFNAMSIZ ≤ s.bytes.length
  · rw [hlong hlen]
    refine ⟨iff_of_true rfl hlen, fun _ => iff_of_false ?_ ?_, emits_failWith _⟩
    · exact fun h => hne (failWith_inj.mp h)
    · exact fun h => Nat.not_le.mpr h.1 hlen
  · by_cases hpercent : percents ∧ percent ∈ s.bytes
    · rw [hinvalid hpercent.1 (Nat.not_le.mp hlen) hpercent.2]
      refine ⟨iff_of_false ?_ hlen, fun _ => iff_of_true rfl ⟨Nat.not_le.mp hlen, hpercent.2⟩,
        emits_failWith _⟩
      exact fun h => hne (failWith_inj.mp h).symm
    · obtain ⟨hown, hemits⟩ := hgo (Nat.not_le.mp hlen) hpercent
      have hno : ∀ e, p ≠ failWith e := by
        intro e h
        rw [h, ownErrno_failWith] at hown
        cases hown
      refine ⟨iff_of_false (hno _) hlen, fun hp => iff_of_false (hno _) ?_, hemits⟩
      exact fun h => hpercent ⟨hp, h.2⟩

section

variable {name : IfName} (hlen : name.length < IFNAMSIZ) (hpercent : percent ∉ name)
include hlen

theorem tapOpen_of_lt (excl : Bool) : tapOpen name excl = requestTap name excl :=
  if_neg (Nat.not_le.mpr hlen)

include hpercent

theorem bridgeAdd_of_lt : bridgeAdd name = withSocket .bridgeAdd (Prog.lift (.brAddBr name)) := by
  rw [bridgeAdd, if_neg (Nat.not_le.mpr hlen), if_neg hpercent]

theorem ifRename_of_lt (old : IfName) :
    ifRename old name = withSocket .ifRename (Prog.lift (.setName (ifrName old) name)) := by
  rw [ifRename, if_neg (Nat.not_le.mpr hlen), if_neg hpercent]

end

section

variable (s : CString) (ifr : Ifreq) (after : List UInt8)

theorem exact_bridgeAdd : Exact s true (Memory.bridgeAdd (stored s after)) := by
  rw [Memory.bridgeAdd_eq]
  apply Exact.of_cases
  · intro hlen
    exact if_pos hlen
  · intro _ hlen hpercent
    rw [bridgeAdd, if_neg (Nat.not_le.mpr hlen), if_pos hpercent]
  · intro hlen hpercent
    rw [bridgeAdd_of_lt hlen fun h => hpercent ⟨rfl, h⟩]
    exact ⟨rfl, emits_request _ rfl⟩

theorem exact_tapOpen (excl : Bool) : Exact s false (Memory.tapOpen ifr (stored s after) excl) := by
  rw [Memory.tapOpen_eq]
  apply Exact.of_cases
  · intro hlen
    exact if_pos hlen
  · intro h
    cases h
  · intro hlen _
    rw [tapOpen_of_lt hlen]
    exact ⟨rfl, emits_requestTap excl⟩

theorem exact_ifRename (name : CString) (after' : List UInt8) :
    Exact s true (Memory.ifRename ifr (stored name after') (stored s after)) := by
  rw [Memory.ifRename_eq]
  apply Exact.of_cases
  · intro hlen
    exact if_pos hlen
  · intro _ hlen hpercent
    rw [ifRename, if_neg (Nat.not_le.mpr hlen), if_pos hpercent]
  · intro hlen hpercent
    rw [ifRename_of_lt hlen fun h => hpercent ⟨rfl, h⟩]
    exact ⟨rfl, emits_request _ rfl⟩

end

/-- A name that all three functions go on with, as it is. -/
structure Accepted (s : CString) : Prop where
  bridgeAdd : ∀ after, Memory.bridgeAdd (stored s after) =
    withSocket .bridgeAdd (Prog.lift (.brAddBr s.bytes))
  tapOpen : ∀ ifr after excl, Memory.tapOpen ifr (stored s after) excl = do
    let fd ← Prog.lift .openTun
    if fd = -1 then
      return -1
    else
      -- `TUNSETIFF`
      let r ← Prog.lift (.tunSetIff fd s.bytes excl)
      if r = -1 then
        let _ ← Prog.lift (.close fd)
        return -1
      else
        return fd
  ifRename : ∀ ifr name after after', Memory.ifRename ifr (stored name after') (stored s after) =
    withSocket .ifRename (Prog.lift (.setName (ifrName name.bytes) s.bytes))

theorem Accepted.of_lt {s : CString} (hlen : s.bytes.length < IFNAMSIZ)
    (hpercent : percent ∉ s.bytes) : Accepted s := by
  constructor
  · intro after
    rw [Memory.bridgeAdd_eq, bridgeAdd_of_lt hlen hpercent]
  · intro ifr after excl
    rw [Memory.tapOpen_eq, tapOpen_of_lt hlen]
    rfl
  · intro ifr name after after'
    rw [Memory.ifRename_eq, ifRename_of_lt hlen hpercent]

/-! ## The names of a VM's interfaces -/

/-- What stands before the pid. -/
inductive NamePrefix
  | br
  | client
  | router
  | dead
  deriving Repr, DecidableEq

def NamePrefix.text : NamePrefix → List Char
  | .br => ['b', 'r']
  | .client => ['c', 'l', 'i', 'e', 'n', 't']
  | .router => ['r', 'o', 'u', 't', 'e', 'r']
  | .dead => ['_', 'd', 'e', 'a', 'd']

/-- The names that `net.c` makes. -/
def builtName (pid : Nat) : NamePrefix → IfName
  | .br => bridgeName pid
  | .client => clientName pid
  | .router => routerName pid
  | .dead => deadName pid

theorem builtName_eq (pid : Nat) (pfx : NamePrefix) :
    builtName pid pfx = snprintf pfx.text pid := by
  cases pfx <;> rfl

/-- **Nothing is cut off**, if the pid has no more than nine digits. -/
theorem builtName_of_lt {pid : Nat} (h : pid < 10 ^ 9) (pfx : NamePrefix) :
    builtName pid pfx = ascii pfx.text ++ decimal pid := by
  have htext : (ascii pfx.text).length ≤ 6 := by cases pfx <;> decide
  have hdigits : (decimal pid).length ≤ 9 := by
    rw [length_decimal]
    exact Nat.toDigits_length 10 pid 9 (by decide) h
  rw [builtName_eq, snprintf]
  apply List.take_of_length_le
  rw [List.length_append]
  show _ ≤ 15
  omega

theorem zero_not_mem_builtName (pid : Nat) (pfx : NamePrefix) : 0 ∉ builtName pid pfx := by
  intro h
  rw [builtName_eq] at h
  rcases List.mem_append.mp (List.mem_of_mem_take h) with h | h
  · cases pfx <;> revert h <;> decide
  · have := mem_decimal h
    simp at this

theorem percent_not_mem_builtName (pid : Nat) (pfx : NamePrefix) : percent ∉ builtName pid pfx := by
  rw [builtName_eq]
  apply percent_not_mem_snprintf
  cases pfx <;> decide

/-- The name as a string. -/
def builtString (pid : Nat) (pfx : NamePrefix) : CString :=
  ⟨builtName pid pfx, zero_not_mem_builtName pid pfx⟩

theorem accepted_builtString (pid : Nat) (pfx : NamePrefix) : Accepted (builtString pid pfx) := by
  apply Accepted.of_lt
  · show (builtName pid pfx).length < IFNAMSIZ
    rw [builtName_eq]
    exact Nat.not_le.mp (not_tooLong_snprintf _ _)
  · exact percent_not_mem_builtName pid pfx

/-- **A name determines what it was made from.** -/
theorem builtName_inj {pid pid' : Nat} {pfx pfx' : NamePrefix} (h : pid < 10 ^ 9)
    (h' : pid' < 10 ^ 9) (heq : builtName pid pfx = builtName pid' pfx') :
    pfx = pfx' ∧ pid = pid' := by
  rw [builtName_of_lt h, builtName_of_lt h'] at heq
  have hpfx : pfx = pfx' := by
    -- The first characters are different.
    have hhead := congrArg List.head? heq
    cases pfx <;> cases pfx' <;> first | rfl | simp [NamePrefix.text, ascii] at hhead
  subst hpfx
  exact ⟨rfl, decimal_injective (List.append_cancel_left heq)⟩

/-- **Names are neither cut off nor expanded**, and those of different VMs are different. -/
theorem names_exact :
    (∀ (s : CString) (ifr : Ifreq) (after : List UInt8),
      Exact s true (Memory.bridgeAdd (stored s after)) ∧
      (∀ excl, Exact s false (Memory.tapOpen ifr (stored s after) excl)) ∧
      ∀ name after', Exact s true (Memory.ifRename ifr (stored name after') (stored s after))) ∧
    (∀ pid pfx, pid < 10 ^ 9 →
      (builtString pid pfx).bytes = ascii pfx.text ++ decimal pid ∧
      Accepted (builtString pid pfx)) ∧
    ∀ pid pid' pfx pfx', pid < 10 ^ 9 → pid' < 10 ^ 9 → pfx ≠ pfx' ∨ pid ≠ pid' →
      builtName pid pfx ≠ builtName pid' pfx' := by
  refine ⟨?_, ?_, ?_⟩
  · intro s ifr after
    exact ⟨exact_bridgeAdd s after, exact_tapOpen s ifr after, exact_ifRename s ifr after⟩
  · intro pid pfx h
    exact ⟨builtName_of_lt h pfx, accepted_builtString pid pfx⟩
  · intro pid pid' pfx pfx' h h' hne heq
    obtain ⟨hpfx, hpid⟩ := builtName_inj h h' heq
    exact hne.elim (fun hne => hne hpfx) fun hne => hne hpid

/-- The largest pid there is on a 64-bit kernel, and another that begins with the same digits. -/
theorem names_exact_largest :
    4194304 < 10 ^ 9 ∧ Accepted (builtString 4194304 .client) ∧
      builtName 4194304 .client ≠ builtName 419430 .client :=
  ⟨by decide, (names_exact.2.1 _ _ (by decide)).2,
    names_exact.2.2 _ _ _ _ (by decide) (by decide) (Or.inr (by decide))⟩

end Spectrum.Net
