import Spectrum.Errno
import Spectrum.Interact.Strtoul

/-!
# The numbers of a `vsock:` address

A `vsock:` address names a context by its CID and a socket by its port, and a server's address can
list the CIDs that may connect to it. All three are read with `_dbus_string_parse_uint` of libdbus,
which is assumed to be `strtoul` to base 0. `cid=` and `port=` ignore what follows the number; the
list does not, and here the scanner has to find the commas itself. It writes into an array with one
cell for each *byte* of the list.

**The scanner accepts the lists of CIDs with commas between them, and nothing else**
(`vsockParseCidList_exact`). A comma may also follow the last one. It stays inside its array and
inside the string. What it makes of an empty list is an empty array, and that is not the same as a
list of nobody: see `Dbus/Server.lean`.
-/

set_option autoImplicit false

namespace Spectrum.Dbus

open Bytes Numeral

/-! ## Errors -/

inductive ErrorName
  | badAddress
  | noMemory
  /-- `_dbus_error_from_errno`. -/
  | fromErrno (e : Errno)
  deriving DecidableEq

structure DBusError where
  name : ErrorName
  message : List UInt8
  deriving DecidableEq

def text (s : String) : List UInt8 := ascii s.toList

/-! ## Numbers -/

def uint32Max : Nat := 4294967295

/-- What the code calls in libdbus and in the C library, with what is assumed about it. -/
structure Lib where
  strerror : Errno → List UInt8
  strtoul : Reader 64
  /-- `_dbus_string_parse_uint`: the number at `start`, and where it ends. -/
  stringParseUint (str : List UInt8) (start : Nat) : Option (Nat × Nat)
  /-- It is what `strtoul` reads there, unless that is nothing or too large. -/
  stringParseUint_eq (str : List UInt8) (start : Nat) : stringParseUint str start =
    let p := str.drop start
    let r := strtoul.read p
    if r.rest.length = p.length ∨ r.range then none
    else some (r.number, start + (p.length - r.rest.length))

/-- There is such a library; it has no texts for its errors. -/
def Lib.plain : Lib where
  strerror _ := []
  strtoul := .c17 64
  stringParseUint str start :=
    let p := str.drop start
    let r := (Reader.c17 64).read p
    if r.rest.length = p.length ∨ r.range then none
    else some (r.number, start + (p.length - r.rest.length))
  stringParseUint_eq _ _ := rfl

variable (lib : Lib)

/-- `_dbus_vsock_parse_cid` and `_dbus_vsock_parse_port` differ in one word. -/
def vsockParse (what : String) (value : CString) : Except DBusError (BitVec 32) :=
  let bad : DBusError :=
    ⟨.badAddress, text "Failed to parse vsock " ++ text what ++ text " value '" ++ value.bytes ++
      text "'"⟩
  match lib.stringParseUint value.bytes 0 with
  | none => .error bad
  | some (val, _) => if uint32Max < val then .error bad else .ok (BitVec.ofNat 32 val)

def vsockParseCid (cid : CString) : Except DBusError (BitVec 32) := vsockParse lib "CID" cid

def vsockParsePort (port : CString) : Except DBusError (BitVec 32) := vsockParse lib "port" port

/-! ## Lists -/

def comma : UInt8 := 44

/-- The byte of a string at an index; behind its NUL there is nothing to read. -/
def byteAt (s : CString) (pos : Nat) : Option UInt8 := (s.bytes ++ [0])[pos]?

inductive CidList
  /-- The array, and how many of its cells are in use. -/
  | ok (cells : List (BitVec 32)) (n : Nat)
  | error (e : DBusError)
  /-- An access outside the array or the string. -/
  | fault

def CidList.cids : CidList → Option (List (BitVec 32))
  | .ok cells n => some (cells.take n)
  | _ => none

def badCidList (list : CString) : DBusError :=
  ⟨.badAddress, text "Failed to parse VSOCK CID list '" ++ list.bytes ++ text "'"⟩

theorem le_of_stringParseUint {lib : Lib} {str : List UInt8} {start val pos : Nat}
    (h : lib.stringParseUint str start = some (val, pos)) : start ≤ pos := by
  rw [lib.stringParseUint_eq] at h
  dsimp only at h
  split at h
  · cases h
  · cases h
    exact Nat.le_add_right _ _

/-- The loop of `_dbus_vsock_parse_cid_list`. -/
def parseCidListLoop (list : CString) (cells : List (BitVec 32)) (n pos : Nat) : CidList :=
  if pos < list.bytes.length then
    match hparse : lib.stringParseUint list.bytes pos with
    | none => .error (badCidList list)
    | some (val, pos') =>
      have := le_of_stringParseUint hparse
      if uint32Max < val then .error (badCidList list)
      else
        match byteAt list pos' with
        | none => .fault
        | some b =>
          if b ≠ 0 ∧ b ≠ comma then .error (badCidList list)
          else if n < cells.length then
            parseCidListLoop list (cells.set n (BitVec.ofNat 32 val)) (n + 1) (pos' + 1)
          else .fault
  else .ok cells n
termination_by list.bytes.length - pos

/-- `_dbus_vsock_parse_cid_list`, where `memory` says whether `dbus_new0` gets any. Its result is
not checked, and there is nothing behind a null pointer. -/
def vsockParseCidList (memory : Bool) (list : Option CString) : CidList :=
  match list with
  | none => .ok [] 0
  | some list =>
    parseCidListLoop lib list (if memory then List.replicate list.bytes.length 0 else []) 0 0

/-! ## What is accepted -/

/-- All of `item` is a number, and it fits in 32 bits. -/
def IsCid (item : List UInt8) (cid : BitVec 32) : Prop :=
  item ≠ [] ∧ lib.strtoul.read item = ⟨cid.toNat, [], false⟩

/-- CIDs with commas between them, and maybe one behind the last. -/
inductive IsCidList : List UInt8 → List (BitVec 32) → Prop
  | nil : IsCidList [] []
  | last {item : List UInt8} {cid : BitVec 32} (h : IsCid lib item cid) : IsCidList item [cid]
  | cons {item rest : List UInt8} {cid : BitVec 32} {cids : List (BitVec 32)}
      (h : IsCid lib item cid) (hrest : IsCidList rest cids) :
      IsCidList (item ++ comma :: rest) (cid :: cids)

variable {lib}

theorem comma_stops : Stops comma := by decide

theorem isCidList_nil_iff {cids : List (BitVec 32)} : IsCidList lib [] cids ↔ cids = [] := by
  constructor
  · intro h
    generalize hs : ([] : List UInt8) = s at h
    cases h with
    | nil => rfl
    | last h => exact absurd hs.symm h.1
    | cons h hrest => simp at hs
  · rintro rfl
    exact .nil

/-- What the scanner finds at a place where a list begins. -/
theorem isCidList_iff {s : List UInt8} (hs : s ≠ []) {cids : List (BitVec 32)} :
    IsCidList lib s cids ↔ ∃ cid rest, cids = cid :: rest ∧
      (lib.strtoul.read s).number = cid.toNat ∧ (lib.strtoul.read s).range = false ∧
      (lib.strtoul.read s).rest ≠ s ∧
      ((lib.strtoul.read s).rest = [] ∧ rest = [] ∨
        ∃ t, (lib.strtoul.read s).rest = comma :: t ∧ IsCidList lib t rest) := by
  constructor
  · intro h
    cases h with
    | nil => exact absurd rfl hs
    | last h =>
      rw [h.2]
      exact ⟨_, [], rfl, rfl, rfl, fun heq => hs heq.symm, .inl ⟨rfl, rfl⟩⟩
    | @cons item rest cid cids h hrest =>
      rw [lib.strtoul.append comma_stops, h.2]
      refine ⟨cid, cids, rfl, rfl, rfl, fun heq => h.1 ?_, .inr ⟨rest, rfl, hrest⟩⟩
      exact (List.append_cancel_right heq).symm
  · rintro ⟨cid, rest, rfl, hnumber, hrange, hne, hend⟩
    rcases hend with ⟨hnil, rfl⟩ | ⟨t, ht, hrest⟩
    · refine .last ⟨hs, ?_⟩
      rw [← hnumber, ← hnil, ← hrange]
    · obtain ⟨item, hitem⟩ : ∃ item, item ++ comma :: t = s := by
        have hsuffix := lib.strtoul.suffix s
        rwa [ht] at hsuffix
      subst hitem
      rw [lib.strtoul.append comma_stops] at hnumber hrange hne ht
      have hnil : (lib.strtoul.read item).rest = [] := by
        dsimp only at ht
        exact List.append_left_eq_self.mp ht
      refine .cons ⟨fun h => ?_, ?_⟩ hrest
      · rw [hnil, h] at hne
        exact hne rfl
      · dsimp only at hnumber hrange
        rw [← hnumber, ← hnil, ← hrange]

/-- A number ends inside the string, and what follows is what `strtoul` leaves. -/
theorem stringParseUint_eq_some {str : List UInt8} {start val pos : Nat}
    (h : lib.stringParseUint str start = some (val, pos)) :
    (lib.strtoul.read (str.drop start)).number = val ∧
      (lib.strtoul.read (str.drop start)).range = false ∧
      (lib.strtoul.read (str.drop start)).rest ≠ str.drop start ∧
      str.drop pos = (lib.strtoul.read (str.drop start)).rest ∧ start < pos ∧ pos ≤ str.length := by
  obtain ⟨done, hdone⟩ := lib.strtoul.suffix (str.drop start)
  have hlen := congrArg List.length hdone
  rw [List.length_append, List.length_drop] at hlen
  rw [lib.stringParseUint_eq] at h
  dsimp only at h
  split at h
  · cases h
  rename_i hgood
  rw [not_or, Bool.not_eq_true, List.length_drop] at hgood
  cases h
  refine ⟨rfl, hgood.2, fun heq => hgood.1 ?_, ?_, ?_, ?_⟩
  · rw [heq, List.length_drop]
  · have hdrop : (str.drop start).length - (lib.strtoul.read (str.drop start)).rest.length =
        done.length := by
      rw [List.length_drop]
      omega
    rw [hdrop, ← List.drop_drop]
    conv_lhs => rw [← hdone]
    exact List.drop_left
  · rw [List.length_drop]
    omega
  · rw [List.length_drop]
    omega

theorem stringParseUint_eq_none {str : List UInt8} {start : Nat}
    (h : lib.stringParseUint str start = none) :
    (lib.strtoul.read (str.drop start)).rest = str.drop start ∨
      (lib.strtoul.read (str.drop start)).range = true := by
  rw [lib.stringParseUint_eq] at h
  dsimp only at h
  split at h
  · rename_i hbad
    refine hbad.imp_left fun hlen => ?_
    exact (lib.strtoul.suffix _).eq_of_length hlen
  · cases h

theorem byteAt_eq {s : CString} {pos : Nat} (h : pos ≤ s.bytes.length) :
    byteAt s pos = some (CString.deref (s.bytes.drop pos)) := by
  rw [byteAt, CString.deref, List.headD_eq_head?_getD, List.head?_drop]
  rcases Nat.lt_or_eq_of_le h with hlt | rfl
  · rw [List.getElem?_append_left hlt, List.getElem?_eq_getElem hlt]
    rfl
  · simp

theorem cids_error (e : DBusError) (cids : List (BitVec 32)) :
    (CidList.error e).cids ≠ some cids := by
  simp [CidList.cids]

section Loop

variable {list : CString} {cells : List (BitVec 32)} {n pos : Nat}

/-- The scanner stays inside its array and the string, and what it has not read is a list. -/
def Exact (lib : Lib) (list : CString) (cells : List (BitVec 32)) (n pos : Nat) (r : CidList) :
    Prop :=
  r ≠ .fault ∧ ∀ cids, r.cids = some cids ↔
    ∃ rest, cids = cells.take n ++ rest ∧ IsCidList lib (list.bytes.drop pos) rest

theorem exact_error (e : DBusError)
    (h : ∀ rest, ¬ IsCidList lib (list.bytes.drop pos) rest) :
    Exact lib list cells n pos (.error e) := by
  refine ⟨by simp, fun cids => ⟨fun hcids => absurd hcids (cids_error e cids), ?_⟩⟩
  rintro ⟨rest, -, hrest⟩
  exact absurd hrest (h rest)

theorem drop_ne_nil (h : pos < list.bytes.length) : list.bytes.drop pos ≠ [] := by
  simp only [ne_eq, List.drop_eq_nil_iff]
  omega

theorem take_set_succ {val : BitVec 32} (h : n < cells.length) :
    (cells.set n val).take (n + 1) = cells.take n ++ [val] := by
  rw [List.take_add_one, List.getElem?_set_self h, List.take_set_of_le (Nat.le_refl n)]
  rfl

/-- One round: a number that fits, and a comma or the end. -/
theorem isCidList_step {val pos' : Nat} (hpos : pos < list.bytes.length)
    (hparse : lib.stringParseUint list.bytes pos = some (val, pos')) (hsmall : ¬ uint32Max < val)
    {b : UInt8} (hbyte : byteAt list pos' = some b) (hgood : ¬ (b ≠ 0 ∧ b ≠ comma))
    {cids : List (BitVec 32)} :
    IsCidList lib (list.bytes.drop pos) cids ↔ ∃ rest, cids = BitVec.ofNat 32 val :: rest ∧
      IsCidList lib (list.bytes.drop (pos' + 1)) rest := by
  obtain ⟨hval, hrange, hne, hdrop, -, hle⟩ := stringParseUint_eq_some hparse
  have hnumber : ∀ cid : BitVec 32, val = cid.toNat ↔ cid = BitVec.ofNat 32 val := by
    intro cid
    have hval : val < 2 ^ 32 := by
      rw [uint32Max] at hsmall
      omega
    rw [← BitVec.toNat_inj, BitVec.toNat_ofNat, Nat.mod_eq_of_lt hval]
    exact eq_comm
  have hnext : list.bytes.drop (pos' + 1) = (lib.strtoul.read (list.bytes.drop pos)).rest.tail := by
    rw [← hdrop, List.tail_drop]
  have hend : (lib.strtoul.read (list.bytes.drop pos)).rest = [] ∨
      ∃ t, (lib.strtoul.read (list.bytes.drop pos)).rest = comma :: t := by
    rw [byteAt_eq hle, hdrop] at hbyte
    cases hrest : (lib.strtoul.read (list.bytes.drop pos)).rest with
    | nil => exact .inl rfl
    | cons c t =>
      rw [hrest] at hbyte hdrop
      cases hbyte
      refine .inr ⟨t, ?_⟩
      have hc : CString.deref (c :: t) ≠ 0 := fun h => by
        have hnil := (CString.deref_eq_zero (hdrop ▸ List.drop_suffix _ _)).mp h
        cases hnil
      rw [not_and_not_right] at hgood
      rw [show c = comma from hgood hc]
  rw [isCidList_iff (drop_ne_nil hpos), hval, hrange, hnext]
  rcases hend with hnil | ⟨t, ht⟩
  · simp only [hnumber, hnil, List.tail_nil, isCidList_nil_iff]
    constructor
    · rintro ⟨_, rest, rfl, rfl, -, -, ⟨-, rfl⟩ | ⟨t, ht, -⟩⟩
      · exact ⟨[], rfl, rfl⟩
      · cases ht
    · rintro ⟨_, rfl, rfl⟩
      exact ⟨_, [], rfl, rfl, trivial, hnil ▸ hne, .inl ⟨trivial, rfl⟩⟩
  · simp only [hnumber, ht, List.tail_cons]
    constructor
    · rintro ⟨_, rest, rfl, rfl, -, -, ⟨hnil, -⟩ | ⟨t', ht', hrest⟩⟩
      · cases hnil
      · cases ht'
        exact ⟨rest, rfl, hrest⟩
    · rintro ⟨rest, rfl, hrest⟩
      exact ⟨_, rest, rfl, rfl, trivial, ht ▸ hne, .inr ⟨t, rfl, hrest⟩⟩

theorem parseCidListLoop_exact (hroom : n + (list.bytes.length - pos) ≤ cells.length) :
    Exact lib list cells n pos (parseCidListLoop lib list cells n pos) := by
  fun_induction parseCidListLoop lib list cells n pos with
  | case1 cells n pos hpos hparse =>
    -- There is no number.
    refine exact_error _ fun rest hrest => ?_
    obtain ⟨cid, rest, rfl, -, hrange, hne, -⟩ := (isCidList_iff (drop_ne_nil hpos)).mp hrest
    rcases stringParseUint_eq_none hparse with heq | hbad
    · exact hne heq
    · rw [hrange] at hbad
      cases hbad
  | case2 cells n pos hpos val pos' hparse _ hbig =>
    -- It is too large.
    refine exact_error _ fun rest hrest => ?_
    obtain ⟨cid, rest, rfl, hnumber, -⟩ := (isCidList_iff (drop_ne_nil hpos)).mp hrest
    obtain ⟨hval, -⟩ := stringParseUint_eq_some hparse
    have hlt := cid.isLt
    rw [uint32Max] at hbig
    omega
  | case3 cells n pos hpos val pos' hparse _ _ hnone =>
    obtain ⟨-, -, -, -, -, hle⟩ := stringParseUint_eq_some hparse
    rw [byteAt_eq hle] at hnone
    cases hnone
  | case4 cells n pos hpos val pos' hparse _ _ b hbyte hbad =>
    -- Something else follows it.
    refine exact_error _ fun rest hrest => ?_
    obtain ⟨cid, rest, rfl, -, -, -, hend⟩ := (isCidList_iff (drop_ne_nil hpos)).mp hrest
    obtain ⟨-, -, -, hdrop, -, hle⟩ := stringParseUint_eq_some hparse
    rw [byteAt_eq hle, hdrop] at hbyte
    cases hbyte
    rcases hend with ⟨hnil, -⟩ | ⟨t, ht, -⟩
    · exact hbad.1 (by rw [hnil]; rfl)
    · exact hbad.2 (by rw [ht]; rfl)
  | case5 cells n pos hpos val pos' hparse _ hsmall b hbyte hgood hn ih =>
    obtain ⟨-, -, -, -, hlt, -⟩ := stringParseUint_eq_some hparse
    obtain ⟨hfault, hcids⟩ := ih (by rw [List.length_set]; omega)
    refine ⟨hfault, fun cids => (hcids cids).trans ?_⟩
    simp only [take_set_succ hn, isCidList_step hpos hparse hsmall hbyte hgood, List.append_assoc,
      List.singleton_append]
    constructor
    · rintro ⟨rest, rfl, hrest⟩
      exact ⟨_, rfl, rest, rfl, hrest⟩
    · rintro ⟨_, rfl, rest, rfl, hrest⟩
      exact ⟨rest, rfl, hrest⟩
  | case6 cells n pos hpos val pos' hparse _ _ b hbyte hgood hn =>
    omega
  | case7 cells n pos hpos =>
    have hnil : list.bytes.drop pos = [] := List.drop_eq_nil_iff.mpr (by omega)
    refine ⟨by simp, fun cids => ?_⟩
    rw [hnil]
    simp only [CidList.cids, isCidList_nil_iff, Option.some.injEq]
    constructor
    · rintro rfl
      exact ⟨[], by simp, rfl⟩
    · rintro ⟨_, rfl, rfl⟩
      simp

end Loop

/-- How a scan can end. -/
def CidList.Ends (list : CString) (length : Nat) (r : CidList) : Prop :=
  r = .fault ∨ r = .error (badCidList list) ∨
    ∃ cells n, r = .ok cells n ∧ n ≤ cells.length ∧ cells.length = length

theorem parseCidListLoop_ends {list : CString} {cells : List (BitVec 32)} {n pos : Nat}
    (hn : n ≤ cells.length) :
    (parseCidListLoop lib list cells n pos).Ends list cells.length := by
  fun_induction parseCidListLoop lib list cells n pos with
  | case3 => exact .inl rfl
  | case5 cells n pos hpos val pos' hparse _ hsmall b hbyte hgood hlt ih =>
    rw [List.length_set] at ih
    exact ih hlt
  | case6 => exact .inl rfl
  | case7 cells n pos hpos => exact .inr (.inr ⟨cells, n, rfl, hn, rfl⟩)
  | _ => exact .inr (.inl rfl)

theorem le_of_vsockParseCidList {memory : Bool} {list : Option CString} {cells : List (BitVec 32)}
    {n : Nat} (h : vsockParseCidList lib memory list = .ok cells n) : n ≤ cells.length := by
  cases list with
  | none =>
    cases h
    exact Nat.le_refl 0
  | some list =>
    rw [vsockParseCidList] at h
    have hends : (parseCidListLoop lib list
        (if memory then List.replicate list.bytes.length 0 else []) 0 0).Ends list _ :=
      parseCidListLoop_ends (Nat.zero_le _)
    rcases hends with hend | hend | ⟨_, _, hend, hle, -⟩
    · rw [h] at hend
      cases hend
    · rw [h] at hend
      cases hend
    · rw [h] at hend
      cases hend
      exact hle

/-- With memory for the array, the list is read. -/
theorem vsockParseCidList_reads (list : CString) :
    vsockParseCidList lib true (some list) ≠ .fault ∧ ∀ cids,
      (vsockParseCidList lib true (some list)).cids = some cids ↔
        IsCidList lib list.bytes cids := by
  have hexact : Exact lib list (List.replicate list.bytes.length 0) 0 0
      (vsockParseCidList lib true (some list)) := parseCidListLoop_exact (by simp)
  simpa [Exact] using hexact

/-- The list is read exactly as it is written: it has one reading, and that is what is in the used
cells of the array, or it has none. -/
theorem vsockParseCidList_exact (lib : Lib) (list : CString) :
    (∃ cells n, vsockParseCidList lib true (some list) = .ok cells n ∧ n ≤ cells.length ∧
      cells.length = list.bytes.length ∧
      ∀ cids, IsCidList lib list.bytes cids ↔ cids = cells.take n) ∨
    (vsockParseCidList lib true (some list) = .error (badCidList list) ∧
      ∀ cids, ¬ IsCidList lib list.bytes cids) := by
  obtain ⟨hfault, hcids⟩ := vsockParseCidList_reads list
  have hends : (vsockParseCidList lib true (some list)).Ends list
      (List.replicate list.bytes.length (0 : BitVec 32)).length :=
    parseCidListLoop_ends (Nat.zero_le _)
  rw [List.length_replicate] at hends
  rcases hends with hend | hend | ⟨cells, n, hend, hle, hlen⟩
  · exact absurd hend hfault
  · refine .inr ⟨hend, fun cids h => ?_⟩
    rw [← hcids, hend] at h
    exact cids_error _ _ h
  · refine .inl ⟨cells, n, hend, hle, hlen, fun cids => ?_⟩
    rw [← hcids, hend, CidList.cids, Option.some.injEq]
    exact eq_comm

/-- Without memory for the array, only an empty list gets through. -/
theorem vsockParseCidList_starved {list : CString} {cells : List (BitVec 32)} {n : Nat}
    (h : vsockParseCidList lib false (some list) = .ok cells n) :
    vsockParseCidList lib true (some list) = .ok cells n := by
  have hempty : list.bytes.length = 0 := by
    by_contra hlen
    rw [vsockParseCidList, parseCidListLoop, if_pos (Nat.pos_of_ne_zero hlen)] at h
    split at h
    · cases h
    · split at h
      · cases h
      · split at h
        · cases h
        · split at h
          · cases h
          · simp at h
  simpa [vsockParseCidList, hempty] using h

end Spectrum.Dbus
