import Spectrum.Net.Sys

/-!
# `net-util.c`

The functions of `net-util.c`, and for each of them the one fact its callers use: it has its
effect and nothing else, or it returns `-1` having changed nothing but `errno`. The helper
socket every one of these functions opens is closed again on every path, which is why no
descriptor shows up in any of the statements.

A specification below also says *when* a call may fail: because the environment chose to
(`Spontaneous ok`), or because the network state forces it. A run in which nothing fails
spontaneously is thereby determined.
-/

set_option autoImplicit false

namespace Spectrum.Net

open Interact Bytes

/-! ## The code -/

/-- `snprintf(buf, IFNAMSIZ, "…%d", pid)`. The formats used cannot fail, so neither does this. -/
def snprintf (pfx : List Char) (pid : Nat) : IfName :=
  (ascii pfx ++ decimal pid).take (IFNAMSIZ - 1)

/-- The name the kernel reads from a request: it treats the last byte of `ifr_name` as NUL. -/
def ifrName (name : IfName) : IfName := name.take (IFNAMSIZ - 1)

/-- `socket(AF_UNIX, …)`, the request, `close`: the frame of every function here. -/
def withSocket (site : Site) (request : Prog Sys Int) : Prog Sys Int := do
  let fd ← Prog.lift (.socket site)
  if fd = -1 then
    return -1
  else
    let r ← request
    let _ ← Prog.lift (.close fd)
    return r

/-- Read the flags, change them, write them back. -/
def ifChangeFlags (site : Site) (change : BitVec 16 → BitVec 16) (name : IfName) : Prog Sys Int :=
  withSocket site do
    match ← Prog.lift (.getFlags site (ifrName name)) with
    | none => return -1
    | some flags => Prog.lift (.setFlags site (ifrName name) (change flags))

def ifUp (name : IfName) : Prog Sys Int := ifChangeFlags .ifUp (· ||| IFF_UP) name

def ifDown (name : IfName) : Prog Sys Int := ifChangeFlags .ifDown (· &&& ~~~IFF_UP) name

/-- `errno = e; return -1;` -/
def failWith (e : Errno) : Prog Sys Int := do
  Prog.lift (.setErrno e)
  return -1

/-- `'%'`. -/
def percent : UInt8 := 37

def ifRename (name newname : IfName) : Prog Sys Int :=
  if IFNAMSIZ ≤ newname.length then failWith ENAMETOOLONG
  else if percent ∈ newname then failWith EINVAL
  else withSocket .ifRename (Prog.lift (.setName (ifrName name) newname))

def bridgeAdd (name : IfName) : Prog Sys Int :=
  if IFNAMSIZ ≤ name.length then failWith ENAMETOOLONG
  else if percent ∈ name then failWith EINVAL
  else withSocket .bridgeAdd (Prog.lift (.brAddBr name))

/-- `if_nametoindex`, then a bridge request about that index. -/
def bridgeChangeIf (site : Site) (request : IfName → Nat → Sys Int) (brname ifname : IfName) :
    Prog Sys Int := do
  let index ← Prog.lift (.nameToIndex site ifname)
  if index = 0 then
    return -1
  else
    withSocket site (Prog.lift (request (ifrName brname) index))

def bridgeAddIf (brname ifname : IfName) : Prog Sys Int :=
  bridgeChangeIf .bridgeAddIf .brAddIf brname ifname

def bridgeRemoveIf (brname ifname : IfName) : Prog Sys Int :=
  bridgeChangeIf .bridgeRemoveIf .brDelIf brname ifname

/-- A bridge has to be down to be deleted; failing to set it down is only warned about. -/
def bridgeDelete (name : IfName) : Prog Sys Int := do
  let _ ← ifDown name
  withSocket .bridgeDelete (Prog.lift (.brDelBr (ifrName name)))

def tapOpen (name : IfName) (excl : Bool) : Prog Sys Int :=
  if IFNAMSIZ ≤ name.length then failWith ENAMETOOLONG
  else do
    let fd ← Prog.lift .openTun
    if fd = -1 then
      return -1
    else
      let r ← Prog.lift (.tunSetIff fd name excl)
      if r = -1 then
        let _ ← Prog.lift (.close fd)
        return -1
      else
        return fd

/-! ## Names -/

theorem length_snprintf (pfx : List Char) (pid : Nat) :
    (snprintf pfx pid).length ≤ IFNAMSIZ - 1 := by
  simp [snprintf, IFNAMSIZ]

@[simp] theorem ifrName_snprintf (pfx : List Char) (pid : Nat) :
    ifrName (snprintf pfx pid) = snprintf pfx pid :=
  List.take_of_length_le (length_snprintf pfx pid)

theorem not_tooLong_snprintf (pfx : List Char) (pid : Nat) :
    ¬ IFNAMSIZ ≤ (snprintf pfx pid).length := by
  have := length_snprintf pfx pid
  simp only [IFNAMSIZ] at *
  omega

theorem percent_not_mem_snprintf {pfx : List Char} (h : percent ∉ ascii pfx) (pid : Nat) :
    percent ∉ snprintf pfx pid := by
  intro hm
  rcases List.mem_append.mp (List.mem_of_mem_take hm) with hm | hm
  · exact h hm
  · have := mem_decimal hm
    simp [percent] at this

/-! ## Specifications -/

/-- The environment may let a call fail that the state would let through. -/
def Spontaneous (ok : Option Errno → Prop) : Prop := ∃ e, ok (some e)

variable {me : Proc} {ok : Option Errno → Prop} {H : Host → Prop}

/-- The socket is invisible from outside: what a caller sees is the request's effect on a state
with the descriptors it had before. -/
theorem wp_withSocket {site : Site} {request : Prog Sys Int} {Q : Int → Host → Prop} {w : Host}
    (hbad : ∀ e, ok (some e) → Q (-1) (w.fail me site e))
    (hreq : request.wp (kernel.spec me ok H) (fun r w' =>
        w'.net.descs = w.net.descs ++ [⟨me, w.net.freeFd me, .socket⟩] ∧
        ∀ N : NetState, N.ifaces = w'.net.ifaces → N.descs = w.net.descs →
          N.devices = w'.net.devices → N.next = w'.net.next → Q r (w'.withNet N))
      (w.withNet (w.net.openFd me .socket (.socket _)))) :
    (withSocket site request).wp (kernel.spec me ok H) Q w := by
  unfold withSocket
  simp only [Prog.bind_eq, Prog.lift_bind, Prog.pure_eq]
  refine wp_attempt (fun ch => rfl) ?_ ?_
  · rintro e (he | ⟨-, he⟩)
    · exact hbad e he
    · simp at he
  · intro fd N hN
    simp only [Except.ok.injEq, Prod.mk.injEq] at hN
    obtain ⟨rfl, rfl⟩ := hN
    have hfd : ((w.net.freeFd me : Nat) : Int) ≠ -1 := by omega
    rw [if_neg hfd]
    refine Prog.wp_seq hreq fun r w' hw' => ?_
    obtain ⟨hd, hQ⟩ := hw'
    refine wp_close (NetState.obj_of_descs hd) ?_
    have hdescs := NetState.closeFd_descs hd (by simp)
    refine hQ _ ?_ (by simpa using hdescs) rfl rfl
    refine NetState.closeFd_ifaces fun d hm hp hf i hi => ?_
    -- The only descriptor with that number is the socket itself.
    rw [hd] at hm
    rcases List.mem_append.mp hm with hm | hm
    · exact absurd ⟨hp, by exact_mod_cast hf⟩ (w.net.freeFd_unused hm)
    · rw [List.mem_singleton.mp hm] at hi
      cases hi

/-- `withSocket` around one fallible request. -/
theorem wp_withSocket_lift {site : Site} {c : Sys Int} {Q : Int → Host → Prop} {w : Host}
    {r : Except Errno (Int × NetState)}
    (hc : ∀ ch, exec me c (w.withNet (w.net.openFd me .socket (.socket _))) ch =
      (w.withNet (w.net.openFd me .socket (.socket _))).attempt me site (fun _ => -1) ch r)
    (hbad : ∀ e, Spontaneous ok ∨ r = .error e → Q (-1) (w.fail me site e))
    (hgood : ∀ b M, r = .ok (b, M) →
      M.descs = w.net.descs ++ [⟨me, w.net.freeFd me, .socket⟩] ∧
      ∀ N : NetState, N.ifaces = M.ifaces → N.descs = w.net.descs →
          N.devices = M.devices → N.next = M.next → Q b (w.withNet N)) :
    (withSocket site (Prog.lift c)).wp (kernel.spec me ok H) Q w := by
  refine wp_withSocket (fun e he => hbad e (Or.inl ⟨e, he⟩)) ?_
  refine wp_attempt hc ?_ ?_
  · intro e he
    refine ⟨rfl, fun N h1 h2 h3 h4 => ?_⟩
    rw [show N = w.net from NetState.ext h1 h2 h3 h4]
    exact hbad e (he.imp (fun h => ⟨e, h⟩) And.right)
  · intro b M hM
    exact hgood b M hM

/-- The flags of `name` are changed, or there is no such interface. -/
theorem wp_ifChangeFlags {site : Site} {change : BitVec 16 → BitVec 16} {name : IfName}
    {Q : Int → Host → Prop} {w : Host}
    (hbad : ∀ e, Spontaneous ok ∨ w.net.find (ifrName name) = none → Q (-1) (w.fail me site e))
    (hgood : ∀ i, w.net.find (ifrName name) = some i →
      Q 0 (w.withNet (w.net.withFlags (ifrName name) (change i.flags)))) :
    (ifChangeFlags site change name).wp (kernel.spec me ok H) Q w := by
  -- A failed request leaves exactly the socket to close.
  have hundo : ∀ e, Spontaneous ok ∨ w.net.find (ifrName name) = none → ∀ N : NetState,
      N.ifaces = w.net.ifaces → N.descs = w.net.descs → N.devices = w.net.devices →
      N.next = w.net.next → Q (-1) ((w.fail me site e).withNet N) := by
    intro e he N h1 h2 h3 h4
    rw [show N = w.net from NetState.ext h1 h2 h3 h4]
    exact hbad e he
  refine wp_withSocket (fun e he => hbad e (Or.inl ⟨e, he⟩)) ?_
  simp only [Prog.bind_eq, Prog.lift_bind, Prog.pure_eq]
  refine wp_attempt (fun ch => rfl) ?_ ?_
  · rintro e (he | ⟨-, he⟩)
    · exact ⟨rfl, hundo e (Or.inl ⟨e, he⟩)⟩
    · have hnone := NetState.getFlags_error he
      exact ⟨rfl, hundo e (Or.inr hnone)⟩
  · intro b M hM
    obtain ⟨i, hi, rfl, rfl⟩ := NetState.getFlags_ok hM
    refine wp_attempt (fun ch => rfl) ?_ ?_
    · rintro e (he | ⟨-, he⟩)
      · exact ⟨rfl, hundo e (Or.inl ⟨e, he⟩)⟩
      · have hnone := NetState.setFlags_error he
        exact ⟨rfl, hundo e (Or.inr hnone)⟩
    · intro b' M' hM'
      obtain ⟨rfl, rfl⟩ := NetState.setFlags_ok hM'
      refine ⟨rfl, fun N h1 h2 h3 h4 => ?_⟩
      rw [show N = w.net.withFlags (ifrName name) (change i.flags) from NetState.ext h1 h2 h3 h4]
      exact hgood i hi

/-- A bridge is created, or the name is taken. -/
theorem wp_bridgeAdd {name : IfName} {Q : Int → Host → Prop} {w : Host}
    (hlen : ¬ IFNAMSIZ ≤ name.length) (hpct : percent ∉ name)
    (hbad : ∀ e, Spontaneous ok ∨ w.net.find name ≠ none → Q (-1) (w.fail me .bridgeAdd e))
    (hgood : ∀ hfree, Q 0 (w.withNet (w.net.addIface name .bridge me.life hfree))) :
    (bridgeAdd name).wp (kernel.spec me ok H) Q w := by
  rw [bridgeAdd, if_neg hlen, if_neg hpct]
  refine wp_withSocket_lift (fun ch => rfl) ?_ ?_
  · rintro e (he | he)
    · exact hbad e (Or.inl he)
    · have hused := NetState.brAddBr_error he
      exact hbad e (Or.inr hused)
  · intro b M hM
    obtain ⟨hfree, rfl, rfl⟩ := NetState.brAddBr_ok hM
    refine ⟨rfl, fun N h1 h2 h3 h4 => ?_⟩
    rw [show N = w.net.addIface name .bridge me.life hfree from NetState.ext h1 h2 h3 h4]
    exact hgood hfree

/-- The interface is renamed, or it is missing or up, or the new name is taken. -/
theorem wp_ifRename {name newname : IfName} {Q : Int → Host → Prop} {w : Host}
    (hlen : ¬ IFNAMSIZ ≤ newname.length) (hpct : percent ∉ newname)
    (hbad : ∀ e, Spontaneous ok ∨ w.net.find (ifrName name) = none ∨
        (∃ i, w.net.find (ifrName name) = some i ∧ i.isUp = true) ∨ w.net.find newname ≠ none →
      Q (-1) (w.fail me .ifRename e))
    (hgood : ∀ i hfree, w.net.find (ifrName name) = some i → i.isUp = false →
      Q 0 (w.withNet (w.net.rename (ifrName name) newname hfree))) :
    (ifRename name newname).wp (kernel.spec me ok H) Q w := by
  rw [ifRename, if_neg hlen, if_neg hpct]
  refine wp_withSocket_lift (fun ch => rfl) ?_ ?_
  · rintro e (he | he)
    · exact hbad e (Or.inl he)
    · have hwhy := NetState.setName_error he
      exact hbad e (Or.inr hwhy)
  · intro b M hM
    obtain ⟨i, hfree, hi, hup, rfl, rfl⟩ := NetState.setName_ok hM
    refine ⟨rfl, fun N h1 h2 h3 h4 => ?_⟩
    rw [show N = w.net.rename (ifrName name) newname hfree from NetState.ext h1 h2 h3 h4]
    exact hgood i hfree hi hup

theorem wp_bridgeChangeIf {site : Site} {request : IfName → Nat → Sys Int}
    {brname ifname : IfName} {Q : Int → Host → Prop} {w : Host}
    (hmiss : ∀ e, Spontaneous ok ∨ w.net.find ifname = none → Q (-1) (w.fail me site e))
    (hfound : ∀ i, w.net.find ifname = some i →
      (withSocket site (Prog.lift (request (ifrName brname) i.index))).wp (kernel.spec me ok H)
        Q w)
    (hx : ∀ ch, exec me (.nameToIndex site ifname) w ch =
      w.attempt me site (fun _ => 0) ch (w.net.nameToIndex ifname)) :
    (bridgeChangeIf site request brname ifname).wp (kernel.spec me ok H) Q w := by
  unfold bridgeChangeIf
  simp only [Prog.bind_eq, Prog.lift_bind, Prog.pure_eq]
  refine wp_attempt hx ?_ ?_
  · intro e he
    exact hmiss e (he.imp (fun h => ⟨e, h⟩) fun h => NetState.nameToIndex_error h.2)
  · intro x M hM
    obtain ⟨i, hi, rfl, rfl⟩ := NetState.nameToIndex_ok hM
    rw [if_neg (Nat.ne_of_gt (w.net.index_range i (NetState.find_some hi).1).1)]
    exact hfound i hi

/-- The interface becomes a port of the bridge. -/
theorem wp_bridgeAddIf {brname ifname : IfName} {Q : Int → Host → Prop} {w : Host}
    (hbad : ∀ e, Spontaneous ok ∨ (¬ ∃ b i, w.net.Attachable (ifrName brname) ifname b i) →
      Q (-1) (w.fail me .bridgeAddIf e))
    (hgood : ∀ b i hm, w.net.Attachable (ifrName brname) ifname b i →
      Q 0 (w.withNet (w.net.withMaster i.index (some b.index) hm))) :
    (bridgeAddIf brname ifname).wp (kernel.spec me ok H) Q w := by
  refine wp_bridgeChangeIf (fun e he => hbad e (he.imp_right ?_)) (fun i hi => ?_) (fun ch => rfl)
  · rintro h ⟨b, i, -, hi, -⟩
    rw [h] at hi
    cases hi
  · refine wp_withSocket_lift (fun ch => rfl) ?_ ?_
    · intro e he
      refine hbad e (he.imp_right ?_)
      rintro h ⟨b, j, hbj⟩
      obtain rfl : j = i := Option.some.inj (hbj.2.1.symm.trans hi)
      exact NetState.brAddIf_error (N := w.net.openFd me .socket (.socket _)) hi h ⟨b, hbj⟩
    · intro r M hM
      obtain ⟨b, hm, hb, rfl, rfl⟩ :=
        NetState.brAddIf_ok (N := w.net.openFd me .socket (.socket _)) hi hM
      refine ⟨rfl, fun N h1 h2 h3 h4 => ?_⟩
      rw [show N = w.net.withMaster i.index (some b.index) hm from NetState.ext h1 h2 h3 h4]
      exact hgood b i hm hb

/-- The interface stops being a port of the bridge. -/
theorem wp_bridgeRemoveIf {brname ifname : IfName} {Q : Int → Host → Prop} {w : Host}
    (hbad : ∀ e, Spontaneous ok ∨ (¬ ∃ b i, w.net.PortOf (ifrName brname) ifname b i) →
      Q (-1) (w.fail me .bridgeRemoveIf e))
    (hgood : ∀ b i, w.net.PortOf (ifrName brname) ifname b i →
      Q 0 (w.withNet (w.net.withMaster i.index none NetState.none_below))) :
    (bridgeRemoveIf brname ifname).wp (kernel.spec me ok H) Q w := by
  refine wp_bridgeChangeIf (fun e he => hbad e (he.imp_right ?_)) (fun i hi => ?_) (fun ch => rfl)
  · rintro h ⟨b, i, -, hi, -⟩
    rw [h] at hi
    cases hi
  · refine wp_withSocket_lift (fun ch => rfl) ?_ ?_
    · intro e he
      refine hbad e (he.imp_right ?_)
      rintro h ⟨b, j, hbj⟩
      obtain rfl : j = i := Option.some.inj (hbj.2.1.symm.trans hi)
      exact NetState.brDelIf_error (N := w.net.openFd me .socket (.socket _)) hi h ⟨b, hbj⟩
    · intro r M hM
      obtain ⟨b, hb, rfl, rfl⟩ :=
        NetState.brDelIf_ok (N := w.net.openFd me .socket (.socket _)) hi hM
      refine ⟨rfl, fun N h1 h2 h3 h4 => ?_⟩
      rw [show N = w.net.withMaster i.index none NetState.none_below from
        NetState.ext h1 h2 h3 h4]
      exact hgood b i hb

/-! ### Deleting a bridge -/

@[simp] theorem isUp_down (i : Iface) (flags : BitVec 16) :
    ({ i with flags := flags &&& ~~~IFF_UP } : Iface).isUp = false := by
  simp [Iface.isUp, BitVec.and_assoc, BitVec.and_comm (~~~IFF_UP)]

theorem NetState.find_withFlags {N : NetState} {name : IfName} {i : Iface}
    (hi : N.find name = some i) (flags : BitVec 16) :
    (N.withFlags name flags).find name = some { i with flags } := by
  obtain ⟨hm, rfl⟩ := find_some hi
  have hmem : { i with flags } ∈ (N.withFlags i.name flags).ifaces :=
    List.mem_map.mpr ⟨i, hm, if_pos rfl⟩
  exact find_of_mem hmem

/-- The bridge goes down and is deleted. On any other path one of the two functions has failed,
and the log says so. -/
theorem wp_bridgeDelete {name : IfName} {Q : Int → Host → Prop} {w : Host}
    (hbad : ∀ r w', (∃ e, (.ifDown, e) ∈ w'.failed ∨ (.bridgeDelete, e) ∈ w'.failed) →
      (Spontaneous ok ∨ ¬ ∃ b, w.net.find (ifrName name) = some b ∧ b.kind = .bridge) → Q r w')
    (hgood : ∀ b, w.net.find (ifrName name) = some b → b.kind = .bridge →
      Q 0 (w.withNet ((w.net.withFlags (ifrName name) (b.flags &&& ~~~IFF_UP)).withoutBridge b))) :
    (bridgeDelete name).wp (kernel.spec me ok H) Q w := by
  have hlog : ∀ (v : Host) (e : Errno), (.bridgeDelete, e) ∈ (v.fail me .bridgeDelete e).failed :=
    fun v e => by simp [Host.fail]
  refine Prog.wp_bind.mpr (wp_ifChangeFlags ?_ ?_)
  · -- Setting it down failed: whatever follows, that is in the log.
    intro e he
    have hwhy : Spontaneous ok ∨ ¬ ∃ b, w.net.find (ifrName name) = some b ∧ b.kind = .bridge := by
      refine he.imp_right ?_
      rintro h ⟨b, hb, -⟩
      rw [h] at hb
      cases hb
    refine wp_withSocket_lift (fun ch => rfl) ?_ ?_
    · intro e' _
      exact hbad _ _ ⟨e', Or.inr (hlog _ _)⟩ hwhy
    · intro b M hM
      obtain ⟨b, -, rfl, rfl⟩ := NetState.brDelBr_ok hM
      exact ⟨rfl, fun N _ _ _ _ => hbad _ _ ⟨e, Or.inl (by simp [Host.fail, Host.withNet])⟩ hwhy⟩
  · intro i hi
    have hdown := NetState.find_withFlags hi (i.flags &&& ~~~IFF_UP)
    refine wp_withSocket_lift (fun ch => rfl) ?_ ?_
    · intro e he
      refine hbad _ _ ⟨e, Or.inr (hlog _ _)⟩ (he.imp_right ?_)
      rintro h ⟨b, hb, hk⟩
      obtain rfl : b = i := Option.some.inj (hb.symm.trans hi)
      exact NetState.brDelBr_error h ⟨_, hdown, hk, isUp_down _ _⟩
    · intro r M hM
      obtain ⟨b, ⟨hb, hk, -⟩, rfl, rfl⟩ := NetState.brDelBr_ok hM
      obtain rfl : b = { i with flags := i.flags &&& ~~~IFF_UP } :=
        Option.some.inj (hb.symm.trans hdown)
      refine ⟨rfl, fun N h1 h2 h3 h4 => ?_⟩
      rw [show N = (w.net.withFlags (ifrName name) (i.flags &&& ~~~IFF_UP)).withoutBridge i from
        NetState.ext h1 h2 h3 h4]
      exact hgood i hi hk

/-! ### Opening a tap -/

theorem NetState.attach_openFd (N : NetState) {p : Proc} {name : IfName}
    (hfree : N.find name = none) :
    ((N.openFd p .tun (.tun _)).addIface name .tap p.life hfree).attach p (N.freeFd p) N.next
      (Nat.lt_succ_self _) = N.withTap p name hfree := by
  refine NetState.ext rfl ?_ rfl rfl
  change (N.descs ++ [_]).map _ = N.descs ++ [_]
  rw [List.map_append]
  congr 1
  · refine (List.map_congr_left fun d hm => ?_).trans (List.map_id _)
    refine if_neg fun h => N.freeFd_unused hm ⟨h.1, by exact_mod_cast h.2⟩
  · simp [freeFd, fdsOf, addIface]

/-- A new tap, held by the caller alone, or the name is taken. -/
theorem wp_tapOpen {name : IfName} {Q : Int → Host → Prop} {w : Host}
    (hlen : ¬ IFNAMSIZ ≤ name.length)
    (hbad : ∀ e, Spontaneous ok ∨ w.net.find name ≠ none → Q (-1) (w.fail me .tapOpen e))
    (hgood : ∀ hfree, Q (w.net.freeFd me) (w.withNet (w.net.withTap me name hfree))) :
    (tapOpen name true).wp (kernel.spec me ok H) Q w := by
  rw [tapOpen, if_neg hlen]
  simp only [Prog.bind_eq, Prog.lift_bind, Prog.pure_eq]
  have hfd : ((w.net.freeFd me : Nat) : Int) ≠ -1 := by omega
  refine wp_attempt (fun ch => rfl) ?_ ?_
  · rintro e (he | ⟨-, he⟩)
    · exact hbad e (Or.inl ⟨e, he⟩)
    · simp at he
  · intro fd N hN
    simp only [Except.ok.injEq, Prod.mk.injEq] at hN
    obtain ⟨rfl, rfl⟩ := hN
    rw [if_neg hfd]
    have hobj : (w.net.openFd me .tun (.tun _)).obj me (w.net.freeFd me) = some .tun :=
      NetState.obj_of_descs rfl
    refine wp_attempt (fun ch => rfl) ?_ ?_
    · intro e he
      rw [if_pos rfl]
      refine wp_close hobj ?_
      have hback := w.net.closeFd_openFd (p := me) (.tun _) (fun _ h => by cases h)
      simp only [Host.withNet_fail, Host.withNet_withNet, Host.withNet_net, hback]
      refine hbad e (he.imp (fun h => ⟨e, h⟩) fun h => ?_)
      have hused := NetState.tunSetIff_error hobj h.2
      exact hused
    · intro r M hM
      obtain ⟨hfree, rfl, rfl⟩ := NetState.tunSetIff_ok hM
      rw [if_neg (by decide)]
      have hopen := hgood hfree
      have hsame := w.net.attach_openFd (p := me) hfree
      exact hsame ▸ hopen

end Spectrum.Net
