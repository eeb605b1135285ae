import Spectrum.Vmm.Process

/-!
# `fork.c`

`double_fork` starts a process that is not a child of the caller: it forks a child, which forks a
grandchild, writes the grandchild's pid into a pipe, and exits. The caller reads the pid from the
pipe and returns it; the grandchild returns 0.

**What it returns can be relied on if neither `pipe` nor the first `fork` fails, `write` is not
interrupted and `read` does not fail.** The two early returns give `-1` instead of `-errno`; when
`read` or `write` returns `-1` with `EINTR`, the loops add that `-1` to the number of bytes
transferred; and when `read` fails, `v` is returned without having been set.
-/

set_option autoImplicit false

namespace Spectrum.Vmm

open Interact Bytes

/-! ## The code -/

/-- `sizeof v`. -/
def intSize : Nat := 4

/-- The bytes of an `int`, in the order of the machine. -/
def intBytes (v : Int) : List UInt8 := toLE intSize (v % 2 ^ 32).toNat

def ofIntBytes (bytes : List UInt8) : Int :=
  if ofLE bytes < 2 ^ 31 then ofLE bytes else (ofLE bytes : Int) - 2 ^ 32

/-- `acc += r`, where `acc` is a `size_t` and `r` an `ssize_t`. -/
def addSize (acc : Nat) (r : Int) : Nat := ((acc + r) % 2 ^ 64).toNat

/-- `(r != -1 || errno == EINTR) && (acc += r) < sizeof v`: the new `acc` if the loop goes on. -/
def transferAgain (acc : Nat) (r : Except Errno Nat) : Option Nat :=
  match r with
  | .ok n => if addSize acc n < intSize then some (addSize acc n) else none
  | .error e =>
    if e = EINTR ∧ addSize acc (-1) < intSize then some (addSize acc (-1)) else none

/-- What the child does with `v`. -/
def sendPid {α : Type} (fd : Nat) (v : Int) : Prog Call α :=
  .loop 0 (fun acc => .write fd ((intBytes v).drop acc)) transferAgain
    (fun _ r =>
      match r with
      | .ok _ => exitWith (if v < 0 then 1 else 0)
      | .error _ => exitWith 1)

/-- The bytes of `v` after a read into `(char *)&v + acc`. -/
def stored (v : List UInt8) (acc : Nat) : Except Errno (List UInt8) → List UInt8
  | .ok bytes => v.take acc ++ bytes ++ v.drop (acc + bytes.length)
  | .error _ => v

/-- What the grandparent does; `v` is not initialised. -/
def receivePid (fd : Nat) (child : Pid) (v : List UInt8) : Prog Call Int :=
  .loop (0, v) (fun s => .read fd (intSize - s.1))
    (fun s r => (transferAgain s.1 (r.map List.length)).map fun acc => (acc, stored s.2 s.1 r))
    (fun s r => do
      Prog.lift (.close fd)
      match r with
      | .ok _ => return ofIntBytes (stored s.2 s.1 r)
      | .error _ =>
        let _ ← Prog.lift (.kill child SIGKILL)
        Prog.lift (.waitpid child)
        return ofIntBytes (stored s.2 s.1 r))

/-- `junk` is what `v` contains before it is written to. -/
def doubleFork (junk : Fin 4 → UInt8) : Prog Call Int := do
  match ← Prog.lift .pipe with
  | .error _ => return -1
  | .ok (readEnd, writeEnd) =>
    match ← Prog.lift .fork with
    | .error _ =>
      Prog.lift (.close readEnd)
      Prog.lift (.close writeEnd)
      return -1
    | .child =>
      Prog.lift (.close readEnd)
      match ← Prog.lift .fork with
      | .child =>
        Prog.lift (.close writeEnd)
        return 0
      | .error e => sendPid writeEnd (-e)
      | .parent pid => sendPid writeEnd pid
    | .parent child =>
      Prog.lift (.close writeEnd)
      receivePid readEnd child (List.ofFn junk)

/-! ## Bytes of an `int` -/

@[simp] theorem length_intBytes (v : Int) : (intBytes v).length = intSize := length_toLE _ _

theorem ofIntBytes_intBytes {v : Int} (hlo : -2 ^ 31 ≤ v) (hhi : v < 2 ^ 31) :
    ofIntBytes (intBytes v) = v := by
  unfold ofIntBytes intBytes
  rw [ofLE_toLE (by unfold intSize; omega)]
  split <;> omega

theorem addSize_natCast {acc n : Nat} (h : acc + n ≤ intSize) : addSize acc n = acc + n := by
  unfold addSize intSize at *
  omega

/-- What has been read so far is a part of `v`, and the rest of `v` is still there. -/
theorem stored_take {v bytes : List UInt8} {acc : Nat} (hacc : acc + bytes.length ≤ v.length) :
    (stored v acc (.ok bytes)).length = v.length ∧
      (stored v acc (.ok bytes)).take (acc + bytes.length) = v.take acc ++ bytes := by
  have hlen : (v.take acc ++ bytes).length = acc + bytes.length := by
    simp
    omega
  constructor
  · simp [stored]
    omega
  · rw [stored, ← hlen, List.take_left]

/-! ## The contract -/

/-- `p` was forked by a process that `gp` has forked. -/
def Grandchild (gp : Pid) (w : Procs) (p : Pid) : Prop :=
  ∃ child, (gp, child) ∈ w.forks ∧ (child, p) ∈ w.forks

/-- The comment over `double_fork`, for the process `t` when it has returned `n`. -/
structure Contract (gp t : Pid) (n : Int) (w : Procs) : Prop where
  zero : n = 0 → Grandchild gp w t
  pos : 0 < n → t = gp ∧ Grandchild gp w n.toNat
  neg : n < 0 → t = gp ∧ ∃ f ∈ w.failed, n = -f.errno

/-- The outcomes under which the contract holds. The first `fork` is the caller's. -/
def Reliable (gp t : Pid) : Choice → Prop
  | .fail .pipe e => e = EPERM
  | .fail .fork e => t = gp → e = EPERM
  | .fail .read _ => False
  | .fail .write e => e ≠ EINTR
  | _ => True

/-! ## One process at a time -/

/-- How far a process has got. `sending v n k` has written `k` bytes of `n`, `reading r got` has
read the bytes `got`. -/
inductive Phase
  | start
  | piped (r v : Nat)
  | failed
  | reading (r : Nat) (got : List UInt8)
  | received (got : List UInt8)
  | child (v : Nat)
  | sending (v : Nat) (n : Int) (sent : Nat)
  | grandchild

def forkSpec : Spec Call Phase where
  pre x c :=
    match c with
    | .pipe => x = .start
    | .fork => (∃ r v, x = .piped r v) ∨ ∃ v, x = .child v
    | .close fd =>
      match x with
      | .failed | .reading _ _ | .grandchild => True
      | .child v => fd ≠ v
      | _ => False
    | .write fd bytes => ∃ n sent, x = .sending fd n sent ∧ bytes = (intBytes n).drop sent
    | .read fd count => ∃ got, x = .reading fd got
    | .exit _ => ∃ v n sent, x = .sending v n sent
    | _ => False
  post x c b y :=
    match c with
    | .pipe =>
      match b with
      | .error _ => y = .failed
      | .ok (r, v) => r ≠ v ∧ y = .piped r v
    | .fork =>
      match x, b with
      | .piped _ _, .error _ => y = .failed
      | .piped _ v, .child => y = .child v
      | .piped r _, .parent _ => y = .reading r []
      | .child v, .error e => y = .sending v (-e) 0
      | .child _, .child => y = .grandchild
      | .child v, .parent p => y = .sending v p 0
      | _, _ => False
    | .close fd =>
      match x with
      | .reading r got => y = if fd = r then .received got else .reading r got
      | _ => y = x
    | .write _ bytes =>
      match x, b with
      | .sending v n sent, .ok m => m ≤ bytes.length ∧ y = .sending v n (sent + m)
      | .sending v n sent, .error e => e ≠ EINTR ∧ y = .sending v n sent
      | _, _ => False
    | .read _ count =>
      match x, b with
      | .reading r got, .ok bytes => bytes.length ≤ count ∧ y = .reading r (got ++ bytes)
      | _, _ => False
    | _ => False

/-- What a process that returns has got. -/
def Returned (n : Int) : Phase → Prop
  | .failed => n = -1
  | .received got => got.length = intSize ∧ n = ofIntBytes got
  | .grandchild => n = 0
  | _ => False

theorem wp_sendPid {fd : Nat} {v : Int} :
    (sendPid fd v : Prog Call Int).wp forkSpec Returned (.sending fd v 0) := by
  refine Prog.wp_loop (fun acc x => acc < intSize ∧ x = .sending fd v acc) ⟨Nat.succ_pos 3, rfl⟩ ?_
  rintro acc _ ⟨hacc, rfl⟩
  refine ⟨⟨v, acc, rfl, rfl⟩, fun r y hy => ?_⟩
  cases r with
  | error e =>
    obtain ⟨he, rfl⟩ := hy
    simp only [transferAgain, he, false_and, if_false]
    exact ⟨nofun, fun _ => ⟨⟨_, _, _, rfl⟩, fun b => b.elim⟩⟩
  | ok n =>
    obtain ⟨hn, rfl⟩ := hy
    rw [List.length_drop, length_intBytes] at hn
    have hle : acc + n ≤ intSize := by omega
    simp only [transferAgain, addSize_natCast hle]
    refine ⟨fun acc' h => ?_, fun _ => ⟨⟨_, _, _, rfl⟩, fun b => b.elim⟩⟩
    split at h
    · cases h
      exact ⟨by assumption, rfl⟩
    · cases h

/-- The invariant of the loop: the first `acc` bytes of `v` are what was read. -/
theorem wp_receivePid {fd child : Nat} {v : List UInt8} (hv : v.length = intSize) :
    (receivePid fd child v).wp forkSpec Returned (.reading fd []) := by
  refine Prog.wp_loop (fun s x => s.1 < intSize ∧ s.2.length = intSize ∧
    x = .reading fd (s.2.take s.1)) ⟨Nat.succ_pos 3, hv, rfl⟩ ?_
  rintro ⟨acc, v⟩ _ ⟨hacc, hlen, rfl⟩
  refine ⟨⟨_, rfl⟩, fun r y hy => ?_⟩
  cases r with
  | error e => exact hy.elim
  | ok bytes =>
    obtain ⟨hn, rfl⟩ := hy
    dsimp only at hacc hlen hn
    have hle : acc + bytes.length ≤ intSize := by omega
    obtain ⟨hlen', htake⟩ := stored_take (show acc + bytes.length ≤ v.length by omega)
    simp only [Except.map, transferAgain, addSize_natCast hle]
    refine ⟨fun s' h => ?_, fun h => ⟨trivial, ?_⟩⟩
    · split at h
      · cases h
        exact ⟨by assumption, hlen'.trans hlen, by rw [htake]⟩
      · cases h
    · rintro - _ rfl
      have hfull : acc + bytes.length = intSize := by
        split at h
        · cases h
        · omega
      rw [if_pos rfl, ← htake, List.take_of_length_le (by omega)]
      exact ⟨hlen'.trans hlen, rfl⟩

theorem wp_doubleFork (junk : Fin 4 → UInt8) :
    (doubleFork junk).wp forkSpec Returned .start := by
  refine ⟨rfl, fun b y hb => ?_⟩
  cases b with
  | error e =>
    cases hb
    exact rfl
  | ok fds =>
    obtain ⟨r, v⟩ := fds
    obtain ⟨hrv, rfl⟩ := hb
    refine ⟨Or.inl ⟨r, v, rfl⟩, fun b y hb => ?_⟩
    cases b with
    | error e =>
      cases hb
      refine ⟨trivial, ?_⟩
      rintro - _ rfl
      refine ⟨trivial, ?_⟩
      rintro - _ rfl
      exact rfl
    | parent p =>
      cases hb
      refine ⟨trivial, ?_⟩
      rintro - _ rfl
      rw [if_neg hrv.symm]
      exact wp_receivePid (List.length_ofFn)
    | child =>
      cases hb
      refine ⟨hrv, ?_⟩
      rintro - _ rfl
      refine ⟨Or.inr ⟨v, rfl⟩, fun b y hb => ?_⟩
      cases b with
      | error e =>
        cases hb
        exact wp_sendPid
      | parent p =>
        cases hb
        exact wp_sendPid
      | child =>
        cases hb
        refine ⟨trivial, ?_⟩
        rintro - _ rfl
        exact rfl

/-! ## The three processes together -/

section

variable (gp : Pid)

/-- What the child may send: the grandchild's pid, or the error of its `fork`. -/
def Told (w : Procs) (n : Int) : Prop :=
  (∃ p : Nat, n = p ∧ Grandchild gp w p ∧ 0 < p ∧ p < 2 ^ 31) ∨
    ∃ f ∈ w.failed, f.errno.Valid ∧ n = -f.errno

/-- The grandparent, before there is a child. -/
inductive Early (w : Procs) : Option Phase → Prop
  | start : w.pipes = 0 → w.buf 0 = [] → Early w (some .start)
  | piped (r v : Nat) : w.buf 0 = [] → Early w (some (.piped r v))
  | failed : (∃ f ∈ w.failed, f.errno = EPERM) → Early w (some .failed)
  | gone : Early w none

/-- `stream` is what has gone through the pipe so far; the child is in the given phase. -/
def Stream (w : Procs) (stream : List UInt8) : Option Phase → Prop
  | some (.child _) => stream = []
  | some (.sending _ n sent) => stream = (intBytes n).take sent ∧ Told gp w n
  | some _ => False
  | none => stream = [] ∨ ∃ n, stream <+: intBytes n ∧ Told gp w n

/-- The grandparent and the child. What the one has read, followed by what is still in the pipe,
is what the other has sent. -/
structure Linked (w : Procs) (x y : Option Phase) : Prop where
  reader : ∀ z, x = some z → ∃ got,
    (z = .received got ∨ ∃ r, z = .reading r got) ∧ Stream gp w (got ++ w.buf 0) y
  sender : ∀ z, y = some z → ∃ stream, Stream gp w stream y

/-- From the first fork on: the grandparent, its child `c`, and what `c` has forked. -/
structure Forked (c : Pid) (w : Procs) (ph : Pid → Option Phase) : Prop where
  ne : c ≠ gp
  known : c ∈ w.pids
  child : (gp, c) ∈ w.forks
  linked : Linked gp w (ph gp) (ph c)
  others : ∀ t, t ≠ gp → t ≠ c → ∀ x, ph t = some x → x = .grandchild ∧ (c, t) ∈ w.forks

/-- There is at most one pipe. -/
structure ForkInv (w : Procs) (ph : Pid → Option Phase) : Prop where
  pipes : ∀ d ∈ w.descs, d.obj = .read 0 ∨ d.obj = .write 0
  known : gp ∈ w.pids
  stage : (Early w (ph gp) ∧ ∀ t, t ≠ gp → ph t = none) ∨ ∃ c, Forked gp c w ph

end

section

variable {gp : Pid} {w w' : Procs} {ph : Pid → Option Phase}

theorem pipe_zero (h : ∀ d ∈ w.descs, d.obj = .read 0 ∨ d.obj = .write 0) {t : Pid} {fd : Nat}
    {o : PipeEnd} (ho : w.obj t fd = some o) : o = .read 0 ∨ o = .write 0 := by
  obtain ⟨d, hd, rfl⟩ := Option.map_eq_some_iff.mp ho
  exact h d (List.mem_of_find?_eq_some hd)

/-- Records are never lost. -/
structure Procs.Le (w w' : Procs) : Prop where
  pids : w.pids ⊆ w'.pids
  forks : w.forks ⊆ w'.forks
  failed : w.failed ⊆ w'.failed

theorem Procs.Le.refl (w : Procs) : w.Le w := ⟨fun _ => id, fun _ => id, fun _ => id⟩

theorem Grandchild.mono (hle : w.Le w') {p : Pid} (h : Grandchild gp w p) : Grandchild gp w' p := by
  obtain ⟨c, h₁, h₂⟩ := h
  exact ⟨c, hle.forks h₁, hle.forks h₂⟩

theorem Told.mono (hle : w.Le w') {n : Int} (h : Told gp w n) : Told gp w' n := by
  rcases h with ⟨p, hn, hp, hpos⟩ | ⟨f, hf, hn⟩
  · exact Or.inl ⟨p, hn, hp.mono hle, hpos⟩
  · exact Or.inr ⟨f, hle.failed hf, hn⟩

theorem Stream.mono (hle : w.Le w') {stream : List UInt8} {y : Option Phase}
    (h : Stream gp w stream y) : Stream gp w' stream y := by
  match y, h with
  | some (.child _), h => exact h
  | some (.sending _ _ _), h => exact ⟨h.1, h.2.mono hle⟩
  | none, Or.inl h => exact Or.inl h
  | none, Or.inr ⟨n, hn, ht⟩ => exact Or.inr ⟨n, hn, ht.mono hle⟩

/-- The child may die at any point. -/
theorem Stream.gone {stream : List UInt8} {y : Option Phase} (h : Stream gp w stream y) :
    Stream gp w stream none := by
  match y, h with
  | some (.child _), h => exact Or.inl h
  | some (.sending _ n sent), h => exact Or.inr ⟨n, h.1 ▸ List.take_prefix _ _, h.2⟩
  | none, h => exact h

theorem Linked.mono (hle : w.Le w') (hbuf : w'.buf 0 = w.buf 0) {x y : Option Phase}
    (h : Linked gp w x y) : Linked gp w' x y where
  reader := fun z hz => by
    obtain ⟨got, hgot, hs⟩ := h.reader z hz
    exact ⟨got, hgot, hbuf ▸ hs.mono hle⟩
  sender := fun z hz => by
    obtain ⟨stream, hs⟩ := h.sender z hz
    exact ⟨stream, hs.mono hle⟩

theorem Early.mono (hle : w.Le w') (hbuf : w'.buf 0 = w.buf 0) (hpipes : w'.pipes = w.pipes)
    {x : Option Phase} (h : Early w x) : Early w' x := by
  cases h with
  | start hp hb => exact .start (hpipes.trans hp) (hbuf.trans hb)
  | piped r v hb => exact .piped r v (hbuf.trans hb)
  | failed hf =>
    obtain ⟨f, hm, he⟩ := hf
    exact .failed ⟨f, hle.failed hm, he⟩
  | gone => exact .gone

theorem Forked.mono (hle : w.Le w') (hbuf : w'.buf 0 = w.buf 0) {c : Pid}
    (h : Forked gp c w ph) : Forked gp c w' ph where
  ne := h.ne
  known := hle.pids h.known
  child := hle.forks h.child
  linked := h.linked.mono hle hbuf
  others := fun t htg htc x hx =>
    ⟨(h.others t htg htc x hx).1, hle.forks (h.others t htg htc x hx).2⟩

/-- Calls that leave the pipe alone. -/
theorem ForkInv.frame (h : ForkInv gp w ph) (hle : w.Le w') (hbuf : w'.buf 0 = w.buf 0)
    (hpipes : w'.pipes = w.pipes) (hdescs : ∀ d ∈ w'.descs, ∃ d' ∈ w.descs, d.obj = d'.obj) :
    ForkInv gp w' ph where
  pipes := fun d hd => by
    obtain ⟨d', hd', he⟩ := hdescs d hd
    exact he ▸ h.pipes d' hd'
  known := hle.pids h.known
  stage := by
    rcases h.stage with ⟨he, hn⟩ | ⟨c, hc⟩
    · exact Or.inl ⟨he.mono hle hbuf hpipes, hn⟩
    · exact Or.inr ⟨c, hc.mono hle hbuf⟩

theorem ForkInv.terminate (h : ForkInv gp w ph) (t : Pid) : ForkInv gp (w.terminate t) ph :=
  h.frame ⟨fun _ => id, fun _ => id, fun _ => id⟩ rfl rfl
    fun d hd => ⟨d, (List.mem_filter.mp hd).1, rfl⟩

theorem ForkInv.closeFd (h : ForkInv gp w ph) (t : Pid) (fd : Nat) :
    ForkInv gp (w.closeFd t fd) ph :=
  h.frame ⟨fun _ => id, fun _ => id, fun _ => id⟩ rfl rfl
    fun d hd => ⟨d, (List.mem_filter.mp hd).1, rfl⟩

theorem ForkInv.refused (h : ForkInv gp w ph) (t : Pid) (site : Site) (e : Errno) :
    ForkInv gp (w.refused t site e) ph :=
  h.frame ⟨fun _ => id, fun _ => id, fun _ => List.mem_cons_of_mem _⟩ rfl rfl
    fun d hd => ⟨d, hd, rfl⟩

/-- A process is gone. -/
theorem ForkInv.erase (h : ForkInv gp w ph) (t : Pid) :
    ForkInv gp w (Function.update ph t none) where
  pipes := h.pipes
  known := h.known
  stage := by
    rcases h.stage with ⟨he, hn⟩ | ⟨c, hc⟩
    · refine Or.inl ⟨?_, fun u hu => ?_⟩
      · by_cases ht : gp = t
        · subst ht
          simpa using Early.gone
        · rwa [Function.update_of_ne ht]
      · by_cases ht : u = t
        · simp [ht]
        · rw [Function.update_of_ne ht, hn u hu]
    · have hlive : ∀ {u z}, Function.update ph t none u = some z → ph u = some z ∧ u ≠ t := by
        intro u z hz
        have hu : u ≠ t := by
          rintro rfl
          simp at hz
        exact ⟨by rwa [Function.update_of_ne hu] at hz, hu⟩
      refine Or.inr ⟨c, hc.ne, hc.known, hc.child, ⟨fun z hz => ?_, fun z hz => ?_⟩,
        fun u hug huc x hx => hc.others u hug huc x (hlive hx).1⟩
      · obtain ⟨got, hgot, hs⟩ := hc.linked.reader z (hlive hz).1
        refine ⟨got, hgot, ?_⟩
        by_cases hct : c = t
        · subst hct
          simpa using hs.gone
        · rwa [Function.update_of_ne hct]
      · rw [Function.update_of_ne (hlive hz).2]
        exact hc.linked.sender z (hlive hz).1

/-! ### Who is in which phase -/

theorem ForkInv.early (h : ForkInv gp w ph) {t : Pid} {x : Phase} (hx : ph t = some x)
    (hp : x = .start ∨ (∃ r v, x = .piped r v) ∨ x = .failed) :
    t = gp ∧ Early w (some x) ∧ ∀ u, u ≠ gp → ph u = none := by
  rcases h.stage with ⟨he, hn⟩ | ⟨c, hc⟩
  · have ht : t = gp := by
      by_contra hne
      rw [hn t hne] at hx
      cases hx
    subst ht
    exact ⟨rfl, hx ▸ he, hn⟩
  · exfalso
    by_cases htg : t = gp
    · subst htg
      obtain ⟨got, hgot | ⟨r, hgot⟩, -⟩ := hc.linked.reader x hx <;> simp [hgot] at hp
    · by_cases htc : t = c
      · subst htc
        obtain ⟨stream, hs⟩ := hc.linked.sender x hx
        rw [hx] at hs
        rcases hp with rfl | ⟨r, v, rfl⟩ | rfl <;> exact hs
      · have := (hc.others t htg htc x hx).1
        simp [this] at hp

theorem ForkInv.forked (h : ForkInv gp w ph) {t : Pid} {x : Phase} (hx : ph t = some x)
    (hp : ¬ (x = .start ∨ (∃ r v, x = .piped r v) ∨ x = .failed)) : ∃ c, Forked gp c w ph := by
  rcases h.stage with ⟨he, hn⟩ | hc
  · exfalso
    have ht : t = gp := by
      by_contra hne
      rw [hn t hne] at hx
      cases hx
    subst ht
    rw [hx] at he
    cases he <;> simp at hp
  · exact hc

theorem Forked.of_reading {c : Pid} (h : Forked gp c w ph) {t : Pid} {x : Phase}
    (hx : ph t = some x) {got : List UInt8} (hp : x = .received got ∨ ∃ r, x = .reading r got) :
    t = gp ∧ Stream gp w (got ++ w.buf 0) (ph c) := by
  have htg : t = gp := by
    by_contra htg
    by_cases htc : t = c
    · subst htc
      obtain ⟨stream, hs⟩ := h.linked.sender x hx
      rw [hx] at hs
      rcases hp with rfl | ⟨r, rfl⟩ <;> exact hs
    · have := (h.others t htg htc x hx).1
      simp [this] at hp
  subst htg
  obtain ⟨got', hgot, hs⟩ := h.linked.reader x hx
  have : got' = got := by
    rcases hp with rfl | ⟨r, rfl⟩ <;> simpa [eq_comm] using hgot
  exact ⟨rfl, this ▸ hs⟩

theorem Forked.of_sending {c : Pid} (h : Forked gp c w ph) {t : Pid} {x : Phase}
    (hx : ph t = some x) (hp : (∃ v, x = .child v) ∨ ∃ v n sent, x = .sending v n sent) :
    t = c := by
  by_contra htc
  by_cases htg : t = gp
  · subst htg
    obtain ⟨got, hgot | ⟨r, hgot⟩, -⟩ := h.linked.reader x hx <;> simp [hgot] at hp
  · have := (h.others t htg htc x hx).1
    simp [this] at hp

theorem Forked.of_grandchild {c : Pid} (h : Forked gp c w ph) {t : Pid}
    (hx : ph t = some .grandchild) : t ≠ gp ∧ t ≠ c ∧ (c, t) ∈ w.forks := by
  have htg : t ≠ gp := by
    rintro rfl
    obtain ⟨got, hgot | ⟨r, hgot⟩, -⟩ := h.linked.reader _ hx <;> cases hgot
  have htc : t ≠ c := by
    rintro rfl
    obtain ⟨stream, hs⟩ := h.linked.sender _ hx
    rw [hx] at hs
    exact hs
  exact ⟨htg, htc, (h.others t htg htc _ hx).2⟩

/-! ### Progress of one of them -/

theorem ForkInv.advance (h : ForkInv gp w ph) (hn : ∀ u, u ≠ gp → ph u = none) {y : Phase}
    (hy : Early w (some y)) : ForkInv gp w (Function.update ph gp (some y)) where
  pipes := h.pipes
  known := h.known
  stage := Or.inl ⟨by rwa [Function.update_self], fun u hu => by
    rw [Function.update_of_ne hu, hn u hu]⟩

/-- The grandparent goes on. -/
theorem Forked.reader {c : Pid} (h : Forked gp c w ph) (hle : w.Le w') {x : Phase}
    {got : List UInt8} (hx : x = .received got ∨ ∃ r, x = .reading r got)
    (hs : Stream gp w' (got ++ w'.buf 0) (ph c)) :
    Forked gp c w' (Function.update ph gp (some x)) where
  ne := h.ne
  known := hle.pids h.known
  child := hle.forks h.child
  linked := by
    rw [Function.update_self, Function.update_of_ne h.ne]
    refine ⟨fun z hz => ⟨got, Option.some.inj hz ▸ hx, hs⟩, fun z hz => ?_⟩
    obtain ⟨stream, hs⟩ := h.linked.sender z hz
    exact ⟨stream, hs.mono hle⟩
  others := by
    intro t htg htc y hy
    rw [Function.update_of_ne htg] at hy
    exact ⟨(h.others t htg htc y hy).1, hle.forks (h.others t htg htc y hy).2⟩

/-- The child goes on, and writes `more`. -/
theorem Forked.sender {c : Pid} (h : Forked gp c w ph) (hle : w.Le w') {y y' : Phase}
    (hy : ph c = some y) {more : List UInt8} (hbuf : w'.buf 0 = w.buf 0 ++ more)
    (hs : ∀ stream, Stream gp w stream (some y) → Stream gp w' (stream ++ more) (some y')) :
    Forked gp c w' (Function.update ph c (some y')) where
  ne := h.ne
  known := hle.pids h.known
  child := hle.forks h.child
  linked := by
    rw [Function.update_self, Function.update_of_ne h.ne.symm]
    refine ⟨fun z hz => ?_, fun z _ => ?_⟩
    · obtain ⟨got, hgot, hstream⟩ := h.linked.reader z hz
      rw [hy] at hstream
      exact ⟨got, hgot, by simpa [hbuf] using hs _ hstream⟩
    · obtain ⟨stream, hstream⟩ := h.linked.sender y hy
      rw [hy] at hstream
      exact ⟨_, hs _ hstream⟩
  others := by
    intro t htg htc z hz
    rw [Function.update_of_ne htc] at hz
    exact ⟨(h.others t htg htc z hz).1, hle.forks (h.others t htg htc z hz).2⟩

theorem Forked.grandchild {c : Pid} (h : Forked gp c w ph) {p : Pid} (hg : p ≠ gp) (hc : p ≠ c)
    (hf : (c, p) ∈ w.forks) : Forked gp c w (Function.update ph p (some .grandchild)) where
  ne := h.ne
  known := h.known
  child := h.child
  linked := by
    rw [Function.update_of_ne hg.symm, Function.update_of_ne hc.symm]
    exact h.linked
  others := by
    intro t htg htc x hx
    by_cases htp : t = p
    · subst htp
      rw [Function.update_self] at hx
      exact ⟨(Option.some.inj hx).symm, hf⟩
    · rw [Function.update_of_ne htp] at hx
      exact h.others t htg htc x hx

theorem Procs.le_addChild (w : Procs) (t p : Pid) : w.Le (w.addChild t p) :=
  ⟨fun _ => List.mem_cons_of_mem _, fun _ => List.mem_cons_of_mem _, fun _ => id⟩

theorem Procs.le_refused (w : Procs) (t : Pid) (site : Site) (e : Errno) :
    w.Le (w.refused t site e) :=
  ⟨fun _ => id, fun _ => id, fun _ => List.mem_cons_of_mem _⟩

theorem Procs.le_put (w : Procs) (k : Nat) (bytes : List UInt8) : w.Le (w.put k bytes) :=
  ⟨fun _ => id, fun _ => id, fun _ => id⟩

theorem Procs.le_take (w : Procs) (k n : Nat) : w.Le (w.take k n) :=
  ⟨fun _ => id, fun _ => id, fun _ => id⟩

theorem mem_addChild_descs {t p : Pid} {d : Desc} (hd : d ∈ (w.addChild t p).descs) :
    ∃ d' ∈ w.descs, d.obj = d'.obj := by
  rcases List.mem_append.mp hd with hd | hd
  · exact ⟨d, hd, rfl⟩
  · obtain ⟨d', hd', rfl⟩ := List.mem_map.mp hd
    exact ⟨d', (List.mem_filter.mp hd').1, rfl⟩

/-! ### The calls -/

theorem ForkInv.openPipe (h : ForkInv gp w ph) {t : Pid} (hx : ph t = some .start) (r v : Nat) :
    ForkInv gp (w.openPipe t r v) (Function.update ph t (some (.piped r v))) := by
  obtain ⟨rfl, hearly, hnone⟩ := h.early hx (by simp)
  cases hearly with
  | start hpipes hbuf =>
  refine ⟨?_, h.known, Or.inl ⟨?_, fun u hu => ?_⟩⟩
  · intro d hd
    rcases List.mem_append.mp hd with hd | hd
    · exact h.pipes d hd
    · simp only [hpipes, List.mem_cons, List.not_mem_nil, or_false] at hd
      rcases hd with rfl | rfl
      · exact Or.inl rfl
      · exact Or.inr rfl
  · rw [Function.update_self]
    exact .piped r v hbuf
  · rw [Function.update_of_ne hu, hnone u hu]

theorem ForkInv.pipes_addChild (h : ForkInv gp w ph) (t p : Pid) :
    ∀ d ∈ (w.addChild t p).descs, d.obj = .read 0 ∨ d.obj = .write 0 := by
  intro d hd
  obtain ⟨d', hd', ho⟩ := mem_addChild_descs hd
  exact ho ▸ h.pipes d' hd'

/-- The grandparent forks the child. -/
theorem ForkInv.forkChild (h : ForkInv gp w ph) {t p : Pid} {r v : Nat}
    (hx : ph t = some (.piped r v)) (hfresh : w.Fresh p) :
    ForkInv gp (w.addChild t p)
      (Function.update (Function.update ph t (some (.reading r []))) p (some (.child v))) := by
  obtain ⟨rfl, hearly, hnone⟩ := h.early hx (by simp)
  have hp : p ≠ t := fun heq => hfresh.1 (heq ▸ h.known)
  cases hearly with
  | piped _ _ hbuf =>
  refine ⟨h.pipes_addChild t p, List.mem_cons_of_mem _ h.known, Or.inr ⟨p, hp,
    List.mem_cons_self, List.mem_cons_self, ?_, ?_⟩⟩
  · rw [Function.update_self, Function.update_of_ne hp.symm, Function.update_self]
    refine ⟨fun z hz => ⟨[], Or.inr ⟨r, (Option.some.inj hz).symm⟩, ?_⟩, fun _ _ => ⟨[], rfl⟩⟩
    exact hbuf
  · intro u hut hup y hy
    rw [Function.update_of_ne hup, Function.update_of_ne hut, hnone u hut] at hy
    cases hy

/-- The child forks the grandchild. -/
theorem ForkInv.forkGrandchild (h : ForkInv gp w ph) {t p : Pid} {v : Nat}
    (hx : ph t = some (.child v)) (hfresh : w.Fresh p) :
    ForkInv gp (w.addChild t p)
      (Function.update (Function.update ph t (some (.sending v p 0))) p (some .grandchild)) := by
  obtain ⟨c, hc⟩ := h.forked hx (by simp)
  obtain rfl := hc.of_sending hx (by simp)
  have hgp : p ≠ gp := fun heq => hfresh.1 (heq ▸ h.known)
  have hne : p ≠ t := fun heq => hfresh.1 (heq ▸ hc.known)
  refine ⟨h.pipes_addChild t p, List.mem_cons_of_mem _ h.known, Or.inr ⟨t, ?_⟩⟩
  refine (hc.sender (w.le_addChild t p) hx (List.append_nil _).symm ?_).grandchild hgp hne
    List.mem_cons_self
  rintro _ rfl
  exact ⟨rfl, Or.inl ⟨p, rfl, ⟨t, List.mem_cons_of_mem _ hc.child, List.mem_cons_self⟩, hfresh.2⟩⟩

/-- The child cannot fork, and goes on to send the error. -/
theorem ForkInv.forkError (h : ForkInv gp w ph) {t : Pid} {v : Nat} {e : Errno}
    (hx : ph t = some (.child v)) (he : e.Valid) :
    ForkInv gp (w.refused t .fork e) (Function.update ph t (some (.sending v (-e) 0))) := by
  obtain ⟨c, hc⟩ := h.forked hx (by simp)
  obtain rfl := hc.of_sending hx (by simp)
  have h' := h.refused t .fork e
  refine ⟨h'.pipes, h'.known, Or.inr ⟨t, ?_⟩⟩
  refine hc.sender (w.le_refused t .fork e) hx (List.append_nil _).symm ?_
  rintro _ rfl
  exact ⟨rfl, Or.inr ⟨_, List.mem_cons_self, he, rfl⟩⟩

/-- The grandparent closes a descriptor, and it may be the one it reads from. -/
theorem ForkInv.closeReading (h : ForkInv gp w ph) {t : Pid} {r fd : Nat} {got : List UInt8}
    (hx : ph t = some (.reading r got)) :
    ForkInv gp w (Function.update ph t
      (some (if fd = r then .received got else .reading r got))) := by
  obtain ⟨c, hc⟩ := h.forked hx (by simp)
  obtain ⟨rfl, hs⟩ := hc.of_reading hx (Or.inr ⟨r, rfl⟩)
  refine ⟨h.pipes, h.known, Or.inr ⟨c, hc.reader (.refl _) ?_ hs⟩⟩
  split
  · exact Or.inl rfl
  · exact Or.inr ⟨r, rfl⟩

/-- The child writes `m` bytes of what is left of `v`. -/
theorem ForkInv.write (h : ForkInv gp w ph) {t : Pid} {v m sent : Nat} {n : Int}
    (hx : ph t = some (.sending v n sent)) :
    ForkInv gp (w.put 0 (((intBytes n).drop sent).take m))
      (Function.update ph t (some (.sending v n (sent + m)))) := by
  obtain ⟨c, hc⟩ := h.forked hx (by simp)
  obtain rfl := hc.of_sending hx (by simp)
  refine ⟨h.pipes, h.known, Or.inr ⟨t, ?_⟩⟩
  refine hc.sender (w.le_put _ _) hx (w.buf_put _ _) ?_
  rintro _ ⟨rfl, htold⟩
  exact ⟨List.take_add.symm, htold.mono (w.le_put _ _)⟩

/-- The grandparent reads `m` bytes of what is in the pipe. -/
theorem ForkInv.read (h : ForkInv gp w ph) {t : Pid} {r m : Nat} {got : List UInt8}
    (hx : ph t = some (.reading r got)) :
    ForkInv gp (w.take 0 m)
      (Function.update ph t (some (.reading r (got ++ (w.buf 0).take m)))) := by
  obtain ⟨c, hc⟩ := h.forked hx (by simp)
  obtain ⟨rfl, hs⟩ := hc.of_reading hx (Or.inr ⟨r, rfl⟩)
  refine ⟨h.pipes, h.known, Or.inr ⟨c, hc.reader (w.le_take _ _) (Or.inr ⟨r, rfl⟩) ?_⟩⟩
  rw [Procs.buf_take, List.append_assoc, List.take_append_drop]
  exact hs.mono (w.le_take _ _)

end

theorem fork_modular (gp : Pid) :
    Modular kernel forkSpec (Reliable gp) (ForkInv gp) where
  halt := by
    intro β t c w w' ph x ch _ hinv hx _ he
    cases exec_step he with
    | exit => exact (hinv.terminate t).erase t
    | gone => exact hinv.erase t
    | killed => exact (hinv.terminate t).erase t
    | exec => contradiction
  fork := by
    intro β t t' c w w' ph x ch b b' _ hinv hx hpre he
    cases exec_step he with
    | fork hfresh =>
      rcases hpre with ⟨r, v, rfl⟩ | ⟨v, rfl⟩
      · exact ⟨_, _, rfl, rfl, hinv.forkChild hx hfresh⟩
      · exact ⟨_, _, rfl, rfl, hinv.forkGrandchild hx hfresh⟩
  resume := by
    intro β t c w w' ph x ch b hok hinv hx hpre he
    cases exec_step he with
    | pipeError hv =>
      obtain rfl : x = .start := hpre
      obtain ⟨rfl, -, hnone⟩ := hinv.early hx (by simp)
      exact ⟨.failed, rfl,
        (hinv.refused _ _ _).advance hnone (.failed ⟨_, List.mem_cons_self, hok⟩)⟩
    | pipe hne =>
      obtain rfl : x = .start := hpre
      exact ⟨_, ⟨hne, rfl⟩, hinv.openPipe hx _ _⟩
    | forkError hv =>
      rcases hpre with ⟨r, v, rfl⟩ | ⟨v, rfl⟩
      · obtain ⟨rfl, -, hnone⟩ := hinv.early hx (by simp)
        exact ⟨.failed, rfl,
          (hinv.refused _ _ _).advance hnone (.failed ⟨_, List.mem_cons_self, hok rfl⟩)⟩
      · exact ⟨_, rfl, hinv.forkError hx hv⟩
    | @close fd =>
      have hinv' := hinv.closeFd t fd
      match x, hpre with
      | .failed, _ | .grandchild, _ | .child _, _ =>
        exact ⟨_, rfl, by rwa [Function.update_eq_self_iff.mpr hx.symm]⟩
      | .reading r got, _ => exact ⟨_, rfl, hinv'.closeReading hx⟩
    | writeError hv =>
      obtain ⟨n, sent, rfl, -⟩ := hpre
      refine ⟨_, ⟨hok, rfl⟩, ?_⟩
      rw [Function.update_eq_self_iff.mpr hx.symm]
      exact hinv.refused _ _ _
    | @write fd k m bytes ho hpos hle =>
      obtain ⟨n, sent, rfl, rfl⟩ := hpre
      obtain rfl : k = 0 := by simpa using pipe_zero hinv.pipes ho
      exact ⟨_, ⟨hle, rfl⟩, hinv.write hx⟩
    | readError hv => exact hok.elim
    | @read fd k m count ho hle hbuf heof =>
      obtain ⟨got, rfl⟩ := hpre
      obtain rfl : k = 0 := by simpa using pipe_zero hinv.pipes ho
      exact ⟨_, ⟨(List.length_take_le _ _).trans hle, rfl⟩, hinv.read hx⟩
    | _ => exact hpre.elim

/-! ## The result -/

/-- What a process in this phase may return. -/
theorem ForkInv.contract {gp : Pid} {w : Procs} {ph : Pid → Option Phase} (h : ForkInv gp w ph)
    {t : Pid} {x : Phase} (hx : ph t = some x) {n : Int} (hn : Returned n x) :
    Contract gp t n w := by
  match x, hn with
  | .failed, hn =>
    obtain rfl : n = -1 := hn
    obtain ⟨rfl, hearly, -⟩ := h.early hx (by simp)
    cases hearly with
    | failed hf =>
    obtain ⟨f, hm, he⟩ := hf
    exact ⟨nofun, nofun, fun _ => ⟨rfl, f, hm, by rw [he]; rfl⟩⟩
  | .grandchild, hn =>
    obtain rfl : n = 0 := hn
    obtain ⟨c, hc⟩ := h.forked hx (by simp)
    exact ⟨fun _ => ⟨c, hc.child, (hc.of_grandchild hx).2.2⟩, nofun, nofun⟩
  | .received got, ⟨hlen, hn⟩ =>
    obtain ⟨c, hc⟩ := h.forked hx (by simp)
    obtain ⟨rfl, hs⟩ := hc.of_reading hx (Or.inl rfl)
    -- All four bytes have been read, so they are the bytes of what the child was told to send.
    obtain ⟨m, hpre, htold⟩ : ∃ m, got <+: intBytes m ∧ Told t w m := by
      rcases hs.gone with hnil | ⟨m, hpre, htold⟩
      · rw [(List.append_eq_nil_iff.mp hnil).1] at hlen
        cases hlen
      · exact ⟨m, (List.prefix_append _ _).trans hpre, htold⟩
    have hgot : got = intBytes m := hpre.eq_of_length (by rw [hlen, length_intBytes])
    subst hgot
    rcases htold with ⟨p, rfl, hp, hpos, hlt⟩ | ⟨f, hf, hv, rfl⟩
    · rw [ofIntBytes_intBytes (by omega) (by omega)] at hn
      subst hn
      exact ⟨fun h => by omega, fun _ => ⟨rfl, hp⟩, fun h => by omega⟩
    · obtain ⟨hpos, hlt⟩ := hv.bounds
      rw [ofIntBytes_intBytes (by omega) (by omega)] at hn
      subst hn
      exact ⟨fun h => by omega, fun h => by omega, fun _ => ⟨rfl, f, hf, rfl⟩⟩

/-- **`double_fork` keeps its contract** in every run without the outcomes ruled out by
`Reliable`, whatever the schedule, the short counts and the processes killed. -/
theorem doubleFork_contract {gp supervisor reaper : Pid} {junk : Fin 4 → UInt8}
    {sched : List (Pid × Choice)} (hok : ∀ e ∈ sched, Reliable gp e.1 e.2) {t : Pid} {n : Int}
    (hret : ((solo gp supervisor reaper (doubleFork junk)).run kernel sched).result? t = some n) :
    Contract gp t n ((solo gp supervisor reaper (doubleFork junk)).run kernel sched).world := by
  have hstart : (solo gp supervisor reaper (doubleFork junk)).Good forkSpec Returned
      (ForkInv gp) := by
    have hnone : Pool.Phased forkSpec Returned (fun _ : Pid => none) fun _ => none :=
      fun _ => trivial
    refine ⟨_, ⟨nofun, List.mem_singleton_self gp, Or.inl ⟨?_, fun u hu => ?_⟩⟩,
      hnone.update (wp_doubleFork junk)⟩
    · rw [Function.update_self]
      exact .start rfl rfl
    · rw [Function.update_of_ne hu]
  obtain ⟨ph, hinv, hph⟩ := (fork_modular gp).run hok hstart
  obtain ⟨p, hp, hr⟩ := Option.bind_eq_some_iff.mp hret
  obtain ⟨x, hx, hwp⟩ := hph.get hp
  rw [Prog.eq_ret_of_returned? hr] at hwp
  exact hinv.contract hx hwp

/-- The pid of a grandchild, in two short writes and two short reads. -/
theorem doubleFork_contract_split :
    let sched : List (Pid × Choice) := [(10, .fds 5 6), (10, .pid 11), (11, .ok), (11, .pid 12),
      (10, .ok), (11, .count 3), (10, .count 2), (11, .count 1), (10, .count 2), (10, .ok)]
    let s := (solo 10 2 1 (doubleFork fun _ => 0xAA)).run kernel sched
    s.result? 10 = some 12 ∧ Grandchild 10 s.world 12 := by
  intro sched s
  have hret : s.result? 10 = some 12 := by decide +kernel
  have hok : ∀ e ∈ sched, Reliable 10 e.1 e.2 := by simp [sched, Reliable]
  exact ⟨hret, ((doubleFork_contract hok hret).pos (by decide)).2⟩

/-- `pipe` fails with `EMFILE`, and `double_fork` says `EPERM`; the first `read` is interrupted,
and `double_fork` returns what happened to be in `v`, here the 0 that only the grandchild may
get. -/
theorem doubleFork_contract_broken :
    (let s := (solo 10 2 1 (doubleFork fun _ => 0xAA)).run kernel [(10, .fail .pipe EMFILE)]
     s.result? 10 = some (-1) ∧ ¬ Contract 10 10 (-1) s.world) ∧
    (let s := (solo 10 2 1 (doubleFork fun _ => 0)).run kernel
       [(10, .fds 5 6), (10, .pid 11), (11, .ok), (11, .pid 12), (10, .ok), (10, .fail .read EINTR),
         (10, .ok), (10, .ok), (11, .ok), (10, .ok)]
     s.result? 10 = some 0 ∧ ¬ Contract 10 10 0 s.world) := by
  refine ⟨?_, ?_⟩
  · intro s
    have hfailed : ∀ f ∈ s.world.failed, f.errno = EMFILE := by decide +kernel
    refine ⟨by decide +kernel, fun h => ?_⟩
    obtain ⟨-, f, hf, he⟩ := h.neg (by decide)
    rw [hfailed f hf] at he
    cases he
  · intro s
    have hforks : ∀ x ∈ s.world.forks, x.2 ≠ 10 := by decide +kernel
    refine ⟨by decide +kernel, fun h => ?_⟩
    obtain ⟨c, -, hc⟩ := h.zero rfl
    exact hforks _ hc rfl

end Spectrum.Vmm
