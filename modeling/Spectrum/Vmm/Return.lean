import Spectrum.Interact.Play
import Spectrum.Vmm.Fork

/-!
# Coming back from `double_fork`

The caller of `double_fork` reads the grandchild's pid from a pipe that the child in between writes
to. The child can be killed before it has written anything, and then the pipe is at its end; reads
can be short; a read can be interrupted.

The loop around the read keeps its count in its own condition, `(r != -1 || errno == EINTR) &&
(acc += r) < sizeof v`. At the end of the pipe `r` is 0 and the count stays where it is. An
interrupted read counts as `-1`: it takes a byte back that has arrived, or, if there is none, wraps
the count around, which ends the loop with `v` as it was.

**So `double_fork` does not always come back, and what it returns instead of a pid need not be
negative.**
-/

set_option autoImplicit false

namespace Spectrum.Vmm

open Interact Bytes

/-! ## What the environment does -/

/-- How the calls of the grandparent turn out. `reads t` is what its read number `t` finds if it
asks for enough; at the end of the pipe that is nothing. -/
structure Behaviour where
  pipe : Except Errno (Nat × Nat)
  fork : Except Errno Pid
  reads : Nat → Except Errno (List UInt8)
  kill : Option Errno

/-- The reads start with call number 3. -/
def Behaviour.script (env : Behaviour) : Script Call := fun n _ c =>
  match c with
  | .pipe => some env.pipe
  | .fork =>
    match env.fork with
    | .error e => some (.error e)
    | .ok pid => some (.parent pid)
  | .close _ => some ()
  | .read _ count => some ((env.reads (n - 3)).map fun bytes => bytes.take count)
  | .kill _ _ => some env.kill
  | .waitpid _ => some ()
  | _ => none

/-- The bytes a call brought in. -/
def receivedBy : Event Call → List UInt8
  | ⟨.read _ _, some (.ok bytes)⟩ => bytes
  | _ => []

def received (history : List (Event Call)) : List UInt8 := history.flatMap receivedBy

/-- `double_fork` returns, and if it has not received all bytes of the value, it returns a negative
value. -/
def ComesBack (env : Behaviour) (junk : Fin 4 → UInt8) : Prop :=
  ∃ history v, (doubleFork junk).Ends env.script 0 history (some v) ∧
    ((received history).length < intSize → v < 0)

/-! ## When the loop is left -/

section Reads

variable (reads : Nat → Except Errno (List UInt8))

/-- What a read adds to the count: the bytes it finds, and `-1` if it fails. -/
def delta : Except Errno (List UInt8) → Int
  | .ok bytes => bytes.length
  | .error _ => -1

def balance : Nat → Int
  | 0 => 0
  | t + 1 => balance t + delta (reads t)

/-- The bytes the first reads have found. -/
def delivered : Nat → Nat
  | 0 => 0
  | t + 1 => delivered t + (match reads t with
    | .ok bytes => bytes.length
    | .error _ => 0)

/-- Read number `t` did not fail for good, and leaves the count between 0 and 3. -/
def GoesOn (t : Nat) : Prop :=
  (∀ e, reads t = .error e → e = EINTR) ∧ 0 ≤ balance reads (t + 1) ∧ balance reads (t + 1) < 4

/-- Read number `t` is the first one after which the loop is left. -/
def LastRead (t : Nat) : Prop := (∀ s < t, GoesOn reads s) ∧ ¬ GoesOn reads t

end Reads

variable {env : Behaviour} {m acc : Nat}

/-- The loop's condition, in terms of the reads. -/
theorem transferAgain_eq (hacc : (acc : Int) = balance env.reads m) (hlt : acc < 4) :
    (GoesOn env.reads m → transferAgain acc
      (((env.reads m).map fun bytes => bytes.take (intSize - acc)).map List.length) =
        some (balance env.reads (m + 1)).toNat) ∧
    (¬ GoesOn env.reads m → transferAgain acc
      (((env.reads m).map fun bytes => bytes.take (intSize - acc)).map List.length) = none) := by
  cases hread : env.reads m with
  | ok bytes =>
    have hgoes : GoesOn env.reads m ↔ acc + bytes.length < 4 := by
      simp only [GoesOn, balance, hread, delta, ← hacc, reduceCtorEq, false_implies, implies_true,
        true_and]
      omega
    have hmin : addSize acc ((bytes.take (intSize - acc)).length : Int) =
        acc + min (4 - acc) bytes.length := by
      rw [addSize_natCast, List.length_take, intSize]
      rw [List.length_take, intSize]
      omega
    have hnext : balance env.reads (m + 1) = acc + bytes.length := by
      rw [balance, hread, delta, hacc]
    have hsize : intSize = 4 := rfl
    simp only [Except.map, transferAgain, hmin, hgoes, hnext]
    constructor
    · intro h
      rw [if_pos (by omega)]
      congr 1
      omega
    · intro h
      rw [if_neg (by omega)]
  | error e =>
    have hnext : balance env.reads (m + 1) = acc - 1 := by
      rw [balance, hread, delta, hacc]
      rfl
    have hgoes : GoesOn env.reads m ↔ e = EINTR ∧ 0 < acc := by
      simp only [GoesOn, hnext, hread, Except.error.injEq, forall_eq']
      exact and_congr Iff.rfl (by omega)
    have hminus : addSize acc (-1) < intSize ↔ 0 < acc := by
      simp only [addSize, intSize]
      omega
    simp only [Except.map, transferAgain, hgoes, hminus, hnext]
    constructor
    · intro h
      rw [if_pos h]
      congr 1
      simp only [addSize]
      omega
    · intro h
      rw [if_neg h]

/-! ## One round of the loop -/

/-- What follows the loop. -/
def receiveDone (fd : Nat) (child : Pid) (s : Nat × List UInt8) (r : Except Errno (List UInt8)) :
    Prog Call Int := do
  Prog.lift (.close fd)
  match r with
  | .ok _ => return ofIntBytes (stored s.2 s.1 r)
  | .error _ =>
    let _ ← Prog.lift (.kill child SIGKILL)
    Prog.lift (.waitpid child)
    return ofIntBytes (stored s.2 s.1 r)

/-- The loop with `acc` and `v` as in `s`. -/
def receiveLoop (fd : Nat) (child : Pid) (s : Nat × List UInt8) : Prog Call Int :=
  .loop s (fun s => .read fd (intSize - s.1))
    (fun s r => (transferAgain s.1 (r.map List.length)).map fun acc => (acc, stored s.2 s.1 r))
    (receiveDone fd child)

/-- The grandparent starts the loop with a count of zero, and whatever `v` contains. -/
theorem receivePid_eq (fd : Nat) (child : Pid) (v : List UInt8) :
    receivePid fd child v = receiveLoop fd child (0, v) := rfl

/-- What read number `m` answers when `acc` bytes have been counted. -/
def readAnswer (env : Behaviour) (m acc : Nat) : Except Errno (List UInt8) :=
  (env.reads m).map fun bytes => bytes.take (intSize - acc)

variable {fd : Nat} {child : Pid} {v : List UInt8} {events : List (Event Call)} {x : Option Int}

theorem script_read : env.script (m + 3) (.read fd (intSize - acc)) = some (readAnswer env m acc) :=
  rfl

theorem ends_again {acc' : Nat}
    (h : transferAgain acc ((readAnswer env m acc).map List.length) = some acc')
    (hrest : (receiveLoop fd child (acc', stored v acc (readAnswer env m acc))).Ends env.script
      (m + 1 + 3) events x) :
    (receiveLoop fd child (acc, v)).Ends env.script (m + 3)
      (⟨.read fd (intSize - acc), some (readAnswer env m acc)⟩ :: events) x := by
  rw [show m + 1 + 3 = m + 3 + 1 by omega] at hrest
  exact .of_again script_read (by simp only [h, Option.map_some]) hrest

theorem ends_leave (h : transferAgain acc ((readAnswer env m acc).map List.length) = none)
    (hrest : (receiveDone fd child (acc, v) (readAnswer env m acc)).Ends env.script (m + 3 + 1)
      events x) :
    (receiveLoop fd child (acc, v)).Ends env.script (m + 3)
      (⟨.read fd (intSize - acc), some (readAnswer env m acc)⟩ :: events) x :=
  .of_leave script_read (by simp only [h, Option.map_none]) hrest

theorem ends_done (fd : Nat) (child : Pid) (v : List UInt8) (acc : Nat)
    (r : Except Errno (List UInt8)) (n : Nat) : ∃ events,
    (receiveDone fd child (acc, v) r).Ends env.script n events
      (some (ofIntBytes (stored v acc r))) ∧ received events = [] := by
  cases r with
  | ok bytes => exact ⟨_, .of_call rfl .ret, rfl⟩
  | error e => exact ⟨_, .of_call rfl (.of_call rfl (.of_call rfl .ret)), rfl⟩

/-! ## The state of the loop -/

/-- `m` reads have been made and all of them let the loop go on. -/
structure LoopAt (env : Behaviour) (junk : Fin 4 → UInt8) (m acc : Nat) (v : List UInt8) :
    Prop where
  count : (acc : Int) = balance env.reads m
  small : acc < 4
  enough : acc ≤ delivered env.reads m
  length_eq : v.length = 4
  /-- The top byte is the last to arrive. -/
  top : v[3]? = some (junk 3)

variable {junk : Fin 4 → UInt8}

theorem loopAt_zero (env : Behaviour) (junk : Fin 4 → UInt8) :
    LoopAt env junk 0 0 (List.ofFn junk) :=
  ⟨rfl, by decide, Nat.le_refl _, by simp, by simp⟩

theorem stored_top {bytes : List UInt8} (hlen : v.length = 4) (h : acc + bytes.length < 4) :
    (stored v acc (.ok bytes)).length = 4 ∧ (stored v acc (.ok bytes))[3]? = v[3]? := by
  constructor
  · rw [(stored_take (by omega)).1, hlen]
  · have hfront : (v.take acc ++ bytes).length = acc + bytes.length := by
      rw [List.length_append, List.length_take]
      omega
    rw [stored, List.getElem?_append_right (by omega), hfront, List.getElem?_drop]
    congr 1
    omega

theorem LoopAt.next (h : LoopAt env junk m acc v) (fd : Nat) (hgo : GoesOn env.reads m) :
    LoopAt env junk (m + 1) (balance env.reads (m + 1)).toNat
        (stored v acc (readAnswer env m acc)) ∧
      delivered env.reads (m + 1) = delivered env.reads m +
        (receivedBy ⟨.read fd (intSize - acc), some (readAnswer env m acc)⟩).length := by
  have hcount := h.count
  have hsmall := h.small
  have henough := h.enough
  obtain ⟨-, hlow, hhigh⟩ := hgo
  cases hread : env.reads m with
  | ok bytes =>
    have hnext : balance env.reads (m + 1) = acc + bytes.length := by
      rw [balance, hread, delta, hcount]
    have hdelivered : delivered env.reads (m + 1) = delivered env.reads m + bytes.length := by
      rw [delivered, hread]
    have htake : readAnswer env m acc = .ok bytes := by
      simp only [readAnswer, hread, Except.map]
      rw [List.take_of_length_le (by simp only [intSize]; omega)]
    obtain ⟨hlength, htop⟩ := stored_top h.length_eq (show acc + bytes.length < 4 by omega)
    rw [htake]
    exact ⟨⟨by omega, by omega, by omega, hlength, htop.trans h.top⟩, hdelivered⟩
  | error e =>
    have hnext : balance env.reads (m + 1) = acc - 1 := by
      rw [balance, hread, delta, hcount]
      rfl
    have hdelivered : delivered env.reads (m + 1) = delivered env.reads m := by
      rw [delivered, hread]
      rfl
    have hfail : readAnswer env m acc = .error e := by
      simp only [readAnswer, hread, Except.map]
    rw [hfail]
    exact ⟨⟨by omega, by omega, by omega, h.length_eq, h.top⟩, hdelivered⟩

theorem ofIntBytes_neg_iff (hlen : v.length = 4) {b : UInt8} (htop : v[3]? = some b) :
    ofIntBytes v < 0 ↔ 128 ≤ b.toNat := by
  match v with
  | [b0, b1, b2, b3] =>
    obtain rfl : b3 = b := Option.some.inj htop
    have h0 := b0.toNat_lt
    have h1 := b1.toNat_lt
    have h2 := b2.toNat_lt
    have h3 := UInt8.toNat_lt b3
    unfold ofIntBytes
    by_cases hlt : ofLE [b0, b1, b2, b3] < 2 ^ 31
    · rw [if_pos hlt]
      simp only [ofLE] at hlt ⊢
      omega
    · rw [if_neg hlt]
      simp only [ofLE] at hlt ⊢
      omega

/-- **The loop is left after its last read**, and what it then returns. -/
theorem ends_loop {d : Nat} (fd : Nat) (child : Pid) (h : LoopAt env junk m acc v)
    (hgo : ∀ s, m ≤ s → s < m + d → GoesOn env.reads s) (hlast : ¬ GoesOn env.reads (m + d)) :
    ∃ events x, (receiveLoop fd child (acc, v)).Ends env.script (m + 3) events (some x) ∧
      (4 ≤ delivered env.reads m + (received events).length ↔
        4 ≤ delivered env.reads (m + d + 1)) ∧
      (delivered env.reads m + (received events).length < 4 →
        (x < 0 ↔ 128 ≤ (junk 3).toNat)) := by
  induction d generalizing m acc v with
  | zero =>
    have hleave := (transferAgain_eq h.count h.small).2 hlast
    obtain ⟨events, hdone, hnone⟩ :=
      ends_done fd child v acc (readAnswer env m acc) (m + 3 + 1)
    refine ⟨_, _, ends_leave hleave hdone, ?_⟩
    have hcount := h.count
    have hsmall := h.small
    have henough := h.enough
    rw [received, List.flatMap_cons, ← received, hnone, List.append_nil]
    cases hread : env.reads m with
    | ok bytes =>
      have hlong : 4 ≤ acc + bytes.length := by
        by_contra hshort
        refine hlast ⟨by simp [hread], ?_⟩
        simp only [balance, hread, delta]
        omega
      have hdelivered : delivered env.reads (m + 1) = delivered env.reads m + bytes.length := by
        rw [delivered, hread]
      have hbytes : (receivedBy ⟨.read fd (intSize - acc), some (readAnswer env m acc)⟩).length =
          4 - acc := by
        simp only [readAnswer, hread, Except.map, receivedBy, List.length_take, intSize]
        omega
      rw [hbytes, Nat.add_zero, hdelivered]
      omega
    | error e =>
      have hdelivered : delivered env.reads (m + 1) = delivered env.reads m := by
        rw [delivered, hread]
        rfl
      have hfail : readAnswer env m acc = .error e := by
        simp only [readAnswer, hread, Except.map]
      rw [hfail, Nat.add_zero, hdelivered]
      exact ⟨Iff.rfl, fun _ => ofIntBytes_neg_iff h.length_eq h.top⟩
  | succ d ih =>
    have hm := hgo m (Nat.le_refl m) (by omega)
    obtain ⟨hnext, hdelivered⟩ := h.next fd hm
    have hlast' : ¬ GoesOn env.reads (m + 1 + d) := by
      rw [show m + 1 + d = m + (d + 1) by omega]
      exact hlast
    obtain ⟨events, x, hends, hiff, hneg⟩ :=
      ih hnext (fun s hs hs' => hgo s (by omega) (by omega)) hlast'
    refine ⟨_, x, ends_again ((transferAgain_eq h.count h.small).1 hm) hends, ?_⟩
    rw [received, List.flatMap_cons, ← received, List.length_append, ← Nat.add_assoc, ← hdelivered,
      show m + (d + 1) + 1 = m + 1 + d + 1 by omega]
    exact ⟨hiff, hneg⟩

/-- **The loop goes on forever** if every read lets it go on. -/
theorem not_ends_loop (h : LoopAt env junk m acc v) (hgo : ∀ s, GoesOn env.reads s) :
    ¬ (receiveLoop fd child (acc, v)).Ends env.script (m + 3) events x := by
  refine Prog.not_ends (I := fun n p => ∃ m acc v, n = m + 3 ∧ p = receiveLoop fd child (acc, v) ∧
    LoopAt env junk m acc v) ?_ ⟨m, acc, v, rfl, rfl, h⟩
  intro n p hp
  obtain ⟨m, acc, v, rfl, rfl, h⟩ := hp
  refine ⟨_, readAnswer env m acc, rfl, script_read, m + 1, _, _, by omega, ?_,
    (h.next fd (hgo m)).1⟩
  have hagain := (transferAgain_eq h.count h.small).1 (hgo m)
  simp only [readAnswer] at hagain ⊢
  simp only [hagain, Option.map_some]
  rfl

/-! ## `double_fork` -/

theorem exists_lastRead {reads : Nat → Except Errno (List UInt8)} (h : ¬ ∀ t, GoesOn reads t) :
    ∃ t, LastRead reads t := by
  classical
  have hex : ∃ t, ¬ GoesOn reads t := not_forall.mp h
  exact ⟨Nat.find hex, fun s hs => not_not.mp (Nat.find_min hex hs), Nat.find_spec hex⟩

/-- A caller that gets no pipe, or no child, returns `-1`. -/
theorem comesBack_of_pipe {e : Errno} (h : env.pipe = .error e) : ComesBack env junk := by
  have hpipe : env.script 0 .pipe = some (.error e) := congrArg some h
  exact ⟨_, -1, .of_call hpipe .ret, fun _ => by decide⟩

theorem comesBack_of_fork {r w : Nat} {e : Errno} (hpipe : env.pipe = .ok (r, w))
    (h : env.fork = .error e) : ComesBack env junk := by
  have hpipe : env.script 0 .pipe = some (.ok (r, w)) := congrArg some hpipe
  have hfork : env.script 1 .fork = some (.error e) := by simp [Behaviour.script, h]
  exact ⟨_, -1, .of_call hpipe (.of_call hfork (.of_call rfl (.of_call rfl .ret))),
    fun _ => by decide⟩

/-- With a pipe and a child, what matters is the loop. -/
theorem ends_doubleFork {r w : Nat} {child : Pid} (hpipe : env.pipe = .ok (r, w))
    (hfork : env.fork = .ok child)
    (h : (receivePid r child (List.ofFn junk)).Ends env.script 3 events x) :
    ∃ history, (doubleFork junk).Ends env.script 0 history x ∧
      received history = received events := by
  have hpipe : env.script 0 .pipe = some (.ok (r, w)) := congrArg some hpipe
  have hfork : env.script 1 .fork = some (.parent child) := by simp [Behaviour.script, hfork]
  exact ⟨_, .of_call hpipe (.of_call hfork (.of_call rfl h)), rfl⟩

theorem ends_doubleFork_inv {r w : Nat} {child : Pid} (hpipe : env.pipe = .ok (r, w))
    (hfork : env.fork = .ok child) {history : List (Event Call)}
    (h : (doubleFork junk).Ends env.script 0 history x) :
    ∃ events, (receivePid r child (List.ofFn junk)).Ends env.script 3 events x := by
  have hpipe : env.script 0 .pipe = some (.ok (r, w)) := congrArg some hpipe
  have hfork : env.script 1 .fork = some (.parent child) := by simp [Behaviour.script, hfork]
  obtain ⟨_, -, h⟩ := Prog.Ends.call_inv h hpipe
  obtain ⟨_, -, h⟩ := Prog.Ends.call_inv h hfork
  obtain ⟨events, -, h⟩ := Prog.Ends.call_inv h (show env.script 2 (.close w) = some () from rfl)
  exact ⟨events, h⟩

/-- What `double_fork` returns after the last read. -/
theorem ends_of_lastRead {r w : Nat} {child : Pid} (hpipe : env.pipe = .ok (r, w))
    (hfork : env.fork = .ok child) (junk : Fin 4 → UInt8) {t : Nat} (ht : LastRead env.reads t) :
    ∃ history v, (doubleFork junk).Ends env.script 0 history (some v) ∧
      (4 ≤ (received history).length ↔ 4 ≤ delivered env.reads (t + 1)) ∧
      ((received history).length < 4 → (v < 0 ↔ 128 ≤ (junk 3).toNat)) := by
  have hlast : ¬ GoesOn env.reads (0 + t) := by
    rw [Nat.zero_add]
    exact ht.2
  obtain ⟨events, v, hloop, hiff, hneg⟩ :=
    ends_loop r child (loopAt_zero env junk) (fun s _ hs => ht.1 s (by omega)) hlast
  rw [← receivePid_eq] at hloop
  obtain ⟨history, hends, hreceived⟩ := ends_doubleFork hpipe hfork hloop
  rw [← hreceived, delivered, Nat.zero_add] at hiff hneg
  rw [Nat.zero_add] at hiff
  exact ⟨history, v, hends, hiff, hneg⟩

/-- **When `double_fork` comes back as it should.** Count the bytes that reads find, and `-1` for
each read that fails. There has to be a read after which this count is 4 or more, or below 0, or
which has failed for another reason than a signal; and by then four bytes have been found, or the
top byte of `v`, which nothing has been stored in, happens to make it negative. -/
theorem comesBack_iff (env : Behaviour) (junk : Fin 4 → UInt8) :
    ComesBack env junk ↔ (∃ e, env.pipe = .error e) ∨ (∃ e, env.fork = .error e) ∨
      ∃ t, LastRead env.reads t ∧
        (4 ≤ delivered env.reads (t + 1) ∨ 128 ≤ (junk 3).toNat) := by
  cases hpipe : env.pipe with
  | error e => exact iff_of_true (comesBack_of_pipe hpipe) (.inl ⟨e, rfl⟩)
  | ok ends =>
    obtain ⟨r, w⟩ := ends
    cases hfork : env.fork with
    | error e => exact iff_of_true (comesBack_of_fork hpipe hfork) (.inr (.inl ⟨e, rfl⟩))
    | ok child =>
      simp only [reduceCtorEq, exists_false, false_or]
      constructor
      · intro h
        obtain ⟨history, v, hends, hneg⟩ := h
        obtain ⟨events, hloop⟩ := ends_doubleFork_inv hpipe hfork hends
        rw [receivePid_eq] at hloop
        obtain ⟨t, ht⟩ := exists_lastRead fun hall => not_ends_loop (loopAt_zero _ _) hall hloop
        obtain ⟨history', v', hends', hiff, hsign⟩ := ends_of_lastRead hpipe hfork junk ht
        obtain ⟨rfl, hv⟩ := hends.unique hends'
        cases hv
        refine ⟨t, ht, ?_⟩
        by_cases hshort : (received history).length < 4
        · exact .inr ((hsign hshort).mp (hneg hshort))
        · exact .inl (hiff.mp (by omega))
      · intro h
        obtain ⟨t, ht, hgood⟩ := h
        obtain ⟨history, v, hends, hiff, hsign⟩ := ends_of_lastRead hpipe hfork junk ht
        refine ⟨history, v, hends, fun hshort => ?_⟩
        cases hgood with
        | inl hfour =>
          have hlong := hiff.mpr hfour
          simp only [intSize] at hshort
          omega
        | inr htop => exact (hsign hshort).mpr htop

/-- The child is killed before it has written anything. -/
def killedChild : Behaviour where
  pipe := .ok (3, 4)
  fork := .ok 7
  reads _ := .ok []
  kill := none

/-- Every read finds the end of the pipe, and the loop goes round forever. -/
theorem killed_child_never_comes_back : ¬ ComesBack killedChild fun _ => 0 := by
  intro h
  obtain ⟨history, v, hends, -⟩ := h
  obtain ⟨events, hloop⟩ := ends_doubleFork_inv rfl rfl hends
  rw [receivePid_eq] at hloop
  refine not_ends_loop (loopAt_zero _ _) (fun t => ?_) hloop
  have hbalance : ∀ t, balance killedChild.reads t = 0 := by
    intro t
    induction t with
    | zero => rfl
    | succ t ih => rw [balance, ih]; rfl
  exact ⟨by simp [killedChild], by simp [hbalance], by simp [hbalance]⟩

end Spectrum.Vmm
