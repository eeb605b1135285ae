import Spectrum.Interact.Play
import Spectrum.Net.Setup

/-!
# What `errno` says

`vm_config` reports a failure of `net_setup` by the `errno` it finds afterwards. In between lie the
calls `net_setup` makes to undo what it has done, and any of them may set `errno` again: the `close`
calls, the calls of `bridge_delete`, and `close(r.fd)`, which fails with `EBADF` as long as there is
no tap.

Here the world is left out. The calls turn out in any way whatever, by their position, and all that
is followed is `errno`. **The cause is reported exactly when the way out does not overwrite it**,
and the way out depends on the step that failed alone: it is listed, step by step, in `netSteps`.
-/

set_option autoImplicit false

namespace Spectrum.Net

open Interact Bytes

/-! ## Runs with an `errno` -/

/-- How the calls of a process turn out, by their position: whether the call fails, with which
error, and what it answers if it does not. -/
structure Turns where
  fails : Nat → Option Errno
  fd : Nat → Nat
  flags : Nat → BitVec 16
  /-- Interface indexes start at 1: this is one less. -/
  index : Nat → Nat
  pipe : Nat × Nat
  child : Bool

/-- What a process has behind it. -/
structure Trail where
  calls : Nat
  errno : Errno
  /-- The error of the first step that failed. -/
  cause : Option Errno
  deriving Repr, DecidableEq

/-- The next call succeeds. -/
def Trail.ok (t : Trail) : Trail := { t with calls := t.calls + 1 }

/-- The next call fails; `counts` says whether that is a step that failed. -/
def Trail.fail (t : Trail) (counts : Bool) (e : Errno) : Trail :=
  ⟨t.calls + 1, e, t.cause.or (if counts then some e else none)⟩

namespace Turns

variable (o : Turns) (closes : Bool)

def attempt {β : Type} (counts : Bool) (bad : Errno → β) (good : β) (t : Trail) :
    Option (β × Trail) :=
  match o.fails t.calls with
  | some e => some (bad e, t.fail counts e)
  | none => some (good, t.ok)

/-- A call that fails sets `errno`, and a call that succeeds leaves it alone. Nobody looks at the
result of a `close`; `closes` says whether one that fails is a step that failed nevertheless. -/
def exec {β : Type} : Sys β → Trail → Option (β × Trail)
  | .socket _, t => o.attempt true (fun _ => -1) (o.fd t.calls) t
  | .close fd, t =>
    if fd = -1 then some (-1, t.fail closes EBADF) else o.attempt closes (fun _ => -1) 0 t
  | .getFlags _ _, t => o.attempt true (fun _ => none) (some (o.flags t.calls)) t
  | .setFlags _ _ _, t => o.attempt true (fun _ => -1) 0 t
  | .setName _ _, t => o.attempt true (fun _ => -1) 0 t
  | .brAddBr _, t => o.attempt true (fun _ => -1) 0 t
  | .brDelBr _, t => o.attempt true (fun _ => -1) 0 t
  | .brAddIf _ _, t => o.attempt true (fun _ => -1) 0 t
  | .brDelIf _ _, t => o.attempt true (fun _ => -1) 0 t
  | .nameToIndex _ _, t => o.attempt true (fun _ => 0) (o.index t.calls + 1) t
  | .openTun, t => o.attempt true (fun _ => -1) (o.fd t.calls) t
  | .tunSetIff _ _ _, t => o.attempt true (fun _ => -1) 0 t
  | .chAddNet _ _ _ _, t => o.attempt true some none t
  | .chRemoveDevice _ _, t => o.attempt true some none t
  | .pipe, t => o.attempt true (fun _ => none) (some o.pipe) t
  | .fork, t => o.attempt true (fun _ => .error) (if o.child then .child else .parent) t
  | .poll _, t => o.attempt true some none t
  | .setErrno e, t => some ((), { t with errno := e })
  | .exit _, _ => none

/-- `net_setup`, called with this `errno`, reports the cause if it fails. -/
def Reports (pid : Nat) (routerVm : VmDir) (errno : Errno) : Prop :=
  ∀ r t, (netSetup pid routerVm).eval (o.exec closes) ⟨0, errno, none⟩ = some (r, t) →
    r.fd = -1 → t.cause = some t.errno

end Turns

/-! ## The steps of `net_setup` -/

/-- How `net_setup` is left when a step has failed: at once, or by `fail_bridge`, with the tap of
the VM open or not. -/
inductive Exit
  | plain
  | noTap
  | withTap
  deriving Repr, DecidableEq

/-- A call whose failure makes `net_setup` fail. After it come `free` calls before `errno` is
assigned, then `undo` calls before the exit. -/
structure Step where
  position : Nat
  free : Nat
  undo : Nat
  exit : Exit
  deriving Repr, DecidableEq

namespace Step

/-- The call at this position, with nothing to undo. -/
def call (n : Nat) : Step := ⟨n, 0, 0, .plain⟩

/-- One more descriptor to close. -/
def closing (s : Step) : Step := { s with undo := s.undo + 1 }

def leaving (x : Exit) (s : Step) : Step := { s with exit := x }

end Step

/-- A request over a socket, which is closed. -/
def requestSteps (n : Nat) : List Step := .call n :: [Step.call (n + 1)].map .closing

/-- `if_up`: the flags are read and written. -/
def flagSteps (n : Nat) : List Step :=
  .call n :: [Step.call (n + 1), .call (n + 2)].map .closing

/-- `bridge_add_if`: the index, then the request. -/
def portSteps (n : Nat) : List Step := .call n :: requestSteps (n + 1)

/-- `setup_tap`: `/dev/net/tun`, `TUNSETIFF`, the port, the flags. From the port on the tap is to be
closed again. -/
def tapSteps (n : Nat) : List Step :=
  [.call n, (Step.call (n + 1)).closing] ++
    ((portSteps (n + 2)).map .closing ++ (flagSteps (n + 6)).map .closing)

/-- `router_net_setup`: `ch_add_net` returns its error, and the tap is closed before `errno` is
assigned. -/
def routerSteps (n : Nat) : List Step := tapSteps n ++ [⟨n + 10, 1, 0, .plain⟩]

/-- `exit_listener_setup`: `pipe`, and `fork` with the pipe to be closed again. -/
def listenerSteps (n : Nat) : List Step := [.call n, (Step.call (n + 1)).closing.closing]

def netSteps : List Step :=
  requestSteps 0 ++
    ((flagSteps 3 ++ tapSteps 7).map (.leaving .noTap) ++
      (routerSteps 17 ++ listenerSteps 29).map (.leaving .withTap))

namespace Turns

variable (o : Turns) (closes : Bool)

/-- The first of the steps to fail, and its error. -/
def trip (steps : List Step) : Option (Step × Errno) :=
  steps.findSome? fun s => (o.fails s.position).map (s, ·)

/-- What is left of `errno = e` after `k` calls from position `n` on. -/
def left (e : Errno) (n : Nat) : Nat → Errno
  | 0 => e
  | k + 1 => (o.fails (n + k)).getD (left e n k)

/-- How many calls `if_down` makes. -/
def downCalls (n : Nat) : Nat :=
  if (o.fails n).isSome then 1 else if (o.fails (n + 1)).isSome then 3 else 4

/-- How many calls `bridge_delete` makes after `if_down`. -/
def deleteCalls (n : Nat) : Nat := if (o.fails n).isSome then 1 else 3

/-- How many calls are made from `fail_bridge` on. -/
def rollbackCalls (n : Nat) : Nat := o.downCalls n + o.deleteCalls (n + o.downCalls n) + 1

/-- `errno` at the return, after `s` has failed with `e`. -/
def errnoAt (s : Step) (e : Errno) : Errno :=
  let n := s.position + 1 + s.free
  match s.exit with
  | .plain => o.left e n s.undo
  | .noTap => EBADF
  | .withTap => o.left e n (s.undo + o.rollbackCalls (n + s.undo))

/-- The first error before position `n`, if a failed `close` counts: no other call has failed. -/
def seen (n : Nat) : Option Errno :=
  if closes then (List.range n).findSome? o.fails else none

/-- The error to be reported when `s` is the step that failed, with `e`. -/
def causeAt (s : Step) (e : Errno) : Errno := (o.seen closes s.position).getD e

/-! ## Following the code -/

section Follow

variable {o closes} {α γ : Type} {n : Nat} {t : Trail} {e : Errno} {s : Step}

theorem trip_cons (s : Step) (steps : List Step) :
    o.trip (s :: steps) = ((o.fails s.position).map (s, ·)).or (o.trip steps) := by
  rw [trip, List.findSome?_cons, trip]
  cases o.fails s.position <;> rfl

theorem trip_append (l l' : List Step) : o.trip (l ++ l') = (o.trip l).or (o.trip l') :=
  List.findSome?_append

theorem trip_map {g : Step → Step} (hg : ∀ s, (g s).position = s.position) (l : List Step) :
    o.trip (l.map g) = (o.trip l).map fun r => (g r.1, r.2) := by
  induction l with
  | nil => rfl
  | cons s l ih =>
    rw [List.map_cons, trip_cons, trip_cons, ih, hg]
    cases o.fails s.position <;> rfl

theorem left_add (e : Errno) (n j k : Nat) :
    o.left (o.left e n j) (n + j) k = o.left e n (j + k) := by
  induction k with
  | zero => rfl
  | succ k ih =>
    rw [left, ih, Nat.add_assoc]
    rfl

theorem seen_succ (n : Nat) :
    o.seen closes (n + 1) = (o.seen closes n).or (if closes then o.fails n else none) := by
  cases closes with
  | false => rfl
  | true =>
    simp only [seen, if_true, List.range_succ, List.findSome?_append, List.findSome?_cons,
      List.findSome?_nil]
    cases o.fails n <;> rfl

/-- The trail after `k` more calls once there is a cause. -/
def after (o : Turns) (t : Trail) (k : Nat) : Trail :=
  ⟨t.calls + k, o.left t.errno t.calls k, t.cause⟩

/-- The trail when `s` has failed with `e` and has been undone. -/
def stopped (o : Turns) (closes : Bool) (s : Step) (e : Errno) : Trail :=
  o.after ⟨s.position + 1 + s.free, e, some (o.causeAt closes s e)⟩ s.undo

/-- Every step so far has succeeded. -/
structure OnTrack (o : Turns) (closes : Bool) (n : Nat) (t : Trail) : Prop where
  calls : t.calls = n
  cause : t.cause = o.seen closes n

theorem after_after (t : Trail) (j k : Nat) : o.after (o.after t j) k = o.after t (j + k) := by
  simp only [after, left_add, Nat.add_assoc]

/-- Once there is a cause, a call adds to the trail in one way. -/
theorem attempt_after {β : Type} {counts : Bool} {bad : Errno → β} {good : β} {c : Errno}
    (ht : t.cause = some c) :
    o.attempt counts bad good t =
      some (match o.fails t.calls with | some e => bad e | none => good, o.after t 1) := by
  obtain ⟨calls, errno, cause⟩ := t
  cases ht
  cases h : o.fails calls with
  | some e => simp [attempt, after, Trail.fail, left, h]
  | none => simp [attempt, after, Trail.ok, left, h]

theorem OnTrack.eq (h : o.OnTrack closes n t) : t = ⟨n, t.errno, o.seen closes n⟩ := by
  obtain ⟨rfl, hcause⟩ := h
  rw [← hcause]

theorem OnTrack.ok (h : o.OnTrack closes n t) (hn : o.fails n = none) :
    o.OnTrack closes (n + 1) t.ok := by
  refine ⟨congrArg (· + 1) h.calls, ?_⟩
  show t.cause = _
  rw [seen_succ, hn, ite_self, Option.or_none, h.cause]

/-- A step fails. -/
theorem OnTrack.fail (h : o.OnTrack closes n t) : t.fail true e = o.stopped closes (.call n) e := by
  rw [h.eq]
  simp only [Trail.fail, stopped, after, causeAt, Step.call, left, if_true]
  cases o.seen closes n <;> rfl

/-- A descriptor is closed, and nobody looks at the result. -/
theorem OnTrack.close (h : o.OnTrack closes n t) {fd : Int} (hfd : fd ≠ -1) :
    ∃ r t', o.exec closes (.close fd) t = some (r, t') ∧ o.OnTrack closes (n + 1) t' := by
  rw [exec, if_neg hfd, attempt, h.calls]
  cases hn : o.fails n with
  | none => exact ⟨_, _, rfl, h.ok hn⟩
  | some e =>
    refine ⟨_, _, rfl, congrArg (· + 1) h.calls, ?_⟩
    show t.cause.or _ = _
    rw [seen_succ, hn, h.cause]

theorem close_after (o : Turns) (closes : Bool) {c : Errno} (ht : t.cause = some c) {fd : Int}
    (hfd : fd ≠ -1) :
    ∃ r, o.exec closes (.close fd) t = some (r, o.after t 1) := by
  rw [exec, if_neg hfd, attempt_after ht]
  exact ⟨_, rfl⟩

theorem stopped_close (o : Turns) (closes : Bool) (s : Step) (e : Errno) {fd : Int}
    (hfd : fd ≠ -1) :
    ∃ r, o.exec closes (.close fd) (o.stopped closes s e) =
      some (r, o.stopped closes s.closing e) := by
  obtain ⟨r, hclose⟩ := close_after o closes (t := o.stopped closes s e) rfl hfd
  refine ⟨r, hclose.trans ?_⟩
  rw [stopped, after_after]
  rfl

/-- What comes of code with these steps: `good` if all of them succeed, and otherwise it returns in
a way that is `bad`, given the first of them to fail. -/
def Yields (o : Turns) (steps : List Step) (good : Option (α × Trail) → Prop)
    (bad : Step → Errno → α → Trail → Prop) (r : Option (α × Trail)) : Prop :=
  match o.trip steps with
  | none => good r
  | some (s, e) => ∃ a t, r = some (a, t) ∧ bad s e a t

/-- The code has returned a good value, and the process is at position `n`. -/
def Through (o : Turns) (closes : Bool) (n : Nat) (ok : α → Prop) (r : Option (α × Trail)) : Prop :=
  ∃ a t, r = some (a, t) ∧ ok a ∧ o.OnTrack closes n t

/-- The code has returned an error, and has undone what it did. -/
def Failed (o : Turns) (closes : Bool) (err : α → Prop) (s : Step) (e : Errno) (a : α) (t : Trail) :
    Prop :=
  err a ∧ t = o.stopped closes s e

/-- `p` makes the calls from position `n` up to `m`, and these are its steps. -/
def Follows (o : Turns) (closes : Bool) (steps : List Step) (n m : Nat) (ok err : α → Prop)
    (p : Prog Sys α) : Prop :=
  ∀ t, o.OnTrack closes n t →
    o.Yields steps (o.Through closes m ok) (o.Failed closes err) (p.eval (o.exec closes) t)

section Rules

variable {β : Type} {good : Option (γ × Trail) → Prop} {bad : Step → Errno → γ → Trail → Prop}
  {steps steps' : List Step}

/-- One step, then the rest. -/
theorem Yields.call {c : Sys β} {k : β → Prog Sys γ} {no : Errno → β} {yes : β}
    (h : o.OnTrack closes n t) (hexec : o.exec closes c t = o.attempt true no yes t)
    (hs : s.position = n)
    (hbad : ∀ e, ∃ a t',
      (k (no e)).eval (o.exec closes) (o.stopped closes (.call n) e) = some (a, t') ∧ bad s e a t')
    (hgood : ∀ t', o.OnTrack closes (n + 1) t' →
      o.Yields steps good bad ((k yes).eval (o.exec closes) t')) :
    o.Yields (s :: steps) good bad ((Prog.call c k).eval (o.exec closes) t) := by
  rw [Yields, trip_cons, hs]
  rw [attempt, h.calls] at hexec
  cases hn : o.fails n with
  | none =>
    rw [hn] at hexec
    rw [Prog.eval_call hexec]
    exact hgood _ (h.ok hn)
  | some e =>
    rw [hn] at hexec
    rw [Prog.eval_call hexec, h.fail]
    exact hbad e

/-- Sequencing. `g` is what the rest adds to the steps of `p` when one of them has failed. -/
theorem Yields.bind {p : Prog Sys α} {f : α → Prog Sys γ} {g : Step → Step}
    {good₀ : Option (α × Trail) → Prop} {bad₀ : Step → Errno → α → Trail → Prop}
    (hg : ∀ s, (g s).position = s.position)
    (hp : o.Yields steps good₀ bad₀ (p.eval (o.exec closes) t))
    (hbad : ∀ s e a t, bad₀ s e a t →
      ∃ b t', (f a).eval (o.exec closes) t = some (b, t') ∧ bad (g s) e b t')
    (hgood : good₀ (p.eval (o.exec closes) t) →
      o.Yields steps' good bad ((p.bind f).eval (o.exec closes) t)) :
    o.Yields (steps.map g ++ steps') good bad ((p.bind f).eval (o.exec closes) t) := by
  rw [Yields, trip_append, trip_map hg]
  rw [Yields] at hp
  cases htrip : o.trip steps with
  | none =>
    rw [htrip] at hp
    exact hgood hp
  | some r =>
    obtain ⟨s, e⟩ := r
    rw [htrip] at hp
    obtain ⟨a, t', heval, ha⟩ := hp
    rw [Prog.eval_bind, heval]
    exact hbad s e a t' ha

/-- Sequencing after code that follows its steps. -/
theorem Follows.bind {p : Prog Sys α} {f : α → Prog Sys γ} {g : Step → Step} {m : Nat}
    {ok err : α → Prop} (hp : o.Follows closes steps n m ok err p)
    (hg : ∀ s, (g s).position = s.position) (h : o.OnTrack closes n t)
    (hbad : ∀ s e a, err a →
      ∃ b t', (f a).eval (o.exec closes) (o.stopped closes s e) = some (b, t') ∧ bad (g s) e b t')
    (hgood : ∀ a t', ok a → o.OnTrack closes m t' →
      o.Yields steps' good bad ((f a).eval (o.exec closes) t')) :
    o.Yields (steps.map g ++ steps') good bad ((p.bind f).eval (o.exec closes) t) := by
  refine Yields.bind hg (hp t h) ?_ ?_
  · intro s e a t' ha
    obtain ⟨ha, rfl⟩ := ha
    exact hbad s e a ha
  · intro hthrough
    obtain ⟨a, t', heval, ha, ht'⟩ := hthrough
    rw [Prog.eval_bind, heval]
    exact hgood a t' ha ht'

end Rules

end Follow

/-! ## The functions of `net-util.c` -/

section Util

variable {o closes} {n m : Nat} {steps : List Step} {site : Site}

/-- C's convention. -/
abbrev Succeeds (r : Int) : Prop := r ≠ -1

abbrev Fails (r : Int) : Prop := r = -1

theorem follows_request {c : Sys Int}
    (hc : ∀ t, o.exec closes c t = o.attempt true (fun _ => -1) 0 t) :
    o.Follows closes [.call n] n (n + 1) Succeeds Fails (Prog.lift c) := by
  intro t h
  refine Yields.call h (hc t) rfl ?_ ?_
  · intro e
    exact ⟨-1, _, rfl, rfl, rfl⟩
  · intro t' h'
    exact ⟨0, t', rfl, by decide, h'⟩

theorem follows_withSocket {request : Prog Sys Int}
    (hreq : o.Follows closes steps (n + 1) m Succeeds Fails request) :
    o.Follows closes (.call n :: steps.map .closing) n (m + 1) Succeeds Fails
      (withSocket site request) := by
  intro t h
  refine Yields.call h rfl rfl ?_ ?_
  · intro e
    exact ⟨-1, _, rfl, rfl, rfl⟩
  · intro t₁ h₁
    have hfd : ((o.fd t.calls : Nat) : Int) ≠ -1 := by omega
    rw [Prog.ret_bind, if_neg hfd, ← List.append_nil (steps.map _)]
    refine hreq.bind (fun _ => rfl) h₁ ?_ ?_
    · intro s e r hr
      obtain ⟨r', hclose⟩ := stopped_close o closes s e hfd
      exact ⟨r, _, Prog.eval_call hclose, hr, rfl⟩
    · intro r t₂ hr h₂
      obtain ⟨r', t₃, hclose, h₃⟩ := h₂.close hfd
      exact ⟨r, t₃, Prog.eval_call hclose, hr, h₃⟩

theorem follows_ifUp (name : IfName) :
    o.Follows closes (flagSteps n) n (n + 4) Succeeds Fails (ifUp name) := by
  refine follows_withSocket ?_
  intro t h
  refine Yields.call h rfl rfl ?_ ?_
  · intro e
    exact ⟨-1, _, rfl, rfl, rfl⟩
  · intro t' h'
    exact follows_request (fun _ => rfl) t' h'

theorem follows_bridgeAdd (pid : Nat) :
    o.Follows closes (requestSteps n) n (n + 3) Succeeds Fails (bridgeAdd (bridgeName pid)) := by
  rw [bridgeName, bridgeAdd, if_neg (not_tooLong_snprintf _ _),
    if_neg (percent_not_mem_snprintf (by decide) _)]
  exact follows_withSocket (follows_request fun _ => rfl)

theorem follows_bridgeAddIf (brname ifname : IfName) :
    o.Follows closes (portSteps n) n (n + 4) Succeeds Fails (bridgeAddIf brname ifname) := by
  intro t h
  refine Yields.call h rfl rfl ?_ ?_
  · intro e
    exact ⟨-1, _, rfl, rfl, rfl⟩
  · intro t' h'
    rw [Prog.ret_bind, if_neg (Nat.succ_ne_zero _)]
    exact follows_withSocket (follows_request fun _ => rfl) t' h'

theorem follows_tapOpen (pfx : List Char) (pid : Nat) :
    o.Follows closes [.call n, (Step.call (n + 1)).closing] n (n + 2) Succeeds Fails
      (tapOpen (snprintf pfx pid) true) := by
  rw [tapOpen, if_neg (not_tooLong_snprintf _ _)]
  intro t h
  refine Yields.call h rfl rfl ?_ ?_
  · intro e
    exact ⟨-1, _, rfl, rfl, rfl⟩
  · intro t₁ h₁
    have hfd : ((o.fd t.calls : Nat) : Int) ≠ -1 := by omega
    rw [Prog.ret_bind, if_neg hfd]
    refine Yields.call h₁ rfl rfl ?_ ?_
    · intro e
      obtain ⟨r, hclose⟩ := stopped_close o closes (.call (n + 1)) e hfd
      exact ⟨-1, _, Prog.eval_call hclose, rfl, rfl⟩
    · intro t₂ h₂
      exact ⟨_, t₂, rfl, hfd, h₂⟩

end Util

/-! ## The functions of `net.c` -/

section Setup

variable {o closes} {n : Nat} {t : Trail}

theorem follows_setupTap (bridge : IfName) (pfx : List Char) (pid : Nat) :
    o.Follows closes (tapSteps n) n (n + 10) (Succeeds ·.1) (Fails ·.1)
      (setupTap bridge pfx pid) := by
  intro t h
  rw [tapSteps, ← List.map_id [Step.call n, _]]
  refine (follows_tapOpen pfx pid).bind (fun _ => rfl) h ?_ ?_
  · intro s e fd hfd
    rw [if_pos hfd]
    exact ⟨_, _, rfl, hfd, rfl⟩
  intro fd t₁ hfd h₁
  rw [if_neg hfd]
  refine (follows_bridgeAddIf _ _).bind (fun _ => rfl) h₁ ?_ ?_
  · intro s e r hr
    rw [if_pos hr]
    obtain ⟨r', hclose⟩ := stopped_close o closes s e hfd
    exact ⟨_, _, Prog.eval_call hclose, rfl, rfl⟩
  intro r t₂ hr h₂
  rw [if_neg hr, ← List.append_nil ((flagSteps _).map _)]
  refine (follows_ifUp _).bind (fun _ => rfl) h₂ ?_ ?_
  · intro s e r hr
    rw [if_pos hr]
    obtain ⟨r', hclose⟩ := stopped_close o closes s e hfd
    exact ⟨_, _, Prog.eval_call hclose, rfl, rfl⟩
  · intro r t₃ hr h₃
    rw [if_neg hr]
    exact ⟨_, t₃, rfl, hfd, h₃⟩

/-- `errno = e` comes after the tap is closed, so that failure does not show. -/
theorem follows_routerNetSetup (bridge : IfName) (routerVm : VmDir) (mac : Mac) (pid : Nat) :
    o.Follows closes (routerSteps n) n (n + 12) (Succeeds ·.1) (Fails ·.1)
      (routerNetSetup bridge routerVm mac pid) := by
  intro t h
  rw [routerSteps, ← List.map_id (tapSteps n)]
  refine (follows_setupTap _ _ _).bind (fun _ => rfl) h ?_ ?_
  · intro s e r hr
    dsimp only
    rw [if_pos hr]
    exact ⟨_, _, rfl, rfl, rfl⟩
  intro r t₁ hr h₁
  dsimp only
  rw [if_neg hr]
  refine Yields.call h₁ rfl rfl ?_ ?_
  · intro e
    obtain ⟨r', hclose⟩ := stopped_close o closes (.call (n + 10)) e hr
    exact ⟨(-1, []), _, Prog.eval_call hclose, rfl, rfl⟩
  · intro t₂ h₂
    obtain ⟨r', t₃, hclose, h₃⟩ := h₂.close hr
    exact ⟨(0, r.2), t₃, Prog.eval_call hclose, by simp, h₃⟩

/-- The listener itself, which is the child, does not return. -/
theorem yields_exitListenerSetup (pid : Nat) (routerVm : VmDir) (deviceId : IfName)
    (h : o.OnTrack closes n t) :
    o.Yields (listenerSteps n) (fun r => ∀ a t', r = some (a, t') → Succeeds a)
      (o.Failed closes Fails)
      ((exitListenerSetup pid routerVm deviceId).eval (o.exec closes) t) := by
  have hread : (o.pipe.1 : Int) ≠ -1 := by omega
  have hwrite : (o.pipe.2 : Int) ≠ -1 := by omega
  refine Yields.call h rfl rfl ?_ ?_
  · intro e
    exact ⟨-1, _, rfl, rfl, rfl⟩
  intro t₁ h₁
  refine Yields.call h₁ rfl rfl ?_ ?_
  · intro e
    obtain ⟨r, hclose⟩ := stopped_close o closes (.call (n + 1)) e hread
    obtain ⟨r', hclose'⟩ := stopped_close o closes (Step.call (n + 1)).closing e hwrite
    exact ⟨-1, _, (Prog.eval_call hclose).trans (Prog.eval_call hclose'), rfl, rfl⟩
  · intro t₂ h₂
    show ∀ a t', _ → _
    intro a t' heval
    cases hchild : o.child with
    | true =>
      rw [hchild] at heval
      obtain ⟨r, t₃, hclose, -⟩ := h₂.close hread
      cases (Prog.eval_call hclose).symm.trans heval
    | false =>
      rw [hchild] at heval
      obtain ⟨r, t₃, hclose, -⟩ := h₂.close hwrite
      cases (Prog.eval_call hclose).symm.trans heval
      decide

/-! ### The way out -/

section Rollback

variable (o closes) {c : Errno}

theorem eval_request {c : Sys Int}
    (hc : ∀ t, o.exec closes c t = o.attempt true (fun _ => -1) 0 t) {e : Errno}
    (ht : t.cause = some e) :
    ∃ r, (Prog.lift c).eval (o.exec closes) t = some (r, o.after t 1) :=
  ⟨_, Prog.eval_call ((hc t).trans (attempt_after ht))⟩

theorem eval_withSocket {site : Site} {request : Prog Sys Int} {k : Nat} (ht : t.cause = some c)
    (hreq : ∃ r, request.eval (o.exec closes) (o.after t 1) = some (r, o.after (o.after t 1) k)) :
    ∃ r, (withSocket site request).eval (o.exec closes) t =
      some (r, o.after t (if (o.fails t.calls).isSome then 1 else k + 2)) := by
  cases hn : o.fails t.calls with
  | some e =>
    have hsocket : o.exec closes (.socket site) t = some (-1, o.after t 1) := by
      rw [exec, attempt_after ht, hn]
    exact ⟨-1, Prog.eval_call hsocket⟩
  | none =>
    have hsocket : o.exec closes (.socket site) t = some ((o.fd t.calls : Int), o.after t 1) := by
      rw [exec, attempt_after ht, hn]
    have hfd : (o.fd t.calls : Int) ≠ -1 := by omega
    obtain ⟨r, hreq⟩ := hreq
    refine ⟨r, (Prog.eval_call hsocket).trans ?_⟩
    rw [Prog.ret_bind, if_neg hfd, Prog.bind_eq, Prog.eval_bind, hreq]
    obtain ⟨r', hclose⟩ := close_after o closes (t := o.after (o.after t 1) k) ht hfd
    refine (Prog.eval_call hclose).trans ?_
    rw [after_after, after_after, Nat.add_comm 1 k]
    rfl

theorem eval_ifDown (ht : t.cause = some c) (name : IfName) :
    ∃ r, (ifDown name).eval (o.exec closes) t = some (r, o.after t (o.downCalls t.calls)) := by
  have hcause : (o.after t 1).cause = some c := ht
  have hcalls : (o.after t 1).calls = t.calls + 1 := rfl
  rw [downCalls]
  cases hget : o.fails (t.calls + 1) with
  | some e =>
    refine eval_withSocket o closes (k := 1) ht ⟨-1, ?_⟩
    have hflags : o.exec closes (.getFlags .ifDown (ifrName name)) (o.after t 1) =
        some (none, o.after (o.after t 1) 1) := by
      rw [exec, attempt_after hcause, hcalls, hget]
    exact Prog.eval_call hflags
  | none =>
    have hflags : o.exec closes (.getFlags .ifDown (ifrName name)) (o.after t 1) =
        some (some (o.flags (t.calls + 1)), o.after (o.after t 1) 1) := by
      rw [exec, attempt_after hcause, hcalls, hget]
    obtain ⟨r, hset⟩ := eval_request o closes
      (c := .setFlags .ifDown (ifrName name) (o.flags (t.calls + 1) &&& ~~~IFF_UP))
      (t := o.after (o.after t 1) 1) (fun _ => rfl) ht
    rw [after_after] at hset
    exact eval_withSocket o closes (k := 2) ht ⟨r, (Prog.eval_call hflags).trans hset⟩

/-- `bridge_delete`, whatever becomes of it. -/
theorem eval_bridgeDelete (ht : t.cause = some c) (name : IfName) :
    ∃ r, (bridgeDelete name).eval (o.exec closes) t =
      some (r, o.after (o.after t (o.downCalls t.calls))
        (o.deleteCalls (t.calls + o.downCalls t.calls))) := by
  obtain ⟨r, hdown⟩ := eval_ifDown o closes ht name
  rw [bridgeDelete, Prog.bind_eq, Prog.eval_bind, hdown]
  exact eval_withSocket o closes (t := o.after t _) ht (eval_request o closes (fun _ => rfl) ht)

/-- From `fail_bridge` on there is an `EBADF` for certain, unless there is a tap to close. -/
theorem eval_failBridge (ht : t.cause = some c) (pid : Nat) (r : NetConfig) :
    ∃ t', (failBridge pid r).eval (o.exec closes) t = some ({ r with fd := -1 }, t') ∧
      t'.cause = some c ∧
      t'.errno = if r.fd = -1 then EBADF else o.left t.errno t.calls (o.rollbackCalls t.calls) := by
  obtain ⟨r', hdelete⟩ := eval_bridgeDelete o closes ht (bridgeName pid)
  rw [failBridge, Prog.bind_eq, Prog.eval_bind, hdelete]
  by_cases hfd : r.fd = -1
  · refine ⟨_, Prog.eval_call (if_pos hfd), ?_, (if_pos hfd).symm⟩
    show Option.or t.cause _ = _
    rw [ht]
    rfl
  · obtain ⟨r'', hclose⟩ := close_after o closes (t := o.after (o.after t _) _) ht hfd
    refine ⟨_, Prog.eval_call hclose, ht, ?_⟩
    rw [if_neg hfd, after_after, after_after]
    rfl

/-- How `net_setup` ends when a step has failed. -/
def Ended (o : Turns) (closes : Bool) (s : Step) (e : Errno) (r : NetConfig) (t : Trail) : Prop :=
  r.fd = -1 ∧ t.cause = some (o.causeAt closes s e) ∧ t.errno = o.errnoAt s e

theorem stopped_failBridge (s : Step) (e : Errno) {x : Exit} (pid : Nat) (r : NetConfig)
    (hx : x = if r.fd = -1 then .noTap else .withTap) :
    ∃ r' t', (failBridge pid r).eval (o.exec closes) (o.stopped closes s e) = some (r', t') ∧
      o.Ended closes (s.leaving x) e r' t' := by
  obtain ⟨t', heval, hcause, herrno⟩ :=
    eval_failBridge o closes (t := o.stopped closes s e) rfl pid r
  refine ⟨_, t', heval, rfl, hcause, herrno.trans ?_⟩
  rw [hx]
  split
  · rfl
  · exact left_add _ _ _ _

end Rollback

/-! ### `net_setup` -/

/-- The steps of `net_setup` are `netSteps`: it fails at the first of them that does. -/
theorem yields_netSetup (o : Turns) (closes : Bool) (pid : Nat) (routerVm : VmDir) (errno : Errno) :
    o.Yields netSteps (fun r => ∀ a t, r = some (a, t) → a.fd ≠ -1) (o.Ended closes)
      ((netSetup pid routerVm).eval (o.exec closes) ⟨0, errno, none⟩) := by
  have hstart : o.OnTrack closes 0 ⟨0, errno, none⟩ := by
    refine ⟨rfl, ?_⟩
    cases closes <;> rfl
  have hplain : requestSteps 0 = (requestSteps 0).map (.leaving .plain) := rfl
  rw [netSteps, hplain, List.map_append, List.append_assoc, List.map_append]
  refine (follows_bridgeAdd pid).bind (fun _ => rfl) hstart ?_ ?_
  · intro s e r hr
    rw [if_pos hr]
    exact ⟨_, _, rfl, rfl, rfl, rfl⟩
  intro r t₁ hr h₁
  rw [if_neg hr]
  refine (follows_ifUp (bridgeName pid)).bind (fun _ => rfl) h₁ ?_ ?_
  · intro s e r hr
    rw [if_pos hr]
    exact stopped_failBridge o closes s e pid _ rfl
  intro r t₂ hr h₂
  rw [if_neg hr]
  refine (follows_setupTap _ _ _).bind (fun _ => rfl) h₂ ?_ ?_
  · intro s e r hr
    dsimp only
    rw [if_pos hr]
    exact stopped_failBridge o closes s e pid _ (if_pos hr).symm
  intro r t₃ hfd h₃
  dsimp only
  rw [if_neg hfd]
  refine (follows_routerNetSetup _ _ _ _).bind (fun _ => rfl) h₃ ?_ ?_
  · intro s e r hr
    rw [if_pos hr]
    exact stopped_failBridge o closes s e pid _ (if_neg hfd).symm
  intro r t₄ hr h₄
  rw [if_neg hr, ← List.append_nil ((listenerSteps _).map _)]
  refine Yields.bind (fun _ => rfl) (yields_exitListenerSetup _ _ _ h₄) ?_ ?_
  · intro s e r t' hr
    obtain ⟨hr, rfl⟩ := hr
    rw [if_pos hr]
    exact stopped_failBridge o closes s e pid _ (if_neg hfd).symm
  · intro hgood
    show ∀ a t, _ → _
    intro a t' heval
    rw [Prog.eval_bind] at heval
    obtain ⟨⟨r', t₅⟩, hlistener, heval⟩ := Option.bind_eq_some_iff.mp heval
    rw [if_neg (hgood r' t₅ hlistener)] at heval
    cases heval
    exact hfd

end Setup

end Turns

/-- **`net_setup` reports the cause of its failure exactly when the way out leaves it in `errno`.**
After a failure of `bridge_add` that is up to one `close`; after one of `if_up`, or one with the
tap of the VM, the cause has to be an `EBADF`; later it is up to every call of the way out. -/
theorem reports_iff (o : Turns) (closes : Bool) (pid : Nat) (routerVm : VmDir) (errno : Errno) :
    o.Reports closes pid routerVm errno ↔
      ∀ s e, o.trip netSteps = some (s, e) → o.errnoAt s e = o.causeAt closes s e := by
  have h := o.yields_netSetup closes pid routerVm errno
  rw [Turns.Yields] at h
  constructor
  · intro hreports s e htrip
    rw [htrip] at h
    obtain ⟨r, t, heval, hfd, hcause, herrno⟩ := h
    have hsame := hreports r t heval hfd
    rw [hcause, herrno] at hsame
    exact (Option.some.inj hsame).symm
  · intro hkept r t heval hfd
    cases htrip : o.trip netSteps with
    | none =>
      rw [htrip] at h
      exact absurd hfd (h r t heval)
    | some f =>
      obtain ⟨s, e⟩ := f
      rw [htrip] at h
      obtain ⟨r', t', heval', -, hcause, herrno⟩ := h
      cases heval'.symm.trans heval
      rw [hcause, herrno, hkept s e htrip]

/-- Everything succeeds but setting the bridge up, which needs a privilege. -/
def upRefused : Turns where
  fails n := if n = 5 then some EPERM else none
  fd _ := 3
  flags _ := 0
  index _ := 0
  pipe := (4, 5)
  child := false

/-- What is reported then is that a descriptor is bad. -/
theorem upRefused_misreported :
    ¬ upRefused.Reports false 1 [] 0 ∧ ¬ upRefused.Reports true 1 [] 0 := by
  have htrip : upRefused.trip netSteps = some (⟨5, 0, 1, .noTap⟩, EPERM) := by decide
  have misreported (closes : Bool) : ¬ upRefused.Reports closes 1 [] 0 := by
    intro hreports
    have h := upRefused.yields_netSetup closes 1 [] 0
    rw [Turns.Yields, htrip] at h
    obtain ⟨r, t, heval, hfd, hcause, herrno⟩ := h
    have hsame := hreports r t heval hfd
    rw [hcause, herrno] at hsame
    cases closes <;> exact absurd hsame (by decide)
  exact ⟨misreported false, misreported true⟩

end Spectrum.Net
