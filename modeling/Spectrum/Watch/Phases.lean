import Spectrum.Watch.Tables

/-!
# Who holds the pipe of the exit listener

Every process is in a phase, and the phase says which of its descriptors are the ends of the pipe of
the exit listener. **Once there is a listener, `start-vmm` holds the read end as long as it
lives**, and apart from it and the listener, only a process that has been forked since can hold it.

That is the invariant. One lemma for each thing a call can do to the tables shows that it is kept,
as long as every process makes the calls its phase allows (`modular`).
-/

set_option autoImplicit false

namespace Spectrum.Watch

open Interact

/-! ## Phases -/

/-- Where a process has got to, with the descriptors of the pipe of the listener that it is to
close, to keep or to poll: `start-vmm` before the pipe, with both ends of it, when `fork` has
failed, when it has given up, and with the read end; the listener with both ends, with the write
end, and cleaning up; any other process. -/
inductive Phase
  | early
  | piped (r v : Nat)
  | closing (r : Nat)
  | failed
  | keeper (r : Nat)
  | born (r v : Nat)
  | polling (v : Nat)
  | cleaning
  | other
  deriving Repr, DecidableEq

namespace Phase

/-- The process may start others. -/
def Free : Phase → Prop
  | .early | .failed | .keeper _ | .cleaning | .other => True
  | _ => False

/-- The phase after the close that is due. -/
def closed : Phase → Phase
  | .closing _ => .failed
  | .born _ v => .polling v
  | x => x

/-- The descriptor may be closed. -/
def MayClose (fd : Int) : Phase → Prop
  | .closing r | .born r _ => fd = r
  | .keeper r => fd ≠ r
  | .early | .failed | .cleaning | .other => True
  | .piped _ _ | .polling _ => False

end Phase

def sysPre {β : Type} (x : Phase) (c : Net.Sys β) : Prop :=
  match c with
  | .pipe => x = .early
  | .fork => ∃ r v, x = .piped r v
  | .close fd => x.MayClose fd
  | .poll fd => x = .polling fd
  | .exit _ => x = .cleaning ∨ ∃ v, x = .polling v
  | _ => x.Free

def sysPost {β : Type} (x : Phase) (c : Net.Sys β) (b : β) (y : Phase) : Prop :=
  match c with
  | .pipe => b = none ∧ y = x ∨ ∃ r v, b = some (r, v) ∧ readyFd < r ∧ r ≠ v ∧ y = .piped r v
  | .fork => ∃ r v, x = .piped r v ∧
      match b with
      | .error => y = .closing r
      | .child => y = .born r v
      | .parent => y = .keeper r
  | .close _ => y = x.closed
  | .poll _ => y = if b = none then .cleaning else x
  | _ => y = x

/-- Of the two sides of a `fork`, the parent stays what it is. -/
def forkPost (x : Phase) (b : Vmm.ForkResult) (y : Phase) : Prop :=
  match b with
  | .child => y = .other
  | _ => y = x

def callPre {β : Type} (x : Phase) (c : Vmm.Call β) : Prop :=
  x.Free ∧
    match c with
    | .close fd => x.MayClose fd
    | _ => True

def callPost {β : Type} (x : Phase) (c : Vmm.Call β) (b : β) (y : Phase) : Prop :=
  match c with
  | .pipe => y = x ∧ ∀ r v, b = .ok (r, v) → x.MayClose r ∧ x.MayClose v
  | .fork => forkPost x b y
  | _ => y = x

def launchPost {β : Type} (x : Phase) (c : Launch β) (b : β) (y : Phase) : Prop :=
  match c with
  | .fork => forkPost x b y
  | .exec => y = x
  | .foreign => y = x ∨ y = .other

def watchSpec : Spec Op Phase where
  pre x c :=
    match c with
    | .net c => sysPre x c
    | .vmm c => callPre x c
    | .launch _ => x.Free
  post x c b y :=
    match c with
    | .net c => sysPost x c b y
    | .vmm c => callPost x c b y
    | .launch c => launchPost x c b y

/-! ## The invariant -/

/-- The table has this pipe end at this descriptor only. -/
def OnlyAt (table : List Entry) (x : Vmm.PipeEnd) (fd : Nat) : Prop :=
  ∀ e ∈ table, e.obj = x → e.fd = fd

def Lacks (table : List Entry) (x : Vmm.PipeEnd) : Prop := ∀ e ∈ table, e.obj ≠ x

/-- What a descriptor refers to. -/
def Refers (table : List Entry) (fd : Nat) (x : Vmm.PipeEnd) : Prop :=
  (table.find? fun e => e.fd = fd).map Entry.obj = some x

section Fits

variable (pid : Pid) (watch : Option Nat) (listener : Option Pid) (begun : Bool)
  (table : List Entry) (p : Pid)

/-- What the phase of a process says about it. -/
def Fits : Phase → Prop
  | .early => p = pid ∧ listener = none ∧ watch = none
  | .piped r v => p = pid ∧ listener = none ∧ r ≠ v ∧ ∃ k, watch = some k ∧
      ⟨r, .read k, false⟩ ∈ table ∧ OnlyAt table (.read k) r ∧ Refers table v (.write k)
  | .closing r => p = pid ∧ listener = none ∧ ∃ k, watch = some k ∧ OnlyAt table (.read k) r
  | .failed => p = pid ∧ listener = none ∧ ∃ k, watch = some k ∧ Lacks table (.read k)
  | .keeper r => p = pid ∧ listener ≠ none ∧ ∃ k, watch = some k ∧ ⟨r, .read k, false⟩ ∈ table
  | .born r v => p ≠ pid ∧ listener = some p ∧ r ≠ v ∧ ∃ k, watch = some k ∧
      OnlyAt table (.read k) r ∧ Refers table v (.write k)
  | .polling v => p ≠ pid ∧ listener = some p ∧ ∃ k, watch = some k ∧
      Lacks table (.read k) ∧ Refers table v (.write k)
  | .cleaning => p ≠ pid ∧ listener = some p ∧ begun = true ∧ ∃ k, watch = some k ∧
      Lacks table (.read k)
  | .other => p ≠ pid ∧ listener ≠ some p

end Fits

theorem Fits.begin {pid p : Pid} {watch : Option Nat} {listener : Option Pid} {begun : Bool}
    {table : List Entry} {x : Phase} (h : Fits pid watch listener begun table p x) :
    Fits pid watch listener true table p x := by
  cases x with
  | cleaning => exact ⟨h.1, h.2.1, rfl, h.2.2.2⟩
  | _ => exact h

/-- The number of the pipe an end belongs to. -/
def pipeOf : Vmm.PipeEnd → Nat
  | .read k | .write k => k

structure Inv (pid : Pid) (w : World) (ph : Pid → Option Phase) : Prop where
  alive : ∀ p, w.alive p = true ↔ (ph p).isSome
  pids : ∀ p, w.alive p = true → p ∈ w.pids
  first : pid ∈ w.pids
  table : ∀ p, ∀ e ∈ w.table p, w.alive p = true ∧ pipeOf e.obj < w.pipes
  watch : ∀ k, w.watch = some k → k < w.pipes
  fits : ∀ p x, ph p = some x → Fits pid w.watch w.listener w.begun (w.table p) p x
  listener : ∀ p, w.listener = some p → p ∈ w.pids ∧ p ≠ pid
  since : w.since ≠ [] → w.listener ≠ none
  holders : ∀ k p, w.watch = some k → w.Holds p (.read k) →
    p = pid ∨ w.listener = some p ∨ p ∈ w.since
  begun : w.begun = true → w.alive pid = false

namespace Inv

variable {pid t : Pid} {w : World} {ph : Pid → Option Phase} {x y : Phase}

theorem init (pid : Pid) :
    Inv pid (.init pid) (Function.update (fun _ => none) pid (some .early)) := by
  refine ⟨?_, ?_, ?_, ?_, ?_, ?_, ?_, ?_, ?_, ?_⟩
  · intro p
    by_cases hp : p = pid
    · subst hp
      simp [World.init]
    · simp [World.init, hp]
  · intro p hp
    simpa [World.init] using hp
  · simp [World.init]
  · intro p e he
    cases he
  · intro k hk
    cases hk
  · intro p x hx
    by_cases hp : p = pid
    · subst hp
      rw [Function.update_self] at hx
      cases hx
      exact ⟨rfl, rfl, rfl⟩
    · rw [Function.update_of_ne hp] at hx
      cases hx
  · intro p hp
    cases hp
  · intro h
    exact absurd rfl h
  · intro k p hk
    cases hk
  · intro h
    cases h

/-- A process whose phase is known is alive. -/
theorem alive_of (h : Inv pid w ph) (hx : ph t = some x) : w.alive t = true := by
  rw [h.alive, hx]
  rfl

theorem alive_update (h : Inv pid w ph) (hx : ph t = some x) (p : Pid) :
    w.alive p = true ↔ (Function.update ph t (some y) p).isSome := by
  by_cases hp : p = t
  · subst hp
    simpa using h.alive_of hx
  · rw [Function.update_of_ne hp]
    exact h.alive p

/-- **The table of one process changes**: entries go, or ends of a new pipe come. -/
theorem setTable (h : Inv pid w ph) (hx : ph t = some x) {entries : List Entry} {pipes : Nat}
    (hpipes : w.pipes ≤ pipes)
    (hsub : ∀ e ∈ entries, e ∈ w.table t ∨ w.pipes ≤ pipeOf e.obj ∧ pipeOf e.obj < pipes)
    (hfits : Fits pid w.watch w.listener w.begun entries t y) :
    Inv pid { w.setTable t entries with pipes := pipes } (Function.update ph t (some y)) := by
  refine ⟨h.alive_update hx, h.pids, h.first, ?_, ?_, ?_, h.listener, h.since, ?_, h.begun⟩
  · intro p e he
    by_cases hp : p = t
    · subst hp
      simp only [World.setTable, Function.update_self] at he
      refine ⟨h.alive_of hx, ?_⟩
      obtain hold | hnew := hsub e he
      · exact Nat.lt_of_lt_of_le (h.table p e hold).2 hpipes
      · exact hnew.2
    · simp only [World.setTable, Function.update_of_ne hp] at he
      exact ⟨(h.table p e he).1, Nat.lt_of_lt_of_le (h.table p e he).2 hpipes⟩
  · intro k hk
    exact Nat.lt_of_lt_of_le (h.watch k hk) hpipes
  · intro p z hz
    by_cases hp : p = t
    · subst hp
      rw [Function.update_self] at hz
      cases hz
      simpa [World.setTable] using hfits
    · rw [Function.update_of_ne hp] at hz
      simpa [World.setTable, Function.update_of_ne hp] using h.fits p z hz
  · intro k p hk hholds
    refine h.holders k p hk ?_
    obtain ⟨e, he, hobj⟩ := hholds
    by_cases hp : p = t
    · subst hp
      simp only [World.setTable, Function.update_self] at he
      obtain hold | hnew := hsub e he
      · exact ⟨e, hold, hobj⟩
      · have hlt := h.watch k hk
        rw [hobj] at hnew
        exact absurd hnew.1 (Nat.not_le.mpr hlt)
    · simp only [World.setTable, Function.update_of_ne hp] at he
      exact ⟨e, he, hobj⟩

/-- Only the phase changes. -/
theorem setPhase (h : Inv pid w ph) (hx : ph t = some x)
    (hfits : Fits pid w.watch w.listener w.begun (w.table t) t y) :
    Inv pid w (Function.update ph t (some y)) := by
  have hsame : ({ w.setTable t (w.table t) with pipes := w.pipes } : World) = w := by
    simp [World.setTable]
  rw [← hsame]
  exact h.setTable hx (Nat.le_refl _) (fun e he => Or.inl he) hfits

theorem stay (h : Inv pid w ph) (hx : ph t = some x) :
    Inv pid w (Function.update ph t (some x)) :=
  h.setPhase hx (h.fits t x hx)

/-- A process ends. -/
theorem terminate (h : Inv pid w ph) (hx : ph t = some x) :
    Inv pid (w.terminate t) (Function.update ph t none) := by
  refine ⟨?_, ?_, h.first, ?_, h.watch, ?_, h.listener, h.since, ?_, ?_⟩
  · intro p
    by_cases hp : p = t
    · subst hp
      simp [World.terminate]
    · rw [Function.update_of_ne hp]
      simpa [World.terminate, Function.update_of_ne hp] using h.alive p
  · intro p hp
    refine h.pids p ?_
    by_cases hpt : p = t
    · rw [hpt]
      exact h.alive_of hx
    · simpa [World.terminate, Function.update_of_ne hpt] using hp
  · intro p e he
    by_cases hp : p = t
    · subst hp
      simp [World.terminate, World.setTable] at he
    · simp only [World.terminate, World.setTable, Function.update_of_ne hp] at he ⊢
      exact h.table p e he
  · intro p z hz
    by_cases hp : p = t
    · subst hp
      rw [Function.update_self] at hz
      cases hz
    · rw [Function.update_of_ne hp] at hz
      simpa [World.terminate, World.setTable, Function.update_of_ne hp] using h.fits p z hz
  · intro k p hk hholds
    refine h.holders k p hk ?_
    obtain ⟨e, he, hobj⟩ := hholds
    by_cases hp : p = t
    · subst hp
      simp [World.terminate, World.setTable] at he
    · simp only [World.terminate, World.setTable, Function.update_of_ne hp] at he
      exact ⟨e, he, hobj⟩
  · intro hbegun
    by_cases hp : pid = t
    · simp [World.terminate, hp]
    · simpa [World.terminate, Function.update_of_ne hp] using h.begun hbegun

/-- A process is forked. It gets the phase `z`, and the worlds differ in who has been forked. -/
theorem addProc (h : Inv pid w ph) (hx : ph t = some x) {p : Pid} (hp : p ∉ w.pids) {z : Phase}
    {listener : Option Pid} {since : List Pid}
    (hlistener : ∀ q, listener = some q → q = p ∨ w.listener = some q)
    (hsince : since ≠ [] → listener ≠ none)
    (hothers : ∀ q u, q ≠ t → q ≠ p → ph q = some u →
      Fits pid w.watch listener w.begun (w.table q) q u)
    (hparent : Fits pid w.watch listener w.begun (w.table t) t y)
    (hchild : Fits pid w.watch listener w.begun (w.table t) p z)
    (hholders : ∀ k q, w.watch = some k → (w.Holds q (.read k) ∨ q = p ∧ w.Holds t (.read k)) →
      q = pid ∨ listener = some q ∨ q ∈ since) :
    Inv pid { w.addProc t p with listener := listener, since := since }
      (Function.update (Function.update ph t (some y)) p (some z)) := by
  have hpt : t ≠ p := by
    intro heq
    exact hp (heq ▸ h.pids t (h.alive_of hx))
  have hfirst : pid ≠ p := by
    intro heq
    exact hp (heq ▸ h.first)
  refine ⟨?_, ?_, List.mem_cons_of_mem _ h.first, ?_, h.watch, ?_, ?_, hsince, ?_, ?_⟩
  · intro q
    by_cases hq : q = p
    · subst hq
      simp [World.addProc]
    · by_cases hqt : q = t
      · subst hqt
        simpa [World.addProc, Function.update_of_ne hq] using h.alive_of hx
      · simpa [World.addProc, Function.update_of_ne hq, Function.update_of_ne hqt] using h.alive q
  · intro q hq
    by_cases hqp : q = p
    · rw [hqp]
      exact List.mem_cons_self
    · refine List.mem_cons_of_mem _ (h.pids q ?_)
      simpa [World.addProc, Function.update_of_ne hqp] using hq
  · intro q e he
    by_cases hq : q = p
    · subst hq
      simp only [World.addProc, World.setTable, Function.update_self] at he ⊢
      exact ⟨trivial, (h.table t e he).2⟩
    · simp only [World.addProc, World.setTable, Function.update_of_ne hq] at he ⊢
      exact h.table q e he
  · intro q u hu
    by_cases hq : q = p
    · subst hq
      rw [Function.update_self] at hu
      cases hu
      simpa [World.addProc, World.setTable] using hchild
    · rw [Function.update_of_ne hq] at hu
      simp only [World.addProc, World.setTable, Function.update_of_ne hq]
      by_cases hqt : q = t
      · subst hqt
        rw [Function.update_self] at hu
        cases hu
        exact hparent
      · rw [Function.update_of_ne hqt] at hu
        exact hothers q u hqt hq hu
  · intro q hq
    obtain rfl | hold := hlistener q hq
    · exact ⟨List.mem_cons_self, hfirst.symm⟩
    · exact ⟨List.mem_cons_of_mem _ (h.listener q hold).1, (h.listener q hold).2⟩
  · intro k q hk hholds
    refine hholders k q hk ?_
    obtain ⟨e, he, hobj⟩ := hholds
    by_cases hq : q = p
    · subst hq
      simp only [World.addProc, World.setTable, Function.update_self] at he
      exact Or.inr ⟨rfl, e, he, hobj⟩
    · simp only [World.addProc, World.setTable, Function.update_of_ne hq] at he
      exact Or.inl ⟨e, he, hobj⟩
  · intro hbegun
    simpa [World.addProc, Function.update_of_ne hfirst] using h.begun hbegun

/-- A free process that holds the read end does so because there is a listener. -/
theorem listener_of_holds (h : Inv pid w ph) (hx : ph t = some x) (hfree : x.Free) {k : Nat}
    (hk : w.watch = some k) (hholds : w.Holds t (.read k)) : w.listener ≠ none := by
  have hfits := h.fits t x hx
  obtain ⟨e, he, hobj⟩ := hholds
  cases x with
  | early =>
    obtain ⟨-, -, hnone⟩ := hfits
    rw [hnone] at hk
    cases hk
  | failed =>
    obtain ⟨-, -, k', hk', hlacks⟩ := hfits
    cases hk.symm.trans hk'
    exact absurd hobj (hlacks e he)
  | keeper r => exact hfits.2.1
  | cleaning =>
    rw [hfits.2.1]
    exact Option.some_ne_none _
  | other =>
    obtain hpid | hl | hmem := h.holders k t hk ⟨e, he, hobj⟩
    · exact absurd hpid hfits.1
    · exact absurd hl hfits.2
    · exact h.since (List.ne_nil_of_mem hmem)
  | _ => exact hfree.elim

/-- **A free process forks**, and the child may have inherited the read end only if it counts. -/
theorem addChild (h : Inv pid w ph) (hx : ph t = some x) (hfree : x.Free) {p : Pid}
    (hp : p ∉ w.pids) :
    Inv pid (w.addChild t p) (Function.update (Function.update ph t (some x)) p (some .other)) := by
  have hnew : w.listener ≠ some p := fun hl => hp (h.listener p hl).1
  have hne : p ≠ pid := fun heq => hp (heq ▸ h.first)
  refine h.addProc hx hp (fun q hq => Or.inr hq) ?_ (fun q u _ _ hu => h.fits q u hu)
    (h.fits t x hx) ⟨hne, hnew⟩ ?_
  · intro hsince hnone
    have hnone : w.listener = none := hnone
    rw [hnone] at hsince
    exact h.since hsince hnone
  · intro k q hk hholds
    obtain hholds | ⟨rfl, hholds⟩ := hholds
    · obtain hpid | hl | hmem := h.holders k q hk hholds
      · exact Or.inl hpid
      · exact Or.inr (Or.inl hl)
      · refine Or.inr (Or.inr ?_)
        split
        · exact List.mem_cons_of_mem _ hmem
        · exact hmem
    · rw [if_pos (Option.isSome_iff_ne_none.mpr (h.listener_of_holds hx hfree hk hholds))]
      exact Or.inr (Or.inr List.mem_cons_self)

/-- As long as there is no listener, there are `start-vmm` and others. -/
theorem eq_other (h : Inv pid w ph) (hnone : w.listener = none) {q : Pid} (hq : q ≠ pid)
    (hx : ph q = some x) : x = .other := by
  have hfits := h.fits q x hx
  rw [hnone] at hfits
  cases x with
  | other => rfl
  | early => exact absurd hfits.1 hq
  | piped _ _ => exact absurd hfits.1 hq
  | closing _ => exact absurd hfits.1 hq
  | failed => exact absurd hfits.1 hq
  | keeper _ => exact absurd hfits.1 hq
  | born _ _ => cases hfits.2.1
  | polling _ => cases hfits.2.1
  | cleaning => cases hfits.2.1

/-- **Once there is a listener, `start-vmm` keeps the read end as long as it lives.** -/
theorem keeps (h : Inv pid w ph) (hl : w.listener ≠ none) (halive : w.alive pid = true) :
    ∃ k r, w.watch = some k ∧ ⟨r, .read k, false⟩ ∈ w.table pid := by
  obtain ⟨x, hx⟩ := Option.isSome_iff_exists.mp ((h.alive pid).mp halive)
  have hfits := h.fits pid x hx
  cases x with
  | keeper r =>
    obtain ⟨-, -, k, hk, hmem⟩ := hfits
    exact ⟨k, r, hk, hmem⟩
  | early => exact absurd hfits.2.1 hl
  | piped _ _ => exact absurd hfits.2.1 hl
  | closing _ => exact absurd hfits.2.1 hl
  | failed => exact absurd hfits.2.1 hl
  | born _ _ => exact absurd rfl hfits.1
  | polling _ => exact absurd rfl hfits.1
  | cleaning => exact absurd rfl hfits.1
  | other => exact absurd rfl hfits.1

/-- The pipe that `start-vmm` alone has is the one of the listener. -/
theorem setWatch (h : Inv pid w ph) (hx : ph t = some .early) {r v k : Nat} (hk : k < w.pipes)
    (hne : r ≠ v) (hmem : ⟨r, .read k, false⟩ ∈ w.table t) (honly : OnlyAt (w.table t) (.read k) r)
    (hrefers : Refers (w.table t) v (.write k)) (halone : ∀ p, p ≠ t → ¬ w.Holds p (.read k)) :
    Inv pid { w with watch := some k } (Function.update ph t (some (.piped r v))) := by
  obtain ⟨rfl, hnone, -⟩ := h.fits t _ hx
  refine ⟨h.alive_update hx, h.pids, h.first, h.table, ?_, ?_, h.listener, h.since, ?_, h.begun⟩
  · intro k' hk'
    cases hk'
    exact hk
  · intro p u hu
    by_cases hp : p = t
    · subst hp
      rw [Function.update_self] at hu
      cases hu
      exact ⟨rfl, hnone, hne, k, rfl, hmem, honly, hrefers⟩
    · rw [Function.update_of_ne hp] at hu
      cases h.eq_other hnone hp hu
      exact h.fits p _ hu
  · intro k' p hk' hholds
    cases hk'
    by_contra hnot
    exact halone p (fun hp => hnot (Or.inl hp)) hholds

/-- The number of a pipe that is made is new. -/
theorem lt_pipes (h : Inv pid w ph) {p : Pid} {e : Entry} (he : e ∈ w.table p) :
    pipeOf e.obj < w.pipes := (h.table p e he).2

theorem addPipe (h : Inv pid w ph) (hx : ph t = some x) {r v : Nat}
    (hfits : Fits pid w.watch w.listener w.begun
      (w.table t ++ [⟨r, .read w.pipes, false⟩, ⟨v, .write w.pipes, false⟩]) t x) :
    Inv pid (w.addPipe t r v) (Function.update ph t (some x)) := by
  refine h.setTable hx (Nat.le_succ _) ?_ hfits
  intro e he
  obtain hold | hnew := List.mem_append.mp he
  · exact Or.inl hold
  · refine Or.inr ?_
    obtain rfl | rfl := List.mem_pair.mp hnew
    · exact ⟨Nat.le_refl _, Nat.lt_succ_self _⟩
    · exact ⟨Nat.le_refl _, Nat.lt_succ_self _⟩

/-- `exit_listener_setup` makes its pipe. -/
theorem addWatch (h : Inv pid w ph) (hx : ph t = some .early) {r v : Nat} (hne : r ≠ v)
    (hv : w.FreeFd t v) :
    Inv pid (w.addWatch t r v) (Function.update ph t (some (.piped r v))) := by
  have htable : (w.addPipe t r v).table t =
      w.table t ++ [⟨r, .read w.pipes, false⟩, ⟨v, .write w.pipes, false⟩] :=
    Function.update_self _ _ _
  have hold : ∀ p, ∀ e ∈ w.table p, e.obj ≠ .read w.pipes := by
    intro p e he heq
    have hlt := h.lt_pipes he
    rw [heq] at hlt
    exact Nat.lt_irrefl _ hlt
  have hpipe : Inv pid (w.addPipe t r v) (Function.update ph t (some .early)) :=
    h.addPipe hx (h.fits t _ hx)
  have h' := hpipe.setWatch (r := r) (v := v) (k := w.pipes) (Function.update_self _ _ _)
    (Nat.lt_succ_self _) hne ?_ ?_ ?_ ?_
  · rw [Function.update_idem] at h'
    exact h'
  · rw [htable]
    simp
  · rw [htable]
    intro e he hobj
    obtain he | he := List.mem_append.mp he
    · exact absurd hobj (hold t e he)
    · obtain rfl | rfl := List.mem_pair.mp he
      · rfl
      · cases hobj
  · have hnone : (w.table t).find? (fun e => e.fd = v) = none := by
      simpa using hv.2
    simp [Refers, htable, List.find?_append, hnone, hne]
  · intro p hp hholds
    obtain ⟨e, he, hobj⟩ := hholds
    rw [World.addPipe, World.setTable] at he
    simp only [Function.update_of_ne hp] at he
    exact hold p e he hobj

/-- The listener is forked. -/
theorem addListener (h : Inv pid w ph) {r v : Nat} (hx : ph t = some (.piped r v)) {p : Pid}
    (hp : p ∉ w.pids) :
    Inv pid (w.addListener t p)
      (Function.update (Function.update ph t (some (.keeper r))) p (some (.born r v))) := by
  obtain ⟨rfl, hnone, hne, k, hk, hmem, honly, hrefers⟩ := h.fits t _ hx
  have hnew : p ≠ t := fun heq => hp (heq ▸ h.first)
  refine h.addProc hx hp ?_ (fun _ => Option.some_ne_none p) ?_
    ⟨rfl, Option.some_ne_none p, k, hk, hmem⟩ ⟨hnew, rfl, hne, k, hk, honly, hrefers⟩ ?_
  · intro q hq
    exact Or.inl (Option.some.inj hq).symm
  · intro q u hqt hqp hu
    cases h.eq_other hnone hqt hu
    exact ⟨hqt, fun heq => hqp (Option.some.inj heq).symm⟩
  · intro k' q hk' hholds
    obtain hholds | ⟨rfl, -⟩ := hholds
    · obtain hpid | hl | hmem' := h.holders k' q hk' hholds
      · exact Or.inl hpid
      · rw [hnone] at hl
        cases hl
      · exact absurd hnone (h.since (List.ne_nil_of_mem hmem'))
    · exact Or.inr (Or.inl rfl)

/-- The listener finds its pipe without readers. -/
theorem poll (h : Inv pid w ph) {v : Nat} (hx : ph t = some (.polling v)) {k : Nat}
    (hobj : w.obj t v = some (.write k)) (hgone : w.ReaderGone k) :
    Inv pid { w with begun := true } (Function.update ph t (some .cleaning)) := by
  obtain ⟨hne, hl, k', hk, hlacks, hrefers⟩ := h.fits t _ hx
  have hkk : k' = k := by
    cases hrefers.symm.trans hobj
    rfl
  subst hkk
  have hdead : w.alive pid = false := by
    by_contra halive
    obtain ⟨k, r, hk', hmem⟩ :=
      h.keeps (hl ▸ Option.some_ne_none t) (Bool.not_eq_false _ |>.mp halive)
    cases hk.symm.trans hk'
    exact hgone pid h.first ⟨_, hmem, rfl⟩
  have h' : Inv pid { w with begun := true } ph :=
    { h with fits := fun p x hp => (h.fits p x hp).begin, begun := fun _ => hdead }
  exact h'.setPhase hx ⟨hne, hl, rfl, k', hk, hlacks⟩

end Inv

/-! ## One call -/

section Closing

variable {pid p : Pid} {watch : Option Nat} {listener : Option Pid} {begun : Bool}
  {table : List Entry} {x : Phase}

theorem Lacks.filter {o : Vmm.PipeEnd} (h : Lacks table o) (f : Entry → Bool) :
    Lacks (table.filter f) o := fun e he => h e (List.mem_of_mem_filter he)

theorem OnlyAt.lacks {o : Vmm.PipeEnd} {fd : Nat} (h : OnlyAt table o fd) :
    Lacks (table.filter fun e => (e.fd : Int) ≠ fd) o := by
  intro e he hobj
  obtain ⟨hmem, hne⟩ := List.mem_filter.mp he
  rw [h e hmem hobj] at hne
  simp at hne

theorem Refers.close {o : Vmm.PipeEnd} {fd r : Nat} (h : Refers table fd o) (hne : r ≠ fd) :
    Refers (table.filter fun e => (e.fd : Int) ≠ r) fd o := by
  unfold Refers at *
  rw [List.find?_filter, ← h]
  congr 2
  funext e
  by_cases he : e.fd = fd
  · simp [he, hne.symm]
  · simp [he]

/-- Entries of a free process go, but not the one it is to keep. -/
theorem Fits.filter (h : Fits pid watch listener begun table p x) (hfree : x.Free)
    {f : Entry → Bool} (hkeep : ∀ r k, x = .keeper r → f ⟨r, .read k, false⟩ = true) :
    Fits pid watch listener begun (table.filter f) p x := by
  cases x with
  | early => exact h
  | failed =>
    obtain ⟨hp, hl, k, hk, hlacks⟩ := h
    exact ⟨hp, hl, k, hk, hlacks.filter f⟩
  | keeper r =>
    obtain ⟨hp, hl, k, hk, hmem⟩ := h
    exact ⟨hp, hl, k, hk, List.mem_filter.mpr ⟨hmem, hkeep r k rfl⟩⟩
  | cleaning =>
    obtain ⟨hp, hl, hbegun, k, hk, hlacks⟩ := h
    exact ⟨hp, hl, hbegun, k, hk, hlacks.filter f⟩
  | other => exact h
  | _ => exact hfree.elim

theorem Fits.close (h : Fits pid watch listener begun table p x) {fd : Int} (hmay : x.MayClose fd) :
    Fits pid watch listener begun (table.filter fun e => (e.fd : Int) ≠ fd) p x.closed := by
  cases x with
  | closing r =>
    obtain rfl : fd = r := hmay
    obtain ⟨hp, hl, k, hk, honly⟩ := h
    exact ⟨hp, hl, k, hk, honly.lacks⟩
  | born r v =>
    obtain rfl : fd = r := hmay
    obtain ⟨hp, hl, hne, k, hk, honly, hrefers⟩ := h
    exact ⟨hp, hl, k, hk, honly.lacks, hrefers.close hne⟩
  | keeper r =>
    refine h.filter trivial ?_
    intro r' k heq
    cases heq
    simpa using Ne.symm hmay
  | early => exact h.filter trivial fun _ _ heq => by cases heq
  | failed => exact h.filter trivial fun _ _ heq => by cases heq
  | cleaning => exact h.filter trivial fun _ _ heq => by cases heq
  | other => exact h.filter trivial fun _ _ heq => by cases heq
  | piped r v => exact hmay.elim
  | polling v => exact hmay.elim

/-- The ends of another pipe come. -/
theorem Fits.append (h : Fits pid watch listener begun table p x) (hfree : x.Free)
    {more : List Entry} (hnew : ∀ k, watch = some k → Lacks more (.read k)) :
    Fits pid watch listener begun (table ++ more) p x := by
  have happend : ∀ {k}, watch = some k → Lacks table (.read k) →
      Lacks (table ++ more) (.read k) := by
    intro k hk hlacks e he
    obtain he | he := List.mem_append.mp he
    · exact hlacks e he
    · exact hnew k hk e he
  cases x with
  | early => exact h
  | failed =>
    obtain ⟨hp, hl, k, hk, hlacks⟩ := h
    exact ⟨hp, hl, k, hk, happend hk hlacks⟩
  | keeper r =>
    obtain ⟨hp, hl, k, hk, hmem⟩ := h
    exact ⟨hp, hl, k, hk, List.mem_append_left _ hmem⟩
  | cleaning =>
    obtain ⟨hp, hl, hbegun, k, hk, hlacks⟩ := h
    exact ⟨hp, hl, hbegun, k, hk, happend hk hlacks⟩
  | other => exact h
  | _ => exact hfree.elim

theorem Phase.Free.closed_eq (h : x.Free) : x.closed = x := by
  cases x with
  | closing r => exact h.elim
  | born r v => exact h.elim
  | _ => rfl

end Closing

namespace Inv

variable {pid t : Pid} {w w' : World} {ph : Pid → Option Phase} {x : Phase}

theorem closeFd (h : Inv pid w ph) (hx : ph t = some x) {fd : Int} (hmay : x.MayClose fd) :
    Inv pid (w.closeFd t fd) (Function.update ph t (some x.closed)) :=
  h.setTable hx (Nat.le_refl _) (fun _ he => Or.inl (List.mem_of_mem_filter he))
    ((h.fits t x hx).close hmay)

theorem execute (h : Inv pid w ph) (hx : ph t = some x) (hfree : x.Free) :
    Inv pid (w.execute t) (Function.update ph t (some x)) :=
  h.setTable hx (Nat.le_refl _) (fun _ he => Or.inl (List.mem_of_mem_filter he))
    ((h.fits t x hx).filter hfree fun _ _ _ => rfl)

/-- A free process makes a pipe. -/
theorem addPipe_free (h : Inv pid w ph) (hx : ph t = some x) (hfree : x.Free) {r v : Nat} :
    Inv pid (w.addPipe t r v) (Function.update ph t (some x)) := by
  refine h.addPipe hx ((h.fits t x hx).append hfree ?_)
  intro k hk e he hobj
  have hlt := h.watch k hk
  obtain rfl | rfl := List.mem_pair.mp he
  · cases hobj
    exact Nat.lt_irrefl _ hlt
  · cases hobj

/-- A new descriptor is not the one that is to be kept. -/
theorem mayClose_of_free (h : Inv pid w ph) (hx : ph t = some x) (hfree : x.Free) {fd : Nat}
    (hfd : w.FreeFd t fd) : x.MayClose fd := by
  cases x with
  | keeper r =>
    obtain ⟨-, -, k, -, hmem⟩ := h.fits t _ hx
    intro heq
    exact hfd.2 _ hmem (Int.ofNat.inj heq).symm
  | early | failed | cleaning | other => trivial
  | _ => exact hfree.elim

theorem sysQuiet (h : Inv pid w ph) (hx : ph t = some x) {β : Type} {c : Net.Sys β} {b : β}
    (hpre : sysPre x c) (hquiet : SysQuiet c b) :
    ∃ y, sysPost x c b y ∧ Inv pid w (Function.update ph t (some y)) := by
  cases c with
  | pipe => exact ⟨x, Or.inl ⟨hquiet, rfl⟩, h.stay hx⟩
  | fork =>
    obtain ⟨r, v, rfl⟩ := hpre
    obtain rfl : b = .error := hquiet
    obtain ⟨hp, hl, -, k, hk, -, honly, -⟩ := h.fits t _ hx
    exact ⟨.closing r, ⟨r, v, rfl, rfl⟩, h.setPhase hx ⟨hp, hl, k, hk, honly⟩⟩
  | poll fd => exact ⟨x, (if_neg hquiet).symm, h.stay hx⟩
  | close fd => exact hquiet.elim
  | exit status => exact b.elim
  | _ => exact ⟨x, rfl, h.stay hx⟩

theorem callQuiet (h : Inv pid w ph) (hx : ph t = some x) {β : Type} {c : Vmm.Call β} {b : β}
    (hquiet : CallQuiet c b) :
    ∃ y, callPost x c b y ∧ Inv pid w (Function.update ph t (some y)) := by
  cases c with
  | pipe =>
    obtain ⟨e, rfl⟩ := hquiet
    exact ⟨x, ⟨rfl, fun r v heq => by cases heq⟩, h.stay hx⟩
  | fork =>
    obtain ⟨e, rfl⟩ := hquiet
    exact ⟨x, rfl, h.stay hx⟩
  | close fd => exact hquiet.elim
  | exit status => exact b.elim
  | _ => exact ⟨x, rfl, h.stay hx⟩

theorem launchQuiet (h : Inv pid w ph) (hx : ph t = some x) {β : Type} {c : Launch β} {b : β}
    (hquiet : LaunchQuiet c b) :
    ∃ y, launchPost x c b y ∧ Inv pid w (Function.update ph t (some y)) := by
  cases c with
  | fork =>
    obtain ⟨e, rfl⟩ := hquiet
    exact ⟨x, rfl, h.stay hx⟩
  | exec => exact ⟨x, rfl, h.stay hx⟩
  | foreign => exact ⟨x, Or.inl rfl, h.stay hx⟩

theorem mayClose_of_ne (h : Inv pid w ph) (hx : ph t = some x) (hfree : x.Free) (hne : t ≠ pid)
    (fd : Int) : x.MayClose fd := by
  have hfits := h.fits t x hx
  cases x with
  | keeper r => exact absurd hfits.1 hne
  | early | failed | cleaning | other => trivial
  | _ => exact hfree.elim

theorem resume (h : Inv pid w ph) (hx : ph t = some x) {β : Type} {c : Op β} {b : β}
    (hpre : watchSpec.pre x c) (hstep : Step pid t w c (.resume b) w') :
    ∃ y, watchSpec.post x c b y ∧ Inv pid w' (Function.update ph t (some y)) := by
  cases hstep with
  | sys hquiet => exact h.sysQuiet hx hpre hquiet
  | call hquiet => exact h.callQuiet hx hquiet
  | launch hquiet => exact h.launchQuiet hx hquiet
  | watch hne hr hv =>
    cases hpre
    exact ⟨_, Or.inr ⟨_, _, rfl, hr.1, hne, rfl⟩, h.addWatch hx hne hv⟩
  | sysClose => exact ⟨_, rfl, h.closeFd hx hpre⟩
  | poll hobj hgone =>
    cases hpre
    exact ⟨_, rfl, h.poll hx hobj hgone⟩
  | pipe hne hr hv =>
    refine ⟨x, ⟨rfl, ?_⟩, h.addPipe_free hx hpre.1⟩
    intro r v heq
    cases heq
    exact ⟨h.mayClose_of_free hx hpre.1 hr, h.mayClose_of_free hx hpre.1 hv⟩
  | callClose =>
    refine ⟨x, rfl, ?_⟩
    have h' := h.closeFd hx hpre.2
    rw [hpre.1.closed_eq] at h'
    exact h'
  | exec => exact ⟨x, rfl, h.execute hx hpre⟩
  | foreignClose hne =>
    rename_i fd
    refine ⟨x, Or.inl rfl, ?_⟩
    have h' := h.closeFd hx (h.mayClose_of_ne hx hpre hne fd)
    rw [Phase.Free.closed_eq hpre] at h'
    exact h'
  | foreignExec => exact ⟨x, Or.inl rfl, h.execute hx hpre⟩

theorem fork (h : Inv pid w ph) (hx : ph t = some x) {β : Type} {c : Op β} {b b' : β} {p : Pid}
    (hpre : watchSpec.pre x c) (hstep : Step pid t w c (.fork b p b') w') :
    ∃ y z, watchSpec.post x c b y ∧ watchSpec.post x c b' z ∧
      Inv pid w' (Function.update (Function.update ph t (some y)) p (some z)) := by
  cases hstep with
  | listener hp =>
    obtain ⟨r, v, rfl⟩ := hpre
    exact ⟨_, _, ⟨r, v, rfl, rfl⟩, ⟨r, v, rfl, rfl⟩, h.addListener hx hp⟩
  | fork hp => exact ⟨x, .other, rfl, rfl, h.addChild hx hpre.1 hp⟩
  | launchFork hp => exact ⟨x, .other, rfl, rfl, h.addChild hx hpre hp⟩
  | foreignFork hp => exact ⟨x, .other, Or.inl rfl, Or.inr rfl, h.addChild hx hpre hp⟩

end Inv

/-- The invariant and the contract fit together, for every choice of the environment. -/
theorem modular (pid : Pid) : Modular (kernel pid) watchSpec (fun _ _ => True) (Inv pid) where
  resume _ h hx hpre hexec := h.resume hx hpre (exec_step (h.alive_of hx) hexec)
  fork _ h hx hpre hexec := h.fork hx hpre (exec_step (h.alive_of hx) hexec)
  halt _ h hx _ hexec := by
    cases exec_step (h.alive_of hx) hexec
    exact h.terminate hx

end Spectrum.Watch
