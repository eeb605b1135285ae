import Spectrum.Scripts.RunSpectrumVm

/-!
# What `run-spectrum-vm` leaves behind

**Nothing is left behind, whatever happens when**: once the main process is dead, in any state of
the other two, virtiofsd ends and the directory is removed (`directory_removed`). The exit listener
must have been started for that, must not have been killed by a SIGINT that it did not ignore, and
must be able to do its work; and what the VMM has started must have ended, if it has the read end of
the pipe. Nothing is removed while virtiofsd runs.
-/

set_option autoImplicit false

namespace Spectrum.Scripts.RunSpectrumVm

open Schedule

variable {limit : Nat} {inherited : Nat → Bool} {s s' : State}

/-! ## How much is left to do -/

def Main.remaining : Main → Nat
  | .mkdtemp => setupCalls.length + enterCalls.length + 21
  | .pipe => setupCalls.length + enterCalls.length + 20
  | .forkListener => setupCalls.length + enterCalls.length + 19
  | .closeWrite => setupCalls.length + enterCalls.length + 13
  | .setup rest => rest.length + enterCalls.length + 12
  | .openNull => enterCalls.length + 4
  | .dup2 => enterCalls.length + 3
  | .closeNull => enterCalls.length + 2
  | .enter rest => rest.length + 1
  | .vmm | .dead => 0

def Listener.remaining : Listener → Nat
  | .close => 5
  | .sigint => 4
  | .sigterm => 3
  | .poll => 2
  | .rm => 1
  | .none | .done | .failed | .killed => 0

def Virtiofsd.remaining : Virtiofsd → Nat
  | .prctl => 7
  | .getppid => 6
  | .sigemptyset => 5
  | .sigaddset => 4
  | .sigprocmask => 3
  | .execv => 2
  | .running => 1
  | .none | .dead => 0

def State.remaining (s : State) : Nat :=
  s.main.remaining + s.listener.remaining + s.virtiofsd.remaining

theorem Main.remaining_pos {m : Main} (h : ¬ (m = .vmm ∨ m = .dead)) : 0 < m.remaining := by
  cases m
  case vmm => exact absurd (.inl rfl) h
  case dead => exact absurd (.inr rfl) h
  all_goals exact Nat.succ_pos _

theorem remaining_mainCall (h : s.mainCall limit = some s') : s'.remaining < s.remaining := by
  unfold State.mainCall at h
  split at h
  case h_2 hm =>
    obtain ⟨r, hr, h⟩ := Option.bind_eq_some_iff.mp h
    obtain ⟨w, hw, rfl⟩ := Option.map_eq_some_iff.mp h
    simp only [State.remaining, hm, Main.remaining]
    omega
  case h_5 c rest hm =>
    obtain ⟨t, ht, rfl⟩ := Option.map_eq_some_iff.mp h
    simp only [State.remaining, hm, Main.remaining, List.length_cons]
    omega
  case h_7 hm =>
    obtain ⟨n, hn, rfl⟩ := Option.map_eq_some_iff.mp h
    simp only [State.remaining, hm, Main.remaining]
    omega
  case h_10 c rest hm =>
    obtain ⟨t, ht, rfl⟩ := Option.map_eq_some_iff.mp h
    simp only [State.remaining, hm, Main.remaining, List.length_cons]
    omega
  case h_12 => cases h
  case h_13 => cases h
  all_goals
    rename_i hm
    cases h
    simp only [State.remaining, hm, Main.remaining, Listener.remaining, Virtiofsd.remaining,
      List.length_nil]
    omega

theorem remaining_listenerStep {ok : Bool} (h : s.listenerStep limit ok = some s') :
    s'.remaining < s.remaining := by
  unfold State.listenerStep at h
  split at h
  case h_4 hl =>
    split at h
    · cases h
      simp only [State.remaining, hl, Listener.remaining]
      omega
    · obtain ⟨_, hs⟩ := Option.ite_none_right_eq_some.mp h
      cases hs
      simp [State.remaining, hl, Listener.remaining]
  case h_5 hl =>
    cases h
    split <;> simp only [State.remaining, hl, Listener.remaining] <;> omega
  case h_6 => cases h
  case h_7 => cases h
  case h_8 => cases h
  case h_9 => cases h
  all_goals
    rename_i hl
    cases h
    simp only [State.remaining, hl, Listener.remaining]
    omega

theorem remaining_virtiofsdStep {ok : Bool} (h : s.virtiofsdStep ok = some s') :
    s'.remaining < s.remaining := by
  -- whatever a call answers, the next thing is less than the call
  have hless : ∀ {v : Virtiofsd}, 0 < s.virtiofsd.remaining →
      v.remaining < s.virtiofsd.remaining →
      ∀ b : Bool, { s with virtiofsd := if b then v else .dead }.remaining < s.remaining := by
    intro v hpos hv b
    cases b
    · simpa [State.remaining, Virtiofsd.remaining] using hpos
    · simpa [State.remaining] using hv
  unfold State.virtiofsdStep at h
  split at h
  case isTrue hterm =>
    cases h
    have hpos : 0 < s.virtiofsd.remaining := by
      cases hv : s.virtiofsd
      case none => exact absurd hv hterm.1.1
      case dead => exact absurd hv hterm.1.2
      all_goals exact Nat.succ_pos _
    simpa [State.remaining, Virtiofsd.remaining] using hpos
  case isFalse =>
    split at h
    case h_2 hv =>
      cases h
      simp only [State.remaining, hv]
      split <;> simp only [Virtiofsd.remaining] <;> omega
    case h_7 => cases h
    case h_8 => cases h
    case h_9 => cases h
    all_goals
      rename_i hv
      cases h
      exact hless (by simp [hv, Virtiofsd.remaining]) (by simp [hv, Virtiofsd.remaining]) ok

theorem remaining_inner {a : Inner} (h : inner limit s a = some s') :
    s'.remaining < s.remaining := by
  cases a with
  | main ok =>
    obtain ⟨hm, hs⟩ := Option.ite_none_left_eq_some.mp h
    have hdie : s.die.remaining < s.remaining := by
      have hpos := Main.remaining_pos hm
      show 0 + s.listener.remaining + s.virtiofsd.remaining < s.remaining
      rw [State.remaining]
      omega
    cases hs
    cases ok with
    | false => exact hdie
    | true =>
      rw [if_pos rfl]
      cases hcall : s.mainCall limit with
      | none => exact hdie
      | some t => exact remaining_mainCall hcall
  | listener => exact remaining_listenerStep h
  | virtiofsd ok => exact remaining_virtiofsdStep h

/-! ## When the main process is dead -/

/-- What the VMM has started has ended, or does not have the read end of the pipe. -/
def State.Released (limit : Nat) (s : State) : Prop := s.others = 0 ∨ ¬ Reads limit s.table

instance (limit : Nat) (s : State) : Decidable (s.Released limit) :=
  inferInstanceAs (Decidable (_ ∨ _))

/-- The main process is dead, and the listener is on guard. -/
structure State.Over (s : State) : Prop where
  dead : s.main = .dead
  guarded : s.listener.Lives

theorem State.Over.listenerStep (h : s.Over) (hstep : s.listenerStep limit true = some s') :
    s'.Over ∧ s'.table = s.table ∧ s'.others = s.others := by
  unfold State.listenerStep at hstep
  split at hstep
  case h_4 =>
    obtain ⟨_, hs⟩ := Option.ite_none_right_eq_some.mp hstep
    cases hs
    exact ⟨⟨h.dead, by simp [Listener.Lives]⟩, rfl, rfl⟩
  case h_6 => cases hstep
  case h_7 => cases hstep
  case h_8 => cases hstep
  case h_9 => cases hstep
  all_goals
    cases hstep
    exact ⟨⟨h.dead, by simp [Listener.Lives]⟩, rfl, rfl⟩

/-- Only the listener and virtiofsd go on. -/
theorem State.Over.inner {a : Inner} (h : s.Over)
    (hstep : RunSpectrumVm.inner limit s a = some s') :
    s'.Over ∧ s'.table = s.table ∧ s'.others = s.others := by
  cases a with
  | main ok =>
    obtain ⟨hm, _⟩ := Option.ite_none_left_eq_some.mp hstep
    exact absurd (.inr h.dead) hm
  | listener => exact h.listenerStep hstep
  | virtiofsd ok =>
    change s.virtiofsdStep ok = some s' at hstep
    unfold State.virtiofsdStep at hstep
    split at hstep
    case isTrue =>
      cases hstep
      exact ⟨⟨h.dead, h.guarded⟩, rfl, rfl⟩
    case isFalse =>
      split at hstep
      case h_7 => cases hstep
      case h_8 => cases hstep
      case h_9 => cases hstep
      all_goals
        cases hstep
        exact ⟨⟨h.dead, h.guarded⟩, rfl, rfl⟩

/-- **virtiofsd does not wait for anything** once its parent is dead. -/
theorem Inv.not_alive_of_stuck (h : Inv limit inherited s) (hover : s.Over)
    (hstuck : Stuck (RunSpectrumVm.inner limit) s) : ¬ s.virtiofsd.Alive := by
  intro halive
  have hnone : s.virtiofsdStep true = none := hstuck (.virtiofsd true)
  unfold State.virtiofsdStep at hnone
  split at hnone
  · cases hnone
  · rename_i hterm
    rcases h.orphan hover.dead halive with ht | hp | hg
    · exact hterm ⟨halive, ht⟩
    · simp [hp] at hnone
    · simp [hg] at hnone

/-- **The listener waits for readers only.** -/
theorem Inv.done_of_stuck (h : Inv limit inherited s) (hover : s.Over)
    (hfree : s.Released limit) (hstuck : Stuck (RunSpectrumVm.inner limit) s) : s.dir = false := by
  have halive := h.not_alive_of_stuck hover hstuck
  have hnone : s.listenerStep limit true = none := hstuck .listener
  refine h.gone ?_
  cases hl : s.listener
  case none => exact absurd hl hover.guarded.1
  case failed => exact absurd hl hover.guarded.2.1
  case killed => exact absurd hl hover.guarded.2.2
  case done => rfl
  case poll =>
    have hunread : s.Unread limit :=
      ⟨fun hm => absurd hover.dead hm, by simp [hl], fun hv => absurd hv halive,
        fun hne => hfree.resolve_left hne⟩
    simp [State.listenerStep, hl, hunread] at hnone
  all_goals simp [State.listenerStep, hl] at hnone

/-- **Nothing is left behind, and nothing is removed too early.** In every interleaving: when the
exit listener removes the directory, virtiofsd has ended, and if there was something at descriptor
3 when the program was started, so have the VMM and everything it has started. Once the main process
is dead, whatever it died of and wherever the others were, virtiofsd ends. The directory is removed
then if the exit listener is there to do it and its calls succeed (it was started, and neither was
killed by SIGINT before it ignored it nor failed in `poll`), and if nothing that the VMM has started
still has the read end of the pipe. -/
theorem directory_removed {sched : List (Inner ⊕ Outer)}
    (hrun : run (RunSpectrumVm.step limit) (start inherited) sched = some s) :
    (s.listener.Removing → ¬ s.virtiofsd.Alive ∧
      (inherited 3 = true → s.main = .dead ∧ s.others = 0)) ∧
    (s.main = .dead → s.listener.Lives →
      ∀ rest s', run (RunSpectrumVm.inner limit) s rest = some s' →
        rest.length ≤ s.remaining ∧
          (Stuck (RunSpectrumVm.inner limit) s' →
            ¬ s'.virtiofsd.Alive ∧ (s.Released limit → s'.dir = false))) := by
  have h : Inv limit inherited s := run_invariant (fun h hstep => h.step hstep) inv_start hrun
  refine ⟨fun hl => ?_, fun hd hlives rest s' hrest => ⟨?_, fun hstuck => ?_⟩⟩
  · have hu := h.removing hl
    refine ⟨fun halive => hu.2.2.1 halive (h.serving halive), fun h3 => ?_⟩
    have hlate : 6 < s.main.stage := by
      by_contra hs
      exact h.not_removing (by omega) hl
    have hnot : ∀ hs : 2 ≤ s.main.stage ∧ s.main.stage ≤ 9 ∨ s.others ≠ 0,
        Reads limit s.table := fun hs => (h.kept h3 hs).1.reads
    constructor
    · by_contra hm
      refine hu.1 hm (hnot (.inl ⟨by omega, ?_⟩))
      cases hmain : s.main <;> simp_all [Main.stage]
    · by_contra hne
      exact hu.2.2.2 hne (hnot (.inr hne))
  · exact length_le_of_run (I := fun _ => True) State.remaining (fun _ _ => trivial)
      (fun _ hstep => remaining_inner hstep) trivial hrest
  · obtain ⟨hinv, hover, htable, hothers⟩ : Inv limit inherited s' ∧ s'.Over ∧
        s'.table = s.table ∧ s'.others = s.others := by
      refine run_invariant (I := fun t => Inv limit inherited t ∧ t.Over ∧
        t.table = s.table ∧ t.others = s.others) ?_ ⟨h, ⟨hd, hlives⟩, rfl, rfl⟩ hrest
      rintro t a t' ⟨hI, hO, ht, ho⟩ hstep
      obtain ⟨hO', ht', ho'⟩ := hO.inner hstep
      exact ⟨hI.inner hstep, hO', ht'.trans ht, ho'.trans ho⟩
    refine ⟨hinv.not_alive_of_stuck hover hstuck, fun hfree => hinv.done_of_stuck hover ?_ hstuck⟩
    rwa [State.Released, htable, hothers]

/-- The main process is killed when virtiofsd has just been forked. Its SIGTERM has not been asked
for by then, so virtiofsd finds out by itself. -/
theorem directory_removed_early :
    ∃ s, run (RunSpectrumVm.step 8) (start fun i => decide (i < 3))
        ((List.replicate 20 (.main true)).map .inl ++
          [.inr .stop] ++ List.replicate 3 (.inl .listener)) = some s ∧
      s.virtiofsd = .prctl ∧ s.dir = true ∧
      ∀ rest s', run (RunSpectrumVm.inner 8) s rest = some s' →
        rest.length ≤ s.remaining ∧
          (Stuck (RunSpectrumVm.inner 8) s' → ¬ s'.virtiofsd.Alive ∧ s'.dir = false) := by
  have hover : ∀ {sched s},
      run (RunSpectrumVm.step 8) (start fun i => decide (i < 3)) sched = some s →
      s.main = .dead ∧ s.listener = .poll ∧ s.others = 0 ∧ s.virtiofsd = .prctl ∧ s.dir = true →
      run (RunSpectrumVm.step 8) (start fun i => decide (i < 3)) sched = some s ∧
        s.virtiofsd = .prctl ∧ s.dir = true ∧
        ∀ rest s', run (RunSpectrumVm.inner 8) s rest = some s' →
          rest.length ≤ s.remaining ∧
            (Stuck (RunSpectrumVm.inner 8) s' → ¬ s'.virtiofsd.Alive ∧ s'.dir = false) := by
    rintro sched s hrun ⟨hdead, hl, hothers, hv, hdir⟩
    refine ⟨hrun, hv, hdir, fun rest s' hrest => ?_⟩
    obtain ⟨hlen, hend⟩ :=
      (directory_removed hrun).2 hdead (by simp [Listener.Lives, hl]) rest s' hrest
    exact ⟨hlen, fun hstuck => ⟨(hend hstuck).1, (hend hstuck).2 (.inl hothers)⟩⟩
  exact ⟨_, hover rfl (by decide)⟩

/-- The listener could not have SIGINT ignored, and a SIGINT after the main process has ended kills
it: the directory stays. -/
example : (run (RunSpectrumVm.step 8) (start fun i => decide (i < 3))
      ((List.replicate 4 (.main true)).map .inl ++ [.inl .listener, .inr .listenerFail,
        .inl .listener, .inr .stop, .inr .sigint])).map
    (fun s => (s.main, s.listener, s.dir)) = some (.dead, .killed, true) := by
  decide

/-- With nothing at descriptor 3 from the start, the read end of the pipe is there, and then
`/dev/null`. So the listener waits for virtiofsd only, and if that crashes, the VM loses its
directory. -/
example : (run (RunSpectrumVm.step 8) (start fun i => decide (i < 3))
      ((List.replicate 31 (.main true)).map .inl ++ List.replicate 3 (.inl .listener) ++
        [.inr .virtiofsdStop, .inl .listener, .inl .listener])).map
    (fun s => (s.main, s.dir)) = some (.vmm, false) := by
  decide

end Spectrum.Scripts.RunSpectrumVm
