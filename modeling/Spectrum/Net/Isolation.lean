import Spectrum.Net.Effect
import Spectrum.Net.System

/-!
# Lifetimes that reuse a pid do not touch each other

The proof is the thread-modular one. Every program obeys `lockSpec` by itself
(`Net/Lock.lean`); the invariant `Inv` says what this means for the network: a process in the
phase `locked` has the bridge, no second process does, and nothing on the host is newer than its
lifetime. An exit listener that still has the lock therefore finds nothing of a newer lifetime
to damage, and one that has given it up closes its own descriptors and exits.
-/

set_option autoImplicit false

namespace Spectrum.Net

open Interact

variable {br : IfName}

/-! ## The invariant -/

/-- **A process in `locked` has the bridge, and there is nothing newer than its lifetime.** -/
structure Inv (br : IfName) (cur : Nat) (w : Host) (ph : Proc → Option Phase) : Prop where
  ours : ∀ {t x}, ph t = some x → t.Ours ∧ t.life ≤ cur
  owners : w.net.OwnersLe cur
  fresh : ∀ {t}, ph t = some .fresh → t = .vmm cur
  lock : ∀ {t}, ph t = some .locked → w.net.HasBridge br t.life ∧ w.net.OwnersLe t.life
  one : ∀ {t u}, ph t = some .locked → ph u = some .locked → t = u
  descs : w.net.DescsOk

namespace Inv

variable {cur : Nat} {w w' : Host} {ph : Proc → Option Phase} {t u : Proc} {x y : Phase}

/-- While one process has the lock, no other one has it or gets it. -/
theorem exclusive (hinv : Inv br cur w ph) (ht : ph t = some x)
    (h : Effect br t x y w.net w'.net) (hne : u ≠ t) (hu : ph u = some .locked) :
    x ≠ .locked ∧ y ≠ .locked := by
  have hx : x ≠ .locked := fun hx => hne (hinv.one hu (hx ▸ ht))
  refine ⟨hx, fun hy => ?_⟩
  subst hy
  obtain ⟨-, hfree, -⟩ := h.locks hx
  obtain ⟨⟨b, hb, hname, -⟩, -⟩ := hinv.lock hu
  exact NetState.name_ne hfree hb hname

theorem effect (hinv : Inv br cur w ph) (ht : ph t = some x)
    (h : Effect br t x y w.net w'.net) : Inv br cur w' (Function.update ph t (some y)) := by
  obtain ⟨hours, hlife⟩ := hinv.ours ht
  have hlock : x = .locked → w.net.HasBridge br t.life := fun hx => (hinv.lock (hx ▸ ht)).1
  have hother : ∀ {u : Proc} {z : Phase}, u ≠ t → Function.update ph t (some y) u = some z →
      ph u = some z := fun hne hu => by rwa [Function.update_of_ne hne] at hu
  have hself : ∀ {z : Phase}, Function.update ph t (some y) t = some z → y = z := fun hz => by
    simpa using hz
  refine ⟨fun {u z} hu => ?_, h.ownersLe hlife hinv.owners, fun {u} hu => ?_, fun {u} hu => ?_,
    fun {u v} hu hv => ?_, h.descsOk hinv.descs⟩
  · by_cases hne : u = t
    · exact hne ▸ ⟨hours, hlife⟩
    · exact hinv.ours (hother hne hu)
  · by_cases hne : u = t
    · subst hne
      obtain rfl := hself hu
      exact hinv.fresh (h.eq_fresh ▸ ht)
    · exact hinv.fresh (hother hne hu)
  · by_cases hne : u = t
    · subst hne
      obtain rfl := hself hu
      by_cases hx : x = .locked
      · subst hx
        exact ⟨h.hasBridge hours hinv.descs hlock (fun _ hy => by cases hy) (hlock rfl),
          h.ownersLe (Nat.le_refl _) (hinv.lock ht).2⟩
      · obtain ⟨rfl, -, hbr⟩ := h.locks hx
        obtain rfl := hinv.fresh ht
        exact ⟨hbr, h.ownersLe (Nat.le_refl _) hinv.owners⟩
    · -- Another process has the lock, so this one creates nothing and cannot unlock.
      have hu := hother hne hu
      obtain ⟨hx, hy⟩ := hinv.exclusive ht h hne hu
      obtain ⟨hsub, hdev⟩ := h.idle hx hy
      obtain ⟨hbr, hown⟩ := hinv.lock hu
      exact ⟨h.hasBridge hours hinv.descs hlock (fun hx' => absurd hx' hx) hbr,
        fun i hi => hown.1 i (hsub i hi), fun d hd => hown.2 d (hdev ▸ hd)⟩
  · by_cases hut : u = t <;> by_cases hvt : v = t
    · exact hut.trans hvt.symm
    · subst hut
      exact absurd (hself hu) (hinv.exclusive ht h hvt (hother hvt hv)).2
    · subst hvt
      exact absurd (hself hv) (hinv.exclusive ht h hut (hother hut hu)).2
    · exact hinv.one (hother hut hu) (hother hvt hv)

/-- A process that ends gives up its phase. -/
theorem erase (hinv : Inv br cur w ph) (t : Proc) : Inv br cur w (Function.update ph t none) := by
  have hother : ∀ {u : Proc} {z : Phase}, Function.update ph t none u = some z → ph u = some z := by
    intro u z hu
    by_cases hne : u = t
    · simp [hne] at hu
    · rwa [Function.update_of_ne hne] at hu
  exact ⟨fun hu => hinv.ours (hother hu), hinv.owners, fun hu => hinv.fresh (hother hu),
    fun hu => hinv.lock (hother hu), fun hu hv => hinv.one (hother hu) (hother hv), hinv.descs⟩

/-- The descriptors of a process are closed when it ends. -/
theorem exit (hinv : Inv br cur w ph) (hours : t.Ours) :
    Inv br cur (w.withNet (w.net.exitProc t)) ph := by
  have h : Effect br t .done .done w.net (w.withNet (w.net.exitProc t)).net :=
    .closed fun d hd => by simpa using hd
  obtain ⟨hsub, hdev⟩ := h.idle (by simp) (by simp)
  have hown : ∀ {n : Nat}, w.net.OwnersLe n → (w.net.exitProc t).OwnersLe n :=
    fun ho => ⟨fun i hi => ho.1 i (hsub i hi), fun d hd => ho.2 d (hdev ▸ hd)⟩
  exact ⟨hinv.ours, hown hinv.owners, hinv.fresh, fun hu => ⟨h.hasBridge hours hinv.descs
    (fun hx => by cases hx) (fun hx => by cases hx) (hinv.lock hu).1, hown (hinv.lock hu).2⟩,
    hinv.one, h.descsOk hinv.descs⟩

/-- The child of a fork takes the lock over. -/
theorem fork (hinv : Inv br cur w ph) (ht : ph t = some .locked) :
    Inv br cur (w.withNet (w.net.forkFds t (.listener t.life)))
      (Function.update (Function.update ph t (some .done)) (.listener t.life) (some .locked)) := by
  obtain ⟨hours, hlife⟩ := hinv.ours ht
  have hcase : ∀ {u : Proc} {z : Phase}, Function.update (Function.update ph t (some .done))
      (.listener t.life) (some .locked) u = some z →
      (u = .listener t.life ∧ z = .locked) ∨ (u = t ∧ z = .done) ∨ u ≠ t ∧ ph u = some z := by
    intro u z hu
    by_cases h1 : u = .listener t.life
    · simp only [h1, Function.update_self, Option.some.injEq] at hu
      exact Or.inl ⟨h1, hu.symm⟩
    · rw [Function.update_of_ne h1] at hu
      by_cases h2 : u = t
      · simp only [h2, Function.update_self, Option.some.injEq] at hu
        exact Or.inr (Or.inl ⟨h2, hu.symm⟩)
      · rw [Function.update_of_ne h2] at hu
        exact Or.inr (Or.inr ⟨h2, hu⟩)
  -- The child is the only process that has the lock now.
  have honly : ∀ {u : Proc}, Function.update (Function.update ph t (some .done))
      (.listener t.life) (some .locked) u = some .locked → u = .listener t.life := by
    intro u hu
    rcases hcase hu with ⟨rfl, -⟩ | ⟨-, hz⟩ | ⟨hne, hu⟩
    · rfl
    · cases hz
    · exact absurd (hinv.one hu ht) hne
  refine ⟨fun hu => ?_, hinv.owners, fun hu => ?_, fun hu => ?_, fun hu hv => ?_, ?_⟩
  · rcases hcase hu with ⟨rfl, -⟩ | ⟨rfl, -⟩ | ⟨-, hu⟩
    · exact ⟨trivial, hlife⟩
    · exact ⟨hours, hlife⟩
    · exact hinv.ours hu
  · rcases hcase hu with ⟨-, hz⟩ | ⟨-, hz⟩ | ⟨-, hu⟩
    · cases hz
    · cases hz
    · exact hinv.fresh hu
  · obtain rfl := honly hu
    have hlock := hinv.lock ht
    exact hlock
  · rw [honly hu, honly hv]
  · intro d hd hours' i hi ho
    rcases List.mem_append.mp hd with hd | hd
    · exact hinv.descs d hd hours' i hi ho
    · obtain ⟨d', hd', rfl⟩ := List.mem_map.mp hd
      obtain ⟨hmem, hproc⟩ := List.mem_filter.mp hd'
      have hproc : d'.proc = t := by simpa using hproc
      have := hinv.descs d' hmem (hproc ▸ hours) i hi ho
      rwa [hproc] at this

end Inv

theorem modular (br : IfName) (cur : Nat) :
    Modular kernel (lockSpec br) (fun _ _ => True) (Inv br cur) where
  resume := by
    intro β t c w w' ph x ch b _ hinv ht hpre h
    obtain ⟨y, hpost, heff⟩ := exec_effect hpre h
    exact ⟨y, hpost, hinv.effect ht heff⟩
  fork := by
    intro β t t' c w w' ph x ch b b' _ hinv ht hpre h
    have hfork := (exec_fork h).1
    cases c with
    | fork =>
      obtain rfl : x = .locked := hpre
      cases ch <;> cases h
      exact ⟨_, _, rfl, rfl, hinv.fork ht⟩
    | _ => cases hfork
  halt := by
    intro β t c w w' ph x ch _ hinv ht hpre h
    obtain ⟨-, rfl⟩ := exec_halt h
    exact (hinv.exit (hinv.ours ht).1).erase t

/-! ## Runs of the system -/

/-- The invariant of a system. A pid that is free belongs to no process. -/
structure System.Ok (br : IfName) (s : System) : Prop where
  good : s.pool.Good (lockSpec br) (fun _ _ => True) (Inv br s.cur)
  dead : s.alive = false → s.pool.thread (.vmm s.cur) = none

/-- A host before the first lifetime: nothing is owned, or held, by a process of one. -/
structure BeforeLifetimes (N : NetState) : Prop where
  owners : N.OwnersLe 0
  descs : ∀ d ∈ N.descs, ¬ d.proc.Ours

namespace System.Ok

theorem init {w : Host} (hw : BeforeLifetimes w.net) : (System.init w).Ok br where
  good := ⟨fun _ => none, ⟨nofun, hw.owners, nofun, nofun, nofun,
    fun d hd ho => absurd ho (hw.descs d hd)⟩, fun _ => trivial⟩
  dead := fun _ => rfl

theorem kill {s : System} (h : s.Ok br) : s.kill.Ok br := by
  obtain ⟨ph, hinv, hph⟩ := h.good
  have hexit : Inv br s.cur (s.pool.world.withNet (s.net.exitProc (.vmm s.cur))) ph :=
    hinv.exit trivial
  exact ⟨⟨_, hexit.erase _, hph.erase _⟩, fun _ => Function.update_self _ _ _⟩

theorem start {s : System} {pid : Nat} {vm : VmDir} (h : s.Ok (bridgeName pid))
    (hdead : s.alive = false) : (s.start pid vm).Ok (bridgeName pid) := by
  obtain ⟨ph, hinv, hph⟩ := h.good
  have hnone := hph.eq_none.mp (h.dead hdead)
  have hcase : ∀ {u : Proc} {z : Phase}, Function.update ph (.vmm (s.cur + 1)) (some .fresh) u =
      some z → (u = .vmm (s.cur + 1) ∧ z = .fresh) ∨ ph u = some z := by
    intro u z hu
    by_cases hne : u = .vmm (s.cur + 1)
    · simp only [hne, Function.update_self, Option.some.injEq] at hu
      exact Or.inl ⟨hne, hu.symm⟩
    · rw [Function.update_of_ne hne] at hu
      exact Or.inr hu
  have hlocked : ∀ {u : Proc}, Function.update ph (.vmm (s.cur + 1)) (some .fresh) u =
      some .locked → ph u = some .locked := fun hu =>
    (hcase hu).resolve_left fun hz => by cases hz.2
  refine ⟨⟨_, ⟨fun hu => ?_, ?_, fun hu => ?_, fun hu => hinv.lock (hlocked hu),
    fun hu hv => hinv.one (hlocked hu) (hlocked hv), hinv.descs⟩,
    hph.update (wp_netSetup_lock pid vm)⟩, fun h => by cases h⟩
  · rcases hcase hu with ⟨rfl, -⟩ | hu
    · exact ⟨trivial, Nat.le_refl _⟩
    · exact ⟨(hinv.ours hu).1, Nat.le_succ_of_le (hinv.ours hu).2⟩
  · exact ⟨fun i hi => Nat.le_succ_of_le (hinv.owners.1 i hi),
      fun d hd => Nat.le_succ_of_le (hinv.owners.2 d hd)⟩
  · -- The previous owner of the pid is gone, so nobody else is still at the beginning.
    rcases hcase hu with ⟨rfl, -⟩ | hu
    · rfl
    · rw [hinv.fresh hu, hnone] at hu
      cases hu

theorem next {s : System} {pid : Nat} {ev : Event} (h : s.Ok (bridgeName pid))
    (hev : ∀ q vm, ev = .spawn q vm → q = pid) : (s.next ev).Ok (bridgeName pid) := by
  cases ev with
  | step t ch =>
    refine ⟨(modular _ _).step h.good trivial, fun hd => Pool.step_thread (h.dead hd) ?_⟩
    intro β c w w' b b' he
    cases (exec_fork he).2.1
  | die =>
    simp only [System.next]
    split
    · exact h.kill
    · exact h
  | spawn q vm =>
    obtain rfl := hev q vm rfl
    simp only [System.next]
    split
    · exact h
    · rename_i hdead
      exact h.start (by simpa using hdead)

theorem run {s : System} {pid : Nat} {evs : List Event} (h : s.Ok (bridgeName pid))
    (hevs : ∀ q vm, .spawn q vm ∈ evs → q = pid) : (s.run evs).Ok (bridgeName pid) := by
  induction evs generalizing s with
  | nil => exact h
  | cons ev evs ih =>
    refine ih (h.next fun q vm hq => hevs q vm ?_)
      fun q vm hq => hevs q vm (List.mem_cons_of_mem _ hq)
    exact hq ▸ List.mem_cons_self

end System.Ok

/-- A step changes no interface and no device, or it is the allowed effect of a process that has
the lock if it needs it. -/
theorem System.Ok.step {s : System} (h : s.Ok br) (t : Proc) (ch : Option Errno) :
    ((s.next (.step t ch)).net.ifaces = s.net.ifaces ∧
      (s.next (.step t ch)).net.devices = s.net.devices) ∨
    ∃ x y, t.Ours ∧ s.net.DescsOk ∧
      (x = .locked → s.net.HasBridge br t.life ∧ s.net.OwnersLe t.life) ∧
      Effect br t x y s.net (s.next (.step t ch)).net := by
  obtain ⟨ph, hinv, hph⟩ := h.good
  rcases Pool.step_cases kernel s.pool t ch with hstay | ⟨p, q, o, w, hp, hq, he, hstep⟩
  · exact Or.inl (by simp [System.next, System.net, hstay])
  · obtain ⟨x, hx, hwp⟩ := hph.get hp
    obtain ⟨hpre, -⟩ := Prog.wp_ask hwp hq
    have hlock : x = .locked → s.net.HasBridge br t.life ∧ s.net.OwnersLe t.life :=
      fun hl => hinv.lock (hl ▸ hx)
    simp only [System.next, System.net, hstep]
    cases o with
    | resume b =>
      obtain ⟨y, -, heff⟩ := exec_effect hpre he
      exact Or.inr ⟨x, y, (hinv.ours hx).1, hinv.descs, hlock, heff⟩
    | fork b t' b' =>
      obtain ⟨-, -, rfl⟩ := exec_fork he
      exact Or.inl ⟨rfl, rfl⟩
    | halt =>
      obtain ⟨-, rfl⟩ := exec_halt he
      exact Or.inr
        ⟨x, x, (hinv.ours hx).1, hinv.descs, hlock, .closed fun d hd => by simpa using hd⟩

/-- **Lifetimes that reuse a pid are isolated from each other.** In every state that any
interleaving of any number of lifetimes with the same pid can reach, a step of the exit listener
of one lifetime leaves every interface and device of a newer one exactly as it is, and a step of
a `net_setup`, its rollback included, deletes no bridge of an older one. -/
theorem lifetimes_isolated {pid : Nat} {w : Host} {evs : List Event}
    (hw : BeforeLifetimes w.net) (hpid : ∀ q vm, .spawn q vm ∈ evs → q = pid) (g : Nat)
    (ch : Option Errno) :
    let s := (System.init w).run evs
    ((∀ i ∈ s.net.ifaces, g < i.owner → i ∈ (s.next (.step (.listener g) ch)).net.ifaces) ∧
      ∀ d ∈ s.net.devices, g < d.owner → d ∈ (s.next (.step (.listener g) ch)).net.devices) ∧
    ∀ b ∈ s.net.ifaces, b.kind = .bridge → b.owner < g →
      ∃ b' ∈ (s.next (.step (.vmm g) ch)).net.ifaces,
        b'.index = b.index ∧ b'.kind = .bridge ∧ b'.owner = b.owner := by
  intro s
  have hok : s.Ok (bridgeName pid) := (System.Ok.init hw).run hpid
  constructor
  · rcases hok.step (.listener g) ch with
      ⟨hi, hv⟩ | ⟨x, y, hours, hdescs, hlock, heff⟩
    · exact ⟨fun i h _ => hi ▸ h, fun d h _ => hv ▸ h⟩
    · by_cases hx : x = .locked
      · -- While the listener has the lock there is nothing newer.
        obtain ⟨hifaces, hdevices⟩ := (hlock hx).2
        exact ⟨fun i hi ho => absurd (hifaces i hi) (Nat.not_le.mpr ho),
          fun d hd ho => absurd (hdevices d hd) (Nat.not_le.mpr ho)⟩
      · obtain ⟨hkeep, hdev⟩ := heff.keeps hx hours hdescs
        exact ⟨fun i hi ho => hkeep i hi (Nat.ne_of_gt ho), fun d hd _ => hdev ▸ hd⟩
  · intro b hb hk ho
    rcases hok.step (.vmm g) ch with
      ⟨hi, -⟩ | ⟨x, y, hours, hdescs, hlock, heff⟩
    · exact ⟨b, hi ▸ hb, rfl, hk, rfl⟩
    · obtain ⟨b', hb', -, h⟩ := heff.survives hours hdescs (fun hx => (hlock hx).1) hb hk
        fun _ _ => Nat.ne_of_lt ho
      exact ⟨b', hb', h⟩

/-- Lifetime 1 has deleted its bridge and its listener is about to exit, lifetime 2 has made a
bridge of the same name, with another router. -/
def overlap : List Event :=
  .spawn 7 [114] :: List.replicate 32 (.step (.vmm 1) none) ++
    .die :: List.replicate 21 (.step (.listener 1) none) ++
    .spawn 7 [115] :: List.replicate 2 (.step (.vmm 2) none)

theorem lifetimes_isolated_overlap :
    let s := (System.init .boot).run overlap
    ∃ i ∈ s.net.ifaces, i.name = bridgeName 7 ∧ i.owner = 2 ∧
      i ∈ (s.next (.step (.listener 1) none)).net.ifaces := by
  intro s
  have hnew : ∃ i ∈ s.net.ifaces, i.name = bridgeName 7 ∧ i.owner = 2 := by decide +kernel
  obtain ⟨i, hi, hname, ho⟩ := hnew
  have hboot : BeforeLifetimes Host.boot.net := ⟨⟨nofun, nofun⟩, nofun⟩
  have hpid : ∀ q vm, .spawn q vm ∈ overlap → q = 7 := by
    intro q vm h
    simp only [overlap, List.cons_append, List.mem_cons, List.mem_append, List.mem_replicate,
      reduceCtorEq, and_false, false_or, or_false, Event.spawn.injEq] at h
    rcases h with h | h <;> exact h.1
  exact ⟨i, hi, hname, ho, (lifetimes_isolated hboot hpid 1 none).1.1 i hi (by omega)⟩

end Spectrum.Net
