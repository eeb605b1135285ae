import Spectrum.Net.Lifetime

/-!
# Pids that are used again

Lifetimes follow one another while the router VM stays up. Each leaves an interface behind, since
cloud-hypervisor keeps the taps of removed devices open. **The names of a lifetime are free again
after it exactly if `_dead<pid>` was free before it**, so the second lifetime of a pid leaves
`router<pid>` taken, and a third one cannot be set up.
-/

set_option autoImplicit false

namespace Spectrum.Net

open Interact Bytes

/-- Lifetimes one after another, each with its pid and the system it leaves. They need not have the
same router. -/
inductive Lifetimes : System → List (Nat × System) → Prop
  | nil (s : System) : Lifetimes s []
  | cons {s s' : System} {vm : VmDir} {pid : Nat} {hist : List (Nat × System)} :
      Lifetime vm pid s s' → Lifetimes s' hist → Lifetimes s ((pid, s') :: hist)

/-- Nothing is left under the names that `net_setup` makes for the pid. -/
def Freed (pid : Nat) (N : NetState) : Prop :=
  N.find (routerName pid) = none ∧ ¬ ∃ b, N.find (bridgeName pid) = some b ∧ b.kind = .bridge

/-! ## One lifetime -/

/-- A pid is an `int`, so its `_dead` name is not cut short. -/
theorem deadName_injective {pid pid' : Nat} (h : pid < 2 ^ 31) (h' : pid' < 2 ^ 31)
    (he : deadName pid = deadName pid') : pid = pid' := by
  have hlen : ∀ n, n < 2 ^ 31 → deadName n = ascii ['_', 'd', 'e', 'a', 'd'] ++ decimal n := by
    intro n hn
    refine List.take_of_length_le ?_
    have hdigits : (Nat.toDigits 10 n).length ≤ 10 :=
      Nat.toDigits_length 10 n 10 (by omega) (by omega)
    simp [ascii, length_decimal, IFNAMSIZ]
    omega
  rw [hlen pid h, hlen pid' h'] at he
  exact decimal_injective (List.append_cancel_left he)

theorem Left.find {N₀ N : NetState} {pid : Nat} (h : Left N₀ pid N) (name : IfName) :
    N.find name = none ↔ N₀.find name = none ∧ leftName N₀ pid ≠ name := by
  obtain ⟨i, hi, hn⟩ := h.ifaces
  rw [NetState.find_eq_none, NetState.find_eq_none, hi, ← hn]
  simp [eq_comm]

theorem Left.freed_iff {N₀ N : NetState} {pid : Nat} (h : Left N₀ pid N) :
    Freed pid N ↔ N₀.find (deadName pid) = none := by
  have hbridge : N.find (bridgeName pid) = none := by
    refine (h.find _).mpr ⟨h.free.1, ?_⟩
    unfold leftName
    split
    · exact dead_ne_bridge pid pid
    · exact router_ne_bridge pid pid
  unfold Freed
  rw [h.find, leftName, hbridge]
  by_cases hd : N₀.find (deadName pid) = none
  · simp [hd, h.free.2, dead_ne_router]
  · simp [hd]

/-! ## Many lifetimes -/

/-- **The names are free after every lifetime exactly if no pid is used twice** and no `_dead`
name was taken to begin with. -/
theorem lifetimes_freed_iff {s : System} {hist : List (Nat × System)} (h : Lifetimes s hist)
    (hidle : s.Idle) (hpid : ∀ x ∈ hist, x.1 < 2 ^ 31) :
    (∀ x ∈ hist, Freed x.1 x.2.net) ↔
      (hist.map Prod.fst).Nodup ∧ ∀ x ∈ hist, s.net.find (deadName x.1) = none := by
  induction h with
  | nil => simp
  | @cons s s' vm pid hist hl _ ih =>
    obtain ⟨hleft, hidle'⟩ := hl.leaves hidle
    obtain ⟨hp, hps⟩ := List.forall_mem_cons.mp hpid
    rw [List.forall_mem_cons, List.forall_mem_cons, ih hidle' hps, hleft.freed_iff]
    by_cases hd : s.net.find (deadName pid) = none
    · -- The interface left behind takes `_dead<pid>`, and only this pid uses that name.
      have hfind : ∀ x ∈ hist, (s'.net.find (deadName x.1) = none ↔
          s.net.find (deadName x.1) = none ∧ x.1 ≠ pid) := by
        intro x hx
        rw [hleft.find, leftName, if_pos hd]
        refine and_congr_right fun _ => not_congr ⟨fun he => ?_, fun he => he ▸ rfl⟩
        exact (deadName_injective hp (hps x hx) he).symm
      rw [forall₂_congr hfind]
      simp only [List.map_cons, List.nodup_cons, List.mem_map, not_exists, not_and]
      grind
    · simp [hd]

/-- The system after one lifetime in which the processes run one after the other. -/
def System.lifetime (vm : VmDir) (pid : Nat) (s : System) : System :=
  (s.run (.spawn pid vm :: List.replicate 32 (.step (.vmm (s.cur + 1)) none))).run
    (.die :: List.replicate 22 (.step (.listener (s.cur + 1)) none))

theorem Lifetime.of_eval {s : System} {vm : VmDir} {pid : Nat}
    (hup : ((s.run
      (.spawn pid vm :: List.replicate 32 (.step (.vmm (s.cur + 1)) none))).pool.result?
      (.vmm (s.cur + 1))).any (fun r => r.fd ≠ -1) = true)
    (hdown : ((s.lifetime vm pid).pool.thread (.listener (s.cur + 1))).isNone = true) :
    Lifetime vm pid s (s.lifetime vm pid) := by
  obtain ⟨r, hr, hfd⟩ := (Option.any_eq_true _ _).mp hup
  exact ⟨_, _, r, fun ev h => ⟨_, List.eq_of_mem_replicate h⟩,
    fun ev h => ⟨_, List.eq_of_mem_replicate h⟩, hr, of_decide_eq_true hfd, rfl,
    Option.isNone_iff_eq_none.mp hdown⟩

theorem lifetimes_freed_two :
    let s₁ := (System.init .boot).lifetime [114] 7
    let s₂ := s₁.lifetime [115] 8
    Freed 7 s₁.net ∧ Freed 8 s₂.net := by
  intro s₁ s₂
  have hist : Lifetimes (System.init .boot) [(7, s₁), (8, s₂)] :=
    .cons (.of_eval (by decide +kernel) (by decide +kernel))
      (.cons (.of_eval (by decide +kernel) (by decide +kernel)) (.nil _))
  have hfreed := (lifetimes_freed_iff hist ⟨rfl, fun _ => rfl, nofun⟩ (by simp)).mpr
    ⟨by simp, fun _ _ => rfl⟩
  exact ⟨hfreed (7, s₁) (by simp only [List.mem_cons, true_or]),
    hfreed (8, s₂) (by simp only [List.mem_cons, true_or, or_true])⟩

/-- The second lifetime of pid 7 finds `_dead7` taken, so that `router7` stays; the third is
refused. -/
theorem pid_reused_router_left :
    let s₁ := (System.init .boot).lifetime [114] 7
    let s₂ := s₁.lifetime [114] 7
    Lifetimes (System.init .boot) [(7, s₁), (7, s₂)] ∧ ¬ Freed 7 s₂.net ∧
      ((s₂.run (.spawn 7 [114] :: List.replicate 60 (.step (.vmm 3) none))).pool.result?
        (.vmm 3)).map NetConfig.fd = some (-1) := by
  intro s₁ s₂
  refine ⟨.cons (.of_eval (by decide +kernel) (by decide +kernel))
    (.cons (.of_eval (by decide +kernel) (by decide +kernel)) (.nil _)), fun h => ?_,
    by decide +kernel⟩
  have hleft : (s₂.net.find (routerName 7)).isSome = true := by decide +kernel
  rw [h.1] at hleft
  cases hleft

end Spectrum.Net
