import Spectrum.Interact.Play
import Spectrum.Vmm.Create

/-!
# Readiness

The process `start-vmm` leaves behind creates the VM, adds its network devices one by one, each
with a `ch-remote` of its own, and then writes the newline its supervisor waits for. Any of these
steps can fail, and `ch::create_vm` and `add_net` look at the outcome of a `ch-remote` in
different ways.

**Readiness means the VM is complete.** There is one plan, and whatever the outcomes are the
process follows it up to the first step that fails; the newline is the last step of it. What it
does is thereby a function of the outcomes (`follow`), and not only bounded by the plan.
-/

set_option autoImplicit false

namespace Spectrum.Vmm

open Interact

/-! ## Outcomes -/

/-- How the calls of the process turn out, by their position. -/
structure Outcomes where
  io : Nat → Option Errno
  wait : Nat → WaitStatus
  getppid : Nat → Pid
  kill : Nat → Option Errno

/-- The calls `create_vm_child_main` makes are answered; it does not make the others. -/
def Outcomes.script (o : Outcomes) : Script Call := fun n _ c =>
  match c with
  | .io _ => some (o.io n)
  | .wait => some (o.wait n)
  | .getppid => some (o.getppid n)
  | .kill _ _ => some (o.kill n)
  | _ => none

/-- A step on the way to the running VM. -/
inductive Task
  | io (op : IoOp)
  | wait
  deriving DecidableEq

def IoOp.isTask : IoOp → Bool
  | .spawn _ | .writeStdin _ | .writeReady _ => true
  | _ => false

/-- The step a call was, and whether it succeeded. Messages and signals are not steps. -/
def task? : Event Call → Option (Task × Bool)
  | ⟨.io op, answer⟩ => if op.isTask then some (.io op, answer = some none) else none
  | ⟨.wait, answer⟩ => some (.wait, answer = some (.exited 0))
  | _ => none

/-- The steps among the calls of a process. -/
def tasks (history : List (Event Call)) : List (Task × Bool) := history.filterMap task?

/-! ## The plan -/

section Plan

variable (env : Env) (vmDir : OsString) (config : VmConfig)

/-- `ch-remote create`, fed the configuration without its network devices. -/
def createTasks : List Task :=
  [.io (.spawn (command vmDir "create" ++ [os "--", os "-"])),
    .io (.writeStdin (env.json { config with net := [] })), .wait]

/-- `ch-remote add-net`. -/
def addTasks (net : NetConfig) : List Task :=
  [.io (.spawn (command vmDir "add-net" ++
    [os s!"fd={net.fd},id={net.id},mac={net.mac.display}"])), .wait]

def readyTask : Task := .io (.writeReady "\n")

/-- What makes the VM complete: `create`, and every device in the order of the list. -/
def completeTasks : List Task :=
  createTasks env vmDir config ++ config.net.flatMap (addTasks vmDir)

def plan : List Task := completeTasks env vmDir config ++ [readyTask]

end Plan

/-- These steps, all of them successful. -/
def succeeded (l : List Task) : List (Task × Bool) := l.map fun s => (s, true)

/-- The outcome of the step, if it is the `n`th call. -/
def Task.Succeeds (o : Outcomes) (n : Nat) : Task → Prop
  | .io _ => o.io n = none
  | .wait => o.wait n = .exited 0

instance (o : Outcomes) (n : Nat) (t : Task) : Decidable (t.Succeeds o n) :=
  match t with
  | .io _ => inferInstanceAs (Decidable (_ = _))
  | .wait => inferInstanceAs (Decidable (_ = _))

/-- The steps of `todo` up to the first one that fails, if the first of them is the `n`th call. -/
def follow (o : Outcomes) : Nat → List Task → List (Task × Bool)
  | _, [] => []
  | n, t :: todo => if t.Succeeds o n then (t, true) :: follow o (n + 1) todo else [(t, false)]

/-- What code that is to do `todo` has done when it returns: all of it, or a part of it up to the
step that failed. Up to there it makes no other calls. -/
inductive Did {ε : Type} (o : Outcomes) (n : Nat) (todo : List Task) :
    List (Event Call) × Option (Except ε Unit) → Prop
  | all (history : List (Event Call)) (h : tasks history = succeeded todo)
      (hlength : history.length = todo.length) (hfollow : follow o n todo = succeeded todo) :
      Did o n todo (history, some (.ok ()))
  | failed (history : List (Event Call)) (e : ε) (before after : List Task) (t : Task)
      (htodo : todo = before ++ t :: after)
      (h : tasks history = succeeded before ++ [(t, false)])
      (hfollow : follow o n todo = succeeded before ++ [(t, false)]) :
      Did o n todo (history, some (.error e))

variable {o : Outcomes} {n : Nat}

theorem script_io {op : IoOp} {r : Option Errno} (h : o.io n = r) :
    o.script n (.io op) = some r := by
  rw [← h]
  rfl

theorem script_wait {r : WaitStatus} (h : o.wait n = r) : o.script n .wait = some r := by
  rw [← h]
  rfl

theorem tasks_append (h h' : List (Event Call)) : tasks (h ++ h') = tasks h ++ tasks h' :=
  List.filterMap_append

theorem succeeded_append (l l' : List Task) : succeeded (l ++ l') = succeeded l ++ succeeded l' :=
  List.map_append

/-! ### Following -/

theorem follow_of_succeeds {t : Task} (h : t.Succeeds o n) (todo : List Task) :
    follow o n (t :: todo) = (t, true) :: follow o (n + 1) todo :=
  if_pos h

theorem follow_of_not_succeeds {t : Task} (h : ¬ t.Succeeds o n) (todo : List Task) :
    follow o n (t :: todo) = [(t, false)] :=
  if_neg h

/-- What is left is followed from the call after. -/
theorem follow_append_of_succeeded {l : List Task} (h : follow o n l = succeeded l)
    (l' : List Task) : follow o n (l ++ l') = succeeded l ++ follow o (n + l.length) l' := by
  induction l generalizing n with
  | nil => rfl
  | cons t l ih =>
    by_cases ht : t.Succeeds o n
    · rw [follow_of_succeeds ht] at h
      have hl : follow o (n + 1) l = succeeded l := (List.cons.inj h).2
      rw [List.cons_append, follow_of_succeeds ht, ih hl, List.length_cons,
        Nat.add_right_comm n 1 l.length]
      rfl
    · rw [follow_of_not_succeeds ht] at h
      have hfst := (List.cons.inj h).1
      simp at hfst

/-- Nothing follows a step that has failed. -/
theorem follow_append_of_failed {l before : List Task} {t : Task}
    (h : follow o n l = succeeded before ++ [(t, false)]) (l' : List Task) :
    follow o n (l ++ l') = succeeded before ++ [(t, false)] := by
  induction l generalizing n before with
  | nil =>
    have hlength := congrArg List.length h
    simp [follow] at hlength
  | cons t' l ih =>
    by_cases ht : t'.Succeeds o n
    · rw [follow_of_succeeds ht] at h
      cases before with
      | nil => simp [succeeded] at h
      | cons b before =>
        obtain ⟨hb, hrest⟩ := List.cons.inj h
        rw [List.cons_append, follow_of_succeeds ht, ih hrest]
        exact congrArg (· :: _) hb
    · rw [List.cons_append, follow_of_not_succeeds ht, ← h, follow_of_not_succeeds ht]

/-- The last step is taken exactly if those before it succeed. -/
theorem mem_follow_concat_iff {l : List Task} {last : Task} (hlast : last ∉ l) (n : Nat) :
    last ∈ (follow o n (l ++ [last])).map Prod.fst ↔
      ∀ k (t : Task), l[k]? = some t → t.Succeeds o (n + k) := by
  induction l generalizing n with
  | nil =>
    refine iff_of_true ?_ (by simp)
    by_cases ht : last.Succeeds o n <;> simp [follow, ht]
  | cons t l ih =>
    have hne : last ≠ t := fun he => hlast (he ▸ List.mem_cons_self)
    by_cases ht : t.Succeeds o n
    · rw [List.cons_append, follow_of_succeeds ht, List.map_cons, List.mem_cons,
        or_iff_right hne, ih (fun hl => hlast (List.mem_cons_of_mem _ hl))]
      constructor
      · intro h k t' hk
        cases k with
        | zero =>
          obtain rfl : t = t' := by simpa using hk
          exact ht
        | succ k =>
          rw [Nat.add_comm k 1, ← Nat.add_assoc]
          exact h k t' (by simpa using hk)
      · intro h k t' hk
        rw [Nat.add_assoc, Nat.add_comm 1 k]
        exact h (k + 1) t' (by simpa using hk)
    · refine iff_of_false ?_ fun h => ht (h 0 t rfl)
      rw [List.cons_append, follow_of_not_succeeds ht]
      simpa using hne

section Calls

variable {β ε : Type} {c : Call β} {k : β → Prog Call (Except ε Unit)} {b : β} {t : Task}
  {todo : List Task}

/-- What is on record for a step is its outcome. -/
theorem succeeds_iff {ok : Bool} (hanswer : o.script n c = some b)
    (htask : task? ⟨c, some b⟩ = some (t, ok)) : t.Succeeds o n ↔ ok = true := by
  cases c with
  | io op =>
    obtain rfl : o.io n = b := Option.some.inj hanswer
    obtain ⟨-, h⟩ := Option.ite_none_right_eq_some.mp htask
    cases h
    simp [Task.Succeeds]
  | wait =>
    obtain rfl : o.wait n = b := Option.some.inj hanswer
    cases htask
    simp [Task.Succeeds]
  | _ => cases htask

/-- A step that succeeded, and the rest. -/
theorem Did.call (hanswer : o.script n c = some b) (htask : task? ⟨c, some b⟩ = some (t, true))
    (hrest : Did o (n + 1) todo ((k b).play o.script (n + 1))) :
    Did o n (t :: todo) ((Prog.call c k).play o.script n) := by
  have ht : t.Succeeds o n := (succeeds_iff hanswer htask).mpr rfl
  rw [Prog.play_call hanswer]
  generalize (k b).play o.script (n + 1) = r at hrest
  cases hrest with
  | all history h hlength hfollow =>
    refine .all _ ?_ (congrArg (· + 1) hlength) ?_
    · simp only [tasks, List.filterMap_cons, htask] at h ⊢
      rw [h]
      rfl
    · rw [follow_of_succeeds ht, hfollow]
      rfl
  | failed history e before after t' htodo h hfollow =>
    refine .failed _ e (t :: before) after t' (by rw [htodo, List.cons_append]) ?_ ?_
    · simp only [tasks, List.filterMap_cons, htask] at h ⊢
      rw [h]
      rfl
    · rw [follow_of_succeeds ht, hfollow]
      rfl

/-- A step that failed, and an error returned for it. -/
theorem Did.stop {e : ε} (hanswer : o.script n c = some b)
    (htask : task? ⟨c, some b⟩ = some (t, false)) (hret : k b = .ret (.error e)) :
    Did o n (t :: todo) ((Prog.call c k).play o.script n) := by
  have ht : ¬ t.Succeeds o n := by
    rw [succeeds_iff hanswer htask]
    simp
  rw [Prog.play_call hanswer, hret]
  refine .failed _ e [] todo t rfl ?_ ?_
  · simp [tasks, htask, succeeded]
  · rw [follow_of_not_succeeds ht]
    rfl

end Calls

/-- One thing after the other, the second only if the first has succeeded. -/
theorem Did.bind {ε ε' : Type} {todo todo' : List Task} {p : Prog Call (Except ε Unit)}
    {f : Except ε Unit → Prog Call (Except ε' Unit)} {g : ε → ε'}
    (hp : Did o n todo (p.play o.script n)) (herror : ∀ e, f (.error e) = .ret (.error (g e)))
    (hok : ∀ n, Did o n todo' ((f (.ok ())).play o.script n)) :
    Did o n (todo ++ todo') ((p.bind f).play o.script n) := by
  rw [Prog.play_bind]
  generalize p.play o.script n = r at hp
  cases hp with
  | all history h hlength hfollow =>
    have hrest := hok (n + history.length)
    have happend := follow_append_of_succeeded hfollow todo'
    rw [← hlength] at happend
    simp only
    generalize (f (.ok ())).play o.script (n + history.length) = r at hrest
    cases hrest with
    | all history' h' hlength' hfollow' =>
      refine .all _ ?_ ?_ ?_
      · rw [tasks_append, h, h', succeeded_append]
      · rw [List.length_append, List.length_append, hlength, hlength']
      · rw [happend, hfollow', succeeded_append]
    | failed history' e before after t htodo h' hfollow' =>
      refine .failed _ e (todo ++ before) after t ?_ ?_ ?_
      · rw [htodo, List.append_assoc]
      · rw [tasks_append, h, h', succeeded_append, List.append_assoc]
      · rw [happend, hfollow', succeeded_append, List.append_assoc]
  | failed history e before after t htodo h hfollow =>
    simp only [herror, Prog.play_ret, List.append_nil]
    refine .failed _ (g e) before (after ++ todo') t ?_ h (follow_append_of_failed hfollow todo')
    rw [htodo, List.append_assoc, List.cons_append]

/-! ## `ch.rs` follows the plan -/

theorem did_addNet (vmDir : OsString) (net : NetConfig) (n : Nat) :
    Did o n (addTasks vmDir net) ((Ch.addNet vmDir net).play o.script n) := by
  cases hspawn : o.io n with
  | some e =>
    exact Did.stop (script_io hspawn) rfl rfl
  | none =>
    refine Did.call (script_io hspawn) rfl ?_
    match hwait : o.wait (n + 1) with
    | .exited 0 =>
      refine Did.call (script_wait hwait) rfl ?_
      exact .all [] rfl rfl rfl
    | .exited (code + 1) => exact Did.stop (script_wait hwait) rfl rfl
    | .signaled signal => exact Did.stop (script_wait hwait) rfl rfl
    | .error e => exact Did.stop (script_wait hwait) rfl rfl

theorem did_addNets (vmDir : OsString) (nets : List NetConfig) (n : Nat) :
    Did o n (nets.flatMap (addTasks vmDir)) ((Ch.addNets vmDir nets).play o.script n) := by
  induction nets generalizing n with
  | nil => exact .all [] rfl rfl rfl
  | cons net nets ih =>
    rw [List.flatMap_cons]
    exact (did_addNet vmDir net n).bind (fun e => rfl) ih

theorem did_createVm (env : Env) (vmDir : OsString) (config : VmConfig) (n : Nat) :
    Did o n (completeTasks env vmDir config) ((Ch.createVm env vmDir config).play o.script n) := by
  cases hspawn : o.io n with
  | some e => exact Did.stop (script_io hspawn) rfl rfl
  | none =>
    refine Did.call (script_io hspawn) rfl ?_
    cases hwrite : o.io (n + 1) with
    | some e => exact Did.stop (script_io hwrite) rfl rfl
    | none =>
      refine Did.call (script_io hwrite) rfl ?_
      match hwait : o.wait (n + 1 + 1) with
      | .exited 0 =>
        refine Did.call (script_wait hwait) rfl ?_
        exact did_addNets vmDir config.net _
      | .exited (code + 1) =>
        exact Did.stop (script_wait hwait) rfl rfl
      | .signaled signal => exact Did.stop (script_wait hwait) rfl rfl
      | .error e => exact Did.stop (script_wait hwait) rfl rfl

/-! ## The process -/

/-- A call that is no step. -/
def NoTask {β : Type} (c : Call β) : Prop := ∀ answer, task? ⟨c, answer⟩ = none

theorem tasks_of_only {α : Type} {p : Prog Call α} (hp : p.Only NoTask) (n : Nat) :
    tasks (p.play o.script n).1 = [] := by
  induction p generalizing n with
  | ret a => rfl
  | call c k ih =>
    cases h : o.script n c with
    | none =>
      rw [Prog.play_call_end h]
      simp [tasks, hp.1 none]
    | some b =>
      have hrest := ih b (hp.2 b) (n + 1)
      rw [Prog.play_call h]
      simp only [tasks, List.filterMap_cons, hp.1 (some b)] at hrest ⊢
      exact hrest
  | loop s c again k => rfl

theorem noTask_exitWith {α : Type} (status : Nat) : (exitWith status : Prog Call α).Only NoTask :=
  ⟨fun _ => rfl, fun b => b.elim⟩

theorem noTask_eprintln (line : String) : (eprintln line).Only NoTask := by
  refine ⟨fun _ => rfl, fun r => ?_⟩
  cases r with
  | none => trivial
  | some e => exact noTask_exitWith 101

/-- One last step. -/
theorem tasks_call {α β : Type} {c : Call β} {k : β → Prog Call α} {b : β} {x : Task × Bool}
    (hanswer : o.script n c = some b) (htask : task? ⟨c, some b⟩ = some x)
    (hrest : (k b).Only NoTask) : tasks ((Prog.call c k).play o.script n).1 = [x] := by
  have hnone := tasks_of_only (o := o) hrest (n + 1)
  rw [Prog.play_call hanswer]
  simp only [tasks, List.filterMap_cons, htask] at hnone ⊢
  rw [hnone]

/-- The process takes every step and then writes the newline, or as many as succeed and the one that
fails. -/
theorem tasks_childMain (env : Env) (vmDir : OsString) (config : VmConfig) (o : Outcomes) :
    let history := ((createVmChildMain env vmDir config : Prog Call Empty).play o.script 0).1
    let result := ((Ch.createVm env vmDir config).play o.script 0).2
    let todo := completeTasks env vmDir config
    (result = some (.ok ()) ∧ follow o 0 todo = succeeded todo ∧
      tasks history = succeeded todo ++ follow o (0 + todo.length) [readyTask]) ∨
    ∃ before t after, todo = before ++ t :: after ∧
      follow o 0 todo = succeeded before ++ [(t, false)] ∧
      tasks history = succeeded before ++ [(t, false)] := by
  intro history result todo
  have hcreate := did_createVm (o := o) env vmDir config 0
  simp only [history, result, createVmChildMain, Prog.bind_eq, Prog.play_bind]
  generalize (Ch.createVm env vmDir config).play o.script 0 = r at hcreate
  cases hcreate with
  | all created h hlength hfollow =>
    refine .inl ⟨rfl, hfollow, ?_⟩
    simp only [tasks_append, h, hlength, todo, List.append_cancel_left_eq]
    generalize 0 + (completeTasks env vmDir config).length = m
    cases hready : o.io m with
    | none =>
      have hone : follow o m [readyTask] = [(readyTask, true)] :=
        follow_of_succeeds (t := readyTask) hready []
      rw [hone]
      exact tasks_call (script_io hready) rfl (noTask_exitWith 0)
    | some e =>
      have hfails : ¬ readyTask.Succeeds o m := by simp [readyTask, Task.Succeeds, hready]
      rw [follow_of_not_succeeds hfails]
      refine tasks_call (script_io hready) rfl ?_
      exact (noTask_eprintln _).bind fun _ => noTask_exitWith 1
  | failed created e before after t htodo h hfollow =>
    refine .inr ⟨before, t, after, htodo, hfollow, ?_⟩
    simp only [tasks_append, h]
    refine (congrArg _ (tasks_of_only ?_ _)).trans (List.append_nil _)
    refine (noTask_eprintln _).bind fun _ => ⟨fun _ => rfl, fun _ => ⟨fun _ => rfl, fun r => ?_⟩⟩
    cases r with
    | none => exact noTask_exitWith 1
    | some e => exact (noTask_eprintln _).bind fun _ => noTask_exitWith 1

/-- **The process follows the plan**: what it does is what the outcomes say. -/
theorem tasks_childMain_eq (env : Env) (vmDir : OsString) (config : VmConfig) (o : Outcomes) :
    tasks ((createVmChildMain env vmDir config : Prog Call Empty).play o.script 0).1 =
      follow o 0 (plan env vmDir config) := by
  rcases tasks_childMain env vmDir config o with
    ⟨-, hfollow, hdone⟩ | ⟨before, t, after, -, hfollow, hdone⟩
  · rw [hdone, plan, follow_append_of_succeeded hfollow]
  · rw [hdone, plan, follow_append_of_failed hfollow]

theorem readyTask_not_mem (env : Env) (vmDir : OsString) (config : VmConfig) :
    readyTask ∉ completeTasks env vmDir config := by
  intro h
  simp [completeTasks, createTasks, addTasks, readyTask] at h

theorem map_fst_succeeded (l : List Task) : (succeeded l).map Prod.fst = l := by
  simp [succeeded, Function.comp_def]

/-- Only the last step can have failed. -/
theorem before_succeeded {l : List Task} {before after : List (Task × Bool)} {x y : Task × Bool}
    (h : succeeded l ++ [x] = before ++ y :: after) : ∀ z ∈ before, z.2 = true := by
  intro z hz
  have hlast := congrArg List.dropLast h
  rw [List.dropLast_concat, List.dropLast_append_of_ne_nil (by simp)] at hlast
  have hmem : z ∈ succeeded l := by
    rw [hlast]
    exact List.mem_append_left _ hz
  obtain ⟨t, -, rfl⟩ := List.mem_map.mp hmem
  rfl

theorem not_ready_of_failed {env : Env} {vmDir : OsString} {config : VmConfig}
    {before after : List Task} {t : Task}
    (htodo : completeTasks env vmDir config = before ++ t :: after) :
    readyTask ∉ (succeeded before ++ [(t, false)]).map Prod.fst := by
  intro hmem
  refine readyTask_not_mem env vmDir config ?_
  rw [List.map_append, map_fst_succeeded] at hmem
  have hsub : before ++ [t] ⊆ before ++ t :: after := by simp
  rw [htodo]
  exact hsub hmem

/-- A step that failed has not succeeded. -/
theorem not_succeeded_of_failed {before after : List Task} {t : Task} :
    ¬ succeeded (before ++ t :: after) <+: succeeded before ++ [(t, false)] := by
  intro h
  rw [succeeded_append, List.prefix_append_right_inj] at h
  have := (List.cons_prefix_cons.mp h).1
  simp at this

theorem follow_readyTask (o : Outcomes) (n : Nat) :
    ∃ written, follow o n [readyTask] = [(readyTask, written)] := by
  by_cases h : readyTask.Succeeds o n
  · exact ⟨true, follow_of_succeeds h []⟩
  · exact ⟨false, follow_of_not_succeeds h []⟩

/-- A VM with one network device. -/
def oneNet : VmConfig :=
  { console := ⟨"Null", none⟩, disks := [], fs := ⟨"", ""⟩, gpu := [], memory := ⟨0, true⟩
    net := [⟨5, "tap", #v[2, 0, 0, 0, 0, 1]⟩], payload := ⟨"", ""⟩, serial := ⟨"File", none⟩
    vsock := ⟨3, ""⟩ }

/-- Everything succeeds, but the `ch-remote` that is waited for in call `4` exits with `status`. -/
def addNetExits (status : Nat) : Outcomes :=
  { io := fun _ => none
    wait := fun n => .exited (if n = 4 then status else 0)
    getppid := fun _ => 1
    kill := fun _ => none }

end Spectrum.Vmm
