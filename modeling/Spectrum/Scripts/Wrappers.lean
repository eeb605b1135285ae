import Spectrum.Interact.Shell

/-!
# The VMM wrappers

`run-qemu.sh` and `run-cloud-hypervisor.sh` rewrite the arguments they are called with, and then
execute the VMM with them. Both do it in place: an argument is taken from the front of the
positional parameters, what becomes of it is put at the end, and a variable counts what has been
put there. What has been rewritten and what has not is in the same list.

**The loops do what walking along the arguments once would do.** Options that take a value are
consumed together with it, except for `-device`, the value of which is looked at again.
-/

set_option autoImplicit false

namespace Spectrum.Scripts

open Shell Bytes

def comma : UInt8 := 44

def space : UInt8 := 32

def aarch64 : Word := ascii ['a', 'a', 'r', 'c', 'h', '6', '4']

def x8664 : Word := ascii ['x', '8', '6', '_', '6', '4']

/-- `console=ttyS0${x:+ $x}`, for `append` and `cmdline`. -/
def withConsole (x : Option Word) : Word :=
  ascii "console=ttyS0".toList ++ alternative x (space :: x.getD [])

/-! ## `run-qemu.sh` -/

namespace RunQemu

def optAppend : Word := ascii ['-', 'a', 'p', 'p', 'e', 'n', 'd']

def optDevice : Word := ascii ['-', 'd', 'e', 'v', 'i', 'c', 'e']

def optMachine : Word := ascii ['-', 'm', 'a', 'c', 'h', 'i', 'n', 'e']

def optKernel : Word := ascii ['-', 'k', 'e', 'r', 'n', 'e', 'l']

def virtualizationOn : Word := ascii "virtualization=on".toList

/-- The variables of the script. Those that it does not assign to may come with the environment. -/
structure Vars where
  accel : Word
  append : Option Word
  iommu : Option Word
  machine : Option Word
  kernel : Option Word
  deriving Repr, DecidableEq

/-- The assignments before the loop; `arch` is `$ARCH`. -/
def prelude (arch : Word) (env : Vars) : Vars :=
  let v := { env with accel := ascii ['k', 'v', 'm'] }
  if arch = aarch64 then
    { v with machine := some (ascii "virt,gic-version=3,iommu=smmuv3".toList) }
  else if arch = x8664 then
    { v with
      append := some (withConsole v.append)
      iommu := some (ascii "intel-iommu,intremap=on".toList)
      machine := some (ascii "q35,kernel-irqchip=split".toList) }
  else v

/-- `${append:+$append }`, which every `-append` gets. -/
def appendDefault (v : Vars) : Word := alternative v.append (v.append.getD [] ++ [space])

/-- The `for` loop of `-device`, which ends after the first of the options. -/
def deviceLoop (opts : List Word) (v : Vars) : Vars :=
  match opts with
  | [] => v
  | opt :: _ =>
    if (ascii ['-', 'i', 'o', 'm', 'm', 'u']).isSuffixOf opt then { v with iommu := none } else v

/-- One turn of the `for` loop of `-machine`, with `$arg`. -/
def machineOpt (arch : Word) (s : Word × Vars) (opt : Word) : Word × Vars :=
  if opt = virtualizationOn then
    if arch = aarch64 then
      (s.1 ++ alternative (some s.1) [comma] ++ opt, { s.2 with accel := ascii ['t', 'c', 'g'] })
    else s
  else (s.1 ++ alternative (some s.1) [comma] ++ opt, s.2)

/-- The body of the `while` loop. -/
def body (glob : Word → List Word) (arch : Word) (s : Args Vars) : Except Fault (Args Vars) := do
  let arg ← first s.params
  let params ← shift s.params
  if arg = optAppend then
    let value ← first params
    let params ← shift (params ++ [optAppend, appendDefault s.vars ++ value])
    return ⟨params, s.i + 2, s.vars⟩
  else if arg = optDevice then
    let value ← first params
    return ⟨params ++ [arg], s.i + 1, deviceLoop (expand glob comma value) s.vars⟩
  else if arg = optMachine then
    let params := params ++ [arg]
    let value ← first params
    let (arg, vars) := (expand glob comma value).foldl (machineOpt arch) ([], s.vars)
    let params ← shift params
    return ⟨params ++ [arg], s.i + 1 + 1, vars⟩
  else return ⟨params ++ [arg], s.i + 1, s.vars⟩

/-- The `while` loop, from the first argument on. -/
def loop (glob : Word → List Word) (arch : Word) (fuel : Nat) (v : Vars) (args : List Word) :
    Option (Except Fault (Args Vars)) :=
  whileDo Args.more (body glob arch) fuel ⟨args, 0, v⟩

/-- The loop after it: the default is not passed on where there is an `-append`. -/
def lookAt (v : Vars) (arg : Word) : Vars :=
  if arg = optAppend then { v with append := some [] }
  else if arg = optKernel then { v with kernel := some (ascii ['1']) }
  else v

/-- The arguments QEMU is executed with. -/
def execArgs (v : Vars) (params : List Word) : Except Fault (List Word) :=
  let v := params.foldl lookAt v
  match v.machine with
  | none => .error .parameterNotSet
  | some machine =>
    .ok ([ascii "-accel".toList, v.accel, optMachine, machine] ++
      (if v.kernel.getD [] ≠ [] ∧ v.append.getD [] ≠ [] then [optAppend, v.append.getD []]
        else []) ++
      (if v.iommu.getD [] ≠ [] then [optDevice, v.iommu.getD []] else []) ++ params)

/-- The script: what QEMU is executed with, if the loop ends. -/
def run (glob : Word → List Word) (arch : Word) (fuel : Nat) (env : Vars) (args : List Word) :
    Option (Except Fault (List Word)) :=
  (loop glob arch fuel (prelude arch env) args).map fun r =>
    r.bind fun s => execArgs s.vars s.params

/-- What the value of `-machine` becomes: its items without `virtualization=on`. -/
def machineValue (arch v : Word) : Word :=
  if arch = aarch64 then v
  else [comma].intercalate ((v.splitOn comma).filter (· ≠ virtualizationOn))

/-- **The arguments, walked along once.** -/
def rewrite (arch dflt : Word) : List Word → List Word
  | a :: v :: rest =>
    if a = optAppend then optAppend :: (dflt ++ v) :: rewrite arch dflt rest
    else if a = optMachine then optMachine :: machineValue arch v :: rewrite arch dflt rest
    else a :: rewrite arch dflt (v :: rest)
  | [a] => [a]
  | [] => []

/-- A comma-separated list of items that are not empty and no patterns. -/
def IsItems (v : Word) : Prop :=
  ∃ items : List Word, v = [comma].intercalate items ∧
    ∀ item ∈ items, item ≠ [] ∧ comma ∉ item ∧ Plain item

/-- Arguments in which `-append`, `-device` and `-machine` are followed by something, and what
follows `-machine` are items. -/
inductive Regular : List Word → Prop
  | nil : Regular []
  | append {v : Word} {rest : List Word} (h : Regular rest) : Regular (optAppend :: v :: rest)
  | device {v : Word} {rest : List Word} (h : Regular (v :: rest)) :
      Regular (optDevice :: v :: rest)
  | machine {v : Word} {rest : List Word} (hitems : IsItems v) (h : Regular rest) :
      Regular (optMachine :: v :: rest)
  | other {a : Word} {rest : List Word} (ha : a ≠ optAppend ∧ a ≠ optDevice ∧ a ≠ optMachine)
      (h : Regular rest) : Regular (a :: rest)

/-- None of the three is the last argument, and items follow wherever there is a `-machine`. -/
structure Complete (args : List Word) : Prop where
  last : ∀ a, args.getLast? = some a → a ≠ optAppend ∧ a ≠ optDevice ∧ a ≠ optMachine
  items : ∀ front v rest, args = front ++ optMachine :: v :: rest → IsItems v

theorem regular_of_complete {args : List Word} (h : Complete args) : Regular args := by
  obtain ⟨hlast, hitems⟩ := h
  induction args using args_induction with
  | h args ih =>
    -- Both conditions hold of what follows, too.
    have hrest : ∀ front rest, args = front ++ rest → front ≠ [] → Regular rest := by
      intro front rest heq hne
      refine ih front rest heq hne (fun a ha => hlast a (getLast?_of_append heq ha)) ?_
      intro front' v rest' heq'
      exact hitems (front ++ front') v rest' (by rw [heq, heq', List.append_assoc])
    cases args with
    | nil => exact .nil
    | cons a rest =>
      cases rest with
      | nil => exact .other (hlast a rfl) .nil
      | cons v rest =>
        by_cases happend : a = optAppend
        · subst happend
          exact .append (hrest [optAppend, v] rest rfl (by simp))
        · by_cases hdevice : a = optDevice
          · subst hdevice
            exact .device (hrest [optDevice] (v :: rest) rfl (by simp))
          · by_cases hmachine : a = optMachine
            · subst hmachine
              exact .machine (hitems [] v rest rfl) (hrest [optMachine, v] rest rfl (by simp))
            · exact .other ⟨happend, hdevice, hmachine⟩ (hrest [a] (v :: rest) rfl (by simp))

/-! ### One turn -/

section

variable (glob : Word → List Word) (arch : Word) (v : Vars)

theorem body_append (value : Word) (tail : List Word) (i : Nat) :
    body glob arch ⟨optAppend :: value :: tail, i, v⟩ =
      .ok ⟨tail ++ [optAppend, appendDefault v ++ value], i + 2, v⟩ := rfl

theorem body_device (value : Word) (tail : List Word) (i : Nat) :
    body glob arch ⟨optDevice :: value :: tail, i, v⟩ =
      .ok ⟨value :: tail ++ [optDevice], i + 1, deviceLoop (expand glob comma value) v⟩ := rfl

theorem body_machine (value : Word) (tail : List Word) (i : Nat) :
    body glob arch ⟨optMachine :: value :: tail, i, v⟩ =
      let r := (expand glob comma value).foldl (machineOpt arch) ([], v)
      .ok ⟨tail ++ [optMachine] ++ [r.1], i + 1 + 1, r.2⟩ := rfl

theorem body_other {a : Word} (ha : a ≠ optAppend ∧ a ≠ optDevice ∧ a ≠ optMachine)
    (tail : List Word) (i : Nat) :
    body glob arch ⟨a :: tail, i, v⟩ = .ok ⟨tail ++ [a], i + 1, v⟩ := by
  obtain ⟨happend, hdevice, hmachine⟩ := ha
  simp only [body, first, shift, Bind.bind, Except.bind, if_neg happend, if_neg hdevice,
    if_neg hmachine]
  rfl

/-- The variables that the loop does not assign to. -/
structure Frame (v v' : Vars) : Prop where
  append : v'.append = v.append
  machine : v'.machine = v.machine
  kernel : v'.kernel = v.kernel

theorem Frame.refl : Frame v v := ⟨rfl, rfl, rfl⟩

theorem Frame.trans {v v' v'' : Vars} (h : Frame v v') (h' : Frame v' v'') : Frame v v'' :=
  ⟨h'.append.trans h.append, h'.machine.trans h.machine, h'.kernel.trans h.kernel⟩

theorem Frame.appendDefault {v v' : Vars} (h : Frame v v') :
    appendDefault v' = appendDefault v := by
  rw [RunQemu.appendDefault, h.append, RunQemu.appendDefault]

theorem frame_deviceLoop (opts : List Word) : Frame v (deviceLoop opts v) := by
  unfold deviceLoop
  split
  · exact .refl v
  · split <;> exact ⟨rfl, rfl, rfl⟩

/-- An option that is not dropped is added to those before it. -/
theorem machineOpt_fst (s : Word × Vars) (opt : Word) :
    (machineOpt arch s opt).1 =
      if arch = aarch64 ∨ opt ≠ virtualizationOn then s.1 ++ alternative (some s.1) [comma] ++ opt
      else s.1 := by
  unfold machineOpt
  by_cases hopt : opt = virtualizationOn
  · by_cases harch : arch = aarch64 <;> simp [hopt, harch]
  · simp [hopt]

theorem frame_machineOpt (s : Word × Vars) (opt : Word) : Frame s.2 (machineOpt arch s opt).2 := by
  unfold machineOpt
  repeat' split
  all_goals exact ⟨rfl, rfl, rfl⟩

theorem frame_foldl_machineOpt (opts : List Word) (s : Word × Vars) :
    Frame s.2 (opts.foldl (machineOpt arch) s).2 := by
  induction opts generalizing s with
  | nil => exact .refl _
  | cons opt opts ih => exact (frame_machineOpt arch s opt).trans (ih _)

/-- **The loop of `-machine` joins the options that it does not drop.** -/
theorem foldl_machineOpt_fst (opts : List Word) (s : Word × Vars) :
    (opts.foldl (machineOpt arch) s).1 =
      joined [comma] s.1 (opts.filter fun opt => arch = aarch64 ∨ opt ≠ virtualizationOn) := by
  induction opts generalizing s with
  | nil => rfl
  | cons opt opts ih =>
    rw [List.foldl_cons, ih, machineOpt_fst]
    by_cases hopt : arch = aarch64 ∨ opt ≠ virtualizationOn
    · rw [if_pos hopt, List.filter_cons_of_pos (by simpa using hopt)]
      rfl
    · rw [if_neg hopt, List.filter_cons_of_neg (by simpa using hopt)]

variable {glob arch v}

/-- On items, it gives the value that `-machine` is to have. -/
theorem foldl_machineOpt_items (hglob : ∀ w, Plain w → glob w = [w]) {value : Word}
    (h : IsItems value) :
    ((expand glob comma value).foldl (machineOpt arch) ([], v)).1 = machineValue arch value := by
  obtain ⟨items, rfl, hitems⟩ := h
  rw [expand_intercalate hglob (fun i hi => (hitems i hi).1) (fun i hi => (hitems i hi).2.1)
    fun i hi => (hitems i hi).2.2, foldl_machineOpt_fst,
    joined_of_ne _ fun i hi => (hitems i (List.mem_filter.mp hi).1).1]
  unfold machineValue
  by_cases harch : arch = aarch64
  · rw [if_pos harch, List.filter_eq_self.mpr (by simp [harch])]
  · have hsplit : ([comma].intercalate items).splitOn comma = items ∨ items = [] := by
      cases items with
      | nil => exact Or.inr rfl
      | cons item items =>
        exact Or.inl (List.splitOn_intercalate comma (fun i hi => (hitems i hi).2.1) (by simp))
    rcases hsplit with hsplit | rfl
    · simp [harch, hsplit]
    · rw [if_neg harch]
      rfl

/-! ### The loop -/

/-- What is kept: the rest is regular, and rewriting it gives what is still missing. -/
structure Inv (arch : Word) (v₀ : Vars) (args todo done : List Word) (v : Vars) : Prop where
  regular : Regular todo
  frame : Frame v₀ v
  rewritten : done ++ rewrite arch (appendDefault v₀) todo = rewrite arch (appendDefault v₀) args

theorem rewrite_append (dflt value : Word) (rest : List Word) :
    rewrite arch dflt (optAppend :: value :: rest) =
      optAppend :: (dflt ++ value) :: rewrite arch dflt rest := by
  rw [rewrite, if_pos rfl]

theorem rewrite_machine (dflt value : Word) (rest : List Word) :
    rewrite arch dflt (optMachine :: value :: rest) =
      optMachine :: machineValue arch value :: rewrite arch dflt rest := by
  rw [rewrite, if_neg (by decide), if_pos rfl]

theorem rewrite_other {a dflt : Word} (happend : a ≠ optAppend) (hmachine : a ≠ optMachine)
    (rest : List Word) : rewrite arch dflt (a :: rest) = a :: rewrite arch dflt rest := by
  cases rest with
  | nil => rfl
  | cons value rest => rw [rewrite, if_neg happend, if_neg hmachine]

/-- **A turn keeps the invariant**, whichever option it is about. -/
theorem Inv.step (hglob : ∀ w, Plain w → glob w = [w]) {v₀ : Vars} {args todo done : List Word}
    (hne : todo ≠ []) (h : Inv arch v₀ args todo done v) :
    ∃ todo' out v', body glob arch ⟨todo ++ done, done.length, v⟩ =
        .ok ⟨todo' ++ (done ++ out), (done ++ out).length, v'⟩ ∧
      todo'.length < todo.length ∧ Inv arch v₀ args todo' (done ++ out) v' := by
  obtain ⟨hregular, hframe, hrewritten⟩ := h
  cases hregular with
  | nil => exact absurd rfl hne
  | @append value rest hrest =>
    refine ⟨rest, [optAppend, appendDefault v₀ ++ value], v, ?_, ?_, hrest, hframe, ?_⟩
    · rw [List.cons_append, List.cons_append, body_append, hframe.appendDefault]
      simp
    · simp only [List.length_cons]
      omega
    · rw [← hrewritten, rewrite_append]
      simp
  | @device value rest hrest =>
    refine ⟨value :: rest, [optDevice], deviceLoop (expand glob comma value) v, ?_, ?_, hrest,
      hframe.trans (frame_deviceLoop v _), ?_⟩
    · rw [List.cons_append, List.cons_append, body_device]
      simp
    · simp
    · have hother : rewrite arch (appendDefault v₀) (optDevice :: value :: rest) =
          optDevice :: rewrite arch (appendDefault v₀) (value :: rest) :=
        rewrite_other (by decide) (by decide) _
      rw [← hrewritten, hother]
      simp
  | @machine value rest hitems hrest =>
    refine ⟨rest, [optMachine, machineValue arch value],
      ((expand glob comma value).foldl (machineOpt arch) ([], v)).2, ?_, ?_, hrest,
      hframe.trans (frame_foldl_machineOpt arch _ ([], v)), ?_⟩
    · rw [List.cons_append, List.cons_append, body_machine]
      simp [foldl_machineOpt_items hglob hitems]
    · simp only [List.length_cons]
      omega
    · rw [← hrewritten, rewrite_machine]
      simp
  | @other a rest ha hrest =>
    refine ⟨rest, [a], v, ?_, ?_, hrest, hframe, ?_⟩
    · rw [List.cons_append, body_other _ _ _ ha]
      simp
    · simp
    · rw [← hrewritten, rewrite_other ha.1 ha.2.2]
      simp

/-- **The loop ends with the arguments rewritten.** -/
theorem loop_eq (hglob : ∀ w, Plain w → glob w = [w]) {args : List Word} (h : Regular args) :
    ∃ v', Frame v v' ∧ ∀ fuel, args.length < fuel → loop glob arch fuel v args =
      some (.ok ⟨rewrite arch (appendDefault v) args,
        (rewrite arch (appendDefault v) args).length, v'⟩) := by
  have hstart : Inv arch v args args [] v := ⟨h, .refl v, rfl⟩
  obtain ⟨result, v', hend, hrun⟩ := whileDo_rotate
    (fun todo done v hne h => Inv.step hglob hne h) hstart
  have hresult : result = rewrite arch (appendDefault v) args := by
    have hrewritten := hend.rewritten
    rwa [rewrite, List.append_nil] at hrewritten
  rw [← hresult]
  exact ⟨v', hend.frame, hrun⟩

/-! ### What QEMU is executed with -/

theorem append_lookAt (v : Vars) (arg : Word) :
    (lookAt v arg).append = if arg = optAppend then some [] else v.append := by
  unfold lookAt
  by_cases happend : arg = optAppend
  · rw [if_pos happend, if_pos happend]
  · rw [if_neg happend, if_neg happend]
    split <;> rfl

theorem append_foldl_lookAt (params : List Word) (v : Vars) :
    (params.foldl lookAt v).append = if optAppend ∈ params then some [] else v.append := by
  induction params generalizing v with
  | nil => rfl
  | cons arg params ih =>
    rw [List.foldl_cons, ih, append_lookAt]
    by_cases hmem : optAppend ∈ params
    · simp [hmem]
    · simp [hmem, eq_comm]

/-- **The default is not passed on as well where there is an `-append` that has got it.** -/
theorem execArgs_of_mem {params words : List Word} (hmem : optAppend ∈ params)
    (h : execArgs v params = .ok words) :
    ∃ accel machine iommu, words = [ascii "-accel".toList, accel, optMachine, machine] ++
      iommu ++ params := by
  have happend := append_foldl_lookAt params v
  rw [if_pos hmem] at happend
  unfold execArgs at h
  dsimp only at h
  split at h
  · cases h
  · rename_i machine hmachine
    cases h
    rw [happend, if_neg (by simp), List.append_nil]
    exact ⟨_, machine, _, rfl⟩

/-- **QEMU gets the arguments rewritten**, after those that the script adds. -/
theorem run_eq (hglob : ∀ w, Plain w → glob w = [w]) {env : Vars} {args : List Word}
    (h : Regular args) :
    ∃ v', Frame (prelude arch env) v' ∧ ∀ fuel, args.length < fuel → run glob arch fuel env args =
      some (execArgs v' (rewrite arch (appendDefault (prelude arch env)) args)) := by
  obtain ⟨v', hframe, hloop⟩ := loop_eq hglob h
  refine ⟨v', hframe, ?_⟩
  intro fuel hfuel
  rw [run, hloop fuel hfuel]
  rfl

end

end RunQemu

/-! ## `run-cloud-hypervisor.sh` -/

namespace RunCloudHypervisor

def optCmdline : Word := ascii ['-', '-', 'c', 'm', 'd', 'l', 'i', 'n', 'e']

/-- `cmdline` before the loop; it may come with the environment. -/
def prelude (arch : Word) (cmdline : Option Word) : Option Word :=
  if arch = x8664 then some (withConsole cmdline) else cmdline

/-- The body of the `while` loop, with the variable `cmdline`. -/
def body (s : Args (Option Word)) : Except Fault (Args (Option Word)) := do
  let arg ← first s.params
  let params ← shift s.params
  if arg = optCmdline then
    let value ← first params
    let params ← shift params
    return ⟨params, s.i, some (alternative s.vars (s.vars.getD [] ++ [space]) ++ value)⟩
  else return ⟨params ++ [arg], s.i + 1, s.vars⟩

def loop (fuel : Nat) (cmdline : Option Word) (args : List Word) :
    Option (Except Fault (Args (Option Word))) :=
  whileDo Args.more body fuel ⟨args, 0, cmdline⟩

/-- The arguments cloud-hypervisor is executed with. -/
def execArgs (cmdline : Option Word) (params : List Word) : List Word :=
  (if cmdline.getD [] ≠ [] then [optCmdline, cmdline.getD []] else []) ++ params

/-- The script: what cloud-hypervisor is executed with, if the loop ends. -/
def run (arch : Word) (fuel : Nat) (env : Option Word) (args : List Word) :
    Option (Except Fault (List Word)) :=
  (loop fuel (prelude arch env) args).map fun r => r.map fun s => execArgs s.vars s.params

/-- **The arguments without every `--cmdline` and its value.** -/
def kept : List Word → List Word
  | a :: v :: rest => if a = optCmdline then kept rest else a :: kept (v :: rest)
  | [a] => [a]
  | [] => []

/-- The values of `--cmdline`, in order. -/
def values : List Word → List Word
  | a :: v :: rest => if a = optCmdline then v :: values rest else values (v :: rest)
  | _ => []

/-- The values after the default, with a space between each two; what is empty at the beginning does
not count. -/
def joinedCmdline (dflt : Word) (vs : List Word) : Word :=
  [space].intercalate ((dflt :: vs).dropWhile (· = []))

/-- Arguments in which `--cmdline` is followed by something. -/
inductive Regular : List Word → Prop
  | nil : Regular []
  | cmdline {v : Word} {rest : List Word} (h : Regular rest) : Regular (optCmdline :: v :: rest)
  | other {a : Word} {rest : List Word} (ha : a ≠ optCmdline) (h : Regular rest) :
      Regular (a :: rest)

/-- `--cmdline` is not the last argument. -/
def Complete (args : List Word) : Prop := ∀ a, args.getLast? = some a → a ≠ optCmdline

theorem regular_of_complete {args : List Word} (hlast : Complete args) : Regular args := by
  induction args using args_induction with
  | h args ih =>
    have hrest : ∀ front rest, args = front ++ rest → front ≠ [] → Regular rest := by
      intro front rest heq hne
      exact ih front rest heq hne fun a ha => hlast a (getLast?_of_append heq ha)
    cases args with
    | nil => exact .nil
    | cons a rest =>
      cases rest with
      | nil => exact .other (hlast a rfl) .nil
      | cons v rest =>
        by_cases hcmdline : a = optCmdline
        · subst hcmdline
          exact .cmdline (hrest [optCmdline, v] rest rfl (by simp))
        · exact .other hcmdline (hrest [a] (v :: rest) rfl (by simp))

/-! ### One turn -/

theorem body_cmdline (value : Word) (tail : List Word) (i : Nat) (cmdline : Option Word) :
    body ⟨optCmdline :: value :: tail, i, cmdline⟩ =
      .ok ⟨tail, i, some (alternative cmdline (cmdline.getD [] ++ [space]) ++ value)⟩ := rfl

theorem body_other {a : Word} (ha : a ≠ optCmdline) (tail : List Word) (i : Nat)
    (cmdline : Option Word) :
    body ⟨a :: tail, i, cmdline⟩ = .ok ⟨tail ++ [a], i + 1, cmdline⟩ := by
  simp only [body, first, shift, Bind.bind, Except.bind, if_neg ha]
  rfl

theorem kept_cmdline (value : Word) (rest : List Word) :
    kept (optCmdline :: value :: rest) = kept rest := by
  rw [kept, if_pos rfl]

theorem kept_other {a : Word} (ha : a ≠ optCmdline) (rest : List Word) :
    kept (a :: rest) = a :: kept rest := by
  cases rest with
  | nil => rfl
  | cons value rest => rw [kept, if_neg ha]

theorem values_cmdline (value : Word) (rest : List Word) :
    values (optCmdline :: value :: rest) = value :: values rest := by
  rw [values, if_pos rfl]

theorem values_other {a : Word} (ha : a ≠ optCmdline) (rest : List Word) :
    values (a :: rest) = values rest := by
  cases rest with
  | nil => rfl
  | cons value rest => rw [values, if_neg ha]

/-- A value is added as the word that follows. -/
theorem joined_cmdline (cmdline : Option Word) (value : Word) (vs : List Word) :
    joined [space] (alternative cmdline (cmdline.getD [] ++ [space]) ++ value) vs =
      joined [space] (cmdline.getD []) (value :: vs) := by
  unfold joined alternative
  rw [List.foldl_cons]
  by_cases h : cmdline.getD [] = []
  · simp [h]
  · simp [h]

/-! ### The loop -/

/-- What is kept: the rest is regular, and with what is kept of it and with its values there is all
there should be. -/
structure Inv (args : List Word) (dflt : Word) (todo done : List Word) (cmdline : Option Word) :
    Prop where
  regular : Regular todo
  kept : done ++ kept todo = kept args
  values : joined [space] (cmdline.getD []) (values todo) = joined [space] dflt (values args)

theorem Inv.step {args todo done : List Word} {dflt : Word} {cmdline : Option Word}
    (hne : todo ≠ []) (h : Inv args dflt todo done cmdline) :
    ∃ todo' out cmdline', body ⟨todo ++ done, done.length, cmdline⟩ =
        .ok ⟨todo' ++ (done ++ out), (done ++ out).length, cmdline'⟩ ∧
      todo'.length < todo.length ∧ Inv args dflt todo' (done ++ out) cmdline' := by
  obtain ⟨hregular, hkept, hvalues⟩ := h
  cases hregular with
  | nil => exact absurd rfl hne
  | @cmdline value rest hrest =>
    refine ⟨rest, [], some (alternative cmdline (cmdline.getD [] ++ [space]) ++ value), ?_, ?_,
      hrest, ?_, ?_⟩
    · rw [List.cons_append, List.cons_append, body_cmdline, List.append_nil]
    · simp only [List.length_cons]
      omega
    · rw [← hkept, kept_cmdline, List.append_nil]
    · rw [← hvalues, values_cmdline, Option.getD_some, joined_cmdline]
  | @other a rest ha hrest =>
    refine ⟨rest, [a], cmdline, ?_, ?_, hrest, ?_, ?_⟩
    · rw [List.cons_append, body_other ha]
      simp
    · simp
    · rw [← hkept, kept_other ha]
      simp
    · rw [← hvalues, values_other ha]

/-- **The loop ends with the other arguments, and with the values joined.** -/
theorem loop_eq {args : List Word} (h : Regular args) (cmdline : Option Word) :
    ∃ cmdline', cmdline'.getD [] = joinedCmdline (cmdline.getD []) (values args) ∧
      ∀ fuel, args.length < fuel →
        loop fuel cmdline args = some (.ok ⟨kept args, (kept args).length, cmdline'⟩) := by
  have hstart : Inv args (cmdline.getD []) args [] cmdline := ⟨h, rfl, rfl⟩
  obtain ⟨result, cmdline', hend, hrun⟩ := whileDo_rotate
    (fun todo done cmdline hne h => Inv.step hne h) hstart
  have hresult : result = RunCloudHypervisor.kept args := by
    have hkept := hend.kept
    rwa [RunCloudHypervisor.kept, List.append_nil] at hkept
  have hcmdline : cmdline'.getD [] =
      joinedCmdline (cmdline.getD []) (RunCloudHypervisor.values args) := by
    rw [joinedCmdline, ← joined_eq]
    exact hend.values
  rw [← hresult]
  exact ⟨cmdline', hcmdline, hrun⟩

/-- **Cloud-hypervisor gets one `--cmdline`, with everything, before the other arguments.** -/
theorem run_eq {args : List Word} (h : Regular args) (arch : Word) (env : Option Word) {fuel : Nat}
    (hfuel : args.length < fuel) :
    run arch fuel env args =
      let cmdline := joinedCmdline ((prelude arch env).getD []) (values args)
      some (.ok ((if cmdline ≠ [] then [optCmdline, cmdline] else []) ++ kept args)) := by
  obtain ⟨cmdline', hcmdline, hloop⟩ := loop_eq h (prelude arch env)
  rw [run, hloop fuel hfuel, ← hcmdline]
  rfl

end RunCloudHypervisor

/-- **The wrappers' loops are plain rewrites of the arguments**, which end with any fuel above the
number of arguments. `glob` is pathname expansion, which leaves alone what is no pattern. They are
so wherever an option that is reached has its value, and in particular if none of the options that
take one is last. -/
theorem loops_rewrite (glob : Word → List Word) (hglob : ∀ w, Plain w → glob w = [w])
    (arch : Word) :
    (∀ (env : RunQemu.Vars) (args : List Word), RunQemu.Regular args →
      let v := RunQemu.prelude arch env
      let result := RunQemu.rewrite arch (RunQemu.appendDefault v) args
      ∃ v', ∀ fuel, args.length < fuel →
        RunQemu.loop glob arch fuel v args = some (.ok ⟨result, result.length, v'⟩)) ∧
    (∀ (env : Option Word) (args : List Word), RunCloudHypervisor.Regular args →
      let cmdline := RunCloudHypervisor.prelude arch env
      let result := RunCloudHypervisor.kept args
      ∃ cmdline', cmdline'.getD [] = RunCloudHypervisor.joinedCmdline (cmdline.getD [])
          (RunCloudHypervisor.values args) ∧
        ∀ fuel, args.length < fuel →
          RunCloudHypervisor.loop fuel cmdline args =
            some (.ok ⟨result, result.length, cmdline'⟩)) ∧
    (∀ args, RunQemu.Complete args → RunQemu.Regular args) ∧
    ∀ args, RunCloudHypervisor.Complete args → RunCloudHypervisor.Regular args := by
  refine ⟨?_, ?_, fun _ => RunQemu.regular_of_complete,
    fun _ => RunCloudHypervisor.regular_of_complete⟩
  · intro env args h
    obtain ⟨v', -, hloop⟩ := RunQemu.loop_eq hglob h
    exact ⟨v', hloop⟩
  · intro env args h
    exact RunCloudHypervisor.loop_eq h _

/-- A `-machine` loses an item and an `-append` gets a prefix; two `--cmdline`s are joined. -/
theorem loops_rewrite_machine :
    let glob : Word → List Word := fun w => [w]
    let machine := ascii "q35,virtualization=on,smm=on".toList
    let env : RunQemu.Vars := ⟨[], none, none, none, none⟩
    let args := [RunQemu.optMachine, machine, RunQemu.optAppend, ascii ['q']]
    let args' := [RunCloudHypervisor.optCmdline, ascii ['a'], ascii "--cpus".toList,
      RunCloudHypervisor.optCmdline, ascii ['b']]
    (∀ w, Plain w → glob w = [w]) ∧ RunQemu.Complete args ∧ RunCloudHypervisor.Complete args' ∧
      (∃ v', RunQemu.loop glob x8664 5 (RunQemu.prelude x8664 env) args =
        some (.ok ⟨[RunQemu.optMachine, ascii "q35,smm=on".toList, RunQemu.optAppend,
          ascii "console=ttyS0 q".toList], 4, v'⟩)) ∧
      ∃ cmdline', cmdline'.getD [] = ascii "console=ttyS0 a b".toList ∧
        RunCloudHypervisor.loop 6 (RunCloudHypervisor.prelude x8664 none) args' =
          some (.ok ⟨[ascii "--cpus".toList], 1, cmdline'⟩) := by
  intro glob machine env args args'
  have hglob : ∀ w, Plain w → glob w = [w] := fun w _ => rfl
  have hitems : RunQemu.IsItems machine := by
    refine ⟨[ascii "q35".toList, RunQemu.virtualizationOn, ascii "smm=on".toList], rfl, ?_⟩
    decide
  have hcomplete : RunQemu.Complete args := by
    refine ⟨fun a ha => ?_, fun front v rest heq => ?_⟩
    · cases ha
      decide
    · cases front with
      | nil =>
        have htail := (List.cons.inj heq).2
        rw [← (List.cons.inj htail).1]
        exact hitems
      | cons a front =>
        have htail := (List.cons.inj heq).2
        have hmem : RunQemu.optMachine ∈ [machine, RunQemu.optAppend, ascii ['q']] := by
          rw [htail]
          exact List.mem_append_right _ List.mem_cons_self
        exact absurd hmem (by decide)
  have hcomplete' : RunCloudHypervisor.Complete args' := by
    intro a ha
    cases ha
    decide
  obtain ⟨hqemu, hcloud, hregular, hregular'⟩ := loops_rewrite glob hglob x8664
  obtain ⟨v', hloop⟩ := hqemu env args (hregular args hcomplete)
  obtain ⟨cmdline', hcmdline, hloop'⟩ := hcloud none args' (hregular' args' hcomplete')
  exact ⟨hglob, hcomplete, hcomplete', ⟨v', hloop 5 (by decide)⟩, cmdline', hcmdline,
    hloop' 6 (by decide)⟩

end Spectrum.Scripts
