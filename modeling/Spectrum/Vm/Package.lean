import Spectrum.Image.Erofs
import Spectrum.Vmm.Config

/-!
# What `make-vm.nix` builds

A VM comes as a directory that `vm-lib/make-vm.nix` builds, and the programs that read it know
nothing of how it came about. The directory has a store of its own, from which everything is left
out that is in the closure of the base; what is in there afterwards does not depend on the locale
that `sort` and `comm` run in (`exists_makeVm`).

`type` is a plain word, and a store path is copied to the name it has in the store.
-/

set_option autoImplicit false

namespace Spectrum.Vm.Package

open Spectrum.Path Text DirTree Vmm
open Spectrum.Image.Erofs

/-! ## `make-vm.nix` -/

/-- `builtins.storeDir`. -/
def storeDir : Word := os "/nix/store"

/-- The path of what has this name in the store. -/
def storePath (name : Word) : Word := storeDir ++ slash :: name

structure Args where
  run : Word
  type : Word
  /-- The names of what `writeClosure [ run ]` lists. -/
  closure : List Word
  /-- The names of what `writeClosure [ basePaths ]` lists. -/
  base : List Word
  /-- The kinds, in the order of their names, with the VMs of each. -/
  providers : List (Word × List Word)

def Args.providerDirs (a : Args) : List Word :=
  a.providers.flatMap fun x => x.2.map fun vm => x.1 ++ slash :: vm

/-- `basename`, for what is not the root. -/
def basename (p : Word) : Word := (names p).getLastD []

/-- From `mkdir -p $out/{blk,fs,providers}` to the empty store. -/
def prepare (a : Args) : Option (DirTree Word) := do
  let t ← DirTree.empty.mkdirs [os "blk"]
  let t ← t.mkdirs [os "fs"]
  let t ← t.mkdirs [os "providers"]
  let t ← t.make [os "fs", os "type"] (.file (line a.type) true false)
  let t ← t.make [os "fs", os "run"] (.link a.run)
  t.mkdirs [os "fs", os "nix", os "store"]

/-- `cp -rt fs/nix/store`, for one of its arguments. -/
def copyInto (host : Word → Source Word) (t : DirTree Word) (path : Word) : Option (DirTree Word) :=
  t.copy (host path) [os "fs", os "nix", os "store", basename path]

/-- What is in `providers`. `${#providerDirs}` is the length of the first one. -/
def provide (dirs : List Word) (t : DirTree Word) : Option (DirTree Word) :=
  if (dirs.headD []).length = 0 then some t
  else do
    let t ← dirs.foldlM (fun t dir => t.mkdirs (os "providers" :: names (dirname dir))) t
    dirs.foldlM (fun t dir => t.touch (os "providers" :: names dir)) t

def finish (t : DirTree Word) : Option (DirTree Word) := do
  let t ← t.make [os "blk", os "root.img"] (.link (os "/usr/img/appvm/blk/root.img"))
  t.make [os "vmlinux"] (.link (os "/usr/img/appvm/vmlinux"))

/-- The file `writeClosure` makes, for these names. -/
def writeClosure (closure : List Word) : List UInt8 := (closure.map storePath).flatMap line

def makeVm (c : Collation Word) (host : Word → Source Word) (a : Args) : Option (DirTree Word) :=
  if (a.providers.flatMap Prod.snd).any fun vm => vm.contains newline then none
  else do
    let t ← prepare a
    let paths := comm23 c (sort c (records (writeClosure a.closure)))
      (sort c (records (writeClosure a.base)))
    let t ← paths.foldlM (copyInto host) t
    let t ← provide a.providerDirs t
    finish t

/-! ## Names -/

/-- A name that can be the name of a directory entry. -/
def Component (n : Word) : Prop := Counts n ∧ slash ∉ n ∧ n ≠ dotDot ∧ 0 ∉ n

instance (n : Word) : Decidable (Component n) := inferInstanceAs (Decidable (_ ∧ _))

theorem Component.names_eq {n : Word} (h : Component n) : names n = [n] :=
  names_of_counts h.1 h.2.1

theorem names_storePath {n : Word} (h : Component n) :
    names (storePath n) = [os "nix", os "store", n] := by
  have hdir : names storeDir = [os "nix", os "store"] := by decide
  rw [storePath, names_append_slash, hdir, h.names_eq]
  rfl

theorem basename_storePath {n : Word} (h : Component n) : basename (storePath n) = n := by
  rw [basename, names_storePath h]
  rfl

theorem storePath_injective : Function.Injective storePath := by
  intro m n h
  exact (List.cons.inj (List.append_cancel_left h)).2

theorem records_writeClosure {closure : List Word}
    (h : ∀ n ∈ closure, n.contains newline = false) :
    records (writeClosure closure) = closure.map storePath := by
  refine records_lines fun l hl b hb => ?_
  obtain ⟨n, hn, rfl⟩ := List.mem_map.mp hl
  have hdir : Unbroken (storeDir ++ [slash]) := unbroken_of_contains rfl
  rcases List.mem_append.mp (show b ∈ (storeDir ++ [slash]) ++ n by simpa [storePath] using hb) with
    hb | hb
  · exact hdir b hb
  · exact unbroken_of_contains (h n hn) b hb

theorem names_join {kind vm : Word} (hk : Component kind) (hv : Component vm) :
    names (kind ++ slash :: vm) = [kind, vm] := by
  rw [names_append_slash, hk.names_eq, hv.names_eq]
  rfl

theorem names_dirname_join {kind vm : Word} (hk : Component kind) (hv : Component vm) :
    names (dirname (kind ++ slash :: vm)) = [kind] := by
  have hplain : Plain (kind ++ slash :: vm) := by
    intro part hpart
    rw [List.splitOn_append_cons_self, List.splitOn_eq_singleton hk.2.1,
      List.splitOn_eq_singleton hv.2.1] at hpart
    rcases List.mem_cons.mp hpart with rfl | hpart
    · exact ⟨hk.1.2, hk.2.2.1⟩
    · obtain rfl := List.mem_singleton.mp hpart
      exact ⟨hv.1.2, hv.2.2.1⟩
  rw [names_dirname hplain, names_join hk hv]
  rfl

/-! ## The package, step by step -/

/-- What `prepare` makes. -/
def skeleton (a : Args) : DirTree Word :=
  ((((((DirTree.empty.set [os "blk"] (.dir true)).set [os "fs"] (.dir true)).set
    [os "providers"] (.dir true)).set [os "fs", os "type"] (.file (line a.type) true false)).set
    [os "fs", os "run"] (.link a.run)).set [os "fs", os "nix"] (.dir true)).set
    [os "fs", os "nix", os "store"] (.dir true)

theorem prepare_eq (a : Args) : prepare a = some (skeleton a) := rfl

def skeletonPaths : List (List Word) :=
  [[], [os "blk"], [os "fs"], [os "providers"], [os "fs", os "type"], [os "fs", os "run"],
    [os "fs", os "nix"], [os "fs", os "nix", os "store"]]

theorem skeleton_of_not_mem (a : Args) {p : List Word} (h : p ∉ skeletonPaths) :
    skeleton a p = none := by
  simp only [skeletonPaths, List.mem_cons, List.not_mem_nil, or_false, not_or] at h
  obtain ⟨hroot, hblk, hfs, hproviders, htype, hrun, hnix, hstore⟩ := h
  rw [skeleton, set_of_ne _ hstore, set_of_ne _ hnix, set_of_ne _ hrun, set_of_ne _ htype,
    set_of_ne _ hproviders, set_of_ne _ hfs, set_of_ne _ hblk, DirTree.empty, if_neg hroot]

/-- The store. -/
def inStore (name : Word) : List Word := [os "fs", os "nix", os "store", name]

theorem inStore_append_injective {m n : Word} {q r : List Word}
    (h : inStore m ++ q = inStore n ++ r) : m = n ∧ q = r := by
  simpa [inStore] using h

/-- **Copying to the store**: what is copied is there under its name, and nothing else changes. -/
theorem exists_copies (host : Word → Source Word) (paths : List Word) {t : DirTree Word}
    (hroot : t [] ≠ none) (hstore : t [os "fs", os "nix", os "store"] = some (.dir true))
    (hfree : ∀ p ∈ paths, ∀ q, t (inStore (basename p) ++ q) = none)
    (hexist : ∀ p ∈ paths, (host p).entries ≠ []) (hnodup : (paths.map basename).Nodup) :
    ∃ t', paths.foldlM (copyInto host) t = some t' ∧
      (∀ p ∈ paths, ∀ q e,
        t' (inStore (basename p) ++ q) = some e ↔ (q, e) ∈ (host p).entries) ∧
      ∀ x, (∀ p ∈ paths, ∀ q, x ≠ inStore (basename p) ++ q) → t' x = t x := by
  induction paths generalizing t with
  | nil => exact ⟨t, rfl, by simp, fun _ _ => rfl⟩
  | cons p paths ih =>
    obtain ⟨hnot, hrest⟩ := List.nodup_cons.mp hnodup
    have hne : ∀ p' ∈ paths, basename p' ≠ basename p := by
      intro p' hp' he
      exact hnot (he ▸ List.mem_map_of_mem hp')
    obtain ⟨t₁, ht₁, hnew, hkept⟩ := @copy_eq _ _ t (host p) (inStore (basename p))
      (hexist p List.mem_cons_self) (.inr hstore) hroot
      fun q e _ => .inl (hfree p List.mem_cons_self q)
    have hfree₁ : ∀ p' ∈ paths, ∀ q, t₁ (inStore (basename p') ++ q) = none := by
      intro p' hp' q
      rw [hkept _ (.inr fun x _ he => hne p' hp' (inStore_append_injective he).1.symm)]
      exact hfree p' (List.mem_cons_of_mem _ hp') q
    have hroot₁ : t₁ [] ≠ none := by rwa [hkept [] (.inl hroot)]
    have hstore₁ : t₁ [os "fs", os "nix", os "store"] = some (.dir true) := by
      rw [hkept _ (.inl (by simp [hstore])), hstore]
    obtain ⟨t', ht', hthere, hsame⟩ := ih hroot₁ hstore₁ hfree₁
      (fun p' hp' => hexist p' (List.mem_cons_of_mem _ hp')) hrest
    refine ⟨t', ?_, ?_, ?_⟩
    · rw [List.foldlM_cons]
      simp only [copyInto, inStore] at ht₁ ⊢
      rw [ht₁]
      exact ht'
    · intro p' hp' q e
      rcases List.mem_cons.mp hp' with rfl | hp'
      · -- the first one, which the others leave alone
        rw [hsame _ fun p'' hp'' r he => hne p'' hp'' (inStore_append_injective he).1.symm]
        constructor
        · intro h
          by_contra hnot
          have hold := hkept (inStore (basename p') ++ q) (.inr ?_)
          · rw [hold, hfree p' List.mem_cons_self q] at h
            cases h
          · rintro ⟨q', e'⟩ hx he
            obtain ⟨_, rfl⟩ := inStore_append_injective he
            rw [hnew q' e' hx (hfree p' List.mem_cons_self q')] at h
            cases h
            exact hnot hx
        · exact fun hx => hnew q e hx (hfree p' List.mem_cons_self q)
      · exact hthere p' hp' q e
    · intro x hx
      rw [hsame x fun p' hp' => hx p' (List.mem_cons_of_mem _ hp'),
        hkept x (.inr fun y _ he => hx p List.mem_cons_self y.1 he.symm)]

/-- The providers, one by one. -/
def Args.provided (a : Args) : List (Word × Word) :=
  a.providers.flatMap fun x => x.2.map fun vm => (x.1, vm)

theorem Args.providerDirs_eq (a : Args) :
    a.providerDirs = a.provided.map fun x => x.1 ++ slash :: x.2 := by
  simp only [providerDirs, provided, List.map_flatMap, List.map_map]
  rfl

theorem eq_of_prefix_pair {a b : Word} {p : List Word} (h : p <+: [a, b]) :
    p = [] ∨ p = [a] ∨ p = [a, b] := by
  simpa using (List.mem_inits p [a, b]).mpr h

theorem mkdirs_provider {t : DirTree Word} {k : Word} (hroot : t [] = some (.dir true))
    (hproviders : t [os "providers"] = some (.dir true))
    (hkind : t [os "providers", k] = none ∨ t [os "providers", k] = some (.dir true)) :
    t.mkdirs [os "providers", k] = some (t.set [os "providers", k] (.dir true)) := by
  have hpath : ∀ p, p <+: [os "providers", k] → t p = none ∨ t p = some (.dir true) := by
    intro p hp
    rcases eq_of_prefix_pair hp with rfl | rfl | rfl
    · exact .inr hroot
    · exact .inr hproviders
    · exact hkind
  obtain ⟨t₁, ht₁, hspec⟩ := mkdirs_eq hroot hpath
  rw [ht₁, Option.some.injEq]
  funext p
  rw [hspec p]
  by_cases he : p = [os "providers", k]
  · rw [he, if_pos (List.prefix_refl _), set_self]
  · rw [set_of_ne _ he]
    split
    · -- the two directories above are there already
      rename_i hp
      rcases eq_of_prefix_pair hp with rfl | rfl | rfl
      · exact hroot.symm
      · exact hproviders.symm
      · exact absurd rfl he
    · rfl

theorem exists_mkdirs_providers (ds : List (Word × Word)) {t : DirTree Word}
    (hds : ∀ x ∈ ds, Component x.1 ∧ Component x.2)
    (hroot : t [] = some (.dir true)) (hproviders : t [os "providers"] = some (.dir true))
    (hkinds : ∀ k, t [os "providers", k] = none ∨ t [os "providers", k] = some (.dir true)) :
    ∃ t', (ds.map fun x => x.1 ++ slash :: x.2).foldlM
        (fun t dir => t.mkdirs (os "providers" :: names (dirname dir))) t = some t' ∧
      (∀ x ∈ ds, t' [os "providers", x.1] = some (.dir true)) ∧
      ∀ p, (∀ x ∈ ds, p ≠ [os "providers", x.1]) → t' p = t p := by
  rw [List.foldlM_map]
  refine exists_foldlM_set (P := fun t => t [] = some (.dir true) ∧
      t [os "providers"] = some (.dir true) ∧
      ∀ k, t [os "providers", k] = none ∨ t [os "providers", k] = some (.dir true))
    ds ?_ ⟨hroot, hproviders, hkinds⟩
  rintro t ⟨hroot, hproviders, hkinds⟩ x hx
  obtain ⟨hk, hv⟩ := hds x hx
  rw [names_dirname_join hk hv]
  refine ⟨mkdirs_provider hroot hproviders (hkinds x.1), ?_, ?_, ?_⟩
  · rw [set_of_ne _ (by simp), hroot]
  · rw [set_of_ne _ (by simp), hproviders]
  · intro k
    by_cases he : [os "providers", k] = [os "providers", x.1]
    · rw [he]
      exact .inr (set_self ..)
    · rw [set_of_ne _ he]
      exact hkinds k

theorem touch_provider {t : DirTree Word} {k v : Word}
    (hkind : t [os "providers", k] = some (.dir true))
    (hfile : t [os "providers", k, v] = none ∨
      t [os "providers", k, v] = some (.file [] true false)) :
    t.touch [os "providers", k, v] =
      some (t.set [os "providers", k, v] (.file [] true false)) := by
  have haccepts : t.Accepts [os "providers", k, v] := ⟨by simp, hkind⟩
  rcases hfile with hnone | hfile
  · simp only [touch, hnone, make, haccepts, and_self, if_true]
  · simp only [touch, hfile, Option.some.injEq]
    exact (Function.update_eq_self_iff.mpr hfile.symm).symm

theorem exists_touch_providers (ds : List (Word × Word)) {t : DirTree Word}
    (hds : ∀ x ∈ ds, Component x.1 ∧ Component x.2)
    (hkinds : ∀ x ∈ ds, t [os "providers", x.1] = some (.dir true))
    (hfiles : ∀ k v, t [os "providers", k, v] = none ∨
      t [os "providers", k, v] = some (.file [] true false)) :
    ∃ t', (ds.map fun x => x.1 ++ slash :: x.2).foldlM
        (fun t dir => t.touch (os "providers" :: names dir)) t = some t' ∧
      (∀ x ∈ ds, t' [os "providers", x.1, x.2] = some (.file [] true false)) ∧
      ∀ p, (∀ x ∈ ds, p ≠ [os "providers", x.1, x.2]) → t' p = t p := by
  rw [List.foldlM_map]
  refine exists_foldlM_set (P := fun t =>
      (∀ x ∈ ds, t [os "providers", x.1] = some (.dir true)) ∧
      ∀ k v, t [os "providers", k, v] = none ∨
        t [os "providers", k, v] = some (.file [] true false))
    ds ?_ ⟨hkinds, hfiles⟩
  rintro t ⟨hkinds, hfiles⟩ x hx
  obtain ⟨hk, hv⟩ := hds x hx
  rw [names_join hk hv]
  refine ⟨touch_provider (hkinds x hx) (hfiles x.1 x.2), ?_, ?_⟩
  · intro y hy
    rw [set_of_ne _ (by simp)]
    exact hkinds y hy
  · intro k v
    by_cases he : [os "providers", k, v] = [os "providers", x.1, x.2]
    · rw [he]
      exact .inr (set_self ..)
    · rw [set_of_ne _ he]
      exact hfiles k v

theorem exists_provide {ds : List (Word × Word)} {t : DirTree Word}
    (hds : ∀ x ∈ ds, Component x.1 ∧ Component x.2)
    (hroot : t [] = some (.dir true)) (hproviders : t [os "providers"] = some (.dir true))
    (hempty : ∀ k q, t (os "providers" :: k :: q) = none) :
    ∃ t', provide (ds.map fun x => x.1 ++ slash :: x.2) t = some t' ∧
      (∀ k v, (k, v) ∈ ds → t' [os "providers", k] = some (.dir true)) ∧
      (∀ k, (∀ v, (k, v) ∉ ds) → t' [os "providers", k] = none) ∧
      (∀ k v, t' [os "providers", k, v] ≠ none ↔ (k, v) ∈ ds) ∧
      ∀ p, (∀ k q, p ≠ os "providers" :: k :: q) → t' p = t p := by
  cases ds with
  | nil => exact ⟨t, rfl, by simp, by simp [hempty], by simp [hempty], fun _ _ => rfl⟩
  | cons x ds =>
    obtain ⟨t₁, ht₁, hdirs, hkept₁⟩ := exists_mkdirs_providers (x :: ds) hds hroot hproviders
      fun k => .inl (hempty k [])
    have hfiles₁ : ∀ k v, t₁ [os "providers", k, v] = none := by
      intro k v
      rw [hkept₁ _ (by simp)]
      exact hempty k [v]
    obtain ⟨t₂, ht₂, hfiles, hkept₂⟩ := exists_touch_providers (x :: ds) hds hdirs
      fun k v => .inl (hfiles₁ k v)
    refine ⟨t₂, ?_, ?_, ?_, ?_, ?_⟩
    · have hlen : ¬ (((x :: ds).map fun x => x.1 ++ slash :: x.2).headD []).length = 0 := by simp
      rw [provide, if_neg hlen, ht₁]
      exact ht₂
    · intro k v hkv
      rw [hkept₂ _ (by simp), hdirs (k, v) hkv]
    · intro k hk
      rw [hkept₂ _ (by simp), hkept₁ _ fun y hy he => hk y.2 ?_]
      · exact hempty k []
      · obtain rfl : k = y.1 := by simpa using he
        exact hy
    · intro k v
      constructor
      · intro hkv
        by_contra hnot
        refine hkv ?_
        rw [hkept₂ _ fun y hy he => hnot ?_]
        · exact hfiles₁ k v
        · obtain ⟨rfl, rfl⟩ : k = y.1 ∧ v = y.2 := by simpa using he
          exact hy
      · intro hkv
        rw [hfiles (k, v) hkv]
        simp
    · intro p hp
      rw [hkept₂ p fun y _ => hp y.1 [y.2], hkept₁ p fun y _ => hp y.1 []]

/-! ## The package -/

/-- What is asked of the arguments: names that can be names, and store paths that exist. -/
structure Args.Valid (host : Word → Source Word) (a : Args) : Prop where
  closure : ∀ n ∈ a.closure, Component n
  base : ∀ n ∈ a.base, Component n
  /-- A store path is a line of `writeClosure`. -/
  lines : ∀ n ∈ a.closure ++ a.base, n.contains newline = false
  nodup : a.closure.Nodup
  exist : ∀ n ∈ a.closure, (host (storePath n)).entries ≠ []
  providers : ∀ x ∈ a.provided, Component x.1 ∧ Component x.2
  /-- The assertion of `make-vm.nix`. -/
  unbroken : ∀ x ∈ a.provided, x.2.contains newline = false

/-- The package. -/
structure Built (host : Word → Source Word) (a : Args) (t : DirTree Word) : Prop where
  type : t [os "fs", os "type"] = some (.file (line a.type) true false)
  run : t [os "fs", os "run"] = some (.link a.run)
  extra : ∀ n ∈ a.closure, n ∉ a.base → ∀ q e,
    t (inStore n ++ q) = some e ↔ (q, e) ∈ (host (storePath n)).entries
  rest : ∀ n, (n ∈ a.closure → n ∈ a.base) → ∀ q, t (inStore n ++ q) = none
  blkDir : t [os "blk"] = some (.dir true)
  blk : ∀ n, t [os "blk", n] ≠ none ↔ n = os "root.img"
  vmlinux : t [os "vmlinux"] = some (.link (os "/usr/img/appvm/vmlinux"))
  kinds : ∀ k v, (k, v) ∈ a.provided → t [os "providers", k] = some (.dir true)
  noKinds : ∀ k, (∀ v, (k, v) ∉ a.provided) → t [os "providers", k] = none
  vms : ∀ k v, t [os "providers", k, v] ≠ none ↔ (k, v) ∈ a.provided

/-- What is in the store once everything is copied that is in one closure and not in the other. -/
theorem exists_copied (c : Collation Word) {host : Word → Source Word} {a : Args}
    (h : a.Valid host) :
    ∃ t, (comm23 c (sort c (records (writeClosure a.closure)))
        (sort c (records (writeClosure a.base)))).foldlM (copyInto host) (skeleton a) = some t ∧
      (∀ n ∈ a.closure, n ∉ a.base → ∀ q e,
        t (inStore n ++ q) = some e ↔ (q, e) ∈ (host (storePath n)).entries) ∧
      (∀ n, (n ∈ a.closure → n ∈ a.base) → ∀ q, t (inStore n ++ q) = none) ∧
      ∀ x, (∀ n q, x ≠ inStore n ++ q) → t x = skeleton a x := by
  have hnodup : (a.closure.map storePath).Nodup := h.nodup.map storePath_injective
  rw [records_writeClosure fun n hn => h.lines n (List.mem_append_left _ hn),
    records_writeClosure fun n hn => h.lines n (List.mem_append_right _ hn)]
  generalize hpaths : comm23 c (sort c (a.closure.map storePath))
    (sort c (a.base.map storePath)) = paths
  have hmem : ∀ p, p ∈ paths ↔ ∃ n ∈ a.closure, n ∉ a.base ∧ p = storePath n := by
    intro p
    rw [← hpaths, mem_comm23_sort hnodup]
    constructor
    · rintro ⟨hp, hbase⟩
      obtain ⟨n, hn, rfl⟩ := List.mem_map.mp hp
      exact ⟨n, hn, fun hb => hbase (List.mem_map_of_mem hb), rfl⟩
    · rintro ⟨n, hn, hbase, rfl⟩
      refine ⟨List.mem_map_of_mem hn, fun hb => hbase ?_⟩
      obtain ⟨m, hm, he⟩ := List.mem_map.mp hb
      exact storePath_injective he ▸ hm
  have hnames : (paths.map basename).Nodup := by
    refine List.Nodup.map_on ?_ (hpaths ▸ nodup_comm23_sort hnodup)
    intro p hp p' hp' he
    obtain ⟨n, hn, _, rfl⟩ := (hmem p).mp hp
    obtain ⟨n', hn', _, rfl⟩ := (hmem p').mp hp'
    rw [basename_storePath (h.closure n hn), basename_storePath (h.closure n' hn')] at he
    rw [he]
  have hfree : ∀ n q, skeleton a (inStore n ++ q) = none := fun n q =>
    skeleton_of_not_mem a (by simp [skeletonPaths, inStore])
  have hexist : ∀ p ∈ paths, (host p).entries ≠ [] := by
    intro p hp
    obtain ⟨n, hn, _, rfl⟩ := (hmem p).mp hp
    exact h.exist n hn
  have hroot : skeleton a [] ≠ none := by
    have heq : skeleton a [] = some (.dir true) := rfl
    simp [heq]
  obtain ⟨t, ht, hcopied, hkept⟩ :=
    exists_copies host paths hroot rfl (fun p _ => hfree (basename p)) hexist hnames
  refine ⟨t, ht, ?_, ?_, fun x hx => hkept x fun p _ => hx (basename p)⟩
  · intro n hn hbase q e
    have hp := hcopied (storePath n) ((hmem _).mpr ⟨n, hn, hbase, rfl⟩) q e
    rwa [basename_storePath (h.closure n hn)] at hp
  · intro n hn q
    rw [hkept _ ?_]
    · exact hfree n q
    · intro p hp r he
      obtain ⟨m, hm, hbase, rfl⟩ := (hmem p).mp hp
      rw [basename_storePath (h.closure m hm)] at he
      obtain ⟨rfl, _⟩ := inStore_append_injective he
      exact hbase (hn hm)

theorem exists_finish {t : DirTree Word} (hroot : t [] = some (.dir true))
    (hblk : t [os "blk"] = some (.dir true)) (himg : t [os "blk", os "root.img"] = none)
    (hvmlinux : t [os "vmlinux"] = none) :
    ∃ t', finish t = some t' ∧
      t' [os "blk", os "root.img"] = some (.link (os "/usr/img/appvm/blk/root.img")) ∧
      t' [os "vmlinux"] = some (.link (os "/usr/img/appvm/vmlinux")) ∧
      ∀ p, p ≠ [os "blk", os "root.img"] → p ≠ [os "vmlinux"] → t' p = t p := by
  have hfirst : t.make [os "blk", os "root.img"] (.link (os "/usr/img/appvm/blk/root.img")) =
      some (t.set [os "blk", os "root.img"] (.link (os "/usr/img/appvm/blk/root.img"))) :=
    if_pos ⟨himg, by simp, hblk⟩
  have hne : [os "vmlinux"] ≠ [os "blk", os "root.img"] := by simp
  have hsecond : (t.set [os "blk", os "root.img"] (.link (os "/usr/img/appvm/blk/root.img"))).make
      [os "vmlinux"] (.link (os "/usr/img/appvm/vmlinux")) = some ((t.set [os "blk", os "root.img"]
        (.link (os "/usr/img/appvm/blk/root.img"))).set [os "vmlinux"]
          (.link (os "/usr/img/appvm/vmlinux"))) := by
    refine if_pos ⟨?_, by simp, ?_⟩
    · rw [set_of_ne _ hne, hvmlinux]
    · exact (set_of_ne _ (by simp) _).trans hroot
  refine ⟨_, by rw [finish, hfirst]; exact hsecond, ?_, set_self .., ?_⟩
  · rw [set_of_ne _ hne.symm, set_self]
  · intro p h₁ h₂
    rw [set_of_ne _ h₂, set_of_ne _ h₁]

theorem exists_makeVm (c : Collation Word) {host : Word → Source Word} {a : Args}
    (h : a.Valid host) : ∃ t, makeVm c host a = some t ∧ Built host a t := by
  have hfs : os "providers" ≠ os "fs" := by decide
  obtain ⟨t₁, ht₁, hextra, hrest, hkept₁⟩ := exists_copied c h
  have hskeleton : ∀ x, x.head? ≠ some (os "fs") → t₁ x = skeleton a x := by
    intro x hx
    exact hkept₁ x fun n q he => hx (by rw [he]; rfl)
  obtain ⟨t₂, ht₂, hkinds, hnoKinds, hvms, hkept₂⟩ := @exists_provide a.provided t₁ h.providers
    (hskeleton [] (by simp)) (hskeleton [os "providers"] (by simpa using hfs))
    fun k q => (hskeleton _ (by simpa using hfs)).trans
      (skeleton_of_not_mem a (by simp [skeletonPaths, hfs]))
  have hother : ∀ x, x.head? ≠ some (os "providers") → t₂ x = t₁ x := by
    intro x hx
    exact hkept₂ x fun k q he => hx (by rw [he]; rfl)
  obtain ⟨t₃, ht₃, himg, hvmlinux, hkept₃⟩ := @exists_finish t₂
    ((hother [] (by simp)).trans (hskeleton [] (by simp)))
    ((hother _ (by decide)).trans (hskeleton _ (by decide)))
    ((hother _ (by decide)).trans ((hskeleton _ (by decide)).trans
      (skeleton_of_not_mem a (by decide))))
    ((hother _ (by decide)).trans ((hskeleton _ (by decide)).trans
      (skeleton_of_not_mem a (by decide))))
  have hfsame : ∀ q, t₃ (os "fs" :: q) = t₁ (os "fs" :: q) := by
    intro q
    rw [hkept₃ _ (by simp [show os "fs" ≠ os "blk" by decide])
      (by simp [show os "fs" ≠ os "vmlinux" by decide]), hother _ (by simp [hfs.symm])]
  have hpsame : ∀ q, t₃ (os "providers" :: q) = t₂ (os "providers" :: q) := fun q =>
    hkept₃ _ (by simp [show os "providers" ≠ os "blk" by decide])
      (by simp [show os "providers" ≠ os "vmlinux" by decide])
  refine ⟨t₃, ?_, ?_⟩
  · have hassert : ¬ (a.providers.flatMap Prod.snd).any (fun vm => vm.contains newline) = true := by
      rw [List.any_eq_true]
      rintro ⟨vm, hvm, hnl⟩
      obtain ⟨x, hx, hvm⟩ := List.mem_flatMap.mp hvm
      have hmem : (x.1, vm) ∈ a.provided :=
        List.mem_flatMap.mpr ⟨x, hx, List.mem_map_of_mem hvm⟩
      rw [h.unbroken _ hmem] at hnl
      cases hnl
    rw [makeVm, if_neg hassert, prepare_eq]
    simp only [Option.bind_eq_bind, Option.bind_some, ht₁, a.providerDirs_eq, ht₂, ht₃]
  · constructor
    case type =>
      rw [hfsame, hkept₁ _ (by simp [inStore])]
      rfl
    case run =>
      rw [hfsame, hkept₁ _ (by simp [inStore])]
      rfl
    case extra =>
      intro n hn hbase q e
      exact (hfsame _).symm ▸ hextra n hn hbase q e
    case rest =>
      intro n hn q
      exact (hfsame _).trans (hrest n hn q)
    case blkDir =>
      rw [hkept₃ _ (by simp) (by decide), hother _ (by decide), hskeleton _ (by decide)]
      rfl
    case blk =>
      intro n
      constructor
      · intro hne
        by_contra hn
        refine hne ?_
        rw [hkept₃ _ (by simpa using hn) (by simp), hother _ (by simp; decide),
          hskeleton _ (by simp; decide)]
        exact skeleton_of_not_mem a (by simp [skeletonPaths, show os "blk" ≠ os "fs" by decide])
      · rintro rfl
        simp [himg]
    case vmlinux => exact hvmlinux
    case kinds =>
      intro k v hkv
      rw [hpsame]
      exact hkinds k v hkv
    case noKinds =>
      intro k hk
      rw [hpsame]
      exact hnoKinds k hk
    case vms =>
      intro k v
      rw [hpsame]
      exact hvms k v

/-- A store with a directory that is read-only, under `b`; apart from it there are an empty
directory, and a file for every other path. -/
def sampleHost (path : Word) : Source Word :=
  if path = storePath (os "b") then ⟨[([], .dir false), ([os "etc"], .dir false)], by decide⟩
  else ⟨[([], if path = os "build/empty" then .dir true else .file path false false)], rfl⟩

end Spectrum.Vm.Package
