import Spectrum.Vm.Package
import Spectrum.Vm.Start

/-!
# Who the network comes from

The providers of a VM are files in its package, and two programs look for them. `vm-start` boots
all of them before it boots the VM; `start-vmm` sets up the VM's network with the one it happens to
find first. Nothing but the directory they both read makes sure that this is a VM that has been
booted.

**It does make sure** (`provider_booted_first`), whatever order the directory is listed in, each
time, and however the `vm-start` processes are interleaved: if the package has a provider then the
network is set up, with a provider that has been booted before the VM. The one thing that must be
known of the names is that none is hidden, since `*` matches no name that starts with a dot, and
`read_dir` lists them all.
-/

set_option autoImplicit false

namespace Spectrum.Vm.Providers

open Interact Spectrum.Path Text DirTree Vmm
open Spectrum.Image.Erofs (Word)
open Package

/-! ## Reading a directory -/

/-- What a program that lists the directory `p` finds, if `none` is that there is none: its
entries, in any order. -/
def Reads (t : DirTree Word) (p : List Word) : Option (List FileName) → Prop
  | none => t p = none
  | some entries =>
    (∃ w, t p = some (.dir w)) ∧ entries.Nodup ∧
      ∀ entry : FileName, entry ∈ entries ↔ t (p ++ [entry.bytes]) ≠ none

/-- What `read_dir` returns. -/
def readDir : Option (List FileName) → Except Errno Listing
  | none => .error ENOENT
  | some entries => .ok (entries.map .ok)

/-- `cd` and `elglob -0 providers *`, in `vm-start`. -/
def elglob : Option (List FileName) → List Word
  | none => []
  | some entries => (entries.map FileName.bytes).filter fun name => name.head? ≠ some dot

def netDir : List Word := [os "providers", os "net"]

/-- The directory of a VM. -/
def runDir (vm : Word) : Path := Path.join (os "/run/vm") vm

/-- What is asked of the name of a VM. -/
structure Named (vm : Word) : Prop where
  component : Component vm
  text : Utf8.Valid vm
  colon : colon ∉ vm
  comma : comma ∉ vm

/-- A name with an entry of its own. -/
def entryOf {name : Word} (h : Component name) : FileName :=
  ⟨name, h.1.1, h.2.1, h.2.2.2⟩

section
variable {host : Word → Source Word} {a : Args} {t : DirTree Word}

theorem mem_entries (hbuilt : Built host a t) {entries : List FileName}
    (h : Reads t netDir (some entries)) (entry : FileName) :
    entry ∈ entries ↔ (os "net", entry.bytes) ∈ a.provided :=
  (h.2.2 entry).trans (hbuilt.vms (os "net") entry.bytes)

/-- There is a directory if there is something to put into it. -/
theorem eq_none_iff (hbuilt : Built host a t) {net : Option (List FileName)}
    (h : Reads t netDir net) : net = none ↔ ∀ p, (os "net", p) ∉ a.provided := by
  cases net with
  | none =>
    refine iff_of_true rfl ?_
    intro p hp
    cases (hbuilt.kinds _ p hp).symm.trans h
  | some entries =>
    refine iff_of_false (by simp) ?_
    intro hno
    obtain ⟨w, hw⟩ := h.1
    cases hw.symm.trans (hbuilt.noKinds _ hno)

/-- **`vm-start` boots the providers of the package**, but for those that are hidden. -/
theorem mem_elglob (hvalid : a.Valid host) (hbuilt : Built host a t)
    {net : Option (List FileName)} (h : Reads t netDir net) (p : Word) :
    p ∈ elglob net ↔ (os "net", p) ∈ a.provided ∧ p.head? ≠ some dot := by
  cases net with
  | none => simp [elglob, (eq_none_iff hbuilt h).mp rfl p]
  | some entries =>
    rw [elglob, List.mem_filter, decide_eq_true_iff, List.mem_map]
    refine and_congr_left' ?_
    constructor
    · rintro ⟨entry, hentry, rfl⟩
      exact (mem_entries hbuilt h entry).mp hentry
    · intro hp
      exact ⟨entryOf (hvalid.providers _ hp).2, (mem_entries hbuilt h _).mpr hp, rfl⟩

/-- A provider that only `start-vmm` would find. -/
example : elglob (some [@entryOf (os ".n") (by decide)]) = [] := by decide

/-- There is one disk. -/
theorem eq_rootImg (hbuilt : Built host a t) {blk : Option (List FileName)}
    (h : Reads t [os "blk"] blk) :
    ∃ entry : FileName, entry.bytes = os "root.img" ∧ blk = some [entry] := by
  cases blk with
  | none => cases hbuilt.blkDir.symm.trans h
  | some entries =>
    obtain ⟨-, hnodup, hmem⟩ := h
    have hmem : ∀ entry : FileName, entry ∈ entries ↔ entry.bytes = os "root.img" := fun entry =>
      (hmem entry).trans (hbuilt.blk entry.bytes)
    have hroot := (hmem (@entryOf (os "root.img") (by decide))).mpr rfl
    cases entries with
    | nil => cases hroot
    | cons entry rest =>
      have hentry := (hmem entry).mp List.mem_cons_self
      refine ⟨entry, hentry, ?_⟩
      cases rest with
      | nil => rfl
      | cons other rest =>
        have hother := (hmem other).mp (List.mem_cons_of_mem _ List.mem_cons_self)
        refine absurd ?_ (List.nodup_cons.mp hnodup).1
        have heq : entry = other := by
          cases entry
          cases other
          simp_all
        exact heq ▸ List.mem_cons_self

end

/-! ## `start-vmm` -/

theorem parent_runDir {vm : Word} (h : Component vm) :
    parent (runDir vm) = some (os "/run/vm") := by
  have hjoin : runDir vm = os "/run/vm" ++ slash :: vm := by
    rw [runDir, join, if_neg (not_isAbsolute_of_slash_not_mem h.2.1), if_pos (by decide)]
  have hparts : parts (runDir vm) = [os "run", os "vm", vm] := by
    have hdrop : (os "/run/vm" ++ slash :: vm).drop 1 =
        os "run" ++ slash :: (os "vm" ++ slash :: vm) := rfl
    have hstart : Path.start (os "/run/vm" ++ slash :: vm) = 1 := if_pos rfl
    rw [parts, hjoin, hstart, hdrop, List.splitOn_append_cons_self, List.splitOn_append_cons_self,
      List.splitOn_eq_singleton h.2.1, List.splitOn_eq_singleton (by decide),
      List.splitOn_eq_singleton (by decide)]
    rfl
  have hcounts : Counts vm := h.1
  have hcounts' : Counts (os "vm") := by decide
  have hstart : Path.start (runDir vm) = 1 := by
    rw [hjoin]
    exact if_pos rfl
  rw [parent, hparts, hstart, hjoin]
  simp only [List.reverse_cons, List.reverse_nil, List.nil_append, List.cons_append,
    List.dropWhile_cons, hcounts, hcounts', not_true, decide_false]
  rfl

theorem not_mem_join {b : UInt8} {p q : Path} (hslash : b ≠ slash) (hp : b ∉ p) (hq : b ∉ q) :
    b ∉ join p q := by
  unfold join
  split
  · exact hq
  · split <;> simp [hp, hq, hslash]

theorem diskConfigs_rootImg (env : ConfigEnv) {vm : Word} (hvm : Named vm) {entry : FileName}
    (hentry : entry.bytes = os "root.img") :
    ∃ disk, diskConfigs env (blkDir (runDir vm)) [.ok entry] = .ok [disk] ∧
      disk.readonly = true ∧
      Utf8.encode disk.path = Path.join (blkDir (runDir vm)) (os "root.img") := by
  have hdir : Utf8.Valid (runDir vm) := (valid_join (valid_os rfl)).mpr hvm.text
  have himages : images [.ok entry] = [os "root.img"] := by
    have himg : IsImage (os "root.img") := by decide
    simp [images, hentry, himg]
  have hhandled := handled_diskItem env hdir (.ok entry)
  rw [diskConfigs_cons]
  generalize diskItem env (blkDir (runDir vm)) (.ok entry) = outcome at hhandled
  cases hhandled with
  | skipped _ h => simp [himages] at h
  | disk _ h hreadonly hpath =>
    obtain rfl : os "root.img" = _ := by simpa [himages] using h
    exact ⟨_, rfl, hreadonly, hpath⟩
  | offending h =>
    refine absurd h.2 ?_
    rw [hentry]
    refine not_mem_join (by decide) (not_mem_join (by decide) ?_ (by decide)) (by decide)
    exact not_mem_join (by decide) (not_mem_join (by decide) (by decide) hvm.comma) (by decide)
  | garbled h =>
    refine absurd ?_ h.2
    rw [hentry]
    exact valid_os rfl

section
variable {env : ConfigEnv} {script : Script ConfigCall} {vm : Word} {vmName : String}
  {disks : List DiskConfig}

/-- Without a directory nothing more is asked for. -/
theorem countP_of_none
    (hscript : script 1 (ConfigCall.readDir (netProvidersDir (runDir vm))) =
      some (.error ENOENT)) :
    ((afterDisks env (runDir vm) vmName disks).play script 1).1.countP isNetSetup = 0 := by
  have hplay : (afterDisks env (runDir vm) vmName disks).play script 1 =
      ([⟨.readDir (netProvidersDir (runDir vm)), some (.error ENOENT)⟩],
        some (finishConfig env (runDir vm) vmName disks [])) := Prog.play_call hscript
  rw [hplay]
  rfl

/-- The first entry is the provider. -/
theorem exists_netSetup (hvm : Component vm) {entry : FileName} {rest : List FileName}
    (htext : Utf8.Valid entry.bytes)
    (hscript : script 1 (ConfigCall.readDir (netProvidersDir (runDir vm))) =
      some (.ok ((entry :: rest).map .ok))) :
    ∃ asked answer later, ((afterDisks env (runDir vm) vmName disks).play script 1).1 =
      asked :: ⟨.netSetup (runDir entry.bytes), answer⟩ :: later ∧ isNetSetup asked = false := by
  obtain ⟨providerName, hdecode, hencode⟩ := htext.decode?
  obtain ⟨k, hk⟩ : ∃ k, netConfig env (runDir vm) (.ok entry) =
      .call (ConfigCall.netSetup (runDir entry.bytes)) k := by
    rw [netConfig, hdecode]
    dsimp only
    rw [parent_runDir hvm, hencode]
    exact ⟨_, rfl⟩
  obtain ⟨finish, hfinish⟩ : ∃ finish, afterDisks env (runDir vm) vmName disks =
      (netProviders env (runDir vm)).bind finish := ⟨_, rfl⟩
  obtain ⟨k', hk'⟩ : ∃ k', (netConfigs env (runDir vm) [.ok entry]).bind finish =
      .call (ConfigCall.netSetup (runDir entry.bytes)) k' := by
    rw [netConfigs, hk]
    exact ⟨_, rfl⟩
  have hplay : ((afterDisks env (runDir vm) vmName disks).play script 1).1 =
      ⟨.readDir (netProvidersDir (runDir vm)), some (.ok ((entry :: rest).map .ok))⟩ ::
        (((netConfigs env (runDir vm) [.ok entry]).bind finish).play script 2).1 := by
    rw [hfinish]
    exact congrArg Prod.fst (Prog.play_call hscript)
  obtain ⟨later, hlater⟩ := List.head?_eq_some_iff.mp
    (@Prog.play_call_head _ _ script _ (ConfigCall.netSetup (runDir entry.bytes)) k' 2)
  exact ⟨_, _, later, by rw [hplay, hk', hlater], rfl⟩

end

/-! ## Both of them -/

/-- `start-vmm` gets as far as the providers, with the disk of the package. -/
theorem exists_afterDisks {host : Word → Source Word} {a : Args} {t : DirTree Word}
    (hbuilt : Built host a t) {env : ConfigEnv} {script : Script ConfigCall} {vm : Word}
    (hvm : Named vm) {blk : Option (List FileName)} (hblk : Reads t [os "blk"] blk)
    (hscript : script 0 (ConfigCall.readDir (blkDir (runDir vm))) = some (readDir blk)) :
    ∃ first vmName disk, (vmConfig env (runDir vm)).play script 0 =
        (first :: ((afterDisks env (runDir vm) vmName [disk]).play script 1).1,
          ((afterDisks env (runDir vm) vmName [disk]).play script 1).2) ∧
      isNetSetup first = false ∧ disk.readonly = true ∧
      Utf8.encode disk.path = Path.join (blkDir (runDir vm)) (os "root.img") := by
  obtain ⟨entry, hentry, rfl⟩ := eq_rootImg hbuilt hblk
  obtain ⟨disk, hdisks, hreadonly, hpath⟩ := diskConfigs_rootImg env hvm hentry
  obtain ⟨vmName, hdecode, hencode⟩ := hvm.text.decode?
  have hcolon : ':' ∉ vmName.toList := by
    intro h
    have hmem := (@Utf8.mem_encode vmName ':' (by decide)).mpr h
    rw [hencode] at hmem
    exact hvm.colon hmem
  have hname : Path.fileName (runDir vm) = some vm :=
    fileName_join hvm.component.1.1 hvm.component.2.1 hvm.component.1.2 hvm.component.2.2.1
  exact ⟨_, vmName, disk, play_vmConfig_ok hname hdecode hcolon hscript hdisks, rfl, hreadonly,
    hpath⟩

/-- VMs with their packages. -/
structure Fleet (host : Word → Source Word) (packages : Word → Args)
    (trees : Word → DirTree Word) : Prop where
  valid : ∀ vm, (packages vm).Valid host
  made : ∀ vm, ∃ c, makeVm c host (packages vm) = some (trees vm)
  /-- Names are text, and none of them is hidden. -/
  names : ∀ vm p, (os "net", p) ∈ (packages vm).provided → Utf8.Valid p ∧ p.head? ≠ some dot

theorem Fleet.built {host : Word → Source Word} {packages : Word → Args}
    {trees : Word → DirTree Word} (h : Fleet host packages trees) (vm : Word) :
    Built host (packages vm) (trees vm) := by
  obtain ⟨c, hc⟩ := h.made vm
  obtain ⟨t, ht, hbuilt⟩ := exists_makeVm c (h.valid vm)
  rw [hc] at ht
  cases ht
  exact hbuilt

/-- **The network is set up with a VM that has been booted.** Let `vm-start` have booted `before`
and then `vm`. `start-vmm` gives `vm` the disk of its package, it sets up the network exactly if the
package has a provider, and if it does then with a provider that is one of `before`. -/
theorem provider_booted_first {host : Word → Source Word} {packages : Word → Args}
    {trees : Word → DirTree Word} (hfleet : Fleet host packages trees)
    -- a run of `vm-start`, with what each process finds
    {nets : Word → Option (List FileName)} (hnets : ∀ vm, Reads (trees vm) netDir (nets vm))
    {root : Word} {sched : List Nat} {s : Vm.State Word}
    (hrun : Schedule.run (step fun vm => elglob (nets vm)) (Vm.start root) sched = some s)
    {before after : List Word} {vm : Word} (hboots : s.boots = before ++ vm :: after)
    -- `start-vmm` for one of the VMs, with what it finds
    (hvm : Named vm) {blk net : Option (List FileName)} (hblk : Reads (trees vm) [os "blk"] blk)
    (hnet : Reads (trees vm) netDir net) (env : ConfigEnv) {script : Script ConfigCall}
    (hscript₀ : script 0 (ConfigCall.readDir (blkDir (runDir vm))) = some (readDir blk))
    (hscript₁ : script 1 (ConfigCall.readDir (netProvidersDir (runDir vm))) =
      some (readDir net)) :
    (∀ config, ((vmConfig env (runDir vm)).play script 0).2 = some (.ok config) →
      ∃ disk, config.disks = [disk] ∧ disk.readonly = true ∧
        Utf8.encode disk.path = Path.join (blkDir (runDir vm)) (os "root.img")) ∧
    (((vmConfig env (runDir vm)).play script 0).1.countP isNetSetup = 1 ↔
      ∃ p, (os "net", p) ∈ (packages vm).provided) ∧
    ∀ dir answer, ⟨.netSetup dir, answer⟩ ∈ ((vmConfig env (runDir vm)).play script 0).1 →
      ∃ p ∈ before, (os "net", p) ∈ (packages vm).provided ∧ dir = runDir p := by
  have hbuilt := hfleet.built vm
  obtain ⟨first, vmName, disk, hplay, hfirst, hreadonly, hpath⟩ :=
    exists_afterDisks hbuilt hvm hblk hscript₀
  have honce : ((vmConfig env (runDir vm)).play script 0).1.countP isNetSetup ≤ 1 :=
    countP_vmConfig 0
  rw [hplay] at honce ⊢
  refine ⟨?_, ?_⟩
  · intro config hconfig
    have hdir : Utf8.Valid (runDir vm) := (valid_join (valid_os rfl)).mpr hvm.text
    exact ⟨disk, disks_of_afterDisks hdir hconfig, hreadonly, hpath⟩
  · cases net with
    | none =>
      have hnone := (eq_none_iff hbuilt hnet).mp rfl
      have hzero : (first :: ((afterDisks env (runDir vm) vmName [disk]).play script 1).1).countP
          isNetSetup = 0 := by
        rw [List.countP_cons_of_neg (by simp [hfirst]), countP_of_none hscript₁]
      refine ⟨by simp [hzero, hnone], ?_⟩
      intro dir answer hmem
      have hnot := List.countP_eq_zero.mp hzero _ hmem
      exact absurd rfl hnot
    | some entries =>
      cases entries with
      | nil =>
        -- the directory would not be there
        obtain ⟨p, hp⟩ : ∃ p, (os "net", p) ∈ (packages vm).provided := by
          by_contra hno
          cases (eq_none_iff hbuilt hnet).mpr (not_exists.mp hno)
        have hentry := (mem_entries hbuilt hnet
          (entryOf ((hfleet.valid vm).providers _ hp).2)).mpr hp
        cases hentry
      | cons entry rest =>
        have hprovided := (mem_entries hbuilt hnet entry).mp List.mem_cons_self
        obtain ⟨htext, hvisible⟩ := hfleet.names vm _ hprovided
        obtain ⟨asked, answer, later, hevents, hasked⟩ :=
          @exists_netSetup env script vm vmName [disk] hvm.component entry rest htext hscript₁
        have hsetup : isNetSetup ⟨.netSetup (runDir entry.bytes), answer⟩ = true := rfl
        rw [hevents] at honce ⊢
        simp only [List.countP_cons, hfirst, hasked, hsetup, if_true] at honce ⊢
        have hlater : later.countP isNetSetup = 0 := by simpa using honce
        refine ⟨by simpa [hlater] using ⟨_, hprovided⟩, ?_⟩
        intro dir answer' hmem
        have hbooted : entry.bytes ∈ before :=
          (inv_run hrun).respects before vm after hboots entry.bytes
            ((mem_elglob (hfleet.valid vm) hbuilt (hnets vm) _).mpr ⟨hprovided, hvisible⟩)
        refine ⟨entry.bytes, hbooted, hprovided, ?_⟩
        -- the first two events are listings, and the rest has no such call
        rcases List.mem_cons.mp hmem with rfl | hmem
        · cases hfirst
        rcases List.mem_cons.mp hmem with rfl | hmem
        · cases hasked
        rcases List.mem_cons.mp hmem with heq | hmem
        · cases heq
          rfl
        · exact absurd rfl (List.countP_eq_zero.mp hlater _ hmem)

/-- The VM `a` has its network from `n`, and no other VM has one. -/
def samplePackages (vm : Word) : Args :=
  { run := storePath (os "run"), type := os "nix", closure := [], base := []
    providers := if vm = os "a" then [(os "net", [os "n"])] else [] }

def sampleTrees (vm : Word) : DirTree Word :=
  (makeVm byteOrder sampleHost (samplePackages vm)).getD DirTree.empty

def sampleNets (vm : Word) : Option (List FileName) :=
  if vm = os "a" then some [@entryOf (os "n") (by decide)] else none

def sampleBlk : Option (List FileName) := some [@entryOf (os "root.img") (by decide)]

/-- `net_setup` does not come back. -/
def sampleScript : Script ConfigCall := fun n _ call =>
  match call with
  | .readDir _ => some (readDir (if n = 0 then sampleBlk else sampleNets (os "a")))
  | .netSetup _ => none

theorem provided_sample {vm : Word} {x : Word × Word} :
    x ∈ (samplePackages vm).provided ↔ vm = os "a" ∧ x = (os "net", os "n") := by
  by_cases h : vm = os "a" <;> simp [samplePackages, Args.provided, h]

theorem fleet_sample : Fleet sampleHost samplePackages sampleTrees := by
  have hvalid : ∀ vm, (samplePackages vm).Valid sampleHost := by
    intro vm
    refine ⟨by simp [samplePackages], by simp [samplePackages], by simp [samplePackages],
      by simp [samplePackages], by simp [samplePackages], ?_, ?_⟩
    · intro x hx
      obtain ⟨-, rfl⟩ := provided_sample.mp hx
      decide
    · intro x hx
      obtain ⟨-, rfl⟩ := provided_sample.mp hx
      decide
  refine ⟨hvalid, ?_, ?_⟩
  · intro vm
    obtain ⟨t, ht, -⟩ := exists_makeVm byteOrder (hvalid vm)
    exact ⟨byteOrder, by rw [sampleTrees, ht]; rfl⟩
  · intro vm p hp
    obtain ⟨-, hp⟩ := provided_sample.mp hp
    cases hp
    exact ⟨valid_os rfl, by decide⟩

theorem reads_sampleNets (vm : Word) : Reads (sampleTrees vm) netDir (sampleNets vm) := by
  have hbuilt := fleet_sample.built vm
  by_cases h : vm = os "a"
  · subst h
    have hprovided := (@provided_sample (os "a") (os "net", os "n")).mpr ⟨rfl, rfl⟩
    refine ⟨⟨true, hbuilt.kinds _ _ hprovided⟩, List.nodup_singleton _, ?_⟩
    intro entry
    rw [List.mem_singleton]
    refine Iff.trans ?_ (hbuilt.vms (os "net") entry.bytes).symm
    rw [provided_sample]
    constructor
    · rintro rfl
      exact ⟨rfl, rfl⟩
    · rintro ⟨-, he⟩
      cases entry
      cases he
      rfl
  · have hnone : sampleNets vm = none := if_neg h
    rw [hnone]
    exact hbuilt.noKinds _ fun p hp => h (provided_sample.mp hp).1

theorem reads_sampleBlk : Reads (sampleTrees (os "a")) [os "blk"] sampleBlk := by
  have hbuilt := fleet_sample.built (os "a")
  refine ⟨⟨true, hbuilt.blkDir⟩, List.nodup_singleton _, ?_⟩
  intro entry
  rw [List.mem_singleton]
  refine Iff.trans ?_ (hbuilt.blk entry.bytes).symm
  constructor
  · rintro rfl
    rfl
  · intro he
    cases entry
    cases he
    rfl

/-- `n` is booted, then `a`, and `a` has its network from `n`. -/
theorem provider_booted_first_sample :
    let env : ConfigEnv := ⟨fun _ => "", fun _ => "", fun _ => "", true⟩
    ∃ s, Schedule.run (step fun vm => elglob (sampleNets vm)) (Vm.start (os "a"))
        [0, 0, 0, 1, 1, 1, 1, 0] = some s ∧ s.boots = [os "n", os "a"] ∧
      ((vmConfig env (runDir (os "a"))).play sampleScript 0).1.countP isNetSetup = 1 ∧
      ∀ dir answer,
        ⟨.netSetup dir, answer⟩ ∈ ((vmConfig env (runDir (os "a"))).play sampleScript 0).1 →
          dir = runDir (os "n") := by
  intro env
  obtain ⟨s, hrun, hboots⟩ : ∃ s, Schedule.run (step fun vm => elglob (sampleNets vm))
      (Vm.start (os "a")) [0, 0, 0, 1, 1, 1, 1, 0] = some s ∧
        s.boots = [os "n"] ++ os "a" :: [] := ⟨_, rfl, rfl⟩
  have hvm : Named (os "a") := ⟨by decide, valid_os rfl, by decide, by decide⟩
  obtain ⟨-, hcount, hdirs⟩ := @provider_booted_first _ _ _ fleet_sample _ reads_sampleNets _ _ _
    hrun _ _ _ hboots hvm sampleBlk _ reads_sampleBlk (reads_sampleNets _) env sampleScript rfl rfl
  refine ⟨s, hrun, hboots, hcount.mpr ⟨os "n", provided_sample.mpr ⟨rfl, rfl⟩⟩, ?_⟩
  intro dir answer hmem
  obtain ⟨p, hp, -, hdir⟩ := hdirs dir answer hmem
  rw [hdir, List.mem_singleton.mp hp]

end Spectrum.Vm.Providers
