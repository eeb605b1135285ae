import Spectrum.Vmm.Config

/-!
# Where `vm_config` panics

An `Option` that is `None` where the code does not expect it is unwrapped, and that is the end of
the process. Most of them cannot be `None`: paths that were put together from other paths have
parents and are text where the parts are, and `net_setup` returns the name of a tap.

**A name that is not UTF-8 is a panic and not an error** when it is the name of an image. The name
of the VM and that of the provider are checked, and they are the only ones that are.
-/

set_option autoImplicit false

namespace Spectrum.Vmm

open Interact Bytes

/-! ## Results -/

/-- An `Ok` or an `Err`. -/
def NoPanic {α : Type} (r : Except Stop α) : Prop := ∀ site, r ≠ .error (.panic site)

theorem noPanic_ok {α : Type} (a : α) : NoPanic (.ok a : Except Stop α) := by
  intro site h
  cases h

theorem noPanic_err {α : Type} (e : String) : NoPanic (.error (.err e) : Except Stop α) := by
  intro site h
  cases h

/-- Passing an error on. -/
theorem NoPanic.error {α β : Type} {stop : Stop} (h : NoPanic (.error stop : Except Stop α)) :
    NoPanic (.error stop : Except Stop β) := by
  intro site he
  cases he
  exact h site rfl

/-- ASCII up to a NUL, which is there. -/
def AsciiId (id : Vector UInt8 16) : Prop :=
  ∃ text rest, id.toList = text ++ 0 :: rest ∧ ∀ b ∈ text, b ≠ 0 ∧ b.toNat < 128

/-- The identifier that `net_setup` returns is the name of a tap. -/
theorem asciiId_clientName {id : Vector UInt8 16} {pid : Nat} {rest : List UInt8}
    (h : id.toList = Net.clientName pid ++ 0 :: rest) : AsciiId id := by
  refine ⟨Net.clientName pid, rest, h, fun b hb => ?_⟩
  rcases List.mem_append.mp (List.mem_of_mem_take hb) with hb | hb
  · have hall : (ascii ['c', 'l', 'i', 'e', 'n', 't']).all fun b => b ≠ 0 ∧ b.toNat < 128 := rfl
    simpa using List.all_eq_true.mp hall b hb
  · have hdigit := mem_decimal hb
    refine ⟨fun h0 => ?_, by omega⟩
    rw [h0] at hdigit
    exact absurd hdigit.1 (by decide)

theorem tryFrom_of_asciiId {c : NetConfigC} (h : AsciiId c.id) :
    ∃ net, NetConfig.tryFrom c = some net := by
  obtain ⟨text, rest, hid, htext⟩ := h
  have hindex : c.id.toList.findIdx (· = 0) = text.length := by
    have hlen : text.findIdx (· = 0) = text.length :=
      List.findIdx_eq_length.mpr fun b hb => by simp [(htext b hb).1]
    rw [hid, List.findIdx_append, hlen, if_neg (Nat.lt_irrefl _)]
    simp [List.findIdx_cons]
  have hvalid : Utf8.Valid text := Utf8.valid_of_ascii fun b hb => (htext b hb).2
  obtain ⟨id, hdecode, -⟩ := hvalid.decode?
  rw [NetConfig.tryFrom, hindex, hid, List.take_left, hdecode]
  exact ⟨_, rfl⟩

section

variable {env : ConfigEnv} {vmDir : Path} {script : Script ConfigCall}
  (hscript : ∀ n (β : Type) (c : ConfigCall β), (script n c).isSome)
  (hnet : ∀ n dir net errno, script n (ConfigCall.netSetup dir) = some (net, errno) →
    net.fd ≠ -1 → AsciiId net.id)
  (hparent : Path.parent vmDir ≠ none)

include hscript hnet hparent

theorem netConfig_noPanic (item : Except Errno FileName) (n : Nat) :
    (netConfig env vmDir item).Returns script n NoPanic := by
  unfold netConfig
  cases item with
  | error e => exact Prog.returns_ret (noPanic_err _)
  | ok entry =>
    dsimp only
    cases Utf8.decode? entry.bytes with
    | none => exact Prog.returns_ret (noPanic_err _)
    | some providerName =>
      cases hdir : Path.parent vmDir with
      | none => exact absurd hdir hparent
      | some dir =>
        obtain ⟨⟨net, errno⟩, hr⟩ := Option.isSome_iff_exists.mp
          (hscript n _ (.netSetup (Path.join dir (Utf8.encode providerName))))
        refine (Prog.returns_call hr).mpr ?_
        rw [Prog.ret_bind]
        dsimp only
        split
        · exact Prog.returns_ret (noPanic_err _)
        · rename_i hfd
          obtain ⟨config, hconfig⟩ := tryFrom_of_asciiId (hnet n _ net errno hr hfd)
          rw [hconfig]
          exact Prog.returns_ret (noPanic_ok config)

theorem netConfigs_noPanic (items : Listing) (n : Nat) :
    (netConfigs env vmDir items).Returns script n NoPanic := by
  induction items generalizing n with
  | nil => exact Prog.returns_ret (noPanic_ok _)
  | cons item items ih =>
    refine (netConfig_noPanic hscript hnet hparent item n).bind fun r n hr => ?_
    cases r with
    | error stop => exact Prog.returns_ret hr.error
    | ok net =>
      refine (ih n).bind fun r n hr => ?_
      cases r with
      | error stop => exact Prog.returns_ret hr.error
      | ok nets => exact Prog.returns_ret (noPanic_ok _)

theorem netProviders_noPanic (n : Nat) :
    (netProviders env vmDir).Returns script n NoPanic := by
  obtain ⟨r, hr⟩ := Option.isSome_iff_exists.mp
    (hscript n _ (.readDir (netProvidersDir vmDir)))
  refine (Prog.returns_call hr).mpr ?_
  rw [Prog.ret_bind]
  cases r with
  | ok entries => exact netConfigs_noPanic hscript hnet hparent _ _
  | error e =>
    dsimp only
    split
    · exact Prog.returns_ret (noPanic_ok _)
    · exact Prog.returns_ret (noPanic_err _)

theorem afterDisks_noPanic (hdir : Utf8.Valid vmDir) (vmName : String) (disks : List DiskConfig)
    (n : Nat) : (afterDisks env vmDir vmName disks).Returns script n NoPanic := by
  refine (netProviders_noPanic hscript hnet hparent n).bind fun r n hr => ?_
  cases r with
  | error stop => exact Prog.returns_ret hr.error
  | ok net =>
    obtain ⟨config, hconfig, -⟩ := @finishConfig_ok env vmDir hdir vmName disks net
    exact Prog.returns_ret (hconfig ▸ noPanic_ok config)

end

/-- The first item that stops the search is an image whose name is not text. -/
def GarbledFirst (dir : Path) (entries : Listing) : Prop :=
  ∃ before item after, entries = before ++ item :: after ∧
    (∀ item ∈ before, ¬ Stops dir item) ∧ Garbled item

/-- There is only one first item. -/
theorem garbled_of_garbledFirst {dir : Path} {before after : Listing}
    {item : Except Errno FileName} (hbefore : ∀ item ∈ before, ¬ Stops dir item)
    (hitem : Stops dir item) (h : GarbledFirst dir (before ++ item :: after)) : Garbled item := by
  obtain ⟨before', item', after', hsplit, hbefore', hgarbled⟩ := h
  induction before generalizing before' with
  | nil =>
    cases before' with
    | nil =>
      cases hsplit
      exact hgarbled
    | cons i before' =>
      cases hsplit
      exact absurd hitem (hbefore' item (by simp))
  | cons i before ih =>
    cases before' with
    | nil =>
      cases hsplit
      exact absurd (Or.inr hgarbled) (hbefore _ (by simp))
    | cons i' before' =>
      rw [List.cons_append, List.cons_append, List.cons.injEq] at hsplit
      exact ih (fun j hj => hbefore j (by simp [hj])) before' hsplit.2
        (fun j hj => hbefore' j (by simp [hj]))

theorem parent_ne_none {dir name : Path} (hne : name ≠ []) (hs : Path.slash ∉ name)
    (hdot : name ≠ ascii ['.']) : Path.parent (Path.join dir name) ≠ none := by
  intro h
  have hnames : Path.names (Path.join dir name) ≠ [] := by
    rw [Path.names_join (Path.not_isAbsolute_of_slash_not_mem hs),
      Path.names_of_counts ⟨hne, hdot⟩ hs]
    simp
  rcases Path.parent_eq_none h with hnil | ⟨-, hnil⟩
  · rw [hnil] at hnames
    exact hnames rfl
  · exact hnames hnil

/-- Once there is a listing, everything depends on it. -/
theorem returns_vmConfig_iff {env : ConfigEnv} {vmDir : Path} {script : Script ConfigCall}
    {name : OsString} {vmName : String} {entries : Listing}
    (hscript : ∀ n (β : Type) (c : ConfigCall β), (script n c).isSome)
    (hnet : ∀ n dir net errno, script n (ConfigCall.netSetup dir) = some (net, errno) →
      net.fd ≠ -1 → AsciiId net.id)
    (hparent : Path.parent vmDir ≠ none) (hdir : Utf8.Valid vmDir)
    (hname : Path.fileName vmDir = some name) (htext : Utf8.decode? name = some vmName)
    (hcolon : ':' ∉ vmName.toList)
    (hr : script 0 (ConfigCall.readDir (blkDir vmDir)) = some (.ok entries)) :
    (vmConfig env vmDir).Returns script 0 NoPanic ↔ ¬ GarbledFirst (blkDir vmDir) entries := by
  unfold Prog.Returns
  rcases diskConfigs_cases env hdir entries with
    ⟨disks, hok, hnone, -⟩ | ⟨before, item, after, stop, rfl, hbefore, herr, hitem⟩
  · rw [play_vmConfig_ok hname htext hcolon hr hok]
    refine ⟨fun _ h => ?_, fun _ => ?_⟩
    · obtain ⟨before, item, after, hsplit, -, hgarbled⟩ := h
      exact hnone item (by simp [hsplit]) (Or.inr hgarbled)
    · exact afterDisks_noPanic hscript hnet hparent hdir vmName disks 1
  · rw [play_vmConfig_error hname htext hcolon hr herr]
    cases hitem with
    | offending hstops hgarbled he =>
      refine ⟨fun _ h => ?_, fun _ => ⟨_, rfl, noPanic_err _⟩⟩
      exact hgarbled (garbled_of_garbledFirst hbefore (Or.inl hstops) h)
    | garbled hgarbled =>
      refine ⟨fun h => ?_, fun h => ?_⟩
      · obtain ⟨r, heq, hno⟩ := h
        cases heq
        exact absurd rfl (hno .entry)
      · exact absurd ⟨before, item, after, rfl, hbefore, hgarbled⟩ h

/-- **The only `unwrap` that can fail is the one on the path of an image.** It does for a name that
is not UTF-8, if the search for disks gets there. -/
theorem vmConfig_noPanic_iff (env : ConfigEnv) (name : FileName)
    (hdot : name.bytes ≠ ascii ['.']) (hdots : name.bytes ≠ ascii ['.', '.'])
    (script : Script ConfigCall)
    (hscript : ∀ n (β : Type) (c : ConfigCall β), (script n c).isSome)
    (hnet : ∀ n dir net errno, script n (ConfigCall.netSetup dir) = some (net, errno) →
      net.fd ≠ -1 → AsciiId net.id) :
    let vmDir := Path.join (os "/run/vm") name.bytes
    (vmConfig env vmDir).Returns script 0 NoPanic ↔
      ¬ (Utf8.Valid name.bytes ∧ colon ∉ name.bytes ∧
        ∃ entries, script 0 (ConfigCall.readDir (blkDir vmDir)) = some (.ok entries) ∧
          GarbledFirst (blkDir vmDir) entries) := by
  intro vmDir
  have hname : Path.fileName vmDir = some name.bytes :=
    Path.fileName_join name.ne_nil name.slash_not_mem hdot hdots
  have hparent : Path.parent vmDir ≠ none :=
    parent_ne_none name.ne_nil name.slash_not_mem hdot
  by_cases hvalid : Utf8.Valid name.bytes
  · have hdir : Utf8.Valid vmDir := (valid_join (valid_os rfl)).mpr hvalid
    obtain ⟨vmName, hdecode, hencode⟩ := hvalid.decode?
    have hiff : colon ∈ name.bytes ↔ ':' ∈ vmName.toList := by
      rw [← hencode]
      exact @Utf8.mem_encode vmName ':' (by decide)
    by_cases hcolon : ':' ∈ vmName.toList
    · refine ⟨fun _ h => h.2.1 (hiff.mpr hcolon), fun _ => ?_⟩
      simp only [vmConfig, hname, hdecode, if_pos hcolon]
      exact Prog.returns_ret (noPanic_err _)
    · obtain ⟨r, hr⟩ := Option.isSome_iff_exists.mp (hscript 0 _ (.readDir (blkDir vmDir)))
      cases r with
      | error e =>
        refine ⟨fun _ h => ?_, fun _ => ?_⟩
        · obtain ⟨-, -, entries, hr', -⟩ := h
          cases hr.symm.trans hr'
        · simp only [vmConfig, hname, hdecode, if_neg hcolon]
          exact (Prog.returns_call hr).mpr (Prog.returns_ret (noPanic_err _))
      | ok entries =>
        rw [returns_vmConfig_iff hscript hnet hparent hdir hname hdecode hcolon hr]
        refine not_congr ⟨fun h => ⟨hvalid, fun h => hcolon (hiff.mp h), entries, hr, h⟩, ?_⟩
        intro h
        obtain ⟨-, -, entries', hr', hgarbled⟩ := h
        cases hr.symm.trans hr'
        exact hgarbled
  · refine ⟨fun _ h => hvalid h.1, fun _ => ?_⟩
    simp only [vmConfig, hname, Utf8.decode?_eq_none.mpr hvalid]
    exact Prog.returns_ret (noPanic_err _)

/-- A name that is not text does no harm if it is not that of an image. -/
theorem vmConfig_noPanic_not_image :
    let env : ConfigEnv := ⟨fun _ => "", fun _ => "", fun _ => "", true⟩
    let name : FileName := ⟨os "a", by decide, by decide, by decide⟩
    let entries : Listing :=
      [.ok ⟨[0xff], by decide, by decide, by decide⟩,
        .ok ⟨os "a.img", by decide, by decide, by decide⟩]
    let net : NetConfigC := ⟨3, ⟨(os "client1" ++ List.replicate 9 0).toArray, rfl⟩, .replicate 6 0⟩
    let script : Script ConfigCall := fun _ _ c =>
      match c with
      | .readDir _ => some (.ok entries)
      | .netSetup _ => some (net, 0)
    (vmConfig env (Path.join (os "/run/vm") name.bytes)).Returns script 0 NoPanic := by
  intro env name entries net script
  have hentries : ∀ item ∈ entries, ¬ Garbled item := by decide +kernel
  refine (vmConfig_noPanic_iff env name (by decide) (by decide) script ?_ ?_).mpr ?_
  · intro n β c
    cases c <;> rfl
  · intro n dir net errno h _
    cases h
    exact @asciiId_clientName _ 1 (List.replicate 8 0) rfl
  · intro h
    obtain ⟨-, -, entries', heq, before, item, after, hsplit, -, hgarbled⟩ := h
    cases heq
    exact hentries item (by rw [hsplit]; simp) hgarbled

/-- An image whose name is the byte 255 with `.img` behind it. -/
theorem vmConfig_panics_on_garbled_image :
    let env : ConfigEnv := ⟨fun _ => "", fun _ => "", fun _ => "", true⟩
    let vmDir := Path.join (os "/run/vm") (os "a")
    let entries : Listing := [.ok ⟨0xff :: os ".img", by decide, by decide, by decide⟩]
    let script : Script ConfigCall := fun _ _ c =>
      match c with
      | .readDir _ => some (.ok entries)
      | .netSetup _ => some (⟨-1, .replicate 16 0, .replicate 6 0⟩, EPERM)
    ((vmConfig env vmDir).play script 0).2 = some (.error (.panic .entry)) := by
  intro env vmDir entries script
  have hname : Path.fileName vmDir = some (os "a") := by decide
  have htext : Utf8.decode? (os "a") = some "a" := Utf8.decode?_eq_some.mpr (by decide)
  have hnone : Utf8.decode? (Path.join (blkDir vmDir) (0xff :: os ".img")) = none :=
    Utf8.decode?_eq_none.mpr (by decide +kernel)
  have hdisks : diskConfigs env (blkDir vmDir) entries = .error (.panic .entry) := by
    rw [diskConfigs_cons, diskItem, if_pos (by decide), entryPath, diskConfig, hnone]
    rfl
  rw [play_vmConfig_error hname htext (by decide) rfl hdisks]

end Spectrum.Vmm
