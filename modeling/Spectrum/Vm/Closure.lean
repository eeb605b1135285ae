import Spectrum.Vm.Package

/-!
# The store of an app's VM

The package of a VM has a store of its own, from which everything is left out that is in the VM's
root image already. In the VM the service `app` finds out from the package what to run, and puts
the two stores back together, with an overlay.

**The parts fit** (`app_has_closure`): everything the app needs is in the VM's store, exactly as it
was in the store the package was built from, although each of the two parts has only some of it.

The root image is the one that `make-erofs.sh` makes of the base's closure and the files of the
Makefile in `img/app`, which can be put into one image (`Sources.baseImage`) because every one of
them goes to a place of its own.
-/

set_option autoImplicit false

namespace Spectrum.Vm.Package

open Spectrum.Path Text DirTree Vmm
open Spectrum.Image.Erofs

/-! ## The root image -/

/-- What `img/app` puts into the root image: the root of `packagesSysroot`, everything in its
closure, and the files of the Makefile. -/
def basePairs (sysroot : Word) (base : List Word) (files : List (Word × Word)) :
    List (Word × Word) :=
  (storePath sysroot, [slash]) :: base.map (fun n => (storePath n, storePath n)) ++ files

/-- What is asked of them: they can be put into one image, and only the closure goes to `/nix`. -/
structure BaseImage (host : Word → Source Word) (sysroot : Word) (base : List Word)
    (files : List (Word × Word)) : Prop where
  compatible : Compatible host (basePairs sysroot base files)
  lines : ∀ x ∈ basePairs sysroot base files, Lines x
  inClosure : sysroot ∈ base
  root : ∀ x ∈ (host (storePath sysroot)).entries, x.1.head? ≠ some (os "nix")
  files : ∀ x ∈ files, ∃ n p, names x.2 = n :: p ∧ n ≠ os "nix"

/-! ## The files of the Makefile -/

/-- `VM_FILES`. -/
def vmFiles : List Word := [
  os "etc/dbus-1/session.conf", os "etc/fstab", os "etc/init", os "etc/mdev.conf",
  os "etc/mdev/iface", os "etc/mdev/listen", os "etc/mdev/virtiofs", os "etc/mdev/wait",
  os "etc/passwd", os "etc/resolv.conf", os "etc/s6-linux-init/env/DBUS_SESSION_BUS_ADDRESS",
  os "etc/s6-linux-init/env/DISPLAY", os "etc/s6-linux-init/env/GTK_USE_PORTAL",
  os "etc/s6-linux-init/env/NIX_XDG_DESKTOP_PORTAL_DIR",
  os "etc/s6-linux-init/env/WAYLAND_DISPLAY", os "etc/s6-linux-init/env/XDG_RUNTIME_DIR",
  os "etc/s6-linux-init/run-image/service/s6-linux-init-shutdownd/notification-fd",
  os "etc/s6-linux-init/run-image/service/s6-linux-init-shutdownd/run",
  os "etc/s6-linux-init/run-image/service/getty-hvc0/run",
  os "etc/s6-linux-init/scripts/rc.init", os "etc/s6-linux-init/scripts/rc.shutdown",
  os "etc/s6-linux-init/scripts/rc.shutdown.final", os "etc/xdg/xdg-desktop-portal/portals.conf"]

/-- `VM_LINKS`. -/
def vmLinks : List Word := [os "bin", os "etc/ssl/certs/ca-certificates.crt"]

/-- `VM_DIRS`. -/
def vmDirs : List Word :=
  [os "dev", os "run", os "proc", os "sys", os "tmp", os "etc/s6-linux-init/run-image/service"]

/-- `VM_FIFOS`. -/
def vmFifos : List Word :=
  [os "etc/s6-linux-init/run-image/service/s6-linux-init-shutdownd/fifo"]

/-- The one of `VM_BUILD_FILES`, and `${file#build/}`. -/
def s6rc : Word × Word := (os "build/etc/s6-rc", os "etc/s6-rc")

/-- What the Makefile adds to `$PACKAGES`. -/
def makefilePairs : List (Word × Word) :=
  (vmFiles ++ vmLinks).map (fun f => (f, f)) ++ s6rc :: vmDirs.map (fun d => (os "build/empty", d))
    ++ vmFifos.map fun f => (os "build/fifo", f)

def certs : List Word := [os "etc", os "ssl", os "certs"]

def links : List (List Word) := [[os "lib64"], [os "usr"], [os "lib"]]

/-- What is where it is in `packagesSysroot`: the directories for the certificates, the
certificates themselves, and three links. -/
def InSysroot (p : List Word) (e : Entry) : Prop :=
  (p <+: certs ∧ ∃ w, e = .dir w) ∨ p ∈ links ∨
    ∃ c, c ≠ os "ca-certificates.crt" ∧ p = certs ++ [c]

/-- What is known of the sources: the names of the closure, what `packagesSysroot` consists of, and
that the sources of the Makefile are single files, but for the services' database. -/
structure Sources (host : Word → Source Word) (sysroot : Word) (base : List Word) : Prop where
  component : ∀ n ∈ base, Component n
  lines : ∀ n ∈ base, Lines (storePath n, storePath n)
  nodup : base.Nodup
  exist : ∀ n ∈ base, (host (storePath n)).entries ≠ []
  inClosure : sysroot ∈ base
  sysroot : ∀ x ∈ (host (storePath sysroot)).entries, InSysroot x.1 x.2
  single : ∀ f ∈ os "build/fifo" :: (vmFiles ++ vmLinks), ∃ e, (host f).entries = [([], e)]
  empty : ∃ w, (host (os "build/empty")).entries = [([], .dir w)]
  database : (host s6rc.1).entries ≠ []

section
variable {host : Word → Source Word} {sysroot : Word} {base : List Word}

theorem mem_makefilePairs {x : Word × Word} (h : x ∈ makefilePairs) :
    x.1 ∈ os "build/fifo" :: (vmFiles ++ vmLinks) ∨ x.1 = os "build/empty" ∨ x = s6rc := by
  simp only [makefilePairs, List.mem_append, List.mem_cons, List.mem_map] at h
  rcases h with (⟨f, hf, rfl⟩ | rfl | ⟨d, _, rfl⟩) | ⟨f, _, rfl⟩
  · exact .inl (List.mem_cons_of_mem _ (List.mem_append.mpr hf))
  · exact .inr (.inr rfl)
  · exact .inr (.inl rfl)
  · exact .inl List.mem_cons_self

/-- Where the Makefile puts things: to a place of its own each, which is not in the store nor where
something of the sysroot goes, and on the way to no other one's, but for the directories. -/
theorem makefilePairs_apart :
    (makefilePairs.Pairwise fun x y => names x.2 ≠ names y.2 ∧
      (x = s6rc → ¬ names x.2 <+: names y.2) ∧ (y = s6rc → ¬ names y.2 <+: names x.2)) ∧
    (∀ x ∈ makefilePairs, x.1 = os "build/empty" ∨
      ∀ y ∈ makefilePairs, ¬ names x.2 <+: (names y.2).dropLast) ∧
    ∀ x ∈ makefilePairs, linesOk x = true ∧ Plain x.2 ∧
      (names x.2 ≠ [] ∧ (names x.2).head? ≠ some (os "nix")) ∧ ¬ names x.2 <+: certs ∧
      (∀ p ∈ links, ¬ p <+: names x.2 ∧ ¬ names x.2 <+: p) ∧
      (certs <+: names x.2 → names x.2 = certs ++ [os "ca-certificates.crt"]) := by
  decide +kernel

/-- What a pair of the Makefile brings is at its destination, or below it if it is the database. -/
theorem Sources.brings (h : Sources host sysroot base) {x : Word × Word} (hx : x ∈ makefilePairs)
    {p : List Word} {e : Entry} (hb : Brings host x p e) :
    names x.2 <+: p ∧ (x ≠ s6rc → p = names x.2) ∧ (x.1 = os "build/empty" → ∃ w, e = .dir w) := by
  obtain ⟨q, hq, rfl⟩ := hb
  refine ⟨List.prefix_append _ _, ?_, ?_⟩
  · intro hne
    suffices hnil : q = [] by rw [hnil, List.append_nil]
    rcases mem_makefilePairs hx with hsingle | hempty | hdb
    · obtain ⟨e', he'⟩ := h.single _ hsingle
      rw [he', List.mem_singleton] at hq
      exact congrArg Prod.fst hq
    · obtain ⟨w, hw⟩ := h.empty
      rw [hempty, hw, List.mem_singleton] at hq
      exact congrArg Prod.fst hq
    · exact absurd hdb hne
  · intro hempty
    obtain ⟨w, hw⟩ := h.empty
    rw [hempty, hw, List.mem_singleton] at hq
    exact ⟨w, congrArg Prod.snd hq⟩

/-- What comes from the sysroot is where none of the Makefile's destinations is. -/
theorem Sources.not_inSysroot (h : Sources host sysroot base) {x : Word × Word}
    (hx : x ∈ makefilePairs) {p : List Word} {e e' : Entry} (hb : Brings host x p e)
    (hp : InSysroot p e') : False := by
  obtain ⟨-, -, -, hcerts, hlinks, hcert⟩ := makefilePairs_apart.2.2 x hx
  obtain ⟨hpre, heq, -⟩ := h.brings hx hb
  rcases hp with ⟨hp, -⟩ | hp | ⟨c, hc, rfl⟩
  · exact hcerts (hpre.trans hp)
  · exact (hlinks p hp).2 hpre
  · rcases List.prefix_concat_iff.mp hpre with heq | hpre
    · have hca := hcert (heq ▸ List.prefix_append _ _)
      rw [heq] at hca
      exact hc (by simpa using hca)
    · exact hcerts hpre

theorem Sources.brings_storePath (h : Sources host sysroot base) {n : Word} (hn : n ∈ base)
    {p : List Word} {e : Entry} (hb : Brings host (storePath n, storePath n) p e) :
    ∃ q, p = os "nix" :: os "store" :: n :: q := by
  obtain ⟨q, _, rfl⟩ := hb
  exact ⟨q, by rw [names_storePath (h.component n hn)]; rfl⟩

theorem Sources.brings_sysroot (h : Sources host sysroot base) {p : List Word} {e : Entry}
    (hb : Brings host (storePath sysroot, [slash]) p e) : InSysroot p e := by
  obtain ⟨q, hq, rfl⟩ := hb
  exact h.sysroot _ hq

theorem InSysroot.head_ne {p : List Word} {e : Entry} (h : InSysroot p e) :
    p.head? ≠ some (os "nix") := by
  rcases h with ⟨⟨r, hr⟩, -⟩ | hp | ⟨c, -, rfl⟩
  · cases p with
    | nil => simp
    | cons n p =>
      obtain rfl : n = os "etc" := (List.cons.inj hr).1
      exact fun hnix => absurd (Option.some.inj hnix) (by decide)
  · have hall : ∀ p ∈ links, p.head? ≠ some (os "nix") := by decide
    exact hall p hp
  · have hetc : (certs ++ [c]).head? = some (os "etc") := rfl
    rw [hetc]
    decide

theorem Sources.head_ne (h : Sources host sysroot base) {x : Word × Word}
    (hx : x ∈ makefilePairs) {p : List Word} {e : Entry} (hb : Brings host x p e) :
    p.head? ≠ some (os "nix") := by
  obtain ⟨-, -, ⟨hne, hhead⟩, -⟩ := makefilePairs_apart.2.2 x hx
  obtain ⟨⟨q, rfl⟩, -⟩ := h.brings hx hb
  rwa [List.head?_append_of_ne_nil _ hne]

/-- No path comes from two pairs. -/
theorem Sources.apart (h : Sources host sysroot base) :
    (basePairs sysroot base makefilePairs).Pairwise fun x y =>
      ∀ p e e', Brings host x p e → ¬ Brings host y p e' := by
  rw [basePairs, List.pairwise_append, List.pairwise_cons, List.pairwise_map]
  refine ⟨⟨?_, ?_⟩, ?_, ?_⟩
  · intro y hy p e e' hx hy'
    obtain ⟨n, hn, rfl⟩ := List.mem_map.mp hy
    obtain ⟨q, rfl⟩ := h.brings_storePath hn hy'
    exact (h.brings_sysroot hx).head_ne rfl
  · refine h.nodup.imp_of_mem ?_
    intro m n hm hn hne p e e' hx hy
    obtain ⟨q, rfl⟩ := h.brings_storePath hm hx
    obtain ⟨r, hr⟩ := h.brings_storePath hn hy
    exact hne (List.cons.inj (List.cons.inj (List.cons.inj hr).2).2).1
  · refine makefilePairs_apart.1.imp_of_mem ?_
    rintro x y hx hy ⟨hne, hxdb, hydb⟩ p e e' hbx hby
    obtain ⟨hxpre, hxeq, -⟩ := h.brings hx hbx
    obtain ⟨hypre, hyeq, -⟩ := h.brings hy hby
    by_cases hxd : x = s6rc
    · by_cases hyd : y = s6rc
      · exact hne (by rw [hxd, hyd])
      · exact hxdb hxd (hyeq hyd ▸ hxpre)
    · by_cases hyd : y = s6rc
      · exact hydb hyd (hxeq hxd ▸ hypre)
      · exact hne ((hxeq hxd).symm.trans (hyeq hyd))
  · intro x hx y hy p e e' hbx hby
    rcases List.mem_cons.mp hx with rfl | hx
    · exact h.not_inSysroot hy hby (h.brings_sysroot hbx)
    · obtain ⟨n, hn, rfl⟩ := List.mem_map.mp hx
      obtain ⟨q, rfl⟩ := h.brings_storePath hn hbx
      exact h.head_ne hy hby rfl

/-- What is on the way to a destination outside the store is on the way to one of the Makefile's. -/
theorem Sources.above (h : Sources host sysroot base) {p : List Word}
    (hp : Above (basePairs sysroot base makefilePairs) p) :
    p <+: [os "nix", os "store"] ∨ ∃ y ∈ makefilePairs, p <+: (names y.2).dropLast := by
  rcases hp with rfl | ⟨x, hx, hp⟩
  · exact .inl List.nil_prefix
  rcases List.mem_append.mp hx with hx | hx
  · rcases List.mem_cons.mp hx with rfl | hx
    · exact .inl (hp.trans List.nil_prefix)
    · obtain ⟨n, hn, rfl⟩ := List.mem_map.mp hx
      rw [names_storePath (h.component n hn)] at hp
      exact .inl hp
  · exact .inr ⟨x, hx, hp⟩

theorem head_of_isPrefix {n : Word} {p q : List Word} (hne : p ≠ []) (h : p <+: n :: q) :
    p.head? = some n := by
  rcases List.prefix_cons_iff.mp h with rfl | ⟨p', rfl, -⟩
  · exact absurd rfl hne
  · rfl

/-- What is on the way to a destination is a directory. -/
theorem Sources.through (h : Sources host sysroot base) (p : List Word) (e : Entry)
    (hp : Above (basePairs sysroot base makefilePairs) p)
    (he : Sourced host (basePairs sysroot base makefilePairs) p e) : ∃ w, e = .dir w := by
  obtain ⟨x, hx, hb⟩ := he
  rcases List.mem_append.mp hx with hx | hx
  · rcases List.mem_cons.mp hx with rfl | hx
    · rcases h.brings_sysroot hb with ⟨-, hdir⟩ | hlink | ⟨c, hc, rfl⟩
      · exact hdir
      · have hne : ∀ p ∈ links, p ≠ [] := by decide
        rcases h.above hp with hp | ⟨y, hy, hp⟩
        · exact absurd (head_of_isPrefix (hne p hlink) hp) (h.brings_sysroot hb).head_ne
        · obtain ⟨-, -, -, -, hlinks, -⟩ := makefilePairs_apart.2.2 y hy
          exact absurd (hp.trans (List.dropLast_prefix _)) (hlinks p hlink).1
      · rcases h.above hp with hp | ⟨y, hy, hp⟩
        · simpa [certs] using hp.length_le
        · obtain ⟨-, -, -, -, -, hcert⟩ := makefilePairs_apart.2.2 y hy
          have hcerts := (List.prefix_append certs [c]).trans (hp.trans (List.dropLast_prefix _))
          rw [hcert hcerts, List.dropLast_concat] at hp
          simpa using hp.length_le
    · obtain ⟨n, hn, rfl⟩ := List.mem_map.mp hx
      obtain ⟨q, rfl⟩ := h.brings_storePath hn hb
      rcases h.above hp with hp | ⟨y, hy, hp⟩
      · simpa using hp.length_le
      · obtain ⟨-, -, ⟨hne, hhead⟩, -⟩ := makefilePairs_apart.2.2 y hy
        obtain ⟨r, hr⟩ := hp.trans (List.dropLast_prefix _)
        exact absurd (by rw [← hr]; rfl) hhead
  · obtain ⟨hpre, -, hdir⟩ := h.brings hx hb
    rcases makefilePairs_apart.2.1 x hx with hempty | hfree
    · exact hdir hempty
    obtain ⟨-, -, ⟨hne, hhead⟩, -⟩ := makefilePairs_apart.2.2 x hx
    rcases h.above hp with hp | ⟨y, hy, hp⟩
    · exact absurd (head_of_isPrefix hne (hpre.trans hp)) hhead
    · exact absurd (hpre.trans hp) (hfree y hy)

theorem plain_storePath {n : Word} (h : Component n) : Plain (storePath n) := by
  have hdir : Plain storeDir := by decide
  intro part hpart
  rw [storePath, List.splitOn_append_cons_self, List.splitOn_eq_singleton h.2.1] at hpart
  rcases List.mem_append.mp hpart with hpart | hpart
  · exact hdir part hpart
  · obtain rfl := List.mem_singleton.mp hpart
    exact ⟨h.1.2, h.2.2.1⟩

/-- **What the Makefile puts into the root image can be put into one image**, together with the
closure of the base. -/
theorem Sources.baseImage (h : Sources host sysroot base) :
    BaseImage host sysroot base makefilePairs where
  compatible := by
    refine ⟨?_, ?_, h.apart, h.through⟩
    · intro x hx
      rcases List.mem_append.mp hx with hx | hx
      · rcases List.mem_cons.mp hx with rfl | hx
        · exact h.exist _ h.inClosure
        · obtain ⟨n, hn, rfl⟩ := List.mem_map.mp hx
          exact h.exist n hn
      · rcases mem_makefilePairs hx with hsingle | hempty | rfl
        · obtain ⟨e, he⟩ := h.single _ hsingle
          simp [he]
        · obtain ⟨w, hw⟩ := h.empty
          simp [hempty, hw]
        · exact h.database
    · intro x hx
      rcases List.mem_append.mp hx with hx | hx
      · rcases List.mem_cons.mp hx with rfl | hx
        · exact show Plain [slash] by decide
        · obtain ⟨n, hn, rfl⟩ := List.mem_map.mp hx
          exact plain_storePath (h.component n hn)
      · exact (makefilePairs_apart.2.2 x hx).2.1
  lines := by
    intro x hx
    rcases List.mem_append.mp hx with hx | hx
    · rcases List.mem_cons.mp hx with rfl | hx
      · obtain ⟨hsource, -, -⟩ := h.lines _ h.inClosure
        have hok : linesOk ([], [slash]) = true := by decide
        obtain ⟨-, hdest, hverbatim⟩ := Lines.of_linesOk hok
        exact ⟨hsource, hdest, hverbatim⟩
      · obtain ⟨n, hn, rfl⟩ := List.mem_map.mp hx
        exact h.lines n hn
    · exact .of_linesOk (makefilePairs_apart.2.2 x hx).1
  inClosure := h.inClosure
  root x hx := (h.sysroot x hx).head_ne
  files x hx := by
    obtain ⟨-, -, ⟨hne, hhead⟩, -⟩ := makefilePairs_apart.2.2 x hx
    cases hnames : names x.2 with
    | nil => exact absurd hnames hne
    | cons n p =>
      rw [hnames] at hhead
      exact ⟨n, p, rfl, fun heq => hhead (congrArg some heq)⟩

end

/-! ## The service -/

/-- What the service `app` runs. -/
inductive App
  | appimage (run : Option Entry)
  /-- `run`, with the overlay on `/nix/store`. -/
  | nix (store : DirTree Word) (run : Option Entry)
  | unknown (type : Word)

/-- The service `app` once its configuration is mounted, in a VM with this root image. -/
def app (root config : DirTree Word) : Option App :=
  match config [os "type"] with
  | some (.file content _ _) =>
    let type := backtick content
    if type = os "appimage" then some (.appimage (config [os "run"]))
    else if type = os "nix" then
      some (.nix (overlay (root.sub [os "nix", os "store"]) (config.sub [os "nix", os "store"]))
        (config [os "run"]))
    else some (.unknown type)
  | _ => none

section
variable {host : Word → Source Word} {sysroot : Word} {base : List Word}
  {files : List (Word × Word)}

/-- What comes to the store comes from the closure. -/
theorem BaseImage.sourced_iff (h : BaseImage host sysroot base files)
    (hbase : ∀ n ∈ base, Component n) (n : Word) (q : List Word) (e : Entry) :
    Sourced host (basePairs sysroot base files) (os "nix" :: os "store" :: n :: q) e ↔
      n ∈ base ∧ (q, e) ∈ (host (storePath n)).entries := by
  constructor
  · rintro ⟨x, hx, r, hr, hp⟩
    rcases List.mem_append.mp hx with hx | hx
    · rcases List.mem_cons.mp hx with rfl | hx
      · refine absurd ?_ (h.root _ hr)
        rw [← show os "nix" :: os "store" :: n :: q = r from hp]
        rfl
      · obtain ⟨m, hm, rfl⟩ := List.mem_map.mp hx
        rw [names_storePath (hbase m hm)] at hp
        obtain ⟨rfl, rfl⟩ : n = m ∧ q = r := by simpa using hp
        exact ⟨hm, hr⟩
    · obtain ⟨m, p, hnames, hne⟩ := h.files x hx
      rw [hnames] at hp
      exact absurd (List.cons.inj hp).1.symm hne
  · rintro ⟨hn, hq⟩
    refine ⟨(storePath n, storePath n), ?_, q, hq, ?_⟩
    · exact List.mem_append_left _ (List.mem_cons_of_mem _ (List.mem_map_of_mem hn))
    · rw [names_storePath (hbase n hn)]
      rfl

theorem BaseImage.not_above (h : BaseImage host sysroot base files)
    (hbase : ∀ n ∈ base, Component n) (n : Word) (q : List Word) :
    ¬ Above (basePairs sysroot base files) (os "nix" :: os "store" :: n :: q) := by
  rintro (hnil | ⟨x, hx, hp⟩)
  · cases hnil
  rcases List.mem_append.mp hx with hx | hx
  · rcases List.mem_cons.mp hx with rfl | hx
    · exact absurd (List.prefix_nil.mp hp) (by simp)
    · obtain ⟨m, hm, rfl⟩ := List.mem_map.mp hx
      rw [names_storePath (hbase m hm)] at hp
      simpa using hp.length_le
  · obtain ⟨m, p, hnames, hne⟩ := h.files x hx
    have hpre := hp.trans (List.dropLast_prefix _)
    rw [hnames] at hpre
    exact hne (List.cons_prefix_cons.mp hpre).1.symm

/-- The store of the root image. -/
theorem BaseImage.store (h : BaseImage host sysroot base files)
    (hbase : ∀ n ∈ base, Component n) {root : DirTree Word}
    (hroot : Holds host (basePairs sysroot base files) root) :
    root [os "nix", os "store"] = some (.dir true) ∧
      ∀ n q e, root (os "nix" :: os "store" :: n :: q) = some e ↔
        n ∈ base ∧ (q, e) ∈ (host (storePath n)).entries := by
  constructor
  · refine hroot.above _ (.inr ⟨(storePath sysroot, storePath sysroot), ?_, ?_⟩)
    · exact List.mem_append_left _ (List.mem_cons_of_mem _ (List.mem_map_of_mem h.inClosure))
    · rw [names_storePath (hbase _ h.inClosure)]
      exact List.prefix_refl _
  · intro n q e
    rw [hroot.rest _ (h.not_above hbase n q), h.sourced_iff hbase]

/-- **The two stores together.** What is in the root image is not in the package, and there is
nothing of the rest in the root image that could hide it. -/
theorem overlay_store {a : Args} {t root : DirTree Word} (hbuilt : Built host a t)
    (hdir : root [os "nix", os "store"] = some (.dir true))
    (hroot : ∀ n q e, root (os "nix" :: os "store" :: n :: q) = some e ↔
      n ∈ a.base ∧ (q, e) ∈ (host (storePath n)).entries) (n : Word) (q : List Word) (e : Entry) :
    overlay (root.sub [os "nix", os "store"]) ((t.sub [os "fs"]).sub [os "nix", os "store"])
        (n :: q) = some e ↔
      (n ∈ a.base ∨ n ∈ a.closure) ∧ (q, e) ∈ (host (storePath n)).entries := by
  have hconfig : (t.sub [os "fs"]).sub [os "nix", os "store"] (n :: q) = t (inStore n ++ q) := rfl
  by_cases hbase : n ∈ a.base
  · have hbelow : t (inStore n ++ q) = none := hbuilt.rest n (fun _ => hbase) q
    have htop : overlay (root.sub [os "nix", os "store"])
        ((t.sub [os "fs"]).sub [os "nix", os "store"]) (n :: q) =
          root (os "nix" :: os "store" :: n :: q) := by
      cases hr : root (os "nix" :: os "store" :: n :: q) with
      | some e' => exact overlay_of_some hr
      | none => exact overlay_of_both_none hr (hconfig.trans hbelow)
    rw [htop, hroot]
    simp [hbase]
  · have hnone : ∀ r, root.sub [os "nix", os "store"] (n :: r) = none := by
      intro r
      cases hr : root.sub [os "nix", os "store"] (n :: r) with
      | none => rfl
      | some e' => exact absurd ((hroot n r e').mp hr).1 hbase
    have hfree : ∀ r, r <+: n :: q → ¬ (root.sub [os "nix", os "store"]).Blocks r := by
      intro r hr
      rcases List.prefix_cons_iff.mp hr with rfl | ⟨r', rfl, _⟩
      · exact not_blocks_of_dir hdir
      · exact not_blocks_of_none (hnone r')
    rw [overlay_of_none (hnone q) hfree, hconfig]
    by_cases hclosure : n ∈ a.closure
    · simpa [hbase, hclosure] using hbuilt.extra n hclosure hbase q e
    · simp [hbase, hclosure, hbuilt.rest n (fun hn => absurd hn hclosure) q]

/-- **The app has its closure.** The package leaves out what the root image has, and in the VM each
path of the closure is there, with everything in it as it was on the host: whatever the locale
`sort` and `comm` run in, and whatever order the image's files come in. There is nothing else in
the store but the base's closure. -/
theorem app_has_closure (c : Collation Word) {awk : Assignment} {a : Args} {args : List Word}
    {tmp : Word} {order : List (Word × Word)} (hvalid : a.Valid host) (htype : a.type = os "nix")
    (hbase : BaseImage host sysroot a.base files) (himg : args.getLastD [] ≠ [])
    (htmp : Unbroken tmp ∧ backslash ∉ tmp)
    (horder : order.Perm (basePairs sysroot a.base files)) :
    ∃ t argv root store,
      makeVm c host a = some t ∧ makeErofs awk host tmp args (srcdest order) = .mkfs argv root ∧
      app root (t.sub [os "fs"]) = some (.nix store (some (.link a.run))) ∧
      ∀ n q e, store (n :: q) = some e ↔
        (n ∈ a.base ∨ n ∈ a.closure) ∧ (q, e) ∈ (host (storePath n)).entries := by
  obtain ⟨t, ht, hbuilt⟩ := exists_makeVm c hvalid
  obtain ⟨root, hmk, hholds⟩ :=
    @exists_makeErofs awk host tmp args _ order himg htmp hbase.lines hbase.compatible horder
  obtain ⟨hdir, hroot⟩ := hbase.store hvalid.base hholds
  refine ⟨t, _, root, _, ht, hmk, ?_, overlay_store hbuilt hdir hroot⟩
  have hfile : t.sub [os "fs"] [os "type"] = some (.file (line (os "nix")) true false) := by
    rw [← htype]
    exact hbuilt.type
  have hrun : t.sub [os "fs"] [os "run"] = some (.link a.run) := hbuilt.run
  have hne : os "nix" ≠ os "appimage" := by decide
  simp only [app, hfile, hrun, backtick_line, if_neg hne, if_true]

end

/-- An app that needs `a` and `b`, for a root image that has `b`. -/
def sampleArgs : Args :=
  { run := storePath (os "a"), type := os "nix", closure := [os "a", os "b"], base := [os "b"],
    providers := [(os "net", [os "n", os "m"])] }

theorem valid_sampleArgs : sampleArgs.Valid sampleHost := by
  constructor <;> decide

theorem sampleHost_of_ne {path : Word} (h : path ≠ storePath (os "b")) :
    (sampleHost path).entries =
      [([], if path = os "build/empty" then .dir true else .file path false false)] := by
  rw [sampleHost, if_neg h]

theorem sources_sample : Sources sampleHost (os "b") [os "b"] where
  component := by decide
  lines := by
    intro n hn
    obtain rfl := List.mem_singleton.mp hn
    exact .of_linesOk (by decide)
  nodup := by simp
  exist := by decide
  inClosure := List.mem_cons_self
  sysroot x hx := by
    have hall : ∀ x ∈ (sampleHost (storePath (os "b"))).entries,
        x.1 <+: certs ∧ x.2 = .dir false := by
      decide
    exact .inl ⟨(hall x hx).1, false, (hall x hx).2⟩
  single f hf := by
    suffices hne : f ≠ storePath (os "b") from ⟨_, sampleHost_of_ne hne⟩
    rintro rfl
    rcases List.mem_cons.mp hf with hf | hf
    · exact absurd hf (by decide)
    · -- nothing of the Makefile goes to the store
      have hx : (storePath (os "b"), storePath (os "b")) ∈ makefilePairs := by
        simp only [makefilePairs, List.mem_append, List.mem_map]
        exact .inl (.inl ⟨_, List.mem_append.mp hf, rfl⟩)
      exact (makefilePairs_apart.2.2 _ hx).2.2.1.2 (by decide)
  empty := ⟨true, by rw [sampleHost_of_ne (by decide), if_pos rfl]⟩
  database := by rw [sampleHost_of_ne (by decide)]; simp

/-- `a` comes from the package and `b` from the root image. -/
theorem app_has_closure_sample :
    ∃ t argv root store, makeVm byteOrder sampleHost sampleArgs = some t ∧
      makeErofs dropBackslashes sampleHost (os "tmp") [os "img"]
        (srcdest (basePairs (os "b") [os "b"] makefilePairs)) = .mkfs argv root ∧
      app root (t.sub [os "fs"]) = some (.nix store (some (.link (storePath (os "a"))))) ∧
      store [os "a"] = some (.file (storePath (os "a")) false false) ∧
      store [os "b", os "etc"] = some (.dir false) := by
  obtain ⟨t, argv, root, store, ht, hmk, happ, hstore⟩ :=
    @app_has_closure sampleHost (os "b") makefilePairs byteOrder dropBackslashes sampleArgs
      [os "img"] (os "tmp") _ valid_sampleArgs rfl sources_sample.baseImage (by decide)
      ⟨unbroken_of_contains rfl, by decide⟩ (.refl _)
  refine ⟨t, argv, root, store, ht, hmk, happ, (hstore _ [] _).mpr ?_, (hstore _ [_] _).mpr ?_⟩
  · exact ⟨.inr (by decide), by decide⟩
  · exact ⟨.inl (by decide), by decide⟩

end Spectrum.Vm.Package
