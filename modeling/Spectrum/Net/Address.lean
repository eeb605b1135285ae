import Mathlib.Data.Nat.ModEq
import Spectrum.Interact.Text
import Spectrum.Net.Setup
import Spectrum.Vmm.Create

/-!
# Hardware and IP addresses

`net_setup` puts the low sixteen bits of its pid into the last two octets of the client's and the
router's hardware address. cloud-hypervisor gets the addresses as text, the guests see them in
sysfs, in lower case, and each of the two VM images turns the octets back into an IP address with
an awk program of its own: the client configures the address, the router adds a route for it.

**Client and router derive the same IP address, and different VMs derive different ones**, as
far as sixteen bits of the pid tell VMs apart.
-/

set_option autoImplicit false

namespace Spectrum.Net

open Text Bytes Spectrum.Vmm

/-! ## The text of an address -/

def colon : UInt8 := 58

/-- `MacAddress`'s text. -/
def macText (mac : Mac) : List UInt8 := os (MacAddress.display mac)

/-- A text that names `mac` to a reader that ignores case. sysfs prints lower case. -/
def Shows (text : List UInt8) (mac : Mac) : Prop := text.map lower = (macText mac).map lower

/-- What sysfs prints, without the newline. -/
def sysfsText (mac : Mac) : List UInt8 := (macText mac).map lower

instance (text : List UInt8) (mac : Mac) : Decidable (Shows text mac) :=
  inferInstanceAs (Decidable (_ = _))

/-! ## The guests' `mdev/iface` -/

/-- The awk program both images run on the file `address`, and the `backtick` around it. The client
runs it with `-P` and the router without, and this is the same: the awk of the router's image is
busybox's, which reads `0x` with `strtod`, and that of the client's is gawk, which does so in POSIX
mode only. The fields are digits, so POSIX mode makes no other difference to them. -/
def awkAddress (address : List UInt8) : List UInt8 :=
  backtick ((records address).flatMap fun record =>
    ascii "100.64.".toList ++ decimal (hexNumber (field colon 5 record)) ++ ascii ".".toList ++
      decimal (hexNumber (field colon 6 record)) ++ [newline])

/-- `LOCAL_IP` in `img/app/etc/mdev/iface`. -/
def localIp (address : List UInt8) : List UInt8 := awkAddress address

/-- `CLIENT_IP` in `vm/sys/net/etc/mdev/iface`. -/
def clientIp (address : List UInt8) : List UInt8 := awkAddress address

/-- `grep -iq ^pattern`. -/
def grepStart (pattern file : List UInt8) : Bool :=
  (records file).any fun l => (l.map lower).take pattern.length = pattern.map lower

/-- A command of one of the scripts. Each runs after the one before it has succeeded. -/
abbrev Command := List OsString

/-- `img/app/etc/mdev/iface`. -/
def appIface (interface : OsString) (address : List UInt8) : List Command :=
  if interface = os "lo" then []
  else
    [[os "ip", os "address", os "add", localIp address ++ os "/32", os "dev", interface],
     [os "ip", os "link", os "set", interface, os "up"],
     [os "ip", os "route", os "add", os "169.254.0.1", os "dev", interface],
     [os "ip", os "route", os "add", os "default", os "via", os "169.254.0.1", os "dev",
      interface]]

/-- `vm/sys/net/etc/mdev/iface`. The two `modprobe`s run side by side; the `s6-rc` command before
them runs in the background. -/
def netvmIface (interface : OsString) (address : List UInt8) : List Command :=
  if grepStart (os "0A:B3:EC:") address then
    [[os "ip", os "address", os "add", os "169.254.0.1/32", os "dev", interface],
     [os "ip", os "link", os "set", interface, os "up"],
     [os "ip", os "route", os "add", clientIp address, os "dev", interface]]
  else if interface = os "lo" then []
  else
    [[os "s6-rc", os "-bu", os "change", os "connman"],
     [os "s6-rc", os "-bu", os "change", os "nftables"],
     [os "modprobe", os "nft_counter"],
     [os "modprobe", os "nft_masq"],
     [os "nft", os "add", os "rule", os "ip", os "nat", os "postrouting", os "oifname", interface,
      os "counter", os "masquerade"]]

/-! ## Octets -/

theorem hexDigitValue_digit : ∀ n < 16,
    hexDigitValue (UInt8.ofNat (Nat.digitChar n).toUpper.toNat) = some n := by
  decide

theorem os_hex2 (b : UInt8) :
    os (hex2 b) = [UInt8.ofNat (Nat.digitChar (b.toNat / 16)).toUpper.toNat,
      UInt8.ofNat (Nat.digitChar (b.toNat % 16)).toUpper.toNat] := by
  simp [os, hex2, ascii]

/-- Two upper-case digits read back as the octet. -/
theorem hexNumber_hex2 (b : UInt8) : hexNumber (os (hex2 b)) = b.toNat := by
  have hb := b.toNat_lt
  simp only [os_hex2, hexNumber, hexNumberFrom,
    hexDigitValue_digit _ (show b.toNat / 16 < 16 by omega),
    hexDigitValue_digit _ (show b.toNat % 16 < 16 by omega)]
  omega

/-- No octet's text ends a line or a field: both have no value as a digit. -/
theorem not_mem_hex2 {b c : UInt8} (hc : hexDigitValue c = none) : c ∉ os (hex2 b) := by
  have hb := b.toNat_lt
  have h1 := hexDigitValue_digit _ (show b.toNat / 16 < 16 by omega)
  have h2 := hexDigitValue_digit _ (show b.toNat % 16 < 16 by omega)
  intro hmem
  simp only [os_hex2, List.mem_cons, List.not_mem_nil, or_false] at hmem
  rcases hmem with e | e
  · rw [← e, hc] at h1
    cases h1
  · rw [← e, hc] at h2
    cases h2

theorem macText_eq (mac : Mac) :
    macText mac = [colon].intercalate (mac.toList.map fun b => os (hex2 b)) := by
  have hsep : ascii ":".toList = [colon] := rfl
  simp only [ascii] at hsep
  simp only [macText, os, ascii, MacAddress.display, String.toList_intercalate, map_intercalate,
    List.map_map, Function.comp_def, hsep]

theorem splitOn_macText (mac : Mac) :
    (macText mac).splitOn colon = mac.toList.map fun b => os (hex2 b) := by
  rw [macText_eq]
  refine List.splitOn_intercalate colon ?_ ?_
  · intro l hl
    obtain ⟨b, -, rfl⟩ := List.mem_map.mp hl
    exact not_mem_hex2 (by decide)
  · intro h
    have := congrArg List.length h
    simp at this

/-- **The text form is injective**: the octets can be read off it. -/
theorem macText_injective {mac mac' : Mac} (h : macText mac = macText mac') : mac = mac' := by
  have hsplit := congrArg (fun t => (t.splitOn colon).map hexNumber) h
  simp only [splitOn_macText, List.map_map, Function.comp_def, hexNumber_hex2] at hsplit
  have hinj : Function.Injective (fun b : UInt8 => b.toNat) := fun _ _ => UInt8.toNat_inj.mp
  exact Vector.toList_inj.mp (List.map_injective_iff.mpr hinj hsplit)

theorem display_injective {mac mac' : Mac}
    (h : MacAddress.display mac = MacAddress.display mac') : mac = mac' := by
  apply macText_injective
  rw [macText, h, macText]

/-! ## What the guests read -/

theorem mem_intercalate_hex {octets : List UInt8} {c : UInt8}
    (h : c ∈ [colon].intercalate (octets.map fun b => os (hex2 b))) :
    c = colon ∨ ∃ b, c ∈ os (hex2 b) := by
  induction octets with
  | nil => simp [List.intercalate] at h
  | cons b octets ih =>
    cases octets with
    | nil => exact .inr ⟨b, by simpa [List.intercalate] using h⟩
    | cons b' octets =>
      rw [List.map_cons, List.map_cons, List.intercalate_cons_cons, List.mem_append,
        List.mem_append] at h
      rcases h with (h | h) | h
      · exact .inr ⟨b, h⟩
      · exact .inl (by simpa using h)
      · exact ih h

theorem shows_sysfsText (mac : Mac) : Shows (sysfsText mac) mac := by
  rw [Shows, sysfsText, List.map_map]
  exact List.map_congr_left fun b _ => lower_lower b

section Shown

variable {text : List UInt8} {mac : Mac}

theorem Shows.unbroken (h : Shows text mac) : Unbroken text := by
  intro c hc hnewline
  have hmem : lower c ∈ (macText mac).map lower := by
    rw [← h]
    exact List.mem_map_of_mem hc
  obtain ⟨d, hd, hlower⟩ := List.mem_map.mp hmem
  rw [hnewline, (lower_eq_iff (show newline.toNat < 65 by decide)).mpr rfl] at hlower
  have hdn : d = newline := (lower_eq_iff (by decide)).mp hlower
  rw [macText_eq] at hd
  cases mem_intercalate_hex hd with
  | inl hcolon => exact absurd (hdn.symm.trans hcolon) (by decide)
  | inr hoctet =>
    obtain ⟨b, hb⟩ := hoctet
    exact not_mem_hex2 (by decide) (hdn ▸ hb)

/-- Field `n + 1` is octet `n`, in whatever case it is written. -/
theorem Shows.octet (h : Shows text mac) (n : Nat) (hn : n < 6) :
    hexNumber (field colon (n + 1) text) = mac[n].toNat := by
  have hcolon : colon.toNat < 65 := by decide
  calc
    hexNumber (field colon (n + 1) text)
      = hexNumber (field colon (n + 1) (text.map lower)) := by
        rw [field_lower hcolon, hexNumber_lower]
    _ = hexNumber (field colon (n + 1) (macText mac)) := by
        rw [h, field_lower hcolon, hexNumber_lower]
    _ = mac[n].toNat := by
        rw [field, splitOn_macText, List.getD_eq_getElem?_getD, List.getElem?_map]
        simp [hn, hexNumber_hex2]

/-- The address made of two octets. -/
def ipText (x y : Nat) : List UInt8 :=
  ascii "100.64.".toList ++ decimal x ++ ascii ".".toList ++ decimal y

theorem Shows.awkAddress (h : Shows text mac) :
    awkAddress (line text) = ipText mac[4].toNat mac[5].toNat := by
  have hx := h.octet 4 (by decide)
  have hy := h.octet 5 (by decide)
  rw [Net.awkAddress, records_line h.unbroken, List.flatMap_singleton, hx, hy]
  exact backtick_line _

/-- The router's `grep` sees the first three octets. -/
theorem Shows.grepStart (h : Shows text mac) {rest : List UInt8}
    (hmac : mac.toList = 0x0A :: 0xB3 :: 0xEC :: rest) (hrest : rest ≠ []) :
    grepStart (os "0A:B3:EC:") (line text) = true := by
  have htake : (macText mac).take 9 = os "0A:B3:EC:" := by
    obtain ⟨b, bs, rfl⟩ := List.exists_cons_of_ne_nil hrest
    rw [macText_eq, hmac]
    simp only [List.map_cons, List.intercalate_cons_cons, os_hex2]
    rfl
  have hlength : (os "0A:B3:EC:").length = 9 := rfl
  rw [Net.grepStart, records_line h.unbroken, List.any_cons, hlength, h, ← List.map_take, htake]
  simp

end Shown

/-! ## Which pids share an address -/

theorem decimal_dot (n : Nat) : (46 : UInt8) ∉ decimal n := by
  intro h
  have := mem_decimal h
  simp at this

/-- **The address determines the two octets.** -/
theorem ipText_injective {x y x' y' : Nat} (h : ipText x y = ipText x' y') : x = x' ∧ y = y' := by
  have hfields : ∀ x y : Nat, (ipText x y).splitOn 46 =
      [ascii "100".toList, ascii "64".toList, decimal x, decimal y] := by
    intro x y
    have hinter : ipText x y =
        [46].intercalate [ascii "100".toList, ascii "64".toList, decimal x, decimal y] := by
      simp only [List.intercalate_cons_cons]
      simp [ipText, ascii, List.intercalate]
    rw [hinter]
    refine List.splitOn_intercalate 46 ?_ (by simp)
    intro l hl
    simp only [List.mem_cons, List.not_mem_nil, or_false] at hl
    rcases hl with rfl | rfl | rfl | rfl
    · decide
    · decide
    · exact decimal_dot x
    · exact decimal_dot y
  have hsplit := congrArg (List.splitOn 46) h
  rw [hfields, hfields] at hsplit
  simp only [List.cons.injEq, true_and, and_true] at hsplit
  exact ⟨decimal_injective hsplit.1, decimal_injective hsplit.2⟩

theorem ofNat_eq_iff (m n : Nat) : UInt8.ofNat m = UInt8.ofNat n ↔ m % 256 = n % 256 := by
  rw [← UInt8.toNat_inj]
  simp

/-- The two octets are the low sixteen bits of the pid. -/
theorem octets_eq_iff (pid pid' : Nat) :
    (UInt8.ofNat (pid >>> 8) = UInt8.ofNat (pid' >>> 8) ∧ UInt8.ofNat pid = UInt8.ofNat pid') ↔
      pid ≡ pid' [MOD 2 ^ 16] := by
  rw [ofNat_eq_iff, ofNat_eq_iff, Nat.shiftRight_eq_div_pow, Nat.shiftRight_eq_div_pow, Nat.ModEq]
  omega

theorem routerMac_eq_iff (pid pid' : Nat) :
    routerMac pid = routerMac pid' ↔ pid ≡ pid' [MOD 2 ^ 16] := by
  rw [← octets_eq_iff, ← Vector.toList_inj]
  simp [routerMac]

theorem clientMac_toList (pid : Nat) : (clientMac pid).toList =
    [0x0A, 0xB3, 0xEC, 0x00, UInt8.ofNat (pid >>> 8), UInt8.ofNat pid] := rfl

theorem clientMac_eq_iff (pid pid' : Nat) :
    clientMac pid = clientMac pid' ↔ pid ≡ pid' [MOD 2 ^ 16] := by
  rw [← octets_eq_iff, ← Vector.toList_inj, clientMac_toList, clientMac_toList]
  simp

theorem clientMac_ne_routerMac (pid pid' : Nat) : clientMac pid ≠ routerMac pid' := by
  intro h
  have := congrArg (fun mac : Mac => mac[3]) h
  simp [clientMac, routerMac] at this

theorem ipText_pid_eq_iff (pid pid' : Nat) :
    ipText (UInt8.ofNat (pid >>> 8)).toNat (UInt8.ofNat pid).toNat =
        ipText (UInt8.ofNat (pid' >>> 8)).toNat (UInt8.ofNat pid').toNat ↔
      pid ≡ pid' [MOD 2 ^ 16] := by
  rw [← octets_eq_iff]
  constructor
  · intro h
    obtain ⟨hx, hy⟩ := ipText_injective h
    exact ⟨UInt8.toNat_inj.mp hx, UInt8.toNat_inj.mp hy⟩
  · intro h
    rw [h.1, h.2]

theorem Shows.clientAddress {text : List UInt8} {pid : Nat} (h : Shows text (clientMac pid)) :
    localIp (line text) = ipText (UInt8.ofNat (pid >>> 8)).toNat (UInt8.ofNat pid).toNat :=
  h.awkAddress

theorem Shows.routerAddress {text : List UInt8} {pid : Nat} (h : Shows text (routerMac pid)) :
    clientIp (line text) = ipText (UInt8.ofNat (pid >>> 8)).toNat (UInt8.ofNat pid).toNat :=
  h.awkAddress

/-- **Client and router derive the same IP address, and different VMs derive different ones.**
`client` and `router` are what the two guests read of the addresses `net_setup` chose for `pid`,
`client'` and `router'` of those for `pid'`. The address is `100.64.x.y`, where `x` and `y` are the
two low octets of the pid. -/
theorem guests_agree (pid pid' : Nat) (mac mac' : Mac) (interface : OsString)
    {client router client' router' : List UInt8}
    (hclient : Shows client (clientMac pid)) (hrouter : Shows router (routerMac pid))
    (hclient' : Shows client' (clientMac pid')) (hrouter' : Shows router' (routerMac pid')) :
    -- one address on both sides, and what the two scripts do with it
    localIp (line client) = ipText (pid / 2 ^ 8 % 2 ^ 8) (pid % 2 ^ 8) ∧
    localIp (line client) = clientIp (line router) ∧
    (interface ≠ os "lo" →
      [os "ip", os "address", os "add", localIp (line client) ++ os "/32", os "dev", interface] ∈
        appIface interface (line client)) ∧
    [os "ip", os "route", os "add", localIp (line client), os "dev", interface] ∈
      netvmIface interface (line router) ∧
    -- the router's pattern
    grepStart (os "0A:B3:EC:") (line client) = true ∧
    grepStart (os "0A:B3:EC:") (line router) = true ∧
    -- which addresses coincide
    clientMac pid ≠ routerMac pid' ∧
    (clientMac pid = clientMac pid' ↔ pid ≡ pid' [MOD 2 ^ 16]) ∧
    (routerMac pid = routerMac pid' ↔ pid ≡ pid' [MOD 2 ^ 16]) ∧
    (localIp (line client) = localIp (line client') ↔ pid ≡ pid' [MOD 2 ^ 16]) ∧
    (clientIp (line router) = clientIp (line router') ↔ pid ≡ pid' [MOD 2 ^ 16]) ∧
    (pid < 2 ^ 16 → pid' < 2 ^ 16 → pid ≠ pid' →
      clientMac pid ≠ clientMac pid' ∧ routerMac pid ≠ routerMac pid' ∧
        localIp (line client) ≠ localIp (line client')) ∧
    -- the text form
    (MacAddress.display mac = MacAddress.display mac' ↔ mac = mac') := by
  have haddress : localIp (line client) = ipText (pid / 2 ^ 8 % 2 ^ 8) (pid % 2 ^ 8) := by
    rw [hclient.clientAddress, UInt8.toNat_ofNat', UInt8.toNat_ofNat', Nat.shiftRight_eq_div_pow]
  have hsame : localIp (line client) = clientIp (line router) :=
    hclient.clientAddress.trans hrouter.routerAddress.symm
  have hgrep : grepStart (os "0A:B3:EC:") (line router) = true :=
    hrouter.grepStart rfl (by simp)
  have hip : localIp (line client) = localIp (line client') ↔ pid ≡ pid' [MOD 2 ^ 16] := by
    rw [hclient.clientAddress, hclient'.clientAddress, ipText_pid_eq_iff]
  have hip' : clientIp (line router) = clientIp (line router') ↔ pid ≡ pid' [MOD 2 ^ 16] := by
    rw [hrouter.routerAddress, hrouter'.routerAddress, ipText_pid_eq_iff]
  refine ⟨haddress, hsame, ?_, ?_, hclient.grepStart (clientMac_toList pid) (by simp), hgrep,
    clientMac_ne_routerMac pid pid', clientMac_eq_iff pid pid', routerMac_eq_iff pid pid', hip,
    hip', ?_, ?_⟩
  · intro hlo
    simp [appIface, hlo]
  · rw [hsame, netvmIface, if_pos hgrep]
    simp
  · intro hpid hpid' hne
    have hmod : ¬ pid ≡ pid' [MOD 2 ^ 16] := by
      intro hcong
      rw [Nat.ModEq, Nat.mod_eq_of_lt hpid, Nat.mod_eq_of_lt hpid'] at hcong
      exact hne hcong
    exact ⟨mt (clientMac_eq_iff pid pid').mp hmod, mt (routerMac_eq_iff pid pid').mp hmod,
      mt hip.mp hmod⟩
  · exact ⟨display_injective, fun h => by rw [h]⟩

theorem guests_agree_sysfs :
    localIp (line (sysfsText (clientMac 0x1234))) = ipText 0x12 0x34 ∧
      localIp (line (sysfsText (clientMac 0x1234))) =
        clientIp (line (sysfsText (routerMac 0x1234))) ∧
      localIp (line (sysfsText (clientMac 0x1234))) ≠
        localIp (line (sysfsText (clientMac 0x1235))) := by
  have h := guests_agree 0x1234 0x1235 (clientMac 0x1234) (routerMac 0x1234) (os "eth0")
    (shows_sysfsText (clientMac 0x1234)) (shows_sysfsText (routerMac 0x1234))
    (shows_sysfsText (clientMac 0x1235)) (shows_sysfsText (routerMac 0x1235))
  obtain ⟨haddress, hsame, -, -, -, -, -, -, -, -, -, hdistinct, -⟩ := h
  exact ⟨haddress, hsame, (hdistinct (by decide) (by decide) (by decide)).2.2⟩

end Spectrum.Net
