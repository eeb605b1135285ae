import Spectrum.Interact.Text
import Spectrum.Interact.Bytes

/-!
# Verity labels

The build labels the two halves of the verified root file system with the two halves of the root
hash, written as UUIDs, and the initramfs looks for partitions with these labels, computed again
from the hash on the kernel command line. The two computations share no code: the build slices
the hash file with `head -c` and `dd`, formats with `cut` in `format-uuid.sh`, and the
initramfs formats with awk in `getuuids` and reads the result out of a pipe in two blocks.

**The partitions init looks for are the ones the build labelled**, and the labels determine the
hash. The file that carries the hash from one make rule to the next also carries the superblock,
which may hold newlines; splitting it again is exact.
-/

set_option autoImplicit false

namespace Spectrum.Image

open Text Bytes

/-! ## The root hash -/

def isHexDigit (b : UInt8) : Bool :=
  (48 ≤ b && b ≤ 57) || (97 ≤ b && b ≤ 102) || (65 ≤ b && b ≤ 70)

/-- A root hash as `veritysetup format` prints it: 32 bytes in hexadecimal. -/
structure RootHash where
  text : List UInt8
  length_eq : text.length = 64
  digits : ∀ b ∈ text, isHexDigit b = true

@[ext] theorem RootHash.ext {h h' : RootHash} (e : h.text = h'.text) : h = h' := by
  cases h
  cases h'
  cases e
  rfl

def dash : UInt8 := 45

theorem hexDigit_ne {b c : UInt8} (h : isHexDigit b = true) (hc : isHexDigit c = false) :
    b ≠ c := by
  intro e
  rw [e, hc] at h
  cases h

theorem RootHash.unbroken (h : RootHash) : Unbroken h.text :=
  fun b hb => hexDigit_ne (h.digits b hb) (by decide)

/-! ## The build: `host/rootfs/Makefile` -/

/-- `build/rootfs.verity`: the line `veritysetup` printed the hash on, then the superblock. -/
def rootfsVerity (roothash superblock : List UInt8) : List UInt8 := roothash ++ superblock

/-- `build/rootfs.verity.roothash`. -/
def rootfsVerityRoothash (verity : List UInt8) : List UInt8 := headLines 1 verity

/-- `build/rootfs.verity.superblock`. -/
def rootfsVeritySuperblock (verity : List UInt8) : List UInt8 := tailLines 2 verity

/-- The `substr` of `format-uuid.sh`, as the `u1=$(substr …)` lines use it. -/
def formatSubstr (str : List UInt8) (beg last : Nat) : List UInt8 :=
  commandSubst (cut beg last (line str))

/-- `format-uuid.sh`. -/
def formatUuid (arg : List UInt8) : List UInt8 :=
  let u1 := formatSubstr arg 1 8
  let u2 := formatSubstr arg 9 12
  let u3 := formatSubstr arg 13 16
  let u4 := formatSubstr arg 17 20
  let u5 := formatSubstr arg 21 32
  line (u1 ++ [dash] ++ u2 ++ [dash] ++ u3 ++ [dash] ++ u4 ++ [dash] ++ u5)

/-- The label `build/live.img` gives the root partition. -/
def rootPartuuid (roothashFile : List UInt8) : List UInt8 :=
  commandSubst (formatUuid (commandSubst (headBytes 32 roothashFile)))

/-- The label `build/live.img` gives the verity partition. -/
def verityPartuuid (roothashFile : List UInt8) : List UInt8 :=
  commandSubst (formatUuid (commandSubst (dd 32 1 1 roothashFile)))

/-- The value of `roothash=` on the kernel command line. -/
def roothashParam (roothashFile : List UInt8) : List UInt8 := commandSubst roothashFile

/-! ## The boot: `host/initramfs/etc` -/

/-- The `to_uuid` of `getuuids`. -/
def toUuid (hex : List UInt8) : List UInt8 :=
  substr hex 1 8 ++ [dash] ++ substr hex 9 4 ++ [dash] ++ substr hex 13 4 ++ [dash] ++
    substr hex 17 4 ++ [dash] ++ substrFrom hex 21

/-- What a finished program leaves behind. -/
structure Finished where
  stdout : List UInt8
  stderr : List UInt8
  status : Nat
deriving DecidableEq

/-- `getuuids`, on the value of the environment variable `roothash`. awk reads an unset variable
as the empty string. -/
def getuuids (roothash : Option (List UInt8)) : Finished :=
  let roothash := roothash.getD []
  if roothash.length ≠ 64 then
    { stdout := [], stderr := line (ascii "roothash invalid or missing".toList), status := 1 }
  else
    { stdout := line (toUuid (substr roothash 1 32)) ++ line (toUuid (substr roothash 33 32)),
      stderr := [], status := 0 }

/-- The bytes a pipe holds before a writer blocks. -/
def pipeCapacity : Nat := 65536

structure Uuids where
  rootfs : List UInt8
  verity : List UInt8
deriving DecidableEq

/-- `init`, up to its second `backtick`. `getuuids` runs to its end before anything reads the
pipe, so its output has to fit; `none` is a boot that does not get past these lines. -/
def init (roothash : Option (List UInt8)) : Option Uuids :=
  let out := getuuids roothash
  if out.status ≠ 0 ∨ pipeCapacity < out.stdout.length then none
  else
    let first := pipeRead 37 out.stdout
    let second := pipeRead 37 first.2
    some { rootfs := backtick first.1, verity := backtick second.1 }

/-! ## One formatting, written twice -/

/-- `cut -c b-e` and `substr` agree on every argument without a newline. -/
theorem formatSubstr_eq {s : List UInt8} (h : Unbroken s) {beg : Nat} (hbeg : 0 < beg) (n : Nat) :
    formatSubstr s beg (beg + n - 1) = substr s beg n := by
  rw [formatSubstr, cut_line h hbeg]
  exact commandSubst_line ((h.drop _).take _)

theorem substrFrom_eq {s : List UInt8} (h : s.length = 32) : substrFrom s 21 = substr s 21 12 := by
  rw [substrFrom, substr, List.take_of_length_le]
  simp [h]

/-- **The shell's formatting is awk's formatting.** -/
theorem formatUuid_eq {s : List UInt8} (h : Unbroken s) (hlen : s.length = 32) :
    formatUuid s = line (toUuid s) := by
  have h1 := formatSubstr_eq h (show 0 < 1 by decide) 8
  have h2 := formatSubstr_eq h (show 0 < 9 by decide) 4
  have h3 := formatSubstr_eq h (show 0 < 13 by decide) 4
  have h4 := formatSubstr_eq h (show 0 < 17 by decide) 4
  have h5 := formatSubstr_eq h (show 0 < 21 by decide) 12
  simp only [formatUuid, toUuid, h1, h2, h3, h4, h5, substrFrom_eq hlen]

theorem length_toUuid {s : List UInt8} (h : s.length = 32) : (toUuid s).length = 36 := by
  simp [toUuid, substr, substrFrom, h]

theorem unbroken_toUuid {s : List UInt8} (h : Unbroken s) : Unbroken (toUuid s) := by
  have hdash : dash ≠ newline := by decide
  have hsub : ∀ m n, Unbroken (substr s m n) := fun m n => (h.drop _).take _
  have hfrom : Unbroken (substrFrom s 21) := h.drop _
  intro b hb
  simp only [toUuid, List.mem_append, List.mem_singleton] at hb
  rcases hb with (((((((hb | rfl) | hb) | rfl) | hb) | rfl) | hb) | rfl) | hb
  · exact hsub _ _ b hb
  · exact hdash
  · exact hsub _ _ b hb
  · exact hdash
  · exact hsub _ _ b hb
  · exact hdash
  · exact hsub _ _ b hb
  · exact hdash
  · exact hfrom b hb

/-- A label with its dashes taken out. -/
def undash (uuid : List UInt8) : List UInt8 := uuid.filter (· ≠ dash)

/-- Taking the dashes out of a formatted half gives the half back. -/
theorem undash_toUuid {s : List UInt8} (h : ∀ b ∈ s, b ≠ dash) : undash (toUuid s) = s := by
  have hsub : ∀ m n, (substr s m n).filter (· ≠ dash) = substr s m n := by
    intro m n
    refine List.filter_eq_self.mpr fun b hb => ?_
    simpa using h b (List.mem_of_mem_drop (List.mem_of_mem_take hb))
  have hfrom : (substrFrom s 21).filter (· ≠ dash) = substrFrom s 21 := by
    refine List.filter_eq_self.mpr fun b hb => ?_
    simpa using h b (List.mem_of_mem_drop hb)
  have hdash : [dash].filter (· ≠ dash) = [] := by decide
  -- The five windows are adjacent, so without the dashes they make up the half again.
  calc
    undash (toUuid s)
      = substr s 1 8 ++
          (substr s 9 4 ++ (substr s 13 4 ++ (substr s 17 4 ++ substrFrom s 21))) := by
        simp only [undash, toUuid, List.filter_append, hsub, hfrom, hdash, List.nil_append,
          List.append_assoc]
    _ = substrFrom s 1 := by
        rw [substrFrom_split s (show 0 < 1 by decide) 8,
          substrFrom_split s (show 0 < 1 + 8 by decide) 4,
          substrFrom_split s (show 0 < 1 + 8 + 4 by decide) 4,
          substrFrom_split s (show 0 < 1 + 8 + 4 + 4 by decide) 4]
    _ = s := rfl

example : toUuid (ascii "0123456789abcdef0123456789abcdef".toList) =
    ascii "01234567-89ab-cdef-0123-456789abcdef".toList := by decide

/-! ## The two halves -/

section Halves

variable (h : RootHash)

/-- The half of the hash that labels the root partition. -/
def RootHash.rootHalf : List UInt8 := h.text.take 32

/-- The half of the hash that labels the verity partition. -/
def RootHash.verityHalf : List UInt8 := h.text.drop 32

theorem RootHash.length_rootHalf : h.rootHalf.length = 32 := by
  simp [rootHalf, h.length_eq]

theorem RootHash.length_verityHalf : h.verityHalf.length = 32 := by
  simp [verityHalf, h.length_eq]

theorem RootHash.unbroken_rootHalf : Unbroken h.rootHalf := h.unbroken.take 32

theorem RootHash.unbroken_verityHalf : Unbroken h.verityHalf := h.unbroken.drop 32

theorem headBytes_hash : headBytes 32 (line h.text) = h.rootHalf := by
  rw [headBytes, line, List.take_append_of_le_length (by simp [h.length_eq]), RootHash.rootHalf]

theorem dd_hash : dd 32 1 1 (line h.text) = h.verityHalf := by
  rw [dd, line, Nat.one_mul, List.drop_append_of_le_length (by simp [h.length_eq])]
  show (h.verityHalf ++ [newline]).take 32 = h.verityHalf
  exact List.take_left' h.length_verityHalf

/-- The build labels each partition with its half, formatted. -/
theorem partuuid_eq {half : List UInt8} (hu : Unbroken half) (hlen : half.length = 32) :
    commandSubst (formatUuid (commandSubst half)) = toUuid half := by
  rw [commandSubst_unbroken hu, formatUuid_eq hu hlen, commandSubst_line (unbroken_toUuid hu)]

theorem rootPartuuid_eq : rootPartuuid (line h.text) = toUuid h.rootHalf := by
  rw [rootPartuuid, headBytes_hash]
  exact partuuid_eq h.unbroken_rootHalf h.length_rootHalf

theorem verityPartuuid_eq : verityPartuuid (line h.text) = toUuid h.verityHalf := by
  rw [verityPartuuid, dd_hash]
  exact partuuid_eq h.unbroken_verityHalf h.length_verityHalf

/-- What init reads out of the pipe: one formatted half per block. -/
theorem init_eq : init (some h.text) =
    some { rootfs := toUuid h.rootHalf, verity := toUuid h.verityHalf } := by
  have hroot : substr h.text 1 32 = h.rootHalf := rfl
  have hverity : substr h.text 33 32 = h.verityHalf := by
    rw [substr, RootHash.verityHalf, List.take_of_length_le]
    simp [h.length_eq]
  have hout : getuuids (some h.text) =
      { stdout := line (toUuid h.rootHalf) ++ line (toUuid h.verityHalf), stderr := [],
        status := 0 } := by
    simp [getuuids, h.length_eq, hroot, hverity]
  have h1 : (line (toUuid h.rootHalf)).length = 37 := by
    rw [length_line, length_toUuid h.length_rootHalf]
  have h2 : (line (toUuid h.verityHalf)).length = 37 := by
    rw [length_line, length_toUuid h.length_verityHalf]
  have hfits :
      ¬ pipeCapacity < (line (toUuid h.rootHalf) ++ line (toUuid h.verityHalf)).length := by
    rw [List.length_append, h1, h2]
    decide
  have htake : (line (toUuid h.rootHalf) ++ line (toUuid h.verityHalf)).take 37 =
      line (toUuid h.rootHalf) := by
    rw [← h1, List.take_left]
  have hdrop : (line (toUuid h.rootHalf) ++ line (toUuid h.verityHalf)).drop 37 =
      line (toUuid h.verityHalf) := by
    rw [← h1, List.drop_left]
  have hrest : (line (toUuid h.verityHalf)).take 37 = line (toUuid h.verityHalf) := by
    rw [← h2, List.take_length]
  simp only [init, hout, pipeRead, ne_eq, not_true_eq_false, false_or, if_neg hfits, htake, hdrop,
    hrest, backtick_line]

end Halves

/-- The hash a pair of labels was made from. -/
def recoverHash (uuids : Uuids) : List UInt8 := undash uuids.rootfs ++ undash uuids.verity

theorem recoverHash_eq (h : RootHash) :
    recoverHash { rootfs := toUuid h.rootHalf, verity := toUuid h.verityHalf } = h.text := by
  have hdash : ∀ b ∈ h.text, b ≠ dash := fun b hb => hexDigit_ne (h.digits b hb) (by decide)
  have hroot : undash (toUuid h.rootHalf) = h.rootHalf :=
    undash_toUuid fun b hb => hdash b (List.mem_of_mem_take hb)
  have hverity : undash (toUuid h.verityHalf) = h.verityHalf :=
    undash_toUuid fun b hb => hdash b (List.mem_of_mem_drop hb)
  simp only [recoverHash, hroot, hverity]
  exact List.take_append_drop 32 h.text

/-- Two hashes with the same labels are the same hash. -/
theorem init_injective {h h' : RootHash} (e : init (some h.text) = init (some h'.text)) :
    h = h' := by
  rw [init_eq, init_eq] at e
  have hpair := Option.some.inj e
  apply RootHash.ext
  rw [← recoverHash_eq h, hpair, recoverHash_eq h']

theorem getuuids_refuses {roothash : Option (List UInt8)}
    (h : (roothash.getD []).length ≠ 64) :
    getuuids roothash =
      { stdout := []
        stderr := line (ascii "roothash invalid or missing".toList)
        status := 1 } := by
  simp [getuuids, h]

theorem getuuids_status {roothash : Option (List UInt8)} :
    (getuuids roothash).status = 1 ↔ (roothash.getD []).length ≠ 64 := by
  by_cases h : (roothash.getD []).length = 64
  · simp [getuuids, h]
  · simp [getuuids_refuses h, h]

/-- **The partitions init looks for are the ones the build labelled.** The file the make rules
pass on splits into exactly what was put into it; the labels of the image are the ones init
computes from the hash on the command line; the labels give the hash back; and no value of any
other length gets past `getuuids`. -/
theorem init_finds_labelled (h h' : RootHash) (superblock : List UInt8)
    (roothash : Option (List UInt8)) :
    let verity := rootfsVerity (line h.text) superblock
    let file := rootfsVerityRoothash verity
    let labels : Uuids := { rootfs := rootPartuuid file, verity := verityPartuuid file }
    file = line h.text ∧
    rootfsVeritySuperblock verity = superblock ∧
    roothashParam file = h.text ∧
    init (some h.text) = some labels ∧
    recoverHash labels = h.text ∧
    (init (some h.text) = init (some h'.text) ↔ h = h') ∧
    ((getuuids roothash).status = 1 ↔ (roothash.getD []).length ≠ 64) ∧
    ((getuuids roothash).status = 1 → (getuuids roothash).stdout = [] ∧ init roothash = none) := by
  intro verity file labels
  have hfile : file = line h.text := headLines_one h.unbroken superblock
  have hlabels : labels = { rootfs := toUuid h.rootHalf, verity := toUuid h.verityHalf } := by
    simp only [labels, hfile, rootPartuuid_eq, verityPartuuid_eq]
  refine ⟨hfile, tailLines_two h.unbroken superblock, ?_, ?_, ?_, ?_, getuuids_status, ?_⟩
  · rw [hfile, roothashParam, commandSubst_line h.unbroken]
  · rw [hlabels, init_eq]
  · rw [hlabels, recoverHash_eq]
  · exact ⟨init_injective, fun e => by rw [e]⟩
  · intro hstatus
    have hrefused := getuuids_refuses (getuuids_status.mp hstatus)
    simp [init, hrefused]

/-- The digits from `0` to `f`, four times. -/
def countingHash : RootHash where
  text := (List.replicate 4 (ascii "0123456789abcdef".toList)).flatten
  length_eq := by decide
  digits := List.all_eq_true.mp (by decide)

/-- The superblock begins with a newline, and the labels are still those of the hash. -/
theorem init_finds_labelled_counting :
    let file := rootfsVerityRoothash (rootfsVerity (line countingHash.text) [10, 7])
    init (some countingHash.text) = some ⟨rootPartuuid file, verityPartuuid file⟩ ∧
      rootPartuuid file = ascii "01234567-89ab-cdef-0123-456789abcdef".toList ∧
      verityPartuuid file = rootPartuuid file ∧ (getuuids none).status = 1 := by
  obtain ⟨-, -, -, hinit, -⟩ := init_finds_labelled countingHash countingHash [10, 7] none
  exact ⟨hinit, by decide, by decide, by decide⟩

end Spectrum.Image
