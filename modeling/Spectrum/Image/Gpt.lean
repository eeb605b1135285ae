import Mathlib.Data.List.Forall2
import Mathlib.Tactic.Positivity
import Mathlib.Tactic.NormNum
import Spectrum.Interact.Double

/-!
# `make-gpt.sh`

The script lays partition files out in a disk image. The size of the image is computed by the
shell from sizes rounded up by awk, the places of the partitions by sfdisk from the same sizes, and
the offset a file is copied to by jq from what sfdisk reports. None of them knows of the others, so
that the image is right means that three computations in three kinds of numbers agree: doubles in
awk and jq, 64-bit integers in the shell.

**As long as every partition starts before byte `2 ^ 54` they agree**, and every partition ends up
with exactly its file in it. Past that jq can print an offset that is a few bytes off.

What sfdisk does is assumed: it places the partitions in order, the first one at 1 MiB and each
next one at the first 1 MiB boundary behind the previous one, and writes its tables outside of
them. The bytes of the image it leaves are a parameter.
-/

set_option autoImplicit false

namespace Spectrum.Image

/-! ## The script -/

def oneMiB : Nat := 1048576

/-- A partition file. -/
structure File where
  size : Nat
  byte : Nat → UInt8

/-- `sizeMiB`: awk's `printf "%d\n", ($1 + ONE_MiB - 1) / ONE_MiB`. Dividing a double by a power of
two is exact. -/
def sizeMiB (file : File) : Nat :=
  Double.round (Double.round (Double.round file.size + oneMiB) - 1) / oneMiB

/-- `$((…))`: signed arithmetic modulo `2 ^ 64`. -/
def shell (x : Int) : Int := x.bmod (2 ^ 64)

/-- The loop that adds the sizes up, with `gptBytes` so far. -/
def gptBytesFrom (gptBytes : Int) : List File → Int
  | [] => gptBytes
  | file :: files => gptBytesFrom (shell (gptBytes + shell (sizeMiB file * oneMiB))) files

def gptBytes (files : List File) : Int := gptBytesFrom (shell (oneMiB * 2)) files

/-- A line of the partition table, in bytes. -/
structure Partition where
  start : Nat
  size : Nat

def Partition.Contains (part : Partition) (a : Nat) : Prop :=
  part.start ≤ a ∧ a < part.start + part.size

def alignUp (a : Nat) : Nat := (a + (oneMiB - 1)) / oneMiB * oneMiB

/-- The partitions sfdisk makes for the sizes `size=…MiB`, from `pos` on. -/
def sfdiskFrom (pos : Nat) : List Nat → List Partition
  | [] => []
  | size :: sizes =>
    ⟨alignUp pos, size * oneMiB⟩ :: sfdiskFrom (alignUp pos + size * oneMiB) sizes

def table (files : List File) : List Partition := sfdiskFrom oneMiB (files.map sizeMiB)

/-- The image, from the outside: its bytes by address. -/
structure Disk where
  size : Nat
  byte : Nat → UInt8

/-- `truncate -s` on a new file, and then sfdisk, which leaves the bytes `disk`. A negative size
shrinks the file, and a new file stays empty. -/
def emptyImage (files : List File) (disk : Nat → UInt8) : Disk := ⟨(gptBytes files).toNat, disk⟩

/-- `cat file` with the descriptor at `offset`. -/
def Disk.write (img : Disk) (offset : Nat) (file : File) : Disk where
  size := if file.size = 0 then img.size else max img.size (offset + file.size)
  byte a := if offset ≤ a ∧ a < offset + file.size then file.byte (a - offset) else img.byte a

/-- jq's `.start * 512`, with the start in sectors. -/
def jqStart (part : Partition) : Nat :=
  Double.printed (Double.round (Double.round (part.start / 512) * 512))

/-- The offset `lseek` takes from its argument: `strtol` fails outside of `long`. -/
def lseek (offset : Nat) : Option Nat := if offset < 2 ^ 63 then some offset else none

/-- `fillPartition`. For a partition that is not there jq fails, and the script stops. -/
def fillPartition (table : List Partition) (n : Nat) (file : File) (img : Disk) : Option Disk :=
  match table[n]? with
  | none => none
  | some part => (lseek (jqStart part)).map fun offset => img.write offset file

/-- The last loop of the script, at partition `n`. -/
def fillFrom (table : List Partition) : Nat → List File → Disk → Option Disk
  | _, [], img => some img
  | n, file :: files, img => (fillPartition table n file img).bind (fillFrom table (n + 1) files)

def makeGpt (files : List File) (disk : Nat → UInt8) : Option Disk :=
  fillFrom (table files) 0 files (emptyImage files disk)

/-! ## What a correct image is -/

/-- The image made of `files` is correct, `disk` being what sfdisk has left in it. -/
structure Correct (files : List File) (disk : Nat → UInt8) : Prop where
  /-- A mebibyte is left on either side, for the two copies of the table. -/
  within : ∀ part ∈ table files, oneMiB ≤ part.start ∧
    part.start + part.size + oneMiB ≤ (emptyImage files disk).size
  disjoint : (table files).Pairwise fun part part' => part.start + part.size ≤ part'.start
  fits : List.Forall₂ (fun (file : File) (part : Partition) => file.size ≤ part.size) files
    (table files)
  /-- Every partition starts with its file, and outside of the partitions nothing has changed. -/
  filled : ∃ img, makeGpt files disk = some img ∧ img.size = (emptyImage files disk).size ∧
    List.Forall₂ (fun (file : File) (part : Partition) =>
      ∀ k < file.size, img.byte (part.start + k) = file.byte k) files (table files) ∧
    ∀ a, (∀ part ∈ table files, ¬ part.Contains a) → img.byte a = disk a
  /-- Filling a partition changes nothing outside of it. -/
  frame : ∀ {i : Nat} {file : File} {part : Partition} {img img' : Disk}, files[i]? = some file →
    (table files)[i]? = some part → fillPartition (table files) i file img = some img' →
      ∀ a, ¬ part.Contains a → img'.byte a = img.byte a

/-! ## Sizes -/

/-- The blocks a file needs. -/
def blocks (file : File) : Nat := (file.size + (oneMiB - 1)) / oneMiB

theorem sizeMiB_eq {file : File} (h : file.size < 2 ^ 53 - 2 ^ 20) :
    sizeMiB file = blocks file := by
  have h1 : Double.round file.size = file.size := Double.round_of_lt (by omega)
  have h2 : Double.round (file.size + oneMiB) = file.size + oneMiB :=
    Double.round_of_lt (by simp only [oneMiB]; omega)
  have h3 : Double.round (file.size + oneMiB - 1) = file.size + oneMiB - 1 :=
    Double.round_of_lt (by simp only [oneMiB]; omega)
  rw [sizeMiB, h1, h2, h3, blocks, Nat.add_sub_assoc (by decide)]

theorem size_le_blocks (file : File) : file.size ≤ blocks file * oneMiB := by
  simp only [blocks, oneMiB]
  omega

theorem shell_natCast {n : Nat} (h : n < 2 ^ 63) : shell (n : Int) = n := by
  unfold shell
  exact Int.bmod_eq_of_le (by omega) (by omega)

theorem gptBytesFrom_eq {files : List File} (hsize : ∀ file ∈ files, sizeMiB file = blocks file)
    {bytes : Nat} (h : bytes + (files.map blocks).sum * oneMiB < 2 ^ 63) :
    gptBytesFrom bytes files = (bytes + (files.map blocks).sum * oneMiB : Nat) := by
  induction files generalizing bytes with
  | nil => simp [gptBytesFrom]
  | cons file files ih =>
    rw [List.map_cons, List.sum_cons, Nat.add_mul] at h ⊢
    have hprod : shell ((sizeMiB file : Int) * oneMiB) = (blocks file * oneMiB : Nat) := by
      rw [hsize file List.mem_cons_self, ← Int.natCast_mul]
      exact shell_natCast (by omega)
    have hsum : shell ((bytes : Int) + (blocks file * oneMiB : Nat)) =
        (bytes + blocks file * oneMiB : Nat) := by
      rw [← Int.natCast_add]
      exact shell_natCast (by omega)
    rw [gptBytesFrom, hprod, hsum,
      ih (fun f hf => hsize f (List.mem_cons_of_mem _ hf)) (by omega), Nat.add_assoc]

/-! ## Places -/

theorem alignUp_of_dvd {a : Nat} (h : oneMiB ∣ a) : alignUp a = a := by
  obtain ⟨k, rfl⟩ := h
  simp only [alignUp, oneMiB]
  omega

/-- Where sfdisk puts partitions of whole mebibytes: one behind the other. -/
theorem mem_sfdiskFrom {sizes : List Nat} {pos : Nat} (hpos : oneMiB ∣ pos) {part : Partition}
    (h : part ∈ sfdiskFrom pos sizes) : pos ≤ part.start ∧ oneMiB ∣ part.start ∧
      part.start + part.size ≤ pos + sizes.sum * oneMiB := by
  induction sizes generalizing pos with
  | nil => cases h
  | cons size sizes ih =>
    rw [sfdiskFrom, alignUp_of_dvd hpos] at h
    rw [List.sum_cons, Nat.add_mul]
    cases List.mem_cons.mp h with
    | inl e =>
      subst e
      exact ⟨Nat.le_refl _, hpos, by dsimp only; omega⟩
    | inr h =>
      obtain ⟨hstart, hdvd, hend⟩ := ih (hpos.add (Nat.dvd_mul_left _ _)) h
      exact ⟨by omega, hdvd, by omega⟩

/-- Partitions that start before `bound` and are no longer than `width` do not reach far past it. -/
theorem sum_le_of_starts {sizes : List Nat} {pos bound width : Nat} (hpos : oneMiB ∣ pos)
    (hbound : pos ≤ bound) (hstarts : ∀ part ∈ sfdiskFrom pos sizes, part.start < bound)
    (hwidth : ∀ size ∈ sizes, size * oneMiB ≤ width) :
    pos + sizes.sum * oneMiB ≤ bound + width := by
  induction sizes generalizing pos with
  | nil =>
    rw [List.sum_nil, Nat.zero_mul]
    omega
  | cons size sizes ih =>
    have hnext : oneMiB ∣ pos + size * oneMiB := hpos.add (Nat.dvd_mul_left _ _)
    obtain ⟨hsize, hwidth⟩ := List.forall_mem_cons.mp hwidth
    rw [sfdiskFrom, alignUp_of_dvd hpos] at hstarts
    obtain ⟨hstart, hstarts⟩ := List.forall_mem_cons.mp hstarts
    rw [List.sum_cons, Nat.add_mul, ← Nat.add_assoc]
    cases sizes with
    | nil =>
      dsimp only at hstart
      rw [List.sum_nil, Nat.zero_mul]
      omega
    | cons size' sizes =>
      -- The next partition starts where this one ends.
      have hend := hstarts _ (by rw [sfdiskFrom]; exact List.mem_cons_self)
      rw [alignUp_of_dvd hnext] at hend
      exact ih hnext (Nat.le_of_lt hend) hstarts hwidth

theorem pairwise_sfdiskFrom {sizes : List Nat} {pos : Nat} (hpos : oneMiB ∣ pos) :
    (sfdiskFrom pos sizes).Pairwise fun part part' => part.start + part.size ≤ part'.start := by
  induction sizes generalizing pos with
  | nil => exact List.Pairwise.nil
  | cons size sizes ih =>
    have hnext : oneMiB ∣ pos + size * oneMiB := hpos.add (Nat.dvd_mul_left _ _)
    rw [sfdiskFrom, alignUp_of_dvd hpos]
    exact List.Pairwise.cons (fun part' h => (mem_sfdiskFrom hnext h).1) (ih hnext)

theorem fits_sfdiskFrom {files : List File} (hsize : ∀ file ∈ files, sizeMiB file = blocks file)
    (pos : Nat) : List.Forall₂ (fun (file : File) (part : Partition) => file.size ≤ part.size) files
      (sfdiskFrom pos (files.map sizeMiB)) := by
  induction files generalizing pos with
  | nil => exact List.Forall₂.nil
  | cons file files ih =>
    refine List.Forall₂.cons ?_ (ih (fun f hf => hsize f (List.mem_cons_of_mem _ hf)) _)
    rw [hsize file List.mem_cons_self]
    exact size_le_blocks file

/-- **jq reports the start exactly** if it is below `2 ^ 54`. -/
theorem jqStart_eq {part : Partition} (hpos : 0 < part.start) (hdvd : oneMiB ∣ part.start)
    (h : part.start < 2 ^ 54) : jqStart part = part.start := by
  have hsector : part.start / 512 * 512 = part.start :=
    Nat.div_mul_cancel ((by decide : 512 ∣ oneMiB).trans hdvd)
  have hround : Double.round (part.start / 512) = part.start / 512 :=
    Double.round_of_lt (by omega)
  have hround' : Double.round part.start = part.start :=
    Double.round_of_even h ((by decide : 2 ∣ oneMiB).trans hdvd)
  rw [jqStart, hround, hsector, hround']
  exact Double.printed_exact h hpos hdvd

/-! ## Filling -/

theorem write_inside {img : Disk} {offset : Nat} {file : File} {k : Nat} (h : k < file.size) :
    (img.write offset file).byte (offset + k) = file.byte k := by
  simp [Disk.write, h]

theorem write_outside {img : Disk} {part : Partition} {file : File} (hfits : file.size ≤ part.size)
    {a : Nat} (h : ¬ part.Contains a) : (img.write part.start file).byte a = img.byte a := by
  simp only [Disk.write]
  refine if_neg fun hin => h ⟨hin.1, ?_⟩
  omega

theorem write_size {img : Disk} {part : Partition} {file : File} (hfits : file.size ≤ part.size)
    (h : part.start + part.size ≤ img.size) : (img.write part.start file).size = img.size := by
  simp only [Disk.write]
  split
  · rfl
  · omega

/-- What makes filling `part` with `file` work in an image of `size` bytes. -/
structure Fillable (size : Nat) (file : File) (part : Partition) : Prop where
  start : jqStart part = part.start
  fits : file.size ≤ part.size
  within : part.start + part.size ≤ size
  offset : part.start < 2 ^ 63

theorem fillPartition_eq {table : List Partition} {n size : Nat} {file : File} {part : Partition}
    (hpart : table[n]? = some part) (h : Fillable size file part) (img : Disk) :
    fillPartition table n file img = some (img.write part.start file) := by
  simp only [fillPartition, hpart, h.start, lseek, if_pos h.offset, Option.map_some]

/-- The loop, from partition `n` on: every partition gets its file, and keeps it. -/
theorem fillFrom_spec {table : List Partition} {n : Nat} {files : List File} {img : Disk}
    (hfill : List.Forall₂ (Fillable img.size) files (table.drop n))
    (hdisjoint : (table.drop n).Pairwise fun part part' => part.start + part.size ≤ part'.start) :
    ∃ img', fillFrom table n files img = some img' ∧ img'.size = img.size ∧
      List.Forall₂ (fun (file : File) (part : Partition) =>
        ∀ k < file.size, img'.byte (part.start + k) = file.byte k) files (table.drop n) ∧
      ∀ a, (∀ part ∈ table.drop n, ¬ part.Contains a) → img'.byte a = img.byte a := by
  induction files generalizing n img with
  | nil =>
    cases hnil : table.drop n with
    | nil => exact ⟨img, rfl, rfl, List.Forall₂.nil, fun a _ => rfl⟩
    | cons part rest =>
      rw [hnil] at hfill
      cases hfill
  | cons file files ih =>
    cases hcons : table.drop n with
    | nil =>
      rw [hcons] at hfill
      cases hfill
    | cons part rest =>
      rw [hcons] at hfill hdisjoint
      obtain ⟨hpart, hrest⟩ := List.forall₂_cons.mp hfill
      obtain ⟨hlater, hdisjoint⟩ := List.pairwise_cons.mp hdisjoint
      have hget : table[n]? = some part := by
        have := congrArg (fun l : List Partition => l[0]?) hcons
        simpa using this
      have hdrop : table.drop (n + 1) = rest := by
        rw [← List.tail_drop, hcons, List.tail_cons]
      have hsize := write_size hpart.fits hpart.within
      rw [← hdrop] at hrest hdisjoint
      obtain ⟨img', hrun, hsize', hfilled, hframe⟩ := ih (hsize.symm ▸ hrest) hdisjoint
      rw [hdrop] at hfilled hframe
      refine ⟨img', ?_, hsize'.trans hsize, List.Forall₂.cons ?_ hfilled, ?_⟩
      · rw [fillFrom, fillPartition_eq hget hpart]
        exact hrun
      · intro k hk
        -- The later partitions start behind this one, so none of them holds this byte.
        have hkeep := hframe (part.start + k) fun part' hmem hin => by
          have := hlater part' hmem
          have := hin.1
          have := hpart.fits
          omega
        rw [hkeep, write_inside hk]
      · intro a ha
        rw [hframe a fun part' hmem => ha part' (List.mem_cons_of_mem _ hmem)]
        exact write_outside hpart.fits (ha part List.mem_cons_self)

/-! ## The image -/

theorem emptyImage_size {files : List File} (disk : Nat → UInt8)
    (hsize : ∀ file ∈ files, sizeMiB file = blocks file)
    (hfits : 2 * oneMiB + (files.map blocks).sum * oneMiB < 2 ^ 63) :
    (emptyImage files disk).size = 2 * oneMiB + (files.map blocks).sum * oneMiB := by
  have hstart : shell ((oneMiB : Int) * 2) = (2 * oneMiB : Nat) := by decide
  rw [emptyImage, gptBytes, hstart, gptBytesFrom_eq hsize hfits]
  rfl

/-- **`make-gpt.sh` produces a correct image** if every partition starts before byte `2 ^ 54`. -/
theorem makeGpt_correct (files : List File) (disk : Nat → UInt8)
    (hsize : ∀ file ∈ files, file.size < 2 ^ 53 - 2 ^ 20)
    (hstarts : ∀ part ∈ table files, part.start < 2 ^ 54) :
    Correct files disk := by
  have hblocks : ∀ file ∈ files, sizeMiB file = blocks file := fun file hf =>
    sizeMiB_eq (hsize file hf)
  have hmap : files.map sizeMiB = files.map blocks := List.map_congr_left hblocks
  have hwidth : ∀ size ∈ files.map sizeMiB, size * oneMiB ≤ 2 ^ 53 := by
    intro size hmem
    obtain ⟨file, hfile, rfl⟩ := List.mem_map.mp hmem
    have hlt := hsize file hfile
    rw [hblocks file hfile]
    simp only [blocks, oneMiB]
    omega
  have hsum := sum_le_of_starts (Nat.dvd_refl oneMiB) (by decide) hstarts hwidth
  rw [hmap] at hsum
  have hbytes := emptyImage_size disk hblocks (by simp only [oneMiB] at hsum ⊢; omega)
  have hplace : ∀ part ∈ table files, oneMiB ≤ part.start ∧ oneMiB ∣ part.start ∧
      part.start + part.size + oneMiB ≤ (emptyImage files disk).size := by
    intro part hpart
    obtain ⟨hstart, hdvd, hend⟩ := mem_sfdiskFrom (Nat.dvd_refl oneMiB) hpart
    rw [hmap] at hend
    exact ⟨hstart, hdvd, by omega⟩
  have hdisjoint : (table files).Pairwise fun part part' => part.start + part.size ≤ part'.start :=
    pairwise_sfdiskFrom (Nat.dvd_refl oneMiB)
  have hfits := fits_sfdiskFrom hblocks oneMiB
  have hfillable : ∀ (file : File) (part : Partition), part ∈ table files →
      file.size ≤ part.size → Fillable (emptyImage files disk).size file part := by
    intro file part hpart hle
    obtain ⟨hstart, hdvd, hend⟩ := hplace part hpart
    have hpos : 0 < oneMiB := by decide
    have hlt := hstarts part hpart
    exact ⟨jqStart_eq (by omega) hdvd hlt, hle, by omega, by omega⟩
  have hfill : List.Forall₂ (Fillable (emptyImage files disk).size) files (table files) :=
    List.forall₂_iff_get.mpr ⟨hfits.length_eq, fun i hi hi' =>
      hfillable _ _ (List.get_mem _ _) (hfits.get hi hi')⟩
  refine ⟨fun part hpart => ⟨(hplace part hpart).1, (hplace part hpart).2.2⟩, hdisjoint, hfits,
    fillFrom_spec hfill hdisjoint, ?_⟩
  intro i file part img img' hfile hpart hrun a ha
  have hgood : Fillable (emptyImage files disk).size file part := by
    obtain ⟨hi, rfl⟩ := List.getElem?_eq_some_iff.mp hfile
    obtain ⟨hi', rfl⟩ := List.getElem?_eq_some_iff.mp hpart
    exact hfill.get hi hi'
  rw [fillPartition_eq hpart hgood] at hrun
  cases hrun
  exact write_outside hgood.fits ha

/-- Two files of three bytes and of one mebibyte and a byte; and five files, the last of which
starts a mebibyte before `2 ^ 54` and ends behind it. -/
theorem makeGpt_correct_two :
    Correct [⟨3, fun _ => 7⟩, ⟨oneMiB + 1, fun _ => 9⟩] (fun _ => 0) ∧
      Correct [⟨2 ^ 52, fun _ => 0⟩, ⟨2 ^ 52, fun _ => 0⟩, ⟨2 ^ 52, fun _ => 0⟩,
        ⟨2 ^ 52 - 2 ^ 21, fun _ => 0⟩, ⟨2 ^ 52, fun _ => 1⟩] (fun _ => 0) :=
  ⟨makeGpt_correct _ _ (by decide) (by decide), makeGpt_correct _ _ (by decide) (by decide)⟩

/-- Five files; the last one, of a single byte, starts three mebibytes past `2 ^ 54`. -/
def farFiles : List File :=
  [⟨2 ^ 52 + 2 ^ 21, fun _ => 0⟩, ⟨2 ^ 52, fun _ => 0⟩, ⟨2 ^ 52, fun _ => 0⟩,
    ⟨2 ^ 52, fun _ => 0⟩, ⟨1, fun _ => 1⟩]

/-- The byte is written two bytes in front of its partition. -/
theorem makeGpt_far : (∀ file ∈ farFiles, 0 < file.size ∧ file.size < 2 ^ 53 - 2 ^ 20) ∧
    ¬ Correct farFiles (fun _ => 0) := by
  refine ⟨by decide, fun h => ?_⟩
  obtain ⟨img, hrun, -, hfilled, -⟩ := h.filled
  have hbyte : (makeGpt farFiles fun _ => 0).map (fun img => img.byte (2 ^ 54 + 3 * 2 ^ 20)) =
      some 0 := by
    decide
  have hlast := hfilled.get (show 4 < farFiles.length by decide)
    (show 4 < (table farFiles).length by decide) 0 (by decide)
  have hstart : ((table farFiles).get ⟨4, by decide⟩).start + 0 = 2 ^ 54 + 3 * 2 ^ 20 := by decide
  rw [hstart] at hlast
  rw [hrun, Option.map_some, hlast] at hbyte
  exact absurd hbyte (by decide)

end Spectrum.Image
