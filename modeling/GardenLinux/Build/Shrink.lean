import Mathlib.Algebra.Order.Ring.Int
import GardenLinux.Lib.RawFile

/-!
# Shrinking an image

`bin/shrink.sh` makes partition 3 of `rootfs.raw` as small as its file system and cuts the image
after it.  It counts in sectors: `sectors_end` is the last sector of the partition, but is used as
the number of sectors that are kept, and as the place where the saved sectors go.  These are copied
with `seek` both times, so that what is saved are the first sectors of the image, and what is put
back are the first sectors of `gpt.bak`.

What is proved here:

* `shrink_image` — the image afterwards;
* `shrunk_iff` — when exactly the partition is kept, with so many of the saved sectors after it.
-/

namespace GardenBuild

open RawFile

/-! ## The script -/

/-- A number of bash arithmetic, which has 64 bits. -/
def int64 (n : ℤ) : ℤ := n.bmod (2 ^ 64)

/-- What is known of the file system that `resize2fs` has made small, with the image and an older
file `gpt.bak`, if there is one.  The partition with the file system lies in the image, the image
begins with a partition table, and offsets in it have 64 bits. -/
structure ShrinkInput where
  startsector : ℕ
  blocksFs : ℕ
  blocksize : String
  image : List UInt8
  gptBak : List UInt8
  partition_le : (startsector + 8 * blocksFs) * 512 ≤ image.length
  table_le : 34 * 512 ≤ image.length
  size_lt : image.length + 34 * 512 < 2 ^ 63

/-- The files afterwards. -/
structure ShrunkFiles where
  image : List UInt8
  gptBak : List UInt8

namespace ShrinkInput

def sectorsize : ℕ := 512

def sectorsGpt : ℕ := 34

variable (i : ShrinkInput)

def sectorsPart : ℤ := (int64 (i.blocksFs * 4096)).tdiv sectorsize

def sectorsEnd : ℤ := int64 (int64 (i.startsector + i.sectorsPart) - 1)

def sectorsFinal : ℤ := int64 (i.sectorsEnd + sectorsGpt)

def bytesEnd : ℤ := int64 (i.sectorsEnd * sectorsize)

def bytesFinal : ℤ := int64 (i.sectorsFinal * sectorsize)

/-- `shrink.sh`, from the report of `resize2fs` on. -/
def shrink : Except String ShrunkFiles :=
  if ¬ 0 < i.blocksFs then .error "ERROR: cannot determine shrinked size"
  else if i.blocksize ≠ "4k" then
    .error ("ERROR: no standard blocksize 4k!=" ++ i.blocksize)
  else
    let gptBak := dd 0 sectorsize sectorsGpt i.sectorsEnd.toNat i.image i.gptBak
    let image := resize 0 i.bytesEnd.toNat i.image
    .ok ⟨dd 0 sectorsize sectorsGpt i.sectorsEnd.toNat gptBak image, gptBak⟩

/-! ## What is kept -/

/-- Some sectors of a file. -/
def sectors (file : List UInt8) (first count : ℕ) : List UInt8 :=
  region file (first * sectorsize) (count * sectorsize)

/-- The image has the size that was computed, the resized partition is unchanged, and the first so
many of the saved sectors come after it. -/
structure Shrunk (count : ℕ) (files : ShrunkFiles) : Prop where
  partition : sectors files.image i.startsector (8 * i.blocksFs) =
    sectors i.image i.startsector (8 * i.blocksFs)
  saved : sectors files.image (i.startsector + 8 * i.blocksFs) count = sectors i.image 0 count
  size : files.image.length = i.bytesFinal

/-- The last sector of the resized partition. -/
def lastSector : ℕ := i.startsector + 8 * i.blocksFs - 1

/-- What is put back: an older `gpt.bak`, filled up to the last sector of the partition, and then
the image. -/
def putBack : List UInt8 :=
  (resize 0 (i.lastSector * sectorsize) i.gptBak ++ i.image).take (sectorsGpt * sectorsize)

/-! ## Arithmetic -/

theorem int64_of_lt {n : ℤ} (h : 0 ≤ n) (hlt : n < 2 ^ 63) : int64 n = n :=
  Int.bmod_eq_of_le (by omega) (by omega)

variable {i}

theorem sectorsPart_eq : i.sectorsPart = 8 * i.blocksFs := by
  have hle := i.partition_le
  have hlt := i.size_lt
  rw [sectorsPart, int64_of_lt (by omega) (by omega), Int.tdiv_eq_ediv_of_nonneg (by omega)]
  unfold sectorsize
  omega

theorem sectorsEnd_eq (h : 0 < i.blocksFs) : i.sectorsEnd = i.lastSector := by
  have hle := i.partition_le
  have hlt := i.size_lt
  rw [sectorsEnd, sectorsPart_eq, int64_of_lt (n := _ + _) (by omega) (by omega),
    int64_of_lt (by omega) (by omega)]
  unfold lastSector
  omega

theorem lastSector_succ (h : 0 < i.blocksFs) :
    i.lastSector + 1 = i.startsector + 8 * i.blocksFs := by
  unfold lastSector
  omega

theorem lastSector_le (h : 0 < i.blocksFs) : (i.lastSector + 1) * 512 ≤ i.image.length :=
  lastSector_succ h ▸ i.partition_le

theorem lastSector_mul_le (h : 0 < i.blocksFs) : i.lastSector * 512 ≤ i.image.length :=
  Nat.le_trans (Nat.mul_le_mul_right 512 (Nat.le_succ _)) (lastSector_le h)

theorem bytesEnd_eq (h : 0 < i.blocksFs) : i.bytesEnd = i.lastSector * 512 := by
  have hle := lastSector_le h
  have hlt := i.size_lt
  rw [bytesEnd, sectorsEnd_eq h]
  unfold sectorsize
  rw [int64_of_lt (by omega) (by omega)]
  omega

theorem bytesFinal_eq (h : 0 < i.blocksFs) : i.bytesFinal = (i.lastSector + 34) * 512 := by
  have hle := lastSector_le h
  have hlt := i.size_lt
  rw [bytesFinal, sectorsFinal, sectorsEnd_eq h]
  unfold sectorsize sectorsGpt
  rw [int64_of_lt (n := _ + _) (by omega) (by omega), int64_of_lt (by omega) (by omega)]
  omega

/-! ## The image afterwards -/

variable {files : ShrunkFiles}

/-- The script goes through for blocks of 4096 bytes. -/
theorem shrink_ok_iff :
    i.shrink = .ok files ↔ (0 < i.blocksFs ∧ i.blocksize = "4k") ∧
      files.gptBak = dd 0 512 34 i.lastSector i.image i.gptBak ∧
      files.image = i.image.take (i.lastSector * 512) ++ i.putBack := by
  unfold shrink
  by_cases hblocks : 0 < i.blocksFs
  · rw [if_neg (not_not.2 hblocks)]
    by_cases hsize : i.blocksize = "4k"
    · have hend : i.sectorsEnd.toNat = i.lastSector := by
        rw [sectorsEnd_eq hblocks, Int.toNat_natCast]
      have hbytes : i.bytesEnd.toNat = i.lastSector * 512 := by
        have heq := bytesEnd_eq hblocks
        omega
      have hcut : resize 0 (i.lastSector * 512) i.image = i.image.take (i.lastSector * 512) :=
        resize_of_le (lastSector_mul_le hblocks)
      have himage : dd 0 512 34 i.lastSector (dd 0 512 34 i.lastSector i.image i.gptBak)
          (resize 0 (i.lastSector * 512) i.image) =
            i.image.take (i.lastSector * 512) ++ i.putBack := by
        rw [dd, resize_resize, take_dd, hcut]
        rfl
      rw [if_neg (not_not.2 hsize), Except.ok.injEq]
      simp only [hend, hbytes, sectorsize, sectorsGpt, himage]
      constructor
      · rintro rfl
        exact ⟨⟨hblocks, hsize⟩, rfl, rfl⟩
      · rintro ⟨-, hbak, hfinal⟩
        rw [← hbak, ← hfinal]
    · simp [hsize]
  · simp [hblocks]

theorem length_putBack : i.putBack.length = 34 * 512 := by
  have hle := i.table_le
  simp only [putBack, List.length_take, List.length_append, length_resize, sectorsize, sectorsGpt]
  omega

theorem sectors_add (file : List UInt8) (first m n : ℕ) :
    sectors file first (m + n) = sectors file first m ++ sectors file (first + m) n := by
  rw [sectors, sectors, sectors, Nat.add_mul, Nat.add_mul, region_eq_append]

section Shrunken

variable (h : i.shrink = .ok files)

include h

theorem length_kept : (i.image.take (i.lastSector * 512)).length = i.lastSector * 512 := by
  rw [List.length_take, Nat.min_eq_left (lastSector_mul_le (shrink_ok_iff.1 h).1.1)]

/-- The image has the computed size. -/
theorem length_shrunk : files.image.length = i.bytesFinal := by
  obtain ⟨⟨hblocks, -⟩, -, himage⟩ := shrink_ok_iff.1 h
  rw [himage, List.length_append, length_kept h, length_putBack, bytesFinal_eq hblocks]
  omega

/-- Before the last sector of the partition nothing is changed. -/
theorem sectors_kept {first count : ℕ} (hlast : first + count ≤ i.lastSector) :
    sectors files.image first count = sectors i.image first count := by
  obtain ⟨-, -, himage⟩ := shrink_ok_iff.1 h
  have hkept := length_kept h
  rw [himage, sectors, sectors, region_append_left, region_take]
  · unfold sectorsize
    omega
  · rw [hkept]
    unfold sectorsize
    omega

/-- From the last sector of the partition on stands what is put back. -/
theorem sectors_putBack (first count : ℕ) :
    sectors files.image (i.lastSector + first) count = sectors i.putBack first count := by
  obtain ⟨-, -, himage⟩ := shrink_ok_iff.1 h
  have hkept := length_kept h
  rw [himage, sectors, sectors, region_append_right, hkept]
  · congr 1
    unfold sectorsize
    omega
  · rw [hkept]
    unfold sectorsize
    omega

/-- The partition is kept up to its last sector, which is overwritten. -/
theorem partition_iff :
    sectors files.image i.startsector (8 * i.blocksFs) =
        sectors i.image i.startsector (8 * i.blocksFs) ↔
      sectors i.putBack 0 1 = sectors i.image i.lastSector 1 := by
  obtain ⟨⟨hblocks, -⟩, -, -⟩ := shrink_ok_iff.1 h
  have hsucc := lastSector_succ hblocks
  have hcount : 8 * i.blocksFs = (8 * i.blocksFs - 1) + 1 := by omega
  have hlast : i.startsector + (8 * i.blocksFs - 1) = i.lastSector := by omega
  have hput := sectors_putBack h 0 1
  rw [hcount, sectors_add, sectors_add, hlast, sectors_kept h (Nat.le_of_eq hlast),
    List.append_right_inj]
  rw [← hput, Nat.add_zero]

/-- There is room for 33 sectors after the partition. -/
theorem saved_iff {count : ℕ} :
    sectors files.image (i.startsector + 8 * i.blocksFs) count = sectors i.image 0 count ↔
      count ≤ 33 ∧ sectors i.putBack 1 count = sectors i.image 0 count := by
  obtain ⟨⟨hblocks, -⟩, -, -⟩ := shrink_ok_iff.1 h
  rw [← lastSector_succ hblocks, sectors_putBack h]
  refine ⟨fun heq => ⟨?_, heq⟩, And.right⟩
  have hlength := congrArg List.length heq
  have htable := i.table_le
  simp only [sectors, length_region, length_putBack, sectorsize] at hlength
  omega

end Shrunken

/-- The partition is kept, with so many of the saved sectors after it, if and only if its last
sector and these sectors are what is put back, and there are at most 33 of them. -/
theorem shrunk_iff (h : i.shrink = .ok files) (count : ℕ) :
    i.Shrunk count files ↔
      sectors i.putBack 0 1 = sectors i.image i.lastSector 1 ∧
        count ≤ 33 ∧ sectors i.putBack 1 count = sectors i.image 0 count := by
  rw [← partition_iff h, ← saved_iff h]
  constructor
  · rintro ⟨hpartition, hsaved, -⟩
    exact ⟨hpartition, hsaved⟩
  · rintro ⟨hpartition, hsaved⟩
    exact ⟨hpartition, hsaved, length_shrunk h⟩

/-- An image with the same byte everywhere, and a file system of one block. -/
def filled (byte : UInt8) : ShrinkInput where
  startsector := 34
  blocksFs := 1
  blocksize := "4k"
  image := List.replicate (75 * 512) byte
  gptBak := []
  partition_le := by rw [List.length_replicate]; decide
  table_le := by rw [List.length_replicate]; decide
  size_lt := by rw [List.length_replicate]; decide

theorem exists_shrink_filled (byte : UInt8) : ∃ files, (filled byte).shrink = .ok files :=
  ⟨⟨_, _⟩, shrink_ok_iff.2 ⟨⟨Nat.one_pos, rfl⟩, rfl, rfl⟩⟩

/-- Without an older `gpt.bak`, zeros are put back. -/
theorem putBack_of_fresh (hbak : i.gptBak = []) (hlast : 34 ≤ i.lastSector) :
    i.putBack = List.replicate (34 * 512) 0 := by
  have hle : 34 * 512 ≤ i.lastSector * 512 := Nat.mul_le_mul_right 512 hlast
  unfold putBack sectorsize sectorsGpt
  rw [hbak, resize_nil, List.take_append_of_le_length, List.take_replicate, Nat.min_eq_left hle]
  rw [List.length_replicate]
  exact hle

theorem sectors_replicate {byte : UInt8} {n first count : ℕ} (h : first + count ≤ n) :
    sectors (List.replicate (n * 512) byte) first count = List.replicate (count * 512) byte := by
  unfold sectors sectorsize
  rw [region_replicate]
  congr 1
  omega

/-- An image of zeros keeps its partition. -/
theorem shrunk_iff_zero : ∃ files, (filled 0).shrink = .ok files ∧ (filled 0).Shrunk 33 files := by
  obtain ⟨files, hfiles⟩ := exists_shrink_filled 0
  have hput : (filled 0).putBack = List.replicate (34 * 512) 0 := putBack_of_fresh rfl (by decide)
  have himage : (filled 0).image = List.replicate (75 * 512) 0 := rfl
  refine ⟨files, hfiles, (shrunk_iff hfiles 33).2 ?_⟩
  rw [hput, himage, sectors_replicate (by decide), sectors_replicate (by decide),
    sectors_replicate (by decide), sectors_replicate (by decide)]
  exact ⟨rfl, Nat.le_refl 33, rfl⟩

/-- Without an older `gpt.bak`, the partition is kept only if its last sector is empty. -/
theorem partition_iff_of_fresh (h : i.shrink = .ok files) (hbak : i.gptBak = [])
    (hlast : 34 ≤ i.lastSector) :
    sectors files.image i.startsector (8 * i.blocksFs) =
        sectors i.image i.startsector (8 * i.blocksFs) ↔
      sectors i.image i.lastSector 1 = List.replicate 512 0 := by
  rw [partition_iff h, putBack_of_fresh hbak hlast, sectors_replicate (by decide), Nat.one_mul,
    eq_comm]

/-- All sectors that have been saved never come after the partition. -/
theorem not_shrunk_sectorsGpt (h : i.shrink = .ok files) : ¬ i.Shrunk sectorsGpt files := by
  rintro ⟨-, hsaved, -⟩
  have hroom := ((saved_iff h).1 hsaved).1
  exact absurd hroom (by decide)

/-- An image of ones loses the last sector of its partition. -/
theorem shrunk_fails :
    ¬ ∀ (i : ShrinkInput) (files : ShrunkFiles), i.shrink = .ok files →
      ∃ count, i.Shrunk count files := by
  intro h
  obtain ⟨files, hfiles⟩ := exists_shrink_filled 1
  obtain ⟨count, hpartition, -, -⟩ := h (filled 1) files hfiles
  have hlast := (partition_iff_of_fresh hfiles rfl (by decide)).1 hpartition
  have himage : (filled 1).image = List.replicate (75 * 512) 1 := rfl
  have hcount : (filled 1).lastSector + 1 ≤ 75 := by decide
  rw [himage, sectors_replicate hcount, List.replicate_inj] at hlast
  exact absurd hlast.2 (by decide)

end ShrinkInput

end GardenBuild
