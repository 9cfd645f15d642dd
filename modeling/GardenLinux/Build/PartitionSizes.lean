import Mathlib.Order.Bounds.Basic
import GardenLinux.Lib.Double

/-!
# Sizes of partitions

`bin/makepart` writes every partition to a file of its own and reports its size in MiB, rounded by
awk; `bin/makedisk` adds these sizes up, makes an image of 2 MiB more, and copies each file to its
place in it.

awk computes with doubles. The formula for the padding, `$1 + (MB - ($1 % MB) % MB)`, reads as if
a size that is a multiple of a MiB were left alone. But `-` binds weaker than `%`, so such a size
grows by a whole MiB.

What is proved here:

* `sizesTight_iff` — the reported sizes are the least ones exactly when no file is a multiple of
  a MiB;
* `hasRoom` and `file_le_partition` — the image has room for all partitions, and none of them is
  smaller than its file;
* `reported_truncated` — every file that `truncate` has just given its size is reported too large.
-/

namespace GardenBuild

open Double

/-- `MB=1048576`. -/
def MB : ℕ := 1048576

/-- The size of a file in bytes, an `off_t`. -/
abbrev FileSize := Fin (2 ^ 63)

/-- `padded_size = $1 + (MB - ($1 % MB) % MB)`. -/
def paddedSize (x : ℕ) : ℕ := toDouble (x + (MB - x % MB % MB))

/-- `du -b "$file" | awk '{ padded_size = …; print (padded_size / MB) }'`: what `makepart` reports
for a partition, and in the same words for its hash partition. -/
def reportedSize (file : FileSize) : ℕ := paddedSize (toDouble file) / MB

/-- `print (padded_size / MB) + 16 "MiB"`: the size a resized root partition is given. -/
def rootSize (file : FileSize) : ℕ := paddedSize (toDouble file) / MB + 16

/-- `size = $1 * 1.5`, `padded_size` and its minimum: the size a partition is given first, for a
directory of so many bytes. Here everything is counted in halves of a byte. -/
def initialSize (du : FileSize) : ℕ :=
  let size := toDouble (3 * toDouble du)
  let padded := toDouble (size + (2 * MB - size % (2 * MB) % (2 * MB)))
  if padded < 64 * (2 * MB) then 64 else padded / (2 * MB)

/-! ## Disk images -/

/-- `sector_size`. -/
def sectorSize : ℕ := 512

/-- Sectors of a MiB. -/
def mibSectors : ℕ := 2048

/-- The sum of the partition sizes and `img_size=$((img_size + 2))`, in MiB. -/
def imgSize (sizes : List ℕ) : ℕ := sizes.foldl (· + ·) 0 + 2

/-- A partition in the table of an image. -/
structure TableEntry where
  start : ℕ
  sectors : ℕ

/-- A protective MBR, a header and 128 entries. -/
def firstGpt : ℕ := 34

/-- 128 entries and a header. -/
def lastGpt : ℕ := 33

/-- The entries stand at whole MiB, between the two partition tables, and do not overlap. -/
structure FitsImage (sectors : ℕ) (table : List TableEntry) : Prop where
  aligned : ∀ e ∈ table, mibSectors ∣ e.start
  inside : ∀ e ∈ table, firstGpt ≤ e.start ∧ e.start + e.sectors + lastGpt ≤ sectors
  disjoint : table.Pairwise fun e e' =>
    e.start + e.sectors ≤ e'.start ∨ e'.start + e'.sectors ≤ e.start

/-- `size=${size}MiB`: a table of partitions of these sizes in an image of `imgSize`. -/
def HasRoom (sizes : List ℕ) : Prop :=
  ∃ table : List TableEntry, table.map TableEntry.sectors = sizes.map (· * mibSectors) ∧
    FitsImage (imgSize sizes * mibSectors) table

/-- `dd … bs="$sector_size" count="$num_sectors"`: the bytes of a file that reach its partition. -/
def copiedBytes (file : FileSize) : ℕ := min file.val (reportedSize file * mibSectors * sectorSize)

/-- The sizes `makepart` reports for these files are the least ones, and the image `makedisk`
makes of them holds every file. -/
structure SizesTight (files : List FileSize) : Prop where
  tight : ∀ f ∈ files, IsLeast {n : ℕ | f.val ≤ n * MB} (reportedSize f)
  room : HasRoom (files.map reportedSize)
  whole : ∀ f ∈ files, copiedBytes f = f.val

/-! ## What awk computes -/

/-- A multiple of a MiB is a double, up to a MiB above the largest file. -/
theorem toDouble_mul_MB {k : ℕ} (h : k ≤ 2 ^ 43 + 1) : toDouble (k * MB) = k * MB := by
  refine toDouble_of_dvd (j := 20) ?_ ⟨k, Nat.mul_comm _ _⟩
  show k * 1048576 < 2 ^ 73
  omega

theorem toDouble_file_le (file : FileSize) : toDouble file ≤ 2 ^ 43 * MB := by
  have hf := file.isLt
  have hlt : file.val < 2 ^ (53 + 20) := by omega
  exact toDouble_le hlt ⟨2 ^ 43, by decide⟩ (by unfold MB; omega)

/-- The formula takes a number to the next multiple of a MiB above it, and never to itself. -/
theorem paddedSize_eq {x : ℕ} (h : x ≤ 2 ^ 43 * MB) : paddedSize x = (x / MB + 1) * MB := by
  have hsum : x + (MB - x % MB % MB) = (x / MB + 1) * MB := by
    unfold MB
    omega
  have hle : x / MB + 1 ≤ 2 ^ 43 + 1 := by
    unfold MB at h ⊢
    omega
  unfold paddedSize
  rw [hsum]
  exact toDouble_mul_MB hle

theorem reportedSize_eq (file : FileSize) : reportedSize file = toDouble file / MB + 1 := by
  unfold reportedSize
  rw [paddedSize_eq (toDouble_file_le file)]
  exact Nat.mul_div_cancel _ (by decide)

/-- Reading the size as a double does not take it out of the MiB it ends in. -/
theorem toDouble_file_between (file : FileSize) :
    file.val / MB * MB ≤ toDouble file ∧ toDouble file ≤ (file.val / MB + 1) * MB := by
  have hf := file.isLt
  have hlt : file.val < 2 ^ (53 + 20) := by omega
  constructor
  · exact le_toDouble hlt ⟨file.val / MB, Nat.mul_comm _ _⟩ (by unfold MB; omega)
  · exact toDouble_le hlt ⟨file.val / MB + 1, Nat.mul_comm _ _⟩ (by unfold MB; omega)

/-- A partition is never smaller than its file. -/
theorem file_le_partition (file : FileSize) : file.val ≤ reportedSize file * MB := by
  have hbetween := toDouble_file_between file
  rw [reportedSize_eq]
  unfold MB at hbetween ⊢
  omega

/-- The least size in MiB. -/
theorem isLeast_iff {f n : ℕ} :
    IsLeast {n : ℕ | f ≤ n * MB} n ↔ f ≤ n * MB ∧ (n = 0 ∨ (n - 1) * MB < f) := by
  constructor
  · rintro ⟨hle, hleast⟩
    refine ⟨hle, ?_⟩
    by_contra hcon
    have hpred : n ≤ n - 1 := hleast (show f ≤ (n - 1) * MB by omega)
    omega
  · rintro ⟨hle, hpred⟩
    refine ⟨hle, ?_⟩
    intro m (hm : f ≤ m * MB)
    unfold MB at hm hpred
    omega

/-- **Tight sizes.** The reported size is the least one exactly when the file is no multiple of
a MiB, nor becomes one when awk reads its size. -/
theorem reported_isLeast_iff (file : FileSize) :
    IsLeast {n : ℕ | file.val ≤ n * MB} (reportedSize file) ↔
      ¬ MB ∣ file.val ∧ toDouble file ≠ (file.val / MB + 1) * MB := by
  have hbetween := toDouble_file_between file
  have hle := file_le_partition file
  rw [isLeast_iff, and_iff_right hle, reportedSize_eq]
  rw [Nat.dvd_iff_mod_eq_zero]
  unfold MB at hbetween ⊢
  omega

/-- A file that has been given a whole number of MiB is reported one MiB too large. -/
theorem reported_truncated {n : ℕ} (file : FileSize) (h : file.val = n * MB) :
    reportedSize file = n + 1 := by
  have hf := file.isLt
  have hn : n ≤ 2 ^ 43 + 1 := by
    unfold MB at h
    omega
  rw [reportedSize_eq, h, toDouble_mul_MB hn]
  rw [Nat.mul_div_cancel _ (by decide)]

/-- So is every root partition that was resized. -/
theorem reported_root {file file' : FileSize} (h : file'.val = rootSize file * MB) :
    reportedSize file' = rootSize file + 1 :=
  reported_truncated file' h

/-- So is every partition of a size that was not given and that is not resized. -/
theorem reported_initial {du file : FileSize} (h : file.val = initialSize du * MB) :
    reportedSize file = initialSize du + 1 :=
  reported_truncated file h

/-! ## Room -/

theorem imgSize_eq (sizes : List ℕ) : imgSize sizes = sizes.sum + 2 := by
  unfold imgSize
  rw [List.sum_eq_foldl]

/-- The partitions one after another. -/
def placed : ℕ → List ℕ → List TableEntry
  | _, [] => []
  | mib, size :: rest =>
    ⟨mib * mibSectors, size * mibSectors⟩ :: placed (mib + size) rest

theorem map_placed (sizes : List ℕ) (mib : ℕ) :
    (placed mib sizes).map TableEntry.sectors = sizes.map (· * mibSectors) := by
  induction sizes generalizing mib with
  | nil => rfl
  | cons size rest ih =>
    show size * mibSectors :: _ = size * mibSectors :: _
    rw [ih]

theorem placed_within {sizes : List ℕ} {mib : ℕ} {e : TableEntry} (h : e ∈ placed mib sizes) :
    mibSectors ∣ e.start ∧ mib * mibSectors ≤ e.start ∧
      e.start + e.sectors ≤ (mib + sizes.sum) * mibSectors := by
  induction sizes generalizing mib with
  | nil => cases h
  | cons size rest ih =>
    rw [List.sum_cons]
    rcases List.mem_cons.1 h with rfl | hrest
    · dsimp only
      refine ⟨Dvd.intro_left mib rfl, Nat.le_refl _, ?_⟩
      unfold mibSectors
      omega
    · obtain ⟨hdvd, hstart, hend⟩ := ih hrest
      rw [Nat.add_assoc] at hend
      exact ⟨hdvd, (Nat.mul_le_mul_right _ (Nat.le_add_right mib size)).trans hstart, hend⟩

theorem placed_disjoint (sizes : List ℕ) (mib : ℕ) :
    (placed mib sizes).Pairwise fun e e' =>
      e.start + e.sectors ≤ e'.start ∨ e'.start + e'.sectors ≤ e.start := by
  induction sizes generalizing mib with
  | nil => exact List.Pairwise.nil
  | cons size rest ih =>
    refine List.Pairwise.cons ?_ (ih (mib + size))
    intro e he
    obtain ⟨-, hstart, -⟩ := placed_within he
    rw [Nat.add_mul] at hstart
    exact Or.inl hstart

/-- **Room.** One MiB in front of the partitions and one behind them hold the two tables. -/
theorem hasRoom (sizes : List ℕ) : HasRoom sizes := by
  refine ⟨placed 1 sizes, map_placed sizes 1, ?_, ?_, placed_disjoint sizes 1⟩
  · intro e he
    exact (placed_within he).1
  · intro e he
    obtain ⟨-, hstart, hend⟩ := placed_within he
    rw [imgSize_eq]
    unfold mibSectors at hstart hend ⊢
    unfold firstGpt lastGpt
    omega

theorem copiedBytes_eq (file : FileSize) : copiedBytes file = file.val := by
  have hle := file_le_partition file
  unfold copiedBytes
  unfold MB at hle
  unfold mibSectors sectorSize
  omega

/-! ## The sizes of a disk -/

/-- **Sizes.** Room there always is, and nothing is cut off; the sizes are the least ones exactly
when no file is a multiple of a MiB, also not after awk has rounded its size to a double. -/
theorem sizesTight_iff (files : List FileSize) :
    SizesTight files ↔
      ∀ f ∈ files, ¬ MB ∣ f.val ∧ toDouble f ≠ (f.val / MB + 1) * MB := by
  constructor
  · intro h f hf
    exact (reported_isLeast_iff f).1 (h.tight f hf)
  · intro h
    refine ⟨?_, hasRoom _, ?_⟩
    · intro f hf
      exact (reported_isLeast_iff f).2 (h f hf)
    · intro f _
      exact copiedBytes_eq f

/-- Below `2 ^ 53` bytes the size is not rounded, and multiples of a MiB are the only failure. -/
theorem sizesTight_of_small {files : List FileSize} (hsmall : ∀ f ∈ files, f.val < 2 ^ 53)
    (h : ∀ f ∈ files, ¬ MB ∣ f.val) : SizesTight files := by
  rw [sizesTight_iff]
  intro f hf
  refine ⟨h f hf, ?_⟩
  rw [toDouble_of_lt (hsmall f hf)]
  unfold MB
  omega

/-- The swap partition of 1 GiB is reported with 1025 MiB. -/
theorem sizesTight_fails : ¬ SizesTight [⟨1024 * MB, by decide⟩] := by
  intro h
  have hleast := (h.tight _ (List.mem_singleton.2 rfl)).2 (show 1024 * MB ≤ 1024 * MB from le_rfl)
  have hreported : reportedSize ⟨1024 * MB, by decide⟩ = 1025 := by decide
  omega

end GardenBuild
