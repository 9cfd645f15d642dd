import Mathlib.Data.List.Basic

/-!
# Files that are cut and copied

A file as the list of its bytes: `truncate -s`, `dd` from the beginning of a file to a place in
another one, and the regions that they leave alone.

What is proved here:

* `region_append_left` and `region_append_right` — the regions of two parts;
* `region_eq_append` — a region is read in two pieces;
* `take_dd` — what a second `dd` reads of it.
-/

namespace RawFile

variable {α : Type*} {zero : α} {file rest : List α} {offset size n m : ℕ}

/-- `truncate -s`: what is too long is cut, and what is too short is filled up. -/
def resize (zero : α) (size : ℕ) (file : List α) : List α :=
  file.take size ++ List.replicate (size - file.length) zero

/-- Some bytes of a file, fewer at its end. -/
def region (file : List α) (offset n : ℕ) : List α := (file.drop offset).take n

/-- `dd bs= count= seek=` without `conv=notrunc`: the output ends where the copy ends. -/
def dd (zero : α) (bs count seek : ℕ) (input output : List α) : List α :=
  resize zero (seek * bs) output ++ input.take (count * bs)

@[simp] theorem length_resize : (resize zero size file).length = size := by
  simp only [resize, List.length_append, List.length_take, List.length_replicate]
  omega

/-- Nothing is filled up in a file that is long enough. -/
theorem resize_of_le (h : size ≤ file.length) : resize zero size file = file.take size := by
  simp [resize, Nat.sub_eq_zero_of_le h]

theorem resize_nil : resize zero size [] = List.replicate size zero := by simp [resize]

theorem resize_resize : resize zero size (resize zero size file) = resize zero size file := by
  rw [resize_of_le (Nat.le_of_eq length_resize.symm),
    List.take_of_length_le (Nat.le_of_eq length_resize)]

@[simp] theorem length_region : (region file offset n).length = min n (file.length - offset) := by
  simp [region]

/-- A region before the end of the first part. -/
theorem region_append_left (h : offset + n ≤ file.length) :
    region (file ++ rest) offset n = region file offset n := by
  rw [region, region, List.drop_append_of_le_length (by omega), List.take_append_of_le_length]
  rw [List.length_drop]
  omega

/-- A region after the end of the first part. -/
theorem region_append_right (h : file.length ≤ offset) :
    region (file ++ rest) offset n = region rest (offset - file.length) n := by
  rw [region, region, List.drop_append, List.drop_eq_nil_of_le h, List.nil_append]

/-- A region before the cut. -/
theorem region_take (h : offset + n ≤ size) :
    region (file.take size) offset n = region file offset n := by
  rw [region, region, List.drop_take, List.take_take, Nat.min_eq_left (by omega)]

theorem region_eq_append (file : List α) (offset n m : ℕ) :
    region file offset (n + m) = region file offset n ++ region file (offset + n) m := by
  rw [region, region, region, List.take_add, List.drop_drop]

theorem region_replicate (byte : α) :
    region (List.replicate size byte) offset n = List.replicate (min n (size - offset)) byte := by
  simp [region]

/-- What is read back of a copy, from the beginning of the output. -/
theorem take_dd {bs count seek : ℕ} {input output : List α} :
    (dd zero bs count seek input output).take (count * bs) =
      (resize zero (seek * bs) output ++ input).take (count * bs) := by
  rw [dd, List.take_append, List.take_append, List.take_take, Nat.min_eq_left (Nat.sub_le ..)]

end RawFile
