import Mathlib.Logic.Function.Basic

/-!
# A cell that several clients read and write back

Clients take a copy of the whole value of a cell, work on it, and write the whole value back
with a patch of theirs applied; the last writer wins.  Without locks a write back undoes the
patches that were written since the copy was taken, except those that its own patch would
have replaced anyway.

What is proved here:

* `value_eq_serial` — when every patch written between a client's copy and its write back is
  absorbed by the client's patch, the cell has the value that the patches give one after the
  other;
* `part_serial` — and each part of that value is what the last patch of the part made it.
-/

namespace SharedCell

variable {ι V P : Type*}

/-- What clients do to the cell. -/
inductive Access (ι P : Type*)
  | read (client : ι)
  | forget (client : ι)
  | write (client : ι) (patch : P)

def Access.client : Access ι P → ι
  | .read i => i
  | .forget i => i
  | .write i _ => i

/-- The value of the cell and the copies that the clients hold. -/
structure Cell (ι V : Type*) where
  value : V
  copies : ι → Option V

section Serial

variable (apply : P → V → V) (value : V)

/-- The cell after a history of accesses, newest first.  A copy is used up by the write
back. -/
def after [DecidableEq ι] : List (Access ι P) → Cell ι V
  | [] => ⟨value, fun _ => none⟩
  | .read i :: older =>
    { after older with
      copies := Function.update (after older).copies i (some (after older).value) }
  | .forget i :: older =>
    { after older with copies := Function.update (after older).copies i none }
  | .write i p :: older =>
    match (after older).copies i with
    | some copy => ⟨apply p copy, Function.update (after older).copies i none⟩
    | none => after older

/-- The patches of a history, applied one after the other. -/
def serial : List (Access ι P) → V
  | [] => value
  | .read _ :: older => serial older
  | .forget _ :: older => serial older
  | .write _ p :: older => apply p (serial older)

/-- Applying `p` undoes whatever `q` did. -/
def Absorbs (p q : P) : Prop := ∀ v, apply p (apply q v) = apply p v

/-- The client holds a copy, and what was written since is absorbed by `p`. -/
def Fresh (p : P) (i : ι) : List (Access ι P) → Prop
  | [] => False
  | .read j :: older => j = i ∨ Fresh p i older
  | .forget j :: older => j ≠ i ∧ Fresh p i older
  | .write j q :: older => j ≠ i ∧ Absorbs apply p q ∧ Fresh p i older

/-- Every write back is by a client with a fresh copy. -/
def Undisturbed : List (Access ι P) → Prop
  | [] => True
  | .write i p :: older => Fresh apply p i older ∧ Undisturbed older
  | .read _ :: older => Undisturbed older
  | .forget _ :: older => Undisturbed older

variable {apply}

/-- What no patch changes is as at the start. -/
theorem serial_keeps {φ : Type*} {f : V → φ} (hf : ∀ p v, f (apply p v) = f v)
    (h : List (Access ι P)) : f (serial apply value h) = f value := by
  induction h with
  | nil => rfl
  | cons a older ih =>
    cases a with
    | read i => exact ih
    | forget i => exact ih
    | write i p => rw [serial, hf, ih]

variable [DecidableEq ι]

@[simp] theorem value_read (i : ι) (older : List (Access ι P)) :
    (after apply value (.read i :: older)).value = (after apply value older).value := rfl

@[simp] theorem value_forget (i : ι) (older : List (Access ι P)) :
    (after apply value (.forget i :: older)).value = (after apply value older).value := rfl

theorem value_write {i : ι} {copy : V} {older : List (Access ι P)}
    (h : (after apply value older).copies i = some copy) (p : P) :
    (after apply value (.write i p :: older)).value = apply p copy := by
  rw [after, h]

@[simp] theorem copies_read (i : ι) (older : List (Access ι P)) :
    (after apply value (.read i :: older)).copies i = some (after apply value older).value :=
  Function.update_self ..

@[simp] theorem copies_forget (i : ι) (older : List (Access ι P)) :
    (after apply value (.forget i :: older)).copies i = none :=
  Function.update_self ..

@[simp] theorem copies_write (i : ι) (p : P) (older : List (Access ι P)) :
    (after apply value (.write i p :: older)).copies i = none := by
  rw [after]
  split
  · exact Function.update_self ..
  · assumption

/-- The copies of the other clients stay. -/
theorem copies_of_ne {a : Access ι P} {i : ι} (hi : a.client ≠ i) (older : List (Access ι P)) :
    (after apply value (a :: older)).copies i = (after apply value older).copies i := by
  cases a with
  | read j => exact Function.update_of_ne (Ne.symm hi) _ _
  | forget j => exact Function.update_of_ne (Ne.symm hi) _ _
  | write j p =>
    rw [after]
    split
    · exact Function.update_of_ne (Ne.symm hi) _ _
    · rfl

/-- A fresh copy is as good as the value of the cell, which is that of the patches one after
the other. -/
theorem value_and_copies {h : List (Access ι P)} (hund : Undisturbed apply h) :
    (after apply value h).value = serial apply value h ∧
      ∀ p i, Fresh apply p i h → ∃ copy, (after apply value h).copies i = some copy ∧
        apply p copy = apply p (serial apply value h) := by
  induction h with
  | nil => exact ⟨rfl, fun _ _ hf => hf.elim⟩
  | cons a older ih =>
    cases a with
    | read j =>
      obtain ⟨hvalue, hcopies⟩ := ih hund
      refine ⟨hvalue, fun p i hf => ?_⟩
      by_cases hj : j = i
      · subst hj
        exact ⟨_, copies_read value j older, by rw [hvalue]; rfl⟩
      · obtain ⟨copy, hcopy, heq⟩ := hcopies p i (hf.resolve_left hj)
        exact ⟨copy, (copies_of_ne (a := .read j) value hj older).trans hcopy, heq⟩
    | forget j =>
      obtain ⟨hvalue, hcopies⟩ := ih hund
      refine ⟨hvalue, fun p i hf => ?_⟩
      obtain ⟨copy, hcopy, heq⟩ := hcopies p i hf.2
      exact ⟨copy, (copies_of_ne (a := .forget j) value hf.1 older).trans hcopy, heq⟩
    | write j q =>
      obtain ⟨hvalue, hcopies⟩ := ih hund.2
      obtain ⟨copy, hcopy, heq⟩ := hcopies q j hund.1
      refine ⟨(value_write value hcopy q).trans heq, fun p i hf => ?_⟩
      obtain ⟨copy', hcopy', heq'⟩ := hcopies p i hf.2.2
      refine ⟨copy', (copies_of_ne (a := .write j q) value hf.1 older).trans hcopy', ?_⟩
      -- the patch written meanwhile is absorbed
      rw [heq', serial, hf.2.1]

theorem value_eq_serial {h : List (Access ι P)} (hund : Undisturbed apply h) :
    (after apply value h).value = serial apply value h :=
  (value_and_copies value hund).1

theorem exists_copy {h : List (Access ι P)} (hund : Undisturbed apply h) {p : P} {i : ι}
    (hf : Fresh apply p i h) : ∃ copy, (after apply value h).copies i = some copy := by
  obtain ⟨copy, hcopy, -⟩ := (value_and_copies value hund).2 p i hf
  exact ⟨copy, hcopy⟩

end Serial

/-! ## Parts of the value -/

section Parts

variable {κ : Type*} [DecidableEq κ] {F : κ → Type*} {apply : P → V → V} {kind : P → κ}
  {part : (k : κ) → V → F k}

/-- The newest patch of a kind. -/
def lastPatch (kind : P → κ) (k : κ) : List (Access ι P) → Option P
  | [] => none
  | .read _ :: older => lastPatch kind k older
  | .forget _ :: older => lastPatch kind k older
  | .write _ p :: older => if kind p = k then some p else lastPatch kind k older

/-- Where a patch sets the part of its kind and keeps the others, a part of the value is as
the last patch of the kind set it. -/
theorem part_serial (hset : ∀ p v w, part (kind p) (apply p v) = part (kind p) (apply p w))
    (hkeep : ∀ p v k, k ≠ kind p → part k (apply p v) = part k v) (value : V) (k : κ)
    (h : List (Access ι P)) :
    part k (serial apply value h) =
      part k (((lastPatch kind k h).map fun p => apply p value).getD value) := by
  induction h with
  | nil => rfl
  | cons a older ih =>
    cases a with
    | read j => exact ih
    | forget j => exact ih
    | write j p =>
      by_cases hp : kind p = k
      · subst hp
        simp only [serial, lastPatch, if_true, Option.map_some, Option.getD_some]
        exact hset p _ _
      · rw [serial, lastPatch, if_neg hp, hkeep p _ k (Ne.symm hp), ih]

end Parts

end SharedCell
