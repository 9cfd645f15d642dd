import Mathlib

/-!
# Texts as lists of characters

Methods of strings that look at every character: replacing a word, stripping a character from
the ends.  What a name computed with them still tells apart depends on how they act on the
parts of a text.

What is proved here:

* `replace_append` — a part without the first character of the word is left alone;
* `strip_cons` — a text that begins with another character is only stripped at its end;
* `filter_intercalate` — leaving the separator out of a join leaves the parts;
* `flatten_injective_of_marked` — parts that each begin with a mark are told apart when they
  stand one after the other;
* `ofDigitChars_zeroPad` — a decimal numeral with leading zeros stands for its number.
-/

namespace Text

/-! ## Replacing a word -/

/-- The rest of a text of which the first characters belong to an occurrence that has been
replaced. -/
def replaceFrom (old new : List Char) : ℕ → List Char → List Char
  | _, [] => []
  | skip + 1, _ :: s => replaceFrom old new skip s
  | 0, c :: s =>
    if old <+: c :: s then new ++ replaceFrom old new (old.length - 1) s
    else c :: replaceFrom old new 0 s

/-- `s.replace(old, new)`: the occurrences are taken from the left and do not overlap. -/
def replace (old new s : List Char) : List Char := replaceFrom old new 0 s

theorem replace_cons_of_ne {a c : Char} (h : a ≠ c) (rest new s : List Char) :
    replace (c :: rest) new (a :: s) = a :: replace (c :: rest) new s := by
  have hnot : ¬ c :: rest <+: a :: s := fun hprefix => h (List.cons_prefix_cons.1 hprefix).1.symm
  rw [replace, replaceFrom, if_neg hnot]
  rfl

/-- A part that does not have the first character of the word is left alone. -/
theorem replace_append {c : Char} {s : List Char} (h : c ∉ s) (rest new t : List Char) :
    replace (c :: rest) new (s ++ t) = s ++ replace (c :: rest) new t := by
  induction s with
  | nil => rfl
  | cons a s ih =>
    have hne : a ≠ c := fun heq => h (heq ▸ List.mem_cons_self ..)
    rw [List.cons_append, replace_cons_of_ne hne, ih fun hc => h (List.mem_cons_of_mem a hc),
      List.cons_append]

example : replace "readonly".toList "ro".toList "a_readonlyreadonly".toList = "a_roro".toList := by
  decide

/-! ## Stripping a character -/

/-- `s.rstrip(c)`. -/
def rstrip (c : Char) (s : List Char) : List Char := s.rdropWhile (· = c)

/-- `s.strip(c)`. -/
def strip (c : Char) (s : List Char) : List Char := rstrip c (s.dropWhile (· = c))

/-- What ends with another character keeps that end. -/
theorem rstrip_append_of_ne {a c : Char} (h : a ≠ c) (s t : List Char) :
    rstrip c (s ++ a :: t) = s ++ a :: rstrip c t := by
  induction t using List.reverseRecOn with
  | nil =>
    rw [rstrip, List.rdropWhile_concat_neg _ _ _ (by simpa using h), rstrip, List.rdropWhile_nil]
  | append_singleton t b ih =>
    rw [show s ++ a :: (t ++ [b]) = (s ++ a :: t) ++ [b] by simp, rstrip, rstrip]
    by_cases hb : b = c
    · rw [List.rdropWhile_concat_pos _ _ _ (by simpa using hb),
        List.rdropWhile_concat_pos _ _ _ (by simpa using hb)]
      exact ih
    · rw [List.rdropWhile_concat_neg _ _ _ (by simpa using hb),
        List.rdropWhile_concat_neg _ _ _ (by simpa using hb)]
      simp

/-- A text that begins with another character is only stripped at its end. -/
theorem strip_cons {a c : Char} (h : a ≠ c) (s : List Char) :
    strip c (a :: s) = a :: rstrip c s := by
  rw [strip, List.dropWhile_cons_of_neg (by simpa using h)]
  exact rstrip_append_of_ne h [] s

/-! ## Leaving a separator out -/

/-- A join without the separator is the parts without it, one after the other. -/
theorem filter_intercalate (c : Char) (parts : List (List Char)) :
    ([c].intercalate parts).filter (· ≠ c) = parts.flatMap (·.filter (· ≠ c)) := by
  induction parts with
  | nil => rfl
  | cons part parts ih =>
    cases parts with
    | nil => simp [List.intercalate]
    | cons part' parts =>
      have hsplit : [c].intercalate (part :: part' :: parts) =
          part ++ c :: [c].intercalate (part' :: parts) := by
        simp [List.intercalate]
      rw [hsplit, List.filter_append, List.filter_cons_of_neg (by simp), ih]
      rfl

/-! ## Marked parts -/

/-- A part begins with a mark and has no other one. -/
def Marked (mark : Char → Bool) (part : List Char) : Prop :=
  ∃ c cs, part = c :: cs ∧ mark c ∧ ∀ d ∈ cs, ¬ mark d

theorem flatten_injective_of_marked {mark : Char → Bool} {parts parts' : List (List Char)}
    (h : ∀ part ∈ parts, Marked mark part) (h' : ∀ part ∈ parts', Marked mark part)
    (heq : parts.flatten = parts'.flatten) : parts = parts' := by
  -- what comes before the next mark is the rest of the first part
  have htake : ∀ {cs : List Char} {parts : List (List Char)}, (∀ d ∈ cs, ¬ mark d) →
      (∀ part ∈ parts, Marked mark part) →
      (cs ++ parts.flatten).takeWhile (fun d => !mark d) = cs := by
    intro cs parts hcs hparts
    rw [List.takeWhile_append_of_pos (by simpa using hcs)]
    cases parts with
    | nil => simp
    | cons part parts =>
      obtain ⟨c, cs', rfl, hc, -⟩ := hparts part (List.mem_cons_self ..)
      simp [hc]
  induction parts generalizing parts' with
  | nil =>
    cases parts' with
    | nil => rfl
    | cons part parts' =>
      obtain ⟨c, cs, rfl, -, -⟩ := h' part (List.mem_cons_self ..)
      simp at heq
  | cons part parts ih =>
    rw [List.forall_mem_cons] at h
    obtain ⟨⟨c, cs, rfl, hc, hcs⟩, hparts⟩ := h
    cases parts' with
    | nil => simp at heq
    | cons part' parts' =>
      rw [List.forall_mem_cons] at h'
      obtain ⟨⟨c', cs', rfl, hc', hcs'⟩, hparts'⟩ := h'
      simp only [List.flatten_cons, List.cons_append, List.cons.injEq] at heq
      obtain ⟨rfl, hrest⟩ := heq
      obtain rfl : cs = cs' := by rw [← htake hcs hparts, hrest, htake hcs' hparts']
      rw [ih hparts hparts' (List.append_cancel_left hrest)]

/-- What stands in front of the first `c` of a text, and what stands behind it. -/
theorem append_cons_inj {c : Char} {a a' b b' : List Char} (ha : c ∉ a) (ha' : c ∉ a')
    (h : a ++ c :: b = a' ++ c :: b') : a = a' ∧ b = b' := by
  induction a generalizing a' with
  | nil =>
    cases a' with
    | nil => exact ⟨rfl, (List.cons.inj h).2⟩
    | cons x xs =>
      obtain ⟨rfl, -⟩ := List.cons.inj h
      exact absurd List.mem_cons_self ha'
  | cons x xs ih =>
    cases a' with
    | nil =>
      obtain ⟨rfl, -⟩ := List.cons.inj h
      exact absurd List.mem_cons_self ha
    | cons y ys =>
      obtain ⟨rfl, hrest⟩ := List.cons.inj h
      obtain ⟨rfl, hb⟩ := ih (fun hc => ha (List.mem_cons_of_mem _ hc))
        (fun hc => ha' (List.mem_cons_of_mem _ hc)) hrest
      exact ⟨rfl, hb⟩

/-! ## Decimal numerals -/

/-- `n` with leading zeros up to a width. -/
def zeroPad (width n : ℕ) : List Char :=
  (Nat.toDigits 10 n).leftpad width '0'

theorem ofDigitChars_zeroPad (width n : ℕ) : Nat.ofDigitChars 10 (zeroPad width n) 0 = n := by
  rw [zeroPad, List.leftpad, Nat.ofDigitChars_append, Nat.ofDigitChars_replicate_zero, Nat.mul_zero,
    Nat.ofDigitChars_toDigits (by decide) (by decide)]

theorem length_zeroPad {width n : ℕ} (hwidth : 0 < width) (h : n < 10 ^ width) :
    (zeroPad width n).length = width := by
  have hle := (Nat.length_toDigits_le_iff (b := 10) (by decide) hwidth).2 h
  rw [zeroPad, List.length_leftpad]
  omega

theorem isDigit_toDigits (n : ℕ) : ∀ c ∈ Nat.toDigits 10 n, c.isDigit :=
  fun _ hc => Nat.isDigit_of_mem_toDigits (by decide) (by decide) hc

theorem toList_toString_natCast (n : ℕ) : (toString (n : ℤ)).toList = Nat.toDigits 10 n :=
  Nat.toList_repr

theorem toList_toString_negSucc (n : ℕ) :
    (toString (Int.negSucc n)).toList = '-' :: Nat.toDigits 10 (n + 1) := by
  show ("-" ++ Nat.repr (n + 1)).toList = _
  simp [Nat.toList_repr]

theorem isDigit_of_mem_zeroPad {width n : ℕ} {c : Char} (h : c ∈ zeroPad width n) : c.isDigit := by
  rcases List.mem_append.1 h with hzero | hdigit
  · rw [List.eq_of_mem_replicate hzero]
    rfl
  · exact isDigit_toDigits n c hdigit

/-- The numeral of a positive number does not begin with a zero. -/
theorem head?_toDigits_ne {n : ℕ} (h : 0 < n) : (Nat.toDigits 10 n).head? ≠ some '0' := by
  induction n using Nat.strongRecOn with
  | ind n ih =>
    rcases Nat.lt_or_ge n 10 with hlt | hge
    · rw [Nat.toDigits_of_lt_base hlt]
      interval_cases n <;> decide
    · rw [Nat.toDigits_of_base_le (by decide) hge,
        List.head?_append_of_ne_nil _ Nat.toDigits_ne_nil]
      exact ih (n / 10) (by omega) (by omega)

/-- A number with as many digits as the width needs no zeros. -/
theorem zeroPad_eq_toDigits {width n : ℕ} (h : 10 ^ width ≤ n) :
    zeroPad (width + 1) n = Nat.toDigits 10 n := by
  have hlength : width + 1 ≤ (Nat.toDigits 10 n).length := by
    by_contra hlt
    rcases Nat.eq_zero_or_pos width with rfl | hpos
    · exact hlt Nat.length_toDigits_pos
    · have hle := (Nat.length_toDigits_le_iff (b := 10) (n := n) (by decide) hpos).1 (by omega)
      omega
  rw [zeroPad, List.leftpad, Nat.sub_eq_zero_of_le hlength]
  rfl

end Text
