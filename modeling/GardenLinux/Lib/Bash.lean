import Mathlib.Data.List.Basic
import Mathlib.Data.List.Count
import Mathlib.Data.List.Infix

/-!
# Words of the shell language

Words with single quotes, double quotes and backslashes, and the words of an array.  A word
that has something else in it, such as an expansion, is not read.

What is proved here:

* `scan_quoted` — a word in single quotes is read as it stands, if it has no single quote;
* `scan_ne` — a word with a single quote in it, put between single quotes, is never read as
  it stands;
* `words_quoted` and `words_ne` — the same of the elements of an array.
-/

namespace Bash

/-! ## Words -/

def squote : Char := Char.ofNat 39

def dquote : Char := Char.ofNat 34

def backslash : Char := Char.ofNat 92

def nul : Char := Char.ofNat 0

/-- The state of the reader of words; a backslash holds for the next character. -/
inductive Quoting
  | plain
  | single
  | double
  | escape
  | doubleEscape
  deriving DecidableEq, Repr

def isBlank (c : Char) : Bool := c = ' ' || c = '\t' || c = '\n'

/-- What ends a word outside of quotes. -/
def endsWord (c : Char) : Bool := isBlank c || c = ')'

/-- What has a meaning of its own outside of quotes. -/
def isSpecial (c : Char) : Bool := c ∈ "$&;|<>(*?[]{}~#!".toList || c = Char.ofNat 96

/-- What is escaped by a backslash inside double quotes. -/
def isEscapable (c : Char) : Bool :=
  c = '$' || c = Char.ofNat 96 || c = dquote || c = backslash

/-- One character of a word: the next state and what is added to the word. -/
def feed : Quoting → Char → Option (Quoting × List Char)
  | .plain, c =>
    if c = squote then some (.single, [])
    else if c = dquote then some (.double, [])
    else if c = backslash then some (.escape, [])
    else if endsWord c || isSpecial c then none
    else some (.plain, [c])
  | .single, c => if c = squote then some (.plain, []) else some (.single, [c])
  | .double, c =>
    if c = dquote then some (.plain, [])
    else if c = backslash then some (.doubleEscape, [])
    else if c = '$' || c = Char.ofNat 96 then none
    else some (.double, [c])
  | .escape, c => if c = '\n' then some (.plain, []) else some (.plain, [c])
  | .doubleEscape, c =>
    if c = '\n' then some (.double, [])
    else if isEscapable c then some (.double, [c])
    else some (.double, [backslash, c])

/-- All characters belong to the word. -/
def run : Quoting → List Char → Option (Quoting × List Char)
  | q, [] => some (q, [])
  | q, c :: cs =>
    match feed q c with
    | none => none
    | some (q', out) => (run q' cs).map fun r => (r.1, out ++ r.2)

/-- The word at the beginning of a text, and what follows. -/
def scan : Quoting → List Char → Option (List Char × List Char)
  | .plain, [] => some ([], [])
  | _, [] => none
  | q, c :: cs =>
    if q = .plain ∧ endsWord c then some ([], c :: cs)
    else
      match feed q c with
      | none => none
      | some (q', out) => (scan q' cs).map fun r => (out ++ r.1, r.2)

theorem run_cons_iff {q q' : Quoting} {c : Char} {cs w : List Char} :
    run q (c :: cs) = some (q', w) ↔ ∃ q₁ out w', feed q c = some (q₁, out) ∧
      run q₁ cs = some (q', w') ∧ out ++ w' = w := by
  rw [run]
  cases feed q c with
  | none => simp
  | some r =>
    obtain ⟨q₁, out⟩ := r
    simp only [Option.map_eq_some_iff, Prod.mk.injEq, Prod.exists, Option.some.injEq]
    constructor
    · rintro ⟨_, w', hrun, rfl, rfl⟩
      exact ⟨q₁, out, w', ⟨rfl, rfl⟩, hrun, rfl⟩
    · rintro ⟨_, _, w', ⟨rfl, rfl⟩, hrun, rfl⟩
      exact ⟨q', w', hrun, rfl, rfl⟩

theorem run_append (q : Quoting) (cs ds : List Char) :
    run q (cs ++ ds) = (run q cs).bind fun r => (run r.1 ds).map fun s => (s.1, r.2 ++ s.2) := by
  induction cs generalizing q with
  | nil => simp [run]
  | cons c cs ih =>
    rw [List.cons_append, run, run]
    cases hfeed : feed q c with
    | none => rfl
    | some r =>
      obtain ⟨q', out⟩ := r
      simp only [ih]
      cases run q' cs with
      | none => rfl
      | some s => simp [Option.map_map, Function.comp_def]

/-- A word is what runs from its beginning to a place where it may end. -/
theorem scan_eq_some {q : Quoting} {cs w rest : List Char} (h : scan q cs = some (w, rest)) :
    ∃ consumed, cs = consumed ++ rest ∧ run q consumed = some (.plain, w) ∧
      ∀ c ∈ rest.head?, endsWord c := by
  induction cs generalizing q w with
  | nil =>
    cases q with
    | plain =>
      obtain ⟨rfl, rfl⟩ := Prod.mk.inj (Option.some.inj h)
      exact ⟨[], rfl, rfl, by simp⟩
    | _ => simp [scan] at h
  | cons c cs ih =>
    rw [scan.eq_def] at h
    by_cases hend : q = .plain ∧ endsWord c
    · obtain ⟨rfl, hc⟩ := hend
      simp only [hc, and_self, if_true, Option.some.injEq, Prod.mk.injEq] at h
      obtain ⟨rfl, rfl⟩ := h
      exact ⟨[], rfl, rfl, by simpa using hc⟩
    · cases hfeed : feed q c with
      | none => cases q <;> simp_all
      | some r =>
        obtain ⟨q', out⟩ := r
        cases hscan : scan q' cs with
        | none => cases q <;> simp_all
        | some s =>
          obtain ⟨w', rest'⟩ := s
          obtain ⟨rfl, rfl⟩ : out ++ w' = w ∧ rest' = rest := by cases q <;> simp_all
          obtain ⟨consumed, rfl, hrun, hrest⟩ := ih hscan
          refine ⟨c :: consumed, rfl, ?_, hrest⟩
          rw [run, hfeed]
          simp [hrun]

/-- What runs to its end, and may end there, is a word. -/
theorem scan_of_run {q : Quoting} {consumed w rest : List Char}
    (hrun : run q consumed = some (.plain, w)) (hrest : ∀ c ∈ rest.head?, endsWord c) :
    scan q (consumed ++ rest) = some (w, rest) := by
  induction consumed generalizing q w with
  | nil =>
    obtain ⟨rfl, rfl⟩ := Prod.mk.inj (Option.some.inj hrun)
    cases rest with
    | nil => rfl
    | cons c rest => simp [scan, hrest c rfl]
  | cons c consumed ih =>
    obtain ⟨q', out, w', hfeed, hrun', rfl⟩ := run_cons_iff.1 hrun
    have hopen : ¬ (q = .plain ∧ endsWord c) := by
      rintro ⟨rfl, hc⟩
      rw [feed] at hfeed
      split_ifs at hfeed with h₁ h₂ h₃ h₄
      · subst h₁; simp [endsWord, isBlank, squote] at hc
      · subst h₂; simp [endsWord, isBlank, dquote] at hc
      · subst h₃; simp [endsWord, isBlank, backslash] at hc
      · simp [hc] at h₄
    rw [List.cons_append, scan.eq_def]
    have hscan := ih hrun'
    cases q <;> simp_all

/-! ## What a word is made of -/

/-- A character that has no meaning for quoting: it is always part of the word. -/
def isOrdinary (c : Char) : Bool := c ≠ squote && c ≠ dquote && c ≠ backslash && c ≠ '\n'

theorem feed_count {q q' : Quoting} {c x : Char} {out : List Char} (hx : isOrdinary x)
    (h : feed q c = some (q', out)) : out.count x = [c].count x := by
  simp only [isOrdinary, Bool.and_eq_true, decide_eq_true_eq] at hx
  obtain ⟨⟨⟨h₁, h₂⟩, h₃⟩, h₄⟩ := hx
  cases q <;> rw [feed] at h <;> split_ifs at h <;>
    obtain ⟨-, rfl⟩ := Prod.mk.inj (Option.some.inj h) <;>
    simp [*, List.count_cons, h₁.symm, h₂.symm, h₃.symm, h₄.symm]

/-- Ordinary characters are neither lost nor made. -/
theorem run_count {q q' : Quoting} {cs w : List Char} {x : Char} (hx : isOrdinary x)
    (h : run q cs = some (q', w)) : w.count x = cs.count x := by
  induction cs generalizing q w with
  | nil =>
    obtain ⟨-, rfl⟩ := Prod.mk.inj (Option.some.inj h)
    rfl
  | cons c cs ih =>
    obtain ⟨q₁, out, w', hfeed, hrun, rfl⟩ := run_cons_iff.1 h
    rw [List.count_append, feed_count hx hfeed, ih hrun, ← List.count_append]
    rfl

/-- A backslash that may still become part of the word. -/
def pending : Quoting → ℕ
  | .doubleEscape => 1
  | _ => 0

@[simp] theorem pending_plain : pending .plain = 0 := rfl

@[simp] theorem pending_single : pending .single = 0 := rfl

@[simp] theorem pending_double : pending .double = 0 := rfl

@[simp] theorem pending_escape : pending .escape = 0 := rfl

theorem feed_length {q q' : Quoting} {c : Char} {out : List Char}
    (h : feed q c = some (q', out)) : out.length + pending q' ≤ 1 + pending q := by
  cases q <;> rw [feed] at h <;> split_ifs at h <;>
    obtain ⟨rfl, rfl⟩ := Prod.mk.inj (Option.some.inj h) <;> simp [pending]

/-- A word is not longer than what it is read from. -/
theorem run_length {q q' : Quoting} {cs w : List Char} (h : run q cs = some (q', w)) :
    w.length + pending q' ≤ cs.length + pending q := by
  induction cs generalizing q w with
  | nil =>
    obtain ⟨rfl, rfl⟩ := Prod.mk.inj (Option.some.inj h)
    simp
  | cons c cs ih =>
    obtain ⟨q₁, out, w', hfeed, hrun, rfl⟩ := run_cons_iff.1 h
    have hstep := feed_length hfeed
    have hrest := ih hrun
    simp only [List.length_append, List.length_cons]
    omega

/-- Outside of quotes a single quote is lost, or something that keeps it. -/
theorem run_plain_length {q' : Quoting} {cs w : List Char} (h : run .plain cs = some (q', w))
    (hq : squote ∈ cs) : w.length + pending q' < cs.length := by
  induction cs generalizing w with
  | nil => simp at hq
  | cons c cs ih =>
    obtain ⟨q₁, out, w', hfeed, hrun, rfl⟩ := run_cons_iff.1 h
    have hrest := run_length hrun
    rw [feed] at hfeed
    split_ifs at hfeed with h₁ h₂ h₃ h₄
    · obtain ⟨rfl, rfl⟩ := Prod.mk.inj (Option.some.inj hfeed)
      simpa [Nat.lt_succ_iff] using hrest
    · obtain ⟨rfl, rfl⟩ := Prod.mk.inj (Option.some.inj hfeed)
      simpa [Nat.lt_succ_iff] using hrest
    · obtain ⟨rfl, rfl⟩ := Prod.mk.inj (Option.some.inj hfeed)
      simpa [Nat.lt_succ_iff] using hrest
    · obtain ⟨rfl, rfl⟩ := Prod.mk.inj (Option.some.inj hfeed)
      have hlater := ih hrun ((List.mem_cons.1 hq).resolve_left fun heq => h₁ heq.symm)
      simp only [List.length_append, List.length_cons, List.length_nil]
      omega

/-! ## Single quotes -/

/-- A text between single quotes. -/
def quoted (v : List Char) : List Char := squote :: v ++ [squote]

theorem run_single {v : List Char} (h : squote ∉ v) : run .single v = some (.single, v) := by
  induction v with
  | nil => rfl
  | cons c v ih =>
    obtain ⟨hc, hv⟩ := not_or.1 (mt List.mem_cons.2 h)
    rw [run, feed, if_neg (Ne.symm hc)]
    simp [ih hv]

theorem run_single_cons (cs : List Char) : run .plain (squote :: cs) = run .single cs := by
  have hfeed : feed .plain squote = some (.single, []) := rfl
  simp [run, hfeed]

theorem run_single_close {u : List Char} (hu : squote ∉ u) (cs : List Char) :
    run .single (u ++ squote :: cs) = (run .plain cs).map fun r => (r.1, u ++ r.2) := by
  have hfeed : feed .single squote = some (.plain, []) := rfl
  simp [run_append, run_single hu, run, hfeed]

theorem scan_quoted {v rest : List Char} (h : squote ∉ v)
    (hrest : ∀ c ∈ rest.head?, endsWord c) :
    scan .plain (quoted v ++ rest) = some (v, rest) := by
  refine scan_of_run ?_ hrest
  rw [quoted, List.cons_append, run_single_cons, run_single_close h, run]
  simp

/-- After a newline in quotes the word goes on. -/
theorem not_run_newline {cs w : List Char} :
    run .single (cs ++ [squote, '\n']) ≠ some (.plain, w) := by
  intro h
  rw [run_append, Option.bind_eq_some_iff] at h
  obtain ⟨⟨q', w'⟩, -, h⟩ := h
  rw [Option.map_eq_some_iff] at h
  obtain ⟨⟨q'', w''⟩, hrun, h⟩ := h
  obtain ⟨rfl, -⟩ := Prod.mk.inj h
  revert hrun
  cases q' <;> simp [run, feed, squote, dquote, backslash, endsWord, isBlank, isEscapable]

/-- A word that ends is shorter than what it is read from, which has a single quote. -/
theorem run_single_length {cs w : List Char} (h : run .single cs = some (.plain, w)) :
    ∃ u d, cs = u ++ squote :: d ∧ squote ∉ u ∧ w.length ≤ u.length + d.length ∧
      (squote ∈ d → w.length < u.length + d.length) := by
  by_cases hq : squote ∈ cs
  · obtain ⟨u, d, rfl, hu⟩ := List.eq_append_cons_of_mem hq
    rw [run_single_close hu, Option.map_eq_some_iff] at h
    obtain ⟨⟨_, w'⟩, hrun, h⟩ := h
    obtain ⟨rfl, rfl⟩ := Prod.mk.inj h
    refine ⟨u, d, rfl, hu, ?_, fun hd => ?_⟩
    · simpa using run_length hrun
    · simpa using run_plain_length hrun hd
  · rw [run_single hq] at h
    simp at h

/-- No ordinary character follows a text that is read as it stands. -/
theorem run_extra {v b : List Char} {x : Char} (hx : isOrdinary x)
    (h : run .single (v ++ b) = some (.plain, v)) : x ∉ b := by
  have hcount := run_count hx h
  rw [List.count_append] at hcount
  exact List.count_eq_zero.1 (by omega)

/-- What follows a quoted text in a list of assignments: a blank, or the end of the line and
perhaps another line that begins with an ordinary character. -/
def Follows (tail : List Char) : Prop :=
  (∃ cs, tail = ' ' :: cs) ∨ tail = ['\n'] ∨ ∃ x cs, isOrdinary x ∧ tail = '\n' :: x :: cs

/-- A text with a single quote in it, put between single quotes, is not read as it
stands. -/
theorem scan_ne {v tail w rest : List Char} (hq : squote ∈ v) (htail : Follows tail)
    (h : scan .plain (quoted v ++ tail) = some (w, rest)) : w ≠ v := by
  rintro rfl
  obtain ⟨consumed, hsplit, hrun, -⟩ := scan_eq_some h
  cases consumed with
  | nil =>
    obtain ⟨-, rfl⟩ := Prod.mk.inj (Option.some.inj hrun)
    simp at hq
  | cons c cs =>
    rw [quoted, List.cons_append, List.cons_append, List.cons_append, List.cons.injEq,
      List.append_assoc] at hsplit
    obtain ⟨rfl, hsplit⟩ := hsplit
    rw [run_single_cons] at hrun
    obtain ⟨u, d, hcs, hu, hle, hlt⟩ := run_single_length hrun
    have hlength := congrArg List.length hcs
    simp only [List.length_append, List.length_cons] at hlength
    rcases List.append_eq_append_iff.1 hsplit with ⟨b, rfl, htail'⟩ | ⟨a, rfl, -⟩
    · cases b with
      | nil =>
        simp only [List.append_nil] at hlength
        omega
      | cons c b =>
        obtain ⟨rfl, rfl⟩ := List.cons.inj htail'
        cases b with
        | nil =>
          -- the word ends where it should, but one of the quotes in it is lost
          have hd : squote ∈ d := by
            have hcount := congrArg (List.count squote) hcs
            simp only [List.count_append, List.count_cons_self, List.count_nil,
              List.count_eq_zero_of_not_mem hu] at hcount
            have hw := List.count_pos_iff.2 hq
            exact List.count_pos_iff.1 (by omega)
          have hshort := hlt hd
          simp only [List.length_append, List.length_cons, List.length_nil] at hlength
          omega
        | cons c b =>
          rcases htail with ⟨cs, heq⟩ | heq | ⟨x, cs, hx, heq⟩
          · obtain ⟨rfl, -⟩ := List.cons.inj heq
            exact run_extra (x := ' ') (by decide) hrun (by simp)
          · obtain ⟨rfl, hnil⟩ := List.cons.inj heq
            obtain ⟨rfl, -⟩ := List.append_eq_nil_iff.1 hnil
            exact not_run_newline hrun
          · obtain ⟨rfl, hcons⟩ := List.cons.inj heq
            cases b with
            | nil => exact not_run_newline hrun
            | cons c b =>
              obtain ⟨rfl, -⟩ := List.cons.inj hcons
              exact run_extra hx hrun (by simp)
    · simp only [List.length_append] at *
      omega

/-! ## Arrays -/

theorem scan_rest_length {c : Char} {cs w rest : List Char} (hc : ¬ endsWord c)
    (h : scan .plain (c :: cs) = some (w, rest)) : rest.length < cs.length + 1 := by
  obtain ⟨consumed, hsplit, -, hrest⟩ := scan_eq_some h
  cases consumed with
  | nil =>
    rw [List.nil_append] at hsplit
    exact absurd (hrest c (by rw [← hsplit]; rfl)) hc
  | cons c' consumed =>
    have hlength := congrArg List.length hsplit
    simp only [List.length_append, List.length_cons] at hlength
    omega

/-- The words up to the closing bracket, and what follows it. -/
def words (cs : List Char) : Option (List (List Char) × List Char) :=
  match cs with
  | [] => none
  | c :: cs =>
    if isBlank c then words cs
    else if _hc : endsWord c then some ([], cs)
    else
      match _h : scan .plain (c :: cs) with
      | none => none
      | some (w, rest) => (words rest).map fun r => (w :: r.1, r.2)
termination_by cs.length
decreasing_by
  · exact Nat.lt_succ_self _
  · exact scan_rest_length _hc _h

/-- The elements of an array, each between single quotes and after a space. -/
def elements (vs : List (List Char)) : List Char := vs.flatMap fun v => ' ' :: quoted v

theorem words_blank {c : Char} (hc : isBlank c) (cs : List Char) : words (c :: cs) = words cs := by
  rw [words, if_pos hc]

theorem words_close (cs : List Char) : words (' ' :: ')' :: cs) = some ([], cs) := by
  rw [words_blank (by decide), words, if_neg (by decide), dif_pos (by decide)]

/-- The first element is the word that is scanned. -/
theorem words_cons_eq_some {v tail rest : List Char} {ws : List (List Char)}
    (h : words (' ' :: (quoted v ++ tail)) = some (ws, rest)) :
    ∃ w ws' tail', scan .plain (quoted v ++ tail) = some (w, tail') ∧
      words tail' = some (ws', rest) ∧ ws = w :: ws' := by
  rw [words_blank (by decide), quoted, List.cons_append, List.cons_append, words,
    if_neg (by decide), dif_neg (by decide)] at h
  split at h
  · simp at h
  · next w tail' hscan =>
    obtain ⟨⟨ws', _⟩, hwords, heq⟩ := Option.map_eq_some_iff.1 h
    obtain ⟨rfl, rfl⟩ := Prod.mk.inj heq
    exact ⟨w, ws', tail', hscan, hwords, rfl⟩

theorem words_cons {v tail : List Char} (hv : squote ∉ v)
    (htail : ∀ c ∈ tail.head?, endsWord c) :
    words (' ' :: (quoted v ++ tail)) = (words tail).map fun r => (v :: r.1, r.2) := by
  have hscan := scan_quoted hv htail
  rw [quoted, List.cons_append, List.cons_append] at hscan ⊢
  rw [words_blank (by decide), words, if_neg (by decide), dif_neg (by decide)]
  split
  · next hnone => exact absurd (hnone.symm.trans hscan) (by simp)
  · next w rest hsome =>
    obtain ⟨rfl, rfl⟩ := Prod.mk.inj (Option.some.inj (hsome.symm.trans hscan))
    rfl

theorem ends_space (cs : List Char) : ∀ c ∈ (' ' :: cs).head?, endsWord c := by
  simp [endsWord, isBlank]

theorem elements_head (vs : List (List Char)) (rest : List Char) :
    ∃ cs, elements vs ++ ' ' :: ')' :: rest = ' ' :: cs := by
  cases vs with
  | nil => exact ⟨_, rfl⟩
  | cons v vs => exact ⟨_, rfl⟩

theorem words_quoted {vs : List (List Char)} (hvs : ∀ v ∈ vs, squote ∉ v) (rest : List Char) :
    words (elements vs ++ ' ' :: ')' :: rest) = some (vs, rest) := by
  induction vs with
  | nil => exact words_close rest
  | cons v vs ih =>
    rw [List.forall_mem_cons] at hvs
    obtain ⟨cs, hcs⟩ := elements_head vs rest
    rw [elements, List.flatMap_cons, List.append_assoc, List.cons_append, ← elements,
      words_cons hvs.1 (hcs ▸ ends_space cs), ih hvs.2, Option.map_some]

/-- Elements that are read as they stand have no single quotes. -/
theorem words_ne {vs : List (List Char)} {rest rest' : List Char}
    (h : words (elements vs ++ ' ' :: ')' :: rest) = some (vs, rest')) :
    (∀ v ∈ vs, squote ∉ v) ∧ rest' = rest := by
  induction vs with
  | nil =>
    have hclose := (words_close rest).symm.trans h
    exact ⟨by simp, (Prod.mk.inj (Option.some.inj hclose)).2.symm⟩
  | cons v vs ih =>
    obtain ⟨cs, hcs⟩ := elements_head vs rest
    rw [elements, List.flatMap_cons, List.append_assoc, List.cons_append, ← elements] at h
    obtain ⟨w, ws, tail, hscan, hwords, heq⟩ := words_cons_eq_some h
    obtain ⟨rfl, rfl⟩ := List.cons.inj heq
    have hv : squote ∉ v := fun hq => scan_ne hq (Or.inl ⟨cs, hcs⟩) hscan rfl
    have hclean := scan_quoted hv (hcs ▸ ends_space cs :
      ∀ c ∈ (elements vs ++ ' ' :: ')' :: rest).head?, endsWord c)
    obtain ⟨-, rfl⟩ := Prod.mk.inj (Option.some.inj (hscan.symm.trans hclean))
    obtain ⟨hvs, hrest⟩ := ih hwords
    exact ⟨List.forall_mem_cons.2 ⟨hv, hvs⟩, hrest⟩

/-- The ordinary characters of a word are from the text, and what follows ends it. -/
theorem scan_of_text {q : Quoting} {cs w rest : List Char} (h : scan q cs = some (w, rest)) :
    rest <:+ cs ∧ ∀ x ∈ w, isOrdinary x → x ∈ cs := by
  obtain ⟨consumed, rfl, hrun, -⟩ := scan_eq_some h
  refine ⟨List.suffix_append .., fun x hx hord => List.mem_append_left _ ?_⟩
  rw [← List.count_pos_iff, ← run_count hord hrun]
  exact List.count_pos_iff.2 hx

theorem words_of_text {cs rest : List Char} {ws : List (List Char)}
    (h : words cs = some (ws, rest)) :
    rest <:+ cs ∧ ∀ w ∈ ws, ∀ x ∈ w, isOrdinary x → x ∈ cs := by
  induction cs using words.induct generalizing ws with
  | case1 => simp [words] at h
  | case2 c cs hc ih =>
    rw [words, if_pos hc] at h
    obtain ⟨hrest, hws⟩ := ih h
    exact ⟨hrest.trans (List.suffix_cons ..), fun w hw x hx hord =>
      List.mem_cons_of_mem _ (hws w hw x hx hord)⟩
  | case3 c cs hc hend =>
    rw [words, if_neg hc, dif_pos hend] at h
    obtain ⟨rfl, rfl⟩ := Prod.mk.inj (Option.some.inj h)
    exact ⟨List.suffix_cons .., by simp⟩
  | case4 c cs hc hend hnone =>
    rw [words, if_neg hc, dif_neg hend] at h
    split at h
    · simp at h
    · next hsome => exact absurd (hnone.symm.trans hsome) (by simp)
  | case5 c cs hc hend w rest' hsome ih =>
    rw [words, if_neg hc, dif_neg hend] at h
    split at h
    · simp at h
    · next w' rest'' hsome' =>
      obtain ⟨rfl, rfl⟩ := Prod.mk.inj (Option.some.inj (hsome.symm.trans hsome'))
      obtain ⟨⟨ws', _⟩, hwords, heq⟩ := Option.map_eq_some_iff.1 h
      obtain ⟨rfl, rfl⟩ := Prod.mk.inj heq
      obtain ⟨hrest, hw⟩ := scan_of_text hsome
      obtain ⟨hrest', hws⟩ := ih hwords
      exact ⟨hrest'.trans hrest, List.forall_mem_cons.2 ⟨hw, fun v hv x hx hord =>
        hrest.subset (hws v hv x hx hord)⟩⟩

end Bash
