import Mathlib.Data.List.DropRight
import GardenLinux.Lib.BashScript

/-!
# Text filters

What `sed`, `envsubst`, `grep` and the shell do with the lines of a text, in the `C` locale:
a character is a byte.

What is proved here:

* `lines_unlines` — lines without newlines are read back;
* `substitute_unlines` — references are replaced line by line;
* `lines_echo_captured` — a text that has been a value of a variable has lost the empty lines at
  its end, but has at least one line.
-/

namespace TextFilter

/-! ## Lines -/

/-- The lines of a text; a newline ends a line. -/
def lines (text : List Char) : List (List Char) :=
  let parts := text.splitOn '\n'
  if parts.getLast? = some [] then parts.dropLast else parts

/-- The text of some lines. -/
def unlines (ls : List (List Char)) : List Char := ls.flatMap (· ++ ['\n'])

theorem lines_append (text rest : List Char) :
    lines (text ++ '\n' :: rest) = text.splitOn '\n' ++ lines rest := by
  have hne := List.splitOn_ne_nil '\n' rest
  have hlast : (text.splitOn '\n' ++ rest.splitOn '\n').getLast? = (rest.splitOn '\n').getLast? := by
    rw [List.getLast?_append_of_ne_nil _ hne]
  unfold lines
  simp only [List.splitOn_append_cons_self, hlast]
  split
  · rw [List.dropLast_append_of_ne_nil hne]
  · rfl

theorem lines_append_line {l : List Char} (hl : '\n' ∉ l) (rest : List Char) :
    lines (l ++ '\n' :: rest) = l :: lines rest := by
  rw [lines_append, List.splitOn_eq_singleton hl, List.singleton_append]

theorem unlines_cons (l : List Char) (ls : List (List Char)) :
    unlines (l :: ls) = l ++ '\n' :: unlines ls := by
  simp [unlines]

theorem mem_unlines {ls : List (List Char)} {c : Char} (hc : c ≠ '\n') :
    c ∈ unlines ls ↔ ∃ l ∈ ls, c ∈ l := by
  simp [unlines, hc]

/-- A text of lines begins like the first line or with a newline. -/
theorem head?_unlines_append {ls : List (List Char)} {l : List Char} {c : Char} (hc : c ≠ '\n')
    (h : (unlines ls ++ l).head? = some c) : ∃ l' ∈ ls ++ [l], l'.head? = some c := by
  cases ls with
  | nil => exact ⟨l, by simp, h⟩
  | cons l' ls =>
    refine ⟨l', by simp, ?_⟩
    cases l' with
    | nil => exact absurd (Option.some.inj h).symm hc
    | cons d l' => exact h

theorem lines_unlines {ls : List (List Char)} (h : ∀ l ∈ ls, '\n' ∉ l) : lines (unlines ls) = ls := by
  induction ls with
  | nil => rfl
  | cons l ls ih =>
    rw [List.forall_mem_cons] at h
    rw [unlines_cons, lines_append_line h.1, ih h.2]

/-! ## Values of variables -/

/-- `$(...)` drops null bytes and the newlines at the end. -/
def captured (text : List Char) : List Char :=
  (text.filter (· ≠ Bash.nul)).rdropWhile (· = '\n')

/-- `echo` of one word, which may be an option. -/
def echo (text : List Char) : List Char :=
  match text with
  | '-' :: o :: options =>
    if (o :: options).all (· ∈ ['n', 'e', 'E']) then if 'n' ∈ o :: options then [] else ['\n']
    else text ++ ['\n']
  | _ => text ++ ['\n']

theorem echo_of_head {text : List Char} (h : text.head? ≠ some '-') : echo text = text ++ ['\n'] := by
  unfold echo
  split
  · simp at h
  · rfl

theorem captured_newline (text : List Char) : captured (text ++ ['\n']) = captured text := by
  rw [captured, List.filter_append, captured]
  exact List.rdropWhile_concat_pos _ _ _ (by decide)

theorem filter_ne_nul {text : List Char} (hnul : Bash.nul ∉ text) :
    text.filter (· ≠ Bash.nul) = text := by
  rw [List.filter_eq_self]
  intro c hc
  have hne : c ≠ Bash.nul := by
    rintro rfl
    exact hnul hc
  simpa using hne

theorem captured_of_getLast {text : List Char} (hnul : Bash.nul ∉ text)
    (hlast : text.getLast? ≠ some '\n') : captured text = text := by
  rw [captured, filter_ne_nul hnul, List.rdropWhile_eq_self_iff]
  intro hne hend
  exact hlast (by rw [List.getLast?_eq_getLast_of_ne_nil hne, of_decide_eq_true hend])

/-- A value that has been captured and echoed: the lines up to the last one that is not empty, or
one empty line. -/
theorem lines_echo_captured {ls : List (List Char)} (hls : ∀ l ∈ ls, '\n' ∉ l ∧ Bash.nul ∉ l)
    (hhead : ∀ l ∈ ls, l.head? ≠ some '-') :
    lines (echo (captured (unlines ls))) =
      if ls.rdropWhile (· = []) = [] then [[]] else ls.rdropWhile (· = []) := by
  induction ls using List.reverseRecOn with
  | nil => rfl
  | append_singleton ls l ih =>
    have hall := hls
    have hheads := hhead
    rw [List.forall_mem_append, List.forall_mem_singleton] at hls hhead
    by_cases hl : l = []
    · subst hl
      have hnewline : unlines (ls ++ [[]]) = unlines ls ++ ['\n'] := by simp [unlines]
      rw [hnewline, captured_newline, List.rdropWhile_concat_pos _ _ _ (by simp)]
      exact ih hls.1 hhead.1
    · have htext : unlines (ls ++ [l]) = (unlines ls ++ l) ++ ['\n'] := by simp [unlines]
      have hnul : Bash.nul ∉ unlines ls ++ l := by
        rw [List.mem_append, mem_unlines (by decide), not_or]
        exact ⟨fun ⟨l', hl', hmem⟩ => (hls.1 l' hl').2 hmem, hls.2.2⟩
      have hlast : (unlines ls ++ l).getLast? ≠ some '\n' := by
        rw [List.getLast?_append_of_ne_nil _ hl]
        exact fun h => hls.2.1 (List.mem_of_getLast? h)
      have hdash : (unlines ls ++ l).head? ≠ some '-' := by
        intro h
        obtain ⟨l', hl', hdash⟩ := head?_unlines_append (by decide) h
        exact hheads l' hl' hdash
      rw [List.rdropWhile_concat_neg _ _ _ (by simpa using hl), if_neg (by simp), htext,
        captured_newline, captured_of_getLast hnul hlast, echo_of_head hdash, ← htext,
        lines_unlines fun l hl => (hall l hl).1]

theorem rdropWhile_append_of_mem {α : Type*} {p : α → Bool} (a : List α) {b : List α}
    (h : ∃ t ∈ b, ¬ p t) : (a ++ b).rdropWhile p = a ++ b.rdropWhile p := by
  induction b using List.reverseRecOn with
  | nil => simp at h
  | append_singleton b x ih =>
    rw [← List.append_assoc]
    by_cases hx : p x
    · obtain ⟨t, ht, hpt⟩ := h
      have htb : t ∈ b := by
        rcases List.mem_append.1 ht with htb | htx
        · exact htb
        · exact absurd (List.mem_singleton.1 htx ▸ hx) hpt
      rw [List.rdropWhile_concat_pos _ _ _ hx, List.rdropWhile_concat_pos _ _ _ hx,
        ih ⟨t, htb, hpt⟩]
    · rw [List.rdropWhile_concat_neg _ _ _ hx, List.rdropWhile_concat_neg _ _ _ hx,
        List.append_assoc]

/-- An empty line is left if a line after it is not empty. -/
theorem nil_mem_rdropWhile_iff {ls : List (List Char)} :
    [] ∈ ls.rdropWhile (· = []) ↔ ∃ a b, ls = a ++ [] :: b ∧ ∃ t ∈ b, t ≠ [] := by
  constructor
  · intro h
    obtain ⟨a, b, hab⟩ := List.append_of_mem h
    have hlast := List.rdropWhile_last_not (· = []) ls (List.ne_nil_of_mem h)
    have hb : b ≠ [] := by
      rintro rfl
      simp [hab] at hlast
    refine ⟨a, b ++ ls.rtakeWhile (· = []), ?_, b.getLast hb,
      List.mem_append_left _ (List.getLast_mem hb), ?_⟩
    · have hsplit : ls.rdropWhile (· = []) ++ ls.rtakeWhile (· = []) = ls :=
        List.rdropWhile_append_rtakeWhile
      rw [hab] at hsplit
      simpa using hsplit.symm
    · simpa [hab, List.getLast_append_of_ne_nil, hb] using hlast
  · rintro ⟨a, b, rfl, t, ht, hne⟩
    rw [rdropWhile_append_of_mem a ⟨t, List.mem_cons_of_mem _ ht, by simpa using hne⟩,
      ← List.singleton_append, rdropWhile_append_of_mem [[]] ⟨t, ht, by simpa using hne⟩]
    simp

theorem mem_rdropWhile_iff {ls : List (List Char)} {l : List Char} (hne : l ≠ []) :
    l ∈ ls.rdropWhile (· = []) ↔ l ∈ ls := by
  have hsplit : ls.rdropWhile (· = []) ++ ls.rtakeWhile (· = []) = ls :=
    List.rdropWhile_append_rtakeWhile
  have hmem : l ∉ ls.rtakeWhile (· = []) := fun h => hne (by simpa using List.mem_rtakeWhile_imp h)
  rw [← hsplit, List.mem_append, hsplit, or_iff_left hmem]

/-- The words of a text that are not patterns. -/
def words (text : List Char) : List (List Char) := (text.splitOnP Bash.isBlank).filter (· ≠ [])

theorem words_append_blank {c : Char} (hc : Bash.isBlank c) (text rest : List Char) :
    words (text ++ c :: rest) = words text ++ words rest := by
  rw [words, List.splitOnP_append_cons _ _ hc, List.filter_append]
  rfl

theorem words_append_newline (text rest : List Char) :
    words (text ++ '\n' :: rest) = words text ++ words rest :=
  words_append_blank (by decide) text rest

/-- A word by itself. -/
theorem words_word {w : List Char} (hne : w ≠ []) (h : ∀ c ∈ w, Bash.isBlank c = false) :
    words w = [w] := by
  rw [words, List.splitOnP_eq_singleton h, List.filter_cons, if_pos (by simpa using hne)]
  rfl

theorem mem_splitOnP {p : Char → Bool} {text part : List Char} (h : part ∈ text.splitOnP p) :
    ∀ c ∈ part, p c = false := by
  induction text generalizing part with
  | nil =>
    rw [List.splitOnP_nil, List.mem_singleton] at h
    subst h
    intro c hc
    cases hc
  | cons x xs ih =>
    rw [List.splitOnP_cons_eq_if_modifyHead] at h
    split at h
    · rcases List.mem_cons.1 h with rfl | hrest
      · intro c hc
        cases hc
      · exact ih hrest
    · next hx =>
      obtain ⟨first, rest, hparts⟩ := List.exists_cons_of_ne_nil (List.splitOnP_ne_nil p xs)
      rw [hparts] at h ih
      rcases List.mem_cons.1 h with rfl | hrest
      · rw [List.forall_mem_cons]
        exact ⟨by simpa using hx, ih List.mem_cons_self⟩
      · exact ih (List.mem_cons_of_mem _ hrest)

theorem mem_words {text w : List Char} (h : w ∈ words text) :
    w ≠ [] ∧ ∀ c ∈ w, Bash.isBlank c = false := by
  rw [words, List.mem_filter] at h
  exact ⟨of_decide_eq_true h.2, mem_splitOnP h.1⟩

theorem words_unlines {ls : List (List Char)} (h : ∀ l ∈ ls, ∀ c ∈ l, Bash.isBlank c = false) :
    words (unlines ls) = ls.filter (· ≠ []) := by
  induction ls with
  | nil => rfl
  | cons l ls ih =>
    rw [List.forall_mem_cons] at h
    rw [unlines_cons, words_append_newline, ih h.2, words, List.splitOnP_eq_singleton h.1,
      List.filter_cons, List.filter_cons, List.filter_nil]
    split <;> rfl

/-! ## White space -/

/-- `[[:space:]]`. -/
def isSpace (c : Char) : Bool :=
  c = ' ' || c = '\t' || c = '\n' || c = Char.ofNat 11 || c = Char.ofNat 12 || c = '\r'

/-- `s/^[[:space:]]*//;s/[[:space:]]*$//`. -/
def trim (line : List Char) : List Char := (line.dropWhile isSpace).rdropWhile isSpace

/-- The white space around a text is taken away. -/
theorem trim_append {margin text trailing : List Char} (hmargin : ∀ c ∈ margin, isSpace c)
    (htrailing : ∀ c ∈ trailing, isSpace c) (hhead : ∀ c ∈ text.head?, ¬ isSpace c)
    (hlast : ∀ c ∈ text.getLast?, ¬ isSpace c) : trim (margin ++ (text ++ trailing)) = text := by
  have hend : ∀ l : List Char, (l ++ trailing).rdropWhile isSpace = l.rdropWhile isSpace := by
    intro l
    rw [List.rdropWhile, List.reverse_append, List.dropWhile_append_of_pos (by simpa using htrailing),
      ← List.rdropWhile]
  rw [trim, List.dropWhile_append_of_pos hmargin]
  cases text with
  | nil =>
    have hnil : trailing.dropWhile isSpace = [] := List.dropWhile_eq_nil_iff.2 htrailing
    rw [List.nil_append, hnil, List.rdropWhile_nil]
  | cons c text =>
    rw [List.cons_append, List.dropWhile_cons_of_neg (hhead c rfl), ← List.cons_append, hend,
      List.rdropWhile_eq_self_iff]
    exact fun hne => hlast _ (List.getLast?_eq_getLast_of_ne_nil hne)

/-! ## References to variables -/

/-- The name that a text after a `$` refers to, with the characters of the reference. -/
def reference (text : List Char) : Option (List Char × ℕ) :=
  match text with
  | '{' :: rest =>
    let name := rest.takeWhile Bash.isNameChar
    if Bash.isIdentifier name ∧ rest[name.length]? = some '}' then some (name, name.length + 2)
    else none
  | _ =>
    let name := text.takeWhile Bash.isNameChar
    if Bash.isIdentifier name then some (name, name.length) else none

/-- `envsubst`, after some characters that belong to a reference. -/
def substituteFrom (env : List Char → List Char) : ℕ → List Char → List Char
  | _, [] => []
  | n + 1, _ :: text => substituteFrom env n text
  | 0, c :: text =>
    if c = '$' then
      match reference text with
      | some (name, n) => env name ++ substituteFrom env n text
      | none => c :: substituteFrom env 0 text
    else c :: substituteFrom env 0 text

/-- `envsubst`; a variable without a value is replaced by nothing. -/
def substitute (env : List Char → List Char) (text : List Char) : List Char :=
  substituteFrom env 0 text

theorem takeWhile_name_newline (l rest : List Char) :
    (l ++ '\n' :: rest).takeWhile Bash.isNameChar = l.takeWhile Bash.isNameChar := by
  induction l with
  | nil => rfl
  | cons c l ih => rw [List.cons_append, List.takeWhile_cons, List.takeWhile_cons, ih]

/-- What stands after a name in a line is not the newline. -/
theorem getElem?_newline {l : List Char} {n : ℕ} (hn : n ≤ l.length) (rest : List Char) :
    (l ++ '\n' :: rest)[n]? = some '}' ↔ l[n]? = some '}' := by
  rcases Nat.lt_or_eq_of_le hn with hlt | rfl
  · rw [List.getElem?_append_left hlt]
  · simp

/-- A reference ends with its line. -/
theorem reference_append (l rest : List Char) :
    reference (l ++ '\n' :: rest) = reference l := by
  have hlength : ∀ l : List Char, (l.takeWhile Bash.isNameChar).length ≤ l.length :=
    fun l => (List.takeWhile_prefix _).length_le
  cases l with
  | nil => simp [reference, Bash.isNameChar, Bash.isNameStart, Bash.isIdentifier]
  | cons c l =>
    by_cases hc : c = '{'
    · subst hc
      simp only [List.cons_append, reference, takeWhile_name_newline,
        getElem?_newline (hlength l)]
    · have hplain : ∀ text : List Char, reference (c :: text) =
          if Bash.isIdentifier ((c :: text).takeWhile Bash.isNameChar) then
            some ((c :: text).takeWhile Bash.isNameChar,
              ((c :: text).takeWhile Bash.isNameChar).length)
          else none := by
        intro text
        rw [reference]
        rintro rest heq
        exact hc (List.cons.inj heq).1
      rw [List.cons_append, hplain, hplain, ← List.cons_append, takeWhile_name_newline]

theorem reference_le {l name : List Char} {n : ℕ} (h : reference l = some (name, n)) :
    n ≤ l.length := by
  have hlength : ∀ l : List Char, (l.takeWhile Bash.isNameChar).length ≤ l.length :=
    fun l => (List.takeWhile_prefix _).length_le
  unfold reference at h
  split at h
  · next rest =>
    dsimp only at h
    split at h
    · next hbrace =>
      obtain ⟨-, rfl⟩ := Prod.mk.inj (Option.some.inj h)
      have hlt := (List.getElem?_eq_some_iff.1 hbrace.2).1
      simp only [List.length_cons]
      omega
    · cases h
  · dsimp only at h
    split at h
    · obtain ⟨-, rfl⟩ := Prod.mk.inj (Option.some.inj h)
      exact hlength l
    · cases h

theorem substituteFrom_append (env : List Char → List Char) {n : ℕ} {l : List Char}
    (hn : n ≤ l.length) (rest : List Char) :
    substituteFrom env n (l ++ '\n' :: rest) =
      substituteFrom env n l ++ '\n' :: substituteFrom env 0 rest := by
  induction l generalizing n with
  | nil =>
    obtain rfl : n = 0 := Nat.le_zero.1 hn
    simp [substituteFrom]
  | cons c l ih =>
    cases n with
    | succ n => exact ih (Nat.le_of_succ_le_succ hn)
    | zero =>
      rw [List.cons_append, substituteFrom, substituteFrom, reference_append]
      by_cases hc : c = '$'
      · rw [if_pos hc, if_pos hc]
        cases href : reference l with
        | none => simp [ih (Nat.zero_le _)]
        | some r => simp [ih (reference_le href)]
      · rw [if_neg hc, if_neg hc, ih (Nat.zero_le _), List.cons_append]

/-- A text without references stays. -/
theorem substituteFrom_of_notMem (env : List Char → List Char) {s : List Char} (h : '$' ∉ s)
    (rest : List Char) : substituteFrom env 0 (s ++ rest) = s ++ substituteFrom env 0 rest := by
  induction s with
  | nil => rfl
  | cons c s ih =>
    rw [List.mem_cons, not_or] at h
    rw [List.cons_append, substituteFrom, if_neg (Ne.symm h.1), ih h.2, List.cons_append]

/-- References are replaced line by line. -/
theorem substitute_unlines (env : List Char → List Char) (ls : List (List Char)) :
    substitute env (unlines ls) = unlines (ls.map (substitute env)) := by
  induction ls with
  | nil => rfl
  | cons l ls ih =>
    rw [unlines_cons, List.map_cons, unlines_cons, ← ih]
    exact substituteFrom_append env (Nat.zero_le _) _

/-! ## Basic regular expressions -/

/-- A regular expression without brackets, repetitions, anchors and escapes at the beginning of a
line: a `.` stands for any character. -/
def matchesAt : List Char → List Char → Bool
  | [], _ => true
  | _ :: _, [] => false
  | p :: ps, c :: cs => (p = '.' || p = c) && matchesAt ps cs

/-- Such an expression matches somewhere in a line. -/
def matchesLine (pattern line : List Char) : Bool := line.tails.any (matchesAt pattern)

theorem matchesLine_self (line : List Char) : matchesLine line line := by
  have hself : ∀ line : List Char, matchesAt line line := by
    intro line
    induction line with
    | nil => rfl
    | cons c cs ih => simp [matchesAt, ih]
  rw [matchesLine, List.any_eq_true]
  exact ⟨line, (List.mem_tails _ _).2 List.suffix_rfl, hself line⟩

/-- The empty expression matches every line. -/
theorem matchesLine_nil (line : List Char) : matchesLine [] line := by
  rw [matchesLine, List.any_eq_true]
  exact ⟨line, (List.mem_tails _ _).2 List.suffix_rfl, rfl⟩

/-- `grep -v -f`. -/
def grepNot (patterns ls : List (List Char)) : List (List Char) :=
  ls.filter fun line => !patterns.any fun pattern => matchesLine pattern line

end TextFilter
