import GardenLinux.Lib.Bash

/-!
# Assignments in a shell script

Scripts that consist of assignments of words and of arrays, one on each line.  A script that
has something else in it, such as a command, is not read.

What is proved here:

* `evaluate_scriptOf` — clean values, each text of them between single quotes, are assigned
  as they stand;
* `clean_of_evaluate` — when values are assigned as they stand, they are clean.
-/

namespace Bash

/-! ## Scripts -/

inductive Value
  | scalar (s : List Char)
  | array (a : List (List Char))
  deriving DecidableEq, Repr

structure Assignment where
  name : List Char
  value : Value
  deriving DecidableEq, Repr

def isNameStart (c : Char) : Bool := c.isAlpha || c = '_'

def isNameChar (c : Char) : Bool := isNameStart c || c.isDigit

def isIdentifier : List Char → Bool
  | [] => false
  | c :: cs => isNameStart c && cs.all isNameChar

/-- The variables to which the shell itself gives values: an assignment to them is refused
or does not last.  To `_` a script may assign. -/
structure Shell where
  reserved : List (List Char)
  underscore : "_".toList ∉ reserved

def Shell.isVariable (shell : Shell) (name : List Char) : Bool :=
  isIdentifier name && name ∉ shell.reserved

/-- What is assigned after the equals sign, and what follows. -/
def value : List Char → Option (Value × List Char)
  | '(' :: cs => (words cs).map fun r => (.array r.1, r.2)
  | cs => (scan .plain cs).map fun r => (.scalar r.1, r.2)

/-- The assignment at the beginning of a text, and what follows. -/
def Shell.assignment (shell : Shell) (cs : List Char) : Option (Assignment × List Char) :=
  match cs.dropWhile (· ≠ '=') with
  | [] => none
  | _ :: rest =>
    if shell.isVariable (cs.takeWhile (· ≠ '=')) then
      (value rest).map fun r => (⟨cs.takeWhile (· ≠ '='), r.1⟩, r.2)
    else none

theorem value_length {cs rest : List Char} {v : Value} (h : value cs = some (v, rest)) :
    rest.length ≤ cs.length := by
  rw [value.eq_def] at h
  split at h
  · obtain ⟨⟨ws, _⟩, hwords, heq⟩ := Option.map_eq_some_iff.1 h
    obtain ⟨rfl, rfl⟩ := Prod.mk.inj heq
    exact (words_of_text hwords).1.length_le.trans (Nat.le_succ _)
  · obtain ⟨⟨w, _⟩, hscan, heq⟩ := Option.map_eq_some_iff.1 h
    obtain ⟨rfl, rfl⟩ := Prod.mk.inj heq
    exact (scan_of_text hscan).1.length_le

theorem Shell.assignment_length {shell : Shell} {cs rest : List Char} {a : Assignment}
    (h : shell.assignment cs = some (a, rest)) : rest.length < cs.length := by
  have hsplit := List.takeWhile_append_dropWhile (p := (· ≠ '=')) (l := cs)
  rw [Shell.assignment] at h
  split at h
  · simp at h
  · next c rest' hdrop =>
    split_ifs at h
    obtain ⟨⟨v, rest''⟩, hvalue, heq⟩ := Option.map_eq_some_iff.1 h
    obtain ⟨-, rfl⟩ := Prod.mk.inj heq
    have hle := value_length hvalue
    have hlength := congrArg List.length hsplit
    rw [List.length_append, hdrop, List.length_cons] at hlength
    dsimp only
    omega

/-- The assignments of a script, one on each line. -/
def Shell.script (shell : Shell) (cs : List Char) : Option (List Assignment) :=
  match cs with
  | [] => some []
  | c :: cs =>
    if c = '\n' then shell.script cs
    else
      match _h : shell.assignment (c :: cs) with
      | some (a, []) => some [a]
      | some (a, '\n' :: rest) => (shell.script rest).map (a :: ·)
      | _ => none
termination_by cs.length
decreasing_by
  · exact Nat.lt_succ_self _
  · exact Nat.lt_of_succ_lt (Shell.assignment_length _h)

/-- The shell drops the NUL characters of a script. -/
def Shell.evaluate (shell : Shell) (text : List Char) : Option (List Assignment) :=
  shell.script (text.filter (· ≠ nul))

/-! ## Lists of assignments -/

/-- A value with each text of it between single quotes. -/
def Value.text : Value → List Char
  | .scalar s => quoted s
  | .array a => '(' :: (elements a ++ [' ', ')'])

def Value.texts : Value → List (List Char)
  | .scalar s => [s]
  | .array a => a

def Assignment.line (a : Assignment) : List Char := a.name ++ '=' :: (a.value.text ++ ['\n'])

/-- The script that assigns one value after the other. -/
def scriptOf (assignments : List Assignment) : List Char := assignments.flatMap Assignment.line

/-- Nothing in the value has a meaning for the shell. -/
def Value.Clean (v : Value) : Prop := ∀ text ∈ v.texts, squote ∉ text ∧ nul ∉ text

def stripText (text : List Char) : List Char := text.filter (· ≠ nul)

def Value.strip : Value → Value
  | .scalar s => .scalar (stripText s)
  | .array a => .array (a.map stripText)

theorem stripText_of_notMem {text : List Char} (h : nul ∉ text) : stripText text = text := by
  rw [stripText, List.filter_eq_self]
  exact fun c hc => decide_eq_true fun heq => h (heq ▸ hc)

theorem nul_notMem_stripText (text : List Char) : nul ∉ stripText text := by
  simp [stripText]

theorem strip_of_clean {v : Value} (h : ∀ text ∈ v.texts, nul ∉ text) : v.strip = v := by
  cases v with
  | scalar s => rw [Value.strip, stripText_of_notMem (h s (List.mem_singleton_self s))]
  | array a =>
    have hmap : a.map stripText = a.map id :=
      List.map_congr_left fun text htext => stripText_of_notMem (h text htext)
    rw [Value.strip, hmap, List.map_id]

theorem stripText_text (v : Value) : stripText v.text = v.strip.text := by
  have hquoted : ∀ s, stripText (quoted s) = quoted (stripText s) := by
    intro s
    have hsquote : squote ≠ nul := by decide
    simp [stripText, quoted, hsquote]
  cases v with
  | scalar s => exact hquoted s
  | array a =>
    have helements : stripText (elements a) = elements (a.map stripText) := by
      induction a with
      | nil => rfl
      | cons s a ih =>
        have hspace : stripText (' ' :: quoted s) = ' ' :: quoted (stripText s) := by
          rw [← hquoted]
          rfl
        rw [elements, List.flatMap_cons, List.map_cons, elements, List.flatMap_cons, ← elements,
          ← elements, ← ih, ← hspace]
        exact List.filter_append ..
    have hsplit : stripText ('(' :: (elements a ++ [' ', ')'])) =
        '(' :: (stripText (elements a) ++ [' ', ')']) := by
      simp [stripText, List.filter_append, nul]
    rw [Value.text, hsplit, helements]
    rfl

/-! ## Identifiers -/

theorem isNameChar_spec {c : Char} (h : isNameChar c) :
    c ≠ '=' ∧ c ≠ nul ∧ isOrdinary c := by
  refine ⟨?_, ?_, ?_⟩
  · rintro rfl
    exact absurd h (by decide)
  · rintro rfl
    exact absurd h (by decide)
  · simp only [isOrdinary, Bool.and_eq_true, decide_eq_true_eq]
    refine ⟨⟨⟨?_, ?_⟩, ?_⟩, ?_⟩ <;> rintro rfl <;> exact absurd h (by decide)

theorem isNameChar_of_identifier {name : List Char} (h : isIdentifier name) :
    ∀ c ∈ name, isNameChar c := by
  cases name with
  | nil => simp
  | cons c cs =>
    rw [isIdentifier, Bool.and_eq_true, List.all_eq_true] at h
    rw [List.forall_mem_cons]
    exact ⟨by rw [isNameChar, h.1]; rfl, h.2⟩

theorem identifier_clean {name : List Char} (h : isIdentifier name) :
    squote ∉ name ∧ nul ∉ name := by
  have hchars := isNameChar_of_identifier h
  refine ⟨fun hmem => absurd (hchars _ hmem) (by decide), fun hmem =>
    absurd (hchars _ hmem) (by decide)⟩

theorem takeWhile_name {name : List Char} (h : isIdentifier name) (rest : List Char) :
    (name ++ '=' :: rest).takeWhile (· ≠ '=') = name ∧
      (name ++ '=' :: rest).dropWhile (· ≠ '=') = '=' :: rest := by
  have hall : ∀ c ∈ name, decide (c ≠ '=') = true := fun c hc =>
    decide_eq_true (isNameChar_spec (isNameChar_of_identifier h c hc)).1
  rw [List.takeWhile_append_of_pos hall, List.dropWhile_append_of_pos hall]
  simp

variable {shell : Shell}

theorem newline_notMem {c : Char} {cs : List Char} (h : isIdentifier (c :: cs)) : c ≠ '\n' := by
  have hord := (isNameChar_spec (isNameChar_of_identifier h c (List.mem_cons_self ..))).2.2
  rintro rfl
  exact absurd hord (by decide)

theorem script_cons {name body rest : List Char} {a : Assignment} (hname : isIdentifier name)
    (h : shell.assignment (name ++ '=' :: body) = some (a, '\n' :: rest)) :
    shell.script (name ++ '=' :: body) = (shell.script rest).map (a :: ·) := by
  cases name with
  | nil => simp [isIdentifier] at hname
  | cons c cs =>
    rw [List.cons_append] at h ⊢
    rw [Shell.script, if_neg (newline_notMem hname)]
    split
    · next ha => simp [h] at ha
    · next ha =>
      obtain ⟨rfl, hrest⟩ := Prod.mk.inj (Option.some.inj (h.symm.trans ha))
      rw [(List.cons.inj hrest).2]
    · next hother => exact absurd h (hother _ _)

/-- A line that is no empty one begins with an assignment. -/
theorem script_step {c : Char} {cs : List Char} {trace : List Assignment} (hc : c ≠ '\n')
    (h : shell.script (c :: cs) = some trace) :
    ∃ a rest trace', shell.assignment (c :: cs) = some (a, rest) ∧ trace = a :: trace' ∧
      (rest = [] ∧ trace' = [] ∨ ∃ rest', rest = '\n' :: rest' ∧
        shell.script rest' = some trace') := by
  rw [Shell.script, if_neg hc] at h
  split at h
  · next a ha => exact ⟨a, [], [], ha, (Option.some.inj h).symm, Or.inl ⟨rfl, rfl⟩⟩
  · next a rest ha =>
    obtain ⟨trace', hrest, rfl⟩ := Option.map_eq_some_iff.1 h
    exact ⟨a, _, trace', ha, rfl, Or.inr ⟨rest, rfl, hrest⟩⟩
  · simp at h

theorem of_script_cons {name body : List Char} {trace : List Assignment}
    (hname : isIdentifier name) (h : shell.script (name ++ '=' :: body) = some trace) :
    ∃ a rest trace', shell.assignment (name ++ '=' :: body) = some (a, rest) ∧
      trace = a :: trace' ∧
      (rest = [] ∧ trace' = [] ∨ ∃ rest', rest = '\n' :: rest' ∧
        shell.script rest' = some trace') := by
  cases name with
  | nil => simp [isIdentifier] at hname
  | cons c cs => exact script_step (newline_notMem hname) h

theorem assignment_eq {name : List Char} (hname : isIdentifier name) (body : List Char) :
    shell.assignment (name ++ '=' :: body) =
      if shell.isVariable name then (value body).map fun r => (⟨name, r.1⟩, r.2) else none := by
  obtain ⟨htake, hdrop⟩ := takeWhile_name hname body
  rw [Shell.assignment, hdrop, htake]

/-- A value that has nothing of a meaning for the shell is read as it stands. -/
theorem value_text {v : Value} (h : v.Clean) (rest : List Char) :
    value (v.text ++ '\n' :: rest) = some (v, '\n' :: rest) := by
  cases v with
  | scalar s =>
    have hscan := scan_quoted (h s (List.mem_singleton_self s)).1
      (by simp [endsWord, isBlank] : ∀ c ∈ ('\n' :: rest).head?, endsWord c)
    rw [Value.text]
    rw [quoted, List.cons_append, List.cons_append] at hscan ⊢
    rw [value.eq_2 _ (by simp [squote]), hscan]
    rfl
  | array a =>
    rw [Value.text, List.cons_append, List.append_assoc, value.eq_1]
    have hwords : words (elements a ++ ' ' :: ')' :: '\n' :: rest) = some (a, '\n' :: rest) :=
      words_quoted (fun text htext => (h text htext).1) _
    simp only [List.cons_append, List.nil_append, hwords, Option.map_some]

/-- A value that is read as it stands has no single quotes. -/
theorem value_ne {v : Value} {rest rest' : List Char} (hrest : Follows ('\n' :: rest))
    (h : value (v.text ++ '\n' :: rest) = some (v, rest')) :
    ∀ text ∈ v.texts, squote ∉ text := by
  cases v with
  | scalar s =>
    rw [Value.text, quoted, List.cons_append, List.cons_append,
      value.eq_2 _ (by simp [squote])] at h
    obtain ⟨⟨w, _⟩, hscan, heq⟩ := Option.map_eq_some_iff.1 h
    obtain ⟨hw, -⟩ := Prod.mk.inj heq
    obtain rfl := Value.scalar.inj hw
    rw [Value.texts, List.forall_mem_singleton]
    exact fun hq => scan_ne hq hrest hscan rfl
  | array a =>
    rw [Value.text, List.cons_append, List.append_assoc, value.eq_1] at h
    obtain ⟨⟨ws, _⟩, hwords, heq⟩ := Option.map_eq_some_iff.1 h
    obtain ⟨hws, -⟩ := Prod.mk.inj heq
    obtain rfl := Value.array.inj hws
    exact (words_ne hwords).1

/-- The texts of a value that is read have no NUL character if the script has none. -/
theorem value_nul {cs rest : List Char} {v : Value} (hcs : nul ∉ cs)
    (h : value cs = some (v, rest)) : ∀ text ∈ v.texts, nul ∉ text := by
  rw [value.eq_def] at h
  split at h
  · obtain ⟨⟨ws, _⟩, hwords, heq⟩ := Option.map_eq_some_iff.1 h
    obtain ⟨rfl, rfl⟩ := Prod.mk.inj heq
    intro text htext hmem
    exact hcs (List.mem_cons_of_mem _ ((words_of_text hwords).2 text htext nul hmem (by decide)))
  · obtain ⟨⟨w, _⟩, hscan, heq⟩ := Option.map_eq_some_iff.1 h
    obtain ⟨rfl, rfl⟩ := Prod.mk.inj heq
    rw [Value.texts, List.forall_mem_singleton]
    exact fun hmem => hcs ((scan_of_text hscan).2 nul hmem (by decide))

/-! ## Evaluating a list of assignments -/

theorem stripText_scriptOf_cons {a : Assignment} (hname : isIdentifier a.name)
    (assignments : List Assignment) :
    stripText (scriptOf (a :: assignments)) =
      a.name ++ '=' :: (a.value.strip.text ++ '\n' :: stripText (scriptOf assignments)) := by
  have hstrip : stripText a.name = a.name := stripText_of_notMem (identifier_clean hname).2
  have hsign : '=' ≠ nul := by decide
  have hnewline : '\n' ≠ nul := by decide
  rw [← stripText_text, scriptOf, List.flatMap_cons, Assignment.line, ← scriptOf]
  nth_rewrite 2 [← hstrip]
  simp [stripText, hsign, hnewline]

/-- A line is followed by nothing or by a name. -/
theorem follows_script {assignments : List Assignment}
    (h : ∀ a ∈ assignments, isIdentifier a.name) :
    Follows ('\n' :: stripText (scriptOf assignments)) := by
  cases assignments with
  | nil => exact Or.inr (Or.inl rfl)
  | cons a assignments =>
    have hname := h a (List.mem_cons_self ..)
    rw [stripText_scriptOf_cons hname]
    cases hcs : a.name with
    | nil =>
      rw [hcs] at hname
      simp [isIdentifier] at hname
    | cons c cs =>
      have hc : c ∈ a.name := hcs ▸ List.mem_cons_self ..
      have hord := (isNameChar_spec (isNameChar_of_identifier hname c hc)).2.2
      exact Or.inr (Or.inr ⟨c, _, hord, rfl⟩)

/-- Clean values are assigned to variables as they stand. -/
theorem evaluate_scriptOf {assignments : List Assignment}
    (h : ∀ a ∈ assignments, shell.isVariable a.name ∧ a.value.Clean) :
    shell.evaluate (scriptOf assignments) = some assignments := by
  rw [Shell.evaluate, ← stripText]
  induction assignments with
  | nil => rw [scriptOf, List.flatMap_nil, stripText, List.filter_nil, Shell.script]
  | cons a assignments ih =>
    rw [List.forall_mem_cons] at h
    obtain ⟨⟨hvar, hclean⟩, hrest⟩ := h
    have hname : isIdentifier a.name := (Bool.and_eq_true_iff.1 hvar).1
    have hvalue := value_text hclean (stripText (scriptOf assignments))
    have hassignment : shell.assignment
        (a.name ++ '=' :: (a.value.text ++ '\n' :: stripText (scriptOf assignments))) =
          some (a, '\n' :: stripText (scriptOf assignments)) := by
      rw [assignment_eq hname, if_pos hvar, hvalue]
      rfl
    rw [stripText_scriptOf_cons hname, strip_of_clean fun text htext => (hclean text htext).2,
      script_cons hname hassignment, ih hrest, Option.map_some]

theorem isVariable_of_assignment {cs rest : List Char} {a : Assignment}
    (h : shell.assignment cs = some (a, rest)) : shell.isVariable a.name := by
  rw [Shell.assignment] at h
  split at h
  · simp at h
  · split_ifs at h with hvar
    obtain ⟨r, -, heq⟩ := Option.map_eq_some_iff.1 h
    obtain ⟨rfl, -⟩ := Prod.mk.inj heq
    exact hvar

theorem script_names {cs : List Char} {trace : List Assignment}
    (h : shell.script cs = some trace) : ∀ a ∈ trace, shell.isVariable a.name := by
  induction hn : cs.length using Nat.strong_induction_on generalizing cs trace with
  | _ n ih =>
    cases cs with
    | nil =>
      rw [Shell.script] at h
      obtain rfl := Option.some.inj h
      simp
    | cons c cs =>
      by_cases hc : c = '\n'
      · subst hc
        rw [Shell.script, if_pos rfl] at h
        exact ih cs.length (by simp [← hn]) h rfl
      · obtain ⟨a, rest, trace', ha, rfl, hrest⟩ := script_step hc h
        rw [List.forall_mem_cons]
        refine ⟨isVariable_of_assignment ha, ?_⟩
        rcases hrest with ⟨-, rfl⟩ | ⟨rest', rfl, hrest⟩
        · simp
        · have hlength := Shell.assignment_length ha
          rw [List.length_cons, hn] at hlength
          exact ih rest'.length (by omega) hrest rfl

/-- When each value is clean or read as it stands wherever its variable is assigned to, all
the values are clean. -/
theorem clean_of_evaluate {assignments trace : List Assignment}
    (hnames : ∀ a ∈ assignments, isIdentifier a.name)
    (h : shell.evaluate (scriptOf assignments) = some trace)
    (hheld : ∀ a ∈ assignments, a.value.Clean ∨ ∀ b ∈ trace, b.name = a.name → b.value = a.value) :
    ∀ a ∈ assignments, shell.isVariable a.name ∧ a.value.Clean := by
  rw [Shell.evaluate, ← stripText] at h
  induction assignments generalizing trace with
  | nil => simp
  | cons a assignments ih =>
    rw [List.forall_mem_cons] at hnames hheld ⊢
    have hfollows := follows_script hnames.2
    rw [stripText_scriptOf_cons hnames.1] at h
    obtain ⟨b, rest, trace', hassignment, rfl, hrest⟩ := of_script_cons hnames.1 h
    rw [assignment_eq hnames.1] at hassignment
    split_ifs at hassignment with hvar
    obtain ⟨⟨v, _⟩, hvalue, heq⟩ := Option.map_eq_some_iff.1 hassignment
    obtain ⟨rfl, rfl⟩ := Prod.mk.inj heq
    have hclean : a.value.Clean := by
      rcases hheld.1 with hclean | hheld
      · exact hclean
      · obtain rfl : v = a.value := hheld _ (List.mem_cons_self ..) rfl
        have hstripped : ∀ text ∈ a.value.texts, nul ∉ text := by
          refine value_nul ?_ hvalue
          rw [← stripText_text, List.mem_append, List.mem_cons, not_or, not_or]
          exact ⟨nul_notMem_stripText _, by decide, nul_notMem_stripText _⟩
        rw [strip_of_clean hstripped] at hvalue
        exact fun text htext => ⟨value_ne hfollows hvalue text htext, hstripped text htext⟩
    refine ⟨⟨hvar, hclean⟩, ?_⟩
    rw [strip_of_clean fun text htext => (hclean text htext).2, value_text hclean] at hvalue
    obtain ⟨rfl, rfl⟩ := Prod.mk.inj (Option.some.inj hvalue)
    rcases hrest with ⟨hnil, -⟩ | ⟨rest', hcons, hscript⟩
    · simp at hnil
    · rw [← (List.cons.inj hcons).2] at hscript
      exact ih hnames.2 hscript fun a' ha' => (hheld.2 a' ha').imp_right fun hb b' hb' =>
        hb b' (List.mem_cons_of_mem _ hb')

end Bash
