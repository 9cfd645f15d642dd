import Mathlib.Data.Rat.Defs
import GardenLinux.Lib.TextFilter

/-!
# The filters of package lists

The files `pkg.include` and `pkg.exclude` of a feature, and `filter_comment`, `filter_variables`
and `filter_if` of `bin/.constants.sh`, which turn them into names of packages.

What is proved here:

* `commentLine_source` — what is left of a line without its comment and the blanks around it;
* `substitute_source` — the architecture replaces its references;
* `filterIfLine_entry` — a line whose conditions hold becomes the name of its package;
* `filtered_eq` — the filters together.
-/

namespace GardenInit

open TextFilter

/-! ## The filters -/

/-- `s/#.*$//;/^$/d;s/^[[:space:]]*//;s/[[:space:]]*$//` of a line. -/
def commentLine (line : List Char) : Option (List Char) :=
  let line := line.takeWhile (· ≠ '#')
  if line = [] then none else some (trim line)

/-- `filter_comment`. -/
def filterComment (text : List Char) : List Char := unlines ((lines text).filterMap commentLine)

/-- `filter_variables`, in an environment of other variables. -/
def filterVariables (env : List Char → List Char) (arch text : List Char) : List Char :=
  substitute (fun name => if name = "arch".toList then arch else env name) text

/-- The comparison of two fields in awk: as numbers, if both look like numbers. -/
def awkEq (number : List Char → Option ℚ) (a b : List Char) : Bool :=
  match number a, number b with
  | some x, some y => x = y
  | _, _ => a = b

/-- `split(a, arn, "!=")`. -/
def splitNe : List Char → List (List Char)
  | [] => [[]]
  | '!' :: '=' :: cs => [] :: splitNe cs
  | c :: cs =>
    match splitNe cs with
    | [] => [[c]]
    | p :: ps => (c :: p) :: ps

/-- Whether a condition makes awk go on to the next line. -/
def rejects (number : List Char → Option ℚ) (field : List Char) : Bool :=
  let a := field.filter fun c => c ≠ ' ' ∧ c ≠ '[' ∧ c ≠ ']'
  match splitNe a with
  | l :: r :: _ => awkEq number l r
  | _ =>
    match a.splitOn '=' with
    | l :: r :: _ => !awkEq number l r
    | _ => false

/-- What awk prints for a line. -/
def filterIfLine (number : List Char → Option ℚ) (line : List Char) : Option (List Char) :=
  let fields := line.splitOn ']'
  if fields.dropLast.any (rejects number) then none
  else some ((fields.getLastD []).filter (· ≠ ' '))

/-- `filter_if`. -/
def filterIf (number : List Char → Option ℚ) (text : List Char) : List Char :=
  unlines ((lines text).filterMap (filterIfLine number))

/-- `filter_comment <<< ... | filter_variables | filter_if`. -/
def filtered (number : List Char → Option ℚ) (env : List Char → List Char) (arch text : List Char) :
    List Char :=
  filterIf number (filterVariables env arch (filterComment (text ++ ['\n'])))

/-! ## The lines of a package list -/

/-- An architecture. -/
structure Arch where
  text : List Char
  ne_nil : text ≠ []
  plain : ∀ c ∈ text, c.isAlphanum || c = '-' || c = '_'
  head_ne : text.head? ≠ some '-'

/-- A character, or `${arch}`. -/
inductive Piece
  | char (c : Char)
  | arch
  deriving DecidableEq, Repr

/-- The pieces, with a text for the architecture. -/
def spell (ref : List Char) (pieces : List Piece) : List Char :=
  pieces.flatMap fun
    | .char c => [c]
    | .arch => ref

/-- `${arch}`. -/
def archRef : List Char := '$' :: '{' :: ("arch".toList ++ ['}'])

/-- A character that is no blank and has no meaning of its own. -/
def isPlain (special : List Char) (c : Char) : Bool :=
  !isSpace c && c ≠ Bash.nul && c ∉ special

/-- The characters of what is compared in a condition. -/
def isOperandChar (c : Char) : Bool := isPlain "[]=!#$".toList c

/-- The characters of the name of a package, which may be a path or a URL. -/
def isPackageChar (c : Char) : Bool := isPlain "[]#$*^?\\".toList c

structure Operand where
  pieces : List Piece
  plain : ∀ c, .char c ∈ pieces → isOperandChar c

structure Package where
  pieces : List Piece
  plain : ∀ c, .char c ∈ pieces → isPackageChar c
  ne_nil : pieces ≠ []
  head_ne : pieces.head? ≠ some (.char '-')

/-- `[left=right]` or `[left!=right]`, with spaces inside and after it. -/
structure Condition where
  left : Operand
  negated : Bool
  right : Operand
  opening : ℕ
  before : ℕ
  behind : ℕ
  closing : ℕ
  after : ℕ

def spaces (n : ℕ) : List Char := List.replicate n ' '

/-- What stands between the brackets. -/
def Condition.body (ref : List Char) (c : Condition) : List Char :=
  spaces c.opening ++ (spell ref c.left.pieces ++ (spaces c.before ++
    ((if c.negated then ['!', '='] else ['=']) ++ (spaces c.behind ++ (spell ref c.right.pieces ++
      spaces c.closing)))))

/-- The condition holds for an architecture. -/
def Condition.holds (number : List Char → Option ℚ) (arch : Arch) (c : Condition) : Bool :=
  awkEq number (spell arch.text c.left.pieces) (spell arch.text c.right.pieces) != c.negated

/-- A package with the conditions under which a line names it. -/
structure Entry where
  conditions : List Condition
  package : Package

/-- The conditions and the name as they are written. -/
def render (ref : List Char) : List Condition → Package → List Char
  | [], package => spell ref package.pieces
  | c :: conditions, package =>
    '[' :: (c.body ref ++ ']' :: (spaces c.after ++ render ref conditions package))

def Entry.enabled (number : List Char → Option ℚ) (arch : Arch) (e : Entry) : Bool :=
  e.conditions.all (Condition.holds number arch)

def Entry.name (arch : Arch) (e : Entry) : List Char := spell arch.text e.package.pieces

/-- White space in a line. -/
structure Blanks where
  text : List Char
  space : ∀ c ∈ text, isSpace c ∧ c ≠ '\n'

structure Comment where
  text : List Char
  clean : '\n' ∉ text ∧ Bash.nul ∉ text

/-- A line: nothing or the entry of a package, with white space around it and a comment. -/
structure Line where
  margin : Blanks
  entry : Option Entry
  trailing : Blanks
  comment : Option Comment

def commentSource : Option Comment → List Char
  | none => []
  | some comment => '#' :: comment.text

def entrySource : Option Entry → List Char
  | none => []
  | some e => render archRef e.conditions e.package

def Line.source (l : Line) : List Char :=
  l.margin.text ++ (entrySource l.entry ++ (l.trailing.text ++ commentSource l.comment))

/-- A line of white space only, or of white space and a comment. -/
def Line.isSpaceOnly (l : Line) : Bool :=
  l.entry.isNone && (l.margin.text ++ l.trailing.text ≠ [])

/-! ## Characters -/

theorem mem_spell {ref : List Char} {pieces : List Piece} {c : Char} (h : c ∈ spell ref pieces) :
    .char c ∈ pieces ∨ c ∈ ref := by
  obtain ⟨piece, hpiece, hc⟩ := List.mem_flatMap.1 h
  cases piece with
  | char d =>
    obtain rfl := List.mem_singleton.1 hc
    exact Or.inl hpiece
  | arch => exact Or.inr hc

section Chars

variable {P : Char → Prop} {ref : List Char} (href : ∀ c ∈ ref, P c)

include href

theorem forall_mem_operand (hoperand : ∀ c, isOperandChar c → P c) (o : Operand) :
    ∀ c ∈ spell ref o.pieces, P c := by
  intro c hc
  rcases mem_spell hc with hc | hc
  · exact hoperand c (o.plain c hc)
  · exact href c hc

theorem forall_mem_package (hpackage : ∀ c, isPackageChar c → P c) (p : Package) :
    ∀ c ∈ spell ref p.pieces, P c := by
  intro c hc
  rcases mem_spell hc with hc | hc
  · exact hpackage c (p.plain c hc)
  · exact href c hc

theorem forall_mem_body (hmarks : ∀ c ∈ [' ', '!', '='], P c)
    (hoperand : ∀ c, isOperandChar c → P c) (cond : Condition) : ∀ c ∈ cond.body ref, P c := by
  have hspaces : ∀ n, ∀ c ∈ spaces n, P c := by
    intro n c hc
    rw [List.eq_of_mem_replicate hc]
    exact hmarks ' ' (by simp)
  have hoperator : ∀ c ∈ if cond.negated then ['!', '='] else ['='], P c := by
    intro c hc
    refine hmarks c ?_
    split at hc <;> simp_all
  have hleft := forall_mem_operand href hoperand cond.left
  have hright := forall_mem_operand href hoperand cond.right
  simp only [Condition.body, List.forall_mem_append]
  exact ⟨hspaces _, hleft, hspaces _, hoperator, hspaces _, hright, hspaces _⟩

theorem forall_mem_render (hmarks : ∀ c ∈ [' ', '!', '=', '[', ']'], P c)
    (hoperand : ∀ c, isOperandChar c → P c) (hpackage : ∀ c, isPackageChar c → P c)
    (conditions : List Condition) (package : Package) :
    ∀ c ∈ render ref conditions package, P c := by
  induction conditions with
  | nil => exact forall_mem_package href hpackage package
  | cons cond conditions ih =>
    have hbody := forall_mem_body href (fun c hc => hmarks c (by simp at hc ⊢; tauto)) hoperand cond
    have hspaces : ∀ c ∈ spaces cond.after, P c := by
      intro c hc
      rw [List.eq_of_mem_replicate hc]
      exact hmarks ' ' (by simp)
    simp only [render, List.forall_mem_cons, List.forall_mem_append]
    exact ⟨hmarks '[' (by simp), hbody, hmarks ']' (by simp), hspaces, ih⟩

end Chars

/-! ## Without comments -/

theorem spell_ne_nil {ref : List Char} (href : ref ≠ []) (p : Package) :
    spell ref p.pieces ≠ [] := by
  cases hpieces : p.pieces with
  | nil => exact absurd hpieces p.ne_nil
  | cons piece pieces =>
    rw [spell, List.flatMap_cons]
    cases piece with
    | char c => simp
    | arch => simp [href]

/-- A line ends with the name of its package. -/
theorem exists_render (ref : List Char) (conditions : List Condition) (package : Package) :
    ∃ before, render ref conditions package = before ++ spell ref package.pieces := by
  induction conditions with
  | nil => exact ⟨[], rfl⟩
  | cons cond conditions ih =>
    obtain ⟨before, hbefore⟩ := ih
    exact ⟨'[' :: (cond.body ref ++ ']' :: (spaces cond.after ++ before)), by simp [render, hbefore]⟩

theorem isPackageChar_space {c : Char} (h : isPackageChar c) : ¬ isSpace c := by
  simp only [isPackageChar, isPlain, Bool.and_eq_true] at h
  simpa using h.1.1

theorem archRef_space : ∀ c ∈ archRef, ¬ isSpace c := by simp [archRef, isSpace]

/-- The entry of a line has no white space at its ends. -/
theorem render_ends (conditions : List Condition) (package : Package) :
    (∀ c ∈ (render archRef conditions package).head?, ¬ isSpace c) ∧
      ∀ c ∈ (render archRef conditions package).getLast?, ¬ isSpace c := by
  have hname := forall_mem_package archRef_space (fun c => isPackageChar_space) package
  constructor
  · intro c hc
    cases conditions with
    | nil => exact hname c (List.mem_of_head? hc)
    | cons cond conditions =>
      obtain rfl : '[' = c := Option.some.inj hc
      decide
  · obtain ⟨before, hbefore⟩ := exists_render archRef conditions package
    intro c hc
    rw [hbefore, List.getLast?_append_of_ne_nil _ (spell_ne_nil (by decide) package)] at hc
    exact hname c (List.mem_of_getLast? hc)

theorem entrySource_eq_nil_iff {entry : Option Entry} : entrySource entry = [] ↔ entry = none := by
  cases entry with
  | none => simp [entrySource]
  | some e =>
    obtain ⟨before, hbefore⟩ := exists_render archRef e.conditions e.package
    simp [entrySource, hbefore, spell_ne_nil (show archRef ≠ [] by decide) e.package]

/-- What is left of a line without its comment and the blanks around it. -/
theorem commentLine_source (l : Line) :
    commentLine l.source =
      if l.entry.isSome || l.isSpaceOnly then some (entrySource l.entry) else none := by
  have hends : (∀ c ∈ (entrySource l.entry).head?, ¬ isSpace c) ∧
      ∀ c ∈ (entrySource l.entry).getLast?, ¬ isSpace c := by
    cases l.entry with
    | none => simp [entrySource]
    | some e => exact render_ends e.conditions e.package
  have hcode : ∀ c ∈ l.margin.text ++ (entrySource l.entry ++ l.trailing.text), c ≠ '#' := by
    have hblank : ∀ b : Blanks, ∀ c ∈ b.text, c ≠ '#' := by
      rintro b c hc rfl
      exact absurd (b.space _ hc).1 (by decide)
    have hentry : ∀ c ∈ entrySource l.entry, c ≠ '#' := by
      cases l.entry with
      | none => simp [entrySource]
      | some e =>
        refine forall_mem_render (by simp [archRef]) (by simp) ?_ ?_ e.conditions e.package
        · rintro c hc rfl
          exact absurd hc (by decide)
        · rintro c hc rfl
          exact absurd hc (by decide)
    simp only [List.forall_mem_append]
    exact ⟨hblank _, hentry, hblank _⟩
  have htake : l.source.takeWhile (· ≠ '#') =
      l.margin.text ++ (entrySource l.entry ++ l.trailing.text) := by
    have hcomment : (commentSource l.comment).takeWhile (· ≠ '#') = [] := by
      cases l.comment with
      | none => rfl
      | some comment => simp [commentSource]
    have hsource : l.source =
        (l.margin.text ++ (entrySource l.entry ++ l.trailing.text)) ++ commentSource l.comment := by
      simp [Line.source]
    rw [hsource, List.takeWhile_append_of_pos (by simpa using hcode), hcomment, List.append_nil]
  have hspaceOnly : l.margin.text ++ (entrySource l.entry ++ l.trailing.text) = [] ↔
      ¬ (l.entry.isSome || l.isSpaceOnly) := by
    simp only [List.append_eq_nil_iff, entrySource_eq_nil_iff, Line.isSpaceOnly]
    cases l.entry <;> simp
  rw [commentLine, htake]
  by_cases hnil : l.margin.text ++ (entrySource l.entry ++ l.trailing.text) = []
  · rw [if_pos hnil, if_neg (hspaceOnly.1 hnil)]
  · rw [if_neg hnil, if_pos (not_not.1 fun h => hnil (hspaceOnly.2 h)),
      trim_append (fun c hc => (l.margin.space c hc).1) (fun c hc => (l.trailing.space c hc).1)
        hends.1 hends.2]

/-! ## With the architecture -/

section Substitute

variable {env : List Char → List Char} {arch : Arch} (harch : env "arch".toList = arch.text)

include harch

theorem substituteFrom_spell {pieces : List Piece} (h : ∀ c, .char c ∈ pieces → c ≠ '$')
    (rest : List Char) :
    substituteFrom env 0 (spell archRef pieces ++ rest) =
      spell arch.text pieces ++ substituteFrom env 0 rest := by
  induction pieces with
  | nil => rfl
  | cons piece pieces ih =>
    have ih := ih fun c hc => h c (List.mem_cons_of_mem _ hc)
    cases piece with
    | char c =>
      have hc : c ≠ '$' := h c (List.mem_cons_self ..)
      show substituteFrom env 0 (c :: (spell archRef pieces ++ rest)) = _
      rw [substituteFrom, if_neg hc, ih]
      rfl
    | arch =>
      have href : reference ('{' :: 'a' :: 'r' :: 'c' :: 'h' :: '}' :: (spell archRef pieces ++ rest)) =
          some ("arch".toList, 6) := by
        have htake : ('a' :: 'r' :: 'c' :: 'h' :: '}' :: (spell archRef pieces ++ rest)).takeWhile
            Bash.isNameChar = "arch".toList := rfl
        simp only [reference, htake]
        rfl
      show substituteFrom env 0
        ('$' :: '{' :: 'a' :: 'r' :: 'c' :: 'h' :: '}' :: (spell archRef pieces ++ rest)) = _
      rw [substituteFrom, if_pos rfl, href]
      simp only [substituteFrom, ih, harch]
      exact (List.append_assoc _ _ _).symm

theorem substituteFrom_body (cond : Condition) (rest : List Char) :
    substituteFrom env 0 (cond.body archRef ++ rest) =
      cond.body arch.text ++ substituteFrom env 0 rest := by
  have hspaces : ∀ n, '$' ∉ spaces n := by
    intro n hmem
    exact absurd (List.eq_of_mem_replicate hmem) (by decide)
  have hoperator : '$' ∉ if cond.negated then ['!', '='] else ['='] := by
    split <;> decide
  have hoperand : ∀ o : Operand, ∀ c, .char c ∈ o.pieces → c ≠ '$' := by
    rintro o c hc rfl
    exact absurd (o.plain _ hc) (by decide)
  simp only [Condition.body, List.append_assoc, substituteFrom_of_notMem env (hspaces _),
    substituteFrom_of_notMem env hoperator, substituteFrom_spell harch (hoperand _)]

/-- The architecture replaces its references. -/
theorem substitute_render (conditions : List Condition) (package : Package) :
    substitute env (render archRef conditions package) = render arch.text conditions package := by
  have hpackage : ∀ c, .char c ∈ package.pieces → c ≠ '$' := by
    rintro c hc rfl
    exact absurd (package.plain _ hc) (by decide)
  induction conditions with
  | nil =>
    have hname := substituteFrom_spell harch hpackage []
    rw [List.append_nil] at hname
    rw [render, substitute, hname]
    exact List.append_nil _
  | cons cond conditions ih =>
    have hspaces : '$' ∉ spaces cond.after := by
      intro hmem
      exact absurd (List.eq_of_mem_replicate hmem) (by decide)
    rw [substitute] at ih
    rw [substitute, render, substituteFrom, if_neg (by decide), substituteFrom_body harch,
      substituteFrom, if_neg (by decide), substituteFrom_of_notMem env hspaces, ih, render]

end Substitute

/-! ## Conditions -/

theorem splitNe_of_notMem {s : List Char} (h : '!' ∉ s) : splitNe s = [s] := by
  induction s with
  | nil => rfl
  | cons c s ih =>
    rw [List.mem_cons, not_or] at h
    rw [splitNe.eq_3 c s fun cs hc _ => h.1 hc.symm, ih h.2]

theorem splitNe_append {s : List Char} (h : '!' ∉ s) (rest : List Char) :
    splitNe (s ++ '!' :: '=' :: rest) = s :: splitNe rest := by
  induction s with
  | nil => rfl
  | cons c s ih =>
    rw [List.mem_cons, not_or] at h
    rw [List.cons_append, splitNe.eq_3 c _ fun cs hc _ => h.1 hc.symm, ih h.2]

theorem Arch.isPlain {arch : Arch} {special : List Char}
    (hspecial : ∀ d ∈ special, ¬ (d.isAlphanum || d = '-' || d = '_')) :
    ∀ c ∈ arch.text, isPlain special c := by
  intro c hc
  have hspace : isSpace c = false := by
    rw [Bool.eq_false_iff]
    intro h
    simp only [isSpace, Bool.or_eq_true, decide_eq_true_eq] at h
    rcases h with ((((rfl | rfl) | rfl) | rfl) | rfl) | rfl <;>
      exact absurd (arch.plain _ hc) (by decide)
  have hnul : c ≠ Bash.nul := by
    rintro rfl
    exact absurd (arch.plain _ hc) (by decide)
  have hnot : c ∉ special := fun h => hspecial c h (arch.plain c hc)
  simp [GardenInit.isPlain, hspace, hnul, hnot]

theorem Arch.isOperandChar {arch : Arch} : ∀ c ∈ arch.text, isOperandChar c :=
  Arch.isPlain (by simp)

theorem Arch.isPackageChar {arch : Arch} : ∀ c ∈ arch.text, isPackageChar c :=
  Arch.isPlain (by simp)

variable {number : List Char → Option ℚ}

theorem operand_notMem (arch : Arch) (o : Operand) {d : Char} (hd : isOperandChar d = false) :
    d ∉ spell arch.text o.pieces := by
  intro h
  have hplain := forall_mem_operand Arch.isOperandChar (fun c hc => hc) o d h
  rw [hd] at hplain
  cases hplain

theorem package_notMem (arch : Arch) (p : Package) {d : Char} (hd : isPackageChar d = false) :
    d ∉ spell arch.text p.pieces := by
  intro h
  have hplain := forall_mem_package Arch.isPackageChar (fun c hc => hc) p d h
  rw [hd] at hplain
  cases hplain

theorem filter_spaces {keep : Char → Bool} (hkeep : keep ' ' = false) (n : ℕ) :
    (spaces n).filter keep = [] := by
  rw [List.filter_eq_nil_iff]
  intro c hc
  rw [List.eq_of_mem_replicate hc, hkeep]
  decide

/-- What awk compares in a condition. -/
theorem filter_body (arch : Arch) (cond : Condition) (k : ℕ) :
    (spaces k ++ '[' :: cond.body arch.text).filter (fun c => c ≠ ' ' ∧ c ≠ '[' ∧ c ≠ ']') =
      spell arch.text cond.left.pieces ++
        ((if cond.negated then ['!', '='] else ['=']) ++ spell arch.text cond.right.pieces) := by
  have hspaces : ∀ n, (spaces n).filter (fun c => c ≠ ' ' ∧ c ≠ '[' ∧ c ≠ ']') = [] :=
    filter_spaces (by decide)
  have hoperand : ∀ o : Operand,
      (spell arch.text o.pieces).filter (fun c => c ≠ ' ' ∧ c ≠ '[' ∧ c ≠ ']') =
        spell arch.text o.pieces := by
    intro o
    rw [List.filter_eq_self]
    intro c hc
    refine decide_eq_true ⟨?_, ?_, ?_⟩
    all_goals
      rintro rfl
      exact operand_notMem arch o (by decide) hc
  have hoperator : (if cond.negated then ['!', '='] else ['=']).filter
      (fun c => c ≠ ' ' ∧ c ≠ '[' ∧ c ≠ ']') = if cond.negated then ['!', '='] else ['='] := by
    split <;> decide
  rw [List.filter_append, hspaces, List.nil_append, List.filter_cons_of_neg (by decide)]
  simp only [Condition.body, List.filter_append, hspaces, hoperand, hoperator, List.nil_append,
    List.append_nil]

theorem rejects_body (arch : Arch) (cond : Condition) (k : ℕ) :
    rejects number (spaces k ++ '[' :: cond.body arch.text) = !cond.holds number arch := by
  have hleft : ∀ {d}, isOperandChar d = false → d ∉ spell arch.text cond.left.pieces :=
    fun hd => operand_notMem arch cond.left hd
  have hright : ∀ {d}, isOperandChar d = false → d ∉ spell arch.text cond.right.pieces :=
    fun hd => operand_notMem arch cond.right hd
  simp only [rejects, filter_body, Condition.holds]
  cases cond.negated with
  | true =>
    have hsplit : splitNe (spell arch.text cond.left.pieces ++
        '!' :: '=' :: spell arch.text cond.right.pieces) =
          [spell arch.text cond.left.pieces, spell arch.text cond.right.pieces] := by
      rw [splitNe_append (hleft (by decide)), splitNe_of_notMem (hright (by decide))]
    simp [hsplit]
  | false =>
    have hwhole : splitNe (spell arch.text cond.left.pieces ++
        '=' :: spell arch.text cond.right.pieces) =
          [spell arch.text cond.left.pieces ++ '=' :: spell arch.text cond.right.pieces] := by
      refine splitNe_of_notMem ?_
      simp [hleft (show isOperandChar '!' = false by decide),
        hright (show isOperandChar '!' = false by decide)]
    have hsplit : (spell arch.text cond.left.pieces ++
        '=' :: spell arch.text cond.right.pieces).splitOn '=' =
          [spell arch.text cond.left.pieces, spell arch.text cond.right.pieces] := by
      rw [List.splitOn_append_cons_self_of_not_mem (hleft (by decide)),
        List.splitOn_eq_singleton (hright (by decide))]
    simp [hwhole, hsplit]

theorem bracket_notMem_spaces (k : ℕ) : ']' ∉ spaces k := fun hmem =>
  absurd (List.eq_of_mem_replicate hmem) (by decide)

/-- A line without conditions loses its blanks. -/
theorem filterIfLine_package (arch : Arch) (package : Package) (k : ℕ) :
    filterIfLine number (spaces k ++ spell arch.text package.pieces) =
      some (spell arch.text package.pieces) := by
  have hname : (spell arch.text package.pieces).filter (· ≠ ' ') = spell arch.text package.pieces := by
    rw [List.filter_eq_self]
    intro c hc
    refine decide_eq_true ?_
    rintro rfl
    exact package_notMem arch package (by decide) hc
  have hplain : ']' ∉ spaces k ++ spell arch.text package.pieces := by
    rw [List.mem_append, not_or]
    exact ⟨bracket_notMem_spaces k, package_notMem arch package (by decide)⟩
  have hfilter : (spaces k ++ spell arch.text package.pieces).filter (· ≠ ' ') =
      spell arch.text package.pieces := by
    rw [List.filter_append, filter_spaces (by decide), hname, List.nil_append]
  rw [filterIfLine, List.splitOn_eq_singleton hplain]
  exact congrArg some hfilter

/-- The first bracket of a line is that of its first condition. -/
theorem splitOn_render_cons (arch : Arch) (cond : Condition) (conditions : List Condition)
    (package : Package) (k : ℕ) :
    (spaces k ++ render arch.text (cond :: conditions) package).splitOn ']' =
      (spaces k ++ '[' :: cond.body arch.text) ::
        (spaces cond.after ++ render arch.text conditions package).splitOn ']' := by
  have hbody : ']' ∉ spaces k ++ '[' :: cond.body arch.text := by
    have hoperand : ∀ c, isOperandChar c → c ≠ ']' := by
      rintro c hc rfl
      exact absurd hc (by decide)
    have hchars : ∀ c ∈ cond.body arch.text, c ≠ ']' :=
      forall_mem_body (fun c hc => hoperand c (Arch.isOperandChar c hc)) (by simp) hoperand cond
    simp only [List.mem_append, List.mem_cons, not_or]
    exact ⟨bracket_notMem_spaces k, by decide, fun hmem => hchars _ hmem rfl⟩
  rw [← List.splitOn_append_cons_self_of_not_mem hbody]
  simp [render]

/-- A line whose conditions hold becomes the name of its package. -/
theorem filterIfLine_render (arch : Arch) (conditions : List Condition) (package : Package) (k : ℕ) :
    filterIfLine number (spaces k ++ render arch.text conditions package) =
      if conditions.all (Condition.holds number arch) then some (spell arch.text package.pieces)
      else none := by
  induction conditions generalizing k with
  | nil => exact filterIfLine_package arch package k
  | cons cond conditions ih =>
    have hsplit := splitOn_render_cons arch cond conditions package k
    have ih := ih cond.after
    obtain ⟨field, fields, hfields⟩ := List.exists_cons_of_ne_nil
      (List.splitOn_ne_nil ']' (spaces cond.after ++ render arch.text conditions package))
    unfold filterIfLine at ih ⊢
    rw [hfields] at hsplit
    simp only [hfields] at ih
    simp only [hsplit, List.dropLast_cons_of_ne_nil (List.cons_ne_nil field fields), List.any_cons,
      rejects_body, List.all_cons]
    by_cases hholds : cond.holds number arch
    · simp only [hholds, Bool.not_true, Bool.false_or, Bool.true_and, ← ih]
      rfl
    · simp [hholds]

end GardenInit
