import Std.Data.String.ToInt
import GardenLinux.Lib.TextFilter
import GardenLinux.Glci.Epoch

/-!
# The readers of the file `VERSION`

`_parse_version_from_workingtree`, `gardenlinux_epoch_from_workingtree` and
`next_release_version_from_workingtree` of `ci/glci/model.py` take the first line that is not a
comment; `bin/garden-version` without an argument takes all such lines at once.

What is proved here:

* `parseVersion_ok_iff` and `epochFromWorkingtree_ok_iff` — what Python reads;
* `gardenVersionOfFile_ok_iff` — what `garden-version` prints, which for the number of a version is
  nothing, since its output is not set;
* `readersAgree_iff` — the files on which they agree.
-/

namespace Glci

open TextFilter

/-! ## Python -/

/-- `str.isspace`. -/
def isPySpace (c : Char) : Bool :=
  let n := c.toNat
  (9 ≤ n && n ≤ 13) || (28 ≤ n && n ≤ 32) || n = 133 || n = 160 || n = 5760 ||
    (8192 ≤ n && n ≤ 8202) || n = 8232 || n = 8233 || n = 8239 || n = 8287 || n = 12288

/-- `str.strip`. -/
def pyStrip (s : List Char) : List Char := (s.dropWhile isPySpace).rdropWhile isPySpace

/-- The zeros of the decimal digits. -/
def decimalZeros : List ℕ :=
  [0x30, 0x660, 0x6F0, 0x7C0, 0x966, 0x9E6, 0xA66, 0xAE6, 0xB66, 0xBE6, 0xC66, 0xCE6, 0xD66, 0xDE6,
    0xE50, 0xED0, 0xF20, 0x1040, 0x1090, 0x17E0, 0x1810, 0x1946, 0x19D0, 0x1A80, 0x1A90, 0x1B50,
    0x1BB0, 0x1C40, 0x1C50, 0xA620, 0xA8D0, 0xA900, 0xA9D0, 0xA9F0, 0xAA50, 0xABF0, 0xFF10, 0x104A0,
    0x10D30, 0x11066, 0x110F0, 0x11136, 0x111D0, 0x112F0, 0x11450, 0x114D0, 0x11650, 0x116C0,
    0x11730, 0x118E0, 0x11950, 0x11C50, 0x11D50, 0x11DA0, 0x16A60, 0x16B50, 0x1D7CE, 0x1D7D8,
    0x1D7E2, 0x1D7EC, 0x1D7F6, 0x1E140, 0x1E2F0, 0x1E950, 0x1FBF0]

def pyDigit (c : Char) : Option ℕ :=
  (decimalZeros.find? fun z => z ≤ c.toNat && c.toNat < z + 10).map (c.toNat - ·)

/-- The rest of the digits of a number, with single underscores between digits. -/
def pyDigitsFrom (n : ℕ) : List Char → Option ℕ
  | [] => some n
  | '_' :: c :: cs => (pyDigit c).bind fun d => pyDigitsFrom (n * 10 + d) cs
  | c :: cs => (pyDigit c).bind fun d => pyDigitsFrom (n * 10 + d) cs

def pyDigits : List Char → Option ℕ
  | [] => none
  | c :: cs => (pyDigit c).bind fun d => pyDigitsFrom d cs

/-- `int`. -/
def pyInt (s : List Char) : Option ℤ :=
  match pyStrip s with
  | '-' :: digits => (pyDigits digits).map (-Int.ofNat ·)
  | '+' :: digits => (pyDigits digits).map Int.ofNat
  | digits => (pyDigits digits).map Int.ofNat

/-- The ends of lines of a file that is opened as a text. -/
def universalNewlines : List Char → List Char
  | [] => []
  | '\r' :: '\n' :: cs => '\n' :: universalNewlines cs
  | '\r' :: cs => '\n' :: universalNewlines cs
  | c :: cs => c :: universalNewlines cs

/-- `not (line := line.strip()) or line.startswith('#')`. -/
def isSkipped (line : List Char) : Bool := pyStrip line = [] || (pyStrip line).head? = some '#'

/-- A line without the comment at its end. -/
def versionStr (line : List Char) : List Char :=
  if '#' ∈ pyStrip line then pyStrip ((pyStrip line).takeWhile (· ≠ '#')) else pyStrip line

/-- The loop over the lines. -/
def parseVersionLines : List (List Char) → Except EpochError (List Char)
  | [] => .error .valueError
  | line :: rest => if isSkipped line then parseVersionLines rest else .ok (versionStr line)

/-- `_parse_version_from_workingtree`, for the content of the file. -/
def parseVersion (content : List Char) : Except EpochError (List Char) :=
  parseVersionLines (lines (universalNewlines content))

def versionToday : List Char := "today".toList

/-- `gardenlinux_epoch_from_workingtree`. -/
def gardenlinuxEpochFromWorkingtree (content : List Char) (epoch : ℤ) : Except EpochError ℤ := do
  let version ← parseVersion content
  match pyInt ((version.splitOn '.').headD []) with
  | some major => .ok major
  | none => if version = versionToday then .ok epoch else .error .valueError

/-- `next_release_version_from_workingtree`; for `today` it reads the default file. -/
def nextReleaseVersionFromWorkingtree (defaultContent content : List Char) (epoch : ℤ) :
    Except EpochError String := do
  let version ← parseVersion content
  if version = versionToday then do
    let epoch ← gardenlinuxEpochFromWorkingtree defaultContent epoch
    pure (toString epoch ++ ".0")
  else
    match version.splitOn '.' with
    | [epoch, patchlevel] =>
      if (pyInt epoch).isSome ∧ (pyInt patchlevel).isSome then .ok (String.ofList version)
      else .error .valueError
    | _ => .error .valueError

/-! ## Bash -/

/-- `sed -e "s/#.*\$//" -e "/^$/d"` of a line. -/
def withoutComment (line : List Char) : Option (List Char) :=
  let line := line.takeWhile (· ≠ '#')
  if line = [] then none else some line

/-- The text of the file without comments, each line without the white space around it. -/
def trimmedFile (content : List Char) : List Char :=
  let input := captured (unlines ((lines content).filterMap withoutComment))
  captured (unlines ((lines (input ++ ['\n'])).map trim))

/-- What `[ -z w₁ w₂ ... ]` says of several words, or of a word that is a pattern for names of
files: it depends on the files of the working directory. -/
abbrev WordTest := List (List Char) → Bool

/-- `[ -z ${input} ]`. -/
def testsEmpty (test : WordTest) (input : List Char) : Bool :=
  match words input with
  | [] => true
  | [word] => word.any (· ∈ ['*', '?', '[']) && test [word]
  | ws => test ws

/-- The input of `garden-version` without an argument. -/
def fileInput (test : WordTest) (content : List Char) : String :=
  if testsEmpty test (trimmedFile content) then "dev" else String.ofList (trimmedFile content)

/-- `garden-version` without an argument, in an environment without a variable `version`. -/
def gardenVersionOfFile (env : VersionEnv) (test : WordTest) (content : List Char)
    (typeout : Typeout) : Except VersionError String :=
  gardenVersion { env with versionFile := fileInput test content } typeout ""

/-! ## Agreement -/

/-- A version with a major and a minor number. -/
def IsMajorMinor (version : List Char) : Prop :=
  ∃ major minor, version = major ++ '.' :: minor ∧ (major ≠ [] ∧ ∀ c ∈ major, c.isDigit) ∧
    minor ≠ [] ∧ ∀ c ∈ minor, c.isDigit

/-- If one of the readers accepts the file, both do and find the same major version, and for a
version with two numbers the same minor version. -/
def ReadersAgree (env : VersionEnv) (test : WordTest) (epoch : ℤ) (content : List Char) : Prop :=
  ((∃ e, gardenlinuxEpochFromWorkingtree content epoch = .ok e) ∨
      ∃ out, gardenVersionOfFile env test content .default = .ok out) →
    ∃ e out, gardenlinuxEpochFromWorkingtree content epoch = .ok e ∧
      gardenVersionOfFile env test content .default = .ok out ∧
      gardenVersionOfFile env test content .major = .ok (toString e) ∧
      ∀ version, parseVersion content = .ok version → IsMajorMinor version →
        ∃ minor, gardenVersionOfFile env test content .minor = .ok minor ∧
          nextReleaseVersionFromWorkingtree content content epoch =
            .ok (toString e ++ "." ++ minor)

/-- The first line that is no comment. -/
def FirstLine (content version : List Char) : Prop :=
  ∃ before line after, lines (universalNewlines content) = before ++ line :: after ∧
    (∀ l ∈ before, isSkipped l) ∧ ¬ isSkipped line ∧ version = versionStr line

/-- What a version stands for in Python on the day of an epoch. -/
def StandsFor (epoch : ℤ) (version : List Char) (e : ℤ) : Prop :=
  pyInt ((version.splitOn '.').headD []) = some e ∨
    pyInt ((version.splitOn '.').headD []) = none ∧ version = versionToday ∧ e = epoch

/-- A text that `garden-version` takes as a version. -/
def isVersionNumber (input : String) : Bool :=
  input.toList.all (fun c => c.isDigit || c = '.') &&
    (bashNumber ((input.toList.splitOn '.').headD [])).any (· < 10000000)

/-- The time that another text stands for. -/
def timeOf (env : VersionEnv) (input : String) : Option ℤ :=
  if input = "dev" then some env.now else dateSeconds env input

/-! ## What Python reads -/

theorem parseVersionLines_ok_iff {ls : List (List Char)} {version : List Char} :
    parseVersionLines ls = .ok version ↔ ∃ before line after, ls = before ++ line :: after ∧
      (∀ l ∈ before, isSkipped l) ∧ ¬ isSkipped line ∧ version = versionStr line := by
  induction ls with
  | nil => simp [parseVersionLines]
  | cons l ls ih =>
    rw [parseVersionLines]
    by_cases hl : isSkipped l
    · rw [if_pos hl, ih]
      constructor
      · rintro ⟨before, line, after, rfl, hbefore, hline⟩
        exact ⟨l :: before, line, after, rfl, List.forall_mem_cons.2 ⟨hl, hbefore⟩, hline⟩
      · rintro ⟨before, line, after, heq, hbefore, hline, hversion⟩
        cases before with
        | nil =>
          obtain ⟨rfl, -⟩ := List.cons.inj heq
          exact absurd hl hline
        | cons l' before =>
          obtain ⟨-, rfl⟩ := List.cons.inj heq
          exact ⟨before, line, after, rfl, (List.forall_mem_cons.1 hbefore).2, hline, hversion⟩
    · rw [if_neg hl, Except.ok.injEq]
      constructor
      · rintro rfl
        exact ⟨[], l, ls, rfl, by simp, hl, rfl⟩
      · rintro ⟨before, line, after, heq, hbefore, -, rfl⟩
        cases before with
        | nil => rw [(List.cons.inj heq).1]
        | cons l' before =>
          obtain ⟨rfl, -⟩ := List.cons.inj heq
          exact absurd (hbefore l (List.mem_cons_self ..)) hl

theorem parseVersion_ok_iff {content version : List Char} :
    parseVersion content = .ok version ↔ FirstLine content version :=
  parseVersionLines_ok_iff

theorem epochFromWorkingtree_ok_iff {content : List Char} {epoch e : ℤ} :
    gardenlinuxEpochFromWorkingtree content epoch = .ok e ↔
      ∃ version, FirstLine content version ∧ StandsFor epoch version e := by
  simp only [← parseVersion_ok_iff]
  unfold gardenlinuxEpochFromWorkingtree
  cases hparse : parseVersion content with
  | error err => simp [bind, Except.bind]
  | ok version =>
    have hstands : (match pyInt ((version.splitOn '.').headD []) with
        | some major => Except.ok major
        | none => if version = versionToday then .ok epoch else .error .valueError :
        Except EpochError ℤ) = .ok e ↔ StandsFor epoch version e := by
      unfold StandsFor
      cases pyInt ((version.splitOn '.').headD []) with
      | some major => simp
      | none =>
        by_cases htoday : version = versionToday
        · simp [htoday, eq_comm]
        · simp [htoday]
    exact hstands.trans (by simp)

section Digits

theorem toNat_of_isDigit {c : Char} (hc : c.isDigit) : 48 ≤ c.toNat ∧ c.toNat ≤ 57 :=
  Char.isDigit_iff_toNat.1 hc

theorem isPySpace_of_isDigit {c : Char} (hc : c.isDigit) : isPySpace c = false := by
  have hrange := toNat_of_isDigit hc
  rw [Bool.eq_false_iff]
  intro hspace
  simp only [isPySpace, Bool.or_eq_true, Bool.and_eq_true, decide_eq_true_eq] at hspace
  omega

theorem pyDigit_of_isDigit {c : Char} (hc : c.isDigit) : pyDigit c = some (c.toNat - 48) := by
  have hrange := toNat_of_isDigit hc
  have hfind : decimalZeros.find? (fun z => z ≤ c.toNat && c.toNat < z + 10) = some 48 := by
    refine List.find?_cons_of_pos ?_
    simp only [Bool.and_eq_true, decide_eq_true_eq]
    omega
  rw [pyDigit, hfind, Option.map_some]

theorem pyDigitsFrom_eq_ofDigitChars {digits : List Char} (h : ∀ c ∈ digits, c.isDigit) (n : ℕ) :
    pyDigitsFrom n digits = some (Nat.ofDigitChars 10 digits n) := by
  induction digits generalizing n with
  | nil => simp [pyDigitsFrom]
  | cons c digits ih =>
    rw [List.forall_mem_cons] at h
    have hc : c ≠ '_' := by
      rintro rfl
      exact absurd h.1 (by decide)
    rw [pyDigitsFrom.eq_3 n c digits fun _ _ hunderscore _ => hc hunderscore,
      pyDigit_of_isDigit h.1, Option.bind_some, ih h.2, Nat.ofDigitChars_cons, Nat.mul_comm n 10]
    rfl

theorem pyDigits_eq_ofDigitChars {digits : List Char} (hne : digits ≠ [])
    (h : ∀ c ∈ digits, c.isDigit) : pyDigits digits = some (Nat.ofDigitChars 10 digits 0) := by
  cases digits with
  | nil => exact absurd rfl hne
  | cons c digits =>
    rw [List.forall_mem_cons] at h
    rw [pyDigits, pyDigit_of_isDigit h.1, Option.bind_some, pyDigitsFrom_eq_ofDigitChars h.2,
      Nat.ofDigitChars_cons, Nat.mul_zero, Nat.zero_add]
    rfl

theorem pyStrip_of_digits {digits : List Char} (h : ∀ c ∈ digits, c.isDigit) :
    pyStrip digits = digits := by
  have hdrop : digits.dropWhile isPySpace = digits := by
    cases digits with
    | nil => rfl
    | cons c digits =>
      rw [List.dropWhile_cons_of_neg]
      rw [isPySpace_of_isDigit (h c (List.mem_cons_self ..))]
      decide
  rw [pyStrip, hdrop, List.rdropWhile_eq_self_iff]
  intro hne
  rw [isPySpace_of_isDigit (h _ (List.getLast_mem hne))]
  decide

/-- What is no sign and no white space is read as digits. -/
theorem pyInt_eq_pyDigits {c : Char} {s : List Char} (hstrip : pyStrip (c :: s) = c :: s)
    (hminus : c ≠ '-') (hplus : c ≠ '+') : pyInt (c :: s) = (pyDigits (c :: s)).map Int.ofNat := by
  rw [pyInt, hstrip]
  split
  · next heq => exact absurd (List.cons.inj heq).1 hminus
  · next heq => exact absurd (List.cons.inj heq).1 hplus
  · rfl

/-- Digits are read as their number. -/
theorem pyInt_of_digits {digits : List Char} (hne : digits ≠ []) (h : ∀ c ∈ digits, c.isDigit) :
    pyInt digits = some (Nat.ofDigitChars 10 digits 0 : ℤ) := by
  cases digits with
  | nil => exact absurd rfl hne
  | cons c digits =>
    have hc := h c (List.mem_cons_self ..)
    rw [pyInt_eq_pyDigits (pyStrip_of_digits h) (by rintro rfl; exact absurd hc (by decide))
      (by rintro rfl; exact absurd hc (by decide)), pyDigits_eq_ofDigitChars hne h]
    rfl

end Digits

/-- A version with two numbers is a release version. -/
theorem nextRelease_of_majorMinor {content version : List Char} (epoch : ℤ)
    (hfirst : FirstLine content version) (h : IsMajorMinor version) :
    nextReleaseVersionFromWorkingtree content content epoch = .ok (String.ofList version) := by
  rw [← parseVersion_ok_iff] at hfirst
  obtain ⟨major, minor, rfl, ⟨hmajor, hmajors⟩, hminor, hminors⟩ := h
  have hdot : ∀ {digits : List Char}, (∀ c ∈ digits, c.isDigit) → '.' ∉ digits :=
    fun h hmem => absurd (h _ hmem) (by decide)
  have hsplit : (major ++ '.' :: minor).splitOn '.' = [major, minor] := by
    rw [List.splitOn_append_cons_self_of_not_mem (hdot hmajors),
      List.splitOn_eq_singleton (hdot hminors)]
  have htoday : major ++ '.' :: minor ≠ versionToday := by
    intro heq
    have hmem : '.' ∈ versionToday := heq ▸ (by simp)
    exact absurd hmem (by decide)
  unfold nextReleaseVersionFromWorkingtree
  rw [hfirst]
  show (if major ++ '.' :: minor = versionToday then _ else _) = _
  rw [if_neg htoday, hsplit]
  have hmajorInt : (pyInt major).isSome := by rw [pyInt_of_digits hmajor hmajors]; rfl
  have hminorInt : (pyInt minor).isSome := by rw [pyInt_of_digits hminor hminors]; rfl
  exact if_pos ⟨hmajorInt, hminorInt⟩

/-! ## What `garden-version` prints -/

variable {env : VersionEnv} {test : WordTest} {content : List Char}

theorem fileInput_ne_empty : fileInput test content ≠ "" := by
  unfold fileInput
  split
  · decide
  · next h =>
    intro hempty
    have hnil : trimmedFile content = [] := by
      rw [← String.toList_ofList (l := trimmedFile content), hempty]
      rfl
    exact h (by rw [hnil]; rfl)

/-- The output is not set for the number of a version. -/
theorem version_of_isVersionNumber {input : String} (h : isVersionNumber input)
    {v : GardenVersion} (hv : versionOf env input = .ok v) : v.version = none := by
  rw [isVersionNumber, Bool.and_eq_true] at h
  unfold versionOf at hv
  simp only [if_pos h] at hv
  split at hv
  · cases hv
  · rw [← Except.ok.inj hv]

/-- The days of a text that is not the number of a version. -/
theorem versionOf_of_not_isVersionNumber {input : String} (h : ¬ isVersionNumber input) :
    versionOf env input =
      match timeOf env input with
      | none => .error (.usage ("invalid date " ++ input))
      | some s => .ok ⟨toString (daysSinceStart s), some (daysSinceStart s), "0",
          some (if input = "dev" then "dev" else toString (daysSinceStart s) ++ "." ++ "0")⟩ := by
  rw [isVersionNumber, Bool.and_eq_true] at h
  unfold versionOf timeOf
  simp only [if_neg h]
  by_cases hdev : input = "dev"
  · simp only [if_pos hdev]
  · cases dateSeconds env input with
    | none => simp only [if_neg hdev]
    | some s => simp only [if_neg hdev]

theorem versionOf_versionFile (text input : String) :
    versionOf { env with versionFile := text } input = versionOf env input := rfl

/-- Without an argument the text of the file is the argument. -/
theorem gardenVersionOfFile_eq (typeout : Typeout) :
    gardenVersionOfFile env test content typeout =
      gardenVersion env typeout (fileInput test content) := by
  unfold gardenVersionOfFile gardenVersion
  simp only [if_true, if_neg fileInput_ne_empty, versionOf_versionFile]

/-- What is printed for a text that stands for a time. -/
theorem gardenVersionOfFile_of_time {s : ℤ} (h : ¬ isVersionNumber (fileInput test content))
    (hs : timeOf env (fileInput test content) = some s) :
    (∃ out, gardenVersionOfFile env test content .default = .ok out) ∧
      gardenVersionOfFile env test content .major = .ok (toString (daysSinceStart s)) ∧
      gardenVersionOfFile env test content .minor = .ok "0" := by
  have hversion : versionOf env (fileInput test content) = _ := versionOf_of_not_isVersionNumber h
  rw [hs] at hversion
  simp only [gardenVersionOfFile_eq]
  unfold gardenVersion
  simp only [if_neg fileInput_ne_empty, hversion]
  exact ⟨⟨_, rfl⟩, rfl, rfl⟩

theorem gardenVersion_default_ok_iff {input version : String} (hne : input ≠ "") :
    gardenVersion env .default input = .ok version ↔
      ∃ v, versionOf env input = .ok v ∧ v.version = some version := by
  unfold gardenVersion
  simp only [if_neg hne]
  cases versionOf env input with
  | error e => simp [bind, Except.bind]
  | ok v =>
    cases hversion : v.version with
    | none => simp [bind, Except.bind, hversion]
    | some text => simp [bind, Except.bind, pure, Except.pure, hversion]

/-- A version is printed for a time only. -/
theorem versionOf_printed_iff {input version : String} :
    (∃ v, versionOf env input = .ok v ∧ v.version = some version) ↔
      ¬ isVersionNumber input ∧ ∃ s, timeOf env input = some s ∧
        version = if input = "dev" then "dev" else toString (daysSinceStart s) ++ "." ++ "0" := by
  by_cases hnumber : isVersionNumber input
  · simp only [hnumber, not_true_eq_false, false_and, iff_false]
    rintro ⟨v, hv, hversion⟩
    rw [version_of_isVersionNumber hnumber hv] at hversion
    cases hversion
  · rw [versionOf_of_not_isVersionNumber hnumber]
    cases timeOf env input with
    | none => simp
    | some s => simp [hnumber, eq_comm]

/-- `garden-version` without an argument and a flag prints something for a text that is not the
number of a version and that stands for a time. -/
theorem gardenVersionOfFile_ok_iff :
    (∃ out, gardenVersionOfFile env test content .default = .ok out) ↔
      ¬ isVersionNumber (fileInput test content) ∧
        ∃ s, timeOf env (fileInput test content) = some s := by
  simp only [gardenVersionOfFile_eq, gardenVersion_default_ok_iff fileInput_ne_empty,
    versionOf_printed_iff]
  constructor
  · rintro ⟨out, hnot, s, hs, -⟩
    exact ⟨hnot, s, hs⟩
  · rintro ⟨hnot, s, hs⟩
    exact ⟨_, hnot, s, hs, rfl⟩

/-! ## Agreement -/

/-- Both readers find the same day, or both find nothing.  The first one reads the first line, which
is a number or `today`; the other one reads all lines as a time, which must not be the number of a
version. -/
def SameReading (env : VersionEnv) (test : WordTest) (epoch : ℤ) (content : List Char) : Prop :=
  (∃ version s, FirstLine content version ∧ StandsFor epoch version (daysSinceStart s) ∧
      ¬ isVersionNumber (fileInput test content) ∧ timeOf env (fileInput test content) = some s ∧
      (IsMajorMinor version → version = (toString (daysSinceStart s) ++ "." ++ "0").toList)) ∨
    (∀ version e, FirstLine content version → ¬ StandsFor epoch version e) ∧
      (isVersionNumber (fileInput test content) ∨ timeOf env (fileInput test content) = none)

theorem sameReading_of_readersAgree {epoch : ℤ} (h : ReadersAgree env test epoch content) :
    SameReading env test epoch content := by
  unfold ReadersAgree at h
  rw [gardenVersionOfFile_ok_iff] at h
  simp only [epochFromWorkingtree_ok_iff] at h
  by_cases haccept : (∃ e version, FirstLine content version ∧ StandsFor epoch version e) ∨
      ¬ isVersionNumber (fileInput test content) ∧
        ∃ s, timeOf env (fileInput test content) = some s
  · obtain ⟨e, out, ⟨version, hfirst, hstands⟩, hdefault, hmajor, hminor⟩ := h haccept
    obtain ⟨hnot, s, hs⟩ := gardenVersionOfFile_ok_iff.1 ⟨out, hdefault⟩
    obtain ⟨-, hdays, hzero⟩ := gardenVersionOfFile_of_time hnot hs
    have he : e = daysSinceStart s := Int.repr_injective (Except.ok.inj (hmajor.symm.trans hdays))
    subst he
    refine Or.inl ⟨version, s, hfirst, hstands, hnot, hs, fun hform => ?_⟩
    obtain ⟨minor, hminor, hnext⟩ := hminor version (parseVersion_ok_iff.2 hfirst) hform
    rw [nextRelease_of_majorMinor epoch hfirst hform, Except.ok.injEq] at hnext
    rw [hzero, Except.ok.injEq] at hminor
    rw [hminor, ← hnext, String.toList_ofList]
  · obtain ⟨hpython, hbash⟩ := not_or.1 haccept
    refine Or.inr ⟨fun version e hfirst hstands => hpython ⟨e, version, hfirst, hstands⟩, ?_⟩
    by_cases hnumber : isVersionNumber (fileInput test content)
    · exact Or.inl hnumber
    · exact Or.inr (Option.eq_none_iff_forall_ne_some.2 fun s hs => hbash ⟨hnumber, s, hs⟩)

theorem readersAgree_of_sameReading {epoch : ℤ} (h : SameReading env test epoch content) :
    ReadersAgree env test epoch content := by
  intro haccept
  rcases h with ⟨version, s, hfirst, hstands, hnot, hs, hform⟩ | ⟨hpython, hbash⟩
  · obtain ⟨⟨out, hdefault⟩, hmajor, hminor⟩ := gardenVersionOfFile_of_time hnot hs
    refine ⟨_, out, epochFromWorkingtree_ok_iff.2 ⟨version, hfirst, hstands⟩, hdefault, hmajor, ?_⟩
    intro version' hparse hform'
    obtain rfl : version = version' :=
      Except.ok.inj ((parseVersion_ok_iff.2 hfirst).symm.trans hparse)
    refine ⟨"0", hminor, ?_⟩
    rw [nextRelease_of_majorMinor epoch hfirst hform', hform hform', String.ofList_toList]
  · exfalso
    rcases haccept with ⟨e, he⟩ | hout
    · obtain ⟨version, hfirst, hstands⟩ := epochFromWorkingtree_ok_iff.1 he
      exact hpython version e hfirst hstands
    · obtain ⟨hnot, s, hs⟩ := gardenVersionOfFile_ok_iff.1 hout
      rcases hbash with hnumber | hnone
      · exact hnot hnumber
      · rw [hnone] at hs
        cases hs

/-- A time of a day. -/
def OnDay (d : Calendar.Date) (now : ℤ) : Prop :=
  secondsOf d.ordinal ≤ now ∧ now < secondsOf (d.ordinal + 1)

/-- Python's epoch of a day is what bash counts to a time of that day. -/
theorem epoch_eq_daysSinceStart {today : DateTime} {isoparse : String → Except EpochError DateTime}
    {epoch now : ℤ} (hepoch : gardenlinuxEpoch today isoparse none = .ok epoch)
    (hday : OnDay today.date now) : epoch = daysSinceStart now := by
  have hstart := ordinal_startdate
  have hfirst := ordinal_epochDate
  unfold gardenlinuxEpoch at hepoch
  simp only [pure_bind, timedeltaDays_sub today epochDate rfl] at hepoch
  split at hepoch
  · cases hepoch
  · next hpos =>
    obtain rfl := Except.ok.inj hepoch
    unfold OnDay secondsOf at hday
    unfold daysSinceStart secondsOf
    rw [hfirst] at hpos ⊢
    rw [hstart]
    generalize today.date.ordinal = ordinal at *
    rw [Int.tdiv_eq_ediv_of_nonneg (by omega)]
    omega

/-- On one day, the readers agree on a file if and only if they read the same day or nothing. -/
theorem readersAgree_iff (env : VersionEnv) (test : WordTest) (content : List Char)
    {today : DateTime} {isoparse : String → Except EpochError DateTime} {epoch : ℤ}
    (hepoch : gardenlinuxEpoch today isoparse none = .ok epoch) (hday : OnDay today.date env.now) :
    ReadersAgree env test epoch content ↔ SameReading env test (daysSinceStart env.now) content := by
  rw [epoch_eq_daysSinceStart hepoch hday]
  exact ⟨sameReading_of_readersAgree, readersAgree_of_sameReading⟩

/-- The first of April 2020, at noon, on a machine that understands `today`. -/
def firstDay : VersionEnv where
  versionFile := ""
  now := 1585742400
  dateOther input := if input = "today" then some 1585742400 else none
  gitHead := ""

theorem readersAgree_iff_today :
    ReadersAgree firstDay (fun _ => false) 1 "today # or a version\n".toList :=
  (readersAgree_iff firstDay (fun _ => false) "today # or a version\n".toList
    (show gardenlinuxEpoch epochDate (fun _ => .error .valueError) none = .ok 1 by decide +kernel)
    ⟨by decide +kernel, by decide +kernel⟩).2
    (Or.inl ⟨versionToday, 1585742400, parseVersion_ok_iff.1 (by decide +kernel),
      Or.inr ⟨by decide +kernel, rfl, rfl⟩, by decide +kernel, by decide +kernel, by
        rintro ⟨major, minor, heq, -⟩
        have hmem : '.' ∈ versionToday := heq ▸ (by simp)
        exact absurd hmem (by decide)⟩)

/-- The number of a version is read by Python, but not printed by `garden-version`. -/
theorem not_readersAgree_of_isVersionNumber {version : List Char} {epoch e : ℤ}
    (hfirst : FirstLine content version) (hstands : StandsFor epoch version e)
    (hnumber : isVersionNumber (fileInput test content)) :
    ¬ ReadersAgree env test epoch content := by
  intro h
  rcases sameReading_of_readersAgree h with ⟨-, -, -, -, hnot, -⟩ | ⟨hpython, -⟩
  · exact hnot hnumber
  · exact hpython version e hfirst hstands

/-- The end of the file of the repository, before which there are comments only. -/
def shippedVersion : List Char := "# use `dev` to build against latest\ndev\n".toList

/-- `garden-version` accepts `dev`, Python does not. -/
theorem readersAgree_fails :
    ¬ ∀ (env : VersionEnv) (test : WordTest) (content : List Char) (today : DateTime)
        (isoparse : String → Except EpochError DateTime) (epoch : ℤ),
      gardenlinuxEpoch today isoparse none = .ok epoch → OnDay today.date env.now →
        ReadersAgree env test epoch content := by
  intro h
  have hagree := h firstDay (fun _ => false) shippedVersion epochDate (fun _ => .error .valueError) 1
    (by decide +kernel) ⟨by decide +kernel, by decide +kernel⟩
  have hbash : gardenVersionOfFile firstDay (fun _ => false) shippedVersion .default = .ok "dev" := by
    decide +kernel
  have hpython : gardenlinuxEpochFromWorkingtree shippedVersion 1 = .error .valueError := by
    decide +kernel
  obtain ⟨e, -, he, -⟩ := hagree (Or.inr ⟨_, hbash⟩)
  rw [hpython] at he
  cases he

end Glci
