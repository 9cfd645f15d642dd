import GardenLinux.Glci.NextRelease

/-!
# The version that `garden-version` prints as its own parameter

`build.sh` hands the output of `bin/garden-version` to `garden-build`, which calls `garden-version`
with it again.

What is proved here:

* `run_of_word` — what is printed is taken as it is, without white space to cut off;
* `printedAgain_iff` — the parameters and files for which the output stands for the same version.
-/

namespace Glci

open TextFilter

/-! ## Two runs -/

/-- `sed "s/^[[:space:]]*//;s/[[:space:]]*\$//" <<< ${input}`. -/
def trimmed (input : List Char) : List Char :=
  captured (unlines ((lines (input ++ ['\n'])).map trim))

/-- `input` for the parameter that `getopt` leaves, or else for the file `VERSION`. -/
def givenInput (test : WordTest) (content arg : List Char) : String :=
  if arg = [] then fileInput test content
  else if testsEmpty test (trimmed arg) then "dev" else String.ofList (trimmed arg)

/-- `garden-version` in an environment without a variable `version`. -/
def gardenVersionRun (env : VersionEnv) (test : WordTest) (content arg : List Char)
    (typeout : Typeout) : Except VersionError String :=
  gardenVersion env typeout (givenInput test content arg)

/-- The input is understood. -/
def Accepts (env : VersionEnv) (test : WordTest) (content arg : List Char) : Prop :=
  ∃ major, gardenVersionRun env test content arg .major = .ok major

/-- A version is printed that is accepted and printed again, and that stands for the same. -/
def PrintedAgain (env : VersionEnv) (test : WordTest) (content arg : List Char) : Prop :=
  ∃ version, gardenVersionRun env test content arg .default = .ok version ∧
    gardenVersionRun env test content version.toList .default = .ok version ∧
    ∀ typeout ∈ [Typeout.major, .minor, .date, .epoch],
      gardenVersionRun env test content version.toList typeout =
        gardenVersionRun env test content arg typeout

/-- The version of a day. -/
def dayVersion (days : ℤ) : String := toString days ++ "." ++ "0"

/-- The input is a text for `date`, which understands the version of the day as the same day. -/
def KeepsDay (env : VersionEnv) (input : String) : Prop :=
  ¬ isVersionNumber input ∧ ∃ s s', dateSeconds env input = some s ∧
    ¬ isVersionNumber (dayVersion (daysSinceStart s)) ∧
    dateSeconds env (dayVersion (daysSinceStart s)) = some s' ∧
    daysSinceStart s' = daysSinceStart s

/-! ## The input of the second run -/

/-- The characters of the output. -/
def isOutputChar (c : Char) : Bool := c.isDigit || c ∈ ['-', '.', 'd', 'e', 'v']

section Words

variable {test : WordTest} {content : List Char}

/-- It is none of the characters that are cut off, that separate words or that make a pattern. -/
theorem notMem_of_isOutputChar {c : Char} (hc : isOutputChar c) :
    c ∉ [' ', '\t', '\n', Char.ofNat 11, Char.ofNat 12, '\r', Bash.nul, '*', '?', '['] := by
  intro hmem
  have hnone : ∀ d ∈ [' ', '\t', '\n', Char.ofNat 11, Char.ofNat 12, '\r', Bash.nul, '*', '?', '['],
      ¬ isOutputChar d := by
    simp only [List.forall_mem_cons]
    simp [isOutputChar, Bash.nul]
  exact hnone c hmem hc

theorem isSpace_of_isOutputChar {c : Char} (hc : isOutputChar c) :
    TextFilter.isSpace c = false := by
  have hne := notMem_of_isOutputChar hc
  simp only [List.mem_cons, not_or] at hne
  simp [TextFilter.isSpace, hne]

theorem isBlank_of_isOutputChar {c : Char} (hc : isOutputChar c) : Bash.isBlank c = false := by
  have hne := notMem_of_isOutputChar hc
  simp only [List.mem_cons, not_or] at hne
  simp [Bash.isBlank, hne]

/-- A text with an end that is no white space is not trimmed. -/
theorem trimmed_of_isOutputChar {s : List Char} (h : ∀ c ∈ s, isOutputChar c) : trimmed s = s := by
  have hne : ∀ d, d ∈ s → d ≠ '\n' ∧ d ≠ Bash.nul := by
    intro d hd
    have hnot := notMem_of_isOutputChar (h d hd)
    simp only [List.mem_cons, not_or] at hnot
    exact ⟨hnot.2.2.1, hnot.2.2.2.2.2.2.1⟩
  have hline : lines (s ++ ['\n']) = [s] :=
    lines_append_line (fun hmem => (hne _ hmem).1 rfl) []
  have htrim : trim s = s := by
    have happend : trim ([] ++ (s ++ [])) = s := trim_append (by simp) (by simp)
      (fun c hc => by simp [isSpace_of_isOutputChar (h c (List.mem_of_head? hc))])
      (fun c hc => by simp [isSpace_of_isOutputChar (h c (List.mem_of_getLast? hc))])
    simpa using happend
  have htext : unlines [s] = s ++ ['\n'] := by simp [unlines]
  rw [trimmed, hline, List.map_singleton, htrim, htext, captured_newline]
  refine captured_of_getLast (fun hmem => (hne _ hmem).2 rfl) fun hlast => ?_
  exact (hne _ (List.mem_of_getLast? hlast)).1 rfl

/-- A version is taken as it is. -/
theorem givenInput_of_word {s : String} (hne : s ≠ "") (h : ∀ c ∈ s.toList, isOutputChar c) :
    givenInput test content s.toList = s := by
  have hlist : s.toList ≠ [] := fun hnil => hne (String.toList_eq_nil_iff.1 hnil)
  have hword : words s.toList = [s.toList] :=
    words_word hlist fun c hc => isBlank_of_isOutputChar (h c hc)
  have hpattern : s.toList.any (· ∈ ['*', '?', '[']) = false := by
    rw [List.any_eq_false]
    intro c hc hmem
    have hnot := notMem_of_isOutputChar (h c hc)
    simp only [List.mem_cons, not_or] at hnot
    simp [hnot] at hmem
  have htest : testsEmpty test s.toList = false := by
    rw [testsEmpty, hword]
    simp only [hpattern, Bool.false_and]
  rw [givenInput, if_neg hlist, trimmed_of_isOutputChar h, htest, if_neg Bool.false_ne_true,
    String.ofList_toList]

theorem isOutputChar_dayVersion (days : ℤ) : ∀ c ∈ (dayVersion days).toList, isOutputChar c := by
  have hdigits : ∀ n : ℕ, ∀ c ∈ Nat.toDigits 10 n, isOutputChar c := by
    intro n c hc
    rw [isOutputChar, Text.isDigit_toDigits n c hc, Bool.true_or]
  intro c hc
  simp only [dayVersion, String.toList_append, List.mem_append] at hc
  rcases hc with (hdays | hdot) | hzero
  · cases days with
    | ofNat n =>
      rw [Int.ofNat_eq_natCast, Text.toList_toString_natCast] at hdays
      exact hdigits n c hdays
    | negSucc n =>
      rw [Text.toList_toString_negSucc] at hdays
      rcases List.mem_cons.1 hdays with rfl | hmem
      · decide
      · exact hdigits (n + 1) c hmem
  · rw [List.mem_singleton.1 hdot]
    decide
  · rw [List.mem_singleton.1 hzero]
    decide

theorem givenInput_dayVersion (days : ℤ) :
    givenInput test content (dayVersion days).toList = dayVersion days := by
  refine givenInput_of_word (fun hempty => ?_) (isOutputChar_dayVersion days)
  have hlength := congrArg String.length hempty
  simp [dayVersion] at hlength

theorem givenInput_dev : givenInput test content "dev".toList = "dev" :=
  givenInput_of_word (by decide) (List.all_eq_true.1 (by decide))

theorem givenInput_ne_empty {arg : List Char} : givenInput test content arg ≠ "" := by
  unfold givenInput
  split
  · exact fileInput_ne_empty
  · split
    · decide
    · next h =>
      intro hempty
      have hnil : trimmed arg = [] := by
        rw [← String.toList_ofList (l := trimmed arg), hempty]
        rfl
      exact h (by rw [hnil]; rfl)

end Words

/-! ## What is printed -/

variable {env : VersionEnv} {test : WordTest} {content arg : List Char}

/-- What is printed depends on the version only. -/
theorem gardenVersion_congr {input input' : String} (hne : input ≠ "") (hne' : input' ≠ "")
    (h : versionOf env input = versionOf env input') (typeout : Typeout) :
    gardenVersion env typeout input = gardenVersion env typeout input' := by
  unfold gardenVersion
  simp only [if_neg hne, if_neg hne', h]

theorem isVersionNumber_dev : isVersionNumber "dev" = false := by decide +kernel

theorem dayVersion_ne_dev (days : ℤ) : dayVersion days ≠ "dev" := by
  intro heq
  have hmem : '.' ∈ (dayVersion days).toList := by simp [dayVersion]
  rw [heq] at hmem
  exact absurd hmem (by decide)

theorem timeOf_of_ne_dev {input : String} (h : input ≠ "dev") :
    timeOf env input = dateSeconds env input := if_neg h

theorem dayVersion_injective {days days' : ℤ} (h : dayVersion days = dayVersion days') :
    days = days' := by
  have hlist := congrArg String.toList h
  simp only [dayVersion, String.toList_append, List.append_cancel_right_eq] at hlist
  exact Int.repr_injective (String.toList_inj.1 hlist)

/-- The first run, as it is read off the text and the time. -/
theorem run_default_ok_iff {version : String} :
    gardenVersionRun env test content arg .default = .ok version ↔
      ¬ isVersionNumber (givenInput test content arg) ∧
        ∃ s, timeOf env (givenInput test content arg) = some s ∧
          version = if givenInput test content arg = "dev" then "dev"
            else dayVersion (daysSinceStart s) :=
  (gardenVersion_default_ok_iff givenInput_ne_empty).trans versionOf_printed_iff

/-- What is printed is printed again if it is a version of the same days. -/
theorem printedAgain_of_versionOf {version : String}
    (hrun : gardenVersionRun env test content arg .default = .ok version)
    (hinput : givenInput test content version.toList = version)
    (hsame : versionOf env version = versionOf env (givenInput test content arg)) :
    PrintedAgain env test content arg := by
  have hagain : ∀ typeout, gardenVersionRun env test content version.toList typeout =
      gardenVersionRun env test content arg typeout := by
    intro typeout
    unfold gardenVersionRun
    rw [hinput]
    refine gardenVersion_congr ?_ givenInput_ne_empty hsame typeout
    exact hinput ▸ givenInput_ne_empty
  exact ⟨version, hrun, (hagain .default).trans hrun, fun typeout _ => hagain typeout⟩

theorem printedAgain_of_dev (h : givenInput test content arg = "dev") :
    PrintedAgain env test content arg := by
  have hrun : gardenVersionRun env test content arg .default = .ok "dev" := by
    rw [run_default_ok_iff, h]
    exact ⟨by simp [isVersionNumber_dev], env.now, rfl, rfl⟩
  exact printedAgain_of_versionOf hrun givenInput_dev (by rw [h])

theorem printedAgain_of_keepsDay (h : KeepsDay env (givenInput test content arg)) :
    PrintedAgain env test content arg := by
  obtain ⟨hnot, s, s', hs, hnot', hs', hdays⟩ := h
  by_cases hdev : givenInput test content arg = "dev"
  · exact printedAgain_of_dev hdev
  have htime := (timeOf_of_ne_dev hdev).trans hs
  have htime' := (timeOf_of_ne_dev (dayVersion_ne_dev (daysSinceStart s))).trans hs'
  have hrun : gardenVersionRun env test content arg .default =
      .ok (dayVersion (daysSinceStart s)) := by
    rw [run_default_ok_iff]
    exact ⟨hnot, s, htime, by rw [if_neg hdev]⟩
  refine printedAgain_of_versionOf hrun (givenInput_dayVersion _) ?_
  rw [versionOf_of_not_isVersionNumber hnot, versionOf_of_not_isVersionNumber hnot', htime, htime']
  simp only [hdays, if_neg hdev, if_neg (dayVersion_ne_dev _)]

/-- The output can be handed over if and only if the input is `dev`, or a text for `date` that
understands the version of the day again. -/
theorem printedAgain_iff (env : VersionEnv) (test : WordTest) (content arg : List Char) :
    PrintedAgain env test content arg ↔
      givenInput test content arg = "dev" ∨ KeepsDay env (givenInput test content arg) := by
  constructor
  · rintro ⟨version, hrun, hagain, -⟩
    obtain ⟨hnot, s, hs, rfl⟩ := run_default_ok_iff.1 hrun
    by_cases hdev : givenInput test content arg = "dev"
    · exact Or.inl hdev
    · right
      rw [if_neg hdev, run_default_ok_iff, givenInput_dayVersion] at hagain
      obtain ⟨hnot', s', hs', hversion⟩ := hagain
      rw [if_neg (dayVersion_ne_dev _)] at hversion
      rw [timeOf_of_ne_dev hdev] at hs
      rw [timeOf_of_ne_dev (dayVersion_ne_dev _)] at hs'
      exact ⟨hnot, s, s', hs, hnot', hs', (dayVersion_injective hversion).symm⟩
  · rintro (hdev | hkeeps)
    · exact printedAgain_of_dev hdev
    · exact printedAgain_of_keepsDay hkeeps

/-! ## Versions and dates -/

/-- The version of a day from the start on is the number of a version. -/
theorem isVersionNumber_dayVersion {n : ℕ} (h : n < 10000000) : isVersionNumber (dayVersion n) := by
  have hdigits := Text.isDigit_toDigits n
  have htext : (dayVersion n).toList = Nat.toDigits 10 n ++ ['.', '0'] := by
    simp only [dayVersion, String.toList_append, Text.toList_toString_natCast, List.append_assoc]
    rfl
  have hdot : '.' ∉ Nat.toDigits 10 n := fun hmem => absurd (hdigits _ hmem) (by decide)
  have hall : (Nat.toDigits 10 n ++ ['.', '0']).all (fun c => c.isDigit || c = '.') := by
    rw [List.all_append, Bool.and_eq_true, List.all_eq_true]
    exact ⟨fun c hc => by rw [hdigits c hc, Bool.true_or], by decide⟩
  rw [isVersionNumber, htext, WorkingTree.headD_splitOn ['0'] hdot, hall,
    bashNumber_toDigits_lt h, Bool.and_self]

/-- The number of a version is accepted, but not printed. -/
theorem not_printedAgain_of_isVersionNumber (h : isVersionNumber (givenInput test content arg)) :
    ¬ PrintedAgain env test content arg := by
  rw [printedAgain_iff]
  rintro (hdev | hkeeps)
  · rw [hdev, isVersionNumber_dev] at h
    cases h
  · exact hkeeps.1 h

/-- A date from the start on is printed as the number of a version. -/
theorem not_printedAgain_of_date {s : ℤ} (hdev : givenInput test content arg ≠ "dev")
    (hs : dateSeconds env (givenInput test content arg) = some s) (hstart : 0 ≤ daysSinceStart s)
    (hend : daysSinceStart s < 10000000) : ¬ PrintedAgain env test content arg := by
  rw [printedAgain_iff]
  rintro (hdev' | ⟨-, s', -, hs', hnot, -⟩)
  · exact hdev hdev'
  · obtain rfl := Option.some.inj (hs.symm.trans hs')
    lift daysSinceStart s to ℕ using hstart with n
    exact hnot (isVersionNumber_dayVersion (by omega))

/-- The version of the usage is accepted, and `--date` has its date. -/
theorem printedAgain_fails :
    ¬ ∀ (env : VersionEnv) (test : WordTest) (content arg : List Char),
      Accepts env test content arg → PrintedAgain env test content arg := by
  intro h
  have hmajor : gardenVersionRun firstDay (fun _ => false) [] "27.1".toList .major = .ok "27" := by
    decide +kernel
  have hdefault : gardenVersionRun firstDay (fun _ => false) [] "27.1".toList .default =
      .error (.unboundVariable "version") := by decide +kernel
  obtain ⟨version, hversion, -⟩ := h firstDay (fun _ => false) [] "27.1".toList ⟨"27", hmajor⟩
  cases hdefault.symm.trans hversion

end Glci
