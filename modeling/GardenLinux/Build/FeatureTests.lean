import Mathlib
import GardenLinux.Lib.Listing
import GardenLinux.Lib.TextFilter

/-!
# The tests of the features

`create_artifacts` in `bin/garden-build` runs the tests of the features against a root file system.
It collects the names of the executable files in the test directories of all features, and for each
name looks for the selected features that enable the test or disable it.  What is executed is the
file of that name in the last feature that enables the test.  This feature may lack the file: it
may enable the test by the other variant of it.

The failures are counted for one variant of the root file system at a time, and only the last count
decides about the exit status.  The script runs with `LC_ALL=C`, so that the tests and the root file
systems come in the order of the bytes of their names, those of the latter with the `/` behind them.

What is proved here:

* `testLoop_eq` — which tests the loop executes, and whether it stops the script;
* `gardenBuild_stops` and `gardenBuild_ends` — the executions and the exit status of a build;
* `testsRun_iff` — when exactly the enabled tests are executed, and the exit status is right.
-/

namespace GardenBuild

open TextFilter

/-! ## Test files -/

/-- A name that the shell takes for one word, and `grep` for itself, up to its dots. -/
def isWord (s : List Char) : Bool :=
  s ≠ [] ∧ s.head? ≠ some '-' ∧ s.all fun c => c.isAlphanum || c ∈ ['_', '-', '.', '+']

/-- `$featureDir/<feature>/test/<name>`: a regular file, or a symbolic link to one. -/
structure TestFile where
  feature : List Char
  name : List Char
  executable : Bool
  isLink : Bool

/-- The test files of all features, the selected features, and the directories next to `rootfs`.
The variable `tests` comes from the environment, where `build.sh` puts it: the script's own
`--skip-tests` sets it for one `shift` only. -/
structure TestSetup where
  files : List TestFile
  selected : List (List Char)
  directories : List (List Char)
  testsVariable : Option (List Char)
  passes : List Char → List Char → List Char → Bool
  words : ∀ f ∈ files, isWord f.feature = true ∧ isWord f.name = true
  directories_words : ∀ d ∈ directories, isWord d = true
  directories_nodup : directories.Nodup
  rootfs_mem : "rootfs".toList ∈ directories

/-- `[ "${tests:-1}" = "0" ]`. -/
def TestSetup.skipTests (s : TestSetup) : Bool :=
  (match s.testsVariable with
    | none | some [] => "1".toList
    | some value => value) = "0".toList

/-- `rootfs*/`, without the slashes. -/
def TestSetup.variants (s : TestSetup) : List (List Char) :=
  sortOn (· ++ ['/']) (s.directories.filter fun d => "rootfs".toList.isPrefixOf d)

/-- `[ -f … ]`, which follows symbolic links. -/
def TestSetup.isFile (s : TestSetup) (feature name : List Char) : Bool :=
  s.files.any fun f => f.feature = feature ∧ f.name = name

/-- `[ -x … ]` of a file. -/
def TestSetup.isExecutable (s : TestSetup) (feature name : List Char) : Bool :=
  s.files.any fun f => f.feature = feature ∧ f.name = name ∧ f.executable

/-- `basename $t | cut -d. -f 1`. -/
def baseName (t : List Char) : List Char := t.takeWhile (· ≠ '.')

/-- `${t##*.}`. -/
def lastExtension (t : List Char) : List Char := (t.splitOn '.').getLastD []

def disableExt : List Char := ".disable".toList

def chrootExt : List Char := ".chroot".toList

/-- `$(find … -type f -executable … | grep -v .disable | sort | uniq)`: `find` leaves symbolic links
out. -/
def TestSetup.tests (s : TestSetup) : List (List Char) :=
  let names := (s.files.filter fun f => f.executable ∧ ¬ f.isLink).map TestFile.name
  sortOn id (names.filter fun t => !matchesLine disableExt t).dedup

/-! ## The loop over the tests -/

/-- A test that is executed in a root file system, and whether it passed. -/
structure Execution where
  variant : List Char
  test : List Char
  feature : List Char
  passed : Bool

/-- The counters. -/
structure Counters where
  testcounter : ℕ
  failcounter : ℕ
  skipcounter : ℕ
  executions : List Execution

/-- The body of the loop over the features. -/
def TestSetup.enlist (s : TestSetup) (test : List Char)
    (lists : List (List Char) × List (List Char)) (f : List Char) :
    List (List Char) × List (List Char) :=
  let (disabledBy, enabledBy) := lists
  if s.isFile f (test ++ disableExt) then (f :: disabledBy, enabledBy)
  else if s.isFile f (test ++ chrootExt) then
    if !s.isExecutable f (test ++ chrootExt) then (disabledBy, enabledBy)
    else (disabledBy, f :: enabledBy)
  else if s.isFile f test then
    if !s.isExecutable f test then (disabledBy, enabledBy)
    else (disabledBy, f :: enabledBy)
  else (disabledBy, enabledBy)

/-- `"${actualTest}" ${rootfs} ${targetBase}`, or the test in the chroot: a file that cannot be
executed fails. -/
def Counters.execute (s : TestSetup) (c : Counters) (variant t feature : List Char) : Counters :=
  let passed := s.isExecutable feature t && s.passes variant t feature
  { c with
    failcounter := if passed then c.failcounter else c.failcounter + 1
    executions := c.executions ++ [⟨variant, t, feature, passed⟩] }

/-- The body of the loop over the tests.  Under `set -e` it stops when `grep` finds nothing, or
when there is nothing to copy. -/
def Counters.test (s : TestSetup) (variant : List Char) (c : Counters) (t : List Char) :
    Except Counters Counters :=
  let c := { c with testcounter := c.testcounter + 1 }
  let test := baseName t
  if s.skipTests then .ok { c with skipcounter := c.skipcounter + 1 }
  else
    let (disabledBy, enabledBy) := s.selected.foldl (s.enlist test) ([], [])
    if disabledBy ≠ [] then
      -- `echo` of no words is one empty line
      if grepNot disabledBy (if enabledBy = [] then [[]] else enabledBy) = [] then .error c
      else .ok c
    else
      match enabledBy with
      | feature :: _ =>
        if lastExtension t = "chroot".toList then
          if s.isFile feature t then .ok (c.execute s variant t feature) else .error c
        else .ok (c.execute s variant t feature)
      | [] => .ok { c with skipcounter := c.skipcounter + 1 }

def testLoop (s : TestSetup) (variant : List Char) (c : Counters) :
    List (List Char) → Except Counters Counters
  | [] => .ok c
  | t :: ts =>
    match c.test s variant t with
    | .ok c => testLoop s variant c ts
    | .error c => .error c

/-- The tests of `create_artifacts`; the commands in front of them succeed. -/
def createArtifacts (s : TestSetup) (variant : List Char) : Except Counters Counters :=
  testLoop s variant ⟨0, 0, 0, []⟩ s.tests

/-! ## The exit status -/

/-- What a build has executed, and its exit status. -/
structure BuildResult where
  executions : List Execution
  exitStatus : ℕ

/-- `for rootfs in rootfs*/`, and the end of the script. -/
def variantLoop (s : TestSetup) (executions : List Execution) (failcounter : ℕ) :
    List (List Char) → BuildResult
  | [] => ⟨executions, if failcounter = 0 then 0 else 1⟩
  | v :: vs =>
    match createArtifacts s v with
    | .ok c => variantLoop s (executions ++ c.executions) c.failcounter vs
    | .error c => ⟨executions ++ c.executions, 1⟩

def gardenBuild (s : TestSetup) : BuildResult := variantLoop s [] 0 s.variants

/-! ## Enabled tests -/

/-- The name of a test without its variant. -/
def stem (t : List Char) : List Char := if chrootExt <:+ t then t.take (t.length - 7) else t

/-- A selected feature provides the executable variant, and none disables the test. -/
structure Enabled (s : TestSetup) (t : List Char) : Prop where
  isTest : ¬ disableExt <:+ t
  notDisabled : ∀ f ∈ s.selected, s.isFile f (stem t ++ disableExt) = false
  provided : ∃ f ∈ s.selected, s.isExecutable f t = true

/-- Exactly the enabled tests are executed, each from a file of a selected feature, and the exit
status tells of failures. -/
structure TestsRun (s : TestSetup) (r : BuildResult) : Prop where
  exact : ∀ v ∈ s.variants, ∀ t,
    (∃ x ∈ r.executions, x.variant = v ∧ x.test = t) ↔ Enabled s t
  files : ∀ x ∈ r.executions, x.feature ∈ s.selected ∧ s.isFile x.feature x.test = true
  status : r.exitStatus ≠ 0 ↔ ∃ x ∈ r.executions, x.passed = false

/-! ## What the features say -/

/-- The features that disable a test. -/
def TestSetup.disablers (s : TestSetup) (test : List Char) : List (List Char) :=
  s.selected.filter fun f => s.isFile f (test ++ disableExt)

/-- The feature enables the test: by its variant for the chroot, if it has one, or else by the
plain one. -/
def TestSetup.enables (s : TestSetup) (test f : List Char) : Bool :=
  !s.isFile f (test ++ disableExt) &&
    if s.isFile f (test ++ chrootExt) then s.isExecutable f (test ++ chrootExt)
    else s.isExecutable f test

def TestSetup.enablers (s : TestSetup) (test : List Char) : List (List Char) :=
  s.selected.filter (s.enables test)

/-- The last feature that enables a test, if none disables it. -/
def TestSetup.takenFrom (s : TestSetup) (t : List Char) : Option (List Char) :=
  if s.skipTests ∨ s.disablers (baseName t) ≠ [] then none else (s.enablers (baseName t)).getLast?

/-- The script stops at this test: it is disabled, and the name of every feature that enables it
looks like one that disables it; or it is one for the chroot, and the last feature that enables it
has no such file. -/
def TestSetup.stops (s : TestSetup) (t : List Char) : Bool :=
  !s.skipTests &&
    ((s.disablers (baseName t) ≠ [] ∧ s.enablers (baseName t) ≠ [] ∧
        (s.enablers (baseName t)).all fun f =>
          (s.disablers (baseName t)).any fun d => matchesLine d f) ||
      match s.takenFrom t with
      | none => false
      | some f => lastExtension t = "chroot".toList && !s.isFile f t)

/-- The tests up to the first one at which the script stops. -/
def TestSetup.reached (s : TestSetup) : List (List Char) := s.tests.takeWhile (!s.stops ·)

/-- The script stops before the end. -/
def TestSetup.stopsEarly (s : TestSetup) : Bool := s.tests.any s.stops

/-- The test fails in this root file system. -/
def TestSetup.failsIn (s : TestSetup) (v t : List Char) : Bool :=
  match s.takenFrom t with
  | none => false
  | some f => !(s.isExecutable f t && s.passes v t f)

/-- When the tests run as they should. -/
structure TestsRight (s : TestSetup) : Prop where
  taken : ∀ t ∈ s.reached, ∀ f, s.takenFrom t = some f → Enabled s t ∧ s.isFile f t = true
  all : ∀ t, Enabled s t → t ∈ s.reached ∧ s.takenFrom t ≠ none
  once : s.stopsEarly = true → (∃ t, Enabled s t) → s.variants.length = 1
  lastFails : s.stopsEarly = false → (∃ v ∈ s.variants, ∃ t ∈ s.reached, s.failsIn v t = true) →
    ∃ v ∈ s.variants.getLast?, ∃ t ∈ s.reached, s.failsIn v t = true
  firstFails : s.stopsEarly = true → ∃ v ∈ s.variants.head?, ∃ t ∈ s.reached, s.failsIn v t = true

/-! ## The root file systems -/

theorem variants_ne (s : TestSetup) : s.variants ≠ [] := by
  refine List.ne_nil_of_mem (a := "rootfs".toList) ?_
  exact mem_sortOn.2 (List.mem_filter.2 ⟨s.rootfs_mem, by decide⟩)

theorem variants_nodup (s : TestSetup) : s.variants.Nodup :=
  (perm_sortOn _).nodup_iff.2 (s.directories_nodup.filter _)

/-- The root file system without a suffix comes after those with one. -/
example {s : TestSetup} (h : s.directories = ["rootfs".toList, "rootfs-slim".toList]) :
    s.variants = ["rootfs-slim".toList, "rootfs".toList] := by
  rw [TestSetup.variants, h]
  decide +kernel

/-! ## The turn of a test -/

/-- What the turn of a test executes. -/
def TestSetup.executionsOf (s : TestSetup) (v t : List Char) : List Execution :=
  match s.takenFrom t with
  | none => []
  | some f => [⟨v, t, f, s.isExecutable f t && s.passes v t f⟩]

theorem isFile_of_isExecutable {s : TestSetup} {f name : List Char}
    (h : s.isExecutable f name = true) : s.isFile f name = true := by
  obtain ⟨file, hfile, hmatch⟩ := List.any_eq_true.1 h
  obtain ⟨hfeature, hname, -⟩ := of_decide_eq_true hmatch
  exact List.any_eq_true.2 ⟨file, hfile, decide_eq_true ⟨hfeature, hname⟩⟩

theorem enlist_eq (s : TestSetup) (test f : List Char)
    (lists : List (List Char) × List (List Char)) :
    s.enlist test lists f =
      (if s.isFile f (test ++ disableExt) then f :: lists.1 else lists.1,
        if s.enables test f then f :: lists.2 else lists.2) := by
  unfold TestSetup.enlist TestSetup.enables
  cases hdisable : s.isFile f (test ++ disableExt) with
  | true => simp
  | false =>
    cases hchroot : s.isFile f (test ++ chrootExt) with
    | true => cases s.isExecutable f (test ++ chrootExt) <;> simp
    | false =>
      cases hexec : s.isExecutable f test with
      | true =>
        have hplain := isFile_of_isExecutable hexec
        simp [hplain]
      | false => cases s.isFile f test <;> simp

/-- The lists of a test, the last features first. -/
theorem enlist_selected (s : TestSetup) (test : List Char) :
    s.selected.foldl (s.enlist test) ([], []) =
      ((s.disablers test).reverse, (s.enablers test).reverse) := by
  have hgeneral : ∀ (selected : List (List Char)) (lists : List (List Char) × List (List Char)),
      selected.foldl (s.enlist test) lists =
        ((selected.filter fun f => s.isFile f (test ++ disableExt)).reverse ++ lists.1,
          (selected.filter (s.enables test)).reverse ++ lists.2) := by
    intro selected
    induction selected with
    | nil =>
      intro lists
      rfl
    | cons f fs ih =>
      intro lists
      rw [List.foldl_cons, ih, enlist_eq, List.filter_cons, List.filter_cons]
      split <;> split <;> simp
  rw [hgeneral, List.append_nil, List.append_nil]
  rfl

/-- The features that are left when those like the disabling ones are taken out. -/
theorem grepNot_eq_nil_iff {patterns ls : List (List Char)} :
    grepNot patterns ls = [] ↔ ls.all (fun l => patterns.any fun p => matchesLine p l) = true := by
  rw [grepNot, List.filter_eq_nil_iff, List.all_eq_true]
  constructor
  · intro h l hl
    have hno := h l hl
    simpa using hno
  · intro h l hl
    rw [h l hl]
    simp

/-- No name looks like the empty one. -/
theorem not_matches_nil {s : TestSetup} {test d : List Char} (hd : d ∈ s.disablers test) :
    matchesLine d [] = false := by
  obtain ⟨-, hfile⟩ := List.mem_filter.1 hd
  obtain ⟨file, hmem, hmatch⟩ := List.any_eq_true.1 hfile
  have hword := (s.words file hmem).1
  rw [(of_decide_eq_true hmatch).1] at hword
  obtain ⟨c, cs, rfl⟩ := List.exists_cons_of_ne_nil (of_decide_eq_true hword).1
  rfl

/-- The turn of a test that is disabled. -/
theorem test_disabled {s : TestSetup} {v : List Char} {c : Counters} {t : List Char}
    (hskip : s.skipTests = false) (hdis : s.disablers (baseName t) ≠ []) :
    s.takenFrom t = none ∧
      c.test s v t =
        if s.stops t then .error { c with testcounter := c.testcounter + 1 }
        else .ok { c with testcounter := c.testcounter + 1 } := by
  have htaken : s.takenFrom t = none := by
    unfold TestSetup.takenFrom
    rw [if_pos (Or.inr hdis)]
  refine ⟨htaken, ?_⟩
  have hgrep : grepNot (s.disablers (baseName t)).reverse
      (if (s.enablers (baseName t)).reverse = [] then [[]] else (s.enablers (baseName t)).reverse) =
        [] ↔ s.stops t = true := by
    unfold TestSetup.stops
    rw [htaken, hskip, grepNot_eq_nil_iff]
    by_cases hen : s.enablers (baseName t) = []
    · have hno : ((s.disablers (baseName t)).any fun d => matchesLine d []) = false := by
        rw [List.any_eq_false]
        intro d hd
        rw [not_matches_nil hd]
        exact Bool.false_ne_true
      simp [hen, hno]
    · simp [hen, hdis]
  unfold Counters.test
  dsimp only
  rw [enlist_selected, hskip, if_neg Bool.false_ne_true, if_pos (by simpa using hdis)]
  by_cases hstops : s.stops t = true
  · rw [if_pos (hgrep.2 hstops), if_pos hstops]
  · rw [if_neg (fun h => hstops (hgrep.1 h)), if_neg hstops]

/-- The turn of a test that is not disabled. -/
theorem test_enabled {s : TestSetup} {v : List Char} {c : Counters} {t : List Char}
    (hskip : s.skipTests = false) (hdis : s.disablers (baseName t) = []) :
    c.test s v t =
      match s.takenFrom t with
      | none =>
        .ok { c with testcounter := c.testcounter + 1, skipcounter := c.skipcounter + 1 }
      | some f =>
        if s.stops t then .error { c with testcounter := c.testcounter + 1 }
        else .ok (Counters.execute s { c with testcounter := c.testcounter + 1 } v t f) := by
  have htaken : s.takenFrom t = (s.enablers (baseName t)).reverse.head? := by
    unfold TestSetup.takenFrom
    rw [hskip, hdis, List.head?_reverse]
    simp
  unfold Counters.test
  dsimp only
  rw [enlist_selected, hskip, hdis, if_neg Bool.false_ne_true, List.reverse_nil,
    if_neg (not_not.2 rfl)]
  cases hen : (s.enablers (baseName t)).reverse with
  | nil =>
    rw [htaken, hen]
    rfl
  | cons f fs =>
    have hf : s.takenFrom t = some f := by rw [htaken, hen]; rfl
    have hstops : s.stops t =
        (decide (lastExtension t = "chroot".toList) && !s.isFile f t) := by
      unfold TestSetup.stops
      rw [hf, hskip, hdis]
      simp
    rw [hf]
    dsimp only
    rw [hstops]
    by_cases hext : lastExtension t = "chroot".toList
    · cases hfile : s.isFile f t <;> simp [hext]
    · rw [if_neg hext, decide_eq_false hext, Bool.false_and, if_neg Bool.false_ne_true]

/-- The turn of a test that takes nothing from a feature. -/
theorem test_of_nothing {s : TestSetup} {v : List Char} {c c' : Counters} {t : List Char}
    (hnone : s.executionsOf v t = []) (htest : c.test s v t = .ok c')
    (hexec : c'.executions = c.executions) (hfail : c'.failcounter = c.failcounter) :
    ∃ c', c.test s v t = .ok c' ∧ c'.executions = c.executions ++ s.executionsOf v t ∧
      c'.failcounter = c.failcounter + (s.executionsOf v t).countP (!·.passed) := by
  refine ⟨c', htest, ?_, ?_⟩
  · rw [hexec, hnone, List.append_nil]
  · rw [hfail, hnone]
    rfl

/-- **Turn.** The turn of a test stops the script, or executes what it takes from a feature. -/
theorem test_eq (s : TestSetup) (v : List Char) (c : Counters) (t : List Char) :
    (s.stops t = true ∧ ∃ c', c.test s v t = .error c' ∧ c'.executions = c.executions) ∨
      (s.stops t = false ∧ ∃ c', c.test s v t = .ok c' ∧
        c'.executions = c.executions ++ s.executionsOf v t ∧
        c'.failcounter = c.failcounter + (s.executionsOf v t).countP (!·.passed)) := by
  cases hskip : s.skipTests with
  | true =>
    right
    have hstops : s.stops t = false := by
      unfold TestSetup.stops
      rw [hskip]
      rfl
    have hnone : s.executionsOf v t = [] := by
      unfold TestSetup.executionsOf TestSetup.takenFrom
      rw [if_pos (Or.inl hskip)]
    have htest : c.test s v t = .ok { c with
        testcounter := c.testcounter + 1
        skipcounter := c.skipcounter + 1 } := by
      unfold Counters.test
      dsimp only
      rw [hskip, if_pos rfl]
    exact ⟨hstops, test_of_nothing hnone htest rfl rfl⟩
  | false =>
    by_cases hdis : s.disablers (baseName t) = []
    · have htest := test_enabled (v := v) (c := c) hskip hdis
      cases htaken : s.takenFrom t with
      | none =>
        rw [htaken] at htest
        have hstops : s.stops t = false := by
          unfold TestSetup.stops
          rw [htaken, hdis]
          simp
        have hnone : s.executionsOf v t = [] := by
          unfold TestSetup.executionsOf
          rw [htaken]
        exact Or.inr ⟨hstops, test_of_nothing hnone htest rfl rfl⟩
      | some f =>
        rw [htaken] at htest
        dsimp only at htest
        have hone : s.executionsOf v t = [⟨v, t, f, s.isExecutable f t && s.passes v t f⟩] := by
          unfold TestSetup.executionsOf
          rw [htaken]
        cases hstops : s.stops t with
        | true =>
          left
          rw [hstops, if_pos rfl] at htest
          exact ⟨rfl, _, htest, rfl⟩
        | false =>
          right
          rw [hstops, if_neg Bool.false_ne_true] at htest
          refine ⟨rfl, _, htest, ?_, ?_⟩
          · rw [hone]
            rfl
          · rw [hone]
            unfold Counters.execute
            dsimp only
            cases s.isExecutable f t && s.passes v t f <;> rfl
    · obtain ⟨htaken, htest⟩ := test_disabled (v := v) (c := c) hskip hdis
      have hnone : s.executionsOf v t = [] := by
        unfold TestSetup.executionsOf
        rw [htaken]
      cases hstops : s.stops t with
      | true =>
        left
        rw [hstops, if_pos rfl] at htest
        exact ⟨rfl, _, htest, rfl⟩
      | false =>
        rw [hstops, if_neg Bool.false_ne_true] at htest
        exact Or.inr ⟨rfl, test_of_nothing hnone htest rfl rfl⟩

/-! ## The loops -/

/-- **Loop.** It executes the tests up to the first one at which it stops. -/
theorem testLoop_eq (s : TestSetup) (v : List Char) (ts : List (List Char)) (c : Counters) :
    (ts.any s.stops = true ∧ ∃ c', testLoop s v c ts = .error c' ∧
        c'.executions =
          c.executions ++ (ts.takeWhile (!s.stops ·)).flatMap (s.executionsOf v)) ∨
      (ts.any s.stops = false ∧ ∃ c', testLoop s v c ts = .ok c' ∧
        c'.executions =
          c.executions ++ (ts.takeWhile (!s.stops ·)).flatMap (s.executionsOf v) ∧
        c'.failcounter = c.failcounter +
          ((ts.takeWhile (!s.stops ·)).flatMap (s.executionsOf v)).countP (!·.passed)) := by
  induction ts generalizing c with
  | nil =>
    right
    refine ⟨rfl, c, rfl, ?_, rfl⟩
    exact (List.append_nil _).symm
  | cons t ts ih =>
    rw [List.any_cons, List.takeWhile_cons]
    rcases test_eq s v c t with ⟨hstops, c', htest, hexec⟩ | ⟨hstops, c', htest, hexec, hfail⟩
    · left
      rw [hstops, Bool.true_or]
      refine ⟨rfl, c', ?_, ?_⟩
      · rw [testLoop, htest]
      · rw [hexec]
        exact (List.append_nil _).symm
    · have hloop : testLoop s v c (t :: ts) = testLoop s v c' ts := by rw [testLoop, htest]
      rw [hstops, Bool.false_or, hloop, Bool.not_false, if_pos rfl, List.flatMap_cons,
        List.countP_append, ← List.append_assoc, ← hexec, ← Nat.add_assoc, ← hfail]
      exact ih c'

/-- What is executed in one root file system. -/
def TestSetup.executionsIn (s : TestSetup) (v : List Char) : List Execution :=
  s.reached.flatMap (s.executionsOf v)

theorem mem_executionsIn {s : TestSetup} {v : List Char} {x : Execution} :
    x ∈ s.executionsIn v ↔ ∃ t ∈ s.reached, ∃ f, s.takenFrom t = some f ∧
      x = ⟨v, t, f, s.isExecutable f t && s.passes v t f⟩ := by
  unfold TestSetup.executionsIn
  rw [List.mem_flatMap]
  constructor
  · rintro ⟨t, ht, hx⟩
    unfold TestSetup.executionsOf at hx
    split at hx
    · cases hx
    · next f hf => exact ⟨t, ht, f, hf, List.mem_singleton.1 hx⟩
  · rintro ⟨t, ht, f, hf, rfl⟩
    refine ⟨t, ht, ?_⟩
    unfold TestSetup.executionsOf
    rw [hf]
    exact List.mem_cons_self

theorem exists_failed_iff {s : TestSetup} {v : List Char} :
    (∃ x ∈ s.executionsIn v, x.passed = false) ↔ ∃ t ∈ s.reached, s.failsIn v t = true := by
  constructor
  · rintro ⟨x, hx, hfailed⟩
    obtain ⟨t, ht, f, hf, rfl⟩ := mem_executionsIn.1 hx
    refine ⟨t, ht, ?_⟩
    unfold TestSetup.failsIn
    rw [hf]
    dsimp only at hfailed ⊢
    rw [hfailed]
    rfl
  · rintro ⟨t, ht, hfails⟩
    unfold TestSetup.failsIn at hfails
    split at hfails
    · cases hfails
    · next f hf =>
      refine ⟨_, mem_executionsIn.2 ⟨t, ht, f, hf, rfl⟩, ?_⟩
      rw [Bool.not_eq_true'] at hfails
      exact hfails

theorem createArtifacts_stops {s : TestSetup} (h : s.stopsEarly = true) (v : List Char) :
    ∃ c, createArtifacts s v = .error c ∧ c.executions = s.executionsIn v := by
  rcases testLoop_eq s v s.tests ⟨0, 0, 0, []⟩ with ⟨-, c, hloop, hexec⟩ | ⟨hno, -⟩
  · exact ⟨c, hloop, hexec⟩
  · rw [TestSetup.stopsEarly, hno] at h
    cases h

theorem createArtifacts_ends {s : TestSetup} (h : s.stopsEarly = false) (v : List Char) :
    ∃ c, createArtifacts s v = .ok c ∧ c.executions = s.executionsIn v ∧
      c.failcounter = (s.executionsIn v).countP (!·.passed) := by
  rcases testLoop_eq s v s.tests ⟨0, 0, 0, []⟩ with ⟨hyes, -⟩ | ⟨-, c, hloop, hexec, hfail⟩
  · rw [TestSetup.stopsEarly, hyes] at h
    cases h
  · rw [Nat.zero_add] at hfail
    exact ⟨c, hloop, hexec, hfail⟩

theorem variantLoop_ends {s : TestSetup} (h : s.stopsEarly = false) (vs : List (List Char))
    (executions : List Execution) (failcounter : ℕ) :
    (variantLoop s executions failcounter vs).executions =
        executions ++ vs.flatMap s.executionsIn ∧
      ((variantLoop s executions failcounter vs).exitStatus ≠ 0 ↔
        match vs.getLast? with
        | none => failcounter ≠ 0
        | some v => ∃ x ∈ s.executionsIn v, x.passed = false) := by
  induction vs generalizing executions failcounter with
  | nil =>
    refine ⟨(List.append_nil _).symm, ?_⟩
    unfold variantLoop
    dsimp only
    split <;> simp_all
  | cons v vs ih =>
    obtain ⟨c, hc, hexec, hfail⟩ := createArtifacts_ends h v
    have hloop : variantLoop s executions failcounter (v :: vs) =
        variantLoop s (executions ++ s.executionsIn v) c.failcounter vs := by
      rw [variantLoop, hc, ← hexec]
    obtain ⟨hexecs, hstatus⟩ := ih (executions ++ s.executionsIn v) c.failcounter
    rw [hloop]
    refine ⟨?_, ?_⟩
    · rw [hexecs, List.flatMap_cons, List.append_assoc]
    · rw [hstatus]
      cases hvs : vs.getLast? with
      | none =>
        rw [List.getLast?_eq_none_iff] at hvs
        subst hvs
        show c.failcounter ≠ 0 ↔ ∃ x ∈ s.executionsIn v, x.passed = false
        rw [hfail, ← Nat.pos_iff_ne_zero, List.countP_pos_iff]
        simp
      | some w =>
        have hlast : (v :: vs).getLast? = some w := by
          rw [List.getLast?_cons, hvs]
          rfl
        rw [hlast]

/-- The executions and the exit status when the script stops at a test. -/
theorem gardenBuild_stops {s : TestSetup} (h : s.stopsEarly = true) {v : List Char}
    {vs : List (List Char)} (hv : s.variants = v :: vs) :
    gardenBuild s = ⟨s.executionsIn v, 1⟩ := by
  obtain ⟨c, hc, hexec⟩ := createArtifacts_stops h v
  unfold gardenBuild
  rw [hv, variantLoop, hc, ← hexec]
  rfl

/-- And when it does not. -/
theorem gardenBuild_ends {s : TestSetup} (h : s.stopsEarly = false) :
    (gardenBuild s).executions = s.variants.flatMap s.executionsIn ∧
      ((gardenBuild s).exitStatus ≠ 0 ↔
        ∃ v ∈ s.variants.getLast?, ∃ t ∈ s.reached, s.failsIn v t = true) := by
  obtain ⟨hexec, hstatus⟩ := variantLoop_ends h s.variants [] 0
  refine ⟨hexec, ?_⟩
  unfold gardenBuild
  rw [hstatus]
  cases hlast : s.variants.getLast? with
  | none => exact absurd (List.getLast?_eq_none_iff.1 hlast) (variants_ne s)
  | some v => simp [exists_failed_iff]

/-! ## The enabled tests -/

theorem mem_selected_of_takenFrom {s : TestSetup} {t f : List Char}
    (h : s.takenFrom t = some f) : f ∈ s.selected := by
  unfold TestSetup.takenFrom at h
  split at h
  · cases h
  · exact (List.mem_filter.1 (List.mem_of_getLast? h)).1

/-- In one root file system exactly the enabled tests are executed, from files that are there. -/
theorem executionsIn_exact_iff {s : TestSetup} {v : List Char} :
    ((∀ t, (∃ x ∈ s.executionsIn v, x.variant = v ∧ x.test = t) ↔ Enabled s t) ∧
      ∀ x ∈ s.executionsIn v, x.feature ∈ s.selected ∧ s.isFile x.feature x.test = true) ↔
    (∀ t ∈ s.reached, ∀ f, s.takenFrom t = some f → Enabled s t ∧ s.isFile f t = true) ∧
      ∀ t, Enabled s t → t ∈ s.reached ∧ s.takenFrom t ≠ none := by
  constructor
  · rintro ⟨hexact, hfiles⟩
    constructor
    · intro t ht f hf
      have hx := mem_executionsIn (v := v).2 ⟨t, ht, f, hf, rfl⟩
      exact ⟨(hexact t).1 ⟨_, hx, rfl, rfl⟩, (hfiles _ hx).2⟩
    · intro t henabled
      obtain ⟨x, hx, -, htest⟩ := (hexact t).2 henabled
      obtain ⟨t', ht', f, hf, rfl⟩ := mem_executionsIn.1 hx
      obtain rfl : t' = t := htest
      refine ⟨ht', ?_⟩
      rw [hf]
      exact Option.some_ne_none f
  · rintro ⟨htaken, hall⟩
    constructor
    · intro t
      constructor
      · rintro ⟨x, hx, -, htest⟩
        obtain ⟨t', ht', f, hf, rfl⟩ := mem_executionsIn.1 hx
        obtain rfl : t' = t := htest
        exact (htaken t' ht' f hf).1
      · intro henabled
        obtain ⟨ht, hne⟩ := hall t henabled
        obtain ⟨f, hf⟩ := Option.ne_none_iff_exists'.1 hne
        exact ⟨_, mem_executionsIn.2 ⟨t, ht, f, hf, rfl⟩, rfl, rfl⟩
    · intro x hx
      obtain ⟨t, ht, f, hf, rfl⟩ := mem_executionsIn.1 hx
      exact ⟨mem_selected_of_takenFrom hf, (htaken t ht f hf).2⟩

/-- An execution knows its root file system. -/
theorem variant_of_mem {s : TestSetup} {v : List Char} {x : Execution}
    (h : x ∈ s.executionsIn v) : x.variant = v := by
  obtain ⟨t, -, f, -, rfl⟩ := mem_executionsIn.1 h
  rfl

/-- The tests, if the script stops in the first root file system. -/
theorem testsRun_iff_of_stops {s : TestSetup} (hstops : s.stopsEarly = true) :
    TestsRun s (gardenBuild s) ↔ TestsRight s := by
  obtain ⟨first, rest, hvariants⟩ := List.exists_cons_of_ne_nil (variants_ne s)
  have hfirst : first ∈ s.variants := by
    rw [hvariants]
    exact List.mem_cons_self
  rw [gardenBuild_stops hstops hvariants]
  constructor
  · intro h
    obtain ⟨htaken, hall⟩ := executionsIn_exact_iff.1 ⟨h.exact first hfirst, h.files⟩
    refine ⟨htaken, hall, ?_, ?_, ?_⟩
    · rintro - ⟨t, henabled⟩
      cases rest with
      | nil =>
        rw [hvariants]
        rfl
      | cons second others =>
        exfalso
        have hsecond : second ∈ s.variants := by
          rw [hvariants]
          exact List.mem_cons_of_mem _ List.mem_cons_self
        obtain ⟨x, hx, hvariant, -⟩ := (h.exact second hsecond t).2 henabled
        have hnodup := variants_nodup s
        rw [hvariants, List.nodup_cons] at hnodup
        apply hnodup.1
        rw [← variant_of_mem hx, hvariant]
        exact List.mem_cons_self
    · intro hno
      rw [hstops] at hno
      cases hno
    · intro _
      refine ⟨first, ?_, exists_failed_iff.1 (h.status.1 Nat.one_ne_zero)⟩
      rw [hvariants]
      rfl
  · intro h
    obtain ⟨hexact, hfiles⟩ := (executionsIn_exact_iff (v := first)).2 ⟨h.taken, h.all⟩
    refine ⟨?_, hfiles, ?_⟩
    · intro v hv t
      by_cases hv' : v = first
      · subst hv'
        exact hexact t
      · constructor
        · rintro ⟨x, hx, hvariant, -⟩
          exact absurd ((variant_of_mem hx).symm.trans hvariant).symm hv'
        · intro henabled
          exfalso
          have hone := h.once hstops ⟨t, henabled⟩
          obtain ⟨u, hu⟩ := List.length_eq_one_iff.1 hone
          rw [hu, List.mem_singleton] at hv hfirst
          exact hv' (hv.trans hfirst.symm)
    · refine ⟨fun _ => ?_, fun _ => Nat.one_ne_zero⟩
      obtain ⟨v, hv, hfails⟩ := h.firstFails hstops
      rw [hvariants, List.head?_cons, Option.mem_some_iff] at hv
      subst hv
      exact exists_failed_iff.2 hfails

/-- What is executed if the script does not stop. -/
theorem mem_executions_iff {s : TestSetup} (hstops : s.stopsEarly = false) {x : Execution} :
    x ∈ (gardenBuild s).executions ↔ ∃ v ∈ s.variants, x ∈ s.executionsIn v := by
  rw [(gardenBuild_ends hstops).1, List.mem_flatMap]

/-- What is executed in one root file system. -/
theorem executions_at_iff {s : TestSetup} (hstops : s.stopsEarly = false) {v : List Char}
    (hv : v ∈ s.variants) (t : List Char) :
    (∃ x ∈ (gardenBuild s).executions, x.variant = v ∧ x.test = t) ↔
      ∃ x ∈ s.executionsIn v, x.variant = v ∧ x.test = t := by
  constructor
  · rintro ⟨x, hx, hvariant, htest⟩
    obtain ⟨w, -, hw⟩ := (mem_executions_iff hstops).1 hx
    rw [variant_of_mem hw] at hvariant
    subst hvariant
    exact ⟨x, hw, variant_of_mem hw, htest⟩
  · rintro ⟨x, hx, hboth⟩
    exact ⟨x, (mem_executions_iff hstops).2 ⟨v, hv, hx⟩, hboth⟩

/-- The failures in all root file systems. -/
theorem exists_failed_execution_iff {s : TestSetup} (hstops : s.stopsEarly = false) :
    (∃ x ∈ (gardenBuild s).executions, x.passed = false) ↔
      ∃ v ∈ s.variants, ∃ t ∈ s.reached, s.failsIn v t = true := by
  constructor
  · rintro ⟨x, hx, hpassed⟩
    obtain ⟨v, hv, hin⟩ := (mem_executions_iff hstops).1 hx
    exact ⟨v, hv, exists_failed_iff.1 ⟨x, hin, hpassed⟩⟩
  · rintro ⟨v, hv, hfails⟩
    obtain ⟨x, hin, hpassed⟩ := exists_failed_iff.2 hfails
    exact ⟨x, (mem_executions_iff hstops).2 ⟨v, hv, hin⟩, hpassed⟩

/-- The tests, if the script comes to its end. -/
theorem testsRun_iff_of_ends {s : TestSetup} (hstops : s.stopsEarly = false) :
    TestsRun s (gardenBuild s) ↔ TestsRight s := by
  obtain ⟨first, hfirst⟩ := List.exists_mem_of_ne_nil _ (variants_ne s)
  have hstatus := (gardenBuild_ends hstops).2
  have hstopped : s.stopsEarly ≠ true := by
    rw [hstops]
    exact Bool.false_ne_true
  constructor
  · intro h
    have hexact : ∀ t, (∃ x ∈ s.executionsIn first, x.variant = first ∧ x.test = t) ↔
        Enabled s t :=
      fun t => (executions_at_iff hstops hfirst t).symm.trans (h.exact first hfirst t)
    have hfiles : ∀ x ∈ s.executionsIn first,
        x.feature ∈ s.selected ∧ s.isFile x.feature x.test = true :=
      fun x hx => h.files x ((mem_executions_iff hstops).2 ⟨first, hfirst, hx⟩)
    obtain ⟨htaken, hall⟩ := executionsIn_exact_iff.1 ⟨hexact, hfiles⟩
    refine ⟨htaken, hall, fun hyes => absurd hyes hstopped, fun _ hfails => ?_,
      fun hyes => absurd hyes hstopped⟩
    exact hstatus.1 (h.status.2 ((exists_failed_execution_iff hstops).2 hfails))
  · intro h
    have hboth := fun v => (executionsIn_exact_iff (v := v)).2 ⟨h.taken, h.all⟩
    refine ⟨?_, ?_, ?_⟩
    · intro v hv t
      rw [executions_at_iff hstops hv t]
      exact (hboth v).1 t
    · intro x hx
      obtain ⟨v, -, hin⟩ := (mem_executions_iff hstops).1 hx
      exact (hboth v).2 x hin
    · rw [hstatus, exists_failed_execution_iff hstops]
      constructor
      · rintro ⟨v, hv, hfails⟩
        exact ⟨v, List.mem_of_getLast? hv, hfails⟩
      · exact h.lastFails hstops

/-- **The tests.** Exactly the enabled tests are executed, and the exit status tells of failures, if
and only if what the script takes for a test is an enabled test and a file that is there, every
enabled test is reached, and no failure is forgotten or made up. -/
theorem testsRun_iff (s : TestSetup) : TestsRun s (gardenBuild s) ↔ TestsRight s := by
  cases hstops : s.stopsEarly with
  | true => exact testsRun_iff_of_stops hstops
  | false => exact testsRun_iff_of_ends hstops

/-- One root file system, and a test of the selected feature `base` that passes there; the feature
`server`, which is not selected, has a variant of it for the chroot. -/
def procSetup : TestSetup where
  files := [⟨"base".toList, "proc".toList, true, false⟩,
    ⟨"server".toList, "proc.chroot".toList, true, false⟩]
  selected := ["base".toList]
  directories := ["rootfs".toList]
  testsVariable := none
  passes := fun _ _ _ => true
  words := by decide
  directories_words := by decide
  directories_nodup := by decide
  rootfs_mem := by decide

/-- The script looks for the variant in `base`, and stops: it fails, though every test has passed. -/
theorem testsRun_fails : ¬ TestsRun procSetup (gardenBuild procSetup) := by
  intro h
  have hstatus : (gardenBuild procSetup).exitStatus ≠ 0 := by decide +kernel
  have hpassed : ¬ ∃ x ∈ (gardenBuild procSetup).executions, x.passed = false := by
    decide +kernel
  exact hpassed (h.status.1 hstatus)

end GardenBuild
