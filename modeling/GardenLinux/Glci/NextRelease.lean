import GardenLinux.Glci.VersionFile

/-!
# The next release version and the epoch of a file `VERSION`

`next_release_version_from_workingtree` and `gardenlinux_epoch_from_workingtree` of
`ci/glci/model.py` for the file at any path and for an epoch that is a number or a text.

What is proved here:

* `WorkingTree.gardenlinuxEpoch_ok_iff` and `WorkingTree.nextReleaseVersion_ok_iff` — when they
  succeed, and with what;
* `WorkingTree.hasEpoch_iff` — the files and epochs for which they agree.
-/

namespace Glci

/-- The argument `epoch`: a text as it is annotated, or a number as its default. -/
inductive EpochArg
  | int (epoch : ℤ)
  | str (epoch : List Char)
  deriving DecidableEq, Repr

/-- `f'{epoch}'`. -/
def EpochArg.format : EpochArg → List Char
  | int epoch => (toString epoch).toList
  | str epoch => epoch

/-- The number that it is, or that its text is read as. -/
def EpochArg.number : EpochArg → Option ℤ
  | int epoch => some epoch
  | str epoch => pyInt epoch

inductive WorkingTreeError
  | osError
  | valueError
  deriving DecidableEq, Repr

/-- The files that can be opened, and `paths.version_path`. -/
structure WorkingTree (Path : Type*) where
  read : Path → Option (List Char)
  versionPath : Path

namespace WorkingTree

variable {Path : Type*} (tree : WorkingTree Path)

/-- `_parse_version_from_workingtree`. -/
def parseVersion (path : Path) : Except WorkingTreeError (List Char) :=
  match tree.read path with
  | none => .error .osError
  | some content =>
    match Glci.parseVersion content with
    | .error _ => .error .valueError
    | .ok version => .ok version

/-- `gardenlinux_epoch_from_workingtree`. -/
def gardenlinuxEpoch (path : Path) (epoch : EpochArg) : Except WorkingTreeError EpochArg :=
  match tree.parseVersion path with
  | .error e => .error e
  | .ok version =>
    match pyInt ((version.splitOn '.').headD []) with
    | some epoch => .ok (.int epoch)
    | none => if version = versionToday then .ok epoch else .error .valueError

/-- `next_release_version_from_workingtree`; for `today` the path is not passed on. -/
def nextReleaseVersion (epoch : EpochArg) (path : Path) : Except WorkingTreeError (List Char) :=
  match tree.parseVersion path with
  | .error e => .error e
  | .ok version =>
    if version = versionToday then
      match tree.gardenlinuxEpoch tree.versionPath epoch with
      | .error e => .error e
      | .ok epoch => .ok (epoch.format ++ ['.', '0'])
    else
      match version.splitOn '.' with
      | [epoch, patchlevel] =>
        if (pyInt epoch).isSome ∧ (pyInt patchlevel).isSome then .ok version
        else .error .valueError
      | _ => .error .valueError

/-! ## Agreement -/

/-- `<int>.<int>`. -/
def IsRelease (version : List Char) : Prop :=
  ∃ epoch patchlevel, version = epoch ++ '.' :: patchlevel ∧
    (pyInt epoch).isSome ∧ (pyInt patchlevel).isSome

/-- The number before the dot of a version. -/
def HasMajor (version : List Char) (n : ℤ) : Prop :=
  ∃ major rest, version = major ++ '.' :: rest ∧ pyInt major = some n

/-- The next release version belongs to the epoch of the same file. -/
structure HasEpoch (epoch : EpochArg) (path : Path) : Prop where
  major : ∀ version, tree.nextReleaseVersion epoch path = .ok version →
    ∃ e n, tree.gardenlinuxEpoch path epoch = .ok e ∧ e.number = some n ∧ HasMajor version n
  succeeds : ∀ version e, tree.parseVersion path = .ok version →
    version = versionToday ∨ IsRelease version → tree.gardenlinuxEpoch path epoch = .ok e →
      ∃ version, tree.nextReleaseVersion epoch path = .ok version

/-- The version that a file is read as. -/
def ReadsAs (path : Path) (version : List Char) : Prop :=
  ∃ content, tree.read path = some content ∧ FirstLine content version

/-! ## Numbers -/

section Numbers

theorem ne_dot_of_pyDigit {c : Char} {d : ℕ} (h : pyDigit c = some d) : c ≠ '.' := by
  have hdot : pyDigit '.' = none := by decide +kernel
  rintro rfl
  exact absurd (h.symm.trans hdot) (by simp)

theorem dot_notMem_of_pyDigitsFrom {n m : ℕ} {s : List Char} (h : pyDigitsFrom n s = some m) :
    '.' ∉ s := by
  fun_induction pyDigitsFrom n s with
  | case1 n => exact List.not_mem_nil
  | case2 n c cs ih =>
    obtain ⟨d, hd, hrest⟩ := Option.bind_eq_some_iff.1 h
    simp [(ne_dot_of_pyDigit hd).symm, ih d hrest]
  | case3 n c cs hcase ih =>
    obtain ⟨d, hd, hrest⟩ := Option.bind_eq_some_iff.1 h
    simp [(ne_dot_of_pyDigit hd).symm, ih d hrest]

theorem dot_notMem_of_pyDigits {m : ℕ} {s : List Char} (h : pyDigits s = some m) : '.' ∉ s := by
  cases s with
  | nil => simp
  | cons c cs =>
    obtain ⟨d, hd, hrest⟩ := Option.bind_eq_some_iff.1 h
    simp [(ne_dot_of_pyDigit hd).symm, dot_notMem_of_pyDigitsFrom hrest]

theorem mem_pyStrip {s : List Char} {c : Char} (hc : isPySpace c = false) (h : c ∈ s) :
    c ∈ pyStrip s := by
  have hdrop : ∀ {l : List Char}, c ∈ l → c ∈ l.dropWhile isPySpace := by
    intro l hl
    rw [← List.takeWhile_append_dropWhile (p := isPySpace) (l := l), List.mem_append] at hl
    refine hl.resolve_left fun hmem => ?_
    have hspace := List.mem_takeWhile_imp hmem
    simp [hc] at hspace
  rw [pyStrip, List.rdropWhile, List.mem_reverse]
  exact hdrop (List.mem_reverse.2 (hdrop h))

/-- A number has no dot. -/
theorem dot_notMem_of_pyInt {s : List Char} {n : ℤ} (h : pyInt s = some n) : '.' ∉ s := by
  intro hdot
  have hstrip : '.' ∈ pyStrip s := mem_pyStrip (by decide) hdot
  unfold pyInt at h
  split at h
  · next digits heq =>
    obtain ⟨m, hm, -⟩ := Option.map_eq_some_iff.1 h
    simp [heq, dot_notMem_of_pyDigits hm] at hstrip
  · next digits heq =>
    obtain ⟨m, hm, -⟩ := Option.map_eq_some_iff.1 h
    simp [heq, dot_notMem_of_pyDigits hm] at hstrip
  · obtain ⟨m, hm, -⟩ := Option.map_eq_some_iff.1 h
    exact dot_notMem_of_pyDigits hm hstrip

theorem pyInt_repr (n : ℕ) : pyInt (Nat.repr n).toList = some (n : ℤ) := by
  rw [Nat.toList_repr, pyInt_of_digits Nat.toDigits_ne_nil (Text.isDigit_toDigits n),
    Nat.ofDigitChars_ten_toDigits]

theorem pyStrip_neg {digits : List Char} (h : ∀ c ∈ digits, c.isDigit) :
    pyStrip ('-' :: digits) = '-' :: digits := by
  rw [pyStrip, List.dropWhile_cons_of_neg (by decide), List.rdropWhile_eq_self_iff]
  intro hne
  rcases List.mem_cons.1 (List.getLast_mem hne) with hlast | hlast
  · rw [hlast]
    decide
  · rw [isPySpace_of_isDigit (h _ hlast)]
    decide

/-- A number is read back. -/
theorem pyInt_toString (n : ℤ) : pyInt (toString n).toList = some n := by
  cases n with
  | ofNat n => exact pyInt_repr n
  | negSucc n =>
    have hdigits := Text.isDigit_toDigits (n + 1)
    rw [Text.toList_toString_negSucc, pyInt, pyStrip_neg hdigits]
    show (pyDigits (Nat.toDigits 10 (n + 1))).map (-Int.ofNat ·) = _
    rw [pyDigits_eq_ofDigitChars Nat.toDigits_ne_nil hdigits, Nat.ofDigitChars_ten_toDigits]
    rfl

end Numbers

/-! ## Versions -/

theorem headD_splitOn {major : List Char} (rest : List Char) (h : '.' ∉ major) :
    ((major ++ '.' :: rest).splitOn '.').headD [] = major := by
  rw [List.splitOn_append_cons_self_of_not_mem h]
  rfl

theorem splitOn_eq_pair {version a b : List Char} (h : version.splitOn '.' = [a, b]) :
    version = a ++ '.' :: b := by
  have hjoin : ['.'].intercalate (version.splitOn '.') = version := List.intercalate_splitOn '.'
  rw [← hjoin, h]
  simp [List.intercalate]

theorem pyInt_versionToday : pyInt ((versionToday.splitOn '.').headD []) = none := by decide +kernel

theorem not_isRelease_versionToday : ¬ IsRelease versionToday := by
  rintro ⟨epoch, patchlevel, heq, -, -⟩
  have hmem : '.' ∈ versionToday := heq ▸ (by simp)
  exact absurd hmem (by decide)

theorem IsRelease.splitOn {version : List Char} (h : IsRelease version) :
    ∃ epoch patchlevel, version.splitOn '.' = [epoch, patchlevel] ∧
      (pyInt epoch).isSome ∧ (pyInt patchlevel).isSome := by
  obtain ⟨epoch, patchlevel, rfl, hepoch, hpatchlevel⟩ := h
  obtain ⟨n, hn⟩ := Option.isSome_iff_exists.1 hepoch
  obtain ⟨m, hm⟩ := Option.isSome_iff_exists.1 hpatchlevel
  refine ⟨epoch, patchlevel, ?_, hepoch, hpatchlevel⟩
  rw [List.splitOn_append_cons_self_of_not_mem (dot_notMem_of_pyInt hn),
    List.splitOn_eq_singleton (dot_notMem_of_pyInt hm)]

/-- The text of an epoch is the number before the dot. -/
theorem hasMajor_format {epoch : EpochArg} {n : ℤ} (h : epoch.number = some n) (rest : List Char) :
    HasMajor (epoch.format ++ '.' :: rest) n := by
  refine ⟨epoch.format, rest, rfl, ?_⟩
  cases epoch with
  | int m =>
    obtain rfl := Option.some.inj h
    exact pyInt_toString m
  | str s => exact h

/-- There is one number before the first dot. -/
theorem HasMajor.pyInt_headD {version : List Char} {n : ℤ} (h : HasMajor version n) :
    pyInt ((version.splitOn '.').headD []) = some n := by
  obtain ⟨major, rest, rfl, hmajor⟩ := h
  rw [headD_splitOn rest (dot_notMem_of_pyInt hmajor)]
  exact hmajor

theorem HasMajor.unique {version : List Char} {n m : ℤ} (hn : HasMajor version n)
    (hm : HasMajor version m) : n = m :=
  Option.some.inj (hn.pyInt_headD.symm.trans hm.pyInt_headD)

/-! ## What the functions return -/

variable {tree} {path : Path} {epoch : EpochArg}

theorem parseVersion_ok_iff {version : List Char} :
    tree.parseVersion path = .ok version ↔ tree.ReadsAs path version := by
  unfold parseVersion ReadsAs
  cases tree.read path with
  | none => simp
  | some content =>
    simp only [Option.some.injEq, exists_eq_left', ← Glci.parseVersion_ok_iff]
    cases Glci.parseVersion content with
    | error e => simp
    | ok v => simp

theorem gardenlinuxEpoch_ok_iff {e : EpochArg} :
    tree.gardenlinuxEpoch path epoch = .ok e ↔
      ∃ version, tree.ReadsAs path version ∧
        ((∃ n, pyInt ((version.splitOn '.').headD []) = some n ∧ e = .int n) ∨
          version = versionToday ∧ e = epoch) := by
  simp only [← parseVersion_ok_iff]
  unfold gardenlinuxEpoch
  cases tree.parseVersion path with
  | error err => simp
  | ok version =>
    simp only [Except.ok.injEq, exists_eq_left']
    by_cases htoday : version = versionToday
    · subst htoday
      simp only [pyInt_versionToday]
      simp [eq_comm]
    · cases pyInt ((version.splitOn '.').headD []) with
      | none => simp [htoday]
      | some n => simp [htoday, eq_comm]

theorem nextReleaseVersion_ok_iff {next : List Char} :
    tree.nextReleaseVersion epoch path = .ok next ↔
      ∃ version, tree.ReadsAs path version ∧
        (IsRelease version ∧ next = version ∨
          version = versionToday ∧ ∃ e, tree.gardenlinuxEpoch tree.versionPath epoch = .ok e ∧
            next = e.format ++ ['.', '0']) := by
  simp only [← parseVersion_ok_iff]
  unfold nextReleaseVersion
  cases tree.parseVersion path with
  | error err => simp
  | ok version =>
    simp only [Except.ok.injEq, exists_eq_left']
    by_cases htoday : version = versionToday
    · subst htoday
      rw [if_pos rfl]
      cases tree.gardenlinuxEpoch tree.versionPath epoch with
      | error err => simp [not_isRelease_versionToday]
      | ok e => simp [not_isRelease_versionToday, eq_comm]
    · rw [if_neg htoday]
      simp only [htoday, false_and, or_false]
      constructor
      · intro h
        split at h
        · next a b hsplit =>
          split at h
          · next hints =>
            exact ⟨⟨a, b, splitOn_eq_pair hsplit, hints⟩, (Except.ok.inj h).symm⟩
          · cases h
        · cases h
      · rintro ⟨hrelease, rfl⟩
        obtain ⟨a, b, hsplit, ha, hb⟩ := hrelease.splitOn
        simp [hsplit, ha, hb]

/-- A file is read as one version. -/
theorem ReadsAs.unique {version version' : List Char} (h : tree.ReadsAs path version)
    (h' : tree.ReadsAs path version') : version = version' := by
  rw [← parseVersion_ok_iff] at h h'
  exact Except.ok.inj (h.symm.trans h')

/-- For a number in the argument, it is what `VersionFile` says of the content. -/
theorem gardenlinuxEpoch_int_iff {n m : ℤ} :
    tree.gardenlinuxEpoch path (.int n) = .ok (.int m) ↔
      ∃ content, tree.read path = some content ∧
        gardenlinuxEpochFromWorkingtree content n = .ok m := by
  simp only [gardenlinuxEpoch_ok_iff, epochFromWorkingtree_ok_iff, ReadsAs, StandsFor]
  constructor
  · rintro ⟨version, ⟨content, hread, hfirst⟩, ⟨k, hk, heq⟩ | ⟨rfl, heq⟩⟩
    · obtain rfl := EpochArg.int.inj heq
      exact ⟨content, hread, version, hfirst, Or.inl hk⟩
    · obtain rfl := EpochArg.int.inj heq
      exact ⟨content, hread, versionToday, hfirst, Or.inr ⟨pyInt_versionToday, rfl, rfl⟩⟩
  · rintro ⟨content, hread, version, hfirst, hm | ⟨-, rfl, rfl⟩⟩
    · exact ⟨version, ⟨content, hread, hfirst⟩, Or.inl ⟨m, hm, rfl⟩⟩
    · exact ⟨versionToday, ⟨content, hread, hfirst⟩, Or.inr ⟨rfl, rfl⟩⟩

/-- A file with `today` has the epoch of the argument. -/
theorem gardenlinuxEpoch_of_today (epoch : EpochArg) (h : tree.ReadsAs path versionToday) :
    tree.gardenlinuxEpoch path epoch = .ok epoch :=
  gardenlinuxEpoch_ok_iff.2 ⟨versionToday, h, Or.inr ⟨rfl, rfl⟩⟩

/-- The version of a release is its own next version. -/
theorem nextReleaseVersion_of_isRelease {version : List Char} (h : tree.ReadsAs path version)
    (hrelease : IsRelease version) : tree.nextReleaseVersion epoch path = .ok version :=
  nextReleaseVersion_ok_iff.2 ⟨version, h, Or.inl ⟨hrelease, rfl⟩⟩

/-- A release has the epoch before its dot. -/
theorem gardenlinuxEpoch_of_isRelease (epoch : EpochArg) {version : List Char}
    (h : tree.ReadsAs path version) (hrelease : IsRelease version) :
    ∃ n, tree.gardenlinuxEpoch path epoch = .ok (.int n) ∧ HasMajor version n := by
  obtain ⟨major, patchlevel, heq, hmajor, -⟩ := hrelease
  obtain ⟨n, hn⟩ := Option.isSome_iff_exists.1 hmajor
  have hhas : HasMajor version n := ⟨major, patchlevel, heq, hn⟩
  exact ⟨n, gardenlinuxEpoch_ok_iff.2 ⟨version, h, Or.inl ⟨n, hhas.pyInt_headD, rfl⟩⟩, hhas⟩

/-- The default file has the epoch of the argument if it stands for that number. -/
theorem number_of_standsFor {version : List Char} {e : EpochArg} {n : ℤ}
    (hdefault : tree.ReadsAs tree.versionPath version) (hstands : StandsFor n version n)
    (hnumber : epoch.number = some n) (he : tree.gardenlinuxEpoch tree.versionPath epoch = .ok e) :
    e.number = some n := by
  obtain ⟨version', hread, hcase⟩ := gardenlinuxEpoch_ok_iff.1 he
  obtain rfl := hdefault.unique hread
  rcases hcase with ⟨m, hm, rfl⟩ | ⟨rfl, rfl⟩
  · rcases hstands with hn | ⟨hnone, -, -⟩
    · exact hm.symm.trans hn
    · cases hm.symm.trans hnone
  · exact hnumber

/-- The next release version belongs to the epoch of the file if and only if the file does not say
`today`, or the argument and the default file stand for the same number. -/
theorem hasEpoch_iff (tree : WorkingTree Path) (epoch : EpochArg) (path : Path) :
    tree.HasEpoch epoch path ↔
      (tree.ReadsAs path versionToday →
        ∃ n version, epoch.number = some n ∧ tree.ReadsAs tree.versionPath version ∧
          StandsFor n version n) := by
  constructor
  · intro h htoday
    have hepoch := gardenlinuxEpoch_of_today epoch htoday
    obtain ⟨next, hnext⟩ :=
      h.succeeds versionToday epoch (parseVersion_ok_iff.2 htoday) (Or.inl rfl) hepoch
    obtain ⟨e, n, he, hnumber, hmajor⟩ := h.major next hnext
    obtain rfl := Except.ok.inj (hepoch.symm.trans he)
    obtain ⟨version, hread, ⟨hrelease, -⟩ | ⟨-, e', he', rfl⟩⟩ := nextReleaseVersion_ok_iff.1 hnext
    · rw [← htoday.unique hread] at hrelease
      exact absurd hrelease not_isRelease_versionToday
    obtain ⟨dv, hdefault, ⟨m, hm, rfl⟩ | ⟨rfl, rfl⟩⟩ := gardenlinuxEpoch_ok_iff.1 he'
    · obtain rfl : m = n := (hasMajor_format rfl ['0']).unique hmajor
      exact ⟨m, dv, hnumber, hdefault, Or.inl hm⟩
    · exact ⟨n, versionToday, hnumber, hdefault, Or.inr ⟨pyInt_versionToday, rfl, rfl⟩⟩
  · intro h
    constructor
    · intro next hnext
      obtain ⟨version, hread, ⟨hrelease, rfl⟩ | ⟨rfl, e, he, rfl⟩⟩ :=
        nextReleaseVersion_ok_iff.1 hnext
      · obtain ⟨n, hn, hmajor⟩ := gardenlinuxEpoch_of_isRelease epoch hread hrelease
        exact ⟨.int n, n, hn, rfl, hmajor⟩
      · obtain ⟨n, dv, hnumber, hdefault, hstands⟩ := h hread
        have hn := number_of_standsFor hdefault hstands hnumber he
        exact ⟨epoch, n, gardenlinuxEpoch_of_today epoch hread, hnumber, hasMajor_format hn ['0']⟩
    · intro version e hparse hversion he
      have hread := parseVersion_ok_iff.1 hparse
      rcases hversion with rfl | hrelease
      · obtain ⟨n, dv, hnumber, hdefault, hstands⟩ := h hread
        rcases hstands with hn | ⟨-, rfl, -⟩
        · exact ⟨_, nextReleaseVersion_ok_iff.2 ⟨versionToday, hread, Or.inr ⟨rfl, .int n,
            gardenlinuxEpoch_ok_iff.2 ⟨dv, hdefault, Or.inl ⟨n, hn, rfl⟩⟩, rfl⟩⟩⟩
        · exact ⟨_, nextReleaseVersion_ok_iff.2 ⟨versionToday, hread, Or.inr ⟨rfl, epoch,
            gardenlinuxEpoch_of_today epoch hdefault, rfl⟩⟩⟩
      · exact ⟨version, nextReleaseVersion_of_isRelease hread hrelease⟩

/-- For the default file and an argument that is a number, the functions agree. -/
theorem hasEpoch_versionPath {n : ℤ} (h : epoch.number = some n) :
    tree.HasEpoch epoch tree.versionPath :=
  (hasEpoch_iff tree epoch tree.versionPath).2 fun htoday =>
    ⟨n, versionToday, h, htoday, Or.inr ⟨pyInt_versionToday, rfl, rfl⟩⟩

/-- The branch of a release next to a file that says `today`. -/
def releaseBranch : WorkingTree String where
  read path := if path = "VERSION" then some "27.1\n".toList else
    if path = "next/VERSION" then some "today\n".toList else none
  versionPath := "VERSION"

/-- The file says `today`, which is the 576th day; its next release version is 27.0. -/
theorem hasEpoch_fails :
    ¬ ∀ (tree : WorkingTree String) (epoch : EpochArg) (path : String),
      tree.HasEpoch epoch path := by
  intro h
  have hnext : releaseBranch.nextReleaseVersion (.int 576) "next/VERSION" = .ok "27.0".toList := by
    decide +kernel
  have hepoch : releaseBranch.gardenlinuxEpoch "next/VERSION" (.int 576) = .ok (.int 576) := by
    decide +kernel
  obtain ⟨e, n, he, hnumber, hmajor⟩ := (h releaseBranch (.int 576) "next/VERSION").major _ hnext
  obtain rfl := Except.ok.inj (hepoch.symm.trans he)
  obtain rfl := Option.some.inj hnumber
  exact absurd hmajor.pyInt_headD (by decide +kernel)

end WorkingTree

end Glci
