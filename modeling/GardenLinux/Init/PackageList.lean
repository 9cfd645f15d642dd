import GardenLinux.Init.Filters

/-!
# The packages of an image

`bin/garden-init` puts the files `pkg.include` and `pkg.exclude` of the selected features together,
filters both lists, and takes out of the first one the lines that `grep -f` finds with the second
one as its expressions.

What is proved here:

* `filtered_listText` — the filtered list has a line for each enabled entry and an empty line for
  each line of white space;
* `mem_packages_iff` — what is selected: what no expression matches;
* `honoursLists_iff` — the lists are honoured exactly if no expression but its own name matches
  a package, which an empty expression does.
-/

namespace GardenInit

open TextFilter

/-! ## `garden-init` -/

/-- How awk reads numbers, and the variables other than `arch`. -/
structure Host where
  number : List Char → Option ℚ
  env : List Char → List Char

/-- The two lists of a directory. -/
structure PkgLists (α : Type) where
  pkgInclude : α
  pkgExclude : α

/-- The directory of the features: lists of its own and those of each feature. -/
structure FeatureDir (α : Type) where
  top : PkgLists α
  feature : String → PkgLists α

def FeatureDir.selected {α : Type} (dir : FeatureDir α) (features : List String) :
    List (PkgLists α) :=
  dir.top :: features.map dir.feature

/-- `"$(tr "," "\n" <<< $include)"$'\n'`. -/
def fromFlag (flag : List Char) : List Char :=
  captured ((flag ++ ['\n']).map fun c => if c = ',' then '\n' else c) ++ ['\n']

/-- `[ -s $file ] && include+="$(cat $file)"$'\n'`; a file that is not there has no content. -/
def appendFile (text content : List Char) : List Char :=
  if content = [] then text else text ++ (captured content ++ ['\n'])

/-- The list of the files before it is filtered. -/
def listText (start : List Char) (files : List (List Char)) : List Char :=
  files.foldl appendFile start

/-- The lines that `grep` takes from `<(echo "$exclude")`.  The list begins with the packages that
the command line includes. -/
def patterns (host : Host) (arch flag : List Char) (dirs : List (PkgLists (List Char))) :
    List (List Char) :=
  let exclude := listText (fromFlag (fromFlag flag)) (dirs.map PkgLists.pkgExclude)
  lines (echo (captured (filtered host.number host.env arch exclude)))

/-- The words of the loop over the packages. -/
def packages (host : Host) (arch flag : List Char) (dirs : List (PkgLists (List Char))) :
    List (List Char) :=
  let include_ := listText (fromFlag flag) (dirs.map PkgLists.pkgInclude)
  words (unlines (grepNot (patterns host arch flag dirs)
    (lines (filtered host.number host.env arch include_))))

/-- What is installed with `apt-get` by name, what from files, and what is downloaded before. -/
structure AptLists where
  aptversion : List (List Char)
  aptfile : List (List Char)
  wget : List (List Char)

/-- `$i = *.deb`. -/
def isDeb (i : List Char) : Bool := ".deb".toList <:+ i

/-- `$i = *://*`. -/
def isUrl (i : List Char) : Bool := "://".toList <:+: i

/-- `./$(basename $i)`. -/
def debFile (i : List Char) : List Char := ['.', '/'] ++ (i.splitOn '/').getLastD []

/-- The body of the loop. -/
def AptLists.add (apt : AptLists) (i : List Char) : AptLists :=
  if isDeb i then
    { apt with
      wget := if isUrl i then apt.wget ++ [i] else apt.wget
      aptfile := apt.aptfile ++ [debFile i] }
  else { apt with aptversion := apt.aptversion ++ [i] }

/-- The loop over the packages. -/
def aptLists (host : Host) (arch flag : List Char) (dirs : List (PkgLists (List Char))) : AptLists :=
  (packages host arch flag dirs).foldl AptLists.add ⟨[], [], []⟩

/-! ## The content of the lists -/

/-- A list, with or without a newline at its end. -/
structure PkgFile where
  lines : List Line
  newline : Bool

def PkgFile.content (f : PkgFile) : List Char :=
  let text := unlines (f.lines.map Line.source)
  if f.newline then text else text.dropLast

def PkgLists.content (l : PkgLists PkgFile) : PkgLists (List Char) :=
  ⟨l.pkgInclude.content, l.pkgExclude.content⟩

/-- An enabled entry of the lines names a package. -/
def NamedIn (host : Host) (arch : Arch) (ls : List Line) (package : List Char) : Prop :=
  ∃ l ∈ ls, ∃ e, l.entry = some e ∧ e.enabled host.number arch ∧ e.name arch = package

/-- What is left of a line when it has been filtered. -/
def Line.output (host : Host) (arch : Arch) (l : Line) : Option (List Char) :=
  match l.entry with
  | some e => if e.enabled host.number arch then some (e.name arch) else none
  | none => if l.isSpaceOnly then some [] else none

/-! ## The lines that are kept -/

/-- The lines that `filter_comment` prints. -/
def kept (text : List Char) : List (List Char) := (lines text).filterMap commentLine

theorem filterMap_splitOn (text : List Char) :
    (text.splitOn '\n').filterMap commentLine = kept text := by
  unfold kept lines
  dsimp only
  split
  · next hlast =>
    obtain ⟨parts, hparts⟩ := List.getLast?_eq_some_iff.1 hlast
    rw [hparts, List.dropLast_concat, List.filterMap_append]
    exact List.append_nil _
  · rfl

theorem kept_append (text rest : List Char) : kept (text ++ '\n' :: rest) = kept text ++ kept rest := by
  rw [kept, lines_append, List.filterMap_append, filterMap_splitOn, ← kept]

theorem kept_newline (text : List Char) : kept (text ++ ['\n']) = kept text :=
  (kept_append text []).trans (List.append_nil _)

theorem kept_captured {text : List Char} (hnul : Bash.nul ∉ text) :
    kept (captured text) = kept text := by
  rw [captured, filter_ne_nul hnul]
  clear hnul
  induction text using List.reverseRecOn with
  | nil => rfl
  | append_singleton text c ih =>
    by_cases hc : c = '\n'
    · subst hc
      rw [List.rdropWhile_concat_pos _ _ _ (by decide), ih, kept_newline]
    · rw [List.rdropWhile_concat_neg _ _ _ (by simpa using hc)]

theorem kept_listText {files : List (List Char)} (hfiles : ∀ content ∈ files, Bash.nul ∉ content)
    (start : List Char) :
    kept (listText (start ++ ['\n']) files) = kept start ++ files.flatMap kept := by
  induction files generalizing start with
  | nil => rw [listText, List.foldl_nil, kept_newline, List.flatMap_nil, List.append_nil]
  | cons content files ih =>
    rw [List.forall_mem_cons] at hfiles
    rw [listText, List.foldl_cons, appendFile, List.flatMap_cons]
    split
    · next hnil =>
      rw [← listText, ih hfiles.2, hnil]
      rfl
    · have htext : start ++ ['\n'] ++ (captured content ++ ['\n']) =
          (start ++ '\n' :: captured content) ++ ['\n'] := by simp
      rw [htext, ← listText, ih hfiles.2, kept_append, kept_captured hfiles.1, List.append_assoc]

/-! ## Files as lines -/

theorem source_clean (l : Line) : '\n' ∉ l.source ∧ Bash.nul ∉ l.source := by
  have hblanks : ∀ b : Blanks, '\n' ∉ b.text ∧ Bash.nul ∉ b.text := fun b =>
    ⟨fun h => (b.space _ h).2 rfl, fun h => absurd (b.space _ h).1 (by decide)⟩
  have hentry : ∀ d ∈ ['\n', Bash.nul], d ∉ entrySource l.entry := by
    intro d hd
    cases l.entry with
    | none => simp [entrySource]
    | some e =>
      intro hmem
      have hchars : ∀ c ∈ render archRef e.conditions e.package, c ∉ ['\n', Bash.nul] := by
        refine forall_mem_render (by simp [archRef, Bash.nul]) (by simp [Bash.nul]) ?_ ?_
          e.conditions e.package
        all_goals
          intro c hc hspecial
          simp only [List.mem_cons, List.not_mem_nil, or_false] at hspecial
          rcases hspecial with rfl | rfl <;> exact absurd hc (by decide)
      exact hchars d hmem hd
  have hcomment : ∀ d ∈ ['\n', Bash.nul], d ∉ commentSource l.comment := by
    intro d hd
    cases l.comment with
    | none => simp [commentSource]
    | some comment =>
      simp only [List.mem_cons, List.not_mem_nil, or_false] at hd
      rw [commentSource, List.mem_cons, not_or]
      rcases hd with rfl | rfl
      · exact ⟨by decide, comment.clean.1⟩
      · exact ⟨by decide, comment.clean.2⟩
  simp only [Line.source, List.mem_append, not_or]
  exact ⟨⟨(hblanks _).1, hentry _ (by simp), (hblanks _).1, hcomment _ (by simp)⟩,
    (hblanks _).2, hentry _ (by simp), (hblanks _).2, hcomment _ (by simp)⟩

theorem kept_content (f : PkgFile) :
    kept f.content = f.lines.filterMap fun l => commentLine l.source := by
  have hclean : ∀ l ∈ f.lines.map Line.source, '\n' ∉ l := by
    intro l hl
    obtain ⟨l, -, rfl⟩ := List.mem_map.1 hl
    exact (source_clean l).1
  have htext : kept (unlines (f.lines.map Line.source)) =
      f.lines.filterMap fun l => commentLine l.source := by
    rw [kept, lines_unlines hclean, List.filterMap_map]
    rfl
  rw [PkgFile.content, ← htext]
  split
  · rfl
  · -- the newline that is missing ends an empty line or nothing
    cases hls : (f.lines.map Line.source) using List.reverseRecOn with
    | nil => rfl
    | append_singleton ls l =>
      have hlast : unlines (ls ++ [l]) = (unlines ls ++ l) ++ ['\n'] := by simp [unlines]
      rw [hlast, List.dropLast_concat, kept_newline]

theorem nul_notMem_content (f : PkgFile) : Bash.nul ∉ f.content := by
  have htext : Bash.nul ∉ unlines (f.lines.map Line.source) := by
    rw [mem_unlines (by decide)]
    rintro ⟨l, hl, hmem⟩
    obtain ⟨l, -, rfl⟩ := List.mem_map.1 hl
    exact (source_clean l).2 hmem
  rw [PkgFile.content]
  split
  · exact htext
  · exact fun h => htext (List.mem_of_mem_dropLast h)

/-! ## The filtered lists -/

variable {host : Host} {arch : Arch}

/-- The values that `filter_variables` sees. -/
def Host.values (host : Host) (arch : Arch) (name : List Char) : List Char :=
  if name = "arch".toList then arch.text else host.env name

/-- A kept line with the architecture put in. -/
theorem substitute_entrySource (entry : Option Entry) :
    substitute (host.values arch) (entrySource entry) =
      entry.elim [] fun e => render arch.text e.conditions e.package := by
  have harch : host.values arch "arch".toList = arch.text := if_pos rfl
  cases entry with
  | none => rfl
  | some e => exact substitute_render harch e.conditions e.package

/-- What awk makes of a kept line with the architecture put in. -/
theorem output_eq (l : Line) :
    (commentLine l.source).bind (fun line =>
      filterIfLine host.number (substitute (host.values arch) line)) = l.output host arch := by
  rw [commentLine_source, Line.output]
  cases hentry : l.entry with
  | none =>
    cases hspace : l.isSpaceOnly with
    | false => simp
    | true => rfl
  | some e =>
    have hline : filterIfLine host.number (spaces 0 ++ render arch.text e.conditions e.package) =
        if e.enabled host.number arch then some (e.name arch) else none :=
      filterIfLine_render arch e.conditions e.package 0
    simp only [Option.isSome_some, Bool.true_or, if_true, Option.bind_some, substitute_entrySource]
    exact hline

/-- The filtered list has a line for each enabled entry and an empty line for each line of white
space. -/
theorem filtered_listText (files : List PkgFile) :
    filtered host.number host.env arch.text (listText ['\n'] (files.map PkgFile.content)) =
      unlines ((files.flatMap PkgFile.lines).filterMap (Line.output host arch)) := by
  have hnul : ∀ content ∈ files.map PkgFile.content, Bash.nul ∉ content := by
    intro content hcontent
    obtain ⟨f, -, rfl⟩ := List.mem_map.1 hcontent
    exact nul_notMem_content f
  have hkept : kept (listText ['\n'] (files.map PkgFile.content)) =
      (files.flatMap PkgFile.lines).filterMap fun l => commentLine l.source := by
    have hfiles := kept_listText hnul []
    rw [List.nil_append] at hfiles
    rw [hfiles, List.flatMap_map, List.filterMap_flatMap]
    simp only [kept_content]
    rfl
  have hlines : ∀ line ∈ ((files.flatMap PkgFile.lines).filterMap fun l =>
      commentLine l.source).map (substitute (host.values arch)), '\n' ∉ line := by
    intro line hline
    obtain ⟨text, htext, rfl⟩ := List.mem_map.1 hline
    obtain ⟨l, -, hl⟩ := List.mem_filterMap.1 htext
    rw [commentLine_source, Option.ite_none_right_eq_some] at hl
    obtain ⟨-, htext⟩ := hl
    obtain rfl := Option.some.inj htext
    rw [substitute_entrySource]
    cases l.entry with
    | none => simp
    | some e =>
      have hchars : ∀ c ∈ render arch.text e.conditions e.package, c ≠ '\n' := by
        refine forall_mem_render ?_ (by simp) ?_ ?_ e.conditions e.package
        · rintro c hc rfl
          exact absurd (Arch.isOperandChar _ hc) (by decide)
        · rintro c hc rfl
          exact absurd hc (by decide)
        · rintro c hc rfl
          exact absurd hc (by decide)
      exact fun hmem => hchars _ hmem rfl
  have houtput : (fun l : Line => (commentLine l.source).bind fun line =>
      filterIfLine host.number (substitute (host.values arch) line)) = Line.output host arch :=
    funext output_eq
  rw [filtered, filterComment, ← kept, kept_newline, hkept, filterVariables, substitute_unlines,
    filterIf]
  change unlines ((lines (unlines (List.map (substitute (host.values arch)) _))).filterMap _) = _
  rw [lines_unlines hlines, List.filterMap_map, List.filterMap_filterMap, ← houtput]
  rfl

/-! ## What is selected -/

theorem name_plain (e : Entry) : ∀ c ∈ e.name arch, isPackageChar c :=
  forall_mem_package Arch.isPackageChar (fun _ hc => hc) e.package

theorem name_ne_nil (e : Entry) : e.name arch ≠ [] := spell_ne_nil arch.ne_nil e.package

theorem name_head_ne (e : Entry) : (e.name arch).head? ≠ some '-' := by
  intro h
  have hhead := e.package.head_ne
  unfold Entry.name spell at h
  cases hpieces : e.package.pieces with
  | nil => exact e.package.ne_nil hpieces
  | cons piece pieces =>
    rw [hpieces] at h hhead
    cases piece with
    | char c => exact hhead (congrArg (Option.map Piece.char) h)
    | arch =>
      rw [List.flatMap_cons, List.head?_append_of_ne_nil _ arch.ne_nil] at h
      exact arch.head_ne h

/-- The texts that are printed: names of packages and empty lines. -/
theorem output_plain {l : Line} {text : List Char} (h : l.output host arch = some text) :
    (∀ c ∈ text, isPackageChar c) ∧ text.head? ≠ some '-' := by
  unfold Line.output at h
  split at h
  · next e _ =>
    obtain ⟨-, htext⟩ := Option.ite_none_right_eq_some.1 h
    obtain rfl := Option.some.inj htext
    exact ⟨name_plain e, name_head_ne e⟩
  · obtain ⟨-, htext⟩ := Option.ite_none_right_eq_some.1 h
    obtain rfl := Option.some.inj htext
    simp

theorem mem_outputs_iff {ls : List Line} {text : List Char} (hne : text ≠ []) :
    text ∈ ls.filterMap (Line.output host arch) ↔ NamedIn host arch ls text := by
  rw [List.mem_filterMap]
  refine exists_congr fun l => and_congr_right fun _ => ?_
  unfold Line.output
  cases l.entry with
  | none => simp [hne.symm]
  | some e => simp [Option.ite_none_right_eq_some]

/-- What the lines print when they are a value of a variable and printed again. -/
theorem lines_echo_outputs (ls : List Line) :
    lines (echo (captured (unlines (ls.filterMap (Line.output host arch))))) =
      if (ls.filterMap (Line.output host arch)).rdropWhile (· = []) = [] then [[]]
      else (ls.filterMap (Line.output host arch)).rdropWhile (· = []) := by
  refine lines_echo_captured (fun text htext => ?_) fun text htext => ?_
  · obtain ⟨l, -, hl⟩ := List.mem_filterMap.1 htext
    have hplain := (output_plain hl).1
    exact ⟨fun h => absurd (hplain _ h) (by decide), fun h => absurd (hplain _ h) (by decide)⟩
  · obtain ⟨l, -, hl⟩ := List.mem_filterMap.1 htext
    exact (output_plain hl).2

/-- A line of white space stands before an enabled entry. -/
def SpaceBefore (host : Host) (arch : Arch) (ls : List Line) : Prop :=
  ∃ before l after, ls = before ++ l :: after ∧ l.isSpaceOnly ∧ ∃ q, NamedIn host arch after q

theorem namedIn_ne_nil {ls : List Line} {package : List Char} (h : NamedIn host arch ls package) :
    package ≠ [] := by
  obtain ⟨-, -, e, -, -, rfl⟩ := h
  exact name_ne_nil e

theorem output_eq_nil_iff {l : Line} : l.output host arch = some [] ↔ l.isSpaceOnly := by
  unfold Line.output Line.isSpaceOnly
  cases l.entry with
  | none => simp [or_iff_not_imp_left]
  | some e => simp [name_ne_nil]

theorem nil_mem_outputs_iff {ls : List Line} :
    [] ∈ (ls.filterMap (Line.output host arch)).rdropWhile (· = []) ↔ SpaceBefore host arch ls := by
  rw [nil_mem_rdropWhile_iff]
  constructor
  · rintro ⟨a, b, hab, t, ht, hne⟩
    obtain ⟨before, rest, rfl, -, hrest⟩ := List.filterMap_eq_append_iff.1 hab
    obtain ⟨skipped, l, after, rfl, -, hl, rfl⟩ := List.filterMap_eq_cons_iff.1 hrest
    exact ⟨before ++ skipped, l, after, by simp, output_eq_nil_iff.1 hl, t,
      (mem_outputs_iff hne).1 ht⟩
  · rintro ⟨before, l, after, rfl, hl, q, hq⟩
    have hne := namedIn_ne_nil hq
    refine ⟨before.filterMap (Line.output host arch), after.filterMap (Line.output host arch), ?_, q,
      (mem_outputs_iff hne).2 hq, hne⟩
    rw [List.filterMap_append, List.filterMap_cons_some (output_eq_nil_iff.2 hl)]

/-- The expressions of `grep`: names of excluded packages, and the empty expression if there are
none or a line of white space stands before one. -/
theorem mem_patterns_iff (dirs : List (PkgLists PkgFile)) {q : List Char} :
    q ∈ patterns host arch.text [] (dirs.map PkgLists.content) ↔
      NamedIn host arch (dirs.flatMap fun d => d.pkgExclude.lines) q ∨
        q = [] ∧ ((∀ q, ¬ NamedIn host arch (dirs.flatMap fun d => d.pkgExclude.lines) q) ∨
          SpaceBefore host arch (dirs.flatMap fun d => d.pkgExclude.lines)) := by
  have hstart : fromFlag (fromFlag []) = ['\n'] := rfl
  have hfiles : (dirs.map PkgLists.content).map PkgLists.pkgExclude =
      (dirs.map PkgLists.pkgExclude).map PkgFile.content := by
    simp [PkgLists.content]
  have hlines : (dirs.map PkgLists.pkgExclude).flatMap PkgFile.lines =
      dirs.flatMap fun d => d.pkgExclude.lines := by
    rw [List.flatMap_map]
  rw [patterns, hstart, hfiles, filtered_listText, hlines, lines_echo_outputs]
  generalize (dirs.flatMap fun d => d.pkgExclude.lines) = ls
  split
  · next hnil =>
    -- nothing is excluded
    have hnone : ∀ q, ¬ NamedIn host arch ls q := by
      intro q hq
      have hne := namedIn_ne_nil hq
      have hmem := (mem_rdropWhile_iff hne).2 ((mem_outputs_iff hne).2 hq)
      rw [hnil] at hmem
      cases hmem
    simp [hnone]
  · next hsome =>
    by_cases hq : q = []
    · subst hq
      have hnamed : ¬ NamedIn host arch ls [] := fun h => namedIn_ne_nil h rfl
      have hexists : ∃ q, NamedIn host arch ls q := by
        rw [List.rdropWhile_eq_nil_iff] at hsome
        push Not at hsome
        obtain ⟨text, htext, hne⟩ := hsome
        have hne : text ≠ [] := by simpa using hne
        exact ⟨text, (mem_outputs_iff hne).1 htext⟩
      rw [nil_mem_outputs_iff]
      obtain ⟨q, hq⟩ := hexists
      simp only [hnamed, false_or, true_and]
      exact ⟨Or.inr, fun h => h.resolve_left fun hall => hall q hq⟩
    · rw [mem_rdropWhile_iff hq, mem_outputs_iff hq]
      simp [hq]

/-- A package is selected if it is included and no expression matches it. -/
theorem mem_packages_iff (dirs : List (PkgLists PkgFile)) {p : List Char} :
    p ∈ packages host arch.text [] (dirs.map PkgLists.content) ↔
      NamedIn host arch (dirs.flatMap fun d => d.pkgInclude.lines) p ∧
        ∀ q ∈ patterns host arch.text [] (dirs.map PkgLists.content), ¬ matchesLine q p := by
  have hstart : fromFlag [] = ['\n'] := rfl
  have hfiles : (dirs.map PkgLists.content).map PkgLists.pkgInclude =
      (dirs.map PkgLists.pkgInclude).map PkgFile.content := by
    simp [PkgLists.content]
  have hlines : (dirs.map PkgLists.pkgInclude).flatMap PkgFile.lines =
      dirs.flatMap fun d => d.pkgInclude.lines := by
    rw [List.flatMap_map]
  rw [packages, hstart, hfiles, filtered_listText, hlines]
  generalize (dirs.flatMap fun d => d.pkgInclude.lines) = ls
  generalize patterns host arch.text [] (dirs.map PkgLists.content) = exprs
  have hplain : ∀ text ∈ ls.filterMap (Line.output host arch), ∀ c ∈ text, isPackageChar c := by
    intro text htext
    obtain ⟨l, -, hl⟩ := List.mem_filterMap.1 htext
    exact (output_plain hl).1
  have hnewline : ∀ text ∈ ls.filterMap (Line.output host arch), '\n' ∉ text :=
    fun text htext h => absurd (hplain text htext _ h) (by decide)
  have hblank : ∀ text ∈ grepNot exprs (ls.filterMap (Line.output host arch)), ∀ c ∈ text,
      Bash.isBlank c = false := by
    intro text htext c hc
    have hchar := hplain text (List.mem_filter.1 htext).1 c hc
    rw [Bool.eq_false_iff]
    intro hblank
    simp only [Bash.isBlank, Bool.or_eq_true, decide_eq_true_eq] at hblank
    rcases hblank with (rfl | rfl) | rfl <;> exact absurd hchar (by decide)
  rw [lines_unlines hnewline, words_unlines hblank, List.mem_filter, grepNot, List.mem_filter]
  constructor
  · rintro ⟨⟨hmem, hnot⟩, hne⟩
    exact ⟨(mem_outputs_iff (by simpa using hne)).1 hmem, by simpa using hnot⟩
  · rintro ⟨hnamed, hnot⟩
    have hne := namedIn_ne_nil hnamed
    exact ⟨⟨(mem_outputs_iff hne).2 hnamed, by simpa using hnot⟩, by simpa using hne⟩

/-- If no package is excluded, none is selected. -/
theorem packages_of_forall_not (dirs : List (PkgLists PkgFile))
    (h : ∀ q, ¬ NamedIn host arch (dirs.flatMap fun d => d.pkgExclude.lines) q) (p : List Char) :
    p ∉ packages host arch.text [] (dirs.map PkgLists.content) := by
  rw [mem_packages_iff]
  rintro ⟨-, hnot⟩
  exact hnot [] ((mem_patterns_iff dirs).2 (Or.inr ⟨rfl, Or.inl h⟩)) (matchesLine_nil p)

/-- Every selected package is installed, by its name or from a file, and those with a URL are
downloaded. -/
theorem aptLists_eq (host : Host) (arch flag : List Char) (dirs : List (PkgLists (List Char))) :
    aptLists host arch flag dirs =
      ⟨(packages host arch flag dirs).filter (!isDeb ·),
        ((packages host arch flag dirs).filter isDeb).map debFile,
        (packages host arch flag dirs).filter fun i => isDeb i && isUrl i⟩ := by
  have hloop : ∀ (is : List (List Char)) (apt : AptLists), is.foldl AptLists.add apt =
      ⟨apt.aptversion ++ is.filter (!isDeb ·), apt.aptfile ++ (is.filter isDeb).map debFile,
        apt.wget ++ is.filter fun i => isDeb i && isUrl i⟩ := by
    intro is
    induction is with
    | nil => simp
    | cons i is ih =>
      intro apt
      rw [List.foldl_cons, ih, AptLists.add]
      by_cases hdeb : isDeb i
      · by_cases hurl : isUrl i <;> simp [hdeb, hurl]
      · simp [hdeb]
  rw [aptLists, hloop]
  simp

/-! ## Includes and excludes -/

section Honours

variable (host : Host) (arch : Arch) (dir : FeatureDir PkgFile) (features : List String)

/-- The lines of the include lists. -/
def includeLines : List Line := (dir.selected features).flatMap fun d => d.pkgInclude.lines

/-- The lines of the exclude lists. -/
def excludeLines : List Line := (dir.selected features).flatMap fun d => d.pkgExclude.lines

/-- Exactly the included packages that are not excluded are selected. -/
def HonoursLists : Prop :=
  ∀ p, p ∈ packages host arch.text [] ((dir.selected features).map PkgLists.content) ↔
    NamedIn host arch (includeLines dir features) p ∧ ¬ NamedIn host arch (excludeLines dir features) p

/-- For an included package that is not excluded, there is an excluded one, none that is found in
its name, and no line of white space before one. -/
def ExcludesOnlyNames : Prop :=
  ∀ p, NamedIn host arch (includeLines dir features) p →
    ¬ NamedIn host arch (excludeLines dir features) p →
      (∃ q, NamedIn host arch (excludeLines dir features) q) ∧
        ¬ SpaceBefore host arch (excludeLines dir features) ∧
          ∀ q, NamedIn host arch (excludeLines dir features) q → ¬ matchesLine q p

/-- The lists are honoured if and only if no expression but its own name matches an included
package. -/
theorem honoursLists_iff :
    HonoursLists host arch dir features ↔ ExcludesOnlyNames host arch dir features := by
  simp only [HonoursLists, mem_packages_iff, mem_patterns_iff]
  constructor
  · intro h p hin hout
    obtain ⟨-, hnot⟩ := (h p).2 ⟨hin, hout⟩
    have hempty : ¬ ((∀ q, ¬ NamedIn host arch (excludeLines dir features) q) ∨
        SpaceBefore host arch (excludeLines dir features)) :=
      fun hempty => hnot [] (Or.inr ⟨rfl, hempty⟩) (matchesLine_nil p)
    rw [not_or, not_forall_not] at hempty
    exact ⟨hempty.1, hempty.2, fun q hq => hnot q (Or.inl hq)⟩
  · intro h p
    constructor
    · rintro ⟨hin, hnot⟩
      exact ⟨hin, fun hout => hnot p (Or.inl hout) (matchesLine_self p)⟩
    · rintro ⟨hin, hout⟩
      obtain ⟨⟨q, hq⟩, hspace, hnot⟩ := h p hin hout
      refine ⟨hin, ?_⟩
      rintro q' (hq' | ⟨-, hnone | hbefore⟩)
      · exact hnot q' hq'
      · exact absurd hq (hnone q)
      · exact absurd hbefore hspace

end Honours

/-- A package that is always included. -/
def plainEntry (name : List Char) (hplain : ∀ c ∈ name, isPackageChar c) (hne : name ≠ [])
    (hhead : name.head? ≠ some '-') : Entry where
  conditions := []
  package :=
    { pieces := name.map Piece.char
      plain := by simpa using hplain
      ne_nil := by simpa using hne
      head_ne := by simpa using hhead }

/-- One included package and nothing that is excluded. -/
def vimDir : FeatureDir PkgFile where
  top :=
    { pkgInclude := ⟨[⟨⟨[], by simp⟩,
        some (plainEntry ['v', 'i', 'm'] (by simp [isPackageChar, isPlain, isSpace, Bash.nul]) (by simp)
          (by simp)), ⟨[], by simp⟩, none⟩], true⟩
      pkgExclude := ⟨[], false⟩ }
  feature _ := ⟨⟨[], false⟩, ⟨[], false⟩⟩

def amd64 : Arch := ⟨['a', 'm', 'd', '6', '4'], by simp, by simp, by simp⟩

/-- Where nothing is excluded, an included package is not selected. -/
theorem honoursLists_fails :
    ¬ ∀ (host : Host) (arch : Arch) (dir : FeatureDir PkgFile) (features : List String),
      HonoursLists host arch dir features := by
  intro h
  have hnone : ∀ q, ¬ NamedIn ⟨fun _ => none, fun _ => []⟩ amd64 (excludeLines vimDir []) q := by
    rintro q ⟨l, hl, -⟩
    cases hl
  have hvim : NamedIn ⟨fun _ => none, fun _ => []⟩ amd64 (includeLines vimDir []) ['v', 'i', 'm'] :=
    ⟨_, List.mem_singleton_self _, _, rfl, rfl, rfl⟩
  exact packages_of_forall_not _ hnone _ ((h _ amd64 vimDir [] _).2 ⟨hvim, hnone _⟩)

end GardenInit
