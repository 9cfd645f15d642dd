import GardenLinux.Build.Makepart

/-!
# The fstab of an image

`/etc/fstab` is written in the turn of the root, before that turn sets `dump` and `pass`.  So the
line of the root is written with the `dump` and `pass` of the turn before: of any other entry, whose
pass is 0 or 2, or of none at all, and then the shell stops at the unset variable.

What is proved here:

* `stops_at_root` — if the root comes first, the run stops;
* `not_fstabWritten` — no description with a root outside verity gets a right `/etc/fstab`.
-/

namespace GardenBuild

open TextFilter FileTree

variable {α : Type}

/-! ## The right table -/

/-- One line for each entry, with the dump 0 and the pass of its target. -/
structure FstabCorrect (es : List Entry) (rows : List (List Text)) : Prop where
  complete : (rows.map fun row => row[1]?).Perm (es.map fun e => some e.target)
  dumpPass : ∀ row ∈ rows, ∀ target, row[1]? = some target → row.drop 4 = [['0'], passOf target]

/-- The loop does not stop at a variable, and `/etc/fstab` is written and right. -/
structure FstabWritten (s : Setup) (tree : FileTree.Tree (Content α)) (text : Text) : Prop where
  noUnset : ∀ name w, partitionLoop s tree text ≠ .error (.unset name, w)
  written : ∃ rows, (after (partitionLoop s tree text)).etcFstab = some rows ∧
    FstabCorrect (entries text) rows

/-! ## Rows of a table -/

theorem columns_append (ls ls' : List Text) : columns (ls ++ ls') = columns ls ++ columns ls' := by
  rw [columns, List.map_append, List.filter_append]
  rfl

theorem mem_columns {ls : List Text} {row : List Text} (h : row ∈ columns ls) :
    ∃ l ∈ ls, words l = row := by
  obtain ⟨hmap, -⟩ := List.mem_filter.1 h
  exact List.mem_map.1 hmap

theorem columns_mem {ls : List Text} {l : Text} (h : l ∈ ls) (hne : words l ≠ []) :
    words l ∈ columns ls :=
  List.mem_filter.2 ⟨List.mem_map.2 ⟨l, h, rfl⟩, by simpa using hne⟩

theorem echoWords_cons (v w : Text) (ws : List Text) :
    echoWords (v :: w :: ws) = v ++ ' ' :: echoWords (w :: ws) := by
  simp [echoWords, List.intercalate, List.intersperse]

/-- The last word is one in the line. -/
theorem getLast_echoWords (ws : List Text) {last : Text} (hne : last ≠ [])
    (hword : ∀ c ∈ last, Bash.isBlank c = false) :
    (words (echoWords (ws ++ [last]))).getLast? = some last := by
  induction ws with
  | nil =>
    show (words (echoWords [last])).getLast? = some last
    rw [echoWords, List.intercalate_singleton, words_word hne hword]
    rfl
  | cons w ws ih =>
    obtain ⟨v, vs, hvs⟩ := List.exists_cons_of_ne_nil (l := ws ++ [last]) (by simp)
    rw [hvs] at ih
    rw [List.cons_append, hvs, echoWords_cons, words_append_blank (by decide),
      List.getLast?_append, ih]
    rfl

/-- The lines for the overlays have the pass 2. -/
theorem getLast_overlayLine (dir : Text) : (words (overlayLine dir)).getLast? = some ['2'] :=
  getLast_echoWords [_, '/' :: dir, _, _, ['0']] (by decide) (by simp [Bash.isBlank])

theorem passOf_word (target : Text) :
    passOf target ≠ [] ∧ ∀ c ∈ passOf target, Bash.isBlank c = false := by
  unfold passOf
  split
  · simp [Bash.isBlank]
  · split <;> simp [Bash.isBlank]

theorem passOf_ne_one {target : Text} (h : target ≠ ['/']) : passOf target ≠ ['1'] := by
  unfold passOf
  rw [if_neg h]
  split <;> decide

/-! ## Entries of a description -/

/-- A field of a line is a word, or nothing. -/
theorem field_word {line : Text} {n : ℕ} (h : ((words line)[n]?).getD [] ≠ []) :
    n < (words line).length ∧ ∀ c ∈ ((words line)[n]?).getD [], Bash.isBlank c = false := by
  by_cases hn : n < (words line).length
  · refine ⟨hn, ?_⟩
    rw [List.getElem?_eq_getElem hn, Option.getD_some]
    exact (mem_words (List.getElem_mem hn)).2
  · exfalso
    apply h
    rw [List.getElem?_eq_none (not_lt.1 hn), Option.getD_none]

/-- The root has the depth 0, and its source is a word. -/
theorem root_fields {line : Text} (h : (readEntry line).target = ['/']) :
    (readEntry line).depth = 0 ∧ (readEntry line).source ≠ [] ∧
      ∀ c ∈ (readEntry line).source, Bash.isBlank c = false := by
  have htarget : ((words line)[1]?).getD [] = ['/'] := h
  refine ⟨?_, ?_⟩
  · show pathDepth (((words line)[1]?).getD []) = 0
    rw [htarget]
    decide
  · have hlen := (field_word (by rw [htarget]; decide)).1
    have hsource : (readEntry line).source = (words line)[0] := by
      show ((words line)[0]?).getD [] = _
      rw [List.getElem?_eq_getElem (by omega), Option.getD_some]
    rw [hsource]
    exact mem_words (List.getElem_mem (by omega))

/-! ## What is in the table -/

/-- No line has the pass of the root, or the root has a line with another one. -/
def Wrong (rows : List (List Text)) : Prop :=
  (∀ row ∈ rows, row.getLast? ≠ some ['1']) ∨
    ∃ row ∈ rows, row[1]? = some ['/'] ∧ row.getLast? ≠ some ['1']

theorem not_fstabCorrect {es : List Entry} {rows : List (List Text)} {e : Entry} (he : e ∈ es)
    (htarget : e.target = ['/']) (h : Wrong rows) : ¬ FstabCorrect es rows := by
  intro hc
  have hlast : ∀ row ∈ rows, row[1]? = some ['/'] → row.getLast? = some ['1'] := by
    intro row hrow hroot
    have hdrop : row.drop 4 = [['0'], ['1']] := hc.dumpPass row hrow _ hroot
    rw [← List.take_append_drop 4 row, hdrop, List.getLast?_append]
    rfl
  rcases h with hall | ⟨row, hrow, hroot, hne⟩
  · have hmem : some ['/'] ∈ rows.map fun row => row[1]? := by
      rw [hc.complete.mem_iff, List.mem_map]
      exact ⟨e, he, by rw [htarget]⟩
    obtain ⟨row, hrow, hroot⟩ := List.mem_map.1 hmem
    exact hall row hrow (hlast row hrow hroot)
  · exact hne (hlast row hrow hroot)

/-- The root has a line with the pass of another entry. -/
def Missed (w : Work α) : Prop :=
  ∃ row ∈ columns w.fstab, row[1]? = some ['/'] ∧ row.getLast? ≠ some ['1']

/-- No line has the pass of the root before it has a line with another one. -/
structure Misses (w : Work α) : Prop where
  lines : ((∀ row ∈ columns w.fstab, row.getLast? ≠ some ['1']) ∧ w.pass ≠ some ['1']) ∨ Missed w
  pass : ∀ pass, w.pass = some pass → ∃ target, pass = passOf target
  table : ∀ rows, w.etcFstab = some rows → Wrong rows

theorem Misses.start (tree : FileTree.Tree (Content α)) : Misses (Work.start tree) := by
  refine ⟨Or.inl ⟨?_, ?_⟩, ?_, ?_⟩
  · intro row hrow
    cases hrow
  · intro h
    cases h
  · intro pass h
    cases h
  · intro rows h
    cases h

/-- Only the lines, the pass and the table count. -/
theorem Misses.congr {w w' : Work α} (h : Misses w) (hfstab : w'.fstab = w.fstab)
    (hpass : w'.pass = w.pass) (htable : w'.etcFstab = w.etcFstab) : Misses w' := by
  refine ⟨?_, ?_, ?_⟩
  · unfold Missed
    rw [hfstab, hpass]
    exact h.lines
  · rw [hpass]
    exact h.pass
  · rw [htable]
    exact h.table

theorem Missed.addLines {w w' : Work α} (h : Missed w) {ls : List Text}
    (hfstab : w'.fstab = w.fstab ++ ls) : Missed w' := by
  obtain ⟨row, hrow, hbad⟩ := h
  refine ⟨row, ?_, hbad⟩
  rw [hfstab, columns_append]
  exact List.mem_append_left _ hrow

/-- Lines with another pass may be added. -/
theorem forall_columns_append {ls ls' : List Text}
    (h : ∀ row ∈ columns ls, row.getLast? ≠ some ['1'])
    (hls : ∀ l ∈ ls', (words l).getLast? ≠ some ['1']) :
    ∀ row ∈ columns (ls ++ ls'), row.getLast? ≠ some ['1'] := by
  intro row hrow
  rw [columns_append] at hrow
  rcases List.mem_append.1 hrow with hold | hnew
  · exact h row hold
  · obtain ⟨l, hl, rfl⟩ := mem_columns hnew
    exact hls l hl

/-! ## The turns -/

/-- The line that is written for the root. -/
theorem rootLine_missed {w : Work α} {e : Entry} (a : Attributes) (dump : Text) {pass target : Text}
    (hsource : e.source ≠ []) (hword : ∀ c ∈ e.source, Bash.isBlank c = false)
    (htarget : e.target = ['/']) (hpass : pass = passOf target) (hne : pass ≠ ['1'])
    (hmem : echoWords [e.source, e.target, e.fs, e.finalOptions a, dump, pass] ∈ w.fstab) :
    Missed w := by
  have hlast :
      (words (echoWords [e.source, e.target, e.fs, e.finalOptions a, dump, pass])).getLast? =
        some pass := by
    have hpassWord := passOf_word target
    rw [← hpass] at hpassWord
    exact getLast_echoWords [e.source, e.target, e.fs, e.finalOptions a, dump]
      hpassWord.1 hpassWord.2
  have hwords : words (echoWords [e.source, e.target, e.fs, e.finalOptions a, dump, pass]) =
      e.source :: ['/'] :: words (echoWords [e.fs, e.finalOptions a, dump, pass]) := by
    rw [echoWords_cons, words_append_blank (by decide), words_word hsource hword, htarget,
      echoWords_cons, words_append_blank (by decide), words_word (by decide) (by simp [Bash.isBlank])]
    rfl
  refine ⟨_, columns_mem hmem ?_, ?_, ?_⟩
  · rw [hwords]
    exact List.cons_ne_nil _ _
  · rw [hwords]
    rfl
  · rw [hlast]
    intro h
    exact hne (Option.some.inj h)

theorem misses_rootLines {w w' : Work α} {e : Entry} {a : Attributes} (h : Misses w)
    (hroot : e.target = ['/'] → a.verity = false ∧ e.source ≠ [] ∧
      ∀ c ∈ e.source, Bash.isBlank c = false)
    (hw : w.rootLines e a = .ok w') : Misses w' ∧ (e.target = ['/'] → Missed w') := by
  rcases rootLines_ok hw with ⟨hverity, rfl⟩ | ⟨-, dump, pass, -, hpass, rfl⟩
  · refine ⟨⟨?_, h.pass, h.table⟩, ?_⟩
    · rcases h.lines with ⟨hall, hne⟩ | hmissed
      · refine Or.inl ⟨forall_columns_append hall ?_, hne⟩
        intro l hl
        have hover : ∃ dir, l = overlayLine dir := by
          rcases List.mem_pair.1 hl with rfl | rfl
          · exact ⟨_, rfl⟩
          · exact ⟨_, rfl⟩
        obtain ⟨dir, rfl⟩ := hover
        rw [getLast_overlayLine]
        decide
      · exact Or.inr (hmissed.addLines rfl)
    · intro htarget
      rw [(hroot htarget).1] at hverity
      cases hverity
  · obtain ⟨target, htarget⟩ := h.pass pass hpass
    have hword := passOf_word target
    rw [← htarget] at hword
    have hlast : ∀ l ∈ [echoWords [e.source, e.target, e.fs, e.finalOptions a, dump, pass]],
        (words l).getLast? = some pass := by
      intro l hl
      rw [List.mem_singleton.1 hl]
      exact getLast_echoWords [e.source, e.target, e.fs, e.finalOptions a, dump]
        hword.1 hword.2
    refine ⟨⟨?_, h.pass, h.table⟩, ?_⟩
    · rcases h.lines with ⟨hall, hne⟩ | hmissed
      · refine Or.inl ⟨forall_columns_append hall ?_, hne⟩
        intro l hl
        rw [hlast l hl, ← hpass]
        exact hne
      · exact Or.inr (hmissed.addLines rfl)
    · intro hr
      obtain ⟨-, hsource, hblank⟩ := hroot hr
      rcases h.lines with ⟨-, hne⟩ | hmissed
      · rw [hpass] at hne
        refine rootLine_missed a dump hsource hblank hr htarget ?_ ?_
        · intro hone
          exact hne (congrArg some hone)
        · exact List.mem_append_right _ List.mem_cons_self
      · exact hmissed.addLines rfl

theorem misses_writeTables {s : Setup} {w w' : Work α} {e : Entry} (h : Misses w)
    (hw : w.writeTables s e = .ok w') : Misses w' ∧ (Missed w → Missed w') := by
  obtain ⟨p, q, -, -, rfl⟩ := writeTables_ok hw
  refine ⟨⟨h.lines, h.pass, ?_⟩, id⟩
  intro rows hrows
  rw [← Option.some.inj hrows]
  rcases h.lines with ⟨hall, -⟩ | hmissed
  · exact Or.inl hall
  · exact Or.inr hmissed

theorem misses_report {s : Setup} {w : Work α} {e : Entry} {a : Attributes} {file : PartFile}
    (h : Misses w) (hroot : e.target = ['/'] → Missed w) :
    Misses (after (w.report s e a file)) := by
  obtain ⟨hpass, htable, ls, hfstab, hls⟩ := report_tables s w e a file
  have hword := passOf_word e.target
  refine ⟨?_, ?_, ?_⟩
  · by_cases hr : e.target = ['/']
    · exact Or.inr ((hroot hr).addLines hfstab)
    · rcases h.lines with ⟨hall, -⟩ | hmissed
      · left
        rw [hfstab, hpass]
        refine ⟨forall_columns_append hall ?_, ?_⟩
        · intro l hl
          obtain ⟨ws, rfl⟩ := hls l hl
          rw [getLast_echoWords ws hword.1 hword.2]
          intro hone
          exact passOf_ne_one hr (Option.some.inj hone)
        · intro hone
          exact passOf_ne_one hr (Option.some.inj hone)
      · exact Or.inr (hmissed.addLines hfstab)
  · intro pass hset
    rw [hpass] at hset
    exact ⟨e.target, (Option.some.inj hset).symm⟩
  · rw [htable]
    exact h.table

/-- What a turn leaves: the root's line, if it is the root's turn. -/
theorem misses_step {s : Setup} {w : Work α} {e : Entry} (h : Misses w)
    (hroot : e.target = ['/'] → e.depth = 0 ∧ (s.attributes e).verity = false ∧ e.source ≠ [] ∧
      ∀ c ∈ e.source, Bash.isBlank c = false) : Misses (after (w.step s e)) := by
  have hlines : ∀ {w'}, w.rootLines e (s.attributes e) = .ok w' →
      Misses w' ∧ (e.target = ['/'] → Missed w') :=
    misses_rootLines h fun hr => (hroot hr).2
  refine after_step (Q := fun w => Misses w ∧ (e.target = ['/'] → Missed w)) h
    (fun _ hQ => hQ.1) ?_ ?_ ?_ ?_ ?_
  · intro stop hstop
    unfold Work.root at hstop
    split at hstop
    · cases hx : w.rootLines e (s.attributes e) with
      | error stop' =>
        rw [hx] at hstop
        cases hstop
        rw [rootLines_error hx]
        exact h
      | ok w₁ =>
        rw [hx] at hstop
        rw [writeTables_error hstop]
        exact (hlines hx).1
    · cases hstop
  · intro w' hw'
    unfold Work.root at hw'
    split at hw'
    · cases hx : w.rootLines e (s.attributes e) with
      | error stop =>
        rw [hx] at hw'
        cases hw'
      | ok w₁ =>
        rw [hx] at hw'
        obtain ⟨hmisses, hmissed⟩ := misses_writeTables (hlines hx).1 hw'
        exact ⟨hmisses, fun hr => hmissed ((hlines hx).2 hr)⟩
    · next hdepth =>
      cases hw'
      exact ⟨h, fun hr => absurd (hroot hr).1 hdepth⟩
  · intro w' file ⟨hmisses, hmissed⟩
    obtain ⟨hfstab, hpass, htable⟩ := mkfs_tables s w' e file
    refine ⟨hmisses.congr hfstab hpass htable, ?_⟩
    intro hr
    exact (hmissed hr).addLines (by rw [hfstab, List.append_nil])
  · intro w' file ⟨hmisses, hmissed⟩
    obtain ⟨hfstab, hpass, htable⟩ := syslinux_tables s w' e (s.attributes e) file
    refine ⟨hmisses.congr hfstab hpass htable, ?_⟩
    intro hr
    exact (hmissed hr).addLines (by rw [hfstab, List.append_nil])
  · intro w' file ⟨hmisses, hmissed⟩
    exact misses_report hmisses hmissed

/-! ## The table of the root -/

/-- If the root comes first, the run stops: `dump` is not set yet. -/
theorem stops_at_root {s : Setup} {tree : FileTree.Tree (Content α)} {text : Text} {e : Entry}
    {es : List Entry} (hfirst : sortEntries s.collate (entries text) = e :: es)
    (hdepth : e.depth = 0) (hverity : (s.attributes e).verity = false)
    (hruns : s.runs .truncate e = true) :
    partitionLoop s tree text = .error (.unset "dump".toList, .start tree) := by
  have hlines : (Work.start tree).rootLines e (s.attributes e) =
      .error (.unset "dump".toList, .start tree) := by
    unfold Work.rootLines
    rw [hverity]
    rfl
  have hroot : (Work.start tree).root s e (s.attributes e) =
      .error (.unset "dump".toList, .start tree) := by
    unfold Work.root
    rw [if_pos hdepth, hlines]
    rfl
  unfold partitionLoop
  rw [hfirst, loop, Work.step, if_pos hruns, hroot]
  rfl

/-- **No right table.** Where the root is outside verity, `makepart` stops at an unset variable, or
the line of the root has the pass of another entry. -/
theorem not_fstabWritten (s : Setup) (tree : FileTree.Tree (Content α)) (text : Text)
    (hdistinct : ((entries text).map Entry.target).Nodup)
    (hroot : ∃ e ∈ entries text, e.target = ['/'] ∧ (s.attributes e).verity = false) :
    ¬ FstabWritten s tree text := by
  intro hwritten
  obtain ⟨root, hmem, htarget, hverity⟩ := hroot
  obtain ⟨rows, hrows, hcorrect⟩ := hwritten.written
  have hmisses : Misses (after (partitionLoop s tree text)) := by
    refine after_loop ?_ (Misses.start tree)
    intro e he w hw
    have hentry : e ∈ entries text := (perm_sortEntries s.collate _).mem_iff.1 he
    refine misses_step hw ?_
    intro hr
    -- there is but one root
    have heq : e = root := List.inj_on_of_nodup_map hdistinct hentry hmem (by rw [hr, htarget])
    obtain ⟨line, hline⟩ := mem_entries hentry
    rw [hline] at hr
    obtain ⟨hdepth, hsource⟩ := root_fields hr
    rw [← hline] at hdepth hsource
    rw [heq] at hdepth hsource ⊢
    exact ⟨hdepth, hverity, hsource⟩
  exact not_fstabCorrect hmem htarget (hmisses.table rows hrows) hcorrect

/-- The directories of a system, without files. -/
def emptySystem : FileTree.Tree (Content Unit) := fun p =>
  if [[], ["etc".toList], ["usr".toList], ["boot".toList], ["boot".toList, "efi".toList]].contains p
  then some .dir else none

/-- The description of the metal feature. -/
def metalFstab : Text :=
  ("# <file system>    <dir>        <type>    <options>    <makeimg args>\n" ++
    "LABEL=EFI  /boot/efi  vfat  umask=0077  type=uefi,size=128MiB\n" ++
    "LABEL=ROOT  /  ext4  rw,errors=remount-ro,prjquota,discard\n" ++
    "LABEL=USR  /usr  ext4  ro,discard\n" ++
    "LABEL=SWAP  none  swap  sw  size=1GiB\n").toList

/-- Nothing but a root. -/
def rootFstab : Text := "LABEL=ROOT / ext4 rw\n".toList

theorem not_fstabWritten_root : ¬ FstabWritten plainSetup emptySystem rootFstab :=
  not_fstabWritten plainSetup emptySystem rootFstab (by decide +kernel) (by decide +kernel)

/-- On metal the root has the pass of the swap partition. -/
theorem fstabWritten_fails : ¬ FstabWritten plainSetup emptySystem metalFstab := by
  have htable : ((after (partitionLoop plainSetup emptySystem metalFstab)).etcFstab.map fun rows =>
      rows.map fun row => (row[1]?, row.drop 4)) =
      some [(some "/boot/efi".toList, [['0'], ['2']]), (some "/usr".toList, [['0'], ['2']]),
        (some "none".toList, [['0'], ['0']]), (some ['/'], [['0'], ['0']])] := by decide +kernel
  intro h
  obtain ⟨rows, hrows, hcorrect⟩ := h.written
  rw [hrows, Option.map_some, Option.some.injEq] at htable
  have hmem : (some ['/'], [['0'], ['0']]) ∈ rows.map fun row => (row[1]?, row.drop 4) := by
    rw [htable]
    simp
  obtain ⟨row, hrow, heq⟩ := List.mem_map.1 hmem
  obtain ⟨htarget, hdrop⟩ := Prod.mk.inj heq
  have hright := hcorrect.dumpPass row hrow _ htarget
  rw [hdrop] at hright
  exact absurd hright (by decide)

end GardenBuild
