import GardenLinux.Tkn.Delivery

/-!
# Plain values, and the status of the tasks

Values in which nothing has a meaning between the quotes of a call, and the one value that is
made of others: the dictionary with the status of each task, which the pipeline passes to the
task at its end.

What is proved here:

* `plain_default` — the defaults of the parameters are plain values;
* `text_statusPieces` — the dictionary as a text with references;
* `put_statusStr` — the task at the end is told how each of the others ended.
-/

namespace Tkn

open Template AllParams
open Bash (squote dquote)
open Glci (GardenlinuxFlavour PipelineFlavour PipelineTask TektonTask getPassedParameters
  generateTaskName getModifierNames CallOrders)

/-! ## Values without a meaning -/

/-- A character that has no meaning between the quotes of any call. -/
def isPlainChar (c : Char) : Bool := isPassableChar .python3 c && isPassableChar .bourneShell c

def Plain (s : List Char) : Prop := ∀ c ∈ s, isPlainChar c

instance : DecidablePred Plain := fun s => inferInstanceAs (Decidable (∀ c ∈ s, isPlainChar c))

theorem Plain.passable {s : List Char} (h : Plain s) (scriptType : ScriptType) :
    ∀ c ∈ s, isPassableChar scriptType c := fun c hc => by
  have hboth := h c hc
  simp only [isPlainChar, Bool.and_eq_true] at hboth
  cases scriptType
  · exact hboth.2
  · exact hboth.1

theorem Plain.dollar {s : List Char} (h : Plain s) : '$' ∉ s := fun hmem =>
  absurd (h _ hmem) (by decide)

theorem Plain.append {s t : List Char} (hs : Plain s) (ht : Plain t) : Plain (s ++ t) :=
  fun c hc => (List.mem_append.1 hc).elim (hs c) (ht c)

/-- The values of a run. -/
structure PipelineRun.Plain (run : PipelineRun) : Prop where
  name : Tkn.Plain run.name.toList
  runNamespace : Tkn.Plain run.runNamespace.toList
  params : ∀ param ∈ run.params, Tkn.Plain param.2

theorem plain_default {param : NamedParam} (h : param ∈ knownParams) {default : String}
    (hdefault : param.default? = some default) : Plain default.toList := by
  have hall : knownParams.all fun param =>
      param.default?.all fun default => default.toList.all isPlainChar := by
    decide +kernel
  have hparam := List.all_eq_true.1 hall param h
  rw [hdefault] at hparam
  exact List.all_eq_true.1 hparam

theorem PipelineRun.Plain.value {run : PipelineRun} (hrun : run.Plain) {param : NamedParam}
    (h : param ∈ knownParams) {v : List Char} (hv : run.value param = some v) : Tkn.Plain v := by
  unfold PipelineRun.value at hv
  cases hlookup : run.params.lookup param.name with
  | some given =>
    obtain rfl : given = v := by simpa [hlookup] using hv
    obtain ⟨l₁, l₂, hsplit, -⟩ := List.lookup_eq_some_iff.1 hlookup
    exact hrun.params (param.name, given) (by simp [hsplit])
  | none =>
    rw [hlookup, Option.none_or, Option.map_eq_some_iff] at hv
    obtain ⟨default, hdefault, rfl⟩ := hv
    exact plain_default h hdefault

theorem Plain.join (parts : List String) (h : ∀ part ∈ parts, Plain part.toList) :
    Plain ((String.singleton ',').intercalate parts).toList := by
  rw [String.toList_intercalate, String.toList_singleton]
  induction parts with
  | nil => simp [Plain]
  | cons part parts ih =>
    rw [List.forall_mem_cons] at h
    cases parts with
    | nil => simpa using h.1
    | cons part' parts =>
      rw [List.map_cons, List.map_cons, List.intercalate_cons_cons]
      have hcomma : Plain [','] := fun c hc => List.mem_singleton.1 hc ▸ by decide
      exact (h.1.append hcomma).append (ih h.2)

/-! ## The status of the tasks -/

/-- A character that stands for itself in a JSON text. -/
def isJsonChar (c : Char) : Bool :=
  32 ≤ c.toNat && c.toNat ≤ 126 && c ≠ dquote && c ≠ Bash.backslash

/-- A character of the name of a task: it stands for itself in a JSON text and between the quotes
of a call, and does not end a reference. -/
def isTaskChar (c : Char) : Bool := isPlainChar c && isJsonChar c && c ≠ ')'

def TaskName (name : String) : Prop := ∀ c ∈ name.toList, isTaskChar c

/-- The dictionary with the status of each task. -/
def statusJson (status : String → List Char) (tasks : List PipelineTask) : List Char :=
  let names := (tasks.map (·.name)).foldl insertNew []
  Char.ofNat 123 :: [',', ' '].intercalate (names.map fun name =>
    Glci.jsonString ("status_" ++ name) ++ ':' :: ' ' :: dquote :: (status name ++ [dquote])) ++
      [Char.ofNat 125]

theorem isJsonChar_of_isTaskChar {c : Char} (h : isTaskChar c) : isJsonChar c := by
  simp only [isTaskChar, Bool.and_eq_true] at h
  exact h.1.2

theorem jsonChar_of_isJsonChar {c : Char} (h : isJsonChar c) : Glci.jsonChar c = [c] := by
  simp only [isJsonChar, Bool.and_eq_true, decide_eq_true_eq] at h
  obtain ⟨⟨⟨hlow, hhigh⟩, hdquote⟩, hbackslash⟩ := h
  have hquote : c.toNat ≠ 34 := fun heq => hdquote (by rw [← Char.ofNat_toNat c, heq]; rfl)
  have hslash : c.toNat ≠ 92 := fun heq => hbackslash (by rw [← Char.ofNat_toNat c, heq]; rfl)
  unfold Glci.jsonChar
  simp only [hquote, hslash, if_false]
  rw [if_neg (by omega), if_neg (by omega), if_neg (by omega), if_neg (by omega),
    if_neg (by omega), if_pos ⟨hlow, hhigh⟩]

/-- A text without characters that are escaped stands between the quotes as it is. -/
theorem jsonString_eq {s : String} (h : s.toList.all isJsonChar) :
    Glci.jsonString s = dquote :: (s.toList ++ [dquote]) := by
  have hflat : ∀ l : List Char, (∀ c ∈ l, isJsonChar c) → l.flatMap Glci.jsonChar = l := by
    intro l hl
    induction l with
    | nil => rfl
    | cons c l ih =>
      rw [List.forall_mem_cons] at hl
      rw [List.flatMap_cons, jsonChar_of_isJsonChar hl.1, ih hl.2]
      rfl
  rw [Glci.jsonString, hflat _ (List.all_eq_true.1 h)]
  rfl

theorem mem_foldl_insertNew {α : Type} [DecidableEq α] {l acc : List α} {a : α} :
    a ∈ l.foldl insertNew acc ↔ a ∈ acc ∨ a ∈ l := by
  induction l generalizing acc with
  | nil => simp
  | cons b l ih =>
    rw [List.foldl_cons, ih, insertNew]
    split
    · next hmem =>
      rw [List.mem_cons]
      constructor
      · exact fun h => h.imp_right .inr
      · rintro (h | rfl | h)
        · exact .inl h
        · exact .inl hmem
        · exact .inr h
    · simp [or_assoc]

theorem nodup_foldl_insertNew {α : Type} [DecidableEq α] {l acc : List α} (h : acc.Nodup) :
    (l.foldl insertNew acc).Nodup := by
  induction l generalizing acc with
  | nil => exact h
  | cons b l ih =>
    refine ih ?_
    rw [insertNew]
    split
    · exact h
    · next hmem => simpa [List.nodup_append, hmem] using ⟨h, fun a ha heq => hmem (heq ▸ ha)⟩

/-- The name of a task, and the reference to its status. -/
def statusPieces (names : List String) : List Piece :=
  .lit [Char.ofNat 123] :: ([.lit [',', ' ']].intercalate (names.map fun name =>
    [.lit (dquote :: ("status_" ++ name).toList ++ [dquote, ':', ' ', dquote]),
      .var ("tasks." ++ name ++ ".status").toList, .lit [dquote]]) ++ [.lit [Char.ofNat 125]])

theorem fill_statusPieces (value : List Char → List Char) (names : List String) :
    fill value (statusPieces names) = Char.ofNat 123 :: [',', ' '].intercalate (names.map fun name =>
      dquote :: (("status_" ++ name).toList ++ dquote :: ':' :: ' ' :: dquote ::
        (value ("tasks." ++ name ++ ".status").toList ++ [dquote]))) ++ [Char.ofNat 125] := by
  simp [statusPieces, fill_intercalate, Function.comp_def]

theorem TaskName.plain {name : String} (h : TaskName name) : Plain name.toList := fun c hc => by
  have hc := h c hc
  simp only [isTaskChar, Bool.and_eq_true] at hc
  exact hc.1.1

theorem TaskName.isJsonChar {name : String} (h : TaskName name) : name.toList.all isJsonChar :=
  List.all_eq_true.2 fun c hc => isJsonChar_of_isTaskChar (h c hc)

theorem jsonString_status {name : String} (h : TaskName name) :
    Glci.jsonString ("status_" ++ name) = dquote :: (("status_" ++ name).toList ++ [dquote]) := by
  have hkey : "status_".toList.all isJsonChar := by decide +kernel
  refine jsonString_eq ?_
  rw [String.toList_append, List.all_append, hkey, h.isJsonChar]
  rfl

theorem jsonString_reference {name : String} (h : TaskName name) :
    Glci.jsonString ("$(tasks." ++ name ++ ".status)") =
      dquote :: (reference ("tasks." ++ name ++ ".status").toList ++ [dquote]) := by
  have hopen : "$(tasks.".toList.all isJsonChar := by decide +kernel
  have hclose : ".status)".toList.all isJsonChar := by decide +kernel
  have hopen' : "$(tasks.".toList = '$' :: '(' :: "tasks.".toList := rfl
  have hclose' : ".status)".toList = ".status".toList ++ [')'] := by decide
  rw [jsonString_eq]
  · simp only [reference, String.toList_append, List.append_assoc, hopen', hclose',
      List.cons_append]
  · rw [String.toList_append, String.toList_append, List.all_append, List.all_append, hopen, hclose,
      h.isJsonChar]
    rfl

theorem text_statusPieces {tasks : List PipelineTask} (h : ∀ task ∈ tasks, TaskName task.name) :
    text (statusPieces ((tasks.map (·.name)).foldl insertNew [])) = statusStr tasks := by
  rw [text_eq_fill, fill_statusPieces, statusStr]
  congr 3
  refine List.map_congr_left fun name hname => ?_
  have htask : TaskName name := by
    obtain ⟨task, htask, rfl⟩ : ∃ task ∈ tasks, task.name = name := by
      simpa [mem_foldl_insertNew] using hname
    exact h task htask
  simp [jsonString_status htask, jsonString_reference htask]

/-- What can stand in the dictionary. -/
def isStatusChar (c : Char) : Bool := isPassableChar .python3 c && c ≠ '$'

theorem isStatusChar_of_isPlainChar {c : Char} (h : isPlainChar c) : isStatusChar c := by
  have hdollar : c ≠ '$' := by
    rintro rfl
    exact absurd h (by decide)
  simp only [isPlainChar, Bool.and_eq_true] at h
  simp [isStatusChar, h.1, hdollar]

theorem statusPieces_cases {names : List String} (h : ∀ name ∈ names, TaskName name) {p : Piece}
    (hp : p ∈ statusPieces names) :
    (∃ s, p = .lit s ∧ ∀ c ∈ s, isStatusChar c) ∨
      ∃ name ∈ names, p = .var ("tasks." ++ name ++ ".status").toList := by
  have hlit {s : List Char} (hs : s.all isStatusChar) :
      (∃ s', Piece.lit s = .lit s' ∧ ∀ c ∈ s', isStatusChar c) ∨
        ∃ name ∈ names, Piece.lit s = .var ("tasks." ++ name ++ ".status").toList :=
    .inl ⟨s, rfl, List.all_eq_true.1 hs⟩
  simp only [statusPieces, List.mem_cons, List.mem_append, List.not_mem_nil, or_false] at hp
  rcases hp with rfl | hp | rfl
  · exact hlit (by decide)
  · rcases mem_intercalate hp with hsep | ⟨part, hpart, hp⟩
    · obtain rfl := List.mem_singleton.1 hsep
      exact hlit (by decide)
    · obtain ⟨name, hname, rfl⟩ := List.mem_map.1 hpart
      simp only [List.mem_cons, List.not_mem_nil, or_false] at hp
      rcases hp with rfl | rfl | rfl
      · have hkey : "status_".toList.all isStatusChar := by decide
        have hquotes : [dquote, ':', ' ', dquote].all isStatusChar := by decide
        have hname' : name.toList.all isStatusChar := List.all_eq_true.2 fun c hc =>
          isStatusChar_of_isPlainChar ((h name hname).plain c hc)
        refine hlit ?_
        rw [String.toList_append, List.cons_append, List.all_cons, List.all_append, List.all_append,
          hkey, hname', hquotes]
        decide
      · exact .inr ⟨name, hname, rfl⟩
      · exact hlit (by decide)
  · exact hlit (by decide)

theorem taskName_key {name : String} (h : TaskName name) :
    '$' ∉ ("tasks." ++ name ++ ".status").toList ∧ ')' ∉ ("tasks." ++ name ++ ".status").toList ∧
      '\n' ∉ ("tasks." ++ name ++ ".status").toList := by
  have hno {c : Char} (hc : ¬ isTaskChar c) : c ∉ name.toList := fun hmem => hc (h c hmem)
  simp only [String.toList_append, List.mem_append, not_or]
  exact ⟨⟨⟨by decide, hno (by decide)⟩, by decide⟩, ⟨⟨by decide, hno (by decide)⟩, by decide⟩,
    ⟨⟨by decide, hno (by decide)⟩, by decide⟩⟩

/-- The task at the end is told how each of the others ended. -/
theorem put_statusStr (sub : Substitution) {rs : List (List Char × List Char)}
    {status : String → List Char} {tasks : List PipelineTask} (hrs : Values rs)
    (h : ∀ task ∈ tasks, TaskName task.name)
    (hstatus : ∀ task ∈ tasks,
      rs.lookup ("tasks." ++ task.name ++ ".status").toList = some (status task.name)) :
    sub.put rs (statusStr tasks) = statusJson status tasks := by
  have hnames : ∀ name ∈ (tasks.map (·.name)).foldl insertNew [], TaskName name ∧
      rs.lookup ("tasks." ++ name ++ ".status").toList = some (status name) := by
    intro name hname
    obtain ⟨task, htask, rfl⟩ : ∃ task ∈ tasks, task.name = name := by
      simpa [mem_foldl_insertNew] using hname
    exact ⟨h task htask, hstatus task htask⟩
  have hput : sub.put rs (text (statusPieces ((tasks.map (·.name)).foldl insertNew []))) =
      fill (fun key => (rs.lookup key).getD [])
        (statusPieces ((tasks.map (·.name)).foldl insertNew [])) := sub.put_text hrs ?_ ?_
  · rw [← text_statusPieces h, hput, fill_statusPieces, statusJson]
    congr 3
    refine List.map_congr_left fun name hname => ?_
    obtain ⟨htask, hlookup⟩ := hnames name hname
    rw [jsonString_status htask, hlookup, Option.getD_some, List.cons_append, List.append_assoc]
    rfl
  · intro p hp
    rcases statusPieces_cases (fun name hname => (hnames name hname).1) hp with
      ⟨s, rfl, hs⟩ | ⟨name, hname, rfl⟩
    · have hdollar : '$' ∉ s := fun hmem => absurd (hs _ hmem) (by decide)
      exact hdollar
    · have hkey := taskName_key (hnames name hname).1
      exact ⟨hkey.1, hkey.2.1⟩
  · intro key hkey
    rcases statusPieces_cases (fun name hname => (hnames name hname).1) (mem_names_iff.1 hkey) with
      ⟨s, heq, -⟩ | ⟨name, hname, heq⟩
    · cases heq
    · cases heq
      rw [(hnames name hname).2]
      rfl

/-- The dictionary can be passed between the quotes of a call of the Python language. -/
theorem isStatusChar_statusJson {status : String → List Char} {tasks : List PipelineTask}
    (h : ∀ task ∈ tasks, TaskName task.name) (hstatus : ∀ name, Plain (status name)) :
    ∀ c ∈ statusJson status tasks, isStatusChar c := by
  have hnames : ∀ name ∈ (tasks.map (·.name)).foldl insertNew [], TaskName name := by
    intro name hname
    obtain ⟨task, htask, rfl⟩ : ∃ task ∈ tasks, task.name = name := by
      simpa [mem_foldl_insertNew] using hname
    exact h task htask
  have hall {s : List Char} (hs : s.all isStatusChar) : ∀ c ∈ s, isStatusChar c :=
    List.all_eq_true.1 hs
  have hplain {s : List Char} (hs : Plain s) : s.all isStatusChar :=
    List.all_eq_true.2 fun c hc => isStatusChar_of_isPlainChar (hs c hc)
  have hkey : "status_".toList.all isStatusChar := by decide
  have hquotes : isStatusChar dquote ∧ isStatusChar ':' ∧ isStatusChar ' ' := by decide
  intro c hc
  simp only [statusJson, List.cons_append, List.mem_cons, List.mem_append, List.not_mem_nil,
    or_false] at hc
  rcases hc with rfl | hc | rfl
  · decide
  · rcases mem_intercalate hc with hsep | ⟨part, hpart, hc⟩
    · exact hall (s := [',', ' ']) (by decide) c hsep
    · obtain ⟨name, hname, rfl⟩ := List.mem_map.1 hpart
      have hname' := hnames name hname
      refine hall ?_ c hc
      rw [jsonString_status hname', String.toList_append]
      simp only [List.all_append, List.all_cons, List.all_nil, hkey, hquotes, hplain hname'.plain,
        hplain (hstatus name), Bool.and_true]
  · decide

end Tkn
