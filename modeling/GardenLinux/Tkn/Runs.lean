import GardenLinux.Tkn.Tasks

/-!
# How tekton runs a task

A pipeline passes a task texts for its parameters, in which tekton has put the values of the
pipeline's own parameters; a parameter without one has its default.  With these values it fills
the scripts and the images of the steps.

What is proved here:

* `values_of_task` — the values of the parameters and the files of the results are values that
  a controller can be given;
* `runTask_calls` — every step of a task is run with its call, and in its image.
-/

namespace Tkn

open Template AllParams AllResults

/-- What tekton does: it puts values in the place of references, and has a file for each
result. -/
structure Controller extends Substitution where
  resultPath : String → List Char
  resultPath_passable : ∀ result ∈ [buildResult, manifestSetKeyResult], ∀ scriptType,
    ∀ c ∈ resultPath result.name, isPassableChar scriptType c

/-- The values of declared parameters: what is given, or the default. -/
def assign (declared : List NamedParam) (given : List (String × List Char)) :
    Option (List (List Char × List Char)) :=
  declared.mapM fun param =>
    ((given.lookup param.name).or (param.default?.map (·.toList))).map fun value =>
      (param.key, value)

/-- The steps of a task as they are run. -/
def runTask (tkn : Controller) (task : Task) (given : List (String × List Char)) :
    Option (List TaskStep) := do
  let values ← assign task.params given
  let rs := values ++ task.results.map fun result => (result.pathKey, tkn.resultPath result.name)
  pure (task.steps.map fun step =>
    ⟨step.name, String.ofList (tkn.put rs step.image.toList), tkn.put rs step.script⟩)

/-- A task of a pipeline; `rs` are the values that the pipeline has for its references. -/
def runPipelineTask (tkn : Controller) (tasks : List Task) (rs : List (List Char × List Char))
    (pipelineTask : Glci.PipelineTask) : Option (List TaskStep) := do
  let task ← tasks.find? (·.name = pipelineTask.taskRef)
  runTask tkn task (pipelineTask.params.map fun param =>
    (param.name, tkn.put rs param.value.toList))

/-- A relation between items may use that the first one is in the list. -/
theorem forall₂_imp_of_mem {α β : Type*} {R S : α → β → Prop} {xs : List α} {ys : List β}
    (h : List.Forall₂ R xs ys) (himp : ∀ x y, x ∈ xs → R x y → S x y) : List.Forall₂ S xs ys :=
  ((List.forall₂_and_left (p := (· ∈ xs)) _ _).2 ⟨fun _ hmem => hmem, h⟩).imp
    fun x y hboth => himp x y hboth.1 hboth.2

/-! ## Values -/

theorem assign_eq_some {declared : List NamedParam} {given : List (String × List Char)}
    {value : NamedParam → List Char}
    (h : ∀ param ∈ declared,
      (given.lookup param.name).or (param.default?.map (·.toList)) = some (value param)) :
    assign declared given = some (declared.map fun param => (param.key, value param)) := by
  induction declared with
  | nil => rfl
  | cons param declared ih =>
    rw [List.forall_mem_cons] at h
    rw [assign] at ih ⊢
    simp [h.1, ih h.2]

section Put

variable {sub : Substitution} {rs : List (List Char × List Char)}

variable (sub) in
theorem put_lit (hrs : Values rs) {s : List Char} (h : '$' ∉ s) : sub.put rs s = s := by
  have hput : sub.put rs (text [.lit s]) = fill (fun _ => []) [.lit s] :=
    sub.put_text hrs (by simpa [Piece.Plain] using h) (by simp [names])
  simpa [Piece.text] using hput

theorem put_reference (hrs : Values rs) {key v : List Char} (hkey : '$' ∉ key ∧ ')' ∉ key)
    (h : rs.lookup key = some v) : sub.put rs (reference key) = v := by
  have hput : sub.put rs (text [.var key]) = fill (fun _ => v) [.var key] :=
    sub.put_text hrs (by simpa [Piece.Plain] using hkey) (by simpa [names] using h)
  simpa [Piece.text] using hput

end Put

theorem key_inj {p q : NamedParam} (h : p.key = q.key) : p.name = q.name := by
  have htext : ("params.".toList ++ p.name.toList) = "params.".toList ++ q.name.toList := by
    simpa only [NamedParam.key, String.toList_append] using h
  exact String.toList_inj.1 (List.append_cancel_left htext)

theorem pathKey_inj {p q : NamedParam} (h : p.pathKey = q.pathKey) : p.name = q.name := by
  have htext : "results.".toList ++ (p.name.toList ++ ".path".toList) =
      "results.".toList ++ (q.name.toList ++ ".path".toList) := by
    simpa only [NamedParam.pathKey, String.toList_append, List.append_assoc] using h
  exact String.toList_inj.1 (List.append_cancel_right (List.append_cancel_left htext))

theorem key_ne_pathKey (p r : NamedParam) : p.key ≠ r.pathKey := by
  intro h
  have htext : "params.".toList ++ p.name.toList =
      "results.".toList ++ r.name.toList ++ ".path".toList := by
    simpa only [NamedParam.key, NamedParam.pathKey, String.toList_append] using h
  have hhead : 'p' = 'r' := Option.some.inj (congrArg List.head? htext)
  exact absurd hhead (by decide)

/-- Nothing in a key ends a reference or a line, or begins a reference. -/
theorem plain_of_known {param : NamedParam} (h : param ∈ knownParams) :
    '$' ∉ param.key ∧ ')' ∉ param.key ∧ '\n' ∉ param.key := by
  have hkey {c : Char} (hparams : c ∉ "params.".toList) (hc : ¬ PyCall.isNameChar c) :
      c ∉ param.key := by
    rw [NamedParam.key, String.toList_append, List.mem_append, not_or]
    exact ⟨hparams, fun hmem => hc ((isName_of_known (List.mem_append_left _ h)).2.1 c hmem)⟩
  exact ⟨hkey (by decide) (by decide), hkey (by decide) (by decide), hkey (by decide) (by decide)⟩

section Task

variable {tkn : Controller} {checkout : Checkout} {source : TaskSource} {task : Task}
  {value : NamedParam → List Char}

/-- The values that a task is run with. -/
def Controller.values (tkn : Controller) (task : Task) (value : NamedParam → List Char) :
    List (List Char × List Char) :=
  task.params.map (fun param => (param.key, value param)) ++
    task.results.map fun result => (result.pathKey, tkn.resultPath result.name)

variable (tkn) in
theorem values_of_task (h : Renders checkout source task) (hclosed : source.Closed)
    (hplain : ∀ param ∈ task.params, '$' ∉ value param) : Values (tkn.values task value) := by
  have hresult : ∀ result ∈ task.results, result ∈ [buildResult, manifestSetKeyResult] := by
    rw [h.results]
    exact hclosed.declares.2.2.1
  have hkeys : ∀ result ∈ [buildResult, manifestSetKeyResult],
      ')' ∉ result.pathKey ∧ '\n' ∉ result.pathKey := by decide
  have hmem {r : List Char × List Char} (hr : r ∈ tkn.values task value) :
      (∃ param ∈ task.params, r = (param.key, value param)) ∨
        ∃ result ∈ task.results, r = (result.pathKey, tkn.resultPath result.name) := by
    simpa [Controller.values, eq_comm] using hr
  refine ⟨?_, fun r hr => ?_, fun r hr => ?_, fun r hr => ?_⟩
  · rw [Controller.values, List.map_append, List.map_map, List.map_map, List.nodup_append]
    refine ⟨?_, ?_, ?_⟩
    · exact h.nodup.map_on fun p hp q hq heq =>
        eq_of_name_eq (h.known hclosed hp) (h.known hclosed hq) (key_inj heq)
    · have hnodup : (task.results.map (·.name)).Nodup := by
        rw [h.results]
        exact hclosed.declares.2.2.2.1
      exact hnodup.of_map.map_on fun r hr r' hr' heq =>
        List.inj_on_of_nodup_map hnodup hr hr' (pathKey_inj heq)
    · intro key hkey key' hkey'
      obtain ⟨param, -, rfl⟩ := List.mem_map.1 hkey
      obtain ⟨result, -, rfl⟩ := List.mem_map.1 hkey'
      exact key_ne_pathKey param result
  · rcases hmem hr with ⟨param, hparam, rfl⟩ | ⟨result, hres, rfl⟩
    · exact (plain_of_known (h.known hclosed hparam)).2.1
    · exact (hkeys result (hresult result hres)).1
  · rcases hmem hr with ⟨param, hparam, rfl⟩ | ⟨result, hres, rfl⟩
    · exact (plain_of_known (h.known hclosed hparam)).2.2
    · exact (hkeys result (hresult result hres)).2
  · rcases hmem hr with ⟨param, hparam, rfl⟩ | ⟨result, hres, rfl⟩
    · exact hplain param hparam
    · intro hd
      exact absurd (tkn.resultPath_passable result (hresult result hres) .bourneShell _ hd)
        (by decide)

/-- The image of a step: written out, or the value of a parameter. -/
def StepSource.imageOf (source : StepSource) (value : NamedParam → List Char) : List Char :=
  match knownParams.find? fun param => source.image = String.ofList (reference param.key) with
  | some param => value param
  | none => source.image.toList

/-- A step that is run with its call, in its image. -/
structure RunsAs (tkn : Controller) (value : NamedParam → List Char) (source : StepSource)
    (step : TaskStep) : Prop where
  name : step.name = source.name
  image : step.image.toList = source.imageOf value
  call : readCall source.scriptType (lastLine step.script) =
    some (source.call value fun result => tkn.resultPath result.name)

/-- The values can stand between the quotes of all calls. -/
def TaskSource.Accepts (source : TaskSource) (value : NamedParam → List Char) : Prop :=
  ∀ step ∈ source.steps, ∀ param ∈ step.params, ∀ c ∈ value param,
    isPassableChar step.scriptType c

theorem lookup_key (h : Renders checkout source task) (hclosed : source.Closed)
    (hplain : ∀ param ∈ task.params, '$' ∉ value param) {param : NamedParam}
    (hparam : param ∈ task.params) :
    (tkn.values task value).lookup param.key = some (value param) :=
  lookup_eq_some_of_nodup (r := (param.key, value param))
    (values_of_task tkn h hclosed hplain).nodup
    (List.mem_append_left _ (List.mem_map_of_mem (f := fun param => (param.key, value param)) hparam))

theorem lookup_pathKey (h : Renders checkout source task) (hclosed : source.Closed)
    (hplain : ∀ param ∈ task.params, '$' ∉ value param) {result : NamedParam}
    (hresult : result ∈ task.results) :
    (tkn.values task value).lookup result.pathKey = some (tkn.resultPath result.name) :=
  lookup_eq_some_of_nodup (r := (result.pathKey, tkn.resultPath result.name))
    (values_of_task tkn h hclosed hplain).nodup
    (List.mem_append_right _ (List.mem_map_of_mem
      (f := fun result => (result.pathKey, tkn.resultPath result.name)) hresult))

theorem put_image (h : Renders checkout source task) (hclosed : source.Closed)
    (hplain : ∀ param ∈ task.params, '$' ∉ value param) {step : StepSource}
    (hstep : step ∈ source.steps) :
    tkn.put (tkn.values task value) step.image.toList = step.imageOf value := by
  have hvalues := values_of_task tkn h hclosed hplain
  have himage := hclosed.declares.2.2.2.2 step.image (List.mem_map_of_mem hstep)
  rcases List.mem_append.1 himage with hwritten | hparam
  · have hnone : ∀ image ∈ [defaultImage, kanikoImage], '$' ∉ image.toList := by decide
    have hdollar := hnone step.image hwritten
    have hfind : knownParams.find? (fun param => step.image = String.ofList (reference param.key)) =
        none := by
      refine List.find?_eq_none.2 fun param _ heq => hdollar ?_
      simp [of_decide_eq_true heq, reference]
    rw [put_lit tkn.toSubstitution hvalues hdollar, StepSource.imageOf, hfind]
  · obtain ⟨param, hmem, himage⟩ := List.mem_map.1 hparam
    have hdeclared : param ∈ task.params := (h.params param).2 hmem
    have hknown := h.known hclosed hdeclared
    have hfind : knownParams.find? (fun param => step.image = String.ofList (reference param.key)) =
        some param := by
      obtain ⟨other, hother⟩ := Option.isSome_iff_exists.1 (List.find?_isSome.2
        ⟨param, hknown, by simpa using himage.symm⟩ : (knownParams.find?
          fun param => step.image = String.ofList (reference param.key)).isSome)
      have heq : step.image = String.ofList (reference other.key) := by
        simpa using List.find?_some hother
      have hkey : other.key = param.key := by
        have hrefs := String.ofList_injective (heq.symm.trans himage.symm)
        simpa [reference] using hrefs
      rw [hother, eq_of_name_eq (List.mem_of_find?_eq_some hother) hknown (key_inj hkey)]
    have hkey := plain_of_known hknown
    rw [← himage, String.toList_ofList,
      put_reference hvalues ⟨hkey.1, hkey.2.1⟩ (lookup_key h hclosed hplain hdeclared),
      StepSource.imageOf, hfind]

variable (tkn) in
/-- A task runs its steps with their calls. -/
theorem runTask_calls (h : Renders checkout source task) (hclosed : source.Closed)
    {given : List (String × List Char)}
    (hgiven : ∀ param ∈ task.params,
      (given.lookup param.name).or (param.default?.map (·.toList)) = some (value param))
    (hplain : ∀ param ∈ task.params, '$' ∉ value param) (haccepts : source.Accepts value) :
    ∃ steps, runTask tkn task given = some steps ∧
      List.Forall₂ (RunsAs tkn value) source.steps steps := by
  have hvalues := values_of_task tkn h hclosed hplain
  refine ⟨task.steps.map fun step => ⟨step.name,
    String.ofList (tkn.put (tkn.values task value) step.image.toList),
    tkn.put (tkn.values task value) step.script⟩, ?_, ?_⟩
  · simp [runTask, assign_eq_some hgiven, Controller.values]
  · rw [List.forall₂_map_right_iff]
    refine forall₂_imp_of_mem h.steps fun step rendered hstep hrendered => ?_
    obtain ⟨hname, himage, -⟩ := of_step_ok hrendered
    have hresults : ∀ result ∈ step.results, result ∈ task.results := fun result hresult => by
      rw [h.results]
      exact hclosed.declares.2.1 result (List.mem_flatMap.2 ⟨step, hstep, hresult⟩)
    have hparams : ∀ param ∈ step.params, param ∈ task.params := fun param hparam =>
      (h.params param).2 (List.mem_append_right _
        (List.mem_flatMap.2 ⟨step, hclosed.made step hstep, hparam⟩))
    refine ⟨hname, by rw [himage, String.toList_ofList, put_image h hclosed hplain hstep], ?_⟩
    refine runs_call tkn.toSubstitution (hclosed.wellFormed step hstep) hrendered hvalues
      (fun param hparam => lookup_key h hclosed hplain (hparams param hparam))
      (fun result hresult => lookup_pathKey h hclosed hplain (hresults result hresult))
      ⟨haccepts step hstep, fun result hresult => ?_⟩
    have hmem := hclosed.declares.2.2.1 result (h.results ▸ hresults result hresult)
    exact tkn.resultPath_passable result hmem step.scriptType

end Task

end Tkn
