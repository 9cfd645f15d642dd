import GardenLinux.Tkn.Render

/-!
# What the steps of a pipeline are called with

From the parameters of a run to the calls of the steps: tekton puts the values of the run in
what the tasks of the pipeline pass, and what they pass in the scripts.  Without the rendering
in between a pipeline is a list of jobs: a task, with some values of its own and otherwise those
of the run.

What is proved here:

* `paramValue_reverse` — in which order a task sets values of its own makes no difference;
* `runPipelineTask_calls` — a task of a pipeline runs the steps of its job with their calls.
-/

namespace Tkn

open Template AllParams
open Glci (GardenlinuxFlavour PipelineFlavour PipelineTask TektonTask getPassedParameters
  generateTaskName getModifierNames CallOrders)

/-! ## Runs -/

structure PipelineRun where
  name : String
  runNamespace : String
  params : List (String × List Char)

/-- The value of a parameter of the pipeline. -/
def PipelineRun.value (run : PipelineRun) (param : NamedParam) : Option (List Char) :=
  (run.params.lookup param.name).or (param.default?.map (·.toList))

/-- The values of a run that do not depend on its parameters. -/
def PipelineRun.context (run : PipelineRun) (pipeline : Pipeline) :
    List (List Char × List Char) :=
  [("context.pipelineRun.name".toList, run.name.toList),
    ("context.pipelineRun.namespace".toList, run.runNamespace.toList),
    ("context.pipeline.name".toList, pipeline.name.toList)]

/-- How the tasks ended, for the tasks at the end. -/
def statusValues (status : String → List Char) (tasks : List PipelineTask) :
    List (List Char × List Char) :=
  ((tasks.map (·.name)).foldl insertNew []).map fun name =>
    (("tasks." ++ name ++ ".status").toList, status name)

/-- The steps that a pipeline runs: those of its tasks, and those of the tasks at the end. -/
def runPipeline (tkn : Controller) (allTasks : List Task) (run : PipelineRun)
    (pipeline : Pipeline) (status : String → List Char) :
    Option (List (List TaskStep) × List (List TaskStep)) := do
  let values ← assign pipeline.params run.params
  let rs := values ++ run.context pipeline
  let steps ← pipeline.tasks.mapM (runPipelineTask tkn allTasks rs)
  let finallySteps ← pipeline.finallyTasks.mapM
    (runPipelineTask tkn allTasks (rs ++ statusValues status pipeline.tasks))
  pure (steps, finallySteps)

/-! ## Jobs -/

/-- What a task of a pipeline is for: a task, and the values that it does not have from the
run. -/
structure Job where
  task : TaskSource
  own : List (String × List Char)

def Job.value (job : Job) (run : PipelineRun) (param : NamedParam) : List Char :=
  (job.own.lookup param.name).getD ((run.value param).getD [])

/-- A job is run: each of its steps with its call, and in its image. -/
def RunsJob (tkn : Controller) (run : PipelineRun) (job : Job) (steps : List TaskStep) : Prop :=
  List.Forall₂ (RunsAs tkn (job.value run)) job.task.steps steps

/-- A task of a pipeline that is made for a job. -/
structure Makes (tkn : Controller) (tektonTasks : List TektonTask)
    (rs : List (List Char × List Char)) (job : Job) (pipelineTask : PipelineTask) : Prop where
  taskRef : pipelineTask.taskRef = job.task.name
  params : ∃ overrides : List Glci.NamedParam,
    getPassedParameters job.task.name tektonTasks overrides = .ok pipelineTask.params ∧
      (overrides.map (·.name)).Nodup ∧
      job.own = overrides.map fun param => (param.name, tkn.put rs param.value.toList)

theorem paramValue_eq_some_iff {params : List Glci.NamedParam} (h : (params.map (·.name)).Nodup)
    {name value : String} :
    paramValue params name = some value ↔
      ∃ param ∈ params, param.name = name ∧ param.value = value := by
  unfold paramValue
  constructor
  · intro hsome
    obtain ⟨param, hparam, rfl⟩ := Option.map_eq_some_iff.1 hsome
    have hname := List.find?_some hparam
    exact ⟨param, List.mem_of_find?_eq_some hparam, of_decide_eq_true hname, rfl⟩
  · rintro ⟨param, hparam, rfl, rfl⟩
    rw [find?_key (fun p : Glci.NamedParam => p.name) h hparam]
    rfl

/-- In which order values of its own are set makes no difference. -/
theorem paramValue_reverse {params : List Glci.NamedParam} (h : (params.map (·.name)).Nodup)
    (name : String) : paramValue params.reverse name = paramValue params name := by
  have h' : (params.reverse.map (·.name)).Nodup := by
    simpa [List.map_reverse] using h
  refine Option.ext fun value => ?_
  simp [paramValue_eq_some_iff h, paramValue_eq_some_iff h']

theorem lookup_own (f : String → List Char) (params : List Glci.NamedParam) (name : String) :
    (params.map fun param => (param.name, f param.value)).lookup name =
      (paramValue params name).map f := by
  induction params with
  | nil => rfl
  | cons param params ih =>
    rw [List.map_cons, paramValue_cons, List.lookup_cons, ih]
    by_cases hname : param.name = name
    · simp [hname]
    · simp [hname, beq_eq_false_iff_ne.2 (Ne.symm hname)]

/-! ## One task -/

theorem nodup_taskSources (checkout : Checkout) : ((taskSources checkout).map (·.name)).Nodup := by
  have h : ((taskSources noPatch).map (·.name)).Nodup := by decide
  exact h

/-- A task is found by its name. -/
theorem find_renders {checkout : Checkout} {source : TaskSource} {sources : List TaskSource}
    {tasks : List Task} (h : List.Forall₂ (Renders checkout) sources tasks)
    (hnodup : (sources.map (·.name)).Nodup) (hsource : source ∈ sources) :
    ∃ task, tasks.find? (·.name = source.name) = some task ∧ Renders checkout source task := by
  induction h with
  | nil => cases hsource
  | @cons other task sources tasks hother _ ih =>
    rw [List.map_cons, List.nodup_cons] at hnodup
    rcases List.mem_cons.1 hsource with rfl | hsource
    · exact ⟨task, by simp [hother.name], hother⟩
    · obtain ⟨found, hfind, hrenders⟩ := ih hnodup.2 hsource
      have hne : ¬ task.name = source.name := fun heq =>
        hnodup.1 (hother.name ▸ heq ▸ List.mem_map_of_mem (f := (·.name)) hsource)
      exact ⟨found, by simp [hne, hfind], hrenders⟩

section Task

variable {tkn : Controller} {checkout : Checkout} {paramOrder : Enumeration NamedParam}
  {allTasks : List Task} {run : PipelineRun} {job : Job} {pipelineTask : PipelineTask}
  {rs : List (List Char × List Char)}

/-- A task of a pipeline runs the steps of its job with their calls. -/
theorem runPipelineTask_calls (hrender : renderTask paramOrder checkout = .ok allTasks)
    (htask : job.task ∈ taskSources checkout) (hrs : Values rs)
    (hmakes : Makes tkn (allTasks.map Task.tekton) rs job pipelineTask)
    (hrun : ∀ param ∈ job.task.allParams, job.own.lookup param.name = none →
      ∃ v, run.value param = some v ∧ rs.lookup param.key = some v)
    (hplain : ∀ param ∈ job.task.allParams, '$' ∉ job.value run param)
    (haccepts : job.task.Accepts (job.value run)) :
    ∃ steps, runPipelineTask tkn allTasks rs pipelineTask = some steps ∧
      RunsJob tkn run job steps := by
  have hclosed := closed_of_mem_taskSources htask
  obtain ⟨task, hfind, hrenders⟩ := find_renders (of_renderTask_ok hrender)
    (nodup_taskSources checkout) htask
  obtain ⟨overrides, hparams, hnodup, hown⟩ := hmakes.params
  obtain ⟨tekton, htekton, hpassed⟩ := paramValue_getPassedParameters hparams
  obtain rfl : tekton = task.tekton := by
    have hsame : (allTasks.map Task.tekton).find? (·.name = job.task.name) = some task.tekton := by
      rw [List.find?_map]
      exact congrArg (Option.map Task.tekton) hfind
    exact Option.some.inj (htekton.symm.trans hsame)
  -- what the task is given for a parameter
  have hgiven : ∀ param ∈ task.params, (pipelineTask.params.map fun param =>
      (param.name, tkn.put rs param.value.toList)).lookup param.name =
        some (job.value run param) := by
    intro param hparam
    have hmem := (hrenders.params param).1 hparam
    have hkey := plain_of_known (hrenders.known hclosed hparam)
    rw [lookup_own (fun text => tkn.put rs text.toList),
      hpassed param.name (List.mem_map_of_mem (f := (·.name)) hparam), paramValue_reverse hnodup]
    have hlookup := lookup_own (fun text => tkn.put rs text.toList) overrides param.name
    rw [← hown] at hlookup
    cases hvalue : paramValue overrides param.name with
    | some text => simp [Job.value, hlookup, hvalue]
    | none =>
      obtain ⟨v, hv, hrsv⟩ := hrun param hmem (by rw [hlookup, hvalue]; rfl)
      have htext : ("$(params." ++ param.name ++ ")").toList = reference param.key := by
        simp only [NamedParam.key, reference, String.toList_append]
        rfl
      simp [Job.value, hlookup, hvalue, hv, htext, put_reference hrs ⟨hkey.1, hkey.2.1⟩ hrsv]
  have hgiven' : ∀ param ∈ task.params,
      ((pipelineTask.params.map fun param => (param.name, tkn.put rs param.value.toList)).lookup
        param.name).or (param.default?.map (·.toList)) = some (job.value run param) :=
    fun param hparam => by rw [hgiven param hparam]; rfl
  obtain ⟨steps, hsteps, hruns⟩ := runTask_calls tkn hrenders hclosed hgiven'
    (fun param hparam => hplain param ((hrenders.params param).1 hparam)) haccepts
  refine ⟨steps, ?_, hruns⟩
  rw [runPipelineTask, hmakes.taskRef, hfind]
  exact hsteps

end Task

end Tkn
