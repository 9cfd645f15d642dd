import GardenLinux.Tkn.Status

/-!
# The jobs of the pipelines

The pipeline of the flavours builds and tests each flavour with its modifiers and its platform,
that of the packages builds each package; both have a task at the end that is told how the
others ended.  Everything else the steps have from the parameters of the run.

What is proved here:

* `runs_of_makes` — a task with plain values of its own runs its job, if the pipeline declares
  what it does not have;
* `runPipeline_runs` — a pipeline whose tasks are made for jobs runs them.
-/

namespace Tkn

open Template AllParams
open Glci (PipelineTask)

/-! ## The values of a run -/

/-- What the pipeline has for its references. -/
def PipelineRun.values (run : PipelineRun) (pipeline : Pipeline) : List (List Char × List Char) :=
  pipeline.params.map (fun param => (param.key, (run.value param).getD [])) ++ run.context pipeline

/-- A run that a pipeline can be started with. -/
structure Starts (run : PipelineRun) (pipeline : Pipeline) : Prop where
  plain : run.Plain
  name : Plain pipeline.name.toList
  nodup : pipeline.params.Nodup
  known : ∀ param ∈ pipeline.params, param ∈ knownParams
  supplied : ∀ param ∈ pipeline.params, (run.value param).isSome

section Values

variable {run : PipelineRun} {pipeline : Pipeline}

theorem Starts.value (h : Starts run pipeline) {param : NamedParam}
    (hparam : param ∈ pipeline.params) :
    ∃ v, run.value param = some v ∧ Plain v := by
  obtain ⟨v, hv⟩ := Option.isSome_iff_exists.1 (h.supplied param hparam)
  exact ⟨v, hv, h.plain.value (h.known param hparam) hv⟩

/-- A key of the context, or of the status of a task. -/
theorem key_ne_of_head {param : NamedParam} {key : List Char} (h : key.head? ≠ some 'p') :
    param.key ≠ key := by
  rintro rfl
  rw [NamedParam.key, String.toList_append] at h
  exact h rfl

theorem Starts.nodup_keys (h : Starts run pipeline) : (pipeline.params.map (·.key)).Nodup :=
  h.nodup.map_on fun p hp q hq heq => eq_of_name_eq (h.known p hp) (h.known q hq) (key_inj heq)

theorem nodup_statusKeys (tasks : List PipelineTask) :
    (((tasks.map (·.name)).foldl insertNew []).map fun name =>
      ("tasks." ++ name ++ ".status").toList).Nodup := by
  refine (nodup_foldl_insertNew List.nodup_nil).map fun name name' heq => ?_
  simp only [String.toList_append, List.append_assoc] at heq
  exact String.toList_inj.1 (List.append_cancel_right (List.append_cancel_left heq))

theorem Starts.values (h : Starts run pipeline) {status : String → List Char}
    (tasks : List PipelineTask) (hnames : ∀ task ∈ tasks, TaskName task.name)
    (hstatus : ∀ name, Plain (status name)) :
    Values (run.values pipeline ++ statusValues status tasks) := by
  have hcases {r : List Char × List Char}
      (hr : r ∈ run.values pipeline ++ statusValues status tasks) :
      (∃ param ∈ pipeline.params, r = (param.key, (run.value param).getD [])) ∨
        r ∈ run.context pipeline ∨
        ∃ task ∈ tasks, r = (("tasks." ++ task.name ++ ".status").toList, status task.name) := by
    simpa [PipelineRun.values, statusValues, mem_foldl_insertNew, eq_comm, or_assoc] using hr
  have hcontext : ∀ key ∈ (run.context pipeline).map Prod.fst,
      key.head? = some 'c' ∧ ')' ∉ key ∧ '\n' ∉ key := by
    simp only [PipelineRun.context, List.map_cons, List.map_nil]
    decide
  refine ⟨?_, fun r hr => ?_, fun r hr => ?_, fun r hr => ?_⟩
  · have hsplit : (run.values pipeline ++ statusValues status tasks).map Prod.fst =
        pipeline.params.map (·.key) ++ ((run.context pipeline).map Prod.fst ++
          ((tasks.map (·.name)).foldl insertNew []).map fun name =>
            ("tasks." ++ name ++ ".status").toList) := by
      simp [PipelineRun.values, statusValues, Function.comp_def]
    have hstatusKey : ∀ key ∈ ((tasks.map (·.name)).foldl insertNew []).map
        (fun name => ("tasks." ++ name ++ ".status").toList), key.head? = some 't' := by
      intro key hkey
      obtain ⟨name, -, rfl⟩ := List.mem_map.1 hkey
      rw [String.toList_append, String.toList_append]
      rfl
    rw [hsplit, List.nodup_append, List.nodup_append]
    refine ⟨h.nodup_keys, ⟨by simp only [PipelineRun.context, List.map_cons, List.map_nil]; decide,
      nodup_statusKeys tasks, ?_⟩, ?_⟩
    · rintro key hkey key' hkey' rfl
      have hhead := (hcontext key hkey).1.symm.trans (hstatusKey key hkey')
      exact absurd hhead (by decide)
    · intro key hkey key' hkey'
      obtain ⟨param, -, rfl⟩ := List.mem_map.1 hkey
      refine key_ne_of_head ?_
      rcases List.mem_append.1 hkey' with hkey' | hkey'
      · rw [(hcontext key' hkey').1]
        decide
      · rw [hstatusKey key' hkey']
        decide
  · rcases hcases hr with ⟨param, hparam, rfl⟩ | hr | ⟨task, htask, rfl⟩
    · exact (plain_of_known (h.known param hparam)).2.1
    · exact (hcontext _ (List.mem_map_of_mem hr)).2.1
    · exact (taskName_key (hnames task htask)).2.1
  · rcases hcases hr with ⟨param, hparam, rfl⟩ | hr | ⟨task, htask, rfl⟩
    · exact (plain_of_known (h.known param hparam)).2.2
    · exact (hcontext _ (List.mem_map_of_mem hr)).2.2
    · exact (taskName_key (hnames task htask)).2.2
  · rcases hcases hr with ⟨param, hparam, rfl⟩ | hr | ⟨task, htask, rfl⟩
    · obtain ⟨v, hv, hplain⟩ := h.value hparam
      simpa [hv] using hplain.dollar
    · simp only [PipelineRun.context, List.mem_cons, List.not_mem_nil, or_false] at hr
      rcases hr with rfl | rfl | rfl
      · exact h.plain.name.dollar
      · exact h.plain.runNamespace.dollar
      · exact h.name.dollar
    · exact (hstatus task.name).dollar

theorem lookup_values (h : Starts run pipeline) {rs : List (List Char × List Char)}
    (hrs : Values rs) (hsub : ∀ r ∈ run.values pipeline, r ∈ rs) {param : NamedParam}
    (hparam : param ∈ pipeline.params) :
    ∃ v, run.value param = some v ∧ rs.lookup param.key = some v := by
  obtain ⟨v, hv, -⟩ := h.value hparam
  refine ⟨v, hv, lookup_eq_some_of_nodup (r := (param.key, v)) hrs.nodup (hsub _ ?_)⟩
  exact List.mem_append_left _ (List.mem_map.2 ⟨param, hparam, by rw [hv]; rfl⟩)

theorem lookup_context {rs : List (List Char × List Char)} (hrs : Values rs)
    (hsub : ∀ r ∈ run.values pipeline, r ∈ rs) {r : List Char × List Char}
    (hr : r ∈ run.context pipeline) : rs.lookup r.1 = some r.2 :=
  lookup_eq_some_of_nodup hrs.nodup (hsub _ (List.mem_append_right _ hr))

end Values

/-! ## One job -/

/-- A job whose own values can be passed, and for which the pipeline declares the rest. -/
structure Job.Fits (checkout : Checkout) (pipeline : Pipeline) (job : Job) : Prop where
  task : job.task ∈ taskSources checkout
  declared : ∀ param ∈ job.task.allParams, param.name ∉ job.own.map Prod.fst →
    param ∈ pipeline.params
  dollar : ∀ value ∈ job.own, '$' ∉ value.2
  passable : ∀ value ∈ job.own, ∀ step ∈ job.task.steps, ∀ c ∈ value.2,
    isPassableChar step.scriptType c

section Job

variable {tkn : Controller} {checkout : Checkout} {paramOrder : Enumeration NamedParam}
  {allTasks : List Task} {run : PipelineRun} {pipeline : Pipeline} {job : Job}
  {rs : List (List Char × List Char)}

/-- A parameter has a value of the job or one of the run. -/
theorem Job.value_cases (hstart : Starts run pipeline) (hfits : job.Fits checkout pipeline)
    {param : NamedParam} (hparam : param ∈ job.task.allParams) :
    (∃ value ∈ job.own, job.value run param = value.2) ∨ Plain (job.value run param) := by
  cases hlookup : job.own.lookup param.name with
  | some v =>
    obtain ⟨l₁, l₂, hsplit, -⟩ := List.lookup_eq_some_iff.1 hlookup
    exact .inl ⟨(param.name, v), by simp [hsplit], by simp [Job.value, hlookup]⟩
  | none =>
    have hnone : param.name ∉ job.own.map Prod.fst := fun hmem => by
      obtain ⟨value, hvalue, hname⟩ := List.mem_map.1 hmem
      have hne := List.lookup_eq_none_iff.1 hlookup value hvalue
      simp [hname] at hne
    obtain ⟨v, hv, hplain⟩ := hstart.value (hfits.declared param hparam hnone)
    exact .inr (by simpa [Job.value, hlookup, hv] using hplain)

/-- A task runs its job. -/
theorem runs_of_makes (hrender : renderTask paramOrder checkout = .ok allTasks)
    (hstart : Starts run pipeline) (hrs : Values rs) (hsub : ∀ r ∈ run.values pipeline, r ∈ rs)
    (hfits : job.Fits checkout pipeline) {pipelineTask : PipelineTask}
    (hmakes : Makes tkn (allTasks.map Task.tekton) rs job pipelineTask) :
    ∃ steps, runPipelineTask tkn allTasks rs pipelineTask = some steps ∧
      RunsJob tkn run job steps := by
  refine runPipelineTask_calls hrender hfits.task hrs hmakes ?_ ?_ ?_
  · intro param hparam hlookup
    refine lookup_values hstart hrs hsub (hfits.declared param hparam fun hmem => ?_)
    obtain ⟨value, hvalue, hname⟩ := List.mem_map.1 hmem
    have hne := List.lookup_eq_none_iff.1 hlookup value hvalue
    simp [hname] at hne
  · intro param hparam
    rcases Job.value_cases hstart hfits hparam with ⟨value, hvalue, heq⟩ | hplain
    · exact heq ▸ hfits.dollar value hvalue
    · exact hplain.dollar
  · intro step hstep param hparam
    have hclosed := closed_of_mem_taskSources hfits.task
    have hmem : param ∈ job.task.allParams :=
      List.mem_append_right _ (List.mem_flatMap.2 ⟨step, hclosed.made step hstep, hparam⟩)
    rcases Job.value_cases hstart hfits hmem with ⟨value, hvalue, heq⟩ | hplain
    · exact heq ▸ hfits.passable value hvalue step hstep
    · exact hplain.passable step.scriptType

/-- The tasks of a pipeline run their jobs. -/
theorem mapM_runs {jobs : List Job} {pipelineTasks : List PipelineTask}
    (hrender : renderTask paramOrder checkout = .ok allTasks) (hstart : Starts run pipeline)
    (hrs : Values rs) (hsub : ∀ r ∈ run.values pipeline, r ∈ rs)
    (hfits : ∀ job ∈ jobs, job.Fits checkout pipeline)
    (hmakes : List.Forall₂ (Makes tkn (allTasks.map Task.tekton) rs) jobs pipelineTasks) :
    ∃ steps, pipelineTasks.mapM (runPipelineTask tkn allTasks rs) = some steps ∧
      List.Forall₂ (RunsJob tkn run) jobs steps := by
  induction hmakes with
  | nil => exact ⟨[], rfl, .nil⟩
  | cons hmake _ ih =>
    rw [List.forall_mem_cons] at hfits
    obtain ⟨steps, hsteps, hruns⟩ := runs_of_makes hrender hstart hrs hsub hfits.1 hmake
    obtain ⟨rest, hrest, hjobs⟩ := ih hfits.2
    exact ⟨steps :: rest, by simp [hsteps, hrest], .cons hruns hjobs⟩

/-- A pipeline whose tasks are made for jobs runs them; those at the end are also given how the
others ended. -/
theorem runPipeline_runs {jobs finallyJobs : List Job} {status : String → List Char}
    (hrender : renderTask paramOrder checkout = .ok allTasks) (hstart : Starts run pipeline)
    (hnames : ∀ task ∈ pipeline.tasks, TaskName task.name) (hstatus : ∀ name, Plain (status name))
    (hfits : ∀ job ∈ jobs, job.Fits checkout pipeline)
    (hfinallyFits : ∀ job ∈ finallyJobs, job.Fits checkout pipeline)
    (hmakes : ∀ rs, Values rs → (∀ r ∈ run.values pipeline, r ∈ rs) →
      List.Forall₂ (Makes tkn (allTasks.map Task.tekton) rs) jobs pipeline.tasks)
    (hfinally : ∀ rs, Values rs → (∀ r ∈ run.values pipeline, r ∈ rs) →
      (∀ task ∈ pipeline.tasks,
        rs.lookup ("tasks." ++ task.name ++ ".status").toList = some (status task.name)) →
      List.Forall₂ (Makes tkn (allTasks.map Task.tekton) rs) finallyJobs pipeline.finallyTasks) :
    ∃ steps finallySteps,
      runPipeline tkn allTasks run pipeline status = some (steps, finallySteps) ∧
      List.Forall₂ (RunsJob tkn run) jobs steps ∧
      List.Forall₂ (RunsJob tkn run) finallyJobs finallySteps := by
  have hrs := hstart.values pipeline.tasks hnames hstatus
  have hrs' : Values (run.values pipeline) := by
    simpa [statusValues] using hstart.values [] (by simp) hstatus
  have hsub : ∀ r ∈ run.values pipeline,
      r ∈ run.values pipeline ++ statusValues status pipeline.tasks :=
    fun _ hr => List.mem_append_left _ hr
  have hlookup : ∀ task ∈ pipeline.tasks,
      (run.values pipeline ++ statusValues status pipeline.tasks).lookup
        ("tasks." ++ task.name ++ ".status").toList = some (status task.name) := fun task htask =>
    lookup_eq_some_of_nodup (r := (("tasks." ++ task.name ++ ".status").toList, status task.name))
      hrs.nodup (List.mem_append_right _ (List.mem_map.2 ⟨task.name, mem_foldl_insertNew.2
        (.inr (List.mem_map_of_mem htask)), rfl⟩))
  obtain ⟨steps, hsteps, hjobs⟩ := mapM_runs hrender hstart hrs' (fun _ hr => hr) hfits
    (hmakes _ hrs' fun _ hr => hr)
  obtain ⟨finallySteps, hfinallySteps, hfinallyJobs⟩ := mapM_runs hrender hstart hrs hsub
    hfinallyFits (hfinally _ hrs hsub hlookup)
  refine ⟨steps, finallySteps, ?_, hjobs, hfinallyJobs⟩
  have hassign : assign pipeline.params run.params =
      some (pipeline.params.map fun param => (param.key, (run.value param).getD [])) :=
    assign_eq_some fun param hparam => by
      obtain ⟨v, hv⟩ := Option.isSome_iff_exists.1 (hstart.supplied param hparam)
      rw [hv]
      exact hv
  rw [runPipeline, hassign]
  simp only [Option.bind_eq_bind, Option.bind_some, ← PipelineRun.values.eq_def]
  rw [hsteps]
  simp [hfinallySteps]

end Job

end Tkn
