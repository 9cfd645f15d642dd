import GardenLinux.Tkn.Signatures

/-!
# The targets that the steps read

What a run is for is decided by each step on its own: it is called with the targets of the run as a
text, and reads them with `BuildTarget.set_from_str`.

What is proved here:

* `main_reads_targets` — all steps of a run whose functions take its targets are told those that
  the run has been started with.
-/

namespace Tkn

open Template AllParams
open Glci (GardenlinuxFlavour BuildTarget CallOrders)

/-- The function of the step has a parameter for the targets of the run. -/
def StepSource.takesTargets (source : StepSource) : Bool :=
  source.signature.any fun
    | .python required optional => "build_targets" ∈ required ++ optional
    | .shell _ => false

/-- The script that is run for a step calls its function with a text in which every process reads
these targets. -/
structure ReadsTargets (targets : Finset BuildTarget) (source : StepSource) (step : TaskStep) :
    Prop where
  name : step.name = source.name
  reads : ∃ callArgs, readCall .python3 (lastLine step.script) =
      some (.python source.callable.toList callArgs) ∧
    ∀ order, BuildTarget.setFromStr order (String.ofList (argument callArgs "build_targets")) =
      .ok targets

/-- The steps of a job whose functions take targets, of which there are some, read these. -/
structure JobReads (targets : Finset BuildTarget) (job : Job) (steps : List TaskStep) : Prop where
  takes : ∃ source ∈ job.task.steps, source.takesTargets
  reads : List.Forall₂ (fun source step => source.takesTargets → ReadsTargets targets source step)
    job.task.steps steps

/-- What the function takes, the step passes. -/
def StepSource.passesTargets (source : StepSource) : Bool :=
  !source.takesTargets ||
    (source.scriptType = .python3 ∧ AllParams.buildTargets ∈ source.params)

theorem passesTargets_of_mem {checkout : Checkout} {source : TaskSource}
    (h : source ∈ taskSources checkout) : source.steps.all (·.passesTargets) :=
  all_steps_of_mem (fun _ => rfl) (by decide +kernel) h

section Reads

variable {tkn : Controller} {checkout : Checkout} {run : PipelineRun} {targets : Finset BuildTarget}

/-- The steps of a job that has the targets of the run. -/
theorem reads_of_runsJob {job : Job} {steps : List TaskStep}
    (htask : job.task ∈ taskSources checkout) (h : RunsJob tkn run job steps)
    (hjob : ∀ order, BuildTarget.setFromStr order
      (String.ofList (job.value run AllParams.buildTargets)) = .ok targets) :
    List.Forall₂ (fun source step => source.takesTargets → ReadsTargets targets source step)
      job.task.steps steps := by
  refine forall₂_imp_of_mem h fun source step hsource hruns htakes => ?_
  have hpasses := List.all_eq_true.1 (passesTargets_of_mem htask) source hsource
  obtain ⟨htype, hparam⟩ :
      source.scriptType = .python3 ∧ AllParams.buildTargets ∈ source.params := by
    simpa [StepSource.passesTargets, htakes] using hpasses
  have hwellFormed := (closed_of_mem_taskSources htask).wellFormed source hsource
  obtain ⟨callArgs, hcall, hargs⟩ := argument_of_runsAs htype hwellFormed hruns
  refine ⟨hruns.name, callArgs, hcall, fun order => ?_⟩
  rw [hargs _ hparam "build_targets" (by decide)]
  exact hjob order

/-- The targets are not among the values that a job has of its own. -/
theorem value_buildTargets {env : RunEnv} {args : RunArgs} {runNamespace : String}
    (hrun : mkPipelineMainRun env runNamespace args = .ok run) {job : Job}
    (hown : job.own.lookup AllParams.buildTargets.name = none)
    (hne : args.buildTargets.Nonempty) (order : Enumeration BuildTarget) :
    BuildTarget.setFromStr order
      (String.ofList (job.value run AllParams.buildTargets)) = .ok args.buildTargets := by
  obtain ⟨hcommon, hclosed⟩ := commonValues_mainRun hrun
  have hlookup : run.params.lookup AllParams.buildTargets.name =
      some (BuildTarget.join (env.order.list args.buildTargets)).toList := hcommon.buildTargets
  have hvalue : job.value run AllParams.buildTargets =
      (BuildTarget.join (env.order.list args.buildTargets)).toList := by
    rw [Job.value, hown, PipelineRun.value, hlookup]
    rfl
  rw [hvalue, String.ofList_toList]
  exact BuildTarget.setFromStr_join env.order order hne hclosed

end Reads

section Main

variable {tkn : Controller} {orders : CallOrders} {order : Enumeration GardenlinuxFlavour}
  {platformOrder : Enumeration String} {paramOrder : Enumeration NamedParam}
  {config : Glci.Config} {checkout : Checkout} {allTasks : List Task}
  {flavours : List GardenlinuxFlavour} {pipeline : Pipeline} {env : RunEnv} {args : RunArgs}
  {run : PipelineRun} {runNamespace : String} {status : String → List Char}

/-- Every job of a run has a step whose function takes targets. -/
theorem takes_mainJobs : ∀ job ∈ mainJobs checkout run orders config flavours,
    ∃ source ∈ job.task.steps, source.takesTargets := by
  intro job hjob
  rcases mem_mainJobs.1 hjob with rfl | ⟨flavour, -, rfl⟩ | ⟨flavour, -, rfl⟩ | rfl
  · exact ⟨buildBaseImageStep, by simp [baseJob, baseImageBuildTask], by decide⟩
  · exact ⟨preBuildStep, by simp [flavourJob, buildTask], by decide⟩
  · exact ⟨preCheckTestsStep, by simp [flavourJob, testTask], by decide⟩
  · exact ⟨promoteStep, by simp [promoteTask], by decide⟩

variable (tkn) in
/-- All steps of a run that take targets read those that it has been started with. -/
theorem main_reads_targets (hrender : renderTask paramOrder checkout = .ok allTasks)
    (hpipeline : mkPipeline orders order platformOrder paramOrder config flavours allTasks
      .snapshot = .ok pipeline)
    (hrun : mkPipelineMainRun env runNamespace args = .ok run)
    (hne : args.buildTargets.Nonempty)
    (hflavours : ∀ flavour ∈ flavours, PlainFlavour orders config flavour)
    (hplain : run.Plain) (hstatus : ∀ name, Plain (status name)) :
    ∃ steps finallySteps,
      runPipeline tkn allTasks run pipeline status = some (steps, finallySteps) ∧
      List.Forall₂ (JobReads args.buildTargets)
        (mainJobs checkout run orders config (order.list flavours.toFinset)) steps ∧
      List.Forall₂ (JobReads args.buildTargets)
        [notifyJob checkout run pipeline status
          ((order.list flavours.toFinset).map (Glci.generateTaskName ""))
          (platformOrder.list ((order.list flavours.toFinset).map (·.platform)).toFinset)]
        finallySteps := by
  obtain ⟨steps, finallySteps, hsteps, hjobs, hfinallyJobs⟩ :=
    main_runs_jobs tkn hrender hpipeline hflavours hplain
      (supplied_mainRun hrender hpipeline hrun) hstatus
  refine ⟨steps, finallySteps, hsteps, ?_, ?_⟩
  · refine forall₂_imp_of_mem hjobs fun job taskSteps hjob hruns => ⟨takes_mainJobs job hjob, ?_⟩
    refine reads_of_runsJob (task_mem_mainJobs job hjob) hruns (value_buildTargets hrun ?_ hne)
    rcases mem_mainJobs.1 hjob with rfl | ⟨flavour, -, rfl⟩ | ⟨flavour, -, rfl⟩ | rfl <;> rfl
  · cases hfinallyJobs with
    | cons hruns hnil =>
      cases hnil
      refine .cons ⟨⟨attachLogStep, by simp [notifyJob, notifyTask], by decide⟩, ?_⟩ .nil
      exact reads_of_runsJob (task_mem_notifyJob _ (List.mem_singleton.2 rfl)) hruns
        (value_buildTargets hrun rfl hne)

theorem main_reads_targets_gcp :
    ∃ allTasks pipeline run steps finallySteps,
      runPipeline tektonController allTasks run pipeline (fun _ => "Succeeded".toList) =
        some (steps, finallySteps) ∧
      List.Forall₂ (JobReads releaseArgs.buildTargets) (mainJobs emptyScripts run
        (fun _ _ => .sorted) Glci.repositoryConfig
        (GardenlinuxFlavour.sorted.list [gcpFlavour].toFinset)) steps := by
  obtain ⟨allTasks, hrender⟩ := renderTask_emptyScripts
  obtain ⟨pipeline, hpipeline, -⟩ := mkPipeline_gcp hrender
  obtain ⟨run, hrun, hplain⟩ := mkPipelineMainRun_release
  have hne : releaseArgs.buildTargets.Nonempty := ⟨.build, by decide⟩
  obtain ⟨steps, finallySteps, hsteps, hreads, -⟩ := main_reads_targets tektonController
    hrender hpipeline hrun hne (List.forall_mem_singleton.2 plain_gcp) hplain plain_succeeded
  exact ⟨allTasks, pipeline, run, steps, finallySteps, hsteps, hreads⟩

end Main

end Tkn
