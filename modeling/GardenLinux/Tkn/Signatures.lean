import GardenLinux.Tkn.Order

/-!
# The functions of the steps

What the functions in `ci/steps` have for parameters, next to what the steps call them with.

What is proved here:

* `accepted_of_mem` — every step of a task calls a function of its file, with all arguments that
  it requires and with none that it does not know;
* `argument_of_runsAs` — a step is called with the values of its job;
* `main_steps_accepted` and `packages_steps_accepted` — so do the scripts that are run for the
  steps, each the function of its own step.
-/

namespace Tkn

open Template AllParams AllResults
open Glci (GardenlinuxFlavour CallOrders)

/-- The parameters of a function of the Python language, with and without defaults; of a function
of the shell, how many words it uses. -/
inductive Signature
  | python (required optional : List String)
  | shell (uses : ℕ)
  deriving DecidableEq, Repr

/-- The functions of the files, by the name of the file and of the function. -/
def signatures : List ((String × String) × Signature) :=
  [(("attach_logs.py", "upload_logs"), .python
      ["architecture", "build_tasks", "build_targets", "cicd_cfg_name", "committish",
        "flavour_set_name", "gardenlinux_epoch", "namespace", "pipeline_run_name", "platform_set",
        "repo_dir", "version"] []),
    (("build_base_image.py", "build_base_image"), .python
      ["build_image", "gardenlinux_build_deb_image", "repo_dir", "oci_path", "version_label",
        "build_targets"] []),
    (("build_cert.sh", "build_cert"), .shell 1),
    (("build_image.sh", "build_image"), .shell 8),
    (("build_kernel_package.sh", "build_kernel_package"), .shell 2),
    (("build_package.sh", "build_package"), .shell 2),
    (("clone_repo_step.py", "clone_and_copy"), .python ["giturl", "committish", "repo_dir"]
      ["pr_id"]),
    (("component_descriptor.py", "build_component_descriptor"), .python
      ["version", "committish", "cicd_cfg_name", "gardenlinux_epoch", "build_targets",
        "flavour_set_name", "ctx_repository_config_name", "branch"]
      ["snapshot_ctx_repository_config_name"]),
    (("get_logs.py", "getlogs"), .python ["repo_dir", "namespace", "pipeline_run_name"]
      ["zip_file_path", "tail_lines", "only_failed"]),
    (("notify.py", "send_notification"), .python
      ["branch", "cicd_cfg_name", "committish", "disable_notifications", "namespace", "giturl",
        "pipeline_name", "pipeline_run_name", "repo_dir", "status_dict_str"]
      ["pr_id", "additional_recipients", "only_recipients", "recipients_plaintext"]),
    (("pre_build_step.py", "pre_build_step"), .python
      ["cicd_cfg_name", "modifiers", "committish", "version", "gardenlinux_epoch", "architecture",
        "platform", "build_targets"] []),
    (("pre_check_tests.py", "pre_check_tests"), .python
      ["cicd_cfg_name", "modifiers", "committish", "version", "gardenlinux_epoch", "architecture",
        "platform", "build_targets"] []),
    (("promote_step.py", "promote_single_step"), .python
      ["cicd_cfg_name", "committish", "architecture", "platform", "gardenlinux_epoch", "modifiers",
        "version", "build_targets"] []),
    (("promote_step.py", "promote_step"), .python
      ["cicd_cfg_name", "flavour_set_name", "build_targets", "gardenlinux_epoch", "committish",
        "version", "promote_target", "manifest_set_key_result"] []),
    (("publish_package_repository.py", "build_package_repository"), .python
      ["cicd_cfg_name", "package_path_s3_prefix"] []),
    (("release_step.py", "release_step"), .python
      ["build_targets", "cicd_cfg_name", "committish", "ctx_repository_config_name",
        "flavour_set_name", "gardenlinux_epoch", "giturl", "repo_dir", "version"] []),
    (("run_tests.py", "run_tests"), .python
      ["architecture", "cicd_cfg_name", "gardenlinux_epoch", "modifiers", "platform",
        "build_targets", "repo_dir", "suite", "snapshot_timestamp", "version", "committish"]
      ["pytest_cfg"]),
    (("update_status.py", "update_status"), .python
      ["giturl", "committish", "namespace", "pipeline_run_name"] []),
    (("upload_packages.py", "upload_packages"), .python ["cicd_cfg_name", "package_path_s3_prefix"]
      ["src_dir_path"]),
    (("upload_results_step.py", "upload_results_step"), .python
      ["cicd_cfg_name", "committish", "architecture", "platform", "gardenlinux_epoch", "modifiers",
        "version", "outfile", "build_targets", "build_result", "build_image"] []),
    (("upload_test_results.py", "upload_test_results"), .python
      ["architecture", "cicd_cfg_name", "committish", "gardenlinux_epoch", "modifiers", "platform",
        "build_targets", "repo_dir", "version"] []),
    (("write_key.py", "write_key"), .python ["repo_dir", "key_config_name"] [])]

/-- A call that does not end with a `TypeError`, or with an unbound variable of the shell. -/
def Signature.accepts : Signature → Call → Bool
  | .python required optional, .python _ args =>
    let keys := args.map fun arg => String.ofList arg.1
    required.all (· ∈ keys) && keys.all (· ∈ required ++ optional)
  | .shell uses, .shell words => words.length == uses + 1
  | _, _ => false

def StepSource.signature (step : StepSource) : Option Signature :=
  signatures.lookup (step.file, step.callable)

/-- The call of a step, without the values. -/
def StepSource.emptyCall (step : StepSource) : Call := step.call (fun _ => []) fun _ => []

def StepSource.accepted (step : StepSource) : Bool :=
  step.signature.any fun signature => signature.accepts step.emptyCall

/-- Whether a call is accepted does not depend on the values. -/
theorem accepts_call {signature : Signature} {step : StepSource}
    (value path : NamedParam → List Char) :
    signature.accepts (step.call value path) = signature.accepts step.emptyCall := by
  cases htype : step.scriptType <;> cases signature <;>
    simp [StepSource.emptyCall, StepSource.call, htype, Signature.accepts, Function.comp_def]

/-- What holds of the steps of the tasks of one checkout, if the step that clones it does not
matter. -/
theorem all_steps_of_mem {P : StepSource → Bool}
    (hclone : ∀ checkout, P (cloneStep checkout) = P (cloneStep noPatch))
    (hall : ∀ source ∈ taskSources noPatch, source.steps.all P) {checkout : Checkout}
    {source : TaskSource} (h : source ∈ taskSources checkout) : source.steps.all P := by
  simp only [taskSources, List.forall_mem_cons] at hall
  obtain ⟨hbase, hbuild, hkernel, hpackage, htest, hpromote, hnotify, -⟩ := hall
  simp only [taskSources, List.mem_cons, List.not_mem_nil, or_false] at h
  rcases h with rfl | rfl | rfl | rfl | rfl | rfl | rfl
  · simpa only [baseImageBuildTask, List.all_cons, hclone checkout] using hbase
  · simpa only [buildTask, List.all_cons, hclone checkout] using hbuild
  · simpa only [kernelPackageTask, packageTask, List.all_cons, hclone checkout] using hkernel
  · simpa only [nokernelPackageTask, packageTask, List.all_cons, hclone checkout] using hpackage
  · simpa only [testTask, List.all_cons, hclone checkout] using htest
  · simpa only [promoteTask, List.all_cons, hclone checkout] using hpromote
  · simpa only [notifyTask, List.all_cons, hclone checkout] using hnotify

/-- Every step of a task calls a function of its file. -/
theorem accepted_of_mem {checkout : Checkout} {source : TaskSource}
    (h : source ∈ taskSources checkout) : source.steps.all (·.accepted) :=
  all_steps_of_mem (fun _ => rfl) (by decide +kernel) h

/-! ## The arguments -/

/-- An argument of a call. -/
def argument (args : PyCall.Args) (name : String) : List Char := (args.lookup name.toList).getD []

/-- An argument of the call of a step of the Python language. -/
theorem argument_call {source : StepSource} (htype : source.scriptType = .python3)
    (hwellFormed : source.WellFormed) {value path : NamedParam → List Char} {param : NamedParam}
    (hparam : param ∈ source.params) {callable : List Char} {args : PyCall.Args}
    (hcall : source.call value path = .python callable args) {name : String}
    (hname : pyName param.name = name.toList) : argument args name = value param := by
  simp only [StepSource.call, htype, Call.python.injEq] at hcall
  obtain ⟨-, rfl⟩ := hcall
  have hnodup : ((source.params.map (fun param => (pyName param.name, value param)) ++
      source.results.map fun result => (pyName result.name, path result)).map Prod.fst).Nodup := by
    simpa [Function.comp_def] using hwellFormed.nodup
  rw [argument, ← hname, lookup_eq_some_of_nodup (r := (pyName param.name, value param)) hnodup
    (List.mem_append_left _ (List.mem_map.2 ⟨param, hparam, rfl⟩))]
  rfl

/-- A step that is run is called with the values of its job. -/
theorem argument_of_runsAs {tkn : Controller} {run : PipelineRun} {job : Job}
    {source : StepSource} {step : TaskStep} (htype : source.scriptType = .python3)
    (hwellFormed : source.WellFormed) (h : RunsAs tkn (job.value run) source step) :
    ∃ callArgs, readCall .python3 (lastLine step.script) =
        some (.python source.callable.toList callArgs) ∧
      ∀ param ∈ source.params, ∀ name : String, pyName param.name = name.toList →
        argument callArgs name = job.value run param := by
  have hcall := h.call
  rw [htype] at hcall
  have hpython : source.call (job.value run) (fun result => tkn.resultPath result.name) =
      .python source.callable.toList (source.params.map (fun param =>
        (pyName param.name, job.value run param)) ++ source.results.map fun result =>
          (pyName result.name, tkn.resultPath result.name)) := by
    simp only [StepSource.call, htype]
  refine ⟨_, hcall.trans (congrArg some hpython), fun param hparam name hname => ?_⟩
  exact argument_call htype hwellFormed hparam hpython hname

/-! ## The scripts of a run -/

/-- The function that a call names. -/
def Call.callable : Call → List Char
  | .python callable _ => callable
  | .shell words => words.headD []

theorem callable_call (source : StepSource) (value path : NamedParam → List Char) :
    (source.call value path).callable = source.callable.toList := by
  unfold StepSource.call
  cases source.scriptType <;> rfl

/-- The script that is run for a step ends with a call of the function of this step, which accepts
it. -/
structure EndsAccepted (source : StepSource) (step : TaskStep) : Prop where
  name : step.name = source.name
  call : ∃ signature call, source.signature = some signature ∧
    readCall source.scriptType (lastLine step.script) = some call ∧
    call.callable = source.callable.toList ∧ signature.accepts call

/-- The scripts that are run for the steps of a job, one for each. -/
def JobAccepted (job : Job) (steps : List TaskStep) : Prop :=
  List.Forall₂ EndsAccepted job.task.steps steps

theorem jobAccepted_of_runsJob {tkn : Controller} {checkout : Checkout} {run : PipelineRun}
    {job : Job} {steps : List TaskStep} (htask : job.task ∈ taskSources checkout)
    (h : RunsJob tkn run job steps) : JobAccepted job steps := by
  refine forall₂_imp_of_mem h fun source step hsource hruns => ?_
  have haccepted := List.all_eq_true.1 (accepted_of_mem htask) source hsource
  obtain ⟨signature, hsignature, haccepts⟩ := (Option.any_eq_true _ _).1 haccepted
  exact ⟨hruns.name, signature, _, hsignature, hruns.call, callable_call _ _ _,
    by rw [accepts_call, haccepts]⟩

/-- What holds of a job that is run, holds of all jobs. -/
theorem forall₂_of_runsJobs {tkn : Controller} {checkout : Checkout} {run : PipelineRun}
    {P : Job → List TaskStep → Prop}
    (hjob : ∀ {job steps}, job.task ∈ taskSources checkout → RunsJob tkn run job steps →
      P job steps) {jobs : List Job} {steps : List (List TaskStep)}
    (htasks : ∀ job ∈ jobs, job.task ∈ taskSources checkout)
    (h : List.Forall₂ (RunsJob tkn run) jobs steps) : List.Forall₂ P jobs steps :=
  forall₂_imp_of_mem h fun job _ hmem hruns => hjob (htasks job hmem) hruns

/-- The tasks of the jobs of the flavours. -/
theorem task_mem_mainJobs {checkout : Checkout} {run : PipelineRun} {orders : CallOrders}
    {config : Glci.Config} {flavours : List GardenlinuxFlavour} :
    ∀ job ∈ mainJobs checkout run orders config flavours, job.task ∈ taskSources checkout := by
  intro job hjob
  rcases mem_mainJobs.1 hjob with rfl | ⟨flavour, -, rfl⟩ | ⟨flavour, -, rfl⟩ | rfl <;>
    simp [taskSources, baseJob, flavourJob]

theorem task_mem_packagesJobs {checkout : Checkout} {run : PipelineRun} :
    ∀ job ∈ packagesJobs checkout run, job.task ∈ taskSources checkout := by
  intro job hjob
  rcases mem_packagesJobs.1 hjob with rfl | ⟨package, -, rfl⟩ | rfl <;>
    simp [taskSources, baseJob, packageJob, kernelPackageJob]

theorem task_mem_notifyJob {checkout : Checkout} {run : PipelineRun} {pipeline : Pipeline}
    {status : String → List Char} {buildNames platforms : List String} :
    ∀ job ∈ [notifyJob checkout run pipeline status buildNames platforms],
      job.task ∈ taskSources checkout := by
  intro job hjob
  obtain rfl := List.mem_singleton.1 hjob
  simp [taskSources, notifyJob]

section Runs

variable {tkn : Controller} {orders : CallOrders} {order : Enumeration GardenlinuxFlavour}
  {platformOrder : Enumeration String} {paramOrder : Enumeration NamedParam}
  {config : Glci.Config} {checkout : Checkout} {allTasks : List Task}
  {flavours : List GardenlinuxFlavour} {pipeline : Pipeline} {env : RunEnv} {args : RunArgs}
  {run : PipelineRun} {runNamespace : String} {status : String → List Char}

variable (tkn) in
/-- The scripts of a run of the pipeline of the flavours end with calls that are accepted. -/
theorem main_steps_accepted (hrender : renderTask paramOrder checkout = .ok allTasks)
    (hpipeline : mkPipeline orders order platformOrder paramOrder config flavours allTasks
      .snapshot = .ok pipeline)
    (hrun : mkPipelineMainRun env runNamespace args = .ok run)
    (hflavours : ∀ flavour ∈ flavours, PlainFlavour orders config flavour)
    (hplain : run.Plain) (hstatus : ∀ name, Plain (status name)) :
    ∃ steps finallySteps,
      runPipeline tkn allTasks run pipeline status = some (steps, finallySteps) ∧
      List.Forall₂ JobAccepted
        (mainJobs checkout run orders config (order.list flavours.toFinset)) steps ∧
      List.Forall₂ JobAccepted
        [notifyJob checkout run pipeline status
          ((order.list flavours.toFinset).map (Glci.generateTaskName ""))
          (platformOrder.list ((order.list flavours.toFinset).map (·.platform)).toFinset)]
        finallySteps := by
  obtain ⟨steps, finallySteps, hsteps, hjobs, hfinallyJobs⟩ :=
    main_runs_jobs tkn hrender hpipeline hflavours hplain
      (supplied_mainRun hrender hpipeline hrun) hstatus
  exact ⟨steps, finallySteps, hsteps,
    forall₂_of_runsJobs jobAccepted_of_runsJob task_mem_mainJobs hjobs,
    forall₂_of_runsJobs jobAccepted_of_runsJob task_mem_notifyJob hfinallyJobs⟩

theorem main_steps_accepted_gcp :
    ∃ allTasks pipeline run steps finallySteps,
      runPipeline tektonController allTasks run pipeline (fun _ => "Succeeded".toList) =
        some (steps, finallySteps) ∧
      List.Forall₂ JobAccepted (mainJobs emptyScripts run (fun _ _ => .sorted)
        Glci.repositoryConfig (GardenlinuxFlavour.sorted.list [gcpFlavour].toFinset)) steps := by
  obtain ⟨allTasks, hrender⟩ := renderTask_emptyScripts
  obtain ⟨pipeline, hpipeline, -⟩ := mkPipeline_gcp hrender
  obtain ⟨run, hrun, hplain⟩ := mkPipelineMainRun_release
  obtain ⟨steps, finallySteps, hsteps, haccepted, -⟩ := main_steps_accepted tektonController
    hrender hpipeline hrun (List.forall_mem_singleton.2 plain_gcp) hplain plain_succeeded
  exact ⟨allTasks, pipeline, run, steps, finallySteps, hsteps, haccepted⟩

variable (tkn) in
/-- The same for the pipeline of the packages. -/
theorem packages_steps_accepted (hrender : renderTask paramOrder checkout = .ok allTasks)
    (hrun : mkPipelinePackagesRun env runNamespace args = .ok run) (hplain : run.Plain)
    (hstatus : ∀ name, Plain (status name)) :
    ∃ pipeline, mkPipelinePackages paramOrder allTasks = .ok pipeline ∧ ∃ steps finallySteps,
      runPipeline tkn allTasks run pipeline status = some (steps, finallySteps) ∧
      List.Forall₂ JobAccepted (packagesJobs checkout run) steps ∧
      List.Forall₂ JobAccepted [notifyJob checkout run pipeline status [] []] finallySteps := by
  obtain ⟨pipeline, hpipeline⟩ := mkPipelinePackages_ok paramOrder hrender
  obtain ⟨steps, finallySteps, hsteps, hjobs, hfinallyJobs⟩ :=
    packages_run_jobs tkn hrender hpipeline hplain
      (supplied_packagesRun hrender hpipeline hrun) hstatus
  exact ⟨pipeline, hpipeline, steps, finallySteps, hsteps,
    forall₂_of_runsJobs jobAccepted_of_runsJob task_mem_packagesJobs hjobs,
    forall₂_of_runsJobs jobAccepted_of_runsJob task_mem_notifyJob hfinallyJobs⟩

end Runs

end Tkn
