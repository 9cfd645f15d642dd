import GardenLinux.Tkn.MainRun

/-!
# A run of the pipeline of the packages

`mk_pipeline_packages` of `ci/render_pipelines.py`: the base image is built, then each package
with its name, and the packages of the kernel together, with their names as one text.

What is proved here:

* `mkPipelinePackages_ok` — there always is a pipeline of the packages;
* `packages_run_jobs` — a run of it calls every step of every task with the values of its job.
-/

namespace Tkn

open Template AllParams
open GardenFeat (bind_ok_iff)
open Glci (PipelineTask TektonTask getPassedParameters mkPipelineBaseBuildTask)

/-! ## The jobs -/

def packageJob (checkout : Checkout) (package : String) : Job where
  task := nokernelPackageTask checkout
  own := [("pkg_name", package.toList)]

def kernelPackageJob (checkout : Checkout) : Job where
  task := kernelPackageTask checkout
  own := [("pkg_names", "linux-5.10 linux-5.10-signed".toList)]

/-- The base image is built, then each package, and those of the kernel one after the other. -/
def packagesJobs (checkout : Checkout) (run : PipelineRun) : List Job :=
  baseJob checkout run :: packageNames.map (packageJob checkout) ++ [kernelPackageJob checkout]

theorem mem_packagesJobs {checkout : Checkout} {run : PipelineRun} {job : Job} :
    job ∈ packagesJobs checkout run ↔ job = baseJob checkout run ∨
      (∃ package ∈ packageNames, job = packageJob checkout package) ∨
      job = kernelPackageJob checkout := by
  simp only [packagesJobs, List.cons_append, List.mem_cons, List.mem_append, List.mem_map,
    List.not_mem_nil, or_false, eq_comm]

section Makes

variable {tkn : Controller} {checkout : Checkout} {tektonTasks : List TektonTask}
  {rs : List (List Char × List Char)}

theorem packageNames_plain : packageNames.all fun package =>
    package.toList.all isTaskChar := by decide +kernel

/-- What is made for a package. -/
theorem of_mkPipelinePackageBuildTask_ok {package : String} {runAfter : List String}
    {task : PipelineTask}
    (h : mkPipelinePackageBuildTask package runAfter tektonTasks = .ok task) :
    task.taskRef = "build-packages" ∧ task.runAfter = some runAfter ∧
      (TaskName package → TaskName task.name) ∧
      getPassedParameters "build-packages" tektonTasks [⟨"pkg_name", package⟩] = .ok task.params := by
  obtain ⟨params, hparams, h⟩ := bind_ok_iff.1 h
  obtain rfl := Except.ok.inj h
  refine ⟨rfl, rfl, fun hname c hc => ?_, hparams⟩
  rw [String.toList_append] at hc
  rcases List.mem_append.1 hc with hc | hc
  · exact List.all_eq_true.1 (by decide : "build-package-".toList.all isTaskChar) c hc
  · rw [String.toList_ofList, List.map_map] at hc
    obtain ⟨d, hd, rfl⟩ := List.mem_map.1 hc
    have hdash : isTaskChar '-' := by decide
    dsimp only [Function.comp]
    split <;> split <;> first | exact hdash | exact hname d hd

theorem of_mkPipelineKernelPackageBuildTask_ok {packages : String} {runAfter : List String}
    {task : PipelineTask}
    (h : mkPipelineKernelPackageBuildTask packages runAfter tektonTasks = .ok task) :
    task.name = "build-kernel-packages" ∧ task.taskRef = "build-kernel-packages" ∧
      task.runAfter = some runAfter ∧
      getPassedParameters "build-kernel-packages" tektonTasks [⟨"pkg_names", packages⟩] =
        .ok task.params := by
  obtain ⟨params, hparams, h⟩ := bind_ok_iff.1 h
  obtain rfl := Except.ok.inj h
  exact ⟨rfl, rfl, rfl, hparams⟩

theorem makes_package {package : String} {runAfter : List String} {task : PipelineTask}
    (hrs : Values rs) (hpackage : TaskName package)
    (h : mkPipelinePackageBuildTask package runAfter tektonTasks = .ok task) :
    Makes tkn tektonTasks rs (packageJob checkout package) task := by
  obtain ⟨href, -, -, hparams⟩ := of_mkPipelinePackageBuildTask_ok h
  have hput := put_lit tkn.toSubstitution hrs hpackage.plain.dollar
  exact ⟨href, _, hparams, by simp, by rw [List.map_singleton, hput]; rfl⟩

theorem makes_kernelPackage {runAfter : List String} {task : PipelineTask} (hrs : Values rs)
    (h : mkPipelineKernelPackageBuildTask "linux-5.10 linux-5.10-signed" runAfter tektonTasks =
      .ok task) :
    Makes tkn tektonTasks rs (kernelPackageJob checkout) task := by
  obtain ⟨-, href, -, hparams⟩ := of_mkPipelineKernelPackageBuildTask_ok h
  have hput := put_lit tkn.toSubstitution hrs
    (by decide : '$' ∉ "linux-5.10 linux-5.10-signed".toList)
  exact ⟨href, _, hparams, by simp, by rw [List.map_singleton, hput]; rfl⟩

end Makes

/-! ## The pipeline -/

section Packages

variable {tkn : Controller} {paramOrder : Enumeration NamedParam} {checkout : Checkout}
  {allTasks : List Task} {pipeline : Pipeline} {run : PipelineRun}

/-- What `mk_pipeline_packages` makes. -/
structure PackagesPipeline (paramOrder : Enumeration NamedParam) (allTasks : List Task)
    (pipeline : Pipeline) : Prop where
  name : pipeline.name = "gl-packages-build"
  tasks : ∃ base packages kernel notify,
    mkPipelineBaseBuildTask (allTasks.map Task.tekton) = .ok base ∧
    List.Forall₂ (fun package task => mkPipelinePackageBuildTask package [base.name]
      (allTasks.map Task.tekton) = .ok task) packageNames packages ∧
    mkPipelineKernelPackageBuildTask "linux-5.10 linux-5.10-signed" [base.name]
      (allTasks.map Task.tekton) = .ok kernel ∧
    pipeline.tasks = base :: packages ++ [kernel] ∧
    mkPipelineNotifyTask pipeline.tasks (allTasks.map Task.tekton) [] [] = .ok notify ∧
    pipeline.finallyTasks = [notify]
  params : declareParams paramOrder allTasks pipeline.tasks specialPackageParams =
    .ok pipeline.params

theorem of_mkPipelinePackages_ok (h : mkPipelinePackages paramOrder allTasks = .ok pipeline) :
    PackagesPipeline paramOrder allTasks pipeline := by
  obtain ⟨base, hbase, h⟩ := bind_ok_iff.1 h
  obtain ⟨packages, hpackages, h⟩ := bind_ok_iff.1 h
  obtain ⟨kernel, hkernel, h⟩ := bind_ok_iff.1 h
  obtain ⟨notify, hnotify, h⟩ := bind_ok_iff.1 h
  obtain ⟨params, hparams, h⟩ := bind_ok_iff.1 h
  obtain rfl := Except.ok.inj h
  exact ⟨rfl, ⟨base, packages, kernel, notify, mapError_ok_iff.1 hbase,
    forall₂_of_mapM_ok (mapError_ok_iff.1 hpackages), mapError_ok_iff.1 hkernel, rfl,
    mapError_ok_iff.1 hnotify, rfl⟩, hparams⟩

theorem nodup_specialPackageParams : specialPackageParams.Nodup := by decide

theorem PackagesPipeline.cases {motive : PipelineTask → Prop}
    (h : PackagesPipeline paramOrder allTasks pipeline)
    (hbase : ∀ task, task.name = "build-baseimage" → task.taskRef = "build-baseimage" →
      motive task)
    (hpackage : ∀ task, TaskName task.name → task.taskRef = "build-packages" → motive task)
    (hkernel : ∀ task, task.name = "build-kernel-packages" →
      task.taskRef = "build-kernel-packages" → motive task) :
    ∀ task ∈ pipeline.tasks, motive task := by
  obtain ⟨base, packages, kernel, notify, hmadeBase, hpackages, hmadeKernel, htasks, -⟩ := h.tasks
  intro task htask
  simp only [htasks, List.cons_append, List.mem_cons, List.mem_append, List.not_mem_nil,
    or_false] at htask
  rcases htask with rfl | htask | rfl
  · obtain ⟨params, -, hmadeBase⟩ := bind_ok_iff.1 hmadeBase
    obtain rfl := Except.ok.inj hmadeBase
    exact hbase _ rfl rfl
  · obtain ⟨package, hmem, hmade⟩ := exists_of_forall₂ hpackages htask
    obtain ⟨href, -, hname, -⟩ := of_mkPipelinePackageBuildTask_ok hmade
    have hplain := List.all_eq_true.1 packageNames_plain package hmem
    exact hpackage task (hname (List.all_eq_true.1 hplain)) href
  · obtain ⟨hname, href, -⟩ := of_mkPipelineKernelPackageBuildTask_ok hmadeKernel
    exact hkernel _ hname href

theorem PackagesPipeline.taskNames (h : PackagesPipeline paramOrder allTasks pipeline) :
    ∀ task ∈ pipeline.tasks, TaskName task.name := by
  have hall {s : String} (hs : s.toList.all isTaskChar) : TaskName s := List.all_eq_true.1 hs
  refine h.cases ?_ ?_ ?_
  · exact fun task hname _ => hname ▸ hall (by decide)
  · exact fun task hname _ => hname
  · exact fun task hname _ => hname ▸ hall (by decide)

theorem PackagesPipeline.taskRefs (h : PackagesPipeline paramOrder allTasks pipeline) :
    ∀ task ∈ pipeline.tasks,
      task.taskRef ∈ ["build-baseimage", "build-packages", "build-kernel-packages"] := by
  refine h.cases ?_ ?_ ?_ <;> exact fun task _ href => by simp [href]

theorem PackagesPipeline.makes (h : PackagesPipeline paramOrder allTasks pipeline)
    {rs : List (List Char × List Char)} (hrs : Values rs) (hsub : ∀ r ∈ run.values pipeline, r ∈ rs) :
    List.Forall₂ (Makes tkn (allTasks.map Task.tekton) rs) (packagesJobs checkout run)
      pipeline.tasks := by
  obtain ⟨base, packages, kernel, notify, hbase, hpackages, hkernel, htasks, -⟩ := h.tasks
  have hmade : List.Forall₂ (Makes tkn (allTasks.map Task.tekton) rs)
      (packageNames.map (packageJob checkout)) packages := by
    rw [List.forall₂_map_left_iff]
    refine forall₂_imp_of_mem hpackages fun package task hpackage hmade =>
      makes_package hrs ?_ hmade
    exact List.all_eq_true.1 (List.all_eq_true.1 packageNames_plain package hpackage)
  rw [htasks, packagesJobs, List.cons_append, List.cons_append]
  exact .cons (makes_base hrs hsub hbase)
    (List.rel_append hmade (.cons (makes_kernelPackage hrs hkernel) .nil))

theorem PackagesPipeline.fits (hrender : renderTask paramOrder checkout = .ok allTasks)
    (h : PackagesPipeline paramOrder allTasks pipeline) (hrun : run.Plain) :
    ∀ job ∈ packagesJobs checkout run, job.Fits checkout pipeline := by
  obtain ⟨base, packages, kernel, notify, hbase, hpackages, hkernel, htasks, -⟩ := h.tasks
  have hbaseParams : ∀ param ∈ (baseImageBuildTask noPatch).allParams,
      param ∈ specialPackageParams → param.name ∈ ["pipeline_run_name", "namespace"] := by decide
  have hpackageParams : ∀ param ∈ (nokernelPackageTask noPatch).allParams,
      param ∈ specialPackageParams → param.name ∈ ["pkg_name"] := by decide
  have hkernelParams : ∀ param ∈ (kernelPackageTask noPatch).allParams,
      param ∈ specialPackageParams → param.name ∈ ["pkg_names"] := by decide
  intro job hjob
  rcases mem_packagesJobs.1 hjob with rfl | ⟨package, hpackage, rfl⟩ | rfl
  · refine fits_of_declared hrender nodup_specialPackageParams h.params
      (by simp [taskSources, baseJob]) (.inr ⟨base, by simp [htasks], ?_⟩) hbaseParams ?_
    · obtain ⟨params, -, hbase⟩ := bind_ok_iff.1 hbase
      obtain rfl := Except.ok.inj hbase
      rfl
    · simp only [baseJob, List.forall_mem_cons, List.not_mem_nil, false_implies, implies_true,
        and_true]
      exact ⟨hrun.name, hrun.runNamespace⟩
  · obtain ⟨task, htask, hmade⟩ := exists_of_forall₂ hpackages.flip hpackage
    refine fits_of_declared hrender nodup_specialPackageParams h.params
      (by simp [taskSources, packageJob])
      (.inr ⟨task, by simp [htasks, htask], (of_mkPipelinePackageBuildTask_ok hmade).1⟩)
      hpackageParams ?_
    have hname : TaskName package :=
      List.all_eq_true.1 (List.all_eq_true.1 packageNames_plain package hpackage)
    simpa [packageJob] using hname.plain
  · refine fits_of_declared hrender nodup_specialPackageParams h.params
      (by simp [taskSources, kernelPackageJob])
      (.inr ⟨kernel, by simp [htasks], (of_mkPipelineKernelPackageBuildTask_ok hkernel).2.1⟩)
      hkernelParams ?_
    have hplain : Plain "linux-5.10 linux-5.10-signed".toList :=
      List.all_eq_true.1 (by decide +kernel)
    simpa [kernelPackageJob] using hplain

variable (tkn) in
/-- A run of the pipeline of the packages calls every step of every task with the values of its
job. -/
theorem packages_run_jobs (hrender : renderTask paramOrder checkout = .ok allTasks)
    (hpipeline : mkPipelinePackages paramOrder allTasks = .ok pipeline)
    (hrun : run.Plain) (hsupplied : ∀ param ∈ pipeline.params, (run.value param).isSome)
    {status : String → List Char} (hstatus : ∀ name, Plain (status name)) :
    ∃ steps finallySteps,
      runPipeline tkn allTasks run pipeline status = some (steps, finallySteps) ∧
      List.Forall₂ (RunsJob tkn run) (packagesJobs checkout run) steps ∧
      List.Forall₂ (RunsJob tkn run) [notifyJob checkout run pipeline status [] []]
        finallySteps := by
  have hpackages := of_mkPipelinePackages_ok hpipeline
  obtain ⟨base, packages, kernel, notify, -, -, -, htasks, hnotify, hfinally⟩ := hpackages.tasks
  have hstart : Starts run pipeline := by
    refine ⟨hrun, ?_, (of_declareParams_ok nodup_specialPackageParams hpackages.params).1,
      fun param => known_of_declared hrender nodup_specialPackageParams hpackages.params, hsupplied⟩
    rw [hpackages.name]
    exact List.all_eq_true.1 (by decide : "gl-packages-build".toList.all isPlainChar)
  have hnotifyParams : ∀ param ∈ (notifyTask noPatch).allParams, param ∈ specialPackageParams →
      param.name ∈ ["platform_set", "pipeline_run_name", "pipeline_name", "namespace",
        "status_dict_str", "build_tasks"] := by decide
  have hfits := fits_notify hrender nodup_specialPackageParams hpackages.params hnotifyParams hrun
    hstart.name hpackages.taskNames hstatus (List.forall_mem_nil _) (List.forall_mem_nil _)
  refine runPipeline_runs hrender hstart hpackages.taskNames hstatus (hpackages.fits hrender hrun)
    (List.forall_mem_singleton.2 hfits) (fun rs hrs hsub => hpackages.makes hrs hsub)
    fun rs hrs hsub hlookup => ?_
  exact hfinally ▸ .cons (makes_notify tkn checkout hrs hsub hpackages.taskNames hlookup
    (List.forall_mem_nil _) (List.forall_mem_nil _) hnotify) .nil

variable (paramOrder) in
/-- There always is a pipeline of the packages. -/
theorem mkPipelinePackages_ok (hrender : renderTask paramOrder checkout = .ok allTasks) :
    ∃ pipeline, mkPipelinePackages paramOrder allTasks = .ok pipeline := by
  obtain ⟨base, hbase, -, hbaseRef⟩ := mkPipelineBaseBuildTask_ok hrender
  obtain ⟨packages, hpackages⟩ : ∃ tasks, packageNames.mapM (fun package =>
      mkPipelinePackageBuildTask package [base.name] (allTasks.map Task.tekton)) = .ok tasks :=
    mapM_ok_iff.2 fun package _ => by
      obtain ⟨params, hparams⟩ := getPassedParameters_ok hrender "build-packages"
        (by decide) [⟨"pkg_name", package⟩]
      exact ⟨_, bind_ok_iff.2 ⟨params, hparams, rfl⟩⟩
  obtain ⟨kernel, hkernel, hkernelRef⟩ : ∃ task, mkPipelineKernelPackageBuildTask
      "linux-5.10 linux-5.10-signed" [base.name] (allTasks.map Task.tekton) = .ok task ∧
        task.taskRef = "build-kernel-packages" := by
    obtain ⟨params, hparams⟩ := getPassedParameters_ok hrender "build-kernel-packages"
      (by decide) [⟨"pkg_names", "linux-5.10 linux-5.10-signed"⟩]
    exact ⟨_, bind_ok_iff.2 ⟨params, hparams, rfl⟩, rfl⟩
  obtain ⟨notify, hnotify⟩ := mkPipelineNotifyTask_ok hrender (base :: packages ++ [kernel]) [] []
  have hmade := forall₂_of_mapM_ok hpackages
  have hrefs : ∀ task ∈ base :: packages ++ [kernel],
      task.taskRef ∈ (taskSources noPatch).map (·.name) := by
    intro task htask
    simp only [List.cons_append, List.mem_cons, List.mem_append, List.not_mem_nil,
      or_false] at htask
    rcases htask with rfl | htask | rfl
    · exact hbaseRef ▸ by decide
    · obtain ⟨package, -, hpackage⟩ := exists_of_forall₂ hmade htask
      exact (of_mkPipelinePackageBuildTask_ok hpackage).1 ▸ by decide
    · exact hkernelRef ▸ by decide
  -- one task of each kind declares what is removed
  obtain ⟨apt, hapt, haptMade⟩ := exists_of_forall₂ hmade.flip
    (by simp [packageNames] : "apt" ∈ packageNames)
  have hcases : ∀ param ∈ specialPackageParams, param ∈ (baseImageBuildTask noPatch).allParams ∨
      param ∈ (nokernelPackageTask noPatch).allParams ∨
      param ∈ (kernelPackageTask noPatch).allParams ∨ param ∈ (notifyTask noPatch).allParams := by
    decide
  obtain ⟨params, hparams⟩ := (declareParams_ok_iff hrender
    nodup_specialPackageParams hrefs).2 fun param hparam => by
      rcases hcases param hparam with hmem | hmem | hmem | hmem
      · exact ⟨baseImageBuildTask checkout, by simp [taskSources],
          .inr ⟨base, by simp, hbaseRef⟩, hmem⟩
      · exact ⟨nokernelPackageTask checkout, by simp [taskSources],
          .inr ⟨apt, by simp [hapt], (of_mkPipelinePackageBuildTask_ok haptMade).1⟩, hmem⟩
      · exact ⟨kernelPackageTask checkout, by simp [taskSources],
          .inr ⟨kernel, by simp, hkernelRef⟩, hmem⟩
      · exact ⟨notifyTask checkout, by simp [taskSources], .inl rfl, hmem⟩
  exact ⟨_, bind_ok_iff.2 ⟨base, mapError_ok_iff.2 hbase, bind_ok_iff.2 ⟨packages,
    mapError_ok_iff.2 hpackages, bind_ok_iff.2 ⟨kernel, mapError_ok_iff.2 hkernel,
      bind_ok_iff.2 ⟨notify, mapError_ok_iff.2 hnotify, bind_ok_iff.2 ⟨params, hparams, rfl⟩⟩⟩⟩⟩⟩

end Packages

end Tkn
