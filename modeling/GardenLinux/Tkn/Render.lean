import GardenLinux.Glci.Oci
import GardenLinux.Tkn.Runs

/-!
# Rendering the pipelines

`ci/render_pipelines.py`: the pipeline that builds the flavours and the one that builds the
packages.  Their tasks pass the parameters of the pipeline on; the pipeline declares those of
all its tasks but for a few that every task has a value of its own for.

What is proved here:

* `paramValue_getPassedParameters` — what a task passes for a parameter;
* `of_declareParams_ok` — which parameters a pipeline declares, and that it declares each once.
-/

namespace Tkn

open Template AllParams
open Glci (GardenlinuxFlavour PipelineFlavour PipelineTask TektonTask getPassedParameters
  mkPipelineBaseBuildTask mkPipelineBuildTask mkPipelineTestTask mkPipelinePromoteTask mkFlavourTasks
  getModifierNames CallOrders)

structure Pipeline where
  name : String
  params : List NamedParam
  tasks : List PipelineTask
  finallyTasks : List PipelineTask

inductive RenderError
  | pipelineError (e : Glci.PipelineError)
  | keyError (param : NamedParam)

/-! ## Tasks -/

/-- An element is listed where it comes first. -/
def insertNew {α : Type} [DecidableEq α] (l : List α) (a : α) : List α :=
  if a ∈ l then l else l ++ [a]

/-- `json.dumps` of the dictionary from the tasks to the references to their status. -/
def statusStr (previousTasks : List PipelineTask) : List Char :=
  let names := (previousTasks.map (·.name)).foldl insertNew []
  Char.ofNat 123 :: [',', ' '].intercalate (names.map fun name =>
    Glci.jsonString ("status_" ++ name) ++ ':' :: ' ' ::
      Glci.jsonString ("$(tasks." ++ name ++ ".status)")) ++ [Char.ofNat 125]

/-- `mk_pipeline_notify_task`; the platforms are listed in the order of a set. -/
def mkPipelineNotifyTask (previousTasks : List PipelineTask) (allTasks : List TektonTask)
    (buildTasks : List PipelineTask) (platforms : List String) :
    Except Glci.PipelineError PipelineTask := do
  let buildTaskNames := (String.singleton ',').intercalate (buildTasks.map (·.name))
  let platformSetStr := (String.singleton ',').intercalate platforms
  let params ← getPassedParameters "notify-task" allTasks
    [⟨"platform_set", platformSetStr⟩, ⟨"pipeline_run_name", "$(context.pipelineRun.name)"⟩,
      ⟨"pipeline_name", "$(context.pipeline.name)"⟩,
      ⟨"namespace", "$(context.pipelineRun.namespace)"⟩,
      ⟨"status_dict_str", String.ofList (statusStr previousTasks)⟩,
      ⟨"build_tasks", buildTaskNames⟩]
  pure ⟨"notify-task", "notify-task", params, some [], "1h"⟩

/-- `mk_pipeline_package_build_task`. -/
def mkPipelinePackageBuildTask (packageName : String) (runAfter : List String)
    (allTasks : List TektonTask) : Except Glci.PipelineError PipelineTask := do
  let params ← getPassedParameters "build-packages" allTasks [⟨"pkg_name", packageName⟩]
  let name := packageName.toList.map fun c => if c = '_' then '-' else c
  let name := name.map fun c => if c = '.' then '-' else c
  pure ⟨"build-package-" ++ String.ofList name, "build-packages", params, some runAfter, "6h"⟩

/-- `mk_pipeline_kernel_package_build_task`. -/
def mkPipelineKernelPackageBuildTask (packageNames : String) (runAfter : List String)
    (allTasks : List TektonTask) : Except Glci.PipelineError PipelineTask := do
  let params ← getPassedParameters "build-kernel-packages" allTasks [⟨"pkg_names", packageNames⟩]
  pure ⟨"build-kernel-packages", "build-kernel-packages", params, some runAfter, "6h"⟩

/-! ## Pipelines -/

def findTask (name : String) (allTasks : List Task) : Except RenderError Task :=
  match allTasks.find? (·.name = name) with
  | some task => .ok task
  | none => .error (.pipelineError (.stopIteration name))

/-- The parameters of the tasks that a pipeline refers to. -/
def taskParams (allTasks : List Task) : List PipelineTask → Except RenderError (List NamedParam)
  | [] => pure []
  | task :: tasks => do
    let matchedTask ← findTask task.taskRef allTasks
    let params ← taskParams allTasks tasks
    pure (matchedTask.params ++ params)

/-- `params.remove`, for one parameter after the other. -/
def removeParams : List NamedParam → Finset NamedParam → Except RenderError (Finset NamedParam)
  | [], params => pure params
  | param :: removed, params =>
    if param ∈ params then removeParams removed (params.erase param)
    else .error (.keyError param)

/-- What both pipelines end with: the parameters that are declared. -/
def declareParams (paramOrder : Enumeration NamedParam) (allTasks : List Task)
    (tasks : List PipelineTask) (removed : List NamedParam) :
    Except RenderError (List NamedParam) := do
  let notify ← findTask "notify-task" allTasks
  let params ← taskParams allTasks tasks
  let params ← removeParams removed (notify.params ++ params).toFinset
  pure (paramOrder.list params)

/-- The parameters that the pipeline of the flavours does not declare. -/
def specialParams : List NamedParam :=
  [modifiers, namespaceParam, platform, pipelineRunName, pipelineName, platformSet]

/-- `mk_pipeline`; the orders are those in which Python lists the sets of flavours, of
platforms and of parameters. -/
def mkPipeline (orders : CallOrders) (order : Enumeration GardenlinuxFlavour)
    (platformOrder : Enumeration String) (paramOrder : Enumeration NamedParam)
    (config : Glci.Config) (gardenlinuxFlavours : List GardenlinuxFlavour) (allTasks : List Task)
    (pipelineFlavour : PipelineFlavour) : Except RenderError Pipeline := do
  let tektonTasks := allTasks.map Task.tekton
  let flavours := order.list gardenlinuxFlavours.toFinset
  let baseBuildTask ← (mkPipelineBaseBuildTask tektonTasks).mapError .pipelineError
  let (buildTasks, testTasks) ← (mkFlavourTasks orders config pipelineFlavour baseBuildTask.name
    tektonTasks flavours).mapError .pipelineError
  let promoteTask ← (mkPipelinePromoteTask (buildTasks.map (·.name)) tektonTasks).mapError
    .pipelineError
  let tasks := baseBuildTask :: buildTasks ++ testTasks ++ [promoteTask]
  let notifyTask ← (mkPipelineNotifyTask tasks tektonTasks buildTasks
    (platformOrder.list (flavours.map (·.platform)).toFinset)).mapError .pipelineError
  let params ← declareParams paramOrder allTasks tasks specialParams
  pure ⟨"gardenlinux-build", params, tasks, [notifyTask]⟩

/-- The parameters that the pipeline of the packages does not declare. -/
def specialPackageParams : List NamedParam :=
  [namespaceParam, pipelineName, pipelineRunName, pkgNames, pkgName, platformSet]

def packageNames : List String :=
  ["apt", "cyrus-sasl2", "dracut", "google-compute-engine", "google-compute-engine-oslogin",
    "google-guest-agent", "ignition", "iproute2", "pam", "python3.9", "selinux-basics", "waagent"]

/-- `mk_pipeline_packages`. -/
def mkPipelinePackages (paramOrder : Enumeration NamedParam) (allTasks : List Task) :
    Except RenderError Pipeline := do
  let tektonTasks := allTasks.map Task.tekton
  let baseBuildTask ← (mkPipelineBaseBuildTask tektonTasks).mapError .pipelineError
  let packageTasks ← (packageNames.mapM fun package =>
    mkPipelinePackageBuildTask package [baseBuildTask.name] tektonTasks).mapError .pipelineError
  let packageKernelTask ← (mkPipelineKernelPackageBuildTask "linux-5.10 linux-5.10-signed"
    [baseBuildTask.name] tektonTasks).mapError .pipelineError
  let tasks := baseBuildTask :: packageTasks ++ [packageKernelTask]
  let notifyTask ← (mkPipelineNotifyTask tasks tektonTasks [] []).mapError .pipelineError
  let params ← declareParams paramOrder allTasks tasks specialPackageParams
  pure ⟨"gl-packages-build", params, tasks, [notifyTask]⟩

/-! ## What a task passes -/

/-- The text that is passed for a parameter. -/
def paramValue (params : List Glci.NamedParam) (name : String) : Option String :=
  (params.find? (·.name = name)).map (·.value)

theorem paramValue_append (params params' : List Glci.NamedParam) (name : String) :
    paramValue (params ++ params') name = (paramValue params name).or (paramValue params' name) := by
  cases hfind : params.find? (·.name = name) <;> simp [paramValue, List.find?_append, hfind]

theorem paramValue_cons (param : Glci.NamedParam) (params : List Glci.NamedParam) (name : String) :
    paramValue (param :: params) name =
      if param.name = name then some param.value else paramValue params name := by
  by_cases hname : param.name = name <;> simp [paramValue, hname]

/-- An entry that is there is replaced. -/
theorem paramValue_replace {params : List Glci.NamedParam} {param : Glci.NamedParam}
    (hmem : param.name ∈ params.map (·.name)) (name : String) :
    paramValue (params.map fun other => if other.name = param.name then param else other) name =
      if param.name = name then some param.value else paramValue params name := by
  induction params with
  | nil => simp at hmem
  | cons other params ih =>
    rw [List.map_cons, paramValue_cons, paramValue_cons]
    by_cases hother : other.name = param.name
    · rw [if_pos hother]
      by_cases hname : param.name = name
      · simp [hname]
      · have hne : ¬ other.name = name := fun heq => hname (hother ▸ heq)
        rw [if_neg hname, if_neg hname, if_neg hne]
        by_cases hrest : param.name ∈ params.map (·.name)
        · rw [ih hrest, if_neg hname]
        · rw [List.map_congr_left (g := id) fun p hp => if_neg
            fun heq : p.name = param.name => hrest (heq ▸ List.mem_map_of_mem hp), List.map_id]
    · have hrest : param.name ∈ params.map (·.name) := by
        simpa [Ne.symm hother] using hmem
      rw [if_neg hother, ih hrest]
      by_cases hname : param.name = name
      · have hne : ¬ other.name = name := fun heq => hother (heq.trans hname.symm)
        simp [hname, hne]
      · simp [hname]

theorem paramValue_setParam (params : List Glci.NamedParam) (param : Glci.NamedParam)
    (name : String) :
    paramValue (Glci.setParam params param) name =
      if param.name = name then some param.value else paramValue params name := by
  unfold Glci.setParam
  by_cases hmem : param.name ∈ params.map (·.name)
  · rw [if_pos hmem, paramValue_replace hmem]
  · unfold paramValue
    rw [if_neg hmem, List.find?_append]
    by_cases hname : param.name = name
    · subst hname
      have hnone : params.find? (·.name = param.name) = none := by
        simpa [List.find?_eq_none] using hmem
      simp [hnone]
    · simp [hname]

/-- The last entry with a name holds. -/
theorem paramValue_foldl (entries params : List Glci.NamedParam) (name : String) :
    paramValue (entries.foldl Glci.setParam params) name =
      (paramValue entries.reverse name).or (paramValue params name) := by
  induction entries generalizing params with
  | nil => simp [paramValue]
  | cons entry entries ih =>
    rw [List.foldl_cons, ih, paramValue_setParam, List.reverse_cons, paramValue_append,
      paramValue_cons]
    by_cases hname : entry.name = name <;> simp [hname, paramValue]

/-- A task passes a value of its own, or that of the pipeline. -/
theorem paramValue_getPassedParameters {name : String} {allTasks : List TektonTask}
    {overrides params : List Glci.NamedParam}
    (h : getPassedParameters name allTasks overrides = .ok params) :
    ∃ task, allTasks.find? (·.name = name) = some task ∧ ∀ param ∈ task.params,
      paramValue params param = (paramValue overrides.reverse param).or
        (some ("$(params." ++ param ++ ")")) := by
  obtain ⟨task, htask, h⟩ := GardenFeat.bind_ok_iff.1 h
  obtain rfl := Except.ok.inj h
  have hfind : allTasks.find? (·.name = name) = some task := by
    unfold Glci.findTask at htask
    split at htask
    · next other hother => rw [hother, Except.ok.inj htask]
    · cases htask
  refine ⟨task, hfind, fun param hparam => ?_⟩
  have hpassed : paramValue (task.params.map Glci.passParam).reverse param =
      some ("$(params." ++ param ++ ")") := by
    unfold paramValue
    rw [← List.map_reverse, List.find?_map]
    obtain ⟨p, hp⟩ := Option.isSome_iff_exists.1 (List.find?_isSome.2
      ⟨param, List.mem_reverse.2 hparam, by simp [Glci.passParam]⟩ : (task.params.reverse.find?
        ((fun p : Glci.NamedParam => decide (p.name = param)) ∘ Glci.passParam)).isSome)
    have hsome := List.find?_some hp
    have hname : (Glci.passParam p).name = param := of_decide_eq_true hsome
    rw [hp, ← hname]
    rfl
  rw [paramValue_foldl, List.reverse_append, paramValue_append, hpassed]
  simp [paramValue]

/-! ## What a pipeline declares -/

section Declare

variable {paramOrder : Enumeration NamedParam} {allTasks : List Task}

theorem mapError_ok_iff {ε ε' α : Type} {x : Except ε α} {f : ε → ε'} {a : α} :
    x.mapError f = .ok a ↔ x = .ok a := by
  cases x <;> simp [Except.mapError]

theorem findTask_ok_iff {name : String} {task : Task} :
    findTask name allTasks = .ok task ↔ allTasks.find? (·.name = name) = some task := by
  unfold findTask
  split
  · next other hother => simp [hother]
  · next hnone => simp [hnone]

theorem taskParams_ok_iff {tasks : List PipelineTask} :
    (∃ params, taskParams allTasks tasks = .ok params) ↔
      ∀ pipelineTask ∈ tasks, ∃ task, findTask pipelineTask.taskRef allTasks = .ok task := by
  induction tasks with
  | nil => simp [taskParams, pure, Except.pure]
  | cons pipelineTask tasks ih =>
    rw [List.forall_mem_cons, ← ih]
    constructor
    · rintro ⟨params, h⟩
      obtain ⟨task, htask, h⟩ := GardenFeat.bind_ok_iff.1 h
      obtain ⟨rest, hrest, -⟩ := GardenFeat.bind_ok_iff.1 h
      exact ⟨⟨task, htask⟩, rest, hrest⟩
    · rintro ⟨⟨task, htask⟩, rest, hrest⟩
      exact ⟨task.params ++ rest,
        by simp [taskParams, htask, hrest, pure, Except.pure, bind, Except.bind]⟩

theorem mem_taskParams {tasks : List PipelineTask} {params : List NamedParam}
    (h : taskParams allTasks tasks = .ok params) {param : NamedParam} :
    param ∈ params ↔ ∃ pipelineTask ∈ tasks, ∃ task,
      findTask pipelineTask.taskRef allTasks = .ok task ∧ param ∈ task.params := by
  induction tasks generalizing params with
  | nil =>
    obtain rfl := Except.ok.inj h
    simp
  | cons pipelineTask tasks ih =>
    obtain ⟨task, htask, h⟩ := GardenFeat.bind_ok_iff.1 h
    obtain ⟨rest, hrest, h⟩ := GardenFeat.bind_ok_iff.1 h
    obtain rfl := Except.ok.inj h
    simp [ih hrest, htask]

/-- A parameter can only be removed if it is there. -/
theorem removeParams_ok_iff {removed : List NamedParam} (hnodup : removed.Nodup)
    {params params' : Finset NamedParam} :
    removeParams removed params = .ok params' ↔
      (∀ param ∈ removed, param ∈ params) ∧ params' = params \ removed.toFinset := by
  induction removed generalizing params with
  | nil => simp [removeParams, pure, Except.pure, eq_comm]
  | cons param removed ih =>
    rw [List.nodup_cons] at hnodup
    rw [removeParams, List.forall_mem_cons]
    by_cases hmem : param ∈ params
    · have hsdiff : params.erase param \ removed.toFinset =
          params \ (param :: removed).toFinset := by
        ext other
        simp only [Finset.mem_sdiff, Finset.mem_erase, List.toFinset_cons, Finset.mem_insert]
        tauto
      rw [if_pos hmem, ih hnodup.2, hsdiff]
      simp only [hmem, true_and]
      refine and_congr_left fun _ => forall₂_congr fun other hother => ?_
      have hne : other ≠ param := fun heq => hnodup.1 (heq ▸ hother)
      simp [hne]
    · simp [hmem]

/-- What is declared: the parameters of all tasks but those that are removed. -/
theorem of_declareParams_ok {tasks : List PipelineTask} {removed params : List NamedParam}
    (hnodup : removed.Nodup) (h : declareParams paramOrder allTasks tasks removed = .ok params) :
    params.Nodup ∧ ∀ param, param ∈ params ↔ param ∉ removed ∧
      ((∃ task, findTask "notify-task" allTasks = .ok task ∧ param ∈ task.params) ∨
        ∃ pipelineTask ∈ tasks, ∃ task,
          findTask pipelineTask.taskRef allTasks = .ok task ∧ param ∈ task.params) := by
  obtain ⟨notify, hnotify, h⟩ := GardenFeat.bind_ok_iff.1 h
  obtain ⟨all, hall, h⟩ := GardenFeat.bind_ok_iff.1 h
  obtain ⟨left, hleft, h⟩ := GardenFeat.bind_ok_iff.1 h
  obtain rfl := Except.ok.inj h
  obtain ⟨-, rfl⟩ := (removeParams_ok_iff hnodup).1 hleft
  refine ⟨paramOrder.nodup _, fun param => ?_⟩
  simp [paramOrder.mem_list, mem_taskParams hall, hnotify, and_comm]

end Declare

end Tkn
