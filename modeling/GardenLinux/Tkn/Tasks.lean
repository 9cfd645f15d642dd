import GardenLinux.Glci.Pipeline
import GardenLinux.Tkn.Calls

/-!
# The tasks

`ci/tasks.py` and `render_task` of `ci/render_task.py`: a task runs some of the steps, and
declares the parameters that they pass on.

What is proved here:

* `closed_of_mem_taskSources` — a task declares whatever its steps refer to;
* `nodup_params` — and no name twice;
* `of_renderTask_ok` and `renderTask_ok_iff` — the tasks that are rendered, and that this only
  needs the files of the scripts.
-/

namespace Tkn

open Template AllParams AllResults

structure Task where
  name : String
  params : List NamedParam
  results : List NamedParam
  steps : List TaskStep

/-- The task as the pipeline knows it: its name and the names of its parameters. -/
def Task.tekton (task : Task) : Glci.TektonTask := ⟨task.name, task.params.map (·.name)⟩

/-- What a task is made from.  The steps are run in another order than that in which they are
made. -/
structure TaskSource where
  name : String
  params : List NamedParam
  results : List NamedParam
  made : List StepSource
  steps : List StepSource

/-- `unify_params`; `order` is that in which Python lists a set. -/
def unifyParams (order : Enumeration NamedParam) (params : List NamedParam) : List NamedParam :=
  order.list params.toFinset

/-- All parameters of the task and of its steps. -/
def TaskSource.allParams (source : TaskSource) : List NamedParam :=
  source.params ++ source.made.flatMap (·.params)

def TaskSource.task (order : Enumeration NamedParam) (checkout : Checkout) (source : TaskSource) :
    Except StepError Task := do
  -- the scripts are read when the steps are made
  let _ ← source.made.mapM (·.step checkout)
  let steps ← source.steps.mapM (·.step checkout)
  pure ⟨source.name, unifyParams order source.allParams, source.results, steps⟩

def promoteTask (checkout : Checkout) : TaskSource where
  name := "promote-gardenlinux-task"
  params := []
  results := [manifestSetKeyResult]
  made := [cloneStep checkout, promoteStep, releaseStep, createComponentDescriptorStep]
  steps := [cloneStep checkout, createComponentDescriptorStep, promoteStep, releaseStep]

/-- `_package_task`. -/
def packageTask (checkout : Checkout) (taskName : String) (packageBuildStep : StepSource)
    (isKernelTask : Bool) : TaskSource where
  name := taskName
  params := [if isKernelTask then pkgNames else pkgName, gardenlinuxBuildDebImage]
  results := []
  made := [packageBuildStep, cloneStep checkout, writeKeyStep, buildCertStep,
    buildUploadPackagesStep]
  steps := [cloneStep checkout, writeKeyStep, buildCertStep, packageBuildStep,
    buildUploadPackagesStep]

def nokernelPackageTask (checkout : Checkout) : TaskSource :=
  packageTask checkout "build-packages" buildPackageStep false

def kernelPackageTask (checkout : Checkout) : TaskSource :=
  packageTask checkout "build-kernel-packages" buildKernelPackageStep true

def buildTask (checkout : Checkout) : TaskSource where
  name := "build-gardenlinux-task"
  params := [buildImage, gardenlinuxBuildDebImage]
  results := [buildResult]
  made := [cloneStep checkout, preBuildStep, writeKeyStep, buildCertStep, buildImageStep,
    uploadResultsStep, promoteSingleStep]
  steps := [cloneStep checkout, preBuildStep, writeKeyStep, buildCertStep, buildImageStep,
    uploadResultsStep, promoteSingleStep]

def testTask (checkout : Checkout) : TaskSource where
  name := "integration-test-task"
  params := []
  results := []
  made := [cloneStep checkout, preCheckTestsStep, testStep, uploadTestResultsStep]
  steps := [cloneStep checkout, preCheckTestsStep, testStep, uploadTestResultsStep]

def baseImageBuildTask (checkout : Checkout) : TaskSource where
  name := "build-baseimage"
  params := []
  results := []
  made := [cloneStep checkout, statusStep, buildBaseImageStep]
  steps := [cloneStep checkout, statusStep, buildBaseImageStep]

def notifyTask (checkout : Checkout) : TaskSource where
  name := "notify-task"
  params := []
  results := []
  made := [cloneStep checkout, getLogsStep, attachLogStep, notifyStep]
  steps := [cloneStep checkout, attachLogStep, getLogsStep, notifyStep]

/-- The tasks in the order in which `render_task` returns them. -/
def taskSources (checkout : Checkout) : List TaskSource :=
  [baseImageBuildTask checkout, buildTask checkout, kernelPackageTask checkout,
    nokernelPackageTask checkout, testTask checkout, promoteTask checkout, notifyTask checkout]

/-- `render_task`. -/
def renderTask (order : Enumeration NamedParam) (checkout : Checkout) :
    Except StepError (List Task) := do
  let baseBuildTask ← (baseImageBuildTask checkout).task order checkout
  let packageTask ← (nokernelPackageTask checkout).task order checkout
  let kernelPackageTask ← (kernelPackageTask checkout).task order checkout
  let buildTask ← (buildTask checkout).task order checkout
  let testTask ← (testTask checkout).task order checkout
  let promoteTask ← (promoteTask checkout).task order checkout
  let notifyTask ← (notifyTask checkout).task order checkout
  pure [baseBuildTask, buildTask, kernelPackageTask, packageTask, testTask, promoteTask, notifyTask]

/-! ## What a task declares -/

/-- The parameters, the results and the images of a task and of its steps. -/
def TaskSource.Declares (source : TaskSource) : Prop :=
  (∀ param ∈ source.params, param ∈ knownParams) ∧
  (∀ result ∈ source.steps.flatMap (·.results), result ∈ source.results) ∧
  (∀ result ∈ source.results, result ∈ [buildResult, manifestSetKeyResult]) ∧
  (source.results.map (·.name)).Nodup ∧
  ∀ image ∈ source.steps.map (·.image), image ∈ [defaultImage, kanikoImage] ++
    source.allParams.map fun param => String.ofList (reference param.key)

instance : DecidablePred TaskSource.Declares := fun _ =>
  inferInstanceAs (Decidable (_ ∧ _ ∧ _ ∧ _ ∧ _))

/-- A task declares what its steps refer to. -/
structure TaskSource.Closed (source : TaskSource) : Prop where
  made : ∀ step ∈ source.steps, step ∈ source.made
  known : ∀ param ∈ source.allParams, param ∈ knownParams
  wellFormed : ∀ step ∈ source.steps, step.WellFormed
  declares : source.Declares

/-- A task runs steps that are made for it. -/
theorem made_of_mem_taskSources {checkout : Checkout} {source : TaskSource}
    (h : source ∈ taskSources checkout) :
    (∀ step ∈ source.steps, step ∈ source.made) ∧
      ∀ step ∈ source.made, step ∈ stepSources checkout := by
  simp only [taskSources, List.mem_cons, List.not_mem_nil, or_false] at h
  rcases h with rfl | rfl | rfl | rfl | rfl | rfl | rfl <;>
    simp [baseImageBuildTask, buildTask, kernelPackageTask, nokernelPackageTask, packageTask,
      testTask, promoteTask, notifyTask, stepSources]

theorem closed_of_mem_taskSources {checkout : Checkout} {source : TaskSource}
    (h : source ∈ taskSources checkout) : source.Closed := by
  obtain ⟨hmade, hsub⟩ := made_of_mem_taskSources h
  have hall : ∀ source ∈ taskSources noPatch, source.Declares := by decide
  have hdeclares : source.Declares := by
    simp only [taskSources, List.forall_mem_cons] at hall
    obtain ⟨hbase, hbuild, hkernel, hpackage, htest, hpromote, hnotify, -⟩ := hall
    simp only [taskSources, List.mem_cons, List.not_mem_nil, or_false] at h
    rcases h with rfl | rfl | rfl | rfl | rfl | rfl | rfl
    · exact hbase
    · exact hbuild
    · exact hkernel
    · exact hpackage
    · exact htest
    · exact hpromote
    · exact hnotify
  refine ⟨hmade, fun param hparam => ?_, fun step hstep => ?_, hdeclares⟩
  · rcases List.mem_append.1 hparam with hparam | hparam
    · exact hdeclares.1 param hparam
    · obtain ⟨step, hstep, hparam⟩ := List.mem_flatMap.1 hparam
      exact (known_of_mem_stepSources (hsub step hstep)).1 param hparam
  · exact wellFormed_of_mem_stepSources (hsub step (hmade step hstep))

/-! ## What a task is made of -/

section Made

variable {order : Enumeration NamedParam} {checkout : Checkout}

theorem forall₂_of_mapM_ok {ε α β : Type} {f : α → Except ε β} {xs : List α} {ys : List β}
    (h : xs.mapM f = .ok ys) : List.Forall₂ (fun x y => f x = .ok y) xs ys := by
  induction xs generalizing ys with
  | nil =>
    obtain rfl := Except.ok.inj h
    exact .nil
  | cons x xs ih =>
    rw [List.mapM_cons] at h
    obtain ⟨y, hy, h⟩ := GardenFeat.bind_ok_iff.1 h
    obtain ⟨zs, hzs, h⟩ := GardenFeat.bind_ok_iff.1 h
    obtain rfl := Except.ok.inj h
    exact .cons hy (ih hzs)

theorem mapM_ok_iff {ε α β : Type} {f : α → Except ε β} {xs : List α} :
    (∃ ys, xs.mapM f = .ok ys) ↔ ∀ x ∈ xs, ∃ y, f x = .ok y := by
  induction xs with
  | nil => simp [pure, Except.pure]
  | cons x xs ih =>
    rw [List.forall_mem_cons, ← ih, List.mapM_cons]
    simp only [GardenFeat.bind_ok_iff]
    constructor
    · rintro ⟨_, y, hy, ys, hys, -⟩
      exact ⟨⟨y, hy⟩, ys, hys⟩
    · rintro ⟨⟨y, hy⟩, ys, hys⟩
      exact ⟨y :: ys, y, hy, ys, hys, rfl⟩

theorem exists_of_forall₂ {α β : Type} {R : α → β → Prop} {xs : List α} {ys : List β}
    (h : List.Forall₂ R xs ys) {y : β} (hy : y ∈ ys) : ∃ x ∈ xs, R x y := by
  induction h with
  | nil => cases hy
  | @cons x _ xs _ hxy _ ih =>
    rcases List.mem_cons.1 hy with rfl | hy
    · exact ⟨x, List.mem_cons_self, hxy⟩
    · obtain ⟨x', hx', hR⟩ := ih hy
      exact ⟨x', List.mem_cons_of_mem _ hx', hR⟩

/-- What is looked for by a key that tells the elements apart. -/
theorem find?_key {α κ : Type} [DecidableEq κ] (key : α → κ) {l : List α}
    (hnodup : (l.map key).Nodup) {a : α} (ha : a ∈ l) : l.find? (key · = key a) = some a := by
  obtain ⟨found, hfound⟩ := Option.isSome_iff_exists.1 (List.find?_isSome.2
    ⟨a, ha, by simp⟩ : (l.find? (key · = key a)).isSome)
  have hkey := List.find?_some hfound
  rw [hfound, List.inj_on_of_nodup_map hnodup (List.mem_of_find?_eq_some hfound) ha
    (of_decide_eq_true hkey)]

/-- A task that is rendered from its source. -/
structure Renders (checkout : Checkout) (source : TaskSource) (task : Task) : Prop where
  name : task.name = source.name
  params : ∀ param, param ∈ task.params ↔ param ∈ source.allParams
  nodup : task.params.Nodup
  results : task.results = source.results
  steps : List.Forall₂ (fun step rendered => step.step checkout = .ok rendered) source.steps
    task.steps

theorem renders_of_task_ok {source : TaskSource} {task : Task}
    (h : source.task order checkout = .ok task) : Renders checkout source task := by
  obtain ⟨_, -, h⟩ := GardenFeat.bind_ok_iff.1 h
  obtain ⟨steps, hsteps, h⟩ := GardenFeat.bind_ok_iff.1 h
  obtain rfl := Except.ok.inj h
  exact ⟨rfl, fun param => by simp [unifyParams, order.mem_list], order.nodup _, rfl,
    forall₂_of_mapM_ok hsteps⟩

/-- The tasks that are rendered, one for each source. -/
theorem of_renderTask_ok {tasks : List Task} (h : renderTask order checkout = .ok tasks) :
    List.Forall₂ (Renders checkout) (taskSources checkout) tasks := by
  obtain ⟨base, hbase, h⟩ := GardenFeat.bind_ok_iff.1 h
  obtain ⟨package, hpackage, h⟩ := GardenFeat.bind_ok_iff.1 h
  obtain ⟨kernel, hkernel, h⟩ := GardenFeat.bind_ok_iff.1 h
  obtain ⟨build, hbuild, h⟩ := GardenFeat.bind_ok_iff.1 h
  obtain ⟨test, htest, h⟩ := GardenFeat.bind_ok_iff.1 h
  obtain ⟨promote, hpromote, h⟩ := GardenFeat.bind_ok_iff.1 h
  obtain ⟨notify, hnotify, h⟩ := GardenFeat.bind_ok_iff.1 h
  obtain rfl := Except.ok.inj h
  exact .cons (renders_of_task_ok hbase) (.cons (renders_of_task_ok hbuild)
    (.cons (renders_of_task_ok hkernel) (.cons (renders_of_task_ok hpackage)
      (.cons (renders_of_task_ok htest) (.cons (renders_of_task_ok hpromote)
        (.cons (renders_of_task_ok hnotify) .nil))))))

theorem step_ok_iff (checkout : Checkout) {step : StepSource} :
    (∃ rendered, step.step checkout = .ok rendered) ↔ (checkout.files step.file).isSome := by
  cases hfile : checkout.files step.file <;>
    simp [StepSource.step, taskStepScript, scriptText, hfile, bind, Except.bind, pure, Except.pure]

theorem task_ok_iff {source : TaskSource} (h : source.Closed) :
    (∃ task, source.task order checkout = .ok task) ↔
      ∀ step ∈ source.made, (checkout.files step.file).isSome := by
  simp only [← step_ok_iff checkout]
  constructor
  · rintro ⟨task, htask⟩
    obtain ⟨made, hmade, -⟩ := GardenFeat.bind_ok_iff.1 htask
    exact mapM_ok_iff.1 ⟨made, hmade⟩
  · intro hfiles
    obtain ⟨made, hmade⟩ := mapM_ok_iff.2 hfiles
    obtain ⟨steps, hsteps⟩ := mapM_ok_iff.2 fun step hstep => hfiles step (h.made step hstep)
    exact ⟨_, GardenFeat.bind_ok_iff.2 ⟨made, hmade, GardenFeat.bind_ok_iff.2 ⟨steps, hsteps, rfl⟩⟩⟩

variable (order checkout) in
/-- The tasks are rendered if the files of all scripts are there. -/
theorem renderTask_ok_iff :
    (∃ tasks, renderTask order checkout = .ok tasks) ↔
      ∀ source ∈ taskSources checkout, ∀ step ∈ source.made,
        (checkout.files step.file).isSome := by
  have htask : (∀ source ∈ taskSources checkout, ∀ step ∈ source.made,
      (checkout.files step.file).isSome) ↔
      ∀ source ∈ taskSources checkout, ∃ task, source.task order checkout = .ok task :=
    forall₂_congr fun source hsource => (task_ok_iff (closed_of_mem_taskSources hsource)).symm
  rw [htask]
  simp only [taskSources, List.forall_mem_cons, List.not_mem_nil, false_implies, implies_true,
    and_true]
  constructor
  · rintro ⟨tasks, h⟩
    obtain ⟨base, hbase, h⟩ := GardenFeat.bind_ok_iff.1 h
    obtain ⟨package, hpackage, h⟩ := GardenFeat.bind_ok_iff.1 h
    obtain ⟨kernel, hkernel, h⟩ := GardenFeat.bind_ok_iff.1 h
    obtain ⟨build, hbuild, h⟩ := GardenFeat.bind_ok_iff.1 h
    obtain ⟨test, htest, h⟩ := GardenFeat.bind_ok_iff.1 h
    obtain ⟨promote, hpromote, h⟩ := GardenFeat.bind_ok_iff.1 h
    obtain ⟨notify, hnotify, -⟩ := GardenFeat.bind_ok_iff.1 h
    exact ⟨⟨base, hbase⟩, ⟨build, hbuild⟩, ⟨kernel, hkernel⟩, ⟨package, hpackage⟩, ⟨test, htest⟩,
      ⟨promote, hpromote⟩, notify, hnotify⟩
  · rintro ⟨⟨base, hbase⟩, ⟨build, hbuild⟩, ⟨kernel, hkernel⟩, ⟨package, hpackage⟩, ⟨test, htest⟩,
      ⟨promote, hpromote⟩, notify, hnotify⟩
    simp [renderTask, hbase, hbuild, hkernel, hpackage, htest, hpromote, hnotify, bind, Except.bind,
      pure, Except.pure]

theorem Renders.known {source : TaskSource} {task : Task} (h : Renders checkout source task)
    (hclosed : source.Closed) {param : NamedParam} (hparam : param ∈ task.params) :
    param ∈ knownParams :=
  hclosed.known param ((h.params param).1 hparam)

end Made

end Tkn
