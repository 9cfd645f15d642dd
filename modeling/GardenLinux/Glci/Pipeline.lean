import GardenLinux.Lib.Text
import GardenLinux.Glci.Flavours

/-!
# The tasks of the build pipeline

`mk_pipeline` of `ci/render_pipelines.py`: every flavour has a task that builds it and one that
tests it, and `_generate_task_name` names them after the flavour.  The name leaves the
underscores out, which separate the modifiers, and is cut after 64 characters.

What is proved here:

* `generateTaskName_toList` — the name as a cut of the names of the platform and of the
  modifiers that are run together;
* `renderPipeline_taskNames_iff` — the build and test tasks have different names exactly if the
  run-together names of different flavours differ in their first 56 characters;
* `renderPipeline_taskNames_fail` — a flavour set for which they do not.
-/

namespace Glci

open GardenFeat

/-! ## Tasks -/

structure NamedParam where
  name : String
  value : String
  deriving DecidableEq, Repr

/-- A task of tekton: its name, and the names of its parameters. -/
structure TektonTask where
  name : String
  params : List String
  deriving DecidableEq, Repr

structure PipelineTask where
  name : String
  taskRef : String
  params : List NamedParam
  runAfter : Option (List String)
  timeout : String
  deriving DecidableEq, Repr

inductive PipelineFlavour
  | snapshot
  | release
  deriving DecidableEq, Repr

inductive PipelineError
  | modelError (e : ModelError)
  | notImplementedError (pipelineFlavour : PipelineFlavour)
  | stopIteration (name : String)
  deriving DecidableEq

/-- `pass_param`. -/
def passParam (name : String) : NamedParam := ⟨name, "$(params." ++ name ++ ")"⟩

/-- `_find_task`. -/
def findTask (name : String) (tasks : List TektonTask) : Except PipelineError TektonTask :=
  match tasks.find? (·.name = name) with
  | some task => .ok task
  | none => .error (.stopIteration name)

/-- An entry of the dictionary of parameters is replaced or added. -/
def setParam (params : List NamedParam) (param : NamedParam) : List NamedParam :=
  if param.name ∈ params.map (·.name) then
    params.map fun other => if other.name = param.name then param else other
  else params ++ [param]

/-- `_get_passed_parameters`. -/
def getPassedParameters (name : String) (allTasks : List TektonTask)
    (overrides : List NamedParam) : Except PipelineError (List NamedParam) := do
  let taskRef ← findTask name allTasks
  pure ((taskRef.params.map passParam ++ overrides).foldl setParam [])

/-! ## Names -/

namespace GardenlinuxFlavour

/-- `filename_prefix`. -/
def filenamePrefix (flavour : GardenlinuxFlavour) : String :=
  flavour.platform ++ "-" ++ (String.singleton '_').intercalate (sortOn id flavour.modifiers)

/-- `canonical_name_prefix`. -/
def canonicalNamePrefix (flavour : GardenlinuxFlavour) : String :=
  flavour.architecture.value ++ "/" ++ flavour.filenamePrefix

end GardenlinuxFlavour

/-- `_get_modifier_names`. -/
def getModifierNames (orders : CallOrders) (config : Config) (flavour : GardenlinuxFlavour) :
    Except PipelineError String := do
  let names ← (normalisedModifiers (orders flavour.platform flavour.modifiers) config.upper
    config.allFeatures flavour.platform flavour.modifiers).mapError .modelError
  let found ← (featuresByName config.allFeatures names).mapError .modelError
  pure ((String.singleton ',').intercalate (sortOn id (found.map (·.name))))

/-- `_generate_task_name`. -/
def generateTaskName (namePrefix : String) (flavour : GardenlinuxFlavour) : String :=
  let name := flavour.canonicalNamePrefix.toList.map fun c => if c = '/' then '-' else c
  let name := Text.strip '-' (name.filter (· ≠ '_'))
  let name := Text.replace "readonly".toList "ro".toList name
  String.ofList ((namePrefix.toList ++ name).take 64)

/-! ## The pipeline -/

/-- `mk_pipeline_base_build_task`. -/
def mkPipelineBaseBuildTask (allTasks : List TektonTask) : Except PipelineError PipelineTask := do
  let params ← getPassedParameters "build-baseimage" allTasks
    [⟨"pipeline_run_name", "$(context.pipelineRun.name)"⟩,
      ⟨"namespace", "$(context.pipelineRun.namespace)"⟩]
  pure ⟨"build-baseimage", "build-baseimage", params, none, "1h"⟩

/-- `mk_pipeline_build_task`. -/
def mkPipelineBuildTask (orders : CallOrders) (config : Config) (flavour : GardenlinuxFlavour)
    (pipelineFlavour : PipelineFlavour) (runAfter : List String) (allTasks : List TektonTask) :
    Except PipelineError PipelineTask :=
  if pipelineFlavour ≠ .snapshot then .error (.notImplementedError pipelineFlavour)
  else do
    let modifierNames ← getModifierNames orders config flavour
    let params ← getPassedParameters "build-gardenlinux-task" allTasks
      [⟨"modifiers", modifierNames⟩, ⟨"platform", flavour.platform⟩]
    pure ⟨generateTaskName "" flavour, "build-gardenlinux-task", params, some runAfter, "2h"⟩

/-- `mk_pipeline_test_task`. -/
def mkPipelineTestTask (orders : CallOrders) (config : Config) (flavour : GardenlinuxFlavour)
    (runAfter : List String) (allTasks : List TektonTask) : Except PipelineError PipelineTask := do
  let modifierNames ← getModifierNames orders config flavour
  let params ← getPassedParameters "integration-test-task" allTasks
    [⟨"modifiers", modifierNames⟩, ⟨"platform", flavour.platform⟩]
  pure ⟨generateTaskName "tst" flavour, "integration-test-task", params, some runAfter, "1h"⟩

/-- `mk_pipeline_promote_task`. -/
def mkPipelinePromoteTask (runAfter : List String) (allTasks : List TektonTask) :
    Except PipelineError PipelineTask := do
  let params ← getPassedParameters "promote-gardenlinux-task" allTasks []
  pure ⟨"promote-gardenlinux-task", "promote-gardenlinux-task", params, some runAfter, "1h"⟩

/-- The loop over the flavours: their build and their test tasks. -/
def mkFlavourTasks (orders : CallOrders) (config : Config) (pipelineFlavour : PipelineFlavour)
    (baseName : String) (allTasks : List TektonTask) :
    List GardenlinuxFlavour → Except PipelineError (List PipelineTask × List PipelineTask)
  | [] => pure ([], [])
  | flavour :: flavours => do
    let buildTask ← mkPipelineBuildTask orders config flavour pipelineFlavour [baseName] allTasks
    let testTask ← mkPipelineTestTask orders config flavour [buildTask.name] allTasks
    let (buildTasks, testTasks) ←
      mkFlavourTasks orders config pipelineFlavour baseName allTasks flavours
    pure (buildTask :: buildTasks, testTask :: testTasks)

/-- The tasks of `mk_pipeline`; `order` is that in which Python lists the set of flavours. -/
def mkPipeline (orders : CallOrders) (order : Enumeration GardenlinuxFlavour) (config : Config)
    (gardenlinuxFlavours : List GardenlinuxFlavour) (allTasks : List TektonTask)
    (pipelineFlavour : PipelineFlavour) : Except PipelineError (List PipelineTask) := do
  let baseBuildTask ← mkPipelineBaseBuildTask allTasks
  let (buildTasks, testTasks) ← mkFlavourTasks orders config pipelineFlavour baseBuildTask.name
    allTasks (order.list gardenlinuxFlavours.toFinset)
  let promoteTask ← mkPipelinePromoteTask (buildTasks.map (·.name)) allTasks
  pure (baseBuildTask :: buildTasks ++ testTasks ++ [promoteTask])

/-- `render_pipelines`: the tasks of the pipeline for a flavour set. -/
def renderPipeline (orders : CallOrders) (order : Enumeration GardenlinuxFlavour) (config : Config)
    (flavourSet : GardenlinuxFlavourSet) (allTasks : List TektonTask) :
    Except PipelineError (List PipelineTask) := do
  let flavours ← (flavourSet.flavours orders config).mapError .modelError
  mkPipeline orders order config flavours allTasks .snapshot

/-! ## What is left of a flavour in its name -/

/-- A feature in the name of a task. -/
def letters (name : String) : List Char :=
  (name.toList.filter (· ≠ '_')).map fun c => if c = '/' then '-' else c

/-- The names of the platform and of the modifiers run together, without dashes at the end and
with the shortening for read-only images. -/
def GardenlinuxFlavour.runTogether (flavour : GardenlinuxFlavour) : List Char :=
  Text.replace "readonly".toList "ro".toList <| Text.rstrip '-' <|
    '-' :: letters flavour.platform ++ '-' :: (sortOn id flavour.modifiers).flatMap letters

theorem filter_map_slash (s : List Char) :
    (s.map fun c => if c = '/' then '-' else c).filter (· ≠ '_') =
      (s.filter (· ≠ '_')).map fun c => if c = '/' then '-' else c := by
  rw [List.filter_map]
  congr 1
  refine List.filter_congr fun c _ => ?_
  by_cases hc : c = '/'
  · subst hc
    rfl
  · simp [hc]

/-- Without the underscores nothing separates the modifiers. -/
theorem letters_filenamePrefix (flavour : GardenlinuxFlavour) :
    letters flavour.filenamePrefix =
      letters flavour.platform ++ '-' :: (sortOn id flavour.modifiers).flatMap letters := by
  unfold letters GardenlinuxFlavour.filenamePrefix
  rw [String.toList_append, String.toList_append, String.toList_intercalate,
    String.toList_singleton, List.filter_append, List.filter_append, Text.filter_intercalate,
    List.map_append, List.map_append, List.append_assoc]
  congr 1
  rw [List.flatMap_map, List.map_flatMap]
  rfl

/-- The name of a task is the beginning of the run-together names. -/
theorem generateTaskName_toList (namePrefix : String) (flavour : GardenlinuxFlavour) :
    (generateTaskName namePrefix flavour).toList =
      (namePrefix.toList ++ ("amd64".toList ++ flavour.runTogether)).take 64 := by
  have hname : ((flavour.canonicalNamePrefix.toList.map fun c => if c = '/' then '-' else c).filter
      (· ≠ '_')) = "amd64".toList ++ '-' :: letters flavour.filenamePrefix := by
    rw [filter_map_slash]
    unfold GardenlinuxFlavour.canonicalNamePrefix letters
    rw [String.toList_append, String.toList_append, List.filter_append, List.filter_append,
      List.map_append, List.map_append, List.append_assoc]
    congr 1
    cases flavour.architecture
    rfl
  unfold generateTaskName
  dsimp only
  rw [String.toList_ofList, hname, letters_filenamePrefix]
  congr 2
  rw [show "amd64".toList ++ '-' :: (letters flavour.platform ++ '-' ::
      (sortOn id flavour.modifiers).flatMap letters) =
    'a' :: ("md6".toList ++ '4' :: ('-' :: letters flavour.platform ++ '-' ::
      (sortOn id flavour.modifiers).flatMap letters)) from rfl,
    Text.strip_cons (by decide), Text.rstrip_append_of_ne (by decide)]
  exact Text.replace_append (c := 'r') (s := "amd64".toList) (by decide) _ _ _

section Names

variable {f g : GardenlinuxFlavour}

theorem generateTaskName_build_eq_iff :
    generateTaskName "" f = generateTaskName "" g ↔
      f.runTogether.take 59 = g.runTogether.take 59 := by
  rw [← String.toList_inj, generateTaskName_toList, generateTaskName_toList,
    show "".toList = [] from rfl, List.nil_append, List.nil_append, List.take_append,
    List.take_append]
  exact List.append_right_inj _

theorem generateTaskName_test_eq_iff :
    generateTaskName "tst" f = generateTaskName "tst" g ↔
      f.runTogether.take 56 = g.runTogether.take 56 := by
  rw [← String.toList_inj, generateTaskName_toList, generateTaskName_toList, ← List.append_assoc,
    ← List.append_assoc, List.take_append, List.take_append]
  exact List.append_right_inj _

/-- The name of a build task begins with the architecture, that of a test task does not. -/
theorem generateTaskName_build_ne_test : generateTaskName "" f ≠ generateTaskName "tst" g := by
  intro heq
  have hlist := congrArg (fun s => s.toList.head?) heq
  simp only [generateTaskName_toList] at hlist
  exact absurd hlist (by simp)

end Names

/-! ## The names of the tasks -/

section Tasks

variable {orders : CallOrders} {order : Enumeration GardenlinuxFlavour} {config : Config}
  {allTasks : List TektonTask} {pipelineFlavour : PipelineFlavour}

/-- A task for each flavour, named after it. -/
def TasksFor (namePrefix taskRef : String) (flavours : List GardenlinuxFlavour)
    (tasks : List PipelineTask) : Prop :=
  tasks.map (·.name) = flavours.map (generateTaskName namePrefix) ∧
    ∀ task ∈ tasks, task.taskRef = taskRef

theorem TasksFor.cons {namePrefix taskRef : String} {flavour : GardenlinuxFlavour}
    {flavours : List GardenlinuxFlavour} {task : PipelineTask} {tasks : List PipelineTask}
    (hname : task.name = generateTaskName namePrefix flavour) (href : task.taskRef = taskRef)
    (h : TasksFor namePrefix taskRef flavours tasks) :
    TasksFor namePrefix taskRef (flavour :: flavours) (task :: tasks) := by
  refine ⟨by rw [List.map_cons, List.map_cons, hname, h.1], fun other hother => ?_⟩
  rcases List.mem_cons.1 hother with rfl | hother
  · exact href
  · exact h.2 other hother

theorem of_mkPipelineBuildTask_ok {flavour : GardenlinuxFlavour} {runAfter : List String}
    {task : PipelineTask}
    (h : mkPipelineBuildTask orders config flavour pipelineFlavour runAfter allTasks = .ok task) :
    task.name = generateTaskName "" flavour ∧ task.taskRef = "build-gardenlinux-task" := by
  unfold mkPipelineBuildTask at h
  split at h
  · exact nomatch h
  · obtain ⟨_, -, h⟩ := bind_ok_iff.1 h
    obtain ⟨_, -, h⟩ := bind_ok_iff.1 h
    obtain rfl := Except.ok.inj h
    exact ⟨rfl, rfl⟩

theorem of_mkPipelineTestTask_ok {flavour : GardenlinuxFlavour} {runAfter : List String}
    {task : PipelineTask}
    (h : mkPipelineTestTask orders config flavour runAfter allTasks = .ok task) :
    task.name = generateTaskName "tst" flavour ∧ task.taskRef = "integration-test-task" := by
  obtain ⟨_, -, h⟩ := bind_ok_iff.1 h
  obtain ⟨_, -, h⟩ := bind_ok_iff.1 h
  obtain rfl := Except.ok.inj h
  exact ⟨rfl, rfl⟩

/-- The loop makes both tasks for each flavour. -/
theorem of_mkFlavourTasks_ok {baseName : String} {flavours : List GardenlinuxFlavour}
    {buildTasks testTasks : List PipelineTask}
    (h : mkFlavourTasks orders config pipelineFlavour baseName allTasks flavours =
      .ok (buildTasks, testTasks)) :
    TasksFor "" "build-gardenlinux-task" flavours buildTasks ∧
      TasksFor "tst" "integration-test-task" flavours testTasks := by
  induction flavours generalizing buildTasks testTasks with
  | nil =>
    obtain ⟨rfl, rfl⟩ := Prod.mk.inj (Except.ok.inj h)
    exact ⟨⟨rfl, fun _ hmem => absurd hmem List.not_mem_nil⟩,
      ⟨rfl, fun _ hmem => absurd hmem List.not_mem_nil⟩⟩
  | cons flavour flavours ih =>
    obtain ⟨buildTask, hbuild, h⟩ := bind_ok_iff.1 h
    obtain ⟨testTask, htest, h⟩ := bind_ok_iff.1 h
    obtain ⟨⟨builds, tests⟩, hrest, h⟩ := bind_ok_iff.1 h
    obtain ⟨rfl, rfl⟩ := Prod.mk.inj (Except.ok.inj h)
    obtain ⟨hbuilds, htests⟩ := ih hrest
    have hb := of_mkPipelineBuildTask_ok hbuild
    have ht := of_mkPipelineTestTask_ok htest
    exact ⟨hbuilds.cons hb.1 hb.2, htests.cons ht.1 ht.2⟩

/-- The tasks of a pipeline that build or test a flavour. -/
def flavourTasks (tasks : List PipelineTask) : List PipelineTask :=
  tasks.filter fun task => task.taskRef ∈ ["build-gardenlinux-task", "integration-test-task"]

theorem flavourTasks_of_forall {taskRef : String} {tasks : List PipelineTask}
    (href : taskRef ∈ ["build-gardenlinux-task", "integration-test-task"])
    (h : ∀ task ∈ tasks, task.taskRef = taskRef) : flavourTasks tasks = tasks :=
  List.filter_eq_self.2 fun task htask => by
    rw [h task htask]
    exact decide_eq_true href

/-- The flavour tasks are named after the flavours, once for the build and once for the test. -/
theorem names_of_mkPipeline_ok {flavours : List GardenlinuxFlavour} {tasks : List PipelineTask}
    (h : mkPipeline orders order config flavours allTasks pipelineFlavour = .ok tasks) :
    (flavourTasks tasks).map (·.name) =
      (order.list flavours.toFinset).map (generateTaskName "") ++
        (order.list flavours.toFinset).map (generateTaskName "tst") := by
  obtain ⟨baseTask, hbase, h⟩ := bind_ok_iff.1 h
  obtain ⟨⟨buildTasks, testTasks⟩, htasks, h⟩ := bind_ok_iff.1 h
  obtain ⟨promoteTask, hpromote, h⟩ := bind_ok_iff.1 h
  obtain rfl := Except.ok.inj h
  obtain ⟨_, -, hbase⟩ := bind_ok_iff.1 hbase
  obtain ⟨_, -, hpromote⟩ := bind_ok_iff.1 hpromote
  obtain rfl := Except.ok.inj hbase
  obtain rfl := Except.ok.inj hpromote
  obtain ⟨hbuild, htest⟩ := of_mkFlavourTasks_ok htasks
  have hbuilds := flavourTasks_of_forall (by decide) hbuild.2
  have htests := flavourTasks_of_forall (by decide) htest.2
  unfold flavourTasks at hbuilds htests ⊢
  rw [List.filter_append, List.cons_append, List.filter_cons_of_neg (by simp), List.filter_append,
    hbuilds, htests, List.filter_cons_of_neg (by simp), List.filter_nil, List.append_nil,
    List.map_append, hbuild.1, htest.1]

/-- Exactly if the run-together names of different flavours differ early enough, all build and
test tasks have different names. -/
theorem renderPipeline_taskNames_iff {flavourSet : GardenlinuxFlavourSet}
    {flavours : List GardenlinuxFlavour} {tasks : List PipelineTask}
    (hflavours : flavourSet.flavours orders config = .ok flavours)
    (htasks : renderPipeline orders order config flavourSet allTasks = .ok tasks) :
    ((flavourTasks tasks).map (·.name)).Nodup ↔
      ∀ f ∈ flavours, ∀ g ∈ flavours,
        f.runTogether.take 56 = g.runTogether.take 56 → f = g := by
  unfold renderPipeline at htasks
  rw [hflavours] at htasks
  rw [names_of_mkPipeline_ok htasks, List.nodup_append,
    List.nodup_map_iff_inj_on (order.nodup _), List.nodup_map_iff_inj_on (order.nodup _)]
  simp only [order.mem_list, List.mem_toFinset, generateTaskName_build_eq_iff,
    generateTaskName_test_eq_iff]
  constructor
  · rintro ⟨-, htests, -⟩
    exact htests
  · intro h
    refine ⟨fun f hf g hg heq => h f hf g hg ?_, h, fun name hname name' hname' => ?_⟩
    · have hcut := congrArg (List.take 56) heq
      rwa [List.take_take, List.take_take] at hcut
    · obtain ⟨f, -, rfl⟩ := List.mem_map.1 hname
      obtain ⟨g, -, rfl⟩ := List.mem_map.1 hname'
      exact generateTaskName_build_ne_test

end Tasks

/-! ## Two flavours of one name -/

def tektonTasks : List TektonTask :=
  [⟨"build-baseimage", ["namespace"]⟩, ⟨"build-gardenlinux-task", ["modifiers", "platform"]⟩,
    ⟨"integration-test-task", ["modifiers", "platform"]⟩, ⟨"promote-gardenlinux-task", []⟩]

def renderGcpPipeline (modifiers : List (List String)) :
    Except PipelineError (List PipelineTask) :=
  renderPipeline (fun _ _ => .sorted) GardenlinuxFlavour.sorted repositoryConfig
    (gcpFlavours modifiers) tektonTasks

def gcpTaskNames (modifiers : List (List String)) : Except PipelineError (List String) :=
  (renderGcpPipeline modifiers).map fun tasks => (flavourTasks tasks).map (·.name)

/-- Two of the three lists of modifiers are of one flavour. -/
theorem renderPipeline_taskNames_nopkg :
    ∃ tasks, renderGcpPipeline [["_prod"], ["_nopkg"], ["_nopkg", "_prod"]] = .ok tasks ∧
      ((flavourTasks tasks).map (·.name)).Nodup := by
  have hflavours : (gcpFlavours [["_prod"], ["_nopkg"], ["_nopkg", "_prod"]]).flavours
      (fun _ _ => .sorted) repositoryConfig =
    .ok [⟨.amd64, "gcp", ["base", "cloud", "server", "_nopkg", "_prod", "_readonly", "_slim"]⟩,
      ⟨.amd64, "gcp", ["base", "cloud", "server", "_nopkg", "_slim"]⟩,
      ⟨.amd64, "gcp", ["base", "cloud", "server", "_nopkg", "_prod", "_readonly", "_slim"]⟩] := by
    decide +kernel
  obtain ⟨tasks, htasks, -⟩ := map_ok_iff.1 (show gcpTaskNames
      [["_prod"], ["_nopkg"], ["_nopkg", "_prod"]] =
    .ok ["amd64-gcp-nopkgprodroslimbasecloudserver", "amd64-gcp-nopkgslimbasecloudserver",
      "tstamd64-gcp-nopkgprodroslimbasecloudserver", "tstamd64-gcp-nopkgslimbasecloudserver"] by
    decide +kernel)
  exact ⟨tasks, htasks, (renderPipeline_taskNames_iff hflavours htasks).2 (by decide +kernel)⟩

/-- With and without `vhost`, which comes last in the name. -/
theorem renderPipeline_taskNames_fail :
    ¬ ∀ (orders : CallOrders) (order : Enumeration GardenlinuxFlavour) (config : Config)
        (flavourSet : GardenlinuxFlavourSet) (allTasks : List TektonTask)
        (tasks : List PipelineTask),
      renderPipeline orders order config flavourSet allTasks = .ok tasks →
      ((flavourTasks tasks).map (·.name)).Nodup := by
  intro h
  obtain ⟨tasks, htasks, hnames⟩ := map_ok_iff.1 (show gcpTaskNames
      [["_prod", "_pxe", "example", "khost"], ["_prod", "_pxe", "example", "khost", "vhost"]] =
    .ok ["amd64-gcp-ignitenopkgprodpxeroslimbasechostcloudexamplekhostserv",
      "amd64-gcp-ignitenopkgprodpxeroslimbasechostcloudexamplekhostserv",
      "tstamd64-gcp-ignitenopkgprodpxeroslimbasechostcloudexamplekhosts",
      "tstamd64-gcp-ignitenopkgprodpxeroslimbasechostcloudexamplekhosts"] by
    decide +kernel)
  have hnodup := h _ _ _ _ _ tasks htasks
  rw [hnames] at hnodup
  exact absurd hnodup (by decide)

end Glci
