import GardenLinux.Tkn.Jobs

/-!
# A run of the pipeline of the flavours

`mk_pipeline` of `ci/render_pipelines.py`, from the tasks that it makes for the flavours to the
calls of their steps.

What is proved here:

* `of_mkFlavourTasks_ok_forall₂` — the build and the test task of each flavour;
* `main_runs_jobs` — a run of the pipeline calls every step of every task with the values of its
  job: the modifiers and the platform of its flavour, and otherwise the values of the run;
* `mkPipeline_ok_iff` — there is a pipeline for a set of flavours if it is not empty and the
  modifiers of each are known.
-/

namespace Tkn

open Template AllParams
open GardenFeat (bind_ok_iff)
open Glci (GardenlinuxFlavour PipelineFlavour PipelineTask TektonTask getPassedParameters
  generateTaskName getModifierNames mkFlavourTasks mkPipelineBaseBuildTask mkPipelinePromoteTask
  CallOrders)

/-! ## What a pipeline declares for its tasks -/

section Declared

variable {paramOrder : Enumeration NamedParam} {checkout : Checkout} {allTasks : List Task}
  {tasks : List PipelineTask} {removed params : List NamedParam}

/-- Whether a task of the list declares a parameter does not depend on the patch. -/
theorem allParams_noPatch {source : TaskSource} (h : source ∈ taskSources checkout) :
    ∃ source' ∈ taskSources noPatch, source'.name = source.name ∧
      source'.allParams = source.allParams := by
  simp only [taskSources, List.mem_cons, List.not_mem_nil, or_false] at h
  rcases h with rfl | rfl | rfl | rfl | rfl | rfl | rfl
  · exact ⟨baseImageBuildTask noPatch, by simp [taskSources], rfl, rfl⟩
  · exact ⟨buildTask noPatch, by simp [taskSources], rfl, rfl⟩
  · exact ⟨kernelPackageTask noPatch, by simp [taskSources], rfl, rfl⟩
  · exact ⟨nokernelPackageTask noPatch, by simp [taskSources], rfl, rfl⟩
  · exact ⟨testTask noPatch, by simp [taskSources], rfl, rfl⟩
  · exact ⟨promoteTask noPatch, by simp [taskSources], rfl, rfl⟩
  · exact ⟨notifyTask noPatch, by simp [taskSources], rfl, rfl⟩

theorem findTask_renders (hrender : renderTask paramOrder checkout = .ok allTasks)
    {source : TaskSource} (hsource : source ∈ taskSources checkout) :
    ∃ task, findTask source.name allTasks = .ok task ∧ Renders checkout source task := by
  obtain ⟨task, hfind, hrenders⟩ := find_renders (of_renderTask_ok hrender)
    (nodup_taskSources checkout) hsource
  exact ⟨task, findTask_ok_iff.2 hfind, hrenders⟩

theorem renders_of_findTask_ok (hrender : renderTask paramOrder checkout = .ok allTasks)
    {name : String} {task : Task} (h : findTask name allTasks = .ok task) :
    ∃ source ∈ taskSources checkout, source.name = name ∧ Renders checkout source task := by
  have hfind := findTask_ok_iff.1 h
  have hname := List.find?_some hfind
  obtain ⟨source, hsource, hrenders⟩ :=
    exists_of_forall₂ (of_renderTask_ok hrender) (List.mem_of_find?_eq_some hfind)
  exact ⟨source, hsource, hrenders.name ▸ of_decide_eq_true hname, hrenders⟩

theorem findTask_params_iff (hrender : renderTask paramOrder checkout = .ok allTasks)
    {name : String} {param : NamedParam} :
    (∃ task, findTask name allTasks = .ok task ∧ param ∈ task.params) ↔
      ∃ source ∈ taskSources checkout, source.name = name ∧ param ∈ source.allParams := by
  constructor
  · rintro ⟨task, htask, hparam⟩
    obtain ⟨source, hsource, hname, hrenders⟩ := renders_of_findTask_ok hrender htask
    exact ⟨source, hsource, hname, (hrenders.params param).1 hparam⟩
  · rintro ⟨source, hsource, rfl, hparam⟩
    obtain ⟨task, htask, hrenders⟩ := findTask_renders hrender hsource
    exact ⟨task, htask, (hrenders.params param).2 hparam⟩

/-- A task that a pipeline refers to, or the one at its end. -/
def TaskSource.Used (source : TaskSource) (tasks : List PipelineTask) : Prop :=
  source.name = "notify-task" ∨ ∃ pipelineTask ∈ tasks, pipelineTask.taskRef = source.name

/-- What is declared comes from a task that is used. -/
theorem declared_iff (hrender : renderTask paramOrder checkout = .ok allTasks)
    (hnodup : removed.Nodup) (h : declareParams paramOrder allTasks tasks removed = .ok params)
    {param : NamedParam} :
    param ∈ params ↔ param ∉ removed ∧
      ∃ source ∈ taskSources checkout, source.Used tasks ∧ param ∈ source.allParams := by
  rw [(of_declareParams_ok hnodup h).2 param]
  simp only [findTask_params_iff hrender]
  refine and_congr_right fun _ => ⟨?_, ?_⟩
  · rintro (⟨source, hsource, hname, hparam⟩ | ⟨task, htask, source, hsource, hname, hparam⟩)
    · exact ⟨source, hsource, .inl hname, hparam⟩
    · exact ⟨source, hsource, .inr ⟨task, htask, hname.symm⟩, hparam⟩
  · rintro ⟨source, hsource, hname | ⟨task, htask, hname⟩, hparam⟩
    · exact .inl ⟨source, hsource, hname, hparam⟩
    · exact .inr ⟨task, htask, source, hsource, hname.symm, hparam⟩

/-- All that is removed has to be there. -/
theorem declareParams_ok_iff (hrender : renderTask paramOrder checkout = .ok allTasks)
    (hnodup : removed.Nodup)
    (hrefs : ∀ task ∈ tasks, task.taskRef ∈ (taskSources noPatch).map (·.name)) :
    (∃ params, declareParams paramOrder allTasks tasks removed = .ok params) ↔
      ∀ param ∈ removed, ∃ source ∈ taskSources checkout, source.Used tasks ∧
        param ∈ source.allParams := by
  have hfound {name : String} (hname : name ∈ (taskSources noPatch).map (·.name)) :
      ∃ task, findTask name allTasks = .ok task := by
    obtain ⟨source, hsource, rfl⟩ : ∃ source ∈ taskSources checkout, source.name = name :=
      List.mem_map.1 hname
    obtain ⟨task, htask, -⟩ := findTask_renders hrender hsource
    exact ⟨task, htask⟩
  obtain ⟨notify, hnotify⟩ : ∃ task, findTask "notify-task" allTasks = .ok task :=
    hfound (by decide)
  obtain ⟨all, hall⟩ := taskParams_ok_iff.2 fun task htask => hfound (hrefs task htask)
  have hmem {param : NamedParam} : param ∈ (notify.params ++ all).toFinset ↔
      ∃ source ∈ taskSources checkout, source.Used tasks ∧ param ∈ source.allParams := by
    rw [List.mem_toFinset, List.mem_append, mem_taskParams hall]
    have hnotifyParam : param ∈ notify.params ↔
        ∃ task, findTask "notify-task" allTasks = .ok task ∧ param ∈ task.params := by
      simp [hnotify]
    rw [hnotifyParam, findTask_params_iff hrender]
    simp only [findTask_params_iff hrender]
    constructor
    · rintro (⟨source, hsource, hname, hparam⟩ | ⟨task, htask, source, hsource, hname, hparam⟩)
      · exact ⟨source, hsource, .inl hname, hparam⟩
      · exact ⟨source, hsource, .inr ⟨task, htask, hname.symm⟩, hparam⟩
    · rintro ⟨source, hsource, hname | ⟨task, htask, hname⟩, hparam⟩
      · exact .inl ⟨source, hsource, hname, hparam⟩
      · exact .inr ⟨task, htask, source, hsource, hname.symm, hparam⟩
  have hdeclare : declareParams paramOrder allTasks tasks removed =
      (removeParams removed (notify.params ++ all).toFinset) >>= fun params =>
        pure (paramOrder.list params) := by
    rw [declareParams, hnotify, hall]
    rfl
  simp only [hdeclare, bind_ok_iff, removeParams_ok_iff hnodup, ← hmem]
  exact ⟨fun ⟨_, _, hremoved, _⟩ => hremoved.1, fun hremoved => ⟨_, _, ⟨hremoved, rfl⟩, rfl⟩⟩

theorem known_of_declared (hrender : renderTask paramOrder checkout = .ok allTasks)
    (hnodup : removed.Nodup) (h : declareParams paramOrder allTasks tasks removed = .ok params)
    {param : NamedParam} (hparam : param ∈ params) : param ∈ knownParams := by
  obtain ⟨-, source, hsource, -, hmem⟩ := (declared_iff hrender hnodup h).1 hparam
  exact (closed_of_mem_taskSources hsource).known param hmem

/-- What is declared comes from a task that the pipeline refers to. -/
theorem source_of_declared (hrender : renderTask paramOrder checkout = .ok allTasks)
    (hnodup : removed.Nodup) (h : declareParams paramOrder allTasks tasks removed = .ok params)
    {refs : List String} (hrefs : ∀ pipelineTask ∈ tasks, pipelineTask.taskRef ∈ refs)
    {param : NamedParam} (hparam : param ∈ params) :
    param ∉ removed ∧ ∃ source ∈ taskSources noPatch,
      source.name ∈ "notify-task" :: refs ∧ param ∈ source.allParams := by
  obtain ⟨hleft, source, hsource, hused, hmem⟩ := (declared_iff hrender hnodup h).1 hparam
  obtain ⟨source', hsource', hname, hall⟩ := allParams_noPatch hsource
  refine ⟨hleft, source', hsource', ?_, hall ▸ hmem⟩
  rcases hused with hnotify | ⟨task, htask, href⟩
  · simp [hname, hnotify]
  · simp [hname, ← href, hrefs task htask]

end Declared

/-! ## The tasks of the flavours -/

/-- A task for a flavour. -/
structure FlavourTask (orders : CallOrders) (config : Glci.Config) (tektonTasks : List TektonTask)
    (namePrefix taskRef : String) (runAfter : GardenlinuxFlavour → List String)
    (flavour : GardenlinuxFlavour) (task : PipelineTask) : Prop where
  name : task.name = generateTaskName namePrefix flavour
  ref : task.taskRef = taskRef
  runAfter : task.runAfter = some (runAfter flavour)
  params : ∃ names, getModifierNames orders config flavour = .ok names ∧
    getPassedParameters taskRef tektonTasks
      [⟨"modifiers", names⟩, ⟨"platform", flavour.platform⟩] = .ok task.params

section Flavours

variable {orders : CallOrders} {config : Glci.Config} {tektonTasks : List TektonTask}

theorem of_mkFlavourTasks_ok_forall₂ {pipelineFlavour : PipelineFlavour} {baseName : String}
    {flavours : List GardenlinuxFlavour} {buildTasks testTasks : List PipelineTask}
    (h : mkFlavourTasks orders config pipelineFlavour baseName tektonTasks flavours =
      .ok (buildTasks, testTasks)) :
    List.Forall₂ (FlavourTask orders config tektonTasks "" "build-gardenlinux-task"
      fun _ => [baseName]) flavours buildTasks ∧
    List.Forall₂ (FlavourTask orders config tektonTasks "tst" "integration-test-task"
      fun flavour => [generateTaskName "" flavour]) flavours testTasks := by
  induction flavours generalizing buildTasks testTasks with
  | nil =>
    obtain ⟨rfl, rfl⟩ := Prod.mk.inj (Except.ok.inj h)
    exact ⟨.nil, .nil⟩
  | cons flavour flavours ih =>
    obtain ⟨buildTask, hbuild, h⟩ := bind_ok_iff.1 h
    obtain ⟨testTask, htest, h⟩ := bind_ok_iff.1 h
    obtain ⟨⟨builds, tests⟩, hrest, h⟩ := bind_ok_iff.1 h
    obtain ⟨rfl, rfl⟩ := Prod.mk.inj (Except.ok.inj h)
    obtain ⟨hbuilds, htests⟩ := ih hrest
    have hname := (Glci.of_mkPipelineBuildTask_ok hbuild).1
    refine ⟨.cons ?_ hbuilds, .cons ?_ htests⟩
    · unfold Glci.mkPipelineBuildTask at hbuild
      split at hbuild
      · cases hbuild
      · obtain ⟨names, hnames, hbuild⟩ := bind_ok_iff.1 hbuild
        obtain ⟨params, hparams, hbuild⟩ := bind_ok_iff.1 hbuild
        obtain rfl := Except.ok.inj hbuild
        exact ⟨rfl, rfl, rfl, names, hnames, hparams⟩
    · obtain ⟨names, hnames, htest⟩ := bind_ok_iff.1 htest
      obtain ⟨params, hparams, htest⟩ := bind_ok_iff.1 htest
      obtain rfl := Except.ok.inj htest
      exact ⟨rfl, rfl, by rw [hname], names, hnames, hparams⟩

theorem names_of_flavourTasks {namePrefix taskRef : String}
    {runAfter : GardenlinuxFlavour → List String} {flavours : List GardenlinuxFlavour}
    {tasks : List PipelineTask}
    (h : List.Forall₂ (FlavourTask orders config tektonTasks namePrefix taskRef runAfter) flavours
      tasks) : tasks.map (·.name) = flavours.map (generateTaskName namePrefix) := by
  induction h with
  | nil => rfl
  | cons hmade _ ih => rw [List.map_cons, List.map_cons, hmade.name, ih]

end Flavours

/-! ## The jobs -/

/-- `','.join` of the names of the modifiers of a flavour. -/
def modifierNames (orders : CallOrders) (config : Glci.Config) (flavour : GardenlinuxFlavour) :
    String :=
  match getModifierNames orders config flavour with
  | .ok names => names
  | .error _ => ""

def baseJob (checkout : Checkout) (run : PipelineRun) : Job where
  task := baseImageBuildTask checkout
  own := [("pipeline_run_name", run.name.toList), ("namespace", run.runNamespace.toList)]

def flavourJob (task : TaskSource) (orders : CallOrders) (config : Glci.Config)
    (flavour : GardenlinuxFlavour) : Job where
  task := task
  own := [("modifiers", (modifierNames orders config flavour).toList),
    ("platform", flavour.platform.toList)]

/-- The base image is built, then each flavour is built and tested, and all are promoted. -/
def mainJobs (checkout : Checkout) (run : PipelineRun) (orders : CallOrders)
    (config : Glci.Config) (flavours : List GardenlinuxFlavour) : List Job :=
  baseJob checkout run :: flavours.map (flavourJob (buildTask checkout) orders config) ++
    flavours.map (flavourJob (testTask checkout) orders config) ++ [⟨promoteTask checkout, []⟩]

theorem mem_mainJobs {checkout : Checkout} {run : PipelineRun} {orders : CallOrders}
    {config : Glci.Config} {flavours : List GardenlinuxFlavour} {job : Job} :
    job ∈ mainJobs checkout run orders config flavours ↔
      job = baseJob checkout run ∨
        (∃ flavour ∈ flavours, job = flavourJob (buildTask checkout) orders config flavour) ∨
        (∃ flavour ∈ flavours, job = flavourJob (testTask checkout) orders config flavour) ∨
        job = ⟨promoteTask checkout, []⟩ := by
  simp [mainJobs, eq_comm]

/-- The task at the end is told what has been built and how the tasks ended. -/
def notifyJob (checkout : Checkout) (run : PipelineRun) (pipeline : Pipeline)
    (status : String → List Char) (buildNames platforms : List String) : Job where
  task := notifyTask checkout
  own := [("platform_set", ((String.singleton ',').intercalate platforms).toList),
    ("pipeline_run_name", run.name.toList), ("pipeline_name", pipeline.name.toList),
    ("namespace", run.runNamespace.toList), ("status_dict_str", statusJson status pipeline.tasks),
    ("build_tasks", ((String.singleton ',').intercalate buildNames).toList)]

/-- A flavour with plain names. -/
structure PlainFlavour (orders : CallOrders) (config : Glci.Config) (flavour : GardenlinuxFlavour) :
    Prop where
  platform : TaskName flavour.platform
  modifiers : ∀ modifier ∈ flavour.modifiers, TaskName modifier
  names : Plain (modifierNames orders config flavour).toList

section Makes

variable {tkn : Controller} {checkout : Checkout} {run : PipelineRun} {pipeline : Pipeline}
  {orders : CallOrders} {config : Glci.Config} {tektonTasks : List TektonTask}
  {rs : List (List Char × List Char)}

theorem put_context (hrs : Values rs) (hsub : ∀ r ∈ run.values pipeline, r ∈ rs) (key : List Char)
    {v : List Char} (hmem : (key, v) ∈ run.context pipeline) (hkey : '$' ∉ key ∧ ')' ∉ key) :
    tkn.put rs (reference key) = v :=
  put_reference hrs hkey (lookup_context hrs hsub hmem)

variable (tkn) in
theorem put_runName (hrs : Values rs) (hsub : ∀ r ∈ run.values pipeline, r ∈ rs) :
    tkn.put rs "$(context.pipelineRun.name)".toList = run.name.toList :=
  put_context hrs hsub "context.pipelineRun.name".toList List.mem_cons_self (by decide)

variable (tkn) in
theorem put_runNamespace (hrs : Values rs) (hsub : ∀ r ∈ run.values pipeline, r ∈ rs) :
    tkn.put rs "$(context.pipelineRun.namespace)".toList = run.runNamespace.toList :=
  put_context hrs hsub "context.pipelineRun.namespace".toList
    (List.mem_cons_of_mem _ List.mem_cons_self) (by decide)

variable (tkn) in
theorem put_pipelineName (hrs : Values rs) (hsub : ∀ r ∈ run.values pipeline, r ∈ rs) :
    tkn.put rs "$(context.pipeline.name)".toList = pipeline.name.toList :=
  put_context hrs hsub "context.pipeline.name".toList
    (List.mem_cons_of_mem _ (List.mem_cons_of_mem _ List.mem_cons_self)) (by decide)

theorem makes_base {task : PipelineTask} (hrs : Values rs) (hsub : ∀ r ∈ run.values pipeline, r ∈ rs)
    (h : mkPipelineBaseBuildTask tektonTasks = .ok task) :
    Makes tkn tektonTasks rs (baseJob checkout run) task := by
  obtain ⟨params, hparams, h⟩ := bind_ok_iff.1 h
  obtain rfl := Except.ok.inj h
  refine ⟨rfl, _, hparams, by decide, ?_⟩
  simp only [baseJob, List.map_cons, List.map_nil, put_runName tkn hrs hsub,
    put_runNamespace tkn hrs hsub]

theorem makes_flavour {source : TaskSource} {namePrefix : String}
    {runAfter : GardenlinuxFlavour → List String} {flavour : GardenlinuxFlavour}
    {task : PipelineTask} (hrs : Values rs) (hplain : PlainFlavour orders config flavour)
    (h : FlavourTask orders config tektonTasks namePrefix source.name runAfter flavour task) :
    Makes tkn tektonTasks rs (flavourJob source orders config flavour) task := by
  obtain ⟨names, hnames, hparams⟩ := h.params
  have hmodifiers : modifierNames orders config flavour = names := by
    rw [modifierNames, hnames]
  have hdollar : '$' ∉ flavour.platform.toList := fun hmem =>
    absurd (hplain.platform _ hmem) (by decide)
  refine ⟨h.ref, _, hparams, by simp, ?_⟩
  have hnames' := put_lit tkn.toSubstitution hrs (hmodifiers ▸ hplain.names.dollar)
  simp only [flavourJob, List.map_cons, List.map_nil, hmodifiers, hnames',
    put_lit tkn.toSubstitution hrs hdollar]

theorem makes_promote {task : PipelineTask} {runAfter : List String}
    (h : mkPipelinePromoteTask runAfter tektonTasks = .ok task) :
    Makes tkn tektonTasks rs ⟨promoteTask checkout, []⟩ task := by
  obtain ⟨params, hparams, h⟩ := bind_ok_iff.1 h
  obtain rfl := Except.ok.inj h
  exact ⟨rfl, _, hparams, by simp, rfl⟩

variable (tkn checkout) in
/-- The task at the end. -/
theorem makes_notify {status : String → List Char} {buildTasks : List PipelineTask}
    {platforms : List String} {task : PipelineTask}
    (hrs : Values rs) (hsub : ∀ r ∈ run.values pipeline, r ∈ rs)
    (hnames : ∀ task ∈ pipeline.tasks, TaskName task.name)
    (hstatus : ∀ task ∈ pipeline.tasks,
      rs.lookup ("tasks." ++ task.name ++ ".status").toList = some (status task.name))
    (hbuilds : ∀ task ∈ buildTasks, TaskName task.name) (hplatforms : ∀ p ∈ platforms, TaskName p)
    (h : mkPipelineNotifyTask pipeline.tasks tektonTasks buildTasks platforms = .ok task) :
    Makes tkn tektonTasks rs
      (notifyJob checkout run pipeline status (buildTasks.map (·.name)) platforms) task := by
  obtain ⟨params, hparams, h⟩ := bind_ok_iff.1 h
  obtain rfl := Except.ok.inj h
  have hplatformSet := put_lit tkn.toSubstitution hrs
    (Plain.join _ fun p hp => (hplatforms p hp).plain).dollar
  have hbuildNames := put_lit tkn.toSubstitution hrs
    (Plain.join (buildTasks.map (·.name)) fun name hname => by
      obtain ⟨task, htask, rfl⟩ := List.mem_map.1 hname
      exact (hbuilds task htask).plain).dollar
  have hjson := put_statusStr tkn.toSubstitution hrs hnames hstatus
  refine ⟨rfl, _, hparams, by simp, ?_⟩
  simp only [notifyJob, List.map_cons, List.map_nil, String.toList_ofList, hplatformSet, hbuildNames,
    hjson, put_runName tkn hrs hsub, put_runNamespace tkn hrs hsub,
    put_pipelineName tkn hrs hsub]

end Makes

/-! ## The names of the tasks -/

theorem mem_replaceFrom {old new s : List Char} {skip : ℕ} {c : Char}
    (h : c ∈ Text.replaceFrom old new skip s) : c ∈ new ∨ c ∈ s := by
  induction s generalizing skip with
  | nil => cases skip <;> simp [Text.replaceFrom] at h
  | cons d s ih =>
    cases skip with
    | succ skip => exact (ih h).imp_right (List.mem_cons_of_mem d)
    | zero =>
      rw [Text.replaceFrom] at h
      split at h
      · rcases List.mem_append.1 h with hnew | hrest
        · exact .inl hnew
        · exact (ih hrest).imp_right (List.mem_cons_of_mem d)
      · rcases List.mem_cons.1 h with rfl | hrest
        · exact .inr List.mem_cons_self
        · exact (ih hrest).imp_right (List.mem_cons_of_mem d)

theorem mem_letters {name : String} (h : TaskName name) {c : Char} (hc : c ∈ Glci.letters name) :
    isTaskChar c := by
  obtain ⟨d, hd, rfl⟩ := List.mem_map.1 hc
  split
  · decide
  · exact h d (List.mem_of_mem_filter hd)

/-- The name of the task of a flavour with plain names. -/
theorem taskName_generateTaskName {orders : CallOrders} {config : Glci.Config}
    {flavour : GardenlinuxFlavour} (h : PlainFlavour orders config flavour) {namePrefix : String}
    (hname : TaskName namePrefix) : TaskName (generateTaskName namePrefix flavour) := by
  intro c hc
  rw [Glci.generateTaskName_toList] at hc
  rcases List.mem_append.1 (List.mem_of_mem_take hc) with hc | hc
  · exact hname c hc
  · rcases List.mem_append.1 hc with hc | hc
    · exact List.all_eq_true.1 (by decide : "amd64".toList.all isTaskChar) c hc
    · rcases mem_replaceFrom hc with hc | hc
      · exact List.all_eq_true.1 (by decide : "ro".toList.all isTaskChar) c hc
      · have hc := (List.rdropWhile_prefix _ _).subset hc
        simp only [List.cons_append, List.mem_cons, List.mem_append, List.mem_flatMap] at hc
        rcases hc with rfl | hc | rfl | ⟨modifier, hmodifier, hc⟩
        · decide
        · exact mem_letters h.platform hc
        · decide
        · exact mem_letters (h.modifiers modifier (mem_sortOn.1 hmodifier)) hc

/-! ## The run -/

section Fits

variable {paramOrder : Enumeration NamedParam} {checkout : Checkout} {allTasks : List Task}
  {tasks : List PipelineTask} {removed : List NamedParam} {run : PipelineRun}
  {pipeline : Pipeline} {job : Job}

theorem fits_of_declared (hrender : renderTask paramOrder checkout = .ok allTasks)
    (hnodup : removed.Nodup)
    (h : declareParams paramOrder allTasks tasks removed = .ok pipeline.params)
    (hsource : job.task ∈ taskSources checkout) (hused : job.task.Used tasks)
    (hown : ∀ param ∈ job.task.allParams, param ∈ removed → param.name ∈ job.own.map Prod.fst)
    (hplain : ∀ value ∈ job.own, Plain value.2) : job.Fits checkout pipeline where
  task := hsource
  declared param hparam hname :=
    (declared_iff hrender hnodup h).2
      ⟨fun hmem => hname (hown param hparam hmem), _, hsource, hused, hparam⟩
  dollar value hvalue := (hplain value hvalue).dollar
  passable value hvalue step _ := (hplain value hvalue).passable step.scriptType

/-- All steps of the task at the end are called in the Python language. -/
theorem fits_notify (hrender : renderTask paramOrder checkout = .ok allTasks)
    (hnodup : removed.Nodup)
    (h : declareParams paramOrder allTasks tasks removed = .ok pipeline.params)
    (hown : ∀ param ∈ (notifyTask checkout).allParams, param ∈ removed →
      param.name ∈ ["platform_set", "pipeline_run_name", "pipeline_name", "namespace",
        "status_dict_str", "build_tasks"])
    (hrun : run.Plain) (hname : Plain pipeline.name.toList)
    {status : String → List Char} (hnames : ∀ task ∈ pipeline.tasks, TaskName task.name)
    (hstatus : ∀ name, Plain (status name)) {buildNames platforms : List String}
    (hbuilds : ∀ name ∈ buildNames, TaskName name) (hplatforms : ∀ p ∈ platforms, TaskName p) :
    (notifyJob checkout run pipeline status buildNames platforms).Fits checkout pipeline := by
  have hpython : ∀ step ∈ (notifyTask checkout).steps, step.scriptType = .python3 := by
    simp only [notifyTask, List.forall_mem_cons, List.not_mem_nil, false_implies, implies_true,
      and_true]
    exact ⟨rfl, rfl, rfl, rfl⟩
  have hchars : ∀ value ∈ (notifyJob checkout run pipeline status buildNames platforms).own,
      ∀ c ∈ value.2, isStatusChar c := by
    have hplain {s : List Char} (hs : Plain s) : ∀ c ∈ s, isStatusChar c :=
      fun c hc => isStatusChar_of_isPlainChar (hs c hc)
    simp only [notifyJob, List.forall_mem_cons, List.not_mem_nil, false_implies, implies_true,
      and_true]
    exact ⟨hplain (Plain.join _ fun p hp => (hplatforms p hp).plain), hplain hrun.name, hplain hname,
      hplain hrun.runNamespace, isStatusChar_statusJson hnames hstatus,
      hplain (Plain.join _ fun name hname => (hbuilds name hname).plain)⟩
  refine ⟨by simp [taskSources, notifyJob], fun param hparam hname => ?_, fun value hvalue hmem => ?_,
    fun value hvalue step hstep c hc => ?_⟩
  · exact (declared_iff hrender hnodup h).2 ⟨fun hmem => hname (hown param hparam hmem), _,
      by simp [taskSources, notifyJob], .inl rfl, hparam⟩
  · exact absurd (hchars value hvalue _ hmem) (by decide)
  · rw [hpython step hstep]
    have hchar := hchars value hvalue c hc
    simp only [isStatusChar, Bool.and_eq_true] at hchar
    exact hchar.1

end Fits

section Main

variable {tkn : Controller} {orders : CallOrders} {order : Enumeration GardenlinuxFlavour}
  {platformOrder : Enumeration String} {paramOrder : Enumeration NamedParam}
  {config : Glci.Config} {checkout : Checkout} {allTasks : List Task}
  {flavours : List GardenlinuxFlavour} {pipeline : Pipeline} {run : PipelineRun}

/-- What `mk_pipeline` makes. -/
structure MainPipeline (orders : CallOrders) (config : Glci.Config)
    (flavours : List GardenlinuxFlavour) (platforms : List String)
    (paramOrder : Enumeration NamedParam)
    (allTasks : List Task) (pipeline : Pipeline) : Prop where
  name : pipeline.name = "gardenlinux-build"
  tasks : ∃ base builds tests promote notify,
    mkPipelineBaseBuildTask (allTasks.map Task.tekton) = .ok base ∧
    List.Forall₂ (FlavourTask orders config (allTasks.map Task.tekton) "" "build-gardenlinux-task"
      fun _ => [base.name]) flavours builds ∧
    List.Forall₂ (FlavourTask orders config (allTasks.map Task.tekton) "tst"
      "integration-test-task" fun flavour => [generateTaskName "" flavour]) flavours tests ∧
    mkPipelinePromoteTask (builds.map (·.name)) (allTasks.map Task.tekton) = .ok promote ∧
    pipeline.tasks = base :: builds ++ tests ++ [promote] ∧
    mkPipelineNotifyTask pipeline.tasks (allTasks.map Task.tekton) builds platforms = .ok notify ∧
    pipeline.finallyTasks = [notify]
  params : declareParams paramOrder allTasks pipeline.tasks specialParams = .ok pipeline.params

theorem of_mkPipeline_ok
    (h : mkPipeline orders order platformOrder paramOrder config flavours allTasks .snapshot =
      .ok pipeline) :
    MainPipeline orders config (order.list flavours.toFinset)
      (platformOrder.list ((order.list flavours.toFinset).map (·.platform)).toFinset) paramOrder
      allTasks pipeline := by
  obtain ⟨base, hbase, h⟩ := bind_ok_iff.1 h
  obtain ⟨⟨builds, tests⟩, hflavours, h⟩ := bind_ok_iff.1 h
  obtain ⟨promote, hpromote, h⟩ := bind_ok_iff.1 h
  obtain ⟨notify, hnotify, h⟩ := bind_ok_iff.1 h
  obtain ⟨params, hparams, h⟩ := bind_ok_iff.1 h
  obtain rfl := Except.ok.inj h
  obtain ⟨hbuilds, htests⟩ := of_mkFlavourTasks_ok_forall₂ (mapError_ok_iff.1 hflavours)
  exact ⟨rfl, ⟨base, builds, tests, promote, notify, mapError_ok_iff.1 hbase, hbuilds, htests,
    mapError_ok_iff.1 hpromote, rfl, mapError_ok_iff.1 hnotify, rfl⟩, hparams⟩

theorem nodup_specialParams : specialParams.Nodup := by decide

theorem MainPipeline.taskNames {platforms : List String}
    (h : MainPipeline orders config flavours platforms paramOrder allTasks pipeline)
    (hplain : ∀ flavour ∈ flavours, PlainFlavour orders config flavour) :
    ∀ task ∈ pipeline.tasks, TaskName task.name := by
  obtain ⟨base, builds, tests, promote, notify, hbase, hbuilds, htests, hpromote, htasks, -⟩ :=
    h.tasks
  have hall {s : String} (hs : s.toList.all isTaskChar) : TaskName s := List.all_eq_true.1 hs
  intro task htask
  simp only [htasks, List.cons_append, List.mem_cons, List.mem_append, List.not_mem_nil,
    or_false] at htask
  rcases htask with rfl | (htask | htask) | rfl
  · obtain ⟨params, -, hbase⟩ := bind_ok_iff.1 hbase
    obtain rfl := Except.ok.inj hbase
    exact hall (s := "build-baseimage") (by decide)
  · obtain ⟨flavour, hflavour, hmade⟩ := exists_of_forall₂ hbuilds htask
    exact hmade.name ▸ taskName_generateTaskName (hplain flavour hflavour) (hall rfl)
  · obtain ⟨flavour, hflavour, hmade⟩ := exists_of_forall₂ htests htask
    exact hmade.name ▸ taskName_generateTaskName (hplain flavour hflavour) (hall (by decide))
  · obtain ⟨params, -, hpromote⟩ := bind_ok_iff.1 hpromote
    obtain rfl := Except.ok.inj hpromote
    exact hall (s := "promote-gardenlinux-task") (by decide)

theorem MainPipeline.taskRefs {platforms : List String}
    (h : MainPipeline orders config flavours platforms paramOrder allTasks pipeline) :
    ∀ task ∈ pipeline.tasks, task.taskRef ∈ ["build-baseimage", "build-gardenlinux-task",
      "integration-test-task", "promote-gardenlinux-task"] := by
  obtain ⟨base, builds, tests, promote, notify, hbase, hbuilds, htests, hpromote, htasks, -⟩ :=
    h.tasks
  intro task htask
  simp only [htasks, List.cons_append, List.mem_cons, List.mem_append, List.not_mem_nil,
    or_false] at htask
  rcases htask with rfl | (htask | htask) | rfl
  · obtain ⟨params, -, hbase⟩ := bind_ok_iff.1 hbase
    obtain rfl := Except.ok.inj hbase
    simp
  · obtain ⟨flavour, -, hmade⟩ := exists_of_forall₂ hbuilds htask
    simp [hmade.ref]
  · obtain ⟨flavour, -, hmade⟩ := exists_of_forall₂ htests htask
    simp [hmade.ref]
  · obtain ⟨params, -, hpromote⟩ := bind_ok_iff.1 hpromote
    obtain rfl := Except.ok.inj hpromote
    simp

theorem MainPipeline.makes {platforms : List String}
    (h : MainPipeline orders config flavours platforms paramOrder allTasks pipeline)
    (hplain : ∀ flavour ∈ flavours, PlainFlavour orders config flavour)
    {rs : List (List Char × List Char)} (hrs : Values rs) (hsub : ∀ r ∈ run.values pipeline, r ∈ rs) :
    List.Forall₂ (Makes tkn (allTasks.map Task.tekton) rs)
      (mainJobs checkout run orders config flavours) pipeline.tasks := by
  obtain ⟨base, builds, tests, promote, notify, hbase, hbuilds, htests, hpromote, htasks, -⟩ :=
    h.tasks
  have hflavours (source : TaskSource) {namePrefix : String}
      {runAfter : GardenlinuxFlavour → List String} {tasks : List PipelineTask}
      (hmade : List.Forall₂ (FlavourTask orders config (allTasks.map Task.tekton) namePrefix
        source.name runAfter) flavours tasks) :
      List.Forall₂ (Makes tkn (allTasks.map Task.tekton) rs)
        (flavours.map (flavourJob source orders config)) tasks := by
    rw [List.forall₂_map_left_iff]
    exact forall₂_imp_of_mem hmade fun flavour task hflavour hmade =>
      makes_flavour hrs (hplain flavour hflavour) hmade
  rw [htasks, mainJobs, List.cons_append, List.cons_append]
  exact .cons (makes_base hrs hsub hbase)
    (List.rel_append (List.rel_append (hflavours (buildTask checkout) hbuilds)
      (hflavours (testTask checkout) htests)) (.cons (makes_promote hpromote) .nil))

theorem MainPipeline.fits (hrender : renderTask paramOrder checkout = .ok allTasks)
    {platforms : List String}
    (h : MainPipeline orders config flavours platforms paramOrder allTasks pipeline)
    (hplain : ∀ flavour ∈ flavours, PlainFlavour orders config flavour) (hrun : run.Plain) :
    ∀ job ∈ mainJobs checkout run orders config flavours, job.Fits checkout pipeline := by
  obtain ⟨base, builds, tests, promote, notify, hbase, hbuilds, htests, hpromote, htasks, -⟩ :=
    h.tasks
  have hbaseParams : ∀ param ∈ (baseImageBuildTask noPatch).allParams, param ∈ specialParams →
      param.name ∈ ["pipeline_run_name", "namespace"] := by decide
  have hbuildParams : ∀ param ∈ (buildTask noPatch).allParams, param ∈ specialParams →
      param.name ∈ ["modifiers", "platform"] := by decide
  have htestParams : ∀ param ∈ (testTask noPatch).allParams, param ∈ specialParams →
      param.name ∈ ["modifiers", "platform"] := by decide
  have hpromoteParams : ∀ param ∈ (promoteTask noPatch).allParams, param ∈ specialParams →
      param.name ∈ ([] : List String) := by decide
  have hflavourOwn : ∀ flavour ∈ flavours,
      ∀ value ∈ [("modifiers", (modifierNames orders config flavour).toList),
        ("platform", flavour.platform.toList)], Plain value.2 := by
    intro flavour hflavour
    simp only [List.forall_mem_cons, List.not_mem_nil, false_implies, implies_true, and_true]
    exact ⟨(hplain flavour hflavour).names, (hplain flavour hflavour).platform.plain⟩
  intro job hjob
  rcases mem_mainJobs.1 hjob with rfl | ⟨flavour, hflavour, rfl⟩ | ⟨flavour, hflavour, rfl⟩ | rfl
  · refine fits_of_declared hrender nodup_specialParams h.params (by simp [taskSources, baseJob])
      (.inr ⟨base, by simp [htasks], ?_⟩) hbaseParams ?_
    · obtain ⟨params, -, hbase⟩ := bind_ok_iff.1 hbase
      obtain rfl := Except.ok.inj hbase
      rfl
    · simp only [baseJob, List.forall_mem_cons, List.not_mem_nil, false_implies, implies_true,
        and_true]
      exact ⟨hrun.name, hrun.runNamespace⟩
  · obtain ⟨task, htask, hmade⟩ := exists_of_forall₂ (hbuilds.flip) hflavour
    exact fits_of_declared hrender nodup_specialParams h.params (by simp [taskSources, flavourJob])
      (.inr ⟨task, by simp [htasks, htask], hmade.ref⟩) hbuildParams (hflavourOwn flavour hflavour)
  · obtain ⟨task, htask, hmade⟩ := exists_of_forall₂ (htests.flip) hflavour
    exact fits_of_declared hrender nodup_specialParams h.params (by simp [taskSources, flavourJob])
      (.inr ⟨task, by simp [htasks, htask], hmade.ref⟩) htestParams (hflavourOwn flavour hflavour)
  · refine fits_of_declared hrender nodup_specialParams h.params (by simp [taskSources])
      (.inr ⟨promote, by simp [htasks], ?_⟩) hpromoteParams (by simp)
    obtain ⟨params, -, hpromote⟩ := bind_ok_iff.1 hpromote
    obtain rfl := Except.ok.inj hpromote
    rfl

variable (tkn) in
/-- A run of the pipeline of the flavours calls every step of every task with the values of its
job. -/
theorem main_runs_jobs (hrender : renderTask paramOrder checkout = .ok allTasks)
    (hpipeline : mkPipeline orders order platformOrder paramOrder config flavours allTasks
      .snapshot = .ok pipeline)
    (hflavours : ∀ flavour ∈ flavours, PlainFlavour orders config flavour)
    (hrun : run.Plain) (hsupplied : ∀ param ∈ pipeline.params, (run.value param).isSome)
    {status : String → List Char} (hstatus : ∀ name, Plain (status name)) :
    ∃ steps finallySteps,
      runPipeline tkn allTasks run pipeline status = some (steps, finallySteps) ∧
      List.Forall₂ (RunsJob tkn run)
        (mainJobs checkout run orders config (order.list flavours.toFinset)) steps ∧
      List.Forall₂ (RunsJob tkn run)
        [notifyJob checkout run pipeline status
          ((order.list flavours.toFinset).map (generateTaskName ""))
          (platformOrder.list ((order.list flavours.toFinset).map (·.platform)).toFinset)]
        finallySteps := by
  have hmain := of_mkPipeline_ok hpipeline
  obtain ⟨base, builds, tests, promote, notify, hbase, hbuilds, htests, hpromote, htasks, hnotify,
    hfinally⟩ := hmain.tasks
  have hstart : Starts run pipeline := by
    refine ⟨hrun, ?_, (of_declareParams_ok nodup_specialParams hmain.params).1,
      fun param => known_of_declared hrender nodup_specialParams hmain.params, hsupplied⟩
    rw [hmain.name]
    exact List.all_eq_true.1 (by decide : "gardenlinux-build".toList.all isPlainChar)
  have hplain : ∀ flavour ∈ order.list flavours.toFinset, PlainFlavour orders config flavour :=
    fun flavour hmem => hflavours flavour (List.mem_toFinset.1 ((order.mem_list _ _).1 hmem))
  have hbuildNames : ∀ task ∈ builds, TaskName task.name := fun task htask => by
    obtain ⟨flavour, hflavour, hmade⟩ := exists_of_forall₂ hbuilds htask
    exact hmade.name ▸ taskName_generateTaskName (hplain flavour hflavour) (by simp [TaskName])
  have hnames : ∀ task ∈ pipeline.tasks, TaskName task.name := hmain.taskNames hplain
  have hnotifyParams : ∀ param ∈ (notifyTask noPatch).allParams, param ∈ specialParams →
      param.name ∈ ["platform_set", "pipeline_run_name", "pipeline_name", "namespace",
        "status_dict_str", "build_tasks"] := by decide
  have hplatforms : ∀ p ∈ platformOrder.list ((order.list flavours.toFinset).map
      (·.platform)).toFinset, TaskName p := fun p hp => by
    obtain ⟨flavour, hflavour, rfl⟩ :=
      List.mem_map.1 (List.mem_toFinset.1 ((platformOrder.mem_list _ _).1 hp))
    exact (hplain flavour hflavour).platform
  have hfits := fits_notify hrender nodup_specialParams hmain.params hnotifyParams hrun hstart.name
    hnames hstatus (List.forall_mem_map.2 hbuildNames) hplatforms
  rw [names_of_flavourTasks hbuilds] at hfits
  refine runPipeline_runs hrender hstart hnames hstatus (hmain.fits hrender hplain hrun)
    (List.forall_mem_singleton.2 hfits) (fun rs hrs hsub => hmain.makes hplain hrs hsub)
    fun rs hrs hsub hlookup => ?_
  have hmakes := makes_notify tkn checkout hrs hsub hnames hlookup hbuildNames
    hplatforms hnotify
  rw [names_of_flavourTasks hbuilds] at hmakes
  exact hfinally ▸ .cons hmakes .nil

/-! ## Which pipelines there are -/

theorem getPassedParameters_ok (hrender : renderTask paramOrder checkout = .ok allTasks)
    (name : String) (hname : name ∈ (taskSources noPatch).map (·.name))
    (overrides : List Glci.NamedParam) :
    ∃ params, getPassedParameters name (allTasks.map Task.tekton) overrides = .ok params := by
  obtain ⟨source, hsource, rfl⟩ : ∃ source ∈ taskSources checkout, source.name = name :=
    List.mem_map.1 hname
  obtain ⟨task, hfind, -⟩ := find_renders (of_renderTask_ok hrender) (nodup_taskSources checkout)
    hsource
  have hsame : (allTasks.map Task.tekton).find? (·.name = source.name) = some task.tekton := by
    rw [List.find?_map]
    exact congrArg (Option.map Task.tekton) hfind
  exact ⟨_, by rw [getPassedParameters, Glci.findTask, hsame]; rfl⟩

theorem mkPipelineBaseBuildTask_ok (hrender : renderTask paramOrder checkout = .ok allTasks) :
    ∃ task, mkPipelineBaseBuildTask (allTasks.map Task.tekton) = .ok task ∧
      task.name = "build-baseimage" ∧ task.taskRef = "build-baseimage" := by
  obtain ⟨params, hparams⟩ := getPassedParameters_ok hrender "build-baseimage"
    (by decide) [⟨"pipeline_run_name", "$(context.pipelineRun.name)"⟩,
      ⟨"namespace", "$(context.pipelineRun.namespace)"⟩]
  exact ⟨_, bind_ok_iff.2 ⟨params, hparams, rfl⟩, rfl, rfl⟩

theorem mkPipelinePromoteTask_ok (hrender : renderTask paramOrder checkout = .ok allTasks)
    (runAfter : List String) :
    ∃ task, mkPipelinePromoteTask runAfter (allTasks.map Task.tekton) = .ok task ∧
      task.taskRef = "promote-gardenlinux-task" := by
  obtain ⟨params, hparams⟩ := getPassedParameters_ok hrender "promote-gardenlinux-task"
    (by decide) []
  exact ⟨_, bind_ok_iff.2 ⟨params, hparams, rfl⟩, rfl⟩

theorem mkPipelineNotifyTask_ok (hrender : renderTask paramOrder checkout = .ok allTasks)
    (tasks builds : List PipelineTask) (platforms : List String) :
    ∃ task, mkPipelineNotifyTask tasks (allTasks.map Task.tekton) builds platforms = .ok task := by
  obtain ⟨params, hparams⟩ := getPassedParameters_ok hrender "notify-task" (by decide) _
  exact ⟨_, bind_ok_iff.2 ⟨params, hparams, rfl⟩⟩

theorem mkFlavourTasks_ok (hrender : renderTask paramOrder checkout = .ok allTasks)
    (baseName : String)
    (hnames : ∀ flavour ∈ flavours, ∃ names, getModifierNames orders config flavour = .ok names) :
    ∃ builds tests, mkFlavourTasks orders config .snapshot baseName (allTasks.map Task.tekton)
      flavours = .ok (builds, tests) := by
  induction flavours with
  | nil => exact ⟨[], [], rfl⟩
  | cons flavour flavours ih =>
    rw [List.forall_mem_cons] at hnames
    obtain ⟨⟨names, hname⟩, hrest⟩ := hnames
    obtain ⟨builds, tests, hflavours⟩ := ih hrest
    obtain ⟨buildParams, hbuild⟩ := getPassedParameters_ok hrender
      "build-gardenlinux-task" (by decide) [⟨"modifiers", names⟩, ⟨"platform", flavour.platform⟩]
    obtain ⟨testParams, htest⟩ := getPassedParameters_ok hrender
      "integration-test-task" (by decide) [⟨"modifiers", names⟩, ⟨"platform", flavour.platform⟩]
    have hbuildTask : Glci.mkPipelineBuildTask orders config flavour .snapshot [baseName]
        (allTasks.map Task.tekton) = .ok ⟨generateTaskName "" flavour, "build-gardenlinux-task",
          buildParams, some [baseName], "2h"⟩ :=
      bind_ok_iff.2 ⟨names, hname, bind_ok_iff.2 ⟨buildParams, hbuild, rfl⟩⟩
    have htestTask : Glci.mkPipelineTestTask orders config flavour [generateTaskName "" flavour]
        (allTasks.map Task.tekton) = .ok ⟨generateTaskName "tst" flavour, "integration-test-task",
          testParams, some [generateTaskName "" flavour], "1h"⟩ :=
      bind_ok_iff.2 ⟨names, hname, bind_ok_iff.2 ⟨testParams, htest, rfl⟩⟩
    exact ⟨_, _, bind_ok_iff.2 ⟨_, hbuildTask, bind_ok_iff.2 ⟨_, htestTask,
      bind_ok_iff.2 ⟨_, hflavours, rfl⟩⟩⟩⟩

/-- A task that all of the pipelines of the flavours refer to declares a parameter of the base
image or of the notification; the rest of what is removed comes with the flavours. -/
theorem used_specialParams {tasks : List PipelineTask}
    (hrefs : ∀ name ∈ ["build-baseimage", "build-gardenlinux-task"],
      ∃ task ∈ tasks, task.taskRef = name) :
    ∀ param ∈ specialParams, ∃ source ∈ taskSources checkout, source.Used tasks ∧
      param ∈ source.allParams := by
  have hbase : baseImageBuildTask checkout ∈ taskSources checkout := by simp [taskSources]
  have hbuild : buildTask checkout ∈ taskSources checkout := by simp [taskSources]
  have hnotify : notifyTask checkout ∈ taskSources checkout := by simp [taskSources]
  have hcases : ∀ param ∈ specialParams, param ∈ (baseImageBuildTask noPatch).allParams ∨
      param ∈ (buildTask noPatch).allParams ∨ param ∈ (notifyTask noPatch).allParams := by
    decide
  intro param hparam
  rcases hcases param hparam with hmem | hmem | hmem
  · exact ⟨_, hbase, .inr (hrefs _ (by simp [baseImageBuildTask])), hmem⟩
  · exact ⟨_, hbuild, .inr (hrefs _ (by simp [buildTask])), hmem⟩
  · exact ⟨_, hnotify, .inl rfl, hmem⟩

/-- Only the tasks of the flavours have modifiers. -/
theorem modifiers_not_mem : ∀ source ∈ taskSources noPatch,
    source.name ∈ ["notify-task", "build-baseimage", "promote-gardenlinux-task"] →
      modifiers ∉ source.allParams := by
  decide

variable (order platformOrder) in
/-- There is a pipeline for a set of flavours if it is not empty and the modifiers of each are
known: without flavours no task has the parameter that is removed first. -/
theorem mkPipeline_ok_iff (hrender : renderTask paramOrder checkout = .ok allTasks) :
    (∃ pipeline, mkPipeline orders order platformOrder paramOrder config flavours allTasks
      .snapshot = .ok pipeline) ↔
      flavours ≠ [] ∧
        ∀ flavour ∈ flavours, ∃ names, getModifierNames orders config flavour = .ok names := by
  have hlist : ∀ flavour, flavour ∈ order.list flavours.toFinset ↔ flavour ∈ flavours :=
    fun flavour => by simp [order.mem_list]
  constructor
  · rintro ⟨pipeline, h⟩
    have hmain := of_mkPipeline_ok h
    obtain ⟨base, builds, tests, promote, notify, hbase, hbuilds, htests, hpromote, htasks, -⟩ :=
      hmain.tasks
    refine ⟨?_, fun flavour hflavour => ?_⟩
    · rintro rfl
      have hnil : order.list (List.toFinset []) = [] := List.eq_nil_iff_forall_not_mem.2
        fun flavour hmem => absurd ((hlist flavour).1 hmem) List.not_mem_nil
      rw [hnil, List.forall₂_nil_left_iff] at hbuilds htests
      have hrefs : ∀ task ∈ pipeline.tasks,
          task.taskRef ∈ ["build-baseimage", "promote-gardenlinux-task"] := by
        obtain ⟨_, -, hbase⟩ := bind_ok_iff.1 hbase
        obtain ⟨_, -, hpromote⟩ := bind_ok_iff.1 hpromote
        simp [htasks, hbuilds, htests, ← Except.ok.inj hbase, ← Except.ok.inj hpromote]
      have hnames : ["build-baseimage", "promote-gardenlinux-task"] ⊆
          (taskSources noPatch).map (·.name) := by decide
      obtain ⟨source, hsource, hused, hmem⟩ := (declareParams_ok_iff hrender nodup_specialParams
        fun task htask => hnames (hrefs task htask)).1 ⟨_, hmain.params⟩ modifiers
          (by simp [specialParams])
      obtain ⟨source', hsource', hname, hall⟩ := allParams_noPatch hsource
      refine modifiers_not_mem source' hsource' ?_ (hall ▸ hmem)
      rcases hused with hnotify | ⟨task, htask, href⟩
      · simp [hname, hnotify]
      · rw [hname, ← href]
        exact List.mem_cons_of_mem _ (hrefs task htask)
    · obtain ⟨task, -, hmade⟩ := exists_of_forall₂ hbuilds.flip ((hlist flavour).2 hflavour)
      obtain ⟨names, hnames, -⟩ := hmade.params
      exact ⟨names, hnames⟩
  · rintro ⟨hne, hnames⟩
    obtain ⟨base, hbase, hbaseName, hbaseRef⟩ := mkPipelineBaseBuildTask_ok hrender
    obtain ⟨builds, tests, hflavours⟩ := mkFlavourTasks_ok hrender base.name
      fun flavour hflavour => hnames flavour ((hlist flavour).1 hflavour)
    obtain ⟨promote, hpromote, hpromoteRef⟩ :=
      mkPipelinePromoteTask_ok hrender (builds.map (·.name))
    obtain ⟨notify, hnotify⟩ := mkPipelineNotifyTask_ok hrender
      (base :: builds ++ tests ++ [promote]) builds
      (platformOrder.list ((order.list flavours.toFinset).map (·.platform)).toFinset)
    obtain ⟨hbuilds, htests⟩ := of_mkFlavourTasks_ok_forall₂ hflavours
    have hrefs : ∀ task ∈ base :: builds ++ tests ++ [promote],
        task.taskRef ∈ (taskSources noPatch).map (·.name) := by
      intro task htask
      simp only [List.cons_append, List.mem_cons, List.mem_append, List.not_mem_nil,
        or_false] at htask
      rcases htask with rfl | (htask | htask) | rfl
      · exact hbaseRef ▸ by decide
      · obtain ⟨flavour, -, hmade⟩ := exists_of_forall₂ hbuilds htask
        exact hmade.ref ▸ by decide
      · obtain ⟨flavour, -, hmade⟩ := exists_of_forall₂ htests htask
        exact hmade.ref ▸ by decide
      · exact hpromoteRef ▸ by decide
    obtain ⟨flavour, hflavour⟩ := List.exists_mem_of_ne_nil _ hne
    obtain ⟨build, hbuild, hmade⟩ := exists_of_forall₂ hbuilds.flip ((hlist flavour).2 hflavour)
    obtain ⟨params, hparams⟩ := (declareParams_ok_iff hrender nodup_specialParams hrefs).2
      (used_specialParams (List.forall_mem_cons.2 ⟨⟨base, by simp, hbaseRef⟩,
        List.forall_mem_singleton.2 ⟨build, by simp [hbuild], hmade.ref⟩⟩))
    exact ⟨_, bind_ok_iff.2 ⟨base, mapError_ok_iff.2 hbase, bind_ok_iff.2 ⟨(builds, tests),
      mapError_ok_iff.2 hflavours, bind_ok_iff.2 ⟨promote, mapError_ok_iff.2 hpromote,
        bind_ok_iff.2 ⟨notify, mapError_ok_iff.2 hnotify, bind_ok_iff.2 ⟨params, hparams, rfl⟩⟩⟩⟩⟩⟩

end Main

end Tkn
