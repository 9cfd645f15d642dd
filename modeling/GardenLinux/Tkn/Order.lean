import GardenLinux.Lib.Schedule
import GardenLinux.Tkn.PipelineRun

/-!
# In which order the tasks run

The tasks of a pipeline as a schedule: `runAfter` of a task names those that have to succeed
before it is started.

What is proved here:

* `main_waits_for_iff` — whatever runs side by side, a flavour waits for the base image, its test
  for both, and the promotion for the base image and all flavours: it does not wait for a test;
* `main_run_ends` — no run of the pipeline gets stuck.
-/

namespace Tkn

open Schedule
open GardenFeat (bind_ok_iff)
open Glci (GardenlinuxFlavour PipelineTask generateTaskName mkPipelineBaseBuildTask
  mkPipelinePromoteTask CallOrders)

/-- The tasks by their names. -/
def Pipeline.plan (pipeline : Pipeline) : Plan String where
  tasks := (pipeline.tasks.map (·.name)).toFinset
  after name := ((pipeline.tasks.find? (·.name = name)).bind (·.runAfter)).getD []

theorem mem_plan {pipeline : Pipeline} {name : String} :
    name ∈ pipeline.plan.tasks ↔ ∃ task ∈ pipeline.tasks, task.name = name := by
  simp [Pipeline.plan]

/-- With different names for different tasks each has its own `runAfter`. -/
theorem after_name {pipeline : Pipeline} (hnames : (pipeline.tasks.map (·.name)).Nodup)
    {task : PipelineTask} (htask : task ∈ pipeline.tasks) :
    pipeline.plan.after task.name = task.runAfter.getD [] := by
  simp [Pipeline.plan, find?_key (fun task : PipelineTask => task.name) hnames htask]

section Main

variable {orders : CallOrders} {order : Enumeration GardenlinuxFlavour}
  {platformOrder : Enumeration String} {paramOrder : Enumeration NamedParam}
  {config : Glci.Config} {allTasks : List Task} {flavours : List GardenlinuxFlavour}
  {platforms : List String} {pipeline : Pipeline} {s : State String}

/-- The tasks of the pipeline of the flavours, and what they run after. -/
structure MainPlan (flavours : List GardenlinuxFlavour) (plan : Plan String) : Prop where
  tasks : ∀ name, name ∈ plan.tasks ↔ name = "build-baseimage" ∨
    (∃ flavour ∈ flavours, name = generateTaskName "" flavour) ∨
    (∃ flavour ∈ flavours, name = generateTaskName "tst" flavour) ∨
    name = "promote-gardenlinux-task"
  base : plan.after "build-baseimage" = []
  build : ∀ flavour ∈ flavours, plan.after (generateTaskName "" flavour) = ["build-baseimage"]
  test : ∀ flavour ∈ flavours,
    plan.after (generateTaskName "tst" flavour) = [generateTaskName "" flavour]
  promote : plan.after "promote-gardenlinux-task" = flavours.map (generateTaskName "")

theorem MainPipeline.names
    (h : MainPipeline orders config flavours platforms paramOrder allTasks pipeline) :
    pipeline.tasks.map (·.name) = "build-baseimage" :: flavours.map (generateTaskName "") ++
      flavours.map (generateTaskName "tst") ++ ["promote-gardenlinux-task"] := by
  obtain ⟨base, builds, tests, promote, notify, hbase, hbuilds, htests, hpromote, htasks, -⟩ :=
    h.tasks
  obtain ⟨_, -, hbase⟩ := bind_ok_iff.1 hbase
  obtain rfl := Except.ok.inj hbase
  obtain ⟨_, -, hpromote⟩ := bind_ok_iff.1 hpromote
  obtain rfl := Except.ok.inj hpromote
  simp [htasks, names_of_flavourTasks hbuilds, names_of_flavourTasks htests]

theorem MainPipeline.plan
    (h : MainPipeline orders config flavours platforms paramOrder allTasks pipeline)
    (hnames : (pipeline.tasks.map (·.name)).Nodup) : MainPlan flavours pipeline.plan := by
  obtain ⟨base, builds, tests, promote, notify, hbase, hbuilds, htests, hpromote, htasks, -⟩ :=
    h.tasks
  have hbaseMem : base ∈ pipeline.tasks := by simp [htasks]
  have hpromoteMem : promote ∈ pipeline.tasks := by simp [htasks]
  obtain ⟨_, -, hbase⟩ := bind_ok_iff.1 hbase
  obtain rfl := Except.ok.inj hbase
  obtain ⟨_, -, hpromote⟩ := bind_ok_iff.1 hpromote
  obtain rfl := Except.ok.inj hpromote
  refine ⟨fun name => ?_, after_name hnames hbaseMem, fun flavour hflavour => ?_,
    fun flavour hflavour => ?_, ?_⟩
  · have hmem : name ∈ pipeline.plan.tasks ↔ name ∈ pipeline.tasks.map (·.name) := by
      simp [Pipeline.plan]
    rw [hmem, h.names]
    simp [eq_comm]
  · obtain ⟨task, htask, hmade⟩ := exists_of_forall₂ hbuilds.flip hflavour
    rw [← hmade.name, after_name hnames (by simp [htasks, htask]), hmade.runAfter]
    rfl
  · obtain ⟨task, htask, hmade⟩ := exists_of_forall₂ htests.flip hflavour
    rw [← hmade.name, after_name hnames (by simp [htasks, htask]), hmade.runAfter]
    rfl
  · rw [← names_of_flavourTasks hbuilds]
    exact after_name hnames hpromoteMem

/-! ## What waits for what -/

theorem head?_build (flavour : GardenlinuxFlavour) :
    (generateTaskName "" flavour).toList.head? = some 'a' := by
  rw [Glci.generateTaskName_toList]
  rfl

theorem head?_test (flavour : GardenlinuxFlavour) :
    (generateTaskName "tst" flavour).toList.head? = some 't' := by
  rw [Glci.generateTaskName_toList]
  rfl

/-- A name with another first letter is not that of a build task. -/
theorem not_mem_builds {name : String} (h : name.toList.head? ≠ some 'a') :
    name ∉ flavours.map (generateTaskName "") := by
  intro hmem
  obtain ⟨flavour, -, rfl⟩ := List.mem_map.1 hmem
  exact h (head?_build flavour)

/-- The base image is first, then come the flavours. -/
def rank (flavours : List GardenlinuxFlavour) (name : String) : ℕ :=
  if name = "build-baseimage" then 0
  else if name ∈ flavours.map (generateTaskName "") then 1 else 2

section Plan

variable {plan : Plan String}

theorem rank_base : rank flavours "build-baseimage" = 0 := if_pos rfl

theorem rank_build {flavour : GardenlinuxFlavour} (hflavour : flavour ∈ flavours) :
    rank flavours (generateTaskName "" flavour) = 1 := by
  have hne : generateTaskName "" flavour ≠ "build-baseimage" := by
    intro heq
    have hhead := head?_build flavour
    rw [heq] at hhead
    exact absurd hhead (by decide)
  rw [rank, if_neg hne, if_pos (List.mem_map_of_mem hflavour)]

theorem rank_test (flavour : GardenlinuxFlavour) :
    rank flavours (generateTaskName "tst" flavour) = 2 := by
  have hne : generateTaskName "tst" flavour ≠ "build-baseimage" := by
    intro heq
    have hhead := head?_test flavour
    rw [heq] at hhead
    exact absurd hhead (by decide)
  rw [rank, if_neg hne, if_neg (not_mem_builds (by rw [head?_test]; decide))]

theorem rank_promote : rank flavours "promote-gardenlinux-task" = 2 := by
  rw [rank, if_neg (by decide), if_neg (not_mem_builds (by decide))]

theorem MainPlan.ranked (h : MainPlan flavours plan) : Ranked plan (rank flavours) := by
  have hcases : ∀ t ∈ plan.tasks, ∀ u ∈ plan.after t,
      u ∈ plan.tasks ∧ rank flavours u < rank flavours t := by
    intro t ht u hu
    rcases (h.tasks t).1 ht with rfl | ⟨flavour, hflavour, rfl⟩ | ⟨flavour, hflavour, rfl⟩ | rfl
    · simp [h.base] at hu
    · rw [h.build flavour hflavour, List.mem_singleton] at hu
      subst hu
      exact ⟨(h.tasks _).2 (.inl rfl), by rw [rank_base, rank_build hflavour]; omega⟩
    · rw [h.test flavour hflavour, List.mem_singleton] at hu
      subst hu
      exact ⟨(h.tasks _).2 (.inr (.inl ⟨flavour, hflavour, rfl⟩)),
        by rw [rank_build hflavour, rank_test]; omega⟩
    · rw [h.promote] at hu
      obtain ⟨flavour, hflavour, rfl⟩ := List.mem_map.1 hu
      exact ⟨(h.tasks _).2 (.inr (.inl ⟨flavour, hflavour, rfl⟩)),
        by rw [rank_build hflavour, rank_promote]; omega⟩
  exact ⟨fun t ht u hu => (hcases t ht u hu).1, fun t ht u hu => (hcases t ht u hu).2⟩

theorem MainPlan.not_before_base (h : MainPlan flavours plan) {name : String} :
    ¬ Before plan name "build-baseimage" := by
  rw [before_iff, h.base]
  simp

theorem MainPlan.before_build_iff (h : MainPlan flavours plan) {flavour : GardenlinuxFlavour}
    (hflavour : flavour ∈ flavours) {name : String} :
    Before plan name (generateTaskName "" flavour) ↔ name = "build-baseimage" := by
  rw [before_iff, h.build flavour hflavour]
  simp [h.not_before_base]

theorem MainPlan.before_test_iff (h : MainPlan flavours plan) {flavour : GardenlinuxFlavour}
    (hflavour : flavour ∈ flavours) {name : String} :
    Before plan name (generateTaskName "tst" flavour) ↔
      name = "build-baseimage" ∨ name = generateTaskName "" flavour := by
  rw [before_iff, h.test flavour hflavour]
  simp [h.before_build_iff hflavour, or_comm]

theorem MainPlan.before_promote_iff (h : MainPlan flavours plan) (hne : flavours ≠ [])
    {name : String} :
    Before plan name "promote-gardenlinux-task" ↔
      name = "build-baseimage" ∨ ∃ flavour ∈ flavours, name = generateTaskName "" flavour := by
  rw [before_iff, h.promote]
  constructor
  · rintro ⟨build, hbuild, hname⟩
    obtain ⟨flavour, hflavour, rfl⟩ := List.mem_map.1 hbuild
    rcases hname with rfl | hbefore
    · exact .inr ⟨flavour, hflavour, rfl⟩
    · exact .inl ((h.before_build_iff hflavour).1 hbefore)
  · rintro (rfl | ⟨flavour, hflavour, rfl⟩)
    · obtain ⟨flavour, hflavour⟩ := List.exists_mem_of_ne_nil _ hne
      exact ⟨_, List.mem_map_of_mem hflavour, .inr ((h.before_build_iff hflavour).2 rfl)⟩
    · exact ⟨_, List.mem_map_of_mem hflavour, .inl rfl⟩

end Plan

/-- Whatever runs side by side: a flavour waits for the base image, its test for both, and the
promotion for the base image and all flavours. -/
theorem main_waits_for_iff {checkout : Checkout}
    (hrender : renderTask paramOrder checkout = .ok allTasks)
    (hpipeline : mkPipeline orders order platformOrder paramOrder config flavours allTasks
      .snapshot = .ok pipeline)
    (hnames : (pipeline.tasks.map (·.name)).Nodup) :
    (∀ flavour ∈ flavours, ∀ name, name ≠ generateTaskName "" flavour →
      (WaitsFor pipeline.plan (generateTaskName "" flavour) name ↔ name = "build-baseimage")) ∧
    (∀ flavour ∈ flavours, ∀ name, name ≠ generateTaskName "tst" flavour →
      (WaitsFor pipeline.plan (generateTaskName "tst" flavour) name ↔
        name = "build-baseimage" ∨ name = generateTaskName "" flavour)) ∧
    ∀ name, name ≠ "promote-gardenlinux-task" →
      (WaitsFor pipeline.plan "promote-gardenlinux-task" name ↔
        name = "build-baseimage" ∨ ∃ flavour ∈ flavours, name = generateTaskName "" flavour) := by
  have hplan := (of_mkPipeline_ok hpipeline).plan hnames
  have hlist : ∀ flavour, flavour ∈ order.list flavours.toFinset ↔ flavour ∈ flavours :=
    fun flavour => by simp [order.mem_list]
  obtain ⟨hne, -⟩ := (mkPipeline_ok_iff _ _ hrender).1 ⟨pipeline, hpipeline⟩
  obtain ⟨flavour, hflavour⟩ := List.exists_mem_of_ne_nil _ hne
  have hne' : order.list flavours.toFinset ≠ [] := List.ne_nil_of_mem ((hlist flavour).2 hflavour)
  refine ⟨fun flavour hflavour name hname => ?_, fun flavour hflavour name hname => ?_,
    fun name hname => ?_⟩
  · have hmem := (hlist flavour).2 hflavour
    exact (waits_for_iff hplan.ranked ((hplan.tasks _).2 (.inr (.inl ⟨flavour, hmem, rfl⟩)))
      hname).trans (hplan.before_build_iff hmem)
  · have hmem := (hlist flavour).2 hflavour
    exact (waits_for_iff hplan.ranked ((hplan.tasks _).2 (.inr (.inr (.inl ⟨flavour, hmem, rfl⟩))))
      hname).trans (hplan.before_test_iff hmem)
  · have hpromote := (waits_for_iff hplan.ranked ((hplan.tasks _).2 (.inr (.inr (.inr rfl))))
      hname).trans (hplan.before_promote_iff hne')
    simpa only [hlist] using hpromote

/-- The pipeline for one flavour of `gcp`, whose tasks have different names. -/
theorem mkPipeline_gcp {allTasks : List Task}
    (hrender : renderTask anyOrder emptyScripts = .ok allTasks) :
    ∃ pipeline, mkPipeline (fun _ _ => .sorted) GardenlinuxFlavour.sorted .sorted anyOrder
      Glci.repositoryConfig [gcpFlavour] allTasks .snapshot = .ok pipeline ∧
      (pipeline.tasks.map (·.name)).Nodup := by
  obtain ⟨pipeline, hpipeline⟩ := (mkPipeline_ok_iff GardenlinuxFlavour.sorted .sorted
    hrender).2 ⟨List.cons_ne_nil _ _,
      List.forall_mem_singleton.2 ⟨_, getModifierNames_gcp⟩⟩
  refine ⟨pipeline, hpipeline, ?_⟩
  rw [(of_mkPipeline_ok hpipeline).names]
  decide +kernel

/-- The test of the flavour of `gcp` is not waited for. -/
theorem main_waits_for_gcp :
    ∃ allTasks pipeline, mkPipeline (fun _ _ => .sorted) GardenlinuxFlavour.sorted .sorted anyOrder
      Glci.repositoryConfig [gcpFlavour] allTasks .snapshot = .ok pipeline ∧
      ¬ WaitsFor pipeline.plan "promote-gardenlinux-task" (generateTaskName "tst" gcpFlavour) := by
  obtain ⟨allTasks, hrender⟩ := renderTask_emptyScripts
  obtain ⟨pipeline, hpipeline, hnames⟩ := mkPipeline_gcp hrender
  refine ⟨allTasks, pipeline, hpipeline, fun hwaits => ?_⟩
  have hpromote := (main_waits_for_iff hrender hpipeline hnames).2.2
    (generateTaskName "tst" gcpFlavour) (by decide +kernel)
  exact absurd (hpromote.1 hwaits) (by decide +kernel)

/-- No run of the pipeline gets stuck: it ends after two steps for each task, when one has failed
or all have succeeded. -/
theorem main_run_ends
    (hpipeline : mkPipeline orders order platformOrder paramOrder config flavours allTasks
      .snapshot = .ok pipeline)
    (hnames : (pipeline.tasks.map (·.name)).Nodup) {n : ℕ} (hrun : Run pipeline.plan n s) :
    n ≤ 2 * pipeline.tasks.length ∧ (Final pipeline.plan s ↔ (∀ name, s name ≠ .running) ∧
      ((∃ task ∈ pipeline.tasks, s task.name = .failed) ∨
        ∀ task ∈ pipeline.tasks, s task.name = .succeeded)) := by
  have hplan := (of_mkPipeline_ok hpipeline).plan hnames
  have hcard : pipeline.plan.tasks.card ≤ pipeline.tasks.length := by
    simpa [Pipeline.plan] using List.toFinset_card_le (pipeline.tasks.map (·.name))
  have hsteps := steps_le hrun
  refine ⟨by omega, ?_⟩
  rw [final_iff hplan.ranked hrun.reachable]
  simp [mem_plan]

/-- The four tasks for the flavour of `gcp` are run one after the other. -/
theorem main_run_ends_gcp :
    ∃ allTasks pipeline s, mkPipeline (fun _ _ => .sorted) GardenlinuxFlavour.sorted .sorted
      anyOrder Glci.repositoryConfig [gcpFlavour] allTasks .snapshot = .ok pipeline ∧
      pipeline.tasks.length = 4 ∧ Run pipeline.plan 8 s ∧ Final pipeline.plan s := by
  obtain ⟨allTasks, hrender⟩ := renderTask_emptyScripts
  obtain ⟨pipeline, hpipeline, hnames⟩ := mkPipeline_gcp hrender
  have hlength : pipeline.tasks.length = 4 := by
    have hmap := congrArg List.length (of_mkPipeline_ok hpipeline).names
    rw [List.length_map] at hmap
    rw [hmap]
    decide +kernel
  have hcard : pipeline.plan.tasks.card = 4 := by
    have hsame := List.toFinset_card_of_nodup hnames
    rw [List.length_map, hlength] at hsame
    exact hsame
  have hrun := run_all ((of_mkPipeline_ok hpipeline).plan hnames).ranked
  rw [hcard] at hrun
  refine ⟨allTasks, pipeline, _, hpipeline, hlength, hrun, ?_⟩
  have hend := (main_run_ends hpipeline hnames hrun).2
  refine hend.2 ⟨fun name => ?_, .inr fun task htask => if_pos (mem_plan.2 ⟨task, htask, rfl⟩)⟩
  unfold only
  split <;> simp

end Main

end Tkn
