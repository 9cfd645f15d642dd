import GardenLinux.Lib.JsonObject
import GardenLinux.Tkn.Signatures

/-!
# The task at the end

`send_notification` of `ci/steps/notify.py`, which is told by the pipeline how its tasks ended.  It
sets the status of the commit and sends mails if a task has not succeeded.

What is proved here:

* `read_statusJson` — what it reads about the tasks is how they ended;
* `notifyByMail_effects` — mails are only sent after a failure, and after the status has been set;
* `main_reports` — a run of the pipeline of the flavours that has ended sets the status to
  success exactly if all its tasks have succeeded.
-/

namespace Tkn

open Template AllParams
open Bash (dquote)
open Schedule (State Reachable Final)
open Glci (GardenlinuxFlavour PipelineTask CallOrders pyStrip pyInt)

/-! ## The step -/

inductive GitHubStatus
  | error
  | failure
  | pending
  | success
  deriving DecidableEq, Repr

/-- What the step does that others see. -/
inductive NotifyEffect
  | postGithubStatus (committish : List Char) (state : GitHubStatus) (targetUrl : List Char)
  | sendMail (recipients : Finset (List Char)) (subject : List Char)
  | postToSlack (channel : String) (branch dashboardUrl : List Char)
  deriving DecidableEq

inductive NotifyError
  | jsonDecodeError
  | valueError
  | typeError
  deriving DecidableEq, Repr

/-- What has been done, and the exception that ended it. -/
structure Notification where
  effects : List NotifyEffect
  error : Option NotifyError
  deriving DecidableEq

/-- The configuration, the owners of the code, and whether a step has left a `status.txt`. -/
structure NotifyEnv where
  branches : List (List Char)
  slackChannel : String
  codeowners : Finset (List Char)
  statusFile : Bool

/-- `distutils.util.strtobool`. -/
def strtobool (s : List Char) : Option Bool :=
  let val := String.ofList (s.map Char.toLower)
  if val ∈ ["y", "yes", "t", "true", "on", "1"] then some true
  else if val ∈ ["n", "no", "f", "false", "off", "0"] then some false
  else none

/-- `pr_id and int(pr_id) > 0`. -/
def isPullRequest (prId : List Char) : Option Bool :=
  if prId = [] then some false else (pyInt prId).map (0 < ·)

/-- The recipients in a text with semicolons between them. -/
def recipientSet (s : List Char) : Finset (List Char) :=
  (((pyStrip s).splitOn ';').filter (· ≠ [])).toFinset

def dashboardUrl (args : PyCall.Args) : List Char :=
  "https://tekton-dashboard.gardenlinux.io/#/namespaces/".toList ++ argument args "namespace" ++
    "/pipelineruns/".toList ++ argument args "pipeline_run_name"

def subject (args : PyCall.Args) : List Char :=
  "Garden Linux build failure in ".toList ++ argument args "pipeline_name" ++
    " in branch ".toList ++ argument args "namespace"

/-- The recipients: those that are asked for or the owners of the code, and additional ones. -/
def recipients (env : NotifyEnv) (args : PyCall.Args) : Finset (List Char) :=
  let only := recipientSet (argument args "only_recipients")
  (if only.Nonempty then only else env.codeowners) ∪
    recipientSet (argument args "additional_recipients")

/-- What is sent when a task has not succeeded. -/
def failureEffects (env : NotifyEnv) (args : PyCall.Args) : List NotifyEffect :=
  let branch := argument args "branch"
  .sendMail (recipients env args) (subject args) ::
    if env.branches.contains branch ∧ argument args "namespace" = branch then
      [.postToSlack env.slackChannel branch (dashboardUrl args)]
    else []

def succeeded : List Char := "Succeeded".toList

/-- `task_failed`. -/
def taskFailed (statusDict : JsonObject.Entries) : Bool :=
  !statusDict.all fun entry => entry.2 == succeeded

/-- `must_send`. -/
def mustSend (statusDict : JsonObject.Entries) : Bool :=
  (statusDict.filter fun entry => entry.2 != succeeded).any fun _ => true

def statusToReport (failed : Bool) : GitHubStatus := if failed then .failure else .success

/-- What follows the status of the commit. -/
def notifyByMail (env : NotifyEnv) (args : PyCall.Args) (statusDict : JsonObject.Entries) :
    Notification :=
  match strtobool (argument args "disable_notifications") with
  | none => ⟨[], some .valueError⟩
  | some true => ⟨[], none⟩
  | some false =>
    match isPullRequest (argument args "pr_id") with
    | none => ⟨[], some .valueError⟩
    | some true => ⟨[], none⟩
    | some false =>
      if !mustSend statusDict then ⟨[], none⟩
      else if recipients env args = ∅ then ⟨[], none⟩
      else
        -- the file is opened without a name
        ⟨failureEffects env args, if env.statusFile then some .typeError else none⟩

/-- `send_notification`. -/
def sendNotification (env : NotifyEnv) (args : PyCall.Args) : Notification :=
  match JsonObject.read (argument args "status_dict_str") with
  | none => ⟨[], some .jsonDecodeError⟩
  | some statusDict =>
    let rest := notifyByMail env args statusDict
    ⟨.postGithubStatus (argument args "committish") (statusToReport (taskFailed statusDict))
      (dashboardUrl args) :: rest.effects, rest.error⟩

/-! ## What it does -/

section Step

variable {env : NotifyEnv} {args : PyCall.Args} {statusDict : JsonObject.Entries}

theorem taskFailed_eq_false_iff :
    taskFailed statusDict = false ↔ ∀ entry ∈ statusDict, entry.2 = succeeded := by
  simp [taskFailed]

/-- Both ways to ask whether a task has failed agree. -/
theorem mustSend_eq : mustSend statusDict = taskFailed statusDict := by
  induction statusDict with
  | nil => rfl
  | cons entry statusDict ih =>
    by_cases hentry : entry.2 = succeeded
    · simpa [mustSend, taskFailed, hentry] using ih
    · simp [mustSend, taskFailed, hentry]

/-- Nothing is sent unless a task has failed, mails are not disabled, the run is not one for a pull
request and there is somebody to send them to. -/
theorem notifyByMail_effects :
    (notifyByMail env args statusDict).effects =
      if taskFailed statusDict ∧ strtobool (argument args "disable_notifications") = some false ∧
        isPullRequest (argument args "pr_id") = some false ∧ recipients env args ≠ ∅
      then failureEffects env args else [] := by
  unfold notifyByMail
  rw [mustSend_eq]
  cases strtobool (argument args "disable_notifications") with
  | none => simp
  | some disabled =>
    cases disabled with
    | true => simp
    | false =>
      cases isPullRequest (argument args "pr_id") with
      | none => simp
      | some pullRequest =>
        cases pullRequest with
        | true => simp
        | false =>
          cases taskFailed statusDict with
          | false => simp
          | true => by_cases hrecipients : recipients env args = ∅ <;> simp [hrecipients]

end Step

/-! ## What it is told -/

/-- What the dictionary says about the tasks. -/
def statusEntries (status : String → List Char) (tasks : List PipelineTask) : JsonObject.Entries :=
  ((tasks.map (·.name)).foldl insertNew []).map fun name =>
    (("status_" ++ name).toList, status name)

theorem isTextChar_of_isJsonChar {c : Char} (h : isJsonChar c) : JsonObject.isTextChar c := by
  simp only [isJsonChar, Bool.and_eq_true, decide_eq_true_eq] at h
  simp [JsonObject.isTextChar, h.1.1.1, h.1.2, h.2]

theorem statusJson_eq_render {status : String → List Char} {tasks : List PipelineTask}
    (h : ∀ task ∈ tasks, TaskName task.name) :
    statusJson status tasks = JsonObject.render (statusEntries status tasks) := by
  rw [statusJson, JsonObject.render, statusEntries, List.map_map, List.cons_append]
  congr 3
  refine List.map_congr_left fun name hname => ?_
  obtain ⟨task, htask, rfl⟩ : ∃ task ∈ tasks, task.name = name := by
    simpa [mem_foldl_insertNew] using hname
  rw [jsonString_status (h task htask)]
  simp [JsonObject.renderEntry, JsonObject.quoted]

/-- What the step reads about the tasks is how they ended. -/
theorem read_statusJson {status : String → List Char} {tasks : List PipelineTask}
    (h : ∀ task ∈ tasks, TaskName task.name)
    (hstatus : ∀ name, ∀ c ∈ status name, JsonObject.isTextChar c) :
    JsonObject.read (statusJson status tasks) = some (statusEntries status tasks) := by
  rw [statusJson_eq_render h]
  have hkey : "status_".toList.all JsonObject.isTextChar := by decide
  refine JsonObject.read_render ?_ ?_ ?_
  · rw [statusEntries, List.map_map]
    refine (nodup_foldl_insertNew List.nodup_nil).map fun name name' heq => ?_
    simp only [Function.comp, String.toList_append] at heq
    exact String.toList_inj.1 (List.append_cancel_left heq)
  · simp only [statusEntries, List.mem_map, forall_exists_index, and_imp]
    rintro _ name hname rfl c hc
    obtain ⟨task, htask, rfl⟩ : ∃ task ∈ tasks, task.name = name := by
      simpa [mem_foldl_insertNew] using hname
    rw [String.toList_append] at hc
    rcases List.mem_append.1 hc with hc | hc
    · exact List.all_eq_true.1 hkey c hc
    · exact isTextChar_of_isJsonChar (isJsonChar_of_isTaskChar (h task htask c hc))
  · simp only [statusEntries, List.mem_map, forall_exists_index, and_imp]
    rintro _ name - rfl
    exact hstatus name

theorem forall_statusEntries {status : String → List Char} {tasks : List PipelineTask} :
    (∀ entry ∈ statusEntries status tasks, entry.2 = succeeded) ↔
      ∀ task ∈ tasks, status task.name = succeeded := by
  simp [statusEntries, mem_foldl_insertNew]

/-! ## A run that has ended -/

/-- How tekton reports that a task has ended, or that it has not been run. -/
def statusText : Schedule.Status → List Char
  | .succeeded => succeeded
  | .failed => "Failed".toList
  | .waiting | .running => "None".toList

theorem plain_statusText (status : Schedule.Status) : Plain (statusText status) := by
  cases status <;> exact List.all_eq_true.1 (by decide)

theorem isTextChar_statusText (status : Schedule.Status) :
    ∀ c ∈ statusText status, JsonObject.isTextChar c := by
  cases status <;> exact List.all_eq_true.1 (by decide)

theorem statusText_eq_iff {status : Schedule.Status} :
    statusText status = succeeded ↔ status = .succeeded := by
  cases status <;> decide

section Main

variable {tkn : Controller} {orders : CallOrders} {order : Enumeration GardenlinuxFlavour}
  {platformOrder : Enumeration String} {paramOrder : Enumeration NamedParam}
  {config : Glci.Config} {checkout : Checkout} {allTasks : List Task}
  {flavours : List GardenlinuxFlavour} {pipeline : Pipeline} {env : RunEnv} {args : RunArgs}
  {run : PipelineRun} {runNamespace : String}

theorem disabled_eq (disabled : Bool) :
    strtobool (if disabled then "True" else "False").toList = some disabled := by
  cases disabled <;> decide

variable (tkn) in
/-- When all tasks have ended, the last step of the task at the end sets the status of the commit:
to success if all have succeeded, and otherwise it sends mails as well, unless they are disabled or
the run is for a pull request. -/
theorem main_reports (hrender : renderTask paramOrder checkout = .ok allTasks)
    (hpipeline : mkPipeline orders order platformOrder paramOrder config flavours allTasks
      .snapshot = .ok pipeline)
    (hnames : (pipeline.tasks.map (·.name)).Nodup)
    (hrun : mkPipelineMainRun env runNamespace args = .ok run)
    (hflavours : ∀ flavour ∈ flavours, PlainFlavour orders config flavour) (hplain : run.Plain)
    {s : State String} (hreach : Reachable pipeline.plan s) (hfinal : Final pipeline.plan s)
    (notifyEnv : NotifyEnv) :
    ∃ steps earlier step callArgs url,
      runPipeline tkn allTasks run pipeline (fun name => statusText (s name)) =
        some (steps, [earlier ++ [step]]) ∧
      readCall .python3 (lastLine step.script) =
        some (.python "send_notification".toList callArgs) ∧
      (sendNotification notifyEnv callArgs).effects =
        .postGithubStatus args.committish.toList
          (if ∀ task ∈ pipeline.tasks, s task.name = .succeeded then .success else .failure) url ::
          if (∃ task ∈ pipeline.tasks, s task.name = .failed) ∧ args.disableNotifications = false ∧
            isPullRequest args.prId.toList = some false ∧ recipients notifyEnv callArgs ≠ ∅
          then failureEffects notifyEnv callArgs else [] := by
  have hmain := of_mkPipeline_ok hpipeline
  have hstatus : ∀ name, Plain (statusText (s name)) := fun name => plain_statusText (s name)
  have hplainFlavours : ∀ flavour ∈ order.list flavours.toFinset, PlainFlavour orders config flavour :=
    fun flavour hmem => hflavours flavour (List.mem_toFinset.1 ((order.mem_list _ _).1 hmem))
  obtain ⟨steps, finallySteps, hsteps, -, hfinally⟩ := main_runs_jobs tkn hrender hpipeline
    hflavours hplain (supplied_mainRun hrender hpipeline hrun) hstatus
  obtain ⟨hcommon, -⟩ := commonValues_mainRun hrun
  -- the last of the steps at the end
  obtain ⟨earlier, step, hruns, rfl⟩ : ∃ earlier step,
      RunsAs tkn ((notifyJob checkout run pipeline (fun name => statusText (s name))
        ((order.list flavours.toFinset).map (Glci.generateTaskName ""))
        (platformOrder.list ((order.list flavours.toFinset).map
          (·.platform)).toFinset)).value run) notifyStep step ∧
      finallySteps = [earlier ++ [step]] := by
    cases hfinally with
    | @cons _ taskSteps _ _ hjob hnil =>
      cases hnil
      change List.Forall₂ _ [cloneStep checkout, attachLogStep, getLogsStep, notifyStep] _ at hjob
      obtain _ | ⟨_, _ | ⟨_, _ | ⟨_, _ | ⟨hnotify, _ | _⟩⟩⟩⟩ := hjob
      exact ⟨[_, _, _], _, hnotify, rfl⟩
  obtain ⟨callArgs, hcall, hargs⟩ := argument_of_runsAs rfl
    (wellFormed_of_mem_stepSources
      (by simp [stepSources] : notifyStep ∈ stepSources checkout)) hruns
  have hstatusArg : argument callArgs "status_dict_str" =
      statusJson (fun name => statusText (s name)) pipeline.tasks :=
    hargs statusDictStr (by simp [notifyStep]) "status_dict_str" (by decide)
  have hrunArg (param : NamedParam) (hparam : param ∈ notifyStep.params) (name : String)
      (hname : pyName param.name = name.toList) {v : List Char}
      (hown : (notifyJob checkout run pipeline (fun name => statusText (s name))
        ((order.list flavours.toFinset).map (Glci.generateTaskName ""))
        (platformOrder.list ((order.list flavours.toFinset).map
          (·.platform)).toFinset)).own.lookup param.name = none)
      (hlookup : run.params.lookup param.name = some v) : argument callArgs name = v := by
    rw [hargs param hparam name hname, Job.value, hown, PipelineRun.value, hlookup]
    rfl
  have hcommittish := hrunArg AllParams.committish (by simp [notifyStep]) "committish" (by decide)
    rfl hcommon.committish
  have hdisable := hrunArg AllParams.disableNotifications (by simp [notifyStep])
    "disable_notifications" (by decide) rfl
    hcommon.disableNotifications
  have hprId := hrunArg AllParams.prId (by simp [notifyStep]) "pr_id" (by decide) rfl hcommon.prId
  have hread := read_statusJson (hmain.taskNames hplainFlavours)
    fun name => isTextChar_statusText (s name)
  have hfailed : taskFailed (statusEntries (fun name => statusText (s name)) pipeline.tasks) = false ↔
      ∀ task ∈ pipeline.tasks, s task.name = .succeeded := by
    rw [taskFailed_eq_false_iff, forall_statusEntries]
    simp only [statusText_eq_iff]
  -- a run that has ended without a failure has run all tasks
  have hend : (∃ task ∈ pipeline.tasks, s task.name = .failed) ↔
      ¬ ∀ task ∈ pipeline.tasks, s task.name = .succeeded := by
    obtain ⟨-, hcases⟩ := (Schedule.final_iff (hmain.plan hnames).ranked hreach).1 hfinal
    simp only [mem_plan, exists_exists_and_eq_and, forall_exists_index, and_imp,
      forall_apply_eq_imp_iff₂] at hcases
    constructor
    · rintro ⟨task, htask, hfail⟩ hall
      simp [hall task htask] at hfail
    · exact fun hnot => hcases.resolve_right hnot
  refine ⟨steps, earlier, step, callArgs, dashboardUrl callArgs, hsteps, hcall, ?_⟩
  rw [sendNotification, hstatusArg, hread]
  by_cases hall : ∀ task ∈ pipeline.tasks, s task.name = .succeeded
  · have hnone : ¬ ∃ task ∈ pipeline.tasks, s task.name = .failed := fun hex => hend.1 hex hall
    simp only [notifyByMail_effects, hfailed.2 hall, hcommittish, statusToReport, if_pos hall, hnone]
    simp
  · have htrue : taskFailed (statusEntries (fun name => statusText (s name)) pipeline.tasks) = true :=
      Bool.eq_true_of_not_eq_false fun hfalse => hall (hfailed.1 hfalse)
    simp only [notifyByMail_effects, htrue, hcommittish, hdisable, hprId, disabled_eq,
      statusToReport, if_neg hall, hend.2 hall]
    simp

theorem main_reports_gcp :
    ∃ (step : TaskStep) (callArgs : PyCall.Args) (url : List Char),
      readCall .python3 (lastLine step.script) =
        some (.python "send_notification".toList callArgs) ∧
      (sendNotification ⟨[], "gardenlinux", ∅, false⟩ callArgs).effects =
        [.postGithubStatus "0123456789".toList .success url] := by
  obtain ⟨allTasks, hrender⟩ := renderTask_emptyScripts
  obtain ⟨pipeline, hpipeline, hnames⟩ := mkPipeline_gcp hrender
  obtain ⟨run, hrun, hplain⟩ := mkPipelineMainRun_release
  have hranked := ((of_mkPipeline_ok hpipeline).plan hnames).ranked
  have hreach := Schedule.reachable_only hranked (Finset.Subset.refl _) hranked.task
  have hall : ∀ task ∈ pipeline.tasks, Schedule.only pipeline.plan.tasks task.name = .succeeded :=
    fun task htask => if_pos (mem_plan.2 ⟨task, htask, rfl⟩)
  have hfinal : Final pipeline.plan (Schedule.only pipeline.plan.tasks) := by
    refine (Schedule.final_iff hranked hreach).2 ⟨fun name => ?_, .inr fun name hname => if_pos hname⟩
    unfold Schedule.only
    split <;> simp
  obtain ⟨-, -, step, callArgs, url, -, hcall, heffects⟩ := main_reports tektonController
    hrender hpipeline hnames hrun (List.forall_mem_singleton.2 plain_gcp) hplain hreach hfinal
    ⟨[], "gardenlinux", ∅, false⟩
  have hnone : ¬ ∃ task ∈ pipeline.tasks,
      Schedule.only pipeline.plan.tasks task.name = .failed := by
    rintro ⟨task, htask, hfailed⟩
    simp [hall task htask] at hfailed
  simp only [if_pos hall, hnone, false_and, if_false] at heffects
  exact ⟨step, callArgs, url, hcall, heffects⟩

end Main

end Tkn
