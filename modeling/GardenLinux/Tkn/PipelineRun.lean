import GardenLinux.Glci.Epoch
import GardenLinux.Glci.NextRelease
import GardenLinux.Tkn.PackagesRun

/-!
# The parameters of a run

`ci/render_pipeline_run.py`: a run of a pipeline passes it the arguments of the command line,
and what follows from them.  `BuildTarget` of `ci/glci/model.py`: the targets of a run are passed
as one text, which each step that looks at them reads again.

What is proved here:

* `checkRequirements_ok_iff` — sets of targets with all that they require;
* `setFromStr_join` — a step reads the targets that the run has been started with;
* `supplied_mainRun` and `supplied_packagesRun` — a run has a value for every parameter that its
  pipeline declares without a default;
* `mainRun_calls` and `packagesRun_calls` — from the arguments of the command line to the calls of
  all steps.
-/

namespace Glci

/-! ## Targets -/

namespace BuildTarget

def value : BuildTarget → String
  | baseBuild => "build-baseimage"
  | build => "build"
  | manifest => "manifest"
  | componentDescriptor => "component-descriptor"
  | tests => "tests"
  | publish => "publish"
  | freezeVersion => "freeze-version"
  | githubRelease => "github-release"

def requires : BuildTarget → List String
  | baseBuild | build => []
  | manifest | componentDescriptor | tests => ["build"]
  | publish => ["build", "manifest", "component-descriptor"]
  | freezeVersion => ["build-baseimage", "build", "manifest", "component-descriptor"]
  | githubRelease =>
    ["build-baseimage", "build", "manifest", "component-descriptor", "freeze-version"]

def all : List BuildTarget :=
  [baseBuild, build, manifest, componentDescriptor, tests, publish, freezeVersion, githubRelease]

inductive Error
  | notATarget (text : String)
  | missing (target : BuildTarget) (required : Finset BuildTarget)
  deriving DecidableEq

/-- `BuildTarget(value)`. -/
def ofValue (text : String) : Except Error BuildTarget :=
  match all.find? (·.value = text) with
  | some target => .ok target
  | none => .error (.notATarget text)

/-- The loop of `check_requirements` over the targets of a set. -/
def checkRequirementsOf (targets : Finset BuildTarget) : List BuildTarget → Except Error Unit
  | [] => pure ()
  | e :: rest => do
    let required ← e.requires.mapM ofValue
    let missing := required.toFinset \ targets
    if missing = ∅ then checkRequirementsOf targets rest else .error (.missing e missing)

/-- `check_requirements`; `order` is that in which Python lists a set. -/
def checkRequirements (order : Enumeration BuildTarget) (targets : Finset BuildTarget) :
    Except Error Unit :=
  checkRequirementsOf targets (order.list targets)

/-- `set_from_str`. -/
def setFromStr (order : Enumeration BuildTarget) (commaSeparated : String) :
    Except Error (Finset BuildTarget) := do
  let actions := (commaSeparated.toList.splitOn ',').map fun action => String.ofList (pyStrip action)
  let targets ← actions.mapM ofValue
  checkRequirements order targets.toFinset
  pure targets.toFinset

/-- `','.join(a.value for a in targets)`. -/
def join (targets : List BuildTarget) : String :=
  (String.singleton ',').intercalate (targets.map value)

@[simp] theorem ofValue_value (target : BuildTarget) : ofValue target.value = .ok target := by
  cases target <;> decide

/-- A set of targets that has all that they require. -/
def Closed (targets : Finset BuildTarget) : Prop :=
  ∀ target ∈ targets, ∀ required : BuildTarget, required.value ∈ target.requires →
    required ∈ targets

theorem mapM_requires (target : BuildTarget) :
    ∃ required, target.requires.mapM ofValue = .ok required ∧
      ∀ other : BuildTarget, other ∈ required ↔ other.value ∈ target.requires := by
  cases target <;> exact ⟨_, rfl, fun other => by cases other <;> decide⟩

theorem checkRequirementsOf_ok_iff {targets : Finset BuildTarget} {rest : List BuildTarget} :
    checkRequirementsOf targets rest = .ok () ↔
      ∀ target ∈ rest, ∀ required : BuildTarget, required.value ∈ target.requires →
        required ∈ targets := by
  induction rest with
  | nil => simp [checkRequirementsOf, pure, Except.pure]
  | cons e rest ih =>
    obtain ⟨required, hrequired, hmem⟩ := mapM_requires e
    have hmissing : required.toFinset \ targets = ∅ ↔
        ∀ other : BuildTarget, other.value ∈ e.requires → other ∈ targets := by
      simp [Finset.sdiff_eq_empty_iff_subset, Finset.subset_iff, hmem]
    rw [List.forall_mem_cons, ← hmissing, ← ih, checkRequirementsOf, hrequired]
    by_cases h : required.toFinset \ targets = ∅ <;> simp [h, bind, Except.bind]

/-- Targets are accepted if they have all that they require. -/
theorem checkRequirements_ok_iff (order : Enumeration BuildTarget) {targets : Finset BuildTarget} :
    checkRequirements order targets = .ok () ↔ Closed targets := by
  rw [checkRequirements, checkRequirementsOf_ok_iff]
  exact forall_congr' fun target => by rw [order.mem_list]

theorem pyStrip_value (target : BuildTarget) :
    pyStrip target.value.toList = target.value.toList ∧ ',' ∉ target.value.toList := by
  cases target <;> decide +kernel

theorem mapM_ofValue (targets : List BuildTarget) :
    (targets.map value).mapM ofValue = .ok targets := by
  induction targets with
  | nil => rfl
  | cons target targets ih => simp [ih, bind, Except.bind, pure, Except.pure]

theorem splitOn_join {targets : List BuildTarget} (h : targets ≠ []) :
    (join targets).toList.splitOn ',' = targets.map fun target => target.value.toList := by
  rw [join, String.toList_intercalate, String.toList_singleton, List.splitOn_intercalate]
  · simp [Function.comp_def]
  · intro part hpart
    simp only [List.map_map, List.mem_map] at hpart
    obtain ⟨target, -, rfl⟩ := hpart
    exact (pyStrip_value target).2
  · simpa using h

/-- The text that a run passes is read as its targets. -/
theorem setFromStr_join (order order' : Enumeration BuildTarget) {targets : Finset BuildTarget}
    (hne : targets.Nonempty) (hclosed : Closed targets) :
    setFromStr order' (join (order.list targets)) = .ok targets := by
  have hlist : (order.list targets).toFinset = targets := by
    ext target
    simp [order.mem_list]
  have hnil : order.list targets ≠ [] := by
    obtain ⟨target, htarget⟩ := hne
    exact List.ne_nil_of_mem ((order.mem_list _ _).2 htarget)
  have hactions : ((join (order.list targets)).toList.splitOn ',').map
      (fun action => String.ofList (pyStrip action)) = (order.list targets).map value := by
    rw [splitOn_join hnil, List.map_map]
    refine List.map_congr_left fun target _ => ?_
    simp [(pyStrip_value target).1]
  have hcheck := (checkRequirements_ok_iff order').2 hclosed
  simp only [setFromStr, hactions, mapM_ofValue, hlist, hcheck, bind, Except.bind, pure, Except.pure]

end BuildTarget

end Glci

namespace Tkn

open Template AllParams
open GardenFeat (bind_ok_iff)
open Glci (GardenlinuxFlavour BuildTarget EpochArg CallOrders generateTaskName)

/-! ## The run -/

/-- The arguments of the command line. -/
structure RunArgs where
  additionalRecipients : String
  branch : String
  cicdCfg : String
  committish : String
  disableNotifications : Bool
  flavourSet : String
  gardenlinuxBaseImage : Option String
  gardenlinuxEpoch : EpochArg
  gitUrl : String
  ociPath : String
  onlyRecipients : String
  prId : String
  promoteTarget : String
  pytestCfg : String
  buildTargets : Finset BuildTarget
  version : Option String

inductive RunError
  | valueError
  | workingTree
  | notFound (flavourSetName : String)
  | buildTarget (e : BuildTarget.Error)
  | epochError (e : Glci.EpochError)

/-- What a run is made with: the version of the working tree, `parse_to_semver` with the major
and the minor number, the snapshot of an epoch, the seconds since the epoch, the names of the
flavour sets, and the order in which Python lists a set of targets. -/
structure RunEnv where
  nextReleaseVersion : Except RunError String
  parseToSemver : String → Except RunError (ℕ × ℕ)
  snapshotDate : ℤ → Except Glci.EpochError String
  seconds : ℕ
  flavourSets : List String
  order : Enumeration BuildTarget

/-- `get_version`. -/
def getVersion (env : RunEnv) (args : RunArgs) : Except RunError String :=
  match args.version with
  | some version => if version = "" then env.nextReleaseVersion else .ok version
  | none => env.nextReleaseVersion

/-- `get_version_label`. -/
def getVersionLabel (version committish : String) : String := version ++ "-" ++ committish

/-- `get_build_image`. -/
def getBuildImage (ociPath versionLabel : String) : String :=
  ociPath ++ "/gardenlinux-build-image:" ++ versionLabel

/-- `get_deb_build_image`. -/
def getDebBuildImage (ociPath versionLabel : String) : String :=
  ociPath ++ "/gardenlinux-build-deb:" ++ versionLabel

/-- The images next to the one that is given. -/
def forcedImages (image : String) : Except RunError (String × String) :=
  match image.toList.splitOn ':' with
  | [path, label] => .ok (String.ofList path ++ "/gardenlinux-build-deb:" ++ String.ofList label,
      String.ofList path ++ "/gardenlinux-build-image:" ++ String.ofList label)
  | _ => .error .valueError

/-- The images to build with: those of the arguments, or those of the release. -/
def baseImages (env : RunEnv) (args : RunArgs) (versionLabel : String) :
    Except RunError (String × String) := do
  let (major, minor) ← env.parseToSemver versionLabel
  let baseVersionLabel := if 0 < minor then "rel-" ++ toString major else "latest"
  match args.gardenlinuxBaseImage.filter (· ≠ "") with
  | some image => forcedImages image
  | none => pure (getDebBuildImage args.ociPath baseVersionLabel,
      getBuildImage args.ociPath baseVersionLabel)

/-- `snapshot_date` of the epoch of the arguments. -/
def snapshotTimestamp (env : RunEnv) (epoch : EpochArg) : Except RunError String :=
  match epoch.number with
  | some n => (env.snapshotDate n).mapError .epochError
  | none => .error .valueError

/-- `get_common_parameters`. -/
def getCommonParameters (env : RunEnv) (args : RunArgs) :
    Except RunError (List (String × List Char)) := do
  let version ← getVersion env args
  let versionLabel := getVersionLabel version args.committish
  let (debImage, image) ← baseImages env args versionLabel
  let snapshot ← snapshotTimestamp env args.gardenlinuxEpoch
  pure [("additional_recipients", args.additionalRecipients.toList),
    ("branch", args.branch.toList), ("build_image", image.toList),
    ("cicd_cfg_name", args.cicdCfg.toList), ("committish", args.committish.toList),
    ("disable_notifications",
      (if args.disableNotifications then "True" else "False").toList),
    ("gardenlinux_build_deb_image", debImage.toList),
    ("gardenlinux_epoch", args.gardenlinuxEpoch.format), ("giturl", args.gitUrl.toList),
    ("oci_path", args.ociPath.toList), ("only_recipients", args.onlyRecipients.toList),
    ("pr_id", args.prId.toList),
    ("build_targets", (BuildTarget.join (env.order.list args.buildTargets)).toList),
    ("snapshot_timestamp", snapshot.toList), ("version", version.toList),
    ("version_label", versionLabel.toList)]

/-- `_build_targets_shorthand`. -/
def buildTargetsShorthand (targets : Finset BuildTarget) : List Char :=
  [(BuildTarget.build, 'b'), (.manifest, 'm'), (.componentDescriptor, 'c'), (.tests, 't'),
    (.publish, 'p'), (.freezeVersion, 'v'), (.githubRelease, 'g')].filterMap fun entry =>
      if entry.1 ∈ targets then some entry.2 else none

/-- `mk_pipeline_name`. -/
def mkPipelineName (env : RunEnv) (pipelineName : String) (targets : Finset BuildTarget)
    (version committish : String) : String :=
  let seconds := Nat.toDigits 10 env.seconds
  let buildTs := seconds.drop (seconds.length - 4)
  let version := version.toList.map fun c => if c = '.' then '-' else c
  let parts :=
    if targets.Nonempty then
      [pipelineName.toList.take 11, buildTargetsShorthand targets, version,
        committish.toList.take 6, buildTs]
    else [pipelineName.toList.take 11, version, committish.toList.take 6, buildTs]
  String.ofList ((['-'].intercalate parts).take 60)

/-- `mk_pipeline_run`; the namespace is that in which the run is started. -/
def mkPipelineRun (env : RunEnv) (runNamespace pipelineName : String) (args : RunArgs)
    (params : List (String × List Char)) : Except RunError PipelineRun := do
  let version ← getVersion env args
  let name := mkPipelineName env pipelineName args.buildTargets version args.committish
  (BuildTarget.checkRequirements env.order args.buildTargets).mapError .buildTarget
  pure ⟨name, runNamespace, params⟩

/-- `mk_pipeline_packages_run`. -/
def mkPipelinePackagesRun (env : RunEnv) (runNamespace : String) (args : RunArgs) :
    Except RunError PipelineRun := do
  let params ← getCommonParameters env args
  mkPipelineRun env runNamespace "gl-packages-build" args
    (params ++ [("key_config_name", "gardenlinux".toList)])

/-- `flavour_set` of `ci/glci/util.py`, of which a run only needs the name. -/
def flavourSet (env : RunEnv) (flavourSetName : String) : Except RunError String :=
  if flavourSetName ∈ env.flavourSets then .ok flavourSetName else .error (.notFound flavourSetName)

/-- `mk_pipeline_main_run`. -/
def mkPipelineMainRun (env : RunEnv) (runNamespace : String) (args : RunArgs) :
    Except RunError PipelineRun := do
  let flavourSet ← flavourSet env args.flavourSet
  let params ← getCommonParameters env args
  mkPipelineRun env runNamespace "gardenlinux-build" args
    (params ++ [("flavour_set_name", flavourSet.toList),
      ("promote_target", args.promoteTarget.toList), ("pytest_cfg", args.pytestCfg.toList)])

/-! ## What a run supplies -/

/-- What `get_common_parameters` gives values to. -/
def commonNames : List String :=
  ["additional_recipients", "branch", "build_image", "cicd_cfg_name", "committish",
    "disable_notifications", "gardenlinux_build_deb_image", "gardenlinux_epoch", "giturl",
    "oci_path", "only_recipients", "pr_id", "build_targets", "snapshot_timestamp", "version",
    "version_label"]

section Supplied

variable {env : RunEnv} {args : RunArgs} {run : PipelineRun} {runNamespace : String}

theorem names_of_getCommonParameters_ok {params : List (String × List Char)}
    (h : getCommonParameters env args = .ok params) : params.map Prod.fst = commonNames := by
  obtain ⟨version, -, h⟩ := bind_ok_iff.1 h
  obtain ⟨⟨debImage, image⟩, -, h⟩ := bind_ok_iff.1 h
  obtain ⟨snapshot, -, h⟩ := bind_ok_iff.1 h
  obtain rfl := Except.ok.inj h
  rfl

/-- Some of the values of a run. -/
structure CommonValues (env : RunEnv) (args : RunArgs) (params : List (String × List Char)) :
    Prop where
  committish : params.lookup "committish" = some args.committish.toList
  disableNotifications : params.lookup "disable_notifications" =
    some (if args.disableNotifications then "True" else "False").toList
  prId : params.lookup "pr_id" = some args.prId.toList
  buildTargets : params.lookup "build_targets" =
    some (BuildTarget.join (env.order.list args.buildTargets)).toList

theorem commonValues_of_ok {params : List (String × List Char)}
    (h : getCommonParameters env args = .ok params) (more : List (String × List Char)) :
    CommonValues env args (params ++ more) := by
  obtain ⟨version, -, h⟩ := bind_ok_iff.1 h
  obtain ⟨⟨debImage, image⟩, -, h⟩ := bind_ok_iff.1 h
  obtain ⟨snapshot, -, h⟩ := bind_ok_iff.1 h
  obtain rfl := Except.ok.inj h
  exact ⟨rfl, rfl, rfl, rfl⟩

/-- A run has the name and the parameters that it is made with, and its targets have all that
they require. -/
theorem of_mkPipelineRun_ok {pipelineName : String} {params : List (String × List Char)}
    (h : mkPipelineRun env runNamespace pipelineName args params = .ok run) :
    run.params = params ∧ BuildTarget.Closed args.buildTargets := by
  obtain ⟨version, -, h⟩ := bind_ok_iff.1 h
  obtain ⟨⟨⟩, hcheck, h⟩ := bind_ok_iff.1 h
  obtain rfl := Except.ok.inj h
  exact ⟨rfl, (BuildTarget.checkRequirements_ok_iff _).1 (mapError_ok_iff.1 hcheck)⟩

theorem lookup_isSome_iff {α : Type} {l : List (String × α)} {name : String} :
    (l.lookup name).isSome ↔ name ∈ l.map Prod.fst := by
  rw [List.lookup_isSome_iff, List.mem_map]
  exact exists_congr fun entry => and_congr_right' (by rw [beq_iff_eq, eq_comm])

theorem value_isSome {param : NamedParam}
    (h : param.default?.isSome ∨ param.name ∈ run.params.map Prod.fst) :
    (run.value param).isSome := by
  rw [PipelineRun.value, Option.isSome_or, Bool.or_eq_true, Option.isSome_map, lookup_isSome_iff]
  exact h.symm

theorem commonValues_mainRun (h : mkPipelineMainRun env runNamespace args = .ok run) :
    CommonValues env args run.params ∧ BuildTarget.Closed args.buildTargets := by
  obtain ⟨flavourSet, -, h⟩ := bind_ok_iff.1 h
  obtain ⟨params, hparams, h⟩ := bind_ok_iff.1 h
  obtain ⟨hrun, hclosed⟩ := of_mkPipelineRun_ok h
  exact ⟨hrun ▸ commonValues_of_ok hparams _, hclosed⟩

theorem of_mkPipelineMainRun_ok (h : mkPipelineMainRun env runNamespace args = .ok run) :
    run.params.map Prod.fst = commonNames ++ ["flavour_set_name", "promote_target", "pytest_cfg"] := by
  obtain ⟨flavourSet, -, h⟩ := bind_ok_iff.1 h
  obtain ⟨params, hparams, h⟩ := bind_ok_iff.1 h
  rw [(of_mkPipelineRun_ok h).1, List.map_append, names_of_getCommonParameters_ok hparams]
  rfl

theorem of_mkPipelinePackagesRun_ok (h : mkPipelinePackagesRun env runNamespace args = .ok run) :
    run.params.map Prod.fst = commonNames ++ ["key_config_name"] := by
  obtain ⟨params, hparams, h⟩ := bind_ok_iff.1 h
  rw [(of_mkPipelineRun_ok h).1, List.map_append, names_of_getCommonParameters_ok hparams]
  rfl

end Supplied

/-! ## The run for a release of `gcp` -/

/-- Scripts without content. -/
def emptyScripts : Checkout := ⟨"/ci".toList, fun _ => some [], none⟩

noncomputable def anyOrder {α : Type} : Enumeration α where
  list := Finset.toList
  nodup := Finset.nodup_toList
  mem_list _ _ := Finset.mem_toList

/-- The values are put in as they are listed, and a result has its file below `/tekton`. -/
def tektonController : Controller where
  toSubstitution := oneByOne id fun _ => .refl _
  resultPath name := "/tekton/results/".toList ++ name.toList
  resultPath_passable := by
    simp only [List.forall_mem_cons, List.not_mem_nil, false_implies, implies_true, and_true]
    exact ⟨fun scriptType => by cases scriptType <;> exact List.all_eq_true.1 (by decide),
      fun scriptType => by cases scriptType <;> exact List.all_eq_true.1 (by decide)⟩

def releaseEnv : RunEnv where
  nextReleaseVersion := .ok "576.1"
  parseToSemver _ := .ok (576, 1)
  snapshotDate _ := .ok "20211028"
  seconds := 1650000000
  flavourSets := ["all"]
  order := .sortedOn BuildTarget.value fun target target' h => by
    cases target <;> cases target' <;> first | rfl | exact absurd h (by decide)

def releaseArgs : RunArgs where
  additionalRecipients := " "
  branch := "rel-576"
  cicdCfg := "default"
  committish := "0123456789"
  disableNotifications := false
  flavourSet := "all"
  gardenlinuxBaseImage := none
  gardenlinuxEpoch := .int 576
  gitUrl := "https://github.com/gardenlinux/gardenlinux.git"
  ociPath := "eu.gcr.io/gardenlinux"
  onlyRecipients := " "
  prId := "0"
  promoteTarget := "release"
  pytestCfg := "default"
  buildTargets := [BuildTarget.build, .manifest].toFinset
  version := none

theorem checkRequirements_release :
    BuildTarget.checkRequirements releaseEnv.order releaseArgs.buildTargets = .ok () :=
  (BuildTarget.checkRequirements_ok_iff _).2 fun target htarget required hrequired => by
    cases target <;> cases required <;>
      first
        | decide
        | exact absurd htarget (by decide)
        | exact absurd hrequired (by decide)

theorem plain_of_all {l : List (String × List Char)}
    (h : l.all fun param => param.2.all isPlainChar) : ∀ param ∈ l, Plain param.2 :=
  fun param hparam => List.all_eq_true.1 (List.all_eq_true.1 h param hparam)

theorem mkPipelineMainRun_release :
    ∃ run, mkPipelineMainRun releaseEnv "gardenlinux" releaseArgs = .ok run ∧ run.Plain := by
  have hflavourSet : flavourSet releaseEnv releaseArgs.flavourSet = .ok "all" := if_pos (by decide)
  refine ⟨_, bind_ok_iff.2 ⟨"all", hflavourSet, bind_ok_iff.2 ⟨_, rfl, bind_ok_iff.2 ⟨"576.1", rfl,
    bind_ok_iff.2 ⟨(), mapError_ok_iff.2 checkRequirements_release, rfl⟩⟩⟩⟩, ?_, ?_, ?_⟩
  · exact List.all_eq_true.1 (by decide +kernel)
  · exact List.all_eq_true.1 (by decide +kernel)
  · exact plain_of_all (by decide +kernel)

theorem mkPipelinePackagesRun_release :
    ∃ run, mkPipelinePackagesRun releaseEnv "gardenlinux" releaseArgs = .ok run ∧ run.Plain := by
  refine ⟨_, bind_ok_iff.2 ⟨_, rfl, bind_ok_iff.2 ⟨"576.1", rfl,
    bind_ok_iff.2 ⟨(), mapError_ok_iff.2 checkRequirements_release, rfl⟩⟩⟩, ?_, ?_, ?_⟩
  · exact List.all_eq_true.1 (by decide +kernel)
  · exact List.all_eq_true.1 (by decide +kernel)
  · exact plain_of_all (by decide +kernel)

def gcpFlavour : GardenlinuxFlavour :=
  ⟨.amd64, "gcp", ["base", "cloud", "server", "_nopkg", "_slim"]⟩

theorem getModifierNames_gcp : Glci.getModifierNames (fun _ _ => .sorted) Glci.repositoryConfig
    gcpFlavour = .ok "_nopkg,_slim,base,cloud,server" := by
  decide +kernel

theorem plain_gcp : PlainFlavour (fun _ _ => .sorted) Glci.repositoryConfig gcpFlavour where
  platform := List.all_eq_true.1 (by decide +kernel)
  modifiers := by
    have hall : gcpFlavour.modifiers.all fun modifier => modifier.toList.all isTaskChar := by
      decide +kernel
    exact fun modifier hmem => List.all_eq_true.1 (List.all_eq_true.1 hall modifier hmem)
  names := by
    rw [modifierNames, getModifierNames_gcp]
    exact List.all_eq_true.1 (by decide +kernel)

theorem renderTask_emptyScripts : ∃ tasks, renderTask anyOrder emptyScripts = .ok tasks :=
  (renderTask_ok_iff _ _).2 fun _ _ _ _ => rfl

theorem plain_succeeded (_ : String) : Plain "Succeeded".toList := List.all_eq_true.1 (by decide)

section Main

variable {tkn : Controller} {orders : CallOrders} {order : Enumeration GardenlinuxFlavour}
  {platformOrder : Enumeration String} {paramOrder : Enumeration NamedParam}
  {config : Glci.Config} {checkout : Checkout} {allTasks : List Task}
  {flavours : List GardenlinuxFlavour} {pipeline : Pipeline} {env : RunEnv} {args : RunArgs}
  {run : PipelineRun} {runNamespace : String}

/-- A run of the pipeline of the flavours has a value for all that the pipeline declares. -/
theorem supplied_mainRun (hrender : renderTask paramOrder checkout = .ok allTasks)
    (hpipeline : mkPipeline orders order platformOrder paramOrder config flavours allTasks
      .snapshot = .ok pipeline)
    (hrun : mkPipelineMainRun env runNamespace args = .ok run) :
    ∀ param ∈ pipeline.params, (run.value param).isSome := by
  have hmain := of_mkPipeline_ok hpipeline
  have hall : ∀ source ∈ taskSources noPatch,
      source.name ∈ ["notify-task", "build-baseimage", "build-gardenlinux-task",
        "integration-test-task", "promote-gardenlinux-task"] →
      ∀ param ∈ source.allParams, param ∉ specialParams → param.default?.isSome ∨
        param.name ∈ commonNames ++ ["flavour_set_name", "promote_target", "pytest_cfg"] := by
    decide
  intro param hparam
  obtain ⟨hleft, source, hsource, hname, hmem⟩ := source_of_declared hrender nodup_specialParams
    hmain.params hmain.taskRefs hparam
  refine value_isSome ?_
  rw [of_mkPipelineMainRun_ok hrun]
  exact hall source hsource hname param hmem hleft

variable (tkn) in
/-- From the arguments of the command line to the calls of all steps. -/
theorem mainRun_calls (hrender : renderTask paramOrder checkout = .ok allTasks)
    (hpipeline : mkPipeline orders order platformOrder paramOrder config flavours allTasks
      .snapshot = .ok pipeline)
    (hrun : mkPipelineMainRun env runNamespace args = .ok run)
    (hflavours : ∀ flavour ∈ flavours, PlainFlavour orders config flavour)
    (hplain : run.Plain) {status : String → List Char} (hstatus : ∀ name, Plain (status name)) :
    ∃ steps finallySteps,
      runPipeline tkn allTasks run pipeline status = some (steps, finallySteps) ∧
      List.Forall₂ (RunsJob tkn run)
        (mainJobs checkout run orders config (order.list flavours.toFinset)) steps ∧
      List.Forall₂ (RunsJob tkn run)
        [notifyJob checkout run pipeline status
          ((order.list flavours.toFinset).map (generateTaskName ""))
          (platformOrder.list ((order.list flavours.toFinset).map (·.platform)).toFinset)]
        finallySteps :=
  main_runs_jobs tkn hrender hpipeline hflavours hplain (supplied_mainRun hrender hpipeline hrun)
    hstatus

/-- The run for `gcp`. -/
theorem mainRun_calls_gcp :
    ∃ allTasks pipeline run steps finallySteps,
      mkPipelineMainRun releaseEnv "gardenlinux" releaseArgs = .ok run ∧
      runPipeline tektonController allTasks run pipeline (fun _ => "Succeeded".toList) =
        some (steps, finallySteps) ∧
      List.Forall₂ (RunsJob tektonController run) (mainJobs emptyScripts run (fun _ _ => .sorted)
        Glci.repositoryConfig (GardenlinuxFlavour.sorted.list [gcpFlavour].toFinset)) steps := by
  obtain ⟨allTasks, hrender⟩ := renderTask_emptyScripts
  obtain ⟨pipeline, hpipeline⟩ := (mkPipeline_ok_iff GardenlinuxFlavour.sorted .sorted
    hrender).2 ⟨List.cons_ne_nil _ _,
      List.forall_mem_singleton.2 ⟨_, getModifierNames_gcp⟩⟩
  obtain ⟨run, hrun, hplain⟩ := mkPipelineMainRun_release
  obtain ⟨steps, finallySteps, hsteps, hjobs, -⟩ := mainRun_calls tektonController hrender
    hpipeline hrun (List.forall_mem_singleton.2 plain_gcp) hplain plain_succeeded
  exact ⟨allTasks, pipeline, run, steps, finallySteps, hrun, hsteps, hjobs⟩

/-- A run of the pipeline of the packages has a value for all that the pipeline declares. -/
theorem supplied_packagesRun (hrender : renderTask paramOrder checkout = .ok allTasks)
    (hpipeline : mkPipelinePackages paramOrder allTasks = .ok pipeline)
    (hrun : mkPipelinePackagesRun env runNamespace args = .ok run) :
    ∀ param ∈ pipeline.params, (run.value param).isSome := by
  have hpackages := of_mkPipelinePackages_ok hpipeline
  have hall : ∀ source ∈ taskSources noPatch,
      source.name ∈ ["notify-task", "build-baseimage", "build-packages", "build-kernel-packages"] →
      ∀ param ∈ source.allParams, param ∉ specialPackageParams → param.default?.isSome ∨
        param.name ∈ commonNames ++ ["key_config_name"] := by
    decide
  intro param hparam
  obtain ⟨hleft, source, hsource, hname, hmem⟩ := source_of_declared hrender
    nodup_specialPackageParams hpackages.params hpackages.taskRefs hparam
  refine value_isSome ?_
  rw [of_mkPipelinePackagesRun_ok hrun]
  exact hall source hsource hname param hmem hleft

variable (tkn) in
/-- The same for the packages, whose pipeline does not depend on the arguments. -/
theorem packagesRun_calls (hrender : renderTask paramOrder checkout = .ok allTasks)
    (hrun : mkPipelinePackagesRun env runNamespace args = .ok run) (hplain : run.Plain)
    {status : String → List Char} (hstatus : ∀ name, Plain (status name)) :
    ∃ pipeline, mkPipelinePackages paramOrder allTasks = .ok pipeline ∧
      ∃ steps finallySteps,
        runPipeline tkn allTasks run pipeline status = some (steps, finallySteps) ∧
        List.Forall₂ (RunsJob tkn run) (packagesJobs checkout run) steps ∧
        List.Forall₂ (RunsJob tkn run) [notifyJob checkout run pipeline status [] []]
          finallySteps := by
  obtain ⟨pipeline, hpipeline⟩ := mkPipelinePackages_ok paramOrder hrender
  exact ⟨pipeline, hpipeline, packages_run_jobs tkn hrender hpipeline hplain
    (supplied_packagesRun hrender hpipeline hrun) hstatus⟩

theorem packagesRun_calls_release :
    ∃ allTasks run pipeline steps finallySteps,
      mkPipelinePackagesRun releaseEnv "gardenlinux" releaseArgs = .ok run ∧
      runPipeline tektonController allTasks run pipeline (fun _ => "Succeeded".toList) =
        some (steps, finallySteps) ∧
      List.Forall₂ (RunsJob tektonController run) (packagesJobs emptyScripts run) steps := by
  obtain ⟨allTasks, hrender⟩ := renderTask_emptyScripts
  obtain ⟨run, hrun, hplain⟩ := mkPipelinePackagesRun_release
  obtain ⟨pipeline, -, steps, finallySteps, hsteps, hjobs, -⟩ :=
    packagesRun_calls tektonController hrender hrun hplain plain_succeeded
  exact ⟨allTasks, run, pipeline, steps, finallySteps, hrun, hsteps, hjobs⟩

end Main

end Tkn
