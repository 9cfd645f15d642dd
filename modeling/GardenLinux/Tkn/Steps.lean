import GardenLinux.Tkn.Params

/-!
# The steps of the tasks

`ci/steps.py`: a step runs a script from the directory `steps`, at the end of which
`task_step_script` writes a call that passes the parameters of the step on.  The parameters are
references, which tekton replaces by their values before it runs the script.
-/

namespace Tkn

open Template
open Bash (squote dquote)

inductive ScriptType
  | bourneShell
  | python3
  deriving DecidableEq, Repr

inductive StepError
  | valueError
  | unboundLocalError
  | fileNotFoundError (path : String)
  deriving DecidableEq, Repr

/-- What the scripts are made of: the directory of the scripts, the files in its directory
`steps`, and the patch if one is asked for. -/
structure Checkout where
  scriptsDir : List Char
  files : String → Option (List Char)
  patch : Option (List Char)

/-- `extend_python_path_snippet`. -/
def extendPythonPathSnippet (scriptsDir : List Char) (param : NamedParam) : List Char :=
  "sys.path.insert(1,os.path.abspath(os.path.join(\"".toList ++ reference param.key ++
    "\",\"".toList ++ scriptsDir ++ "\")))".toList

/-- `param.name.replace('-', '_')`. -/
def pyName (name : String) : List Char := name.toList.map fun c => if c = '-' then '_' else c

/-- The arguments of a call in the Python language. -/
def pythonArgs (params results : List NamedParam) : List Char :=
  let args := [','].intercalate (params.map fun param =>
    pyName param.name ++ '=' :: squote :: (reference param.key ++ [squote]))
  if results = [] then args
  else args ++ ',' :: [','].intercalate (results.map fun result =>
    pyName result.name ++ '=' :: squote :: (reference result.pathKey ++ [squote]))

/-- The arguments of a command; those of the results take the place of those of the
parameters. -/
def shellArgs (params results : List NamedParam) : List Char :=
  if results = [] then
    [' '].intercalate (params.map fun param => dquote :: (reference param.key ++ [dquote]))
  else
    ' ' :: [' '].intercalate (results.map fun result =>
      dquote :: (reference result.pathKey ++ [dquote]))

/-- `callable_str`. -/
def callableStr (scriptType : ScriptType) (callable : String) (params results : List NamedParam) :
    List Char :=
  match scriptType with
  | .python3 => callable.toList ++ '(' :: (pythonArgs params results ++ [')'])
  | .bourneShell => callable.toList ++ ' ' :: shellArgs params results

def shebang : ScriptType → List Char
  | .python3 => "#!/usr/bin/env python3".toList
  | .bourneShell => "#!/usr/bin/env bash".toList

def preamble (checkout : Checkout) (scriptType : ScriptType)
    (repoPathParam : Option NamedParam) : List Char :=
  match scriptType, repoPathParam with
  | .python3, some param =>
    "import sys,os;".toList ++ extendPythonPathSnippet checkout.scriptsDir param
  | _, _ => []

/-- `if path and inline_script`, and the script that is read. -/
def scriptText (checkout : Checkout) (path : Option String) (inlineScript : Option (List Char)) :
    Except StepError (List Char) :=
  match path, inlineScript with
  | some _, some _ => .error .valueError
  | some path, none =>
    match checkout.files path with
    | some script => .ok script
    | none => .error (.fileNotFoundError path)
  | none, some script => .ok script
  | none, none => .error .unboundLocalError

/-- `task_step_script`. -/
def taskStepScript (checkout : Checkout) (scriptType : ScriptType) (callable : String)
    (params results : List NamedParam) (repoPathParam : Option NamedParam) (path : Option String)
    (inlineScript additionalPrefix : Option (List Char)) : Except StepError (List Char) := do
  let script ← scriptText checkout path inlineScript
  let script := match additionalPrefix with
    | some code => "\n\n".toList ++ code ++ "\n\n".toList ++ script
    | none => script
  let lines := [shebang scriptType, preamble checkout scriptType repoPathParam, script]
  pure (['\n'].intercalate
    (if callable = "" then lines else lines ++ [callableStr scriptType callable params results]))

/-! ## The steps -/

structure TaskStep where
  name : String
  image : String
  script : List Char
  deriving DecidableEq, Repr

/-- What a step is made from: its script, and what is passed to its function. -/
structure StepSource where
  name : String
  image : String
  file : String
  scriptType : ScriptType
  callable : String
  params : List NamedParam
  results : List NamedParam
  repoPathParam : Option NamedParam
  additionalPrefix : Option (List Char)

def StepSource.step (checkout : Checkout) (source : StepSource) : Except StepError TaskStep := do
  let script ← taskStepScript checkout source.scriptType source.callable source.params
    source.results source.repoPathParam (some source.file) none source.additionalPrefix
  pure ⟨source.name, source.image, script⟩

section Sources

open AllParams AllResults

def imageVersion : String := "1.1544.0"

def defaultImage : String := "eu.gcr.io/gardener-project/cc/job-image:" ++ imageVersion

def kanikoImage : String := "eu.gcr.io/gardener-project/cc/job-image-kaniko:" ++ imageVersion

/-- The code in front of the script of `clone_step`. -/
def codePrefix (checkout : Checkout) : List Char :=
  match checkout.patch with
  | some patch =>
    "PATCH_CONTENT='''\\\n".toList ++ patch ++ "'''\n".toList
  | none => "PATCH_CONTENT=''".toList

def cloneStep (checkout : Checkout) : StepSource where
  name := "clone-repo-step"
  image := defaultImage
  file := "clone_repo_step.py"
  scriptType := .python3
  callable := "clone_and_copy"
  params := [committish, giturl, repoDir, prId]
  results := []
  repoPathParam := some repoDir
  additionalPrefix := some (codePrefix checkout)

def statusStep : StepSource where
  name := "update-status-step"
  image := defaultImage
  file := "update_status.py"
  scriptType := .python3
  callable := "update_status"
  params := [committish, giturl, pipelineRunName, namespaceParam]
  results := []
  repoPathParam := some repoDir
  additionalPrefix := none

def uploadResultsStep : StepSource where
  name := "upload-results"
  image := defaultImage
  file := "upload_results_step.py"
  scriptType := .python3
  callable := "upload_results_step"
  params := [architecture, cicdCfgName, committish, gardenlinuxEpoch, modifiers, outfile,
    platform, buildTargets, version, buildImage]
  results := [buildResult]
  repoPathParam := some repoDir
  additionalPrefix := none

def promoteSingleStep : StepSource where
  name := "promote-step"
  image := defaultImage
  file := "promote_step.py"
  scriptType := .python3
  callable := "promote_single_step"
  params := [architecture, cicdCfgName, committish, gardenlinuxEpoch, modifiers, platform,
    buildTargets, version]
  results := []
  repoPathParam := some repoDir
  additionalPrefix := none

def promoteStep : StepSource where
  name := "finalise-promotion-step"
  image := defaultImage
  file := "promote_step.py"
  scriptType := .python3
  callable := "promote_step"
  params := [cicdCfgName, committish, flavourSetName, gardenlinuxEpoch, promoteTarget,
    buildTargets, version]
  results := [manifestSetKeyResult]
  repoPathParam := some repoDir
  additionalPrefix := none

def preBuildStep : StepSource where
  name := "prebuild-step"
  image := defaultImage
  file := "pre_build_step.py"
  scriptType := .python3
  callable := "pre_build_step"
  params := [architecture, cicdCfgName, committish, gardenlinuxEpoch, modifiers, platform,
    buildTargets, version]
  results := []
  repoPathParam := some repoDir
  additionalPrefix := none

def releaseStep : StepSource where
  name := "release-step"
  image := defaultImage
  file := "release_step.py"
  scriptType := .python3
  callable := "release_step"
  params := [buildTargets, cicdCfgName, committish, ctxRepositoryConfigName, flavourSetName,
    gardenlinuxEpoch, giturl, repoDir, version]
  results := []
  repoPathParam := some repoDir
  additionalPrefix := none

def writeKeyStep : StepSource where
  name := "write-key"
  image := defaultImage
  file := "write_key.py"
  scriptType := .python3
  callable := "write_key"
  params := [repoDir, keyConfigName]
  results := []
  repoPathParam := some repoDir
  additionalPrefix := none

def buildCertStep : StepSource where
  name := "build-cert"
  image := "$(params.gardenlinux_build_deb_image)"
  file := "build_cert.sh"
  scriptType := .bourneShell
  callable := "build_cert"
  params := [repoDir]
  results := []
  repoPathParam := some repoDir
  additionalPrefix := none

def buildPackageStep : StepSource where
  name := "build-package"
  image := "$(params.gardenlinux_build_deb_image)"
  file := "build_package.sh"
  scriptType := .bourneShell
  callable := "build_package"
  params := [repoDir, pkgName]
  results := []
  repoPathParam := none
  additionalPrefix := none

def buildKernelPackageStep : StepSource where
  name := "build-package"
  image := "$(params.gardenlinux_build_deb_image)"
  file := "build_kernel_package.sh"
  scriptType := .bourneShell
  callable := "build_kernel_package"
  params := [repoDir, pkgNames]
  results := []
  repoPathParam := none
  additionalPrefix := none

def buildUploadPackagesStep : StepSource where
  name := "upload-packages-s3"
  image := defaultImage
  file := "upload_packages.py"
  scriptType := .python3
  callable := "upload_packages"
  params := [cicdCfgName, s3PackagePath]
  results := []
  repoPathParam := some repoDir
  additionalPrefix := none

def buildPublishPackagesRepositoryStep : StepSource where
  name := "publish-package-repository-s3"
  image := "$(params.gardenlinux_build_deb_image)"
  file := "publish_package_repository.py"
  scriptType := .python3
  callable := "main"
  params := [cicdCfgName, s3PackagePath]
  results := []
  repoPathParam := some repoDir
  additionalPrefix := none

def buildImageStep : StepSource where
  name := "build-image"
  image := "$(params.build_image)"
  file := "build_image.sh"
  scriptType := .bourneShell
  callable := "build_image"
  params := [suite, gardenlinuxEpoch, snapshotTimestamp, platform, modifiers, architecture,
    committish, version]
  results := []
  repoPathParam := some repoDir
  additionalPrefix := none

def buildBaseImageStep : StepSource where
  name := "basebuild"
  image := kanikoImage
  file := "build_base_image.py"
  scriptType := .python3
  callable := "build_base_image"
  params := [buildImage, gardenlinuxBuildDebImage, ociPath, repoDir, versionLabel, buildTargets]
  results := []
  repoPathParam := some repoDir
  additionalPrefix := none

def createComponentDescriptorStep : StepSource where
  name := "component-descriptor"
  image := defaultImage
  file := "component_descriptor.py"
  scriptType := .python3
  callable := "build_component_descriptor"
  params := [branch, buildTargets, cicdCfgName, committish, ctxRepositoryConfigName,
    flavourSetName, gardenlinuxEpoch, snapshotCtxRepositoryConfigName, version]
  results := []
  repoPathParam := some repoDir
  additionalPrefix := none

def notifyStep : StepSource where
  name := "notify-status"
  image := defaultImage
  file := "notify.py"
  scriptType := .python3
  callable := "send_notification"
  params := [additionalRecipients, branch, cicdCfgName, committish, disableNotifications, giturl,
    namespaceParam, onlyRecipients, pipelineName, pipelineRunName, repoDir, statusDictStr, prId]
  results := []
  repoPathParam := some repoDir
  additionalPrefix := none

def getLogsStep : StepSource where
  name := "get-logs"
  image := defaultImage
  file := "get_logs.py"
  scriptType := .python3
  callable := "getlogs"
  params := [repoDir, pipelineRunName, namespaceParam]
  results := []
  repoPathParam := some repoDir
  additionalPrefix := none

def preCheckTestsStep : StepSource where
  name := "pre-check-tests"
  image := defaultImage
  file := "pre_check_tests.py"
  scriptType := .python3
  callable := "pre_check_tests"
  params := [architecture, cicdCfgName, committish, gardenlinuxEpoch, modifiers, platform,
    buildTargets, version]
  results := []
  repoPathParam := some repoDir
  additionalPrefix := none

def testStep : StepSource where
  name := "run-tests"
  image := defaultImage
  file := "run_tests.py"
  scriptType := .python3
  callable := "run_tests"
  params := [architecture, cicdCfgName, committish, gardenlinuxEpoch, modifiers, platform,
    buildTargets, repoDir, snapshotTimestamp, suite, version, pytestCfg]
  results := []
  repoPathParam := some repoDir
  additionalPrefix := none

def uploadTestResultsStep : StepSource where
  name := "upload-test-results"
  image := defaultImage
  file := "upload_test_results.py"
  scriptType := .python3
  callable := "upload_test_results"
  params := [architecture, cicdCfgName, committish, gardenlinuxEpoch, modifiers, platform,
    buildTargets, repoDir, version]
  results := []
  repoPathParam := some repoDir
  additionalPrefix := none

def attachLogStep : StepSource where
  name := "upload-logs-step"
  image := defaultImage
  file := "attach_logs.py"
  scriptType := .python3
  callable := "upload_logs"
  params := [architecture, buildTasks, buildTargets, cicdCfgName, committish, flavourSetName,
    gardenlinuxEpoch, namespaceParam, pipelineRunName, platformSet, repoDir, version]
  results := []
  repoPathParam := some repoDir
  additionalPrefix := none

end Sources

/-- All steps of the file. -/
def stepSources (checkout : Checkout) : List StepSource :=
  [cloneStep checkout, statusStep, uploadResultsStep, promoteSingleStep, promoteStep, preBuildStep,
    releaseStep, writeKeyStep, buildCertStep, buildPackageStep, buildKernelPackageStep,
    buildUploadPackagesStep, buildPublishPackagesRepositoryStep, buildImageStep, buildBaseImageStep,
    createComponentDescriptorStep, notifyStep, getLogsStep, preCheckTestsStep, testStep,
    uploadTestResultsStep, attachLogStep]

/-- Nothing that a step declares depends on the patch. -/
def noPatch : Checkout := ⟨[], fun _ => none, none⟩

/-! ## What a step declares -/

section Known

open AllResults

/-- A name without hyphens is passed as it is. -/
theorem pyName_eq {name : String} (h : ∀ c ∈ name.toList, PyCall.isNameChar c) :
    pyName name = name.toList := by
  have hdash : ¬ PyCall.isNameChar '-' := by decide
  have hmap : ∀ c ∈ name.toList, (if c = '-' then '_' else c) = c := by
    intro c hc
    have hne : c ≠ '-' := by
      rintro rfl
      exact hdash (h _ hc)
    rw [if_neg hne]
  simpa [pyName] using List.map_congr_left hmap

/-- The names of parameters and results are names in the Python language. -/
theorem isName_of_known {param : NamedParam}
    (h : param ∈ knownParams ++ [buildResult, manifestSetKeyResult]) :
    PyCall.IsName param.name.toList := by
  have hall : ∀ param ∈ knownParams ++ [buildResult, manifestSetKeyResult],
      param.name.toList ≠ [] ∧ param.name.toList.all PyCall.isNameChar ∧
        (param.name.toList.head?.all fun c => !c.isDigit) ∧ param.name ∉ PyCall.reserved := by
    decide
  obtain ⟨hne, hchars, hdigit, hreserved⟩ := hall param h
  refine ⟨hne, List.all_eq_true.1 hchars, ?_, by rwa [String.ofList_toList]⟩
  simpa [Option.all_eq_true] using hdigit

/-- What holds of the steps without the patch holds of all, if `clone_step` keeps it. -/
@[elab_as_elim]
theorem of_mem_stepSources {P : StepSource → Prop} {checkout : Checkout} {source : StepSource}
    (h : source ∈ stepSources checkout)
    (hclone : P (cloneStep noPatch) → P (cloneStep checkout))
    (hall : ∀ source ∈ stepSources noPatch, P source) : P source := by
  rcases List.mem_cons.1 h with rfl | h
  · exact hclone (hall (cloneStep noPatch) List.mem_cons_self)
  · exact hall source (List.mem_cons_of_mem _ h)

theorem known_of_mem_stepSources {checkout : Checkout} {source : StepSource}
    (h : source ∈ stepSources checkout) :
    (∀ param ∈ source.params, param ∈ knownParams) ∧
      ∀ result ∈ source.results, result ∈ [buildResult, manifestSetKeyResult] := by
  refine of_mem_stepSources h ?_ ?_
  · exact fun hclone => hclone
  · decide

end Known

end Tkn
