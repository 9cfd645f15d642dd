import GardenLinux.Lib.Template
import GardenLinux.Lib.PyCall
import GardenLinux.Lib.Command

/-!
# Parameters of the pipeline

`NamedParam` of `ci/tkn/model.py`, and the parameters and results that the steps of the
pipeline share: `ci/params.py` and `ci/results.py`.
-/

namespace Tkn

/-- `_NamedParamBase`, `_NamedParamWithValue` and `_NamedParamWithDefault`. -/
inductive NamedParam
  | base (name : String)
  | withValue (name : String) (value : Option String)
  | withDefault (name default : String) (description : Option String)
  deriving DecidableEq, Repr

def NamedParam.name : NamedParam → String
  | .base name => name
  | .withValue name _ => name
  | .withDefault name _ _ => name

/-- The default of a parameter that a task or a pipeline declares. -/
def NamedParam.default? : NamedParam → Option String
  | .withDefault _ default _ => some default
  | _ => none

/-- The function `NamedParam`; without a default the description is lost. -/
def namedParam (name : String) (value default description : Option String) : NamedParam :=
  match value, default with
  | none, none => .base name
  | none, some default =>
    if default = "" then .withValue name none else .withDefault name default description
  | some value, _ => .withValue name (some value)

/-- The reference to a parameter is `$(params.name)`. -/
def NamedParam.key (param : NamedParam) : List Char := ("params." ++ param.name).toList

/-- A result is referred to by the file that a step writes it to. -/
def NamedParam.pathKey (result : NamedParam) : List Char :=
  ("results." ++ result.name ++ ".path").toList

/-! ## The parameters of all steps -/

namespace AllParams

def additionalRecipients : NamedParam := namedParam "additional_recipients" none none none

def architecture : NamedParam :=
  namedParam "architecture" none (some "amd64")
    (some "the build architecture (currently, only amd64 is supported)")

def branch : NamedParam := namedParam "branch" none none (some "branch of git repository")

def buildTasks : NamedParam :=
  namedParam "build_tasks" none (some "null")
    (some "comma separated list of all tasks building gardenlinux")

def buildImage : NamedParam :=
  namedParam "build_image" none none
    (some "the container image for gardenlinux build (dynamically created)")

def cicdCfgName : NamedParam := namedParam "cicd_cfg_name" none (some "default") none

def ctxRepositoryConfigName : NamedParam :=
  namedParam "ctx_repository_config_name" none (some "gardener-dev")
    (some "Name of the component-descriptor repository-context config to use")

def committish : NamedParam := namedParam "committish" none (some "main") (some "commit to build")

def disableNotifications : NamedParam :=
  namedParam "disable_notifications" none (some "false")
    (some "if true no notification emails are sent")

def flavourSetName : NamedParam :=
  namedParam "flavour_set_name" none (some "all")
    (some "the name of the flavour set this task is a part of")

def gardenlinuxBuildDebImage : NamedParam :=
  namedParam "gardenlinux_build_deb_image" none none (some "image to use for package build")

def giturl : NamedParam :=
  namedParam "giturl" none (some "ssh://git@github.com/gardenlinux/gardenlinux") none

def gardenlinuxEpoch : NamedParam :=
  namedParam "gardenlinux_epoch" none none
    (some "the gardenlinux epoch to use for as snapshot repo timestamp")

def keyConfigName : NamedParam :=
  namedParam "key_config_name" none (some "gardenlinux")
    (some "config name of the key to use for signing the packages")

def modifiers : NamedParam := namedParam "modifiers" none none (some "the build modifiers")

def namespaceParam : NamedParam :=
  namedParam "namespace" none none (some "Namespace of current pipeline run")

def ociPath : NamedParam :=
  namedParam "oci_path" none (some "eu.gcr.io/gardener-project/test/gardenlinux-test")
    (some "path in OCI-registry where to store output")

def onlyRecipients : NamedParam := namedParam "only_recipients" none none none

def outfile : NamedParam :=
  namedParam "outfile" none (some "/workspace/gardenlinux.out")
    (some "build result file (parameter is used to pass between steps)")

def pkgNames : NamedParam :=
  namedParam "pkg_names" none none (some "list of kernel-package to build (comma separated string)")

def pkgName : NamedParam := namedParam "pkg_name" none none (some "name of package to build")

def pipelineName : NamedParam :=
  namedParam "pipeline_name" none none (some "Namespace of current pipeline")

def pipelineRunName : NamedParam :=
  namedParam "pipeline_run_name" none none (some "Name of current pipeline run")

def platform : NamedParam :=
  namedParam "platform" none none (some "the target platform (aws, gcp, metal, kvm, ..)")

def platformSet : NamedParam :=
  namedParam "platform_set" none none
    (some "set of platforms built in this pipeline (aws, gcp, metal, kvm, ..)")

def buildTargets : NamedParam :=
  namedParam "build_targets" none (some "manifests")
    (some "how artifacts should be published (glci.model.BuildTarget)")

def pytestCfg : NamedParam :=
  namedParam "pytest_cfg" none (some "default")
    (some "configuration name of testsuite in file test_cfg.yaml")

def promoteTarget : NamedParam :=
  namedParam "promote_target" none (some "snapshots")
    (some "the promotion target (snapshots|daily|release)")

def repoDir : NamedParam :=
  namedParam "repo_dir" none (some "/workspace/gardenlinux_git") (some "Gardenlinux working dir")

def s3PackagePath : NamedParam :=
  namedParam "package_path_s3_prefix" none (some "packages/pool")
    (some "path relative to the root of the s3 bucket to upload the built packages to")

def snapshotCtxRepositoryConfigName : NamedParam :=
  namedParam "snapshot_ctx_repository_config_name" none (some "gardener-public")
    (some "Name of the snapshot component-descriptor repository-context config to use")

def snapshotTimestamp : NamedParam :=
  namedParam "snapshot_timestamp" none none
    (some "the snapshot timestamp (calculated from gardenlinux_epoch)")

def statusDictStr : NamedParam :=
  namedParam "status_dict_str" none (some "~") (some "JSON string with status for all tasks")

def suite : NamedParam :=
  namedParam "suite" none (some "bookworm") (some "Debian release (buster, bullseye, ..)")

def version : NamedParam :=
  namedParam "version" none none (some "the target version to build / release")

def versionLabel : NamedParam :=
  namedParam "version_label" none none (some "version label uses as tag for upload")

def prId : NamedParam := namedParam "pr_id" none none (some "The PR-id for PR-builds")

end AllParams

namespace AllResults

def buildResult : NamedParam :=
  namedParam "build_result" none none (some "manifest key if build was successful")

def manifestSetKeyResult : NamedParam :=
  namedParam "manifest_set_key_result" none none
    (some "s3 key with timestamp when manifest-set is created")

end AllResults

/-! ## All of them -/

open AllParams

/-- All parameters that a task can have. -/
def knownParams : List NamedParam :=
  [additionalRecipients, architecture, branch, buildTasks, buildImage, cicdCfgName,
    ctxRepositoryConfigName, committish, disableNotifications, flavourSetName,
    gardenlinuxBuildDebImage, giturl, gardenlinuxEpoch, keyConfigName, modifiers, namespaceParam,
    ociPath, onlyRecipients, outfile, pkgNames, pkgName, pipelineName, pipelineRunName, platform,
    platformSet, buildTargets, pytestCfg, promoteTarget, repoDir, s3PackagePath,
    snapshotCtxRepositoryConfigName, snapshotTimestamp, statusDictStr, suite, version,
    versionLabel, prId]

/-- The names tell the parameters apart. -/
theorem nodup_knownParams : (knownParams.map (·.name)).Nodup := by decide

theorem eq_of_name_eq {p q : NamedParam} (hp : p ∈ knownParams) (hq : q ∈ knownParams)
    (h : p.name = q.name) : p = q :=
  List.inj_on_of_nodup_map nodup_knownParams hp hq h

end Tkn
