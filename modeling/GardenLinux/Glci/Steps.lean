import GardenLinux.Lib.Process
import GardenLinux.Glci.Bucket

/-!
# The steps that edit a manifest

`promote_single_step`, `upload_test_results` and `_attach_logs_to_single_manifest` of
`ci/steps` as processes: between two calls to S3 other processes may make theirs.  Each of
them reads the manifest of a release, replaces one attribute of it, and writes the whole
manifest back.

What is proved here:

* `Steps.findRelease_eval` — running alone, `find_release` is the function on the bucket;
* `ManifestStep.overwrites` — a step's edit replaces its attribute and nothing else;
* `ManifestStep.rewrites` and `ManifestStep.safe` — whatever a step writes is its edit of
  the manifest that it read last, under a key of this manifest.
-/

namespace Glci

open GardenFeat

/-! ## Calls to S3 -/

inductive S3Call
  | getObject (key : String)
  | putObject (key : String) (object : S3Object)

@[reducible] def s3 : Interface where
  Call := S3Call
  Answer
    | .getObject _ => Option S3Object
    | .putObject _ _ => Unit

/-- Reads and writes of whole objects, the last writer wins. -/
def s3Service : Service s3 Bucket where
  perform bucket
    | .getObject key => (bucket.lookup key, bucket)
    | .putObject key object => ((), bucket.insert key object)

/-- How a step ends before its last line. -/
inductive Exit
  | sysExit (code : ℕ)
  | modelError (e : ModelError)
  | publishError (text : String)
  deriving DecidableEq

abbrev Step := ExceptT Exit (Process s3)

def S3Call.key : S3Call → String
  | .getObject key => key
  | .putObject key _ => key

/-- Whether a step has ended without an error. -/
def succeeded : Process s3 (Except Exit Unit) → Bool
  | .done (.ok _) => true
  | .done (.error (.sysExit 0)) => true
  | _ => false

namespace Steps

def ofModel {α : Type} (r : Except ModelError α) : Step α :=
  ExceptT.mk (.done (r.mapError .modelError))

/-- `release_manifest`. -/
def releaseManifest (bucketName key : String) (absentOk : Bool) :
    Step (Option OnlineReleaseManifest) := do
  let object ← ExceptT.lift (Process.perform (I := s3) (.getObject key))
  ofModel (deserialise bucketName key absentOk object)

/-- `upload_release_manifest`. -/
def uploadReleaseManifest (key : String) (manifest : OnlineReleaseManifest) : Step Unit :=
  ExceptT.lift (Process.perform (I := s3) (.putObject key (.manifest manifest)))

/-- `find_release`. -/
def findRelease (orders : FindOrders) (upper : String → String) (allFeatures : FeatureSet)
    (bucketName : String) (releaseIdentifier : ReleaseIdentifier) :
    Step (Option OnlineReleaseManifest) := do
  let key ← ofModel (releaseIdentifier.canonicalReleaseManifestKey orders.key upper allFeatures)
  match ← releaseManifest bucketName key true with
  | none => pure none
  | some manifest => do
    let found ← ofModel
      (normalisedReleaseIdentifier orders.found upper allFeatures manifest.releaseIdentifier)
    let searched ← ofModel
      (normalisedReleaseIdentifier orders.searched upper allFeatures releaseIdentifier)
    pure (if found = searched then some manifest else none)

end Steps

/-! ## The attributes of a manifest -/

def OnlineReleaseManifest.withTestResult (m : OnlineReleaseManifest)
    (testResult : ReleaseTestResult) : OnlineReleaseManifest :=
  { m with testResult := some testResult }

def OnlineReleaseManifest.withLogfile (m : OnlineReleaseManifest) (log : S3ReleaseFile) :
    OnlineReleaseManifest :=
  { m with logs := some (.file log) }

/-- What every step of a pipeline run is configured with. -/
structure Config where
  upper : String → String
  allFeatures : FeatureSet
  publisherId : String
  offerId : String
  planId : String
  parseToSemver : String → Except ModelError String

inductive BuildTarget
  | baseBuild
  | build
  | manifest
  | componentDescriptor
  | tests
  | publish
  | freezeVersion
  | githubRelease
  deriving DecidableEq, Repr

def platformNames (allFeatures : FeatureSet) : List String :=
  (allFeatures.entries.filter fun feature => feature.2.type = "platform").map (·.1)

/-- `str.split(',')`. -/
def splitComma (s : String) : List String := (s.toList.splitOn ',').map String.ofList

/-- `os.path.basename`. -/
def basename (path : String) : String := String.ofList ((path.toList.splitOn '/').getLastD [])

/-- The characters that `str.strip` removes. -/
def isSpace (c : Char) : Bool :=
  let n := c.toNat
  (9 ≤ n && n ≤ 13) || (28 ≤ n && n ≤ 32) || n == 0x85 || n == 0xa0 || n == 0x1680 ||
    (0x2000 ≤ n && n ≤ 0x200a) || n == 0x2028 || n == 0x2029 || n == 0x202f || n == 0x205f ||
    n == 0x3000

/-! ## Promoting -/

/-- `promote.publish_image`. What a publish function does at a provider is a parameter; all
of them return the manifest with the published images replaced. -/
def publishImage (publish : OnlineReleaseManifest → Except String PublishedImage)
    (release : OnlineReleaseManifest) : Except String OnlineReleaseManifest :=
  if release.platform ∈ ["ali", "aws", "gcp", "azure", "openstack", "oci"] then
    match publish release with
    | .ok image => .ok { release with publishedImageMetadata := some image }
    | .error text => .error text
  else .ok release

/-- The arguments of `promote_single_step`, the publish function and the orders of the
sets. -/
structure PromoteArgs where
  committish : String
  architecture : Architecture
  platform : String
  gardenlinuxEpoch : ℤ
  modifiers : String
  version : String
  buildTargets : List BuildTarget
  publish : OnlineReleaseManifest → Except String PublishedImage
  modifierOrders : SetOrders
  findOrders : FindOrders
  keyOrders : SetOrders

/-- The `new_manifest` of `promote_single_step`. -/
def promoted (config : Config) (args : PromoteArgs) (releaseManifest : OnlineReleaseManifest) :
    Except Exit OnlineReleaseManifest :=
  if releaseManifest.platform = "azure" then
    match config.parseToSemver args.version with
    | .error e => .error (.modelError e)
    | .ok parsedVersion =>
      let urn := config.publisherId ++ ":" ++ config.offerId ++ ":" ++ config.planId ++ ":" ++
        parsedVersion
      let provisional := { releaseManifest with
        publishedImageMetadata := some (.azure .provisional urn "" "") }
      match publishImage args.publish provisional with
      | .ok newManifest => .ok newManifest
      | .error _ => .ok provisional
  else
    match publishImage args.publish releaseManifest with
    | .ok newManifest => .ok newManifest
    | .error text => .error (.publishError text)

def promoteSingleStep (config : Config) (bucketName : String) (args : PromoteArgs) : Step Unit :=
  if BuildTarget.publish ∉ args.buildTargets then throw (.sysExit 0)
  else if args.platform ∉ platformNames config.allFeatures then
    throw (.modelError (.valueError ("invalid value platform='" ++ args.platform ++ "'")))
  else do
    let modifiers ← Steps.ofModel (normalisedModifiers args.modifierOrders config.upper
      config.allFeatures args.platform (splitComma args.modifiers))
    match ← Steps.findRelease args.findOrders config.upper config.allFeatures bucketName
      ⟨args.committish, args.version, args.gardenlinuxEpoch, args.architecture, args.platform,
        modifiers⟩ with
    | none => throw (.modelError (.valueError "no release-manifest found"))
    | some releaseManifest =>
      if releaseManifest.publishedImageMetadata ≠ none then throw (.sysExit 0)
      else do
        let newManifest ← ExceptT.mk (.done (promoted config args releaseManifest))
        let manifestKey ← Steps.ofModel
          (newManifest.canonicalReleaseManifestKey args.keyOrders config.upper config.allFeatures)
        Steps.uploadReleaseManifest manifestKey newManifest

/-! ## Uploading test results -/

/-- What is found as `test_results.json`. -/
inductive TestResultsFile
  | missing
  | empty
  | malformed
  | testResult (testResult : ReleaseTestResult)
  deriving DecidableEq, Repr

structure TestArgs where
  committish : String
  architecture : Architecture
  platform : String
  gardenlinuxEpoch : ℤ
  modifiers : String
  version : String
  buildTargets : List BuildTarget
  skipTests : Bool
  testResults : TestResultsFile
  findOrders : FindOrders
  keyOrders : SetOrders

def uploadTestResults (config : Config) (bucketName : String) (args : TestArgs) : Step Unit :=
  if BuildTarget.tests ∉ args.buildTargets then throw (.sysExit 0)
  else if BuildTarget.manifest ∉ args.buildTargets then throw (.sysExit 0)
  else if args.skipTests then throw (.sysExit 0)
  else
    match args.testResults with
    | .missing => throw (.sysExit 1)
    | .empty => throw (.sysExit 1)
    | .malformed => throw (.modelError (.daciteError "test_results.json"))
    | .testResult testResult => do
      match ← Steps.findRelease args.findOrders config.upper config.allFeatures bucketName
        ⟨args.committish, args.version, args.gardenlinuxEpoch, args.architecture, args.platform,
          splitComma args.modifiers⟩ with
      | none => throw (.sysExit 1)
      | some manifest => do
        let newManifest := manifest.withTestResult testResult
        let suffix ← Steps.ofModel (manifest.canonicalReleaseManifestKeySuffix args.keyOrders
          config.upper config.allFeatures)
        Steps.uploadReleaseManifest (manifestKeyPrefix ++ "/" ++ suffix) newManifest
        if testResult.testResult ≠ .ok then throw (.sysExit 1) else pure ()

/-! ## Attaching logs -/

structure LogArgs where
  buildDict : List (String × String)
  s3LogKey : String
  keyOrders : String → SetOrders

/-- The `log_entry` that is attached. -/
def logEntry (bucketName s3LogKey : String) : S3ReleaseFile :=
  ⟨basename s3LogKey, basename s3LogKey, s3LogKey, bucketName⟩

/-- `_attach_logs_to_single_manifest`. -/
def attachLogsToSingleManifest (config : Config) (bucketName : String) (args : LogArgs) :
    Step Unit :=
  args.buildDict.forM fun (task, key) =>
    if key.toList.all isSpace then pure ()
    else do
      match ← Steps.releaseManifest bucketName key false with
      -- an absent object has raised
      | none => pure ()
      | some manifest => do
        let newManifest := manifest.withLogfile (logEntry bucketName args.s3LogKey)
        let suffix ← Steps.ofModel (manifest.canonicalReleaseManifestKeySuffix
          (args.keyOrders task) config.upper config.allFeatures)
        Steps.uploadReleaseManifest (manifestKeyPrefix ++ "/" ++ suffix) newManifest

/-! ## The steps together -/

/-- A step that edits manifests, with its arguments. -/
inductive ManifestStep
  | promote (config : Config) (args : PromoteArgs)
  | uploadTestResults (config : Config) (args : TestArgs)
  | attachLogs (config : Config) (args : LogArgs)

def ManifestStep.config : ManifestStep → Config
  | .promote config _ | .uploadTestResults config _ | .attachLogs config _ => config

def ManifestStep.process (bucketName : String) : ManifestStep → Step Unit
  | .promote config args => promoteSingleStep config bucketName args
  | .uploadTestResults config args => Glci.uploadTestResults config bucketName args
  | .attachLogs config args => attachLogsToSingleManifest config bucketName args

/-- What a step makes of a manifest. -/
def ManifestStep.Edits (bucketName : String) (old new : OnlineReleaseManifest) :
    ManifestStep → Prop
  | .promote config args => promoted config args old = .ok new
  | .uploadTestResults _ args =>
    ∃ testResult, args.testResults = .testResult testResult ∧ new = old.withTestResult testResult
  | .attachLogs _ args => new = old.withLogfile (logEntry bucketName args.s3LogKey)

/-- The attributes that the steps write. -/
inductive ManifestField
  | publishedImageMetadata
  | testResult
  | logs
  deriving DecidableEq, Repr

def ManifestStep.field : ManifestStep → ManifestField
  | .promote _ _ => .publishedImageMetadata
  | .uploadTestResults _ _ => .testResult
  | .attachLogs _ _ => .logs

@[reducible] def ManifestField.Value : ManifestField → Type
  | .publishedImageMetadata => Option PublishedImage
  | .testResult => Option ReleaseTestResult
  | .logs => Option Logs

def ManifestField.get : (f : ManifestField) → OnlineReleaseManifest → f.Value
  | .publishedImageMetadata, m => m.publishedImageMetadata
  | .testResult, m => m.testResult
  | .logs, m => m.logs

/-- `old` with the attribute of `new`. -/
def ManifestField.overwrite (new old : OnlineReleaseManifest) :
    ManifestField → OnlineReleaseManifest
  | .publishedImageMetadata => { old with publishedImageMetadata := new.publishedImageMetadata }
  | .testResult => { old with testResult := new.testResult }
  | .logs => { old with logs := new.logs }

/-- A manifest without what the steps write. -/
def OnlineReleaseManifest.bare (m : OnlineReleaseManifest) : OnlineReleaseManifest :=
  { m with publishedImageMetadata := none, testResult := none, logs := none }

namespace ManifestField

@[simp] theorem get_overwrite_self (f : ManifestField) (new old : OnlineReleaseManifest) :
    f.get (f.overwrite new old) = f.get new := by
  cases f <;> rfl

theorem get_overwrite_of_ne {f f' : ManifestField} (h : f' ≠ f) (new old : OnlineReleaseManifest) :
    f'.get (f.overwrite new old) = f'.get old := by
  cases f <;> cases f' <;> first | rfl | exact absurd rfl h

@[simp] theorem bare_overwrite (f : ManifestField) (new old : OnlineReleaseManifest) :
    (f.overwrite new old).bare = old.bare := by
  cases f <;> rfl

theorem releaseIdentifier_overwrite (f : ManifestField) (new old : OnlineReleaseManifest) :
    (f.overwrite new old).releaseIdentifier = old.releaseIdentifier := by
  cases f <;> rfl

theorem buildTimestamp_overwrite (f : ManifestField) (new old : OnlineReleaseManifest) :
    (f.overwrite new old).buildTimestamp = old.buildTimestamp := by
  cases f <;> rfl

theorem paths_overwrite (f : ManifestField) (new old : OnlineReleaseManifest) :
    (f.overwrite new old).paths = old.paths := by
  cases f <;> rfl

@[simp] theorem s3Key_overwrite (f : ManifestField) (new old : OnlineReleaseManifest) :
    (f.overwrite new old).s3Key = old.s3Key := by
  cases f <;> rfl

@[simp] theorem s3Bucket_overwrite (f : ManifestField) (new old : OnlineReleaseManifest) :
    (f.overwrite new old).s3Bucket = old.s3Bucket := by
  cases f <;> rfl

@[simp] theorem overwrite_overwrite (f : ManifestField) (new new' old : OnlineReleaseManifest) :
    f.overwrite new (f.overwrite new' old) = f.overwrite new old := by
  cases f <;> rfl

end ManifestField

/-- Publishing replaces the published images. -/
theorem publishImage_overwrites {publish : OnlineReleaseManifest → Except String PublishedImage}
    {release new : OnlineReleaseManifest} (h : publishImage publish release = .ok new) :
    new = ManifestField.publishedImageMetadata.overwrite new release := by
  unfold publishImage at h
  split at h
  · cases himage : publish release with
    | ok image =>
      rw [himage] at h
      exact Except.ok.inj h ▸ rfl
    | error text =>
      rw [himage] at h
      cases h
  · exact Except.ok.inj h ▸ rfl

theorem promoted_overwrites {config : Config} {args : PromoteArgs}
    {old new : OnlineReleaseManifest} (h : promoted config args old = .ok new) :
    new = ManifestField.publishedImageMetadata.overwrite new old := by
  unfold promoted at h
  split at h
  · split at h
    · cases h
    · -- the provisional information is replaced or kept
      dsimp only at h
      split at h
      · next hnew =>
        obtain rfl := Except.ok.inj h
        exact (publishImage_overwrites hnew).trans rfl
      · exact Except.ok.inj h ▸ rfl
  · split at h
    · next hnew =>
      obtain rfl := Except.ok.inj h
      exact publishImage_overwrites hnew
    · cases h

/-- The edit of a step replaces the attribute of the step. -/
theorem ManifestStep.overwrites {bucketName : String} {step : ManifestStep}
    {old new : OnlineReleaseManifest} (h : step.Edits bucketName old new) :
    new = step.field.overwrite new old := by
  cases step with
  | promote config args => exact promoted_overwrites h
  | uploadTestResults config args =>
    obtain ⟨testResult, -, rfl⟩ := h
    rfl
  | attachLogs config args =>
    obtain rfl := h
    rfl

/-! ## Reads and writes of a step -/

/-- What a step remembers of an object that it has read: the key and the manifest. -/
def remembered (bucketName key : String) (object : Option S3Object) :
    Option (String × OnlineReleaseManifest) :=
  match deserialise bucketName key true object with
  | .ok (some manifest) => some (key, manifest)
  | _ => none

/-- A step may write its edit of the manifest that it read last. -/
def editing (bucketName : String) (step : ManifestStep) :
    Discipline s3 (Option (String × OnlineReleaseManifest)) where
  Allowed
    | _, .getObject _ => True
    | held, .putObject _ object => ∃ readKey manifest newManifest,
        held = some (readKey, manifest) ∧ step.Edits bucketName manifest newManifest ∧
        object = .manifest newManifest
  update
    | _, .getObject key, object => remembered bucketName key object
    | _, .putObject _ _, _ => none

theorem remembered_of_deserialise {bucketName key : String} {absentOk : Bool}
    {object : Option S3Object} {manifest : OnlineReleaseManifest}
    (h : deserialise bucketName key absentOk object = .ok (some manifest)) :
    remembered bucketName key object = some (key, manifest) := by
  unfold deserialise at h
  split at h
  · rw [remembered, deserialise, Option.some.inj (Except.ok.inj h)]
  · cases h
  · split at h
    · exact absurd (Except.ok.inj h) (by simp)
    · cases h

theorem remembered_some {bucketName key readKey : String} {object : Option S3Object}
    {manifest : OnlineReleaseManifest}
    (h : remembered bucketName readKey object = some (key, manifest)) :
    readKey = key ∧ manifest.s3Key = key ∧ manifest.s3Bucket = bucketName ∧
      deserialise bucketName readKey true object = .ok (some manifest) := by
  unfold remembered at h
  split at h
  · next found hfound =>
    obtain ⟨rfl, rfl⟩ := Prod.mk.inj (Option.some.inj h)
    refine ⟨rfl, ?_, ?_, hfound⟩
    all_goals
      unfold deserialise at hfound
      split at hfound
      · exact Option.some.inj (Except.ok.inj hfound) ▸ rfl
      · cases hfound
      · exact absurd (Except.ok.inj hfound) (by simp)
  · cases h

/-- The keys that a step reads: that of a release, or one that it is given. -/
def ManifestStep.Reads (readKey : String) : ManifestStep → Prop
  | .promote config _ | .uploadTestResults config _ => ∃ orders r,
    ReleaseIdentifier.canonicalReleaseManifestKey r orders config.upper config.allFeatures =
      .ok readKey
  | .attachLogs _ args => readKey ∈ args.buildDict.map (·.2) ∧ ¬ readKey.toList.all isSpace

/-- A step may read its keys, and write its edit of the manifest that it read last under a
key of this manifest. -/
def rewriting (bucketName : String) (step : ManifestStep) :
    Discipline s3 (Option (String × OnlineReleaseManifest)) where
  Allowed
    | _, .getObject key => step.Reads key
    | held, .putObject key object => ∃ readKey manifest newManifest orders,
        held = some (readKey, manifest) ∧ step.Edits bucketName manifest newManifest ∧
        object = .manifest newManifest ∧
        manifest.releaseIdentifier.canonicalReleaseManifestKey orders step.config.upper
          step.config.allFeatures = .ok key
  update := (editing bucketName step).update

section Follows

open Process

variable {bucketName : String} {step : ManifestStep}
  {held : Option (String × OnlineReleaseManifest)} {α : Type}

theorem Steps.ofModel_safe {Ghost : Type} {D : Discipline s3 Ghost} {g₀ : Ghost}
    {r : Except ModelError α} :
    Safe D (fun g a => g = g₀ ∧ r = .ok a) (Steps.ofModel r) g₀ := by
  refine safe_mk fun a ha => ⟨rfl, ?_⟩
  cases r with
  | error e => cases ha
  | ok b => exact congrArg Except.ok (Except.ok.inj ha)

theorem Steps.releaseManifest_safe {key : String} {absentOk : Bool} (hkey : step.Reads key) :
    Safe (rewriting bucketName step)
      (fun g r => ∀ manifest, r = some manifest → g = some (key, manifest))
      (Steps.releaseManifest bucketName key absentOk) held := by
  refine safe_bind (Q := fun g object => g = remembered bucketName key object)
    (safe_perform (I := s3) (c := .getObject key) hkey fun r => rfl) fun g object hg => ?_
  refine safe_mk fun r hr manifest hm => ?_
  subst hm
  cases hd : deserialise bucketName key absentOk object with
  | error e =>
    rw [hd] at hr
    cases hr
  | ok found =>
    rw [hd] at hr
    obtain rfl := Except.ok.inj hr
    rw [hg, remembered_of_deserialise hd]

theorem Steps.findRelease_safe {orders : FindOrders} {releaseIdentifier : ReleaseIdentifier}
    (hkey : ∀ key, releaseIdentifier.canonicalReleaseManifestKey orders.key step.config.upper
      step.config.allFeatures = .ok key → step.Reads key) :
    Safe (rewriting bucketName step)
      (fun g r => ∀ manifest, r = some manifest → ∃ key, g = some (key, manifest))
      (Steps.findRelease orders step.config.upper step.config.allFeatures bucketName
        releaseIdentifier) held := by
  refine safe_bind Steps.ofModel_safe fun g key hg => ?_
  refine safe_bind (Steps.releaseManifest_safe (hkey key hg.2)) fun g r hr => ?_
  cases r with
  | none => exact safe_pure fun _ h => nomatch h
  | some manifest =>
    refine safe_bind Steps.ofModel_safe fun g' found hg => ?_
    refine safe_bind Steps.ofModel_safe fun g'' searched hg' => safe_pure fun m hm => ?_
    obtain ⟨rfl, -⟩ := hg
    obtain ⟨rfl, -⟩ := hg'
    split at hm
    · exact ⟨key, (hr manifest rfl).trans (by rw [Option.some.inj hm])⟩
    · cases hm

/-- Uploading an edit of the manifest that was read last under a key of it is safe. -/
theorem Steps.uploadReleaseManifest_safe {key readKey : String} {orders : SetOrders}
    {manifest newManifest : OnlineReleaseManifest} {post : Option (String × OnlineReleaseManifest) →
      Unit → Prop} (hheld : held = some (readKey, manifest))
    (hedit : step.Edits bucketName manifest newManifest)
    (hkey : manifest.releaseIdentifier.canonicalReleaseManifestKey orders step.config.upper
      step.config.allFeatures = .ok key) (hpost : post none ()) :
    Safe (rewriting bucketName step) post (Steps.uploadReleaseManifest key newManifest) held :=
  safe_perform (I := s3) (c := .putObject key (.manifest newManifest))
    ⟨readKey, manifest, newManifest, orders, hheld, hedit, rfl, hkey⟩ fun _ => hpost

theorem promoteSingleStep_safe {config : Config} {args : PromoteArgs} :
    Safe (rewriting bucketName (.promote config args)) (fun _ _ => True)
      (promoteSingleStep config bucketName args) held := by
  unfold promoteSingleStep
  split
  · exact safe_throw _
  split
  · exact safe_throw _
  refine safe_bind Steps.ofModel_safe fun g modifiers _ => ?_
  refine safe_bind (Steps.findRelease_safe fun key hkey => ⟨_, _, hkey⟩) fun g r hr => ?_
  cases r with
  | none => exact safe_throw _
  | some releaseManifest =>
    obtain ⟨readKey, rfl⟩ := hr releaseManifest rfl
    dsimp only
    split
    · exact safe_throw _
    refine safe_bind (Q := fun g newManifest => g = some (readKey, releaseManifest) ∧
      promoted config args releaseManifest = .ok newManifest)
      (safe_mk fun newManifest hnew => ⟨rfl, hnew⟩) fun g newManifest hnew => ?_
    refine safe_bind Steps.ofModel_safe fun g' manifestKey hg => ?_
    have hidentifier : newManifest.releaseIdentifier = releaseManifest.releaseIdentifier := by
      rw [promoted_overwrites hnew.2, ManifestField.releaseIdentifier_overwrite]
    have hkey : releaseManifest.releaseIdentifier.canonicalReleaseManifestKey args.keyOrders
        config.upper config.allFeatures = .ok manifestKey := by
      rw [← hidentifier]
      exact hg.2
    exact Steps.uploadReleaseManifest_safe (hg.1.trans hnew.1) hnew.2 hkey trivial

theorem uploadTestResults_safe {config : Config} {args : TestArgs} :
    Safe (rewriting bucketName (.uploadTestResults config args)) (fun _ _ => True)
      (uploadTestResults config bucketName args) held := by
  unfold uploadTestResults
  split
  · exact safe_throw _
  split
  · exact safe_throw _
  split
  · exact safe_throw _
  split
  · exact safe_throw _
  · exact safe_throw _
  · exact safe_throw _
  · next testResult htest =>
    refine safe_bind (Steps.findRelease_safe fun key hkey => ⟨_, _, hkey⟩) fun g r hr => ?_
    cases r with
    | none => exact safe_throw _
    | some manifest =>
      obtain ⟨readKey, rfl⟩ := hr manifest rfl
      refine safe_bind Steps.ofModel_safe fun g suffix hg => ?_
      refine safe_bind (Q := fun _ _ => True)
        (Steps.uploadReleaseManifest_safe hg.1 ⟨testResult, htest, rfl⟩
          (key_ok_iff.2 ⟨suffix, hg.2, rfl⟩) trivial) fun g _ _ => ?_
      split
      · exact safe_throw _
      · exact safe_pure trivial

theorem attachLogsToSingleManifest_safe {config : Config} {args : LogArgs} :
    Safe (rewriting bucketName (.attachLogs config args)) (fun _ _ => True)
      (attachLogsToSingleManifest config bucketName args) held := by
  refine safe_forM _ (fun entry hentry g _ => ?_) trivial
  obtain ⟨task, key⟩ := entry
  dsimp only
  split
  · exact safe_pure trivial
  next hspace =>
  refine safe_bind (Steps.releaseManifest_safe ⟨List.mem_map_of_mem hentry, hspace⟩) fun g r hr => ?_
  cases r with
  | none => exact safe_pure trivial
  | some manifest =>
    refine safe_bind Steps.ofModel_safe fun g' suffix hg => ?_
    exact Steps.uploadReleaseManifest_safe (hg.1.trans (hr manifest rfl)) rfl
      (key_ok_iff.2 ⟨suffix, hg.2, rfl⟩) trivial

/-- Whatever a step writes is its edit of the manifest that it read last, under a key of
this manifest. -/
theorem ManifestStep.rewrites (bucketName : String) (step : ManifestStep) :
    Safe (rewriting bucketName step) (fun _ _ => True) (step.process bucketName) none := by
  cases step with
  | promote config args => exact promoteSingleStep_safe
  | uploadTestResults config args => exact uploadTestResults_safe
  | attachLogs config args => exact attachLogsToSingleManifest_safe

/-- Whatever a step writes is its edit of the manifest that it read last. -/
theorem ManifestStep.safe (bucketName : String) (step : ManifestStep) :
    Safe (editing bucketName step) (fun _ _ => True) (step.process bucketName) none := by
  refine follows_mono (step.rewrites bucketName) (fun held c hc => ?_) (fun _ _ _ => rfl)
    fun _ _ h => h
  cases c with
  | getObject key => trivial
  | putObject key object =>
    obtain ⟨readKey, manifest, newManifest, -, hheld, hedit, hobject, -⟩ := hc
    exact ⟨readKey, manifest, newManifest, hheld, hedit, hobject⟩

end Follows

/-! ## A step that runs alone -/

@[simp] theorem Steps.ofModel_eval {α : Type} (r : Except ModelError α) (bucket : Bucket) :
    (Steps.ofModel r).run.eval s3Service bucket = (r.mapError .modelError, bucket) :=
  rfl

theorem Steps.releaseManifest_eval (bucketName key : String) (absentOk : Bool)
    (bucket : Bucket) :
    (Steps.releaseManifest bucketName key absentOk).run.eval s3Service bucket =
      ((Glci.releaseManifest bucketName bucket key absentOk).mapError .modelError, bucket) :=
  rfl

/-- Running alone, `find_release` reads the bucket as it is. -/
theorem Steps.findRelease_eval (orders : FindOrders) (upper : String → String)
    (allFeatures : FeatureSet) (bucketName : String) (bucket : Bucket)
    (releaseIdentifier : ReleaseIdentifier) :
    (Steps.findRelease orders upper allFeatures bucketName releaseIdentifier).run.eval s3Service
        bucket =
      ((Glci.findRelease orders upper allFeatures bucketName bucket releaseIdentifier).mapError
        .modelError, bucket) := by
  rw [Steps.findRelease, Process.eval_run_bind, Steps.ofModel_eval, Glci.findRelease]
  cases hkey : releaseIdentifier.canonicalReleaseManifestKey orders.key upper allFeatures with
  | error e => rfl
  | ok key =>
    show (_ >>= _ : Step (Option OnlineReleaseManifest)).run.eval s3Service bucket = _
    rw [Process.eval_run_bind, Steps.releaseManifest_eval]
    cases hread : Glci.releaseManifest bucketName bucket key true with
    | error e =>
      simp only [hread, Except.mapError, bind, Except.bind]
    | ok r =>
      cases r with
      | none =>
        simp only [hread, Except.mapError, bind, Except.bind]
        rfl
      | some manifest =>
        simp only [hread, Except.mapError, bind, Except.bind]
        cases hfound : normalisedReleaseIdentifier orders.found upper allFeatures
            manifest.releaseIdentifier with
        | error e => rfl
        | ok found =>
          cases hsearched : normalisedReleaseIdentifier orders.searched upper allFeatures
              releaseIdentifier with
          | error e => rfl
          | ok searched =>
            show (Except.ok (if found = searched then some manifest else none), bucket) = _
            by_cases heq : found = searched
            · simp only [if_pos heq]
              rfl
            · simp only [if_neg heq]
              rfl

end Glci
