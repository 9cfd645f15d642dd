import GardenLinux.Glci.Steps
import GardenLinux.Glci.Clean

/-!
# Uploading build results

`upload_results_step` of `ci/steps/upload_results_step.py` as a process: every artifact of
the build is uploaded under its digest, and then the manifest that refers to all of them is
stored under its canonical key.

What is proved here:

* `uploadResultsStep_safe` — the step writes artifacts under `objects`, and a manifest of
  its release only under a key of it and once all of its paths are uploaded;
* `uploadResultsStep_eval` — what it leaves when it runs alone.
-/

namespace Glci

open GardenFeat Process

/-! ## The step -/

/-- A file below the directory of the build result. -/
structure BuildFile where
  name : String
  content : List UInt8
  deriving DecidableEq, Repr

/-- The arguments of `upload_results_step`, what it finds in the workspace, the digest, the
publish function of the `oci` platform and the order of the sets. -/
structure UploadArgs where
  committish : String
  architecture : Architecture
  platform : String
  gardenlinuxEpoch : ℤ
  modifiers : String
  version : String
  buildTargets : List BuildTarget
  buildImage : String
  skipBuild : Bool
  buildResultFound : Bool
  files : List BuildFile
  sha1 : List UInt8 → String
  now : String
  publishOci : ReleaseManifest → Except String PublishedImage
  keyOrders : SetOrders

def uploadKey (sha1Digest : String) : String := "objects" ++ "/" ++ sha1Digest

/-- `upload_files`, run to its end. -/
def uploadFiles (bucketName versionStr : String) (sha1 : List UInt8 → String) :
    List BuildFile → Step (List S3ReleaseFile)
  | [] => pure []
  | file :: files => do
    let key := uploadKey (sha1 file.content)
    ExceptT.lift (Process.perform (I := s3) (.putObject key .data))
    let rest ← uploadFiles bucketName versionStr sha1 files
    pure (⟨versionStr ++ "-" ++ file.name, file.name, key, bucketName⟩ :: rest)

/-- `<epoch>-<commit-hash>`. -/
def UploadArgs.uploadVersion (args : UploadArgs) : String :=
  toString args.gardenlinuxEpoch ++ "-" ++ String.ofList (args.committish.toList.take 6)

/-- The identifier in the manifest of the build. -/
def UploadArgs.releaseIdentifier (args : UploadArgs) : ReleaseIdentifier :=
  ⟨args.committish, args.version, args.gardenlinuxEpoch, args.architecture, args.platform,
    (splitComma args.modifiers).filter (· ≠ "")⟩

/-- The manifest of the build; an image of the `oci` platform is published at once. -/
def UploadArgs.manifest (args : UploadArgs) (uploadedRelpaths : List S3ReleaseFile) :
    Except Exit ReleaseManifest :=
  let manifest : ReleaseManifest :=
    { args.releaseIdentifier with
      buildTimestamp := args.now
      paths := uploadedRelpaths
      baseImage := some args.buildImage
      publishedImageMetadata := none }
  if manifest.platform = "oci" then
    match args.publishOci manifest with
    | .ok image => .ok { manifest with publishedImageMetadata := some image }
    | .error text => .error (.publishError text)
  else .ok manifest

def uploadResultsStep (config : Config) (bucketName : String) (args : UploadArgs) : Step Unit :=
  if BuildTarget.manifest ∉ args.buildTargets then throw (.sysExit 0)
  else if args.skipBuild then throw (.sysExit 0)
  else if ¬ args.buildResultFound then throw (.sysExit 1)
  else do
    let uploadedRelpaths ← uploadFiles bucketName args.uploadVersion args.sha1 args.files
    let manifest ← ExceptT.mk (.done (args.manifest uploadedRelpaths))
    let suffix ← Steps.ofModel
      (manifest.canonicalReleaseManifestKeySuffix args.keyOrders config.upper config.allFeatures)
    Steps.uploadReleaseManifest (manifestKeyPrefix ++ "/" ++ suffix) manifest.document

/-- Whether the step gets as far as a manifest. -/
def UploadArgs.Stores (args : UploadArgs) : Prop :=
  BuildTarget.manifest ∈ args.buildTargets ∧ args.skipBuild = false ∧
    args.buildResultFound = true ∧
    ∃ uploadedRelpaths manifest, args.manifest uploadedRelpaths = .ok manifest

/-! ## Where the step writes -/

theorem hasPrefix_uploadKey (sha1Digest : String) : hasPrefix objectPrefix (uploadKey sha1Digest) := by
  simp [hasPrefix, uploadKey, objectPrefix, String.toList_append]

/-- Artifacts are not stored among the manifests. -/
theorem not_manifestKeyPrefix_uploadKey (sha1Digest : String) :
    ¬ hasPrefix manifestKeyPrefix (uploadKey sha1Digest) :=
  fun h => not_objectPrefix (Or.inl h) (hasPrefix_uploadKey sha1Digest)

theorem hasPrefix_of_key {orders : SetOrders} {r : ReleaseIdentifier} {upper : String → String}
    {allFeatures : FeatureSet} {key : String}
    (h : r.canonicalReleaseManifestKey orders upper allFeatures = .ok key) :
    hasPrefix manifestKeyPrefix key := by
  obtain ⟨suffix, -, rfl⟩ := key_ok_iff.1 h
  simp [hasPrefix, String.toList_append, List.append_assoc]

/-! ## What the step writes -/

/-- The step may upload artifacts, and a manifest of its release under a key of it once the
paths of the manifest are uploaded. What it uploaded is forgotten with the manifest. -/
def publishing (config : Config) (bucketName : String) (args : UploadArgs) :
    Discipline s3 (List String) where
  Allowed
    | _, .getObject _ => False
    | uploaded, .putObject key object =>
      (object = .data ∧ ∃ sha1Digest, key = uploadKey sha1Digest) ∨
      ∃ (manifest : ReleaseManifest) (orders : SetOrders),
        args.Stores ∧ object = .manifest manifest.document ∧
        manifest.releaseIdentifier = args.releaseIdentifier ∧
        manifest.releaseIdentifier.canonicalReleaseManifestKey orders config.upper
          config.allFeatures = .ok key ∧
        ∀ path ∈ manifest.paths, path.s3BucketName = bucketName ∧ path.s3Key ∈ uploaded
  update
    | uploaded, .putObject key .data, _ => key :: uploaded
    | _, _, _ => []

variable {config : Config} {bucketName : String} {args : UploadArgs} {uploaded : List String}

theorem uploadFiles_safe {versionStr : String} {sha1 : List UInt8 → String}
    (files : List BuildFile) :
    Safe (publishing config bucketName args)
      (fun g paths => (∀ key ∈ uploaded, key ∈ g) ∧
        ∀ path ∈ paths, path.s3BucketName = bucketName ∧ path.s3Key ∈ g)
      (uploadFiles bucketName versionStr sha1 files) uploaded := by
  induction files generalizing uploaded with
  | nil => exact safe_pure ⟨fun _ h => h, by simp⟩
  | cons file files ih =>
    refine safe_bind (Q := fun g _ => g = uploadKey (sha1 file.content) :: uploaded)
      (safe_perform (I := s3) (c := .putObject (uploadKey (sha1 file.content)) .data)
        (Or.inl ⟨rfl, _, rfl⟩) fun _ => rfl) fun g _ hg => ?_
    subst hg
    refine safe_bind ih fun g paths hpaths => safe_pure ⟨fun key hkey => ?_, ?_⟩
    · exact hpaths.1 key (List.mem_cons_of_mem _ hkey)
    · rintro path (_ | ⟨_, hpath⟩)
      · exact ⟨rfl, hpaths.1 _ (List.mem_cons_self ..)⟩
      · exact hpaths.2 path hpath

theorem UploadArgs.manifest_ok {uploadedRelpaths : List S3ReleaseFile}
    {manifest : ReleaseManifest} (h : args.manifest uploadedRelpaths = .ok manifest) :
    manifest.releaseIdentifier = args.releaseIdentifier ∧ manifest.paths = uploadedRelpaths := by
  unfold UploadArgs.manifest at h
  dsimp only at h
  split at h
  · split at h
    · exact Except.ok.inj h ▸ ⟨rfl, rfl⟩
    · exact nomatch h
  · exact Except.ok.inj h ▸ ⟨rfl, rfl⟩

/-- The step writes artifacts, and then a manifest of its release that refers to them. -/
theorem uploadResultsStep_safe :
    Safe (publishing config bucketName args) (fun _ _ => True)
      (uploadResultsStep config bucketName args) uploaded := by
  unfold uploadResultsStep
  split
  · exact safe_throw _
  split
  · exact safe_throw _
  split
  · exact safe_throw _
  next htarget hskip hfound =>
  have hstores : ∀ {uploadedRelpaths manifest},
      args.manifest uploadedRelpaths = .ok manifest → args.Stores := fun hmanifest =>
    ⟨not_not.1 htarget, by simpa using hskip, not_not.1 hfound, _, _, hmanifest⟩
  refine safe_bind (uploadFiles_safe args.files) fun g uploadedRelpaths hpaths => ?_
  refine safe_bind (Q := fun g' manifest => g' = g ∧ args.manifest uploadedRelpaths = .ok manifest)
    (safe_mk fun manifest hmanifest => ⟨rfl, hmanifest⟩) fun g' manifest hg => ?_
  refine safe_bind Steps.ofModel_safe fun g'' suffix hsuffix => ?_
  obtain ⟨hidentifier, hpath⟩ := UploadArgs.manifest_ok hg.2
  refine safe_perform (I := s3)
    (c := .putObject (manifestKeyPrefix ++ "/" ++ suffix) (.manifest manifest.document))
    (Or.inr ⟨manifest, args.keyOrders, hstores hg.2, rfl, hidentifier,
      key_ok_iff.2 ⟨suffix, hsuffix.2, rfl⟩, fun path hmem => ?_⟩) fun _ => trivial
  rw [hpath] at hmem
  rw [hsuffix.1, hg.1]
  exact hpaths.2 path hmem

/-! ## The step alone -/

/-- The bucket with the artifacts of a build. -/
def uploadedFiles (sha1 : List UInt8 → String) (bucket : Bucket) (files : List BuildFile) :
    Bucket :=
  files.foldl (fun bucket file => bucket.insert (uploadKey (sha1 file.content)) .data) bucket

/-- The `uploaded_relpaths` of a build. -/
def relpaths (bucketName versionStr : String) (sha1 : List UInt8 → String)
    (files : List BuildFile) : List S3ReleaseFile :=
  files.map fun file =>
    ⟨versionStr ++ "-" ++ file.name, file.name, uploadKey (sha1 file.content), bucketName⟩

theorem uploadFiles_eval (versionStr : String) (sha1 : List UInt8 → String)
    (files : List BuildFile) (bucket : Bucket) :
    (uploadFiles bucketName versionStr sha1 files).run.eval s3Service bucket =
      (.ok (relpaths bucketName versionStr sha1 files), uploadedFiles sha1 bucket files) := by
  induction files generalizing bucket with
  | nil => rfl
  | cons file files ih =>
    rw [uploadFiles, eval_run_bind]
    show (_ >>= _ : Step (List S3ReleaseFile)).run.eval s3Service
      (bucket.insert (uploadKey (sha1 file.content)) .data) = _
    rw [eval_run_bind, ih]
    rfl

/-- Running alone, the step ends with its manifest in the bucket of its artifacts. -/
theorem uploadResultsStep_eval (bucket : Bucket) (htarget : BuildTarget.manifest ∈ args.buildTargets)
    (hskip : args.skipBuild = false) (hfound : args.buildResultFound = true)
    {manifest : ReleaseManifest} {key : String} {stored : Bucket}
    (hmanifest : args.manifest (relpaths bucketName args.uploadVersion args.sha1 args.files) =
      .ok manifest)
    (hupload : uploadResults args.keyOrders config.upper config.allFeatures
      (uploadedFiles args.sha1 bucket args.files) manifest = .ok (key, stored)) :
    (uploadResultsStep config bucketName args).run.eval s3Service bucket = (.ok (), stored) := by
  obtain ⟨suffix, hsuffix, hstored⟩ := bind_ok_iff.1 hupload
  obtain ⟨rfl, rfl⟩ := Prod.mk.inj (Except.ok.inj hstored)
  rw [uploadResultsStep, if_neg (not_not.2 htarget), if_neg (by simp [hskip]),
    if_neg (by simp [hfound]), eval_run_bind, uploadFiles_eval]
  show (_ >>= _ : Step Unit).run.eval s3Service _ = _
  rw [eval_run_bind, hmanifest]
  show (_ >>= _ : Step Unit).run.eval s3Service _ = _
  rw [eval_run_bind, hsuffix]
  rfl

end Glci
