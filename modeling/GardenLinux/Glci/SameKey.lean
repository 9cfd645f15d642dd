import GardenLinux.Glci.Expands
import GardenLinux.Glci.Flavours

/-!
# The steps of a pipeline and the key of its release

Five steps of `ci/steps` take the modifiers of a release as one text with commas, and each one reads
it in its own way before it looks for the manifest of the release or stores it.

What is proved here:

* `Parameters.oneRelease_iff` — when all of them reject the parameters or all address one key, and
  find and update what the build has stored there.
-/

namespace Glci

open GardenFeat Process

/-! ## The steps before the build and before the tests -/

/-- `[m for m in modifiers.split(',') if m]`. -/
def withoutEmpty (modifiers : String) : List String := (splitComma modifiers).filter (· ≠ "")

structure CheckArgs where
  committish : String
  architecture : Architecture
  platform : String
  gardenlinuxEpoch : ℤ
  modifiers : String
  version : String
  buildTargets : List BuildTarget
  findOrders : FindOrders

/-- `pre_build_step`: whether it leaves `/workspace/skip_build`. -/
def preBuildStep (config : Config) (bucketName : String) (args : CheckArgs) : Step Bool :=
  if BuildTarget.build ∉ args.buildTargets then pure true
  else do
    let release ← Steps.findRelease args.findOrders config.upper config.allFeatures bucketName
      ⟨args.committish, args.version, args.gardenlinuxEpoch, args.architecture, args.platform,
        withoutEmpty args.modifiers⟩
    pure release.isSome

def OnlineReleaseManifest.tested (m : OnlineReleaseManifest) : Bool :=
  m.testResult.map (·.testResult) = some .ok

/-- `pre_check_tests`: whether it leaves `/workspace/skip_tests`. -/
def preCheckTests (config : Config) (bucketName : String) (args : CheckArgs) : Step Bool :=
  if BuildTarget.tests ∉ args.buildTargets then pure false
  else do
    let release ← Steps.findRelease args.findOrders config.upper config.allFeatures bucketName
      ⟨args.committish, args.version, args.gardenlinuxEpoch, args.architecture, args.platform,
        withoutEmpty args.modifiers⟩
    pure (release.any (·.tested))

/-! ## The steps of one pipeline -/

/-- What the steps of a pipeline are called with.  The name of a feature is that of a directory. -/
structure Parameters where
  config : Config
  bucketName : String
  committish : String
  architecture : Architecture
  platform : String
  gardenlinuxEpoch : ℤ
  modifiers : String
  version : String
  named : "" ∉ config.allFeatures

/-- What differs from step to step: the orders of the sets, the build, and what publishing and
testing come to.  Every target of the build is asked for. -/
structure Surroundings where
  buildTargets : List BuildTarget
  complete : ∀ target, target ∈ buildTargets
  preBuildOrders : FindOrders
  preCheckOrders : FindOrders
  uploadOrders : SetOrders
  modifierOrders : SetOrders
  promoteFindOrders : FindOrders
  promoteKeyOrders : SetOrders
  testFindOrders : FindOrders
  testKeyOrders : SetOrders
  buildImage : String
  files : List BuildFile
  sha1 : List UInt8 → String
  now : String
  publishOci : ReleaseManifest → PublishedImage
  publish : OnlineReleaseManifest → Except String PublishedImage
  testResult : ReleaseTestResult

namespace Parameters

variable (p : Parameters) (w : Surroundings)

def checkArgs (findOrders : FindOrders) : CheckArgs :=
  ⟨p.committish, p.architecture, p.platform, p.gardenlinuxEpoch, p.modifiers, p.version,
    w.buildTargets, findOrders⟩

def uploadArgs : UploadArgs where
  committish := p.committish
  architecture := p.architecture
  platform := p.platform
  gardenlinuxEpoch := p.gardenlinuxEpoch
  modifiers := p.modifiers
  version := p.version
  buildTargets := w.buildTargets
  buildImage := w.buildImage
  skipBuild := false
  buildResultFound := true
  files := w.files
  sha1 := w.sha1
  now := w.now
  publishOci m := .ok (w.publishOci m)
  keyOrders := w.uploadOrders

def promoteArgs : PromoteArgs where
  committish := p.committish
  architecture := p.architecture
  platform := p.platform
  gardenlinuxEpoch := p.gardenlinuxEpoch
  modifiers := p.modifiers
  version := p.version
  buildTargets := w.buildTargets
  publish := w.publish
  modifierOrders := w.modifierOrders
  findOrders := w.promoteFindOrders
  keyOrders := w.promoteKeyOrders

def testArgs : TestArgs where
  committish := p.committish
  architecture := p.architecture
  platform := p.platform
  gardenlinuxEpoch := p.gardenlinuxEpoch
  modifiers := p.modifiers
  version := p.version
  buildTargets := w.buildTargets
  skipTests := false
  testResults := .testResult w.testResult
  findOrders := w.testFindOrders
  keyOrders := w.testKeyOrders

def preBuild : Step Bool := preBuildStep p.config p.bucketName (p.checkArgs w w.preBuildOrders)

def preCheck : Step Bool := preCheckTests p.config p.bucketName (p.checkArgs w w.preCheckOrders)

def upload : Step Unit := uploadResultsStep p.config p.bucketName (p.uploadArgs w)

def promote : Step Unit := promoteSingleStep p.config p.bucketName (p.promoteArgs w)

def uploadTests : Step Unit := uploadTestResults p.config p.bucketName (p.testArgs w)

end Parameters

/-! ## What a step addresses -/

section Address

variable {α : Type}

/-- The keys of manifests that a step asks for or writes, when it runs alone. -/
def manifestKeys (step : Step α) (bucket : Bucket) : List String :=
  ((step.run.calls s3Service bucket).map fun e => e.1.key).filter (hasPrefix manifestKeyPrefix ·)

/-- An exception before any manifest is asked for. -/
def Rejects (step : Step α) : Prop :=
  ∀ bucket, (∃ e, (step.run.eval s3Service bucket).1 = .error (.modelError e)) ∧
    manifestKeys step bucket = []

/-- The first manifest that the step asks for or writes has the key. -/
def Addresses (step : Step α) (key : String) : Prop :=
  ∀ bucket, (manifestKeys step bucket).head? = some key

end Address

namespace Parameters

variable (p : Parameters) (w : Surroundings)

/-- The release in the manifest of the build. -/
def built : ReleaseIdentifier :=
  ⟨p.committish, p.version, p.gardenlinuxEpoch, p.architecture, p.platform,
    withoutEmpty p.modifiers⟩

def AllReject : Prop :=
  Rejects (p.preBuild w) ∧ Rejects (p.preCheck w) ∧ Rejects (p.upload w) ∧ Rejects (p.promote w) ∧
    Rejects (p.uploadTests w)

/-- What is read under a key. -/
def read (key : String) (document : OnlineReleaseManifest) : OnlineReleaseManifest :=
  { document with s3Key := key, s3Bucket := p.bucketName }

/-- The bucket after the manifest under the key was promoted. -/
def promotedBucket (bucket : Bucket) (key : String) (document : OnlineReleaseManifest) : Bucket :=
  if document.publishedImageMetadata = none then
    match promoted p.config (p.promoteArgs w) (p.read key document) with
    | .ok new => bucket.insert key (.manifest new)
    | .error _ => bucket
  else bucket

/-- All steps address the key; what the build stores there, and whatever it has become since, is
found by the other steps and updated there. -/
structure AllAddress (key : String) : Prop where
  preBuild : Addresses (p.preBuild w) key
  preCheck : Addresses (p.preCheck w) key
  upload : Addresses (p.upload w) key
  promote : Addresses (p.promote w) key
  uploadTests : Addresses (p.uploadTests w) key
  stored : ∀ bucket, ∃ document : OnlineReleaseManifest, document.releaseIdentifier = p.built ∧
    ((p.upload w).run.eval s3Service bucket).2.lookup key = some (.manifest document)
  found : ∀ bucket (document : OnlineReleaseManifest), document.releaseIdentifier = p.built →
    bucket.lookup key = some (.manifest document) →
    (p.preBuild w).run.eval s3Service bucket = (.ok true, bucket) ∧
    (p.preCheck w).run.eval s3Service bucket = (.ok document.tested, bucket) ∧
    ((p.promote w).run.eval s3Service bucket).2 = p.promotedBucket w bucket key document ∧
    ((p.uploadTests w).run.eval s3Service bucket).2 =
      bucket.insert key (.manifest ((p.read key document).withTestResult w.testResult))

/-- The steps resolve one release, whatever else differs between them. -/
def OneRelease : Prop := ∀ w, p.AllReject w ∨ ∃ key, p.AllAddress w key

/-! ## When they do -/

/-- A name of the closure that nothing in the closure includes. -/
def Topmost (v : String) : Prop :=
  InClosure p.config.allFeatures p.platform p.built.modifiers v ∧
    ∀ m, InClosure p.config.allFeatures p.platform p.built.modifiers m →
      ¬ Implies p.config.allFeatures m v

/-- The text has no empty item, the platform is one, everything expands, upper-casing tells the
closure apart, and the canonical name does not change when the modifiers are normalised. -/
structure Consistent : Prop where
  noEmpty : "" ∉ splitComma p.modifiers
  platform : p.platform ∈ platformNames p.config.allFeatures
  expands : Expands p.config.allFeatures (p.platform :: p.built.modifiers)
  toldApart : ∀ u v, InClosure p.config.allFeatures p.platform p.built.modifiers u →
    InClosure p.config.allFeatures p.platform p.built.modifiers v →
    p.config.upper u = p.config.upper v → u = v
  joined : ∀ own all : Finset String,
    (∀ v, v ∈ own ↔ IsMaximal p.config.allFeatures p.built.modifiers v) →
    (∀ v, v ∈ all ↔ p.Topmost v) → ∀ orders,
      (String.singleton '-').intercalate
          (flavourNames orders p.config.upper p.config.allFeatures p.platform own) =
        (String.singleton '-').intercalate
          (flavourNames orders p.config.upper p.config.allFeatures p.platform all)

end Parameters

/-! ## Keys -/

section Keys

variable {allFeatures : FeatureSet} {upper : String → String} {orders : SetOrders}
  {r : ReleaseIdentifier} {key : String}

/-- The key of features that expand. -/
theorem key_ok_iff_expands :
    r.canonicalReleaseManifestKey orders upper allFeatures = .ok key ↔
      r.platform ∈ allFeatures ∧ Expands allFeatures r.modifiers ∧
        ∃ maximal : Finset String, (∀ v, v ∈ maximal ↔ IsMaximal allFeatures r.modifiers v) ∧
          key = manifestKeyPrefix ++ "/" ++ ((String.singleton '-').intercalate
            (flavourNames orders upper allFeatures r.platform maximal) ++ r.keyTail) := by
  rw [key_ok_iff]
  simp only [ReleaseIdentifier.canonicalReleaseManifestKeySuffix, bind_ok_iff]
  constructor
  · rintro ⟨suffix, ⟨features, hfeatures, hsuffix⟩, rfl⟩
    obtain ⟨hp, hexpands⟩ := canonicalisedFeatures_ok_iff_expands.1 ⟨features, hfeatures⟩
    obtain ⟨-, -, maximal, hmax, rfl⟩ := of_canonicalisedFeatures_ok hfeatures
    refine ⟨hp, hexpands, maximal, hmax, ?_⟩
    rw [← Except.ok.inj hsuffix]
    rfl
  · rintro ⟨hp, hexpands, maximal, hmax, rfl⟩
    obtain ⟨features, hfeatures⟩ := canonicalisedFeatures_ok_iff_expands.2 ⟨hp, hexpands⟩
    obtain ⟨-, -, maximal', hmax', rfl⟩ := of_canonicalisedFeatures_ok hfeatures
    obtain rfl : maximal' = maximal := by
      ext v
      rw [hmax, hmax']
    exact ⟨_, ⟨_, hfeatures, rfl⟩, rfl⟩

end Keys

/-! ## What the steps do first -/

section Run

variable {α β : Type} {step : Step α} {key : String}

theorem rejects_of_run {e : ModelError} (h : step.run = .done (.error (.modelError e))) :
    Rejects step := by
  intro bucket
  rw [manifestKeys, h]
  exact ⟨⟨e, rfl⟩, rfl⟩

theorem addresses_of_run {next : Option S3Object → Process s3 (Except Exit α)}
    (h : step.run = .call (.getObject key) next) (hkey : hasPrefix manifestKeyPrefix key) :
    Addresses step key := by
  intro bucket
  rw [manifestKeys, h]
  show (List.filter _ (key :: _)).head? = some key
  rw [List.filter_cons_of_pos hkey]
  rfl

theorem Addresses.eq {key' : String} (h : Addresses step key) (h' : Addresses step key') :
    key = key' :=
  Option.some.inj ((h ∅).symm.trans (h' ∅))

theorem Addresses.not_rejects (h : Addresses step key) : ¬ Rejects step := by
  intro hrejects
  have hkeys := h ∅
  rw [(hrejects ∅).2] at hkeys
  cases hkeys

variable {orders : FindOrders} {config : Config} {bucketName : String} {r : ReleaseIdentifier}
  {f : Option OnlineReleaseManifest → Step β}

/-- `find_release` fails on a release without a key. -/
theorem findRelease_rejects {e : ModelError}
    (h : r.canonicalReleaseManifestKey orders.key config.upper config.allFeatures = .error e) :
    Rejects (Steps.findRelease orders config.upper config.allFeatures bucketName r >>= f) := by
  apply rejects_of_run
  rw [Steps.findRelease, h]
  rfl

/-- It reads the manifest under the key. -/
theorem findRelease_addresses
    (h : r.canonicalReleaseManifestKey orders.key config.upper config.allFeatures = .ok key) :
    Addresses (Steps.findRelease orders config.upper config.allFeatures bucketName r >>= f)
      key := by
  have hrun : ∃ next, (Steps.findRelease orders config.upper config.allFeatures bucketName r >>=
      f).run = .call (.getObject key) next := by
    rw [Steps.findRelease, h]
    exact ⟨_, rfl⟩
  obtain ⟨next, hnext⟩ := hrun
  exact addresses_of_run hnext (hasPrefix_of_key h)

/-- With a manifest of the same normalised identifier under the key, it is found. -/
theorem findRelease_finds {bucket : Bucket} {document : OnlineReleaseManifest}
    {normalised : ReleaseIdentifier}
    (hkey : r.canonicalReleaseManifestKey orders.key config.upper config.allFeatures = .ok key)
    (hlookup : bucket.lookup key = some (.manifest document))
    (hfound : normalisedReleaseIdentifier orders.found config.upper config.allFeatures
      document.releaseIdentifier = .ok normalised)
    (hsearched : normalisedReleaseIdentifier orders.searched config.upper config.allFeatures r =
      .ok normalised) :
    (Steps.findRelease orders config.upper config.allFeatures bucketName r >>= f).run.eval s3Service
        bucket =
      (f (some { document with s3Key := key, s3Bucket := bucketName })).run.eval s3Service
        bucket := by
  rw [eval_run_bind, Steps.findRelease_eval, findRelease_of_lookup hkey hlookup hfound hsearched,
    if_pos rfl]
  rfl

theorem manifestKeys_bind (step : Step α) (f : α → Step β) (bucket : Bucket) :
    manifestKeys (step >>= f) bucket = manifestKeys step bucket ++
      match step.run.eval s3Service bucket with
      | (.ok a, left) => manifestKeys (f a) left
      | (.error _, _) => [] := by
  rw [manifestKeys, calls_run_bind, List.map_append, List.filter_append, manifestKeys]
  cases step.run.eval s3Service bucket with
  | mk result left =>
    cases result with
    | ok a => rfl
    | error e => rfl

/-- Artifacts are not stored among the manifests. -/
theorem manifestKeys_uploadFiles {versionStr : String} {sha1 : List UInt8 → String}
    (files : List BuildFile) (bucket : Bucket) :
    manifestKeys (uploadFiles bucketName versionStr sha1 files) bucket = [] := by
  induction files generalizing bucket with
  | nil => rfl
  | cons file files ih =>
    have hput : manifestKeys (ExceptT.lift (Process.perform (I := s3)
        (.putObject (uploadKey (sha1 file.content)) .data)) : Step Unit) bucket = [] := by
      show List.filter _ [uploadKey (sha1 file.content)] = []
      rw [List.filter_cons_of_neg (not_manifestKeyPrefix_uploadKey _), List.filter_nil]
    rw [uploadFiles, manifestKeys_bind, hput]
    show manifestKeys (_ >>= _ : Step (List S3ReleaseFile)) _ = []
    rw [manifestKeys_bind, ih, uploadFiles_eval]
    rfl

end Run

/-! ## The steps of one pipeline, one after the other -/

namespace Parameters

variable {p : Parameters} {w : Surroundings} {key : String}

variable (p w) in
theorem preBuild_eq :
    p.preBuild w = Steps.findRelease w.preBuildOrders p.config.upper p.config.allFeatures
      p.bucketName p.built >>= fun release => pure release.isSome :=
  if_neg (not_not.2 (w.complete BuildTarget.build))

variable (p w) in
theorem preCheck_eq :
    p.preCheck w = Steps.findRelease w.preCheckOrders p.config.upper p.config.allFeatures
      p.bucketName p.built >>= fun release => pure (release.any (·.tested)) :=
  if_neg (not_not.2 (w.complete BuildTarget.tests))

variable (p) in
/-- The release with other modifiers. -/
def withModifiers (modifiers : List String) : ReleaseIdentifier := { p.built with modifiers }

variable (p w) in
theorem exists_uploadTests_eq : ∃ f : Option OnlineReleaseManifest → Step Unit,
    p.uploadTests w = Steps.findRelease w.testFindOrders p.config.upper p.config.allFeatures
      p.bucketName (p.withModifiers (splitComma p.modifiers)) >>= f := by
  have htests : BuildTarget.tests ∈ (p.testArgs w).buildTargets := w.complete _
  have hmanifest : BuildTarget.manifest ∈ (p.testArgs w).buildTargets := w.complete _
  rw [uploadTests, uploadTestResults, if_neg (not_not.2 htests), if_neg (not_not.2 hmanifest),
    if_neg (by simp [testArgs])]
  exact ⟨_, rfl⟩

/-- Promoting fails for an unknown platform, and for modifiers that are not normalised. -/
theorem promote_rejects
    (h : ¬ (p.platform ∈ platformNames p.config.allFeatures ∧
      Expands p.config.allFeatures (p.platform :: splitComma p.modifiers))) :
    Rejects (p.promote w) := by
  have hpublish : BuildTarget.publish ∈ (p.promoteArgs w).buildTargets := w.complete _
  rw [promote, promoteSingleStep, if_neg (not_not.2 hpublish)]
  split
  · exact rejects_of_run rfl
  · next hplatform =>
    have hnot : ¬ ∃ l, normalisedModifiers w.modifierOrders p.config.upper p.config.allFeatures
        p.platform (splitComma p.modifiers) = .ok l :=
      fun hok => h ⟨not_not.1 hplatform, normalisedModifiers_ok_iff_expands.1 hok⟩
    cases hn : normalisedModifiers w.modifierOrders p.config.upper p.config.allFeatures p.platform
        (splitComma p.modifiers) with
    | ok l => exact absurd ⟨l, hn⟩ hnot
    | error e =>
      apply rejects_of_run (e := e)
      show (Steps.ofModel (normalisedModifiers w.modifierOrders p.config.upper p.config.allFeatures
        p.platform (splitComma p.modifiers)) >>= _ : Step Unit).run = _
      rw [hn]
      rfl

theorem promote_addresses {normalised : List String}
    (hplatform : p.platform ∈ platformNames p.config.allFeatures)
    (hnormalised : normalisedModifiers w.modifierOrders p.config.upper p.config.allFeatures
      p.platform (splitComma p.modifiers) = .ok normalised)
    (hkey : (p.withModifiers normalised).canonicalReleaseManifestKey w.promoteFindOrders.key
      p.config.upper p.config.allFeatures = .ok key) :
    Addresses (p.promote w) key := by
  have hpublish : BuildTarget.publish ∈ (p.promoteArgs w).buildTargets := w.complete _
  have hknown : (p.promoteArgs w).platform ∈ platformNames p.config.allFeatures := hplatform
  rw [promote, promoteSingleStep, if_neg (not_not.2 hpublish), if_neg (not_not.2 hknown)]
  show Addresses (Steps.ofModel (normalisedModifiers w.modifierOrders p.config.upper
    p.config.allFeatures p.platform (splitComma p.modifiers)) >>= _ : Step Unit) key
  rw [hnormalised]
  exact findRelease_addresses hkey

variable (p w) in
theorem exists_manifest (paths : List S3ReleaseFile) :
    ∃ manifest, (p.uploadArgs w).manifest paths = .ok manifest ∧
      manifest.releaseIdentifier = p.built := by
  have hok : ∃ manifest, (p.uploadArgs w).manifest paths = .ok manifest := by
    unfold UploadArgs.manifest
    dsimp only
    split
    · exact ⟨_, rfl⟩
    · exact ⟨_, rfl⟩
  obtain ⟨manifest, hmanifest⟩ := hok
  exact ⟨manifest, hmanifest, (UploadArgs.manifest_ok hmanifest).1⟩

variable (p w) in
/-- The upload stores the artifacts first, and then the manifest under a key of the release. -/
theorem exists_upload_eq (bucket : Bucket) :
    ∃ (left : Bucket) (manifest : ReleaseManifest), manifest.releaseIdentifier = p.built ∧
      (p.upload w).run.eval s3Service bucket =
        (Steps.ofModel (p.built.canonicalReleaseManifestKeySuffix w.uploadOrders p.config.upper
          p.config.allFeatures) >>= fun suffix =>
            Steps.uploadReleaseManifest (manifestKeyPrefix ++ "/" ++ suffix)
              manifest.document).run.eval s3Service left ∧
      manifestKeys (p.upload w) bucket =
        manifestKeys (Steps.ofModel (p.built.canonicalReleaseManifestKeySuffix w.uploadOrders
          p.config.upper p.config.allFeatures) >>= fun suffix =>
            Steps.uploadReleaseManifest (manifestKeyPrefix ++ "/" ++ suffix)
              manifest.document) left := by
  obtain ⟨manifest, hmanifest, hbuilt⟩ := exists_manifest p w
    (relpaths p.bucketName (p.uploadArgs w).uploadVersion w.sha1 w.files)
  have htarget : BuildTarget.manifest ∈ (p.uploadArgs w).buildTargets := w.complete _
  have hupload : p.upload w =
      (uploadFiles p.bucketName (p.uploadArgs w).uploadVersion w.sha1 w.files >>= fun paths =>
        ExceptT.mk (.done ((p.uploadArgs w).manifest paths)) >>= fun manifest =>
          Steps.ofModel (manifest.canonicalReleaseManifestKeySuffix w.uploadOrders p.config.upper
            p.config.allFeatures) >>= fun suffix =>
              Steps.uploadReleaseManifest (manifestKeyPrefix ++ "/" ++ suffix)
                manifest.document) := by
    rw [upload, uploadResultsStep, if_neg (not_not.2 htarget), if_neg (by simp [uploadArgs]),
      if_neg (by simp [uploadArgs])]
    rfl
  refine ⟨uploadedFiles w.sha1 bucket w.files, manifest, hbuilt, ?_, ?_⟩
  · rw [hupload, eval_run_bind, uploadFiles_eval]
    show (ExceptT.mk (.done ((p.uploadArgs w).manifest _)) >>= _ : Step Unit).run.eval
      s3Service _ = _
    rw [hmanifest, ← hbuilt]
    rfl
  · rw [hupload, manifestKeys_bind, manifestKeys_uploadFiles, uploadFiles_eval, List.nil_append]
    show manifestKeys (ExceptT.mk (.done ((p.uploadArgs w).manifest _)) >>= _ : Step Unit) _ = _
    rw [hmanifest, ← hbuilt]
    rfl

theorem upload_rejects {e : ModelError}
    (h : p.built.canonicalReleaseManifestKey w.uploadOrders p.config.upper p.config.allFeatures =
      .error e) : Rejects (p.upload w) := by
  have hsuffix : ∃ e, p.built.canonicalReleaseManifestKeySuffix w.uploadOrders p.config.upper
      p.config.allFeatures = .error e := by
    cases hs : p.built.canonicalReleaseManifestKeySuffix w.uploadOrders p.config.upper
        p.config.allFeatures with
    | error e => exact ⟨e, rfl⟩
    | ok suffix =>
      rw [key_ok_iff.2 ⟨suffix, hs, rfl⟩] at h
      cases h
  obtain ⟨e', he'⟩ := hsuffix
  intro bucket
  obtain ⟨left, manifest, -, heval, hkeys⟩ := exists_upload_eq p w bucket
  rw [heval, hkeys, he']
  exact ⟨⟨e', rfl⟩, rfl⟩

theorem upload_addresses
    (h : p.built.canonicalReleaseManifestKey w.uploadOrders p.config.upper p.config.allFeatures =
      .ok key) :
    Addresses (p.upload w) key ∧ ∀ bucket, ∃ document : OnlineReleaseManifest,
      document.releaseIdentifier = p.built ∧
      ((p.upload w).run.eval s3Service bucket).2.lookup key = some (.manifest document) := by
  have hprefixed := hasPrefix_of_key h
  obtain ⟨suffix, hsuffix, rfl⟩ := key_ok_iff.1 h
  constructor
  · intro bucket
    obtain ⟨left, manifest, -, -, hkeys⟩ := exists_upload_eq p w bucket
    rw [hkeys, hsuffix]
    show (List.filter _ [manifestKeyPrefix ++ "/" ++ suffix]).head? = _
    rw [List.filter_cons_of_pos hprefixed]
    rfl
  · intro bucket
    obtain ⟨left, manifest, hbuilt, heval, -⟩ := exists_upload_eq p w bucket
    refine ⟨manifest.document, hbuilt, ?_⟩
    rw [heval, hsuffix]
    exact AList.lookup_insert _

/-! ## Rejecting -/

theorem mem_of_platformNames (h : p.platform ∈ platformNames p.config.allFeatures) :
    p.platform ∈ p.config.allFeatures := by
  obtain ⟨feature, hfeature, hname⟩ := List.mem_map.1 h
  rw [← hname, AList.mem_keys]
  exact List.mem_map_of_mem (List.mem_of_mem_filter hfeature)

theorem expands_built (h : Expands p.config.allFeatures (splitComma p.modifiers)) :
    Expands p.config.allFeatures p.built.modifiers :=
  fun u hu => h u (List.mem_of_mem_filter hu)

/-- A key that cannot be computed is an error. -/
theorem exists_key_error {r : ReleaseIdentifier} (orders : SetOrders)
    (h : ¬ (r.platform ∈ p.config.allFeatures ∧ Expands p.config.allFeatures r.modifiers)) :
    ∃ e, r.canonicalReleaseManifestKey orders p.config.upper p.config.allFeatures = .error e := by
  cases hkey : r.canonicalReleaseManifestKey orders p.config.upper p.config.allFeatures with
  | error e => exact ⟨e, rfl⟩
  | ok key =>
    obtain ⟨hp, hexpands, -⟩ := key_ok_iff_expands.1 hkey
    exact absurd ⟨hp, hexpands⟩ h

theorem allReject
    (h : ¬ (p.platform ∈ p.config.allFeatures ∧ Expands p.config.allFeatures p.built.modifiers)) :
    p.AllReject w := by
  have herror := fun orders => exists_key_error (r := p.built) orders h
  refine ⟨?_, ?_, ?_, ?_, ?_⟩
  · obtain ⟨e, he⟩ := herror w.preBuildOrders.key
    rw [preBuild_eq]
    exact findRelease_rejects he
  · obtain ⟨e, he⟩ := herror w.preCheckOrders.key
    rw [preCheck_eq]
    exact findRelease_rejects he
  · obtain ⟨e, he⟩ := herror w.uploadOrders
    exact upload_rejects he
  · apply promote_rejects
    rintro ⟨hplatform, hexpands⟩
    exact h ⟨mem_of_platformNames hplatform, expands_built (List.forall_mem_cons.1 hexpands).2⟩
  · obtain ⟨f, hf⟩ := exists_uploadTests_eq p w
    rw [hf]
    obtain ⟨e, he⟩ := exists_key_error (p := p) (r := p.withModifiers (splitComma p.modifiers))
      w.testFindOrders.key fun hx => h ⟨hx.1, expands_built hx.2⟩
    exact findRelease_rejects he

end Parameters

/-- The surroundings in which all sets have one order. -/
def Surroundings.alike (orders : SetOrders) : Surroundings where
  buildTargets := [.baseBuild, .build, .manifest, .componentDescriptor, .tests, .publish,
    .freezeVersion, .githubRelease]
  complete target := by cases target <;> decide
  preBuildOrders := ⟨orders, orders, orders⟩
  preCheckOrders := ⟨orders, orders, orders⟩
  uploadOrders := orders
  modifierOrders := orders
  promoteFindOrders := ⟨orders, orders, orders⟩
  promoteKeyOrders := orders
  testFindOrders := ⟨orders, orders, orders⟩
  testKeyOrders := orders
  buildImage := ""
  files := []
  sha1 _ := ""
  now := ""
  publishOci _ := .oci ""
  publish _ := .ok (.oci "")
  testResult := ⟨"", .ok, ""⟩

namespace Parameters

variable {p : Parameters} {w : Surroundings} {key : String}

/-! ## Steps that address one key agree on the release -/

theorem exists_built_key (hplatform : p.platform ∈ p.config.allFeatures)
    (hexpands : Expands p.config.allFeatures p.built.modifiers) (orders : SetOrders) :
    ∃ key, p.built.canonicalReleaseManifestKey orders p.config.upper p.config.allFeatures =
      .ok key := by
  obtain ⟨maximal, hmax⟩ := exists_maximal p.config.allFeatures p.built.modifiers
  exact ⟨_, key_ok_iff_expands.2 ⟨hplatform, hexpands, maximal, hmax, rfl⟩⟩

theorem OneRelease.allAddress (h : p.OneRelease) (hplatform : p.platform ∈ p.config.allFeatures)
    (hexpands : Expands p.config.allFeatures p.built.modifiers) (w : Surroundings) :
    ∃ key, p.AllAddress w key := by
  refine (h w).resolve_left ?_
  rintro ⟨hreject, -⟩
  rw [preBuild_eq] at hreject
  obtain ⟨key, hkey⟩ := exists_built_key hplatform hexpands w.preBuildOrders.key
  exact (findRelease_addresses hkey).not_rejects hreject

/-- What promoting and uploading the test results accept. -/
theorem AllAddress.accepts (h : p.AllAddress w key) :
    p.platform ∈ platformNames p.config.allFeatures ∧
      Expands p.config.allFeatures (p.platform :: splitComma p.modifiers) := by
  by_contra hnot
  exact h.promote.not_rejects (promote_rejects hnot)

theorem AllAddress.splitComma_eq (h : p.AllAddress w key) :
    "" ∉ splitComma p.modifiers ∧ p.built.modifiers = splitComma p.modifiers := by
  have hmem : ∀ u ∈ splitComma p.modifiers, u ≠ "" := by
    rintro u hu rfl
    exact p.named (h.accepts.2 "" (List.mem_cons_of_mem _ hu)).1
  exact ⟨fun hempty => hmem "" hempty rfl,
    List.filter_eq_self.2 fun u hu => decide_eq_true (hmem u hu)⟩

/-- The key that the steps address is that of the build in the orders of `pre_build_step`. -/
theorem AllAddress.built_key (h : p.AllAddress w key) :
    p.built.canonicalReleaseManifestKey w.preBuildOrders.key p.config.upper p.config.allFeatures =
      .ok key := by
  have hexpands : Expands p.config.allFeatures p.built.modifiers :=
    expands_built (List.forall_mem_cons.1 h.accepts.2).2
  obtain ⟨key', hkey'⟩ :=
    exists_built_key (mem_of_platformNames h.accepts.1) hexpands w.preBuildOrders.key
  have haddress := h.preBuild
  rw [preBuild_eq] at haddress
  rw [hkey', (findRelease_addresses hkey').eq haddress]

/-- Names that upper-casing does not tell apart are sorted in two ways; then the manifest of the
build is not found. -/
theorem OneRelease.toldApart (h : p.OneRelease) (hplatform : p.platform ∈ p.config.allFeatures)
    (hexpands : Expands p.config.allFeatures (p.platform :: p.built.modifiers)) {u v : String}
    (hu : InClosure p.config.allFeatures p.platform p.built.modifiers u)
    (hv : InClosure p.config.allFeatures p.platform p.built.modifiers v)
    (huv : p.config.upper u = p.config.upper v) : u = v := by
  by_contra hne
  obtain ⟨names, hnames, hnormalised⟩ := exists_normalised hexpands
  obtain ⟨e, e', hsorted⟩ :=
    Enumeration.exists_sortOn_ne ((hnames u).2 hu) ((hnames v).2 hv) hne huv
  let orders : FindOrders :=
    ⟨.sorted, ⟨e, SetOrders.sorted.descriptors⟩, ⟨e', SetOrders.sorted.descriptors⟩⟩
  let w : Surroundings := { Surroundings.alike .sorted with preBuildOrders := orders }
  obtain ⟨key, hkey⟩ := h.allAddress hplatform (List.forall_mem_cons.1 hexpands).2 w
  obtain ⟨document, hdocument, hlookup⟩ := hkey.stored ∅
  have hfind := (hkey.found _ document hdocument hlookup).1
  have hnorm : ∀ o : SetOrders, normalisedReleaseIdentifier o p.config.upper p.config.allFeatures
      p.built = .ok { p.built with modifiers := sortOn p.config.upper (o.names.list names) } :=
    fun o => normalisedReleaseIdentifier_eq (hnormalised o _)
  have hnot : ({ p.built with modifiers := sortOn p.config.upper (e.list names) } :
      ReleaseIdentifier) ≠
      { p.built with modifiers := sortOn p.config.upper (e'.list names) } :=
    fun heq => hsorted (congrArg ReleaseIdentifier.modifiers heq)
  have hread : findRelease orders p.config.upper p.config.allFeatures p.bucketName _ p.built = _ :=
    findRelease_of_lookup hkey.built_key hlookup
      ((congrArg _ hdocument).trans (hnorm orders.found)) (hnorm orders.searched)
  rw [if_neg hnot] at hread
  rw [preBuild_eq, eval_run_bind, Steps.findRelease_eval, hread] at hfind
  exact Bool.false_ne_true (Except.ok.inj (Prod.mk.inj hfind).1)

/-- Normalised modifiers have the topmost names of the closure as their maximal ones. -/
theorem isMaximal_normalised {names : Finset String}
    (hnames : ∀ v, v ∈ names ↔ InClosure p.config.allFeatures p.platform p.built.modifiers v)
    (orders : SetOrders) (v : String) :
    IsMaximal p.config.allFeatures (sortOn p.config.upper (orders.names.list names)) v ↔
      p.Topmost v := by
  simp only [IsMaximal, Topmost, mem_sortOn, orders.names.mem_list, hnames]

theorem expands_normalised {names : Finset String}
    (hnames : ∀ v, v ∈ names ↔ InClosure p.config.allFeatures p.platform p.built.modifiers v)
    (hall : Expands p.config.allFeatures (p.platform :: p.built.modifiers)) (orders : SetOrders) :
    Expands p.config.allFeatures (sortOn p.config.upper (orders.names.list names)) := by
  intro v hv
  rw [mem_sortOn, orders.names.mem_list, hnames] at hv
  exact hall.inClosure hv v (List.mem_singleton_self v)

/-- The key of the normalised modifiers is made of the topmost names. -/
theorem normalised_key_iff {names all : Finset String} {orders orders' : SetOrders}
    (hnames : ∀ v, v ∈ names ↔ InClosure p.config.allFeatures p.platform p.built.modifiers v)
    (hall : Expands p.config.allFeatures (p.platform :: p.built.modifiers))
    (htop : ∀ v, v ∈ all ↔ p.Topmost v) :
    (p.withModifiers (sortOn p.config.upper (orders.names.list names))).canonicalReleaseManifestKey
        orders' p.config.upper p.config.allFeatures = .ok key ↔
      key = manifestKeyPrefix ++ "/" ++ ((String.singleton '-').intercalate
        (flavourNames orders' p.config.upper p.config.allFeatures p.platform all) ++
          p.built.keyTail) := by
  rw [key_ok_iff_expands]
  constructor
  · rintro ⟨-, -, all', hall', rfl⟩
    obtain rfl : all' = all := by
      ext v
      rw [hall', htop, withModifiers, isMaximal_normalised hnames]
    rfl
  · rintro rfl
    refine ⟨(hall p.platform List.mem_cons_self).1, expands_normalised hnames hall orders, all, ?_,
      rfl⟩
    intro v
    rw [htop, withModifiers, isMaximal_normalised hnames]

theorem OneRelease.consistent (h : p.OneRelease) (hplatform : p.platform ∈ p.config.allFeatures)
    (hexpands : Expands p.config.allFeatures p.built.modifiers) : p.Consistent := by
  obtain ⟨key₀, hkey₀⟩ := h.allAddress hplatform hexpands (Surroundings.alike .sorted)
  obtain ⟨hempty, hbuilt⟩ := hkey₀.splitComma_eq
  obtain ⟨hknown, hall⟩ := hkey₀.accepts
  rw [← hbuilt] at hall
  refine ⟨hempty, hknown, hall, fun u v => h.toldApart hplatform hall, ?_⟩
  intro own all hown htop orders
  obtain ⟨key, hkey⟩ := h.allAddress hplatform hexpands (Surroundings.alike orders)
  obtain ⟨names, hnames, hnormalised⟩ := exists_normalised hall
  obtain ⟨-, -, own', hown', hkeyOwn⟩ := key_ok_iff_expands.1 hkey.built_key
  obtain rfl : own' = own := by
    ext v
    rw [hown', hown]
  -- promoting looks for the key of the normalised modifiers
  have hl := hnormalised orders p.config.upper
  rw [hbuilt] at hl
  have hpromote := hkey.promote.eq
    (promote_addresses hknown hl ((normalised_key_iff hnames hall htop).2 rfl))
  exact joined_eq rfl (hkeyOwn.symm.trans hpromote)

/-! ## One release for consistent parameters -/

theorem Consistent.splitComma_eq (h : p.Consistent) :
    splitComma p.modifiers = p.built.modifiers := by
  refine (List.filter_eq_self.2 ?_).symm
  intro u hu
  rw [decide_eq_true_eq]
  rintro rfl
  exact h.noEmpty hu

theorem exists_topmost {names : Finset String}
    (hnames : ∀ v, v ∈ names ↔ InClosure p.config.allFeatures p.platform p.built.modifiers v) :
    ∃ all : Finset String, ∀ v, v ∈ all ↔ p.Topmost v := by
  classical
  refine ⟨names.filter p.Topmost, ?_⟩
  intro v
  rw [Finset.mem_filter, hnames]
  exact ⟨And.right, fun hv => ⟨hv.1, hv⟩⟩

/-- One key for the modifiers as they are given and normalised, in all orders of the sets. -/
theorem Consistent.exists_key (h : p.Consistent) {names : Finset String}
    (hnames : ∀ v, v ∈ names ↔ InClosure p.config.allFeatures p.platform p.built.modifiers v) :
    ∃ key, p.built.HasKey p.config key ∧ ∀ orders : SetOrders,
      (p.withModifiers (sortOn p.config.upper (orders.names.list names))).HasKey p.config key := by
  have hexpands := (List.forall_mem_cons.1 h.expands).2
  obtain ⟨key, hkey⟩ := exists_built_key (mem_of_platformNames h.platform) hexpands .sorted
  have htold : p.built.ToldApart p.config := fun u v hu hv huv =>
    h.toldApart u v (.inl hu.1) (.inl hv.1) huv
  obtain ⟨all, hall⟩ := exists_topmost hnames
  refine ⟨key, htold.hasKey hkey, ?_⟩
  intro orders orders'
  obtain ⟨-, -, own, hown, hjoined⟩ := key_ok_iff_expands.1 (htold.hasKey hkey orders')
  have hsame := h.joined own all hown hall orders'
  rw [normalised_key_iff hnames h.expands hall, hjoined]
  exact congrArg (fun joined => manifestKeyPrefix ++ "/" ++ (joined ++ p.built.keyTail)) hsame

/-- One normalised identifier for them. -/
theorem Consistent.exists_identifier (h : p.Consistent) {names : Finset String}
    (hnames : ∀ v, v ∈ names ↔ InClosure p.config.allFeatures p.platform p.built.modifiers v)
    (hnormalised : ∀ (orders : SetOrders) (upper : String → String),
      normalisedModifiers orders upper p.config.allFeatures p.platform p.built.modifiers =
        .ok (sortOn upper (orders.names.list names))) :
    ∃ n, (∀ orders, normalisedReleaseIdentifier orders p.config.upper p.config.allFeatures
        p.built = .ok n) ∧
      ∀ orders orders' : SetOrders, normalisedReleaseIdentifier orders' p.config.upper
        p.config.allFeatures
        (p.withModifiers (sortOn p.config.upper (orders.names.list names))) = .ok n := by
  have hsorted : ∀ orders : SetOrders, sortOn p.config.upper (orders.names.list names) =
      sortOn p.config.upper (SetOrders.sorted.names.list names) := by
    intro orders
    refine sortOn_congr (orders.names.perm SetOrders.sorted.names _) ?_
    intro u hu v hv
    rw [orders.names.mem_list, hnames] at hu hv
    exact h.toldApart u v hu hv
  refine ⟨{ p.built with
    modifiers := sortOn p.config.upper (SetOrders.sorted.names.list names) }, ?_, ?_⟩
  · intro orders
    rw [normalisedReleaseIdentifier_eq (hnormalised orders _), hsorted]
  · intro orders orders'
    have hmem : ∀ v, v ∈ sortOn p.config.upper (orders.names.list names) ↔
        InClosure p.config.allFeatures p.platform p.built.modifiers v := by
      intro v
      rw [mem_sortOn, orders.names.mem_list, hnames]
    have hall : Expands p.config.allFeatures
        (p.platform :: sortOn p.config.upper (orders.names.list names)) :=
      List.forall_mem_cons.2 ⟨(List.forall_mem_cons.1 h.expands).1,
        expands_normalised hnames h.expands orders⟩
    obtain ⟨names', hnames', hnormalised'⟩ := exists_normalised hall
    obtain rfl : names' = names := by
      ext v
      rw [hnames', hnames]
      exact inClosure_congr_between (fun u hu => (hmem u).1 hu) (fun u hu => .inl ((hmem u).2 hu)) v
    have hl := normalisedReleaseIdentifier_eq (r := p.withModifiers
      (sortOn p.config.upper (orders.names.list names'))) (hnormalised' orders' p.config.upper)
    rw [hl, hsorted orders']
    rfl

/-! ### What is found is updated -/

section Found

variable {bucket : Bucket} {document : OnlineReleaseManifest} {n : ReleaseIdentifier}

theorem read_key (hkey : p.built.HasKey p.config key)
    (hdocument : document.releaseIdentifier = p.built) (orders : SetOrders) :
    (p.read key document).canonicalReleaseManifestKey orders p.config.upper p.config.allFeatures =
      .ok key :=
  (congrArg (fun r : ReleaseIdentifier => r.canonicalReleaseManifestKey orders p.config.upper
    p.config.allFeatures) hdocument).trans (hkey orders)

/-- Promoting writes the manifest that it found back to its key. -/
theorem promote_eval {normalised : List String}
    (hplatform : p.platform ∈ platformNames p.config.allFeatures)
    (hl : normalisedModifiers w.modifierOrders p.config.upper p.config.allFeatures p.platform
      (splitComma p.modifiers) = .ok normalised)
    (hbuilt : p.built.HasKey p.config key) (hkey : (p.withModifiers normalised).HasKey p.config key)
    (hlookup : bucket.lookup key = some (.manifest document))
    (hdocument : document.releaseIdentifier = p.built)
    (hfound : normalisedReleaseIdentifier w.promoteFindOrders.found p.config.upper
      p.config.allFeatures document.releaseIdentifier = .ok n)
    (hsearched : normalisedReleaseIdentifier w.promoteFindOrders.searched p.config.upper
      p.config.allFeatures (p.withModifiers normalised) = .ok n) :
    ((p.promote w).run.eval s3Service bucket).2 = p.promotedBucket w bucket key document := by
  have hpublish : BuildTarget.publish ∈ (p.promoteArgs w).buildTargets := w.complete _
  have hknown : (p.promoteArgs w).platform ∈ platformNames p.config.allFeatures := hplatform
  rw [promote, promoteSingleStep, if_neg (not_not.2 hpublish), if_neg (not_not.2 hknown)]
  show ((Steps.ofModel (normalisedModifiers w.modifierOrders p.config.upper
    p.config.allFeatures p.platform (splitComma p.modifiers)) >>= _ : Step Unit).run.eval s3Service
      bucket).2 = _
  rw [hl]
  show ((Steps.findRelease w.promoteFindOrders p.config.upper p.config.allFeatures p.bucketName
    (p.withModifiers normalised) >>= _ : Step Unit).run.eval s3Service bucket).2 = _
  rw [findRelease_finds (hkey _) hlookup hfound hsearched, promotedBucket]
  dsimp only
  split
  · rfl
  · next hpublished =>
    rw [if_pos (not_not.1 hpublished)]
    show ((ExceptT.mk (.done (promoted p.config (p.promoteArgs w) (p.read key document))) >>=
      _ : Step Unit).run.eval s3Service bucket).2 = _
    cases hnew : promoted p.config (p.promoteArgs w) (p.read key document) with
    | error e => rfl
    | ok new =>
      have hsame : new.releaseIdentifier = (p.read key document).releaseIdentifier := by
        rw [promoted_overwrites hnew, ManifestField.releaseIdentifier_overwrite]
      have hnewKey : new.canonicalReleaseManifestKey w.promoteKeyOrders p.config.upper
          p.config.allFeatures = .ok key :=
        (congrArg (fun r : ReleaseIdentifier => r.canonicalReleaseManifestKey w.promoteKeyOrders
          p.config.upper p.config.allFeatures) hsame).trans (read_key hbuilt hdocument _)
      show ((Steps.ofModel (new.canonicalReleaseManifestKey w.promoteKeyOrders p.config.upper
        p.config.allFeatures) >>= _ : Step Unit).run.eval s3Service bucket).2 = _
      rw [hnewKey]
      rfl

/-- So does uploading the test results. -/
theorem uploadTests_eval (hsplit : splitComma p.modifiers = p.built.modifiers)
    (hbuilt : p.built.HasKey p.config key)
    (hlookup : bucket.lookup key = some (.manifest document))
    (hdocument : document.releaseIdentifier = p.built)
    (hfound : ∀ orders, normalisedReleaseIdentifier orders p.config.upper p.config.allFeatures
      p.built = .ok n) :
    ((p.uploadTests w).run.eval s3Service bucket).2 =
      bucket.insert key (.manifest ((p.read key document).withTestResult w.testResult)) := by
  have htests : BuildTarget.tests ∈ (p.testArgs w).buildTargets := w.complete _
  have hmanifest : BuildTarget.manifest ∈ (p.testArgs w).buildTargets := w.complete _
  obtain ⟨suffix, hsuffix, rfl⟩ := key_ok_iff.1 (read_key hbuilt hdocument w.testKeyOrders)
  rw [uploadTests, uploadTestResults, if_neg (not_not.2 htests), if_neg (not_not.2 hmanifest),
    if_neg (by simp [testArgs])]
  show ((Steps.findRelease w.testFindOrders p.config.upper p.config.allFeatures p.bucketName
    (p.withModifiers (splitComma p.modifiers)) >>= _ : Step Unit).run.eval s3Service bucket).2 = _
  rw [hsplit]
  show ((Steps.findRelease w.testFindOrders p.config.upper p.config.allFeatures p.bucketName
    p.built >>= _ : Step Unit).run.eval s3Service bucket).2 = _
  rw [findRelease_finds (hbuilt _) hlookup ((congrArg _ hdocument).trans (hfound _)) (hfound _)]
  show ((Steps.ofModel ((p.read (manifestKeyPrefix ++ "/" ++ suffix)
    document).canonicalReleaseManifestKeySuffix w.testKeyOrders p.config.upper
      p.config.allFeatures) >>= _ : Step Unit).run.eval s3Service bucket).2 = _
  rw [hsuffix]
  show ((if w.testResult.testResult ≠ .ok then throw (.sysExit 1) else pure () : Step Unit).run.eval
    s3Service (bucket.insert _ _)).2 = _
  split
  · rfl
  · rfl

end Found

theorem Consistent.allAddress (h : p.Consistent) (w : Surroundings) :
    ∃ key, p.AllAddress w key := by
  obtain ⟨names, hnames, hnormalised⟩ := exists_normalised h.expands
  obtain ⟨key, hbuilt, hnormal⟩ := h.exists_key hnames
  obtain ⟨n, hfound, hsearched⟩ := h.exists_identifier hnames hnormalised
  have hl := hnormalised w.modifierOrders p.config.upper
  rw [← h.splitComma_eq] at hl
  obtain ⟨hupload, hstored⟩ := upload_addresses (w := w) (hbuilt _)
  refine ⟨key, ?_, ?_, hupload, ?_, ?_, hstored, ?_⟩
  · rw [preBuild_eq]
    exact findRelease_addresses (hbuilt _)
  · rw [preCheck_eq]
    exact findRelease_addresses (hbuilt _)
  · exact promote_addresses h.platform hl (hnormal _ _)
  · obtain ⟨f, hf⟩ := exists_uploadTests_eq p w
    rw [hf, h.splitComma_eq]
    exact findRelease_addresses (hbuilt _)
  · intro bucket document hdocument hlookup
    have hread : ∀ orders, normalisedReleaseIdentifier orders p.config.upper p.config.allFeatures
        document.releaseIdentifier = .ok n := by
      intro orders
      rw [hdocument, hfound]
    refine ⟨?_, ?_, ?_, ?_⟩
    · rw [preBuild_eq, findRelease_finds (hbuilt _) hlookup (hread _) (hfound _)]
      rfl
    · rw [preCheck_eq, findRelease_finds (hbuilt _) hlookup (hread _) (hfound _)]
      rfl
    · exact promote_eval h.platform hl hbuilt (hnormal _) hlookup hdocument (hread _)
        (hsearched _ _)
    · exact uploadTests_eval h.splitComma_eq hbuilt hlookup hdocument hfound

/-- **One release.** The steps resolve one release exactly if all of them reject the platform or the
modifiers, or these are consistent. -/
theorem oneRelease_iff (p : Parameters) :
    p.OneRelease ↔
      p.platform ∉ p.config.allFeatures ∨ ¬ Expands p.config.allFeatures p.built.modifiers ∨
        p.Consistent := by
  constructor
  · intro h
    by_cases hplatform : p.platform ∈ p.config.allFeatures
    · by_cases hexpands : Expands p.config.allFeatures p.built.modifiers
      · exact .inr (.inr (h.consistent hplatform hexpands))
      · exact .inr (.inl hexpands)
    · exact .inl hplatform
  · rintro (hplatform | hexpands | hconsistent) w
    · exact .inl (allReject fun hx => hplatform hx.1)
    · exact .inl (allReject fun hx => hexpands hx.2)
    · exact .inr (hconsistent.allAddress w)

/-- Without modifiers the steps resolve no release for a platform that exists: those that do not
drop the empty item look for a feature without a name. -/
theorem not_oneRelease_of_empty (hplatform : p.platform ∈ p.config.allFeatures)
    (hmodifiers : p.modifiers = "") : ¬ p.OneRelease := by
  have hbuilt : p.built.modifiers = [] := by
    show withoutEmpty p.modifiers = []
    rw [hmodifiers]
    rfl
  intro h
  have hexpands : Expands p.config.allFeatures p.built.modifiers := by
    rw [hbuilt]
    exact List.forall_mem_nil _
  obtain ⟨key, hkey⟩ := h.allAddress hplatform hexpands (Surroundings.alike .sorted)
  apply hkey.splitComma_eq.1
  rw [hmodifiers]
  exact List.mem_singleton_self ""

/-- Modifiers that are closed under inclusion, as the generator of the pipelines lists them, are
consistent if no name is empty, the platform is one, and the names are told apart. -/
theorem Consistent.of_closed (hempty : "" ∉ splitComma p.modifiers)
    (hplatform : p.platform ∈ platformNames p.config.allFeatures)
    (hexpands : Expands p.config.allFeatures (p.platform :: p.built.modifiers))
    (htold : ∀ u v, InClosure p.config.allFeatures p.platform p.built.modifiers u →
      InClosure p.config.allFeatures p.platform p.built.modifiers v →
      p.config.upper u = p.config.upper v → u = v)
    (hclosed : ∀ v, InClosure p.config.allFeatures p.platform p.built.modifiers v →
      v ∈ p.built.modifiers) : p.Consistent := by
  refine ⟨hempty, hplatform, hexpands, htold, ?_⟩
  intro own all hown hall orders
  have hmem : ∀ v, v ∈ p.built.modifiers ↔
      InClosure p.config.allFeatures p.platform p.built.modifiers v :=
    fun v => ⟨.inl, hclosed v⟩
  obtain rfl : own = all := by
    ext v
    rw [hown, hall, IsMaximal, Topmost]
    simp only [hmem]
  rfl

/-- The platform `gcp` of the repository without modifiers. -/
def gcpOnly : Parameters where
  config := repositoryConfig
  bucketName := "gardenlinux"
  committish := "5b1e9f03"
  architecture := .amd64
  platform := "gcp"
  gardenlinuxEpoch := 576
  modifiers := ""
  version := "576.0"
  named := by decide +kernel

/-- Building addresses a key, and promoting rejects the same modifiers. -/
theorem oneRelease_fails : ¬ gcpOnly.OneRelease :=
  not_oneRelease_of_empty (by decide +kernel) rfl

end Parameters

end Glci
