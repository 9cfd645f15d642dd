import GardenLinux.Lib.Text
import GardenLinux.Glci.Agreement
import GardenLinux.Glci.Steps

/-!
# Publications over shared staging areas

`publish_image` of `ci/promote.py` for the platforms that stage the artifact of a release
first: `AlicloudImageMaker` of `ci/glci/alicloud.py` copies it to an object of a bucket and
imports the image from there, `ci/glci/gcp.py` does the same and deletes the object again, and
`ci/glci/az.py` copies it to a blob that the plan of the offer then names.  The object is named
after the version only.

To ask for an image is one thing, and that the service makes it another: this happens at some
later time, for `az.py` always after the publication has come to its end.  The service is
therefore a party of its own, which works on one of the images when it is its turn.

What is proved here:

* `publishImage_safe` — a publication stages its own artifact, asks for an image of what it has
  staged when this is complete, and deletes no other object;
* `turn_of_allowed` — what a call of such a publication does to the cloud.
-/

namespace Glci

open GardenFeat Process

/-! ## Staging areas -/

/-- The OSS bucket, the bucket of gcp, and the container of the storage account. -/
inductive StagingStore
  | oss
  | gcs
  | storageAccount
  deriving DecidableEq

structure StagingObject where
  store : StagingStore
  name : String
  deriving DecidableEq

/-- The `microsoft-azure-virtualmachines.vmImages` of the plan: the blob of each version. -/
abbrev VmImages := AList fun _ : String => StagingObject

/-- What an image is made of: an object, or what the plan names for a version. -/
inductive ImageSource
  | object (object : StagingObject)
  | plan (version : String)
  deriving DecidableEq

/-- An image is made of the pieces of the object that the service finds. -/
inductive ImageState
  | pending
  | made (content : List S3ReleaseFile)
  | failed
  deriving DecidableEq

structure CloudImage where
  store : StagingStore
  imageName : String
  source : ImageSource
  state : ImageState
  deriving DecidableEq

/-- What publications ask of the cloud services.  `importImage` is the import job of
`import_image`, the `insert` of gcp, or `publish_offer`; `work` is the service's own. -/
inductive StagingCall
  | upload (object : StagingObject) (artifact : S3ReleaseFile)
  | createPageBlob (object : StagingObject)
  | uploadPages (object : StagingObject) (artifact : S3ReleaseFile)
  | describeImages (store : StagingStore) (imageName : String)
  | importImage (store : StagingStore) (imageName : String) (source : ImageSource)
  | imageStatus (image : ℕ)
  | waitForOperation (image : ℕ)
  | fetchOffer
  | updateOffer (fetched : VmImages) (version : String) (blob : StagingObject)
  | delete (object : StagingObject)
  | work (image : ℕ)

@[reducible] def StagingCall.Result : StagingCall → Type
  | .upload _ _ => Unit
  | .createPageBlob _ => Unit
  | .uploadPages _ _ => Unit
  | .describeImages _ _ => Option ℕ
  | .importImage _ _ _ => ℕ
  | .imageStatus _ => Bool
  | .waitForOperation _ => Unit
  | .fetchOffer => VmImages
  | .updateOffer _ _ _ => Unit
  | .delete _ => Unit
  | .work _ => Unit

/-- There is no answer when the service raises an exception. -/
@[reducible] def staging : Interface where
  Call := StagingCall
  Answer c := Option c.Result

/-- The staged objects with the files that their pieces are copies of, the plan, the images that
have been asked for, and the number of calls so far. -/
structure Cloud where
  objects : AList fun _ : StagingObject => List S3ReleaseFile
  plan : VmImages
  images : List CloudImage
  calls : ℕ

namespace Cloud

/-- A call that does what it should, unless the service is not available. -/
def attempt {α : Type} (outage : ℕ → Bool) (cloud : Cloud)
    (act : Cloud → Option α × Cloud) : Option α × Cloud :=
  let counted := { cloud with calls := cloud.calls + 1 }
  if outage cloud.calls then (none, counted) else act counted

def upload (object : StagingObject) (artifact : S3ReleaseFile) (cloud : Cloud) :
    Option Unit × Cloud :=
  (some (), { cloud with objects := cloud.objects.insert object [artifact] })

def createPageBlob (object : StagingObject) (cloud : Cloud) : Option Unit × Cloud :=
  (some (), { cloud with objects := cloud.objects.insert object [] })

def uploadPages (object : StagingObject) (artifact : S3ReleaseFile) (cloud : Cloud) :
    Option Unit × Cloud :=
  match cloud.objects.lookup object with
  | some content =>
    (some (), { cloud with objects := cloud.objects.insert object (content ++ [artifact]) })
  | none => (none, cloud)

/-- The first image of the name, in any state. -/
def describeImages (store : StagingStore) (imageName : String) (cloud : Cloud) :
    Option (Option ℕ) × Cloud :=
  (some (cloud.images.findIdx? fun image => image.store = store ∧ image.imageName = imageName),
    cloud)

def importImage (store : StagingStore) (imageName : String) (source : ImageSource)
    (cloud : Cloud) : Option ℕ × Cloud :=
  (some cloud.images.length,
    { cloud with images := cloud.images ++ [⟨store, imageName, source, .pending⟩] })

/-- Whether the image is `Available`. -/
def imageStatus (image : ℕ) (cloud : Cloud) : Option Bool × Cloud :=
  (match cloud.images[image]? with
    | some ⟨_, _, _, .made _⟩ => some true
    | some _ => some false
    | none => none, cloud)

/-- The service answers after some time, whatever the state of the operation. -/
def waitForOperation (cloud : Cloud) : Option Unit × Cloud := (some (), cloud)

def fetchOffer (cloud : Cloud) : Option VmImages × Cloud := (some cloud.plan, cloud)

/-- `update_offer` with the plan that `add_image_version_to_plan` has made of the fetched one. -/
def updateOffer (fetched : VmImages) (version : String) (blob : StagingObject) (cloud : Cloud) :
    Option Unit × Cloud :=
  (some (), { cloud with plan := fetched.insert version blob })

/-- `delete` raises when there is no such object. -/
def delete (object : StagingObject) (cloud : Cloud) : Option Unit × Cloud :=
  if object ∈ cloud.objects then (some (), { cloud with objects := cloud.objects.erase object })
  else (none, cloud)

/-- What the service finds when it reads the source of an image. -/
def read (cloud : Cloud) : ImageSource → Option (List S3ReleaseFile)
  | .object object => cloud.objects.lookup object
  | .plan version => (cloud.plan.lookup version).bind cloud.objects.lookup

/-- The image after the service has worked on it. -/
def advance (cloud : Cloud) (image : CloudImage) : CloudImage :=
  match image.state with
  | .pending =>
    match cloud.read image.source with
    | some content => { image with state := .made content }
    | none => { image with state := .failed }
  | _ => image

def work (image : ℕ) (cloud : Cloud) : Option Unit × Cloud :=
  (some (), { cloud with images := cloud.images.modify image cloud.advance })

/-- The service has yet to make the image. -/
def isPending (cloud : Cloud) (image : ℕ) : Bool :=
  cloud.images[image]?.any fun image => image.state = .pending

end Cloud

/-- The services, where `outage` tells which calls fail. -/
def cloudService (outage : ℕ → Bool) : Service staging Cloud where
  perform cloud
    | .upload object artifact => cloud.attempt outage (Cloud.upload object artifact)
    | .createPageBlob object => cloud.attempt outage (Cloud.createPageBlob object)
    | .uploadPages object artifact => cloud.attempt outage (Cloud.uploadPages object artifact)
    | .describeImages store imageName =>
      cloud.attempt outage (Cloud.describeImages store imageName)
    | .importImage store imageName source =>
      cloud.attempt outage (Cloud.importImage store imageName source)
    | .imageStatus image => cloud.attempt outage (Cloud.imageStatus image)
    | .waitForOperation _ => cloud.attempt outage Cloud.waitForOperation
    | .fetchOffer => cloud.attempt outage Cloud.fetchOffer
    | .updateOffer fetched version blob =>
      cloud.attempt outage (Cloud.updateOffer fetched version blob)
    | .delete object => cloud.attempt outage (Cloud.delete object)
    | .work image => cloud.attempt outage (Cloud.work image)

/-! ## Publishing -/

/-- How a publication ends before its last line. -/
inductive PublishFailure
  | modelError (e : ModelError)
  | notImplementedError (platform : String)
  | raised
  deriving DecidableEq

abbrev Publisher := ExceptT PublishFailure (Process staging)

def platformToArtifactMapping : List (String × String) :=
  [("ali", "rootfs.qcow2"), ("aws", "rootfs.raw"), ("azure", "rootfs.vhd"),
    ("gcp", "rootfs-gcpimage.tar.gz"), ("kvm", "rootfs.raw"), ("metal", "rootfs.tar.xz"),
    ("oci", "rootfs.tar.xz"), ("openstack", "rootfs.vmdk"), ("vmware", "rootfs.ova")]

/-- `virtual_image_artifact_for_platform`. -/
def virtualImageArtifactForPlatform (platform : String) : Except PublishFailure String :=
  match platformToArtifactMapping.lookup platform with
  | some artifact => .ok artifact
  | none => .error (.notImplementedError platform)

/-- `path_by_suffix`. -/
def ReleaseManifest.pathBySuffix (release : ReleaseManifest) (suffix : String) :
    Except ModelError S3ReleaseFile :=
  match release.paths.find? (·.suffix = suffix) with
  | some path => .ok path
  | none => .error (.valueError suffix)

/-- The artifact that becomes the image of a release. -/
def ReleaseManifest.artifact (release : ReleaseManifest) : Except PublishFailure S3ReleaseFile := do
  let suffix ← virtualImageArtifactForPlatform release.platform
  (release.pathBySuffix suffix).mapError .modelError

/-- `AlicloudImageMaker.image_oss_key`. -/
def imageOssKey (release : ReleaseManifest) : StagingObject :=
  ⟨.oss, "gardenlinux-" ++ release.version ++ ".qcow2"⟩

/-- `image_blob_name`. -/
def imageBlobName (release : ReleaseManifest) : StagingObject :=
  ⟨.gcs, "gardenlinux-" ++ release.version ++ ".tar.gz"⟩

/-- `_get_target_blob_name`. -/
def getTargetBlobName (version : String) : StagingObject :=
  ⟨.storageAccount, "gardenlinux-az-" ++ version ++ ".vhd"⟩

/-- `.replace('.', '-').replace('_', '-').strip('-')`. -/
def gcpImageName (name : String) : String :=
  String.ofList (Text.strip '-' (name.toList.map fun c => if c = '.' ∨ c = '_' then '-' else c))

/-- What is not up to the code: the calls that fail, the sizes of the files, how often the state of
an image is asked for within `TIME_OUT`, and the images that the service works on, turn by turn. -/
structure CloudBehaviour where
  outage : ℕ → Bool
  fileSize : S3ReleaseFile → ℕ
  polls : ℕ
  works : ℕ → ℕ

def copyStepLength : ℕ := 4 * 1024 * 1024

/-- The number of copies that an artifact is put into an object with. -/
def CloudBehaviour.pieces (b : CloudBehaviour) (store : StagingStore) (artifact : S3ReleaseFile) :
    ℕ :=
  match store with
  | .storageAccount => (b.fileSize artifact + copyStepLength - 1) / copyStepLength
  | _ => 1

/-- A release with the orders in which its publication lists the sets of features. -/
structure Publication where
  release : OnlineReleaseManifest
  keyOrders : SetOrders

namespace Publisher

def ask (c : StagingCall) : Publisher c.Result := do
  match ← ExceptT.lift (Process.perform (I := staging) c) with
  | some result => pure result
  | none => throw .raised

def ofModel {α : Type} (r : Except ModelError α) : Publisher α :=
  ExceptT.mk (.done (r.mapError .modelError))

/-- `virtual_image_artifact_for_platform` and `path_by_suffix`. -/
def artifactPath (release : ReleaseManifest) (platform : String) : Publisher S3ReleaseFile := do
  let suffix ← ExceptT.mk (.done (virtualImageArtifactForPlatform platform))
  ofModel (release.pathBySuffix suffix)

def keySuffix (config : Config) (p : Publication) : Publisher String :=
  ofModel (p.release.canonicalReleaseManifestKeySuffix p.keyOrders config.upper config.allFeatures)

/-- `_wait_for_image`. -/
def waitForImage (image : ℕ) : ℕ → Publisher Unit
  | 0 => throw .raised
  | polls + 1 => do
    if ← ask (.imageStatus image) then pure () else waitForImage image polls

/-- `cp_image_from_s3` and `import_image`: the image is imported unless there is one of its name;
both are waited for. -/
def publishAlicloudImage (b : CloudBehaviour) (config : Config) (p : Publication) :
    Publisher Unit := do
  let suffix ← keySuffix config p
  let imageName := "gardenlinux-" ++ suffix
  let path ← artifactPath p.release.toReleaseManifest "ali"
  ask (.upload (imageOssKey p.release.toReleaseManifest) path)
  match ← ask (.describeImages .oss imageName) with
  | some image => waitForImage image b.polls
  | none => do
    let image ←
      ask (.importImage .oss imageName (.object (imageOssKey p.release.toReleaseManifest)))
    waitForImage image b.polls

/-- `_publish_gcp_image`; how the operation has ended is not looked at. -/
def publishGcpImage (config : Config) (p : Publication) : Publisher Unit := do
  let path ← artifactPath p.release.toReleaseManifest "gcp"
  ask (.upload (imageBlobName p.release.toReleaseManifest) path)
  let suffix ← keySuffix config p
  let operation ← ask (.importImage .gcs (gcpImageName ("gardenlinux-" ++ suffix))
    (.object (imageBlobName p.release.toReleaseManifest)))
  ask (.waitForOperation operation)
  ask (.delete (imageBlobName p.release.toReleaseManifest))

/-- The loop of `copy_from_s3`. -/
def copyPages (object : StagingObject) (artifact : S3ReleaseFile) : ℕ → Publisher Unit
  | 0 => pure ()
  | remaining + 1 => do
    ask (.uploadPages object artifact)
    copyPages object artifact remaining

/-- `_publish_azure_image`; the image of the offer is known by its version. -/
def publishAzureImage (b : CloudBehaviour) (config : Config) (p : Publication) :
    Publisher Unit := do
  let path ← artifactPath p.release.toReleaseManifest "azure"
  let blob := getTargetBlobName p.release.version
  ask (.createPageBlob blob)
  copyPages blob path (b.pieces .storageAccount path)
  let azureVersion ← ofModel (config.parseToSemver p.release.version)
  let fetched ← ask .fetchOffer
  ask (.updateOffer fetched azureVersion blob)
  let _ ← ask (.importImage .storageAccount azureVersion (.plan azureVersion))
  pure ()

/-- `publish_image`; on the other platforms nothing is staged. -/
def publishImage (b : CloudBehaviour) (config : Config) (p : Publication) : Publisher Unit :=
  if p.release.platform = "ali" then publishAlicloudImage b config p
  else if p.release.platform = "gcp" then publishGcpImage config p
  else if p.release.platform = "azure" then publishAzureImage b config p
  else pure ()

end Publisher

/-! ## What a publication remembers -/

/-- How far a publication is with its staging object, and of which copies it should consist.  When
it finds an image of its name, it is done with the object. -/
inductive Stage
  | idle
  | staged (object : StagingObject) (content : List S3ReleaseFile)
  | listed (object : StagingObject) (content : List S3ReleaseFile) (version : String)
  | imported (object : StagingObject) (content : List S3ReleaseFile) (source : ImageSource)
    (image : ℕ)
  | removed (object : StagingObject) (content : List S3ReleaseFile) (image : ℕ)

/-- The object consists of all pieces of the artifact of the release. -/
def IsCopy (b : CloudBehaviour) (p : Publication) (object : StagingObject)
    (content : List S3ReleaseFile) : Prop :=
  ∃ artifact, p.release.artifact = .ok artifact ∧
    content = List.replicate (b.pieces object.store artifact) artifact

/-- A publication stages its artifact, asks for an image of what it has staged, by way of the plan
or not, and deletes no other object. -/
def stagingOrder (b : CloudBehaviour) (p : Publication) : Discipline staging Stage where
  Allowed
    | .idle, .upload _ _ => True
    | .idle, .createPageBlob _ => True
    | .idle, .imageStatus _ => True
    | .staged object _, .uploadPages copied _ => copied = object
    | .staged _ _, .describeImages _ _ => True
    | .staged object content, .importImage _ _ source =>
      source = .object object ∧ IsCopy b p object content
    | .staged _ _, .fetchOffer => True
    | .staged object content, .updateOffer _ _ blob => blob = object ∧ IsCopy b p object content
    | .listed _ _ version, .importImage _ _ source => source = .plan version
    | .imported _ _ _ _, .imageStatus _ => True
    | .imported _ _ _ _, .waitForOperation _ => True
    | .imported object _ source _, .delete deleted => deleted = object ∧ source = .object object
    | _, _ => False
  update
    | .idle, .upload object artifact, some _ => .staged object [artifact]
    | .idle, .createPageBlob object, some _ => .staged object []
    | .staged object content, .uploadPages _ artifact, some _ =>
      .staged object (content ++ [artifact])
    | .staged _ _, .describeImages _ _, some (some _) => .idle
    | .staged object content, .importImage _ _ source, some image =>
      .imported object content source image
    | .staged object content, .updateOffer _ version _, some _ => .listed object content version
    | .listed object content _, .importImage _ _ source, some image =>
      .imported object content source image
    | .imported object content _ image, .delete _, some _ => .removed object content image
    | stage, _, _ => stage

section Follows

variable {b : CloudBehaviour} {config : Config} {p : Publication} {stage : Stage}
  {object : StagingObject} {content : List S3ReleaseFile} {artifact : S3ReleaseFile}

theorem Publisher.ask_safe {c : StagingCall} {post : Stage → c.Result → Prop}
    (h : (stagingOrder b p).Allowed stage c)
    (hpost : ∀ result, post ((stagingOrder b p).update stage c (some result)) result) :
    Safe (stagingOrder b p) post (Publisher.ask c) stage := by
  refine safe_bind (Q := fun stage' r => ∀ result, r = some result → post stage' result)
    (safe_perform (I := staging) h fun r result hr => hr ▸ hpost result) fun stage' r hr => ?_
  cases r with
  | some result => exact safe_pure (hr result rfl)
  | none => exact safe_throw _

theorem Publisher.ofModel_safe {α : Type} {r : Except ModelError α} :
    Safe (stagingOrder b p) (fun stage' a => stage' = stage ∧ r = .ok a) (Publisher.ofModel r)
      stage := by
  refine safe_mk fun a ha => ⟨rfl, ?_⟩
  cases r with
  | error e => exact nomatch ha
  | ok b => exact congrArg Except.ok (Except.ok.inj ha)

/-- The path that is looked up is that of the artifact. -/
theorem Publisher.artifactPath_safe {platform : String}
    (hplatform : p.release.platform = platform) :
    Safe (stagingOrder b p)
      (fun stage' artifact => stage' = stage ∧ p.release.artifact = .ok artifact)
      (Publisher.artifactPath p.release.toReleaseManifest platform) stage := by
  subst hplatform
  refine safe_bind (Q := fun stage' suffix => stage' = stage ∧
    virtualImageArtifactForPlatform p.release.platform = .ok suffix)
    (safe_mk fun suffix h => ⟨rfl, h⟩) fun stage' suffix h => ?_
  obtain ⟨rfl, hsuffix⟩ := h
  refine follows_mono Publisher.ofModel_safe (fun _ _ h => h) (fun _ _ _ => rfl)
    fun stage'' r hr artifact hartifact => ?_
  obtain ⟨rfl, hpath⟩ := hr artifact hartifact
  refine ⟨rfl, ?_⟩
  rw [ReleaseManifest.artifact, hsuffix]
  show Except.mapError _ _ = _
  rw [hpath]
  rfl

theorem Publisher.keySuffix_safe :
    Safe (stagingOrder b p) (fun stage' _ => stage' = stage) (Publisher.keySuffix config p) stage :=
  follows_mono Publisher.ofModel_safe (fun _ _ h => h) (fun _ _ _ => rfl)
    fun _ _ h suffix hsuffix => (h suffix hsuffix).1

/-- What has been uploaded at once is one piece. -/
theorem Publisher.upload_safe :
    Safe (stagingOrder b p) (fun stage' _ => stage' = .staged object [artifact])
      (Publisher.ask (.upload object artifact)) .idle :=
  Publisher.ask_safe (c := .upload object artifact) trivial fun _ => rfl

/-- The loop adds a piece for each turn. -/
theorem Publisher.copyPages_safe (remaining : ℕ) (content : List S3ReleaseFile) :
    Safe (stagingOrder b p)
      (fun stage' _ => stage' = .staged object (content ++ List.replicate remaining artifact))
      (Publisher.copyPages object artifact remaining) (.staged object content) := by
  induction remaining generalizing content with
  | zero => exact safe_pure (by rw [List.replicate_zero, List.append_nil])
  | succ remaining ih =>
    refine safe_bind (Q := fun stage' _ => stage' = .staged object (content ++ [artifact]))
      (Publisher.ask_safe (c := .uploadPages object artifact) rfl fun _ => rfl) fun _ _ h => ?_
    subst h
    have hrest := ih (content ++ [artifact])
    rwa [List.append_assoc, List.singleton_append, ← List.replicate_succ] at hrest

/-- The image is made from the object that has been staged. -/
theorem Publisher.importImage_safe {store : StagingStore} {imageName : String}
    (hcopy : IsCopy b p object content) :
    Safe (stagingOrder b p)
      (fun stage' image => stage' = .imported object content (.object object) image)
      (Publisher.ask (.importImage store imageName (.object object))) (.staged object content) :=
  Publisher.ask_safe (c := .importImage store imageName (.object object)) ⟨rfl, hcopy⟩
    fun _ => rfl

/-- To wait for an image is allowed after the upload. -/
theorem Publisher.waitForImage_safe {image : ℕ} (polls : ℕ)
    (hallowed : (stagingOrder b p).Allowed stage (.imageStatus image))
    (hsame : ∀ r, (stagingOrder b p).update stage (.imageStatus image) r = stage) :
    Safe (stagingOrder b p) (fun _ _ => True) (Publisher.waitForImage image polls) stage := by
  induction polls with
  | zero => exact safe_throw _
  | succ polls ih =>
    refine safe_bind (Q := fun stage' _ => stage' = stage)
      (Publisher.ask_safe (c := .imageStatus image) hallowed fun _ => hsame _)
      fun _ available h => ?_
    subst h
    cases available with
    | true => exact safe_pure trivial
    | false => exact ih

theorem Publisher.publishAlicloudImage_safe (hplatform : p.release.platform = "ali") :
    Safe (stagingOrder b p) (fun _ _ => True) (Publisher.publishAlicloudImage b config p)
      .idle := by
  refine safe_bind Publisher.keySuffix_safe fun _ suffix h => ?_
  subst h
  refine safe_bind (Publisher.artifactPath_safe hplatform) fun _ path h => ?_
  obtain ⟨rfl, hartifact⟩ := h
  refine safe_bind Publisher.upload_safe fun _ _ h => ?_
  subst h
  refine safe_bind (Q := fun stage found => stage = match found with
      | some _ => .idle
      | none => .staged (imageOssKey p.release.toReleaseManifest) [path])
    (Publisher.ask_safe (c := .describeImages .oss ("gardenlinux-" ++ suffix)) trivial
      fun found => by cases found <;> rfl) fun _ found h => ?_
  subst h
  cases found with
  | some image => exact Publisher.waitForImage_safe _ trivial fun _ => rfl
  | none =>
    refine safe_bind (Publisher.importImage_safe ⟨path, hartifact, rfl⟩) fun _ image h => ?_
    subst h
    exact Publisher.waitForImage_safe _ trivial fun _ => rfl

theorem Publisher.publishGcpImage_safe (hplatform : p.release.platform = "gcp") :
    Safe (stagingOrder b p) (fun _ _ => True) (Publisher.publishGcpImage config p) .idle := by
  refine safe_bind (Publisher.artifactPath_safe hplatform) fun _ path h => ?_
  obtain ⟨rfl, hartifact⟩ := h
  refine safe_bind Publisher.upload_safe fun _ _ h => ?_
  subst h
  refine safe_bind Publisher.keySuffix_safe fun _ suffix h => ?_
  subst h
  refine safe_bind (Publisher.importImage_safe ⟨path, hartifact, rfl⟩) fun _ operation h => ?_
  subst h
  refine safe_bind (Q := fun stage _ => stage = .imported _ [path] (.object _) operation)
    (Publisher.ask_safe (c := .waitForOperation operation) trivial fun _ => rfl) fun _ _ h => ?_
  subst h
  exact Publisher.ask_safe (c := .delete (imageBlobName p.release.toReleaseManifest)) ⟨rfl, rfl⟩
    fun _ => trivial

theorem Publisher.publishAzureImage_safe (hplatform : p.release.platform = "azure") :
    Safe (stagingOrder b p) (fun _ _ => True) (Publisher.publishAzureImage b config p) .idle := by
  refine safe_bind (Publisher.artifactPath_safe hplatform) fun _ path h => ?_
  obtain ⟨rfl, hartifact⟩ := h
  refine safe_bind (Q := fun stage _ => stage = .staged (getTargetBlobName p.release.version) [])
    (Publisher.ask_safe (c := .createPageBlob _) trivial fun _ => rfl) fun _ _ h => ?_
  subst h
  refine safe_bind (Publisher.copyPages_safe _ []) fun _ _ h => ?_
  subst h
  rw [List.nil_append]
  refine safe_bind Publisher.ofModel_safe fun _ azureVersion h => ?_
  obtain ⟨rfl, -⟩ := h
  refine safe_bind (Q := fun stage _ => stage = .staged (getTargetBlobName p.release.version)
    (List.replicate (b.pieces .storageAccount path) path))
    (Publisher.ask_safe (c := .fetchOffer) trivial fun _ => rfl) fun _ fetched h => ?_
  subst h
  refine safe_bind (Q := fun stage _ => stage = .listed (getTargetBlobName p.release.version)
    (List.replicate (b.pieces .storageAccount path) path) azureVersion)
    (Publisher.ask_safe (c := .updateOffer fetched azureVersion _) ⟨rfl, path, hartifact, rfl⟩
      fun _ => rfl) fun _ _ h => ?_
  subst h
  refine safe_bind (Q := fun _ _ => True)
    (Publisher.ask_safe (c := .importImage .storageAccount azureVersion (.plan azureVersion)) rfl
      fun _ => trivial) fun _ _ _ => ?_
  exact safe_pure trivial

/-- On every platform a publication keeps to the order of its steps. -/
theorem Publisher.publishImage_safe (b : CloudBehaviour) (config : Config) (p : Publication) :
    Safe (stagingOrder b p) (fun _ _ => True) (Publisher.publishImage b config p) .idle := by
  unfold Publisher.publishImage
  split
  · next hplatform => exact Publisher.publishAlicloudImage_safe hplatform
  · split
    · next hplatform => exact Publisher.publishGcpImage_safe hplatform
    · split
      · next hplatform => exact Publisher.publishAzureImage_safe hplatform
      · exact safe_pure trivial

end Follows

/-! ## What a call does -/

/-- The object that a call puts in place. -/
def StagingCall.begins : StagingCall → Option StagingObject
  | .upload object _ => some object
  | .createPageBlob object => some object
  | _ => none

/-- The plan that a call leaves. -/
def StagingCall.offers : StagingCall → Option VmImages
  | .updateOffer fetched version blob => some (fetched.insert version blob)
  | _ => none

/-- What a call of a publication does to the cloud and to how far the publication is. -/
inductive Turn (b : CloudBehaviour) (p : Publication) (cloud : Cloud) :
    Stage → StagingCall → Cloud → Stage → Prop
  | quiet {stage : Stage} {c : StagingCall} : Turn b p cloud stage c
      { cloud with calls := cloud.calls + 1 } stage
  | begins {c : StagingCall} {object : StagingObject} {content : List S3ReleaseFile}
      (hc : c.begins = some object) : Turn b p cloud .idle c
      { cloud with objects := cloud.objects.insert object content, calls := cloud.calls + 1 }
      (.staged object content)
  | finds {object : StagingObject} {content : List S3ReleaseFile} {c : StagingCall} :
      Turn b p cloud (.staged object content) c { cloud with calls := cloud.calls + 1 } .idle
  | copies {object : StagingObject} {content held : List S3ReleaseFile} {artifact : S3ReleaseFile}
      (hheld : cloud.objects.lookup object = some held) :
      Turn b p cloud (.staged object content) (.uploadPages object artifact)
      { cloud with
        objects := cloud.objects.insert object (held ++ [artifact])
        calls := cloud.calls + 1 }
      (.staged object (content ++ [artifact]))
  | lists {object : StagingObject} {content : List S3ReleaseFile} {fetched : VmImages}
      {version : String} (hcopy : IsCopy b p object content) :
      Turn b p cloud (.staged object content) (.updateOffer fetched version object)
      { cloud with plan := fetched.insert version object, calls := cloud.calls + 1 }
      (.listed object content version)
  | importsObject {object : StagingObject} {content : List S3ReleaseFile} {store : StagingStore}
      {imageName : String} (hcopy : IsCopy b p object content) :
      Turn b p cloud (.staged object content) (.importImage store imageName (.object object))
      { cloud with
        images := cloud.images ++ [⟨store, imageName, .object object, .pending⟩]
        calls := cloud.calls + 1 }
      (.imported object content (.object object) cloud.images.length)
  | importsPlan {object : StagingObject} {content : List S3ReleaseFile} {store : StagingStore}
      {imageName version : String} : Turn b p cloud (.listed object content version)
      (.importImage store imageName (.plan version))
      { cloud with
        images := cloud.images ++ [⟨store, imageName, .plan version, .pending⟩]
        calls := cloud.calls + 1 }
      (.imported object content (.plan version) cloud.images.length)
  | removes {object : StagingObject} {content : List S3ReleaseFile} {image : ℕ} :
      Turn b p cloud (.imported object content (.object object) image) (.delete object)
      { cloud with objects := cloud.objects.erase object, calls := cloud.calls + 1 }
      (.removed object content image)

section Turn

variable {b : CloudBehaviour} {p : Publication} {outage : ℕ → Bool} {cloud cloud' : Cloud}
  {stage stage' : Stage} {c : StagingCall}

/-- A call that the service does not answer changes nothing. -/
theorem turn_of_outage (hout : outage cloud.calls = true) :
    Turn b p cloud stage c ((cloudService outage).perform cloud c).2
      ((stagingOrder b p).update stage c ((cloudService outage).perform cloud c).1) := by
  have hnone : (cloudService outage).perform cloud c =
      (none, { cloud with calls := cloud.calls + 1 }) := by
    cases c <;> exact if_pos hout
  have hsame : (stagingOrder b p).update stage c none = stage := by
    cases stage <;> cases c <;> rfl
  rw [hnone, hsame]
  exact .quiet

/-- **What a publication can do.** Each call that is in order is one of these turns. -/
theorem turn_of_allowed (h : (stagingOrder b p).Allowed stage c) :
    Turn b p cloud stage c ((cloudService outage).perform cloud c).2
      ((stagingOrder b p).update stage c ((cloudService outage).perform cloud c).1) := by
  cases hout : outage cloud.calls with
  | true => exact turn_of_outage hout
  | false =>
    have hact : ∀ {α : Type} (act : Cloud → Option α × Cloud),
        cloud.attempt outage act = act { cloud with calls := cloud.calls + 1 } := by
      intro α act
      exact if_neg (by rw [hout]; exact Bool.false_ne_true)
    have hturn : ∀ r : staging.Answer c × Cloud, (cloudService outage).perform cloud c = r →
        Turn b p cloud stage c r.2 ((stagingOrder b p).update stage c r.1) →
        Turn b p cloud stage c ((cloudService outage).perform cloud c).2
          ((stagingOrder b p).update stage c ((cloudService outage).perform cloud c).1) := by
      rintro r rfl hr
      exact hr
    cases stage with
    | idle =>
      cases c with
      | upload object artifact => exact hturn _ (hact (Cloud.upload object artifact)) (.begins rfl)
      | createPageBlob object => exact hturn _ (hact (Cloud.createPageBlob object)) (.begins rfl)
      | imageStatus image => exact hturn _ (hact (Cloud.imageStatus image)) .quiet
      | _ => exact h.elim
    | staged object content =>
      cases c with
      | uploadPages copied artifact =>
        obtain rfl : copied = object := h
        refine hturn _ (hact (Cloud.uploadPages copied artifact)) ?_
        unfold Cloud.uploadPages
        dsimp only
        split
        · next held hheld => exact .copies hheld
        · exact .quiet
      | describeImages store imageName =>
        refine hturn _ (hact (Cloud.describeImages store imageName)) ?_
        unfold Cloud.describeImages
        dsimp only
        generalize List.findIdx? _ _ = found
        cases found with
        | some image => exact .finds
        | none => exact .quiet
      | importImage store imageName source =>
        obtain ⟨rfl, hcopy⟩ := h
        exact hturn _ (hact (Cloud.importImage store imageName _)) (.importsObject hcopy)
      | fetchOffer => exact hturn _ (hact Cloud.fetchOffer) .quiet
      | updateOffer fetched version blob =>
        obtain ⟨rfl, hcopy⟩ := h
        exact hturn _ (hact (Cloud.updateOffer fetched version _)) (.lists hcopy)
      | _ => exact h.elim
    | listed object content version =>
      cases c with
      | importImage store imageName source =>
        obtain rfl : source = .plan version := h
        exact hturn _ (hact (Cloud.importImage store imageName _)) .importsPlan
      | _ => exact h.elim
    | imported object content source image =>
      cases c with
      | imageStatus asked => exact hturn _ (hact (Cloud.imageStatus asked)) .quiet
      | waitForOperation operation => exact hturn _ (hact Cloud.waitForOperation) .quiet
      | delete deleted =>
        obtain ⟨rfl, rfl⟩ := h
        refine hturn _ (hact (Cloud.delete deleted)) ?_
        unfold Cloud.delete
        dsimp only
        split
        · exact .removes
        · exact .quiet
      | _ => exact h.elim
    | removed object content image => cases c <;> exact h.elim

end Turn

end Glci
