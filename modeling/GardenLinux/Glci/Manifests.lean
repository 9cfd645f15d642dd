import GardenLinux.Lib.FromDict
import GardenLinux.Glci.Bucket

/-!
# Manifests as YAML documents

The manifests and manifest sets as `ci/glci/util.py` writes them to a bucket and reads them
back: an instance of a dataclass is turned into a dictionary, with the members of
enumerations replaced by their values along nested instances, but not inside sequences, and
`dacite` rebuilds an instance of the dictionary by the type hints of `ci/glci/model.py`.

A manifest whose attributes are known is an `object` in a `Form`: a sequence is a tuple or a
list, and the attribute of an enumeration is a member or the value of one.
-/

namespace Glci

open PyData

/-! ## Enumerations and sequences -/

def AzureTransportState.value : AzureTransportState → String
  | .provisional => "provisional"
  | .publish => "publishing"
  | .goLive => "going_live"
  | .released => "released"
  | .failed => "failed"

def TestResultCode.value : TestResultCode → String
  | .ok => "success"
  | .failed => "failure"

def Architecture.hint : Hint := .enum "Architecture" ["amd64"]

def AzureTransportState.hint : Hint :=
  .enum "AzureTransportState" ["provisional", "publishing", "going_live", "released", "failed"]

def TestResultCode.hint : Hint := .enum "TestResultCode" ["success", "failure"]

inductive SequenceKind
  | tuple
  | list
  deriving DecidableEq, Repr

def SequenceKind.of : SequenceKind → List PyValue → PyValue
  | .tuple, items => .tuple items
  | .list, items => .list items

/-- A field of an enumeration holds a member or the value of one. -/
inductive EnumKind
  | member
  | value
  deriving DecidableEq, Repr

def EnumKind.of : EnumKind → String → String → PyValue
  | .member, cls, text => .enum cls text
  | .value, _, text => .str text

/-- The kinds of the sequences and of the enumerations in a manifest. -/
structure Form where
  modifiers : SequenceKind
  paths : SequenceKind
  images : SequenceKind
  architecture : EnumKind
  transportState : EnumKind
  testResult : EnumKind
  deriving DecidableEq, Repr

/-- As the type hints say. -/
def Form.hinted : Form := ⟨.tuple, .tuple, .tuple, .member, .member, .member⟩

/-- With the values of the members. -/
def Form.serialised (form : Form) : Form :=
  { form with architecture := .value, transportState := .value, testResult := .value }

def ofOption {α : Type} (f : α → PyValue) : Option α → PyValue
  | some x => f x
  | none => .none

/-! ## Instances -/

def S3ReleaseFile.fields : List DataField :=
  [("name", .str, none), ("suffix", .str, none), ("s3_key", .str, none),
    ("s3_bucket_name", .str, none)]

def S3ReleaseFile.hint : Hint := .dataclass "S3_ReleaseFile" S3ReleaseFile.fields

def S3ReleaseFile.object (f : S3ReleaseFile) : PyValue :=
  .object "S3_ReleaseFile" [("name", .str f.name), ("suffix", .str f.suffix),
    ("s3_key", .str f.s3Key), ("s3_bucket_name", .str f.s3BucketName)]

def AwsPublishedImage.fields : List DataField :=
  [("ami_id", .str, none), ("aws_region_id", .str, none), ("image_name", .str, none)]

def AwsPublishedImage.hint : Hint := .dataclass "AwsPublishedImage" AwsPublishedImage.fields

def AwsPublishedImage.object (i : AwsPublishedImage) : PyValue :=
  .object "AwsPublishedImage" [("ami_id", .str i.amiId), ("aws_region_id", .str i.awsRegionId),
    ("image_name", .str i.imageName)]

def AlicloudPublishedImage.fields : List DataField :=
  [("image_id", .str, none), ("region_id", .str, none), ("image_name", .str, none)]

def AlicloudPublishedImage.hint : Hint :=
  .dataclass "AlicloudPublishedImage" AlicloudPublishedImage.fields

def AlicloudPublishedImage.object (i : AlicloudPublishedImage) : PyValue :=
  .object "AlicloudPublishedImage" [("image_id", .str i.imageId), ("region_id", .str i.regionId),
    ("image_name", .str i.imageName)]

def OpenstackPublishedImage.fields : List DataField :=
  [("region_name", .str, none), ("image_id", .str, none), ("image_name", .str, none)]

def OpenstackPublishedImage.hint : Hint :=
  .dataclass "OpenstackPublishedImage" OpenstackPublishedImage.fields

def OpenstackPublishedImage.object (i : OpenstackPublishedImage) : PyValue :=
  .object "OpenstackPublishedImage" [("region_name", .str i.regionName),
    ("image_id", .str i.imageId), ("image_name", .str i.imageName)]

namespace PublishedImage

def alicloudFields : List DataField :=
  [("published_alicloud_images", .tuple AlicloudPublishedImage.hint, none)]

def awsFields : List DataField := [("published_aws_images", .tuple AwsPublishedImage.hint, none)]

def azureFields : List DataField :=
  [("transport_state", AzureTransportState.hint, none), ("urn", .str, none),
    ("publish_operation_id", .str, none), ("golive_operation_id", .str, none)]

def gcpFields : List DataField := [("gcp_image_name", .str, none), ("gcp_project_name", .str, none)]

def ociFields : List DataField := [("image_reference", .str, none)]

def openstackFields : List DataField :=
  [("published_openstack_images", .tuple OpenstackPublishedImage.hint, none)]

/-- The union of the `PublishedImage` types and `None`. -/
def hint : Hint :=
  .union [.dataclass "AlicloudPublishedImageSet" alicloudFields,
    .dataclass "AwsPublishedImageSet" awsFields, .dataclass "AzurePublishedImage" azureFields,
    .dataclass "GcpPublishedImage" gcpFields, .dataclass "OciPublishedImage" ociFields,
    .dataclass "OpenstackPublishedImageSet" openstackFields, .none]

def fields : PublishedImage → List DataField
  | .alicloud _ => alicloudFields
  | .aws _ => awsFields
  | .azure .. => azureFields
  | .gcp .. => gcpFields
  | .oci _ => ociFields
  | .openstack _ => openstackFields

def cls : PublishedImage → String
  | .alicloud _ => "AlicloudPublishedImageSet"
  | .aws _ => "AwsPublishedImageSet"
  | .azure .. => "AzurePublishedImage"
  | .gcp .. => "GcpPublishedImage"
  | .oci _ => "OciPublishedImage"
  | .openstack _ => "OpenstackPublishedImageSet"

def attrs (form : Form) : PublishedImage → Items
  | .alicloud images => [("published_alicloud_images", form.images.of (images.map (·.object)))]
  | .aws images => [("published_aws_images", form.images.of (images.map (·.object)))]
  | .azure transportState urn publishOperationId goliveOperationId =>
    [("transport_state", form.transportState.of "AzureTransportState" transportState.value),
      ("urn", .str urn), ("publish_operation_id", .str publishOperationId),
      ("golive_operation_id", .str goliveOperationId)]
  | .gcp gcpImageName gcpProjectName =>
    [("gcp_image_name", .str gcpImageName), ("gcp_project_name", .str gcpProjectName)]
  | .oci imageReference => [("image_reference", .str imageReference)]
  | .openstack images => [("published_openstack_images", form.images.of (images.map (·.object)))]

def object (form : Form) (image : PublishedImage) : PyValue :=
  .object image.cls (image.attrs form)

end PublishedImage

namespace ReleaseTestResult

def fields : List DataField :=
  [("test_suite_cfg_name", .str, none), ("test_result", TestResultCode.hint, none),
    ("test_timestamp", .str, none)]

def hint : Hint := .dataclass "ReleaseTestResult" fields

def object (form : Form) (r : ReleaseTestResult) : PyValue :=
  .object "ReleaseTestResult" [("test_suite_cfg_name", .str r.testSuiteCfgName),
    ("test_result", form.testResult.of "TestResultCode" r.testResult.value),
    ("test_timestamp", .str r.testTimestamp)]

end ReleaseTestResult

def Logs.object : Logs → PyValue
  | .file log => log.object
  | .text log => .str log

namespace ReleaseManifest

/-- The fields of `ReleaseIdentifier` and of `ReleaseManifest`. -/
def fields : List DataField :=
  [("build_committish", .str, none), ("version", .str, none), ("gardenlinux_epoch", .int, none),
    ("architecture", Architecture.hint, none), ("platform", .str, none),
    ("modifiers", .tuple .str, none), ("build_timestamp", .str, none),
    ("paths", .tuple S3ReleaseFile.hint, none), ("base_image", .optional .str, none),
    ("published_image_metadata", PublishedImage.hint, none)]

def attrs (form : Form) (m : ReleaseManifest) : Items :=
  [("build_committish", .str m.buildCommittish), ("version", .str m.version),
    ("gardenlinux_epoch", .int m.gardenlinuxEpoch),
    ("architecture", form.architecture.of "Architecture" m.architecture.value),
    ("platform", .str m.platform), ("modifiers", form.modifiers.of (m.modifiers.map .str)),
    ("build_timestamp", .str m.buildTimestamp),
    ("paths", form.paths.of (m.paths.map (·.object))),
    ("base_image", ofOption .str m.baseImage),
    ("published_image_metadata", ofOption (·.object form) m.publishedImageMetadata)]

def object (form : Form) (m : ReleaseManifest) : PyValue :=
  .object "ReleaseManifest" (m.attrs form)

end ReleaseManifest

/-- The fields of a class that is stored in a bucket: those of the class that it extends, the
two that are injected, and its own. -/
def storedFields (base own : List DataField) : List DataField :=
  base ++ ("s3_key", .str, none) :: ("s3_bucket", .str, none) :: own

namespace OnlineReleaseManifest

/-- The fields that `OnlineReleaseManifest` adds, after the two that are injected. -/
def ownFields : List DataField :=
  [("test_result", .optional ReleaseTestResult.hint, none),
    ("logs", .union [S3ReleaseFile.hint, .str, .none], some .none)]

def fields : List DataField := storedFields ReleaseManifest.fields ownFields

def hint : Hint := .dataclass "OnlineReleaseManifest" fields

def ownAttrs (form : Form) (m : OnlineReleaseManifest) : Items :=
  [("test_result", ofOption (·.object form) m.testResult), ("logs", ofOption (·.object) m.logs)]

def attrs (form : Form) (m : OnlineReleaseManifest) : Items :=
  m.toReleaseManifest.attrs form ++
    ("s3_key", .str m.s3Key) :: ("s3_bucket", .str m.s3Bucket) :: m.ownAttrs form

def object (form : Form) (m : OnlineReleaseManifest) : PyValue :=
  .object "OnlineReleaseManifest" (m.attrs form)

end OnlineReleaseManifest

structure ReleaseManifestSet where
  manifests : List OnlineReleaseManifest
  flavourSetName : String
  deriving DecidableEq, Repr

/-- What is read back of a manifest set that was never online. -/
def ReleaseManifestSet.document (s : ReleaseManifestSet) : OnlineReleaseManifestSet :=
  ⟨s.manifests, s.flavourSetName, "", "", none⟩

def OnlineReleaseManifestSet.toReleaseManifestSet (s : OnlineReleaseManifestSet) :
    ReleaseManifestSet :=
  ⟨s.manifests, s.flavourSetName⟩

/-- The kinds of the sequences in a manifest set, and the form of each of its manifests. -/
structure SetForm where
  manifests : SequenceKind
  logs : SequenceKind
  manifest : ℕ → Form

def SetForm.hinted : SetForm := ⟨.tuple, .tuple, fun _ => .hinted⟩

def SetForm.serialised (form : SetForm) : SetForm :=
  { form with manifests := .list, manifest := fun i => (form.manifest i).serialised }

namespace ReleaseManifestSet

def fields : List DataField :=
  [("manifests", .tuple OnlineReleaseManifest.hint, none), ("flavour_set_name", .str, none)]

def attrs (form : SetForm) (s : ReleaseManifestSet) : Items :=
  [("manifests", form.manifests.of (s.manifests.mapIdx fun i m => m.object (form.manifest i))),
    ("flavour_set_name", .str s.flavourSetName)]

def object (form : SetForm) (s : ReleaseManifestSet) : PyValue :=
  .object "ReleaseManifestSet" (s.attrs form)

end ReleaseManifestSet

namespace OnlineReleaseManifestSet

def ownFields : List DataField :=
  [("logs", .optional (.tuple S3ReleaseFile.hint), some .none)]

def fields : List DataField := storedFields ReleaseManifestSet.fields ownFields

def hint : Hint := .dataclass "OnlineReleaseManifestSet" fields

def ownAttrs (form : SetForm) (s : OnlineReleaseManifestSet) : Items :=
  [("logs", ofOption (fun logs => form.logs.of (logs.map (·.object))) s.logs)]

def attrs (form : SetForm) (s : OnlineReleaseManifestSet) : Items :=
  s.toReleaseManifestSet.attrs form ++
    ("s3_key", .str s.s3Key) :: ("s3_bucket", .str s.s3Bucket) :: s.ownAttrs form

def object (form : SetForm) (s : OnlineReleaseManifestSet) : PyValue :=
  .object "OnlineReleaseManifestSet" (s.attrs form)

end OnlineReleaseManifestSet

/-! ## Writing and reading -/

mutual

/-- What `_json_serialisable_manifest` puts in the place of an attribute: values for members
of enumerations, nested instances with theirs replaced. -/
def jsonSerialisableAttr : PyValue → PyValue
  | .enum _ value => .str value
  | .object cls attrs => .object cls (jsonSerialisableAttrs attrs)
  | v => v

def jsonSerialisableAttrs : Items → Items
  | [] => []
  | (attr, val) :: attrs => (attr, jsonSerialisableAttr val) :: jsonSerialisableAttrs attrs

end

/-- `_json_serialisable_manifest`. -/
def jsonSerialisableManifest : PyValue → Except PyError PyValue
  | .object cls attrs => .ok (.object cls (jsonSerialisableAttrs attrs))
  | .enum _ value =>
    .error (.typeError ("cannot json-serialize non dataclass object: " ++ value))
  | v => .ok v

/-- The objects of a bucket as texts, by their keys. -/
abbrev Store (Text : Type) := AList fun _ : String => Text

/-- `cast` of the two functions that read. -/
def manifestCasts : List Cast :=
  [.enum "Architecture", .tuple, .enum "TestResultCode", .enum "AzureTransportState"]

/-- `release_manifest`, from the parsed document on. -/
def readManifest (read : Reader) (bucketName key : String) : PyValue → Except PyError PyValue
  | .dict parsed =>
    let parsed := setItem parsed "s3_key" (.str key)
    let parsed := setItem parsed "s3_bucket" (.str bucketName)
    let parsed :=
      if "base_image" ∈ parsed.map Prod.fst then parsed else setItem parsed "base_image" .none
    read manifestCasts OnlineReleaseManifest.hint (.dict parsed)
  | _ => .error (.typeError "object does not support item assignment")

/-- `release_manifest_set`, from the parsed document on. -/
def readManifestSet (read : Reader) (bucketName manifestKey : String) :
    PyValue → Except PyError PyValue
  | .dict parsed =>
    let parsed := setItem parsed "s3_bucket" (.str bucketName)
    let parsed := setItem parsed "s3_key" (.str manifestKey)
    read manifestCasts OnlineReleaseManifestSet.hint (.dict parsed)
  | _ => .error (.typeError "object does not support item assignment")

namespace Store

variable {Text : Type}

/-- The text of the object under a key. -/
def download (store : Store Text) (key : String) (absentOk : Bool) :
    Except PyError (Option Text) :=
  match store.lookup key with
  | some text => .ok (some text)
  | none => if absentOk then .ok none else .error (.raised "ClientError" "404")

/-- `release_manifest`. -/
def releaseManifest (yaml : Yaml Text) (read : Reader) (bucketName : String) (store : Store Text)
    (key : String) (absentOk : Bool) : Except PyError (Option PyValue) := do
  match ← store.download key absentOk with
  | none => pure none
  | some buf =>
    let parsed ← yaml.safeLoad buf
    let manifest ← readManifest read bucketName key parsed
    pure (some manifest)

/-- `release_manifest_set`. -/
def releaseManifestSet (yaml : Yaml Text) (read : Reader) (bucketName : String)
    (store : Store Text) (manifestKey : String) (absentOk : Bool) :
    Except PyError (Option PyValue) := do
  match ← store.download manifestKey absentOk with
  | none => pure none
  | some buf =>
    let parsed ← yaml.safeLoad buf
    let manifest ← readManifestSet read bucketName manifestKey parsed
    pure (some manifest)

/-- `upload_release_manifest`. -/
def uploadReleaseManifest (yaml : Yaml Text) (store : Store Text) (key : String)
    (manifest : PyValue) : Except PyError (Store Text) := do
  let manifest ← jsonSerialisableManifest manifest
  let manifestBytes ← yaml.safeDump (← asdict manifest)
  pure (store.insert key manifestBytes)

/-- `upload_release_manifest_set`. -/
def uploadReleaseManifestSet (yaml : Yaml Text) (store : Store Text) (key : String)
    (manifestSet : PyValue) : Except PyError (Store Text) := do
  let manifests ← (← getAttr manifestSet "manifests").iterate
  let manifests ← manifests.mapM jsonSerialisableManifest
  let manifestSet ← replaceAttr manifestSet "manifests" (.list manifests)
  let manifestSetBytes ← yaml.safeDump (← asdict manifestSet)
  pure (store.insert key manifestSetBytes)

end Store

end Glci
