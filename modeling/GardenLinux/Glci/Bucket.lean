import GardenLinux.Glci.Model

/-!
# Manifests in the bucket

The manifests and manifest sets of `ci/glci/model.py` as documents in an S3 bucket, and the
functions of `ci/glci/util.py` and `ci/steps/upload_results_step.py` that write and find
them by key.  A document that is written and read again is the same document; reading
patches in the key and the bucket.

What is proved here:

* `findRelease_of_lookup` — what `find_release` makes of the document under the key.
-/

namespace Glci

open GardenFeat

/-! ## Documents -/

structure S3ReleaseFile where
  name : String
  suffix : String
  s3Key : String
  s3BucketName : String
  deriving DecidableEq, Repr

structure AwsPublishedImage where
  amiId : String
  awsRegionId : String
  imageName : String
  deriving DecidableEq, Repr

structure AlicloudPublishedImage where
  imageId : String
  regionId : String
  imageName : String
  deriving DecidableEq, Repr

structure OpenstackPublishedImage where
  regionName : String
  imageId : String
  imageName : String
  deriving DecidableEq, Repr

inductive AzureTransportState
  | provisional
  | publish
  | goLive
  | released
  | failed
  deriving DecidableEq, Repr

/-- The union of the `PublishedImage` types. -/
inductive PublishedImage
  | alicloud (publishedAlicloudImages : List AlicloudPublishedImage)
  | aws (publishedAwsImages : List AwsPublishedImage)
  | azure (transportState : AzureTransportState) (urn publishOperationId goliveOperationId : String)
  | gcp (gcpImageName gcpProjectName : String)
  | oci (imageReference : String)
  | openstack (publishedOpenstackImages : List OpenstackPublishedImage)
  deriving DecidableEq, Repr

inductive TestResultCode
  | ok
  | failed
  deriving DecidableEq, Repr

structure ReleaseTestResult where
  testSuiteCfgName : String
  testResult : TestResultCode
  testTimestamp : String
  deriving DecidableEq, Repr

structure ReleaseManifest extends ReleaseIdentifier where
  buildTimestamp : String
  paths : List S3ReleaseFile
  baseImage : Option String
  publishedImageMetadata : Option PublishedImage
  deriving DecidableEq, Repr

/-- `Union[S3_ReleaseFile, str]`. -/
inductive Logs
  | file (log : S3ReleaseFile)
  | text (log : String)
  deriving DecidableEq, Repr

structure OnlineReleaseManifest extends ReleaseManifest where
  s3Key : String
  s3Bucket : String
  testResult : Option ReleaseTestResult
  logs : Option Logs
  deriving DecidableEq, Repr

structure OnlineReleaseManifestSet where
  manifests : List OnlineReleaseManifest
  flavourSetName : String
  s3Key : String
  s3Bucket : String
  logs : Option (List S3ReleaseFile)
  deriving DecidableEq, Repr

/-- `ReleaseManifest.release_identifier`. -/
abbrev ReleaseManifest.releaseIdentifier (m : ReleaseManifest) : ReleaseIdentifier :=
  m.toReleaseIdentifier

/-- What is read back of a manifest that was never online: the attributes that the
document does not have are read as `None`. -/
def ReleaseManifest.document (m : ReleaseManifest) : OnlineReleaseManifest :=
  { m with s3Key := "", s3Bucket := "", testResult := none, logs := none }

/-! ## The bucket -/

inductive S3Object
  | manifest (document : OnlineReleaseManifest)
  | manifestSet (document : OnlineReleaseManifestSet)
  | directory
  | data
  deriving DecidableEq, Repr

/-- The objects of a bucket by their keys. -/
abbrev Bucket := AList fun _ : String => S3Object

/-- What `release_manifest` makes of the object that it downloaded. -/
def deserialise (bucketName key : String) (absentOk : Bool) :
    Option S3Object → Except ModelError (Option OnlineReleaseManifest)
  | some (.manifest document) => .ok (some { document with s3Key := key, s3Bucket := bucketName })
  | some _ => .error (.daciteError key)
  | none => if absentOk then .ok none else .error (.clientError key)

/-- `release_manifest`. -/
def releaseManifest (bucketName : String) (bucket : Bucket) (key : String) (absentOk : Bool) :
    Except ModelError (Option OnlineReleaseManifest) :=
  deserialise bucketName key absentOk (bucket.lookup key)

/-- `release_manifest_set`. -/
def releaseManifestSet (bucketName : String) (bucket : Bucket) (manifestKey : String)
    (absentOk : Bool) : Except ModelError (Option OnlineReleaseManifestSet) :=
  match bucket.lookup manifestKey with
  | some (.manifestSet document) =>
    .ok (some { document with s3Key := manifestKey, s3Bucket := bucketName })
  | some _ => .error (.daciteError manifestKey)
  | none => if absentOk then .ok none else .error (.clientError manifestKey)

/-- `upload_release_manifest`. -/
def uploadReleaseManifest (bucket : Bucket) (key : String) (manifest : OnlineReleaseManifest) :
    Bucket :=
  bucket.insert key (.manifest manifest)

/-- The end of `upload_results_step`: the key of the manifest and the bucket with it. -/
def uploadResults (orders : SetOrders) (upper : String → String) (allFeatures : FeatureSet)
    (bucket : Bucket) (manifest : ReleaseManifest) : Except ModelError (String × Bucket) := do
  let suffix ← manifest.canonicalReleaseManifestKeySuffix orders upper allFeatures
  let manifestPath := manifestKeyPrefix ++ "/" ++ suffix
  pure (manifestPath, uploadReleaseManifest bucket manifestPath manifest.document)

/-- The orders in which the three sets of `find_release` are listed. -/
structure FindOrders where
  key : SetOrders
  found : SetOrders
  searched : SetOrders

/-- `find_release`. -/
def findRelease (orders : FindOrders) (upper : String → String) (allFeatures : FeatureSet)
    (bucketName : String) (bucket : Bucket) (releaseIdentifier : ReleaseIdentifier) :
    Except ModelError (Option OnlineReleaseManifest) := do
  let key ← releaseIdentifier.canonicalReleaseManifestKey orders.key upper allFeatures
  match ← releaseManifest bucketName bucket key true with
  | none => pure none
  | some manifest =>
    let found ← normalisedReleaseIdentifier orders.found upper allFeatures manifest.releaseIdentifier
    let searched ← normalisedReleaseIdentifier orders.searched upper allFeatures releaseIdentifier
    if found = searched then pure (some manifest) else pure none

variable {bucketName : String} {bucket : Bucket} {key : String}

/-- With a manifest under the key, `find_release` compares the normalised identifiers. -/
theorem findRelease_of_lookup {orders : FindOrders} {upper : String → String}
    {allFeatures : FeatureSet} {releaseIdentifier found searched : ReleaseIdentifier}
    {document : OnlineReleaseManifest}
    (hkey : releaseIdentifier.canonicalReleaseManifestKey orders.key upper allFeatures = .ok key)
    (hlookup : bucket.lookup key = some (.manifest document))
    (hfound : normalisedReleaseIdentifier orders.found upper allFeatures
      document.releaseIdentifier = .ok found)
    (hsearched : normalisedReleaseIdentifier orders.searched upper allFeatures
      releaseIdentifier = .ok searched) :
    findRelease orders upper allFeatures bucketName bucket releaseIdentifier =
      .ok (if found = searched then
        some { document with s3Key := key, s3Bucket := bucketName } else none) := by
  have hread : releaseManifest bucketName bucket key true =
      .ok (some { document with s3Key := key, s3Bucket := bucketName }) := by
    simp [releaseManifest, deserialise, hlookup]
  simp only [findRelease, hkey, hread, hfound, hsearched, bind, Except.bind]
  split <;> rfl

end Glci
