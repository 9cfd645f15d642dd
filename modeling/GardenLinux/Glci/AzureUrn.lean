import GardenLinux.Glci.AzureTransport
import GardenLinux.Glci.Staging

/-!
# The URN of an Azure image

A release for Azure gets a URN three times: provisionally from `promote_single_step`, when
`upload_and_publish_image` has added its image version to the plan of the offer, and when
`check_offer_transport_state` finds it released.

What is proved here:

* `addImageVersionToPlan_mem` — the plan has an image of the version that is added;
* `uploadAndPublishOffer_ok` — with the offer written out, `upload_and_publish_image` makes of
  a release what it makes of it in `AzureTransport`;
* `UrnState.polls` — what the recorded URN can be in every state of a run;
* `urns_agree_iff` — all recorded URNs name the version that was added exactly if the version
  of a release that gets released is what `parse_to_semver` makes of it;
* `urns_differ` — a release of two components.
-/

namespace Glci

open GardenFeat Transport

/-! ## The offer -/

structure VmImage where
  osVhdUrl : String
  lunVhdDetails : List String
  deriving DecidableEq, Repr

/-- A plan with its `microsoft-azure-virtualmachines.vmImages`. -/
structure AzurePlan where
  planId : String
  vmImages : AList fun _ : String => VmImage

structure OfferSpec where
  plans : List AzurePlan

inductive OfferError
  | keyError (key : String)
  | modelError (e : ModelError)
  | azureError (e : AzureError)
  deriving DecidableEq, Repr

/-- The first plan of the id gets the image; `none` if there is no such plan. -/
def addToPlans (planId imageVersion : String) (image : VmImage) :
    List AzurePlan → Option (List AzurePlan)
  | [] => none
  | plan :: plans =>
    if plan.planId = planId then
      some ({ plan with vmImages := plan.vmImages.insert imageVersion image } :: plans)
    else (addToPlans planId imageVersion image plans).map (plan :: ·)

/-- `add_image_version_to_plan`. The text of the error for a missing plan asks an empty
dictionary for its `id`. -/
def addImageVersionToPlan (spec : OfferSpec) (planId imageVersion imageUrl : String) :
    Except OfferError OfferSpec :=
  match addToPlans planId imageVersion ⟨imageUrl, []⟩ spec.plans with
  | some plans => .ok ⟨plans⟩
  | none => .error (.keyError "id")

/-- The requests of `upload_and_publish_image` to the storage account and the marketplace. -/
structure OfferService where
  copyImage : S3ReleaseFile → StagingObject → Except AzureError String
  fetchOffer : Except AzureError OfferSpec
  updateOffer : OfferSpec → Except AzureError Unit
  publishOffer : Except AzureError Unit
  submissions : Except AzureError (List AzmpSubmission)

/-- What has been published: the key that was added to the plan, the offer with it, and the
operation. -/
structure PublishedOffer where
  imageVersion : String
  offer : OfferSpec
  publishOperationId : String

def updateAndPublishMarketplaceOffer (config : Config) (service : OfferService)
    (imageVersion imageUrl : String) : Except OfferError PublishedOffer := do
  let offerSpec ← service.fetchOffer.mapError .azureError
  let modifiedOfferSpec ← addImageVersionToPlan offerSpec config.planId imageVersion imageUrl
  (service.updateOffer modifiedOfferSpec).mapError .azureError
  service.publishOffer.mapError .azureError
  let operations ← service.submissions.mapError .azureError
  let publishOperationId ← (fetchOngoingOperationId operations .staging).mapError .azureError
  pure ⟨imageVersion, modifiedOfferSpec, publishOperationId⟩

/-- `upload_and_publish_image`. -/
def uploadAndPublishOffer (config : Config) (service : OfferService)
    (release : OnlineReleaseManifest) :
    Except OfferError (PublishedOffer × OnlineReleaseManifest) := do
  let artifact ← (release.pathBySuffix "rootfs.vhd").mapError .modelError
  let imageUrl ← (service.copyImage artifact (getTargetBlobName release.version)).mapError .azureError
  let azureVersion ← (config.parseToSemver release.version).mapError .modelError
  let published ← updateAndPublishMarketplaceOffer config service azureVersion imageUrl
  let parsedVersion ← (config.parseToSemver release.version).mapError .modelError
  pure (published, { release with
    publishedImageMetadata := some (.azure .publish (generateUrn config parsedVersion)
      published.publishOperationId "") })

theorem addToPlans_mem {planId imageVersion : String} {image : VmImage} {plans plans' : List AzurePlan}
    (h : addToPlans planId imageVersion image plans = some plans') :
    ∃ plan ∈ plans', plan.planId = planId ∧ plan.vmImages.lookup imageVersion = some image := by
  induction plans generalizing plans' with
  | nil => exact nomatch h
  | cons plan plans ih =>
    unfold addToPlans at h
    split at h
    · next hplan =>
      obtain rfl := Option.some.inj h
      exact ⟨_, List.mem_cons_self .., hplan, AList.lookup_insert _⟩
    · obtain ⟨later, hlater, rfl⟩ := Option.map_eq_some_iff.1 h
      obtain ⟨found, hmem, hfound⟩ := ih hlater
      exact ⟨found, List.mem_cons_of_mem _ hmem, hfound⟩

/-- The plan has an image of the version that is added. -/
theorem addImageVersionToPlan_mem {spec modified : OfferSpec} {planId imageVersion imageUrl : String}
    (h : addImageVersionToPlan spec planId imageVersion imageUrl = .ok modified) :
    ∃ plan ∈ modified.plans, plan.planId = planId ∧
      plan.vmImages.lookup imageVersion = some ⟨imageUrl, []⟩ := by
  unfold addImageVersionToPlan at h
  split at h
  · next plans hplans =>
    obtain rfl := Except.ok.inj h
    exact addToPlans_mem hplans
  · exact nomatch h

/-- The key that is added is what `parse_to_semver` makes of the version. -/
theorem uploadAndPublishOffer_ok {config : Config} {service : OfferService}
    {release started : OnlineReleaseManifest} {published : PublishedOffer}
    (h : uploadAndPublishOffer config service release = .ok (published, started)) :
    config.parseToSemver release.version = .ok published.imageVersion ∧
      (∃ plan ∈ published.offer.plans, plan.planId = config.planId ∧
        published.imageVersion ∈ plan.vmImages) ∧
      ∃ operations, uploadAndPublishImage config (.ok ()) operations release = .ok started := by
  obtain ⟨artifact, -, h⟩ := bind_ok_iff.1 h
  obtain ⟨imageUrl, -, h⟩ := bind_ok_iff.1 h
  obtain ⟨azureVersion, hversion, h⟩ := bind_ok_iff.1 h
  obtain ⟨published', hpublished, h⟩ := bind_ok_iff.1 h
  obtain ⟨parsedVersion, hparsed, h⟩ := bind_ok_iff.1 h
  obtain ⟨rfl, rfl⟩ := Prod.mk.inj (Except.ok.inj h)
  obtain ⟨offerSpec, -, hpublished⟩ := bind_ok_iff.1 hpublished
  obtain ⟨modified, hmodified, hpublished⟩ := bind_ok_iff.1 hpublished
  obtain ⟨_, -, hpublished⟩ := bind_ok_iff.1 hpublished
  obtain ⟨_, -, hpublished⟩ := bind_ok_iff.1 hpublished
  obtain ⟨operations, -, hpublished⟩ := bind_ok_iff.1 hpublished
  obtain ⟨operationId, hoperation, hpublished⟩ := bind_ok_iff.1 hpublished
  obtain rfl := Except.ok.inj hpublished
  obtain ⟨plan, hplan, hid, hlookup⟩ := addImageVersionToPlan_mem hmodified
  refine ⟨mapError_ok_iff.1 hversion, ⟨plan, hplan, hid, ?_⟩, operations, ?_⟩
  · exact AList.lookup_isSome.1 (Option.isSome_iff_exists.2 ⟨_, hlookup⟩)
  · rw [uploadAndPublishImage, mapError_ok_iff.1 hoperation, mapError_ok_iff.1 hparsed]
    rfl

/-! ## Recorded URNs -/

/-- The URN that a manifest has in a state. -/
def RecordsUrn (release : OnlineReleaseManifest) (transportState : AzureTransportState)
    (urn : String) : Prop :=
  ∃ publishOperationId goliveOperationId, release.publishedImageMetadata =
    some (.azure transportState urn publishOperationId goliveOperationId)

/-- On its way a release keeps its version; the URN is the anticipated one while the image is
published, and made of the version of the release when it is released. -/
structure UrnState (config : Config) (version imageVersion : String) (release : OnlineReleaseManifest) :
    Prop where
  keeps : release.version = version
  publish : ∀ urn, RecordsUrn release .publish urn → urn = generateUrn config imageVersion
  released : ∀ urn, RecordsUrn release .released urn → urn = generateUrn config version

variable {config : Config} {version imageVersion : String} {release : OnlineReleaseManifest}
  {service : Marketplace}

theorem RecordsUrn.eq {transportState transportState' : AzureTransportState} {urn urn' : String}
    {publishOperationId goliveOperationId : String}
    (hmetadata : release.publishedImageMetadata =
      some (.azure transportState' urn' publishOperationId goliveOperationId))
    (h : RecordsUrn release transportState urn) : transportState' = transportState ∧ urn' = urn := by
  obtain ⟨_, _, h⟩ := h
  have heq := Option.some.inj (hmetadata.symm.trans h)
  injection heq with hstate hurn
  exact ⟨hstate, hurn⟩

theorem UrnState.transported (h : UrnState config version imageVersion release)
    {transportState : AzureTransportState} {publishOperationId goliveOperationId : String}
    {operationStatus : AzmpOperationState} {checked : OnlineReleaseManifest}
    (hchecked : transported config service release transportState publishOperationId
      goliveOperationId operationStatus = .ok checked) :
    UrnState config version imageVersion checked := by
  unfold Glci.transported at hchecked
  split at hchecked
  · split at hchecked
    · exact nomatch hchecked
    · obtain rfl := Except.ok.inj hchecked
      exact ⟨h.keeps, fun urn hurn => (nomatch (RecordsUrn.eq rfl hurn).1),
        fun urn hurn => (nomatch (RecordsUrn.eq rfl hurn).1)⟩
  · split at hchecked
    · obtain ⟨started, -, rfl⟩ := map_ok_iff.1 hchecked
      exact ⟨h.keeps, fun urn hurn => (nomatch (RecordsUrn.eq rfl hurn).1),
        fun urn hurn => (nomatch (RecordsUrn.eq rfl hurn).1)⟩
    · split at hchecked
      · obtain rfl := Except.ok.inj hchecked
        refine ⟨h.keeps, fun urn hurn => (nomatch (RecordsUrn.eq rfl hurn).1), fun urn hurn => ?_⟩
        rw [← (RecordsUrn.eq rfl hurn).2, h.keeps]
      · obtain rfl := Except.ok.inj hchecked
        exact h

theorem UrnState.poll {t : Transport} (h : UrnState config version imageVersion t.release)
    (service : Marketplace) :
    UrnState config version imageVersion (t.poll config service).release := by
  have hrelease : (t.poll config service).release =
      (checkOfferTransportState config service t.release).1.toOption.getD t.release := rfl
  rw [hrelease]
  cases hchecked : (checkOfferTransportState config service t.release).1 with
  | error e => exact h
  | ok checked =>
    show UrnState config version imageVersion checked
    unfold checkOfferTransportState at hchecked
    split at hchecked
    · split at hchecked
      · obtain rfl := Except.ok.inj hchecked
        exact h
      · split at hchecked
        · exact nomatch hchecked
        · exact h.transported hchecked
    · exact nomatch hchecked

/-- What the recorded URN can be in every state of a run. -/
theorem UrnState.polls {t : Transport} (h : UrnState config version imageVersion t.release)
    (services : List Marketplace) :
    UrnState config version imageVersion (t.polls config services).release := by
  induction services generalizing t with
  | nil => exact h
  | cons service services ih => exact ih (h.poll service)

theorem urnState_started {published : Except AzureError Unit} {operations : List AzmpSubmission}
    {started : OnlineReleaseManifest}
    (hstarted : uploadAndPublishImage config published operations release = .ok started)
    (hversion : config.parseToSemver release.version = .ok imageVersion) :
    UrnState config release.version imageVersion started := by
  obtain ⟨_, -, hstarted⟩ := bind_ok_iff.1 hstarted
  obtain ⟨publishOperationId, -, hstarted⟩ := bind_ok_iff.1 hstarted
  obtain ⟨parsedVersion, hparsed, hstarted⟩ := bind_ok_iff.1 hstarted
  obtain rfl := Except.ok.inj ((mapError_ok_iff.1 hparsed).symm.trans hversion)
  obtain rfl := Except.ok.inj hstarted
  refine ⟨rfl, fun urn hurn => (RecordsUrn.eq rfl hurn).2.symm, fun urn hurn => ?_⟩
  exact nomatch (RecordsUrn.eq rfl hurn).1

theorem generateUrn_injective (config : Config) : Function.Injective (generateUrn config) := by
  intro v w h
  have hlist := congrArg String.toList h
  simp only [generateUrn, String.toList_append] at hlist
  exact String.toList_injective (List.append_cancel_left hlist)

/-- The release that is found is of the version that was asked for. -/
theorem version_of_findRelease {orders : FindOrders} {upper : String → String}
    {allFeatures : FeatureSet} {bucketName : String} {bucket : Bucket} {r : ReleaseIdentifier}
    (h : findRelease orders upper allFeatures bucketName bucket r = .ok (some release)) :
    release.version = r.version := by
  have hversion : ∀ {orders : SetOrders} {r normalised : ReleaseIdentifier},
      normalisedReleaseIdentifier orders upper allFeatures r = .ok normalised →
        normalised.version = r.version := by
    intro orders r normalised hnormalised
    obtain ⟨modifiers, -, hnormalised⟩ := bind_ok_iff.1 hnormalised
    obtain rfl := Except.ok.inj hnormalised
    rfl
  obtain ⟨key, -, h⟩ := bind_ok_iff.1 h
  obtain ⟨manifest, -, h⟩ := bind_ok_iff.1 h
  cases manifest with
  | none => exact nomatch Except.ok.inj h
  | some manifest =>
    obtain ⟨found, hfound, h⟩ := bind_ok_iff.1 h
    obtain ⟨searched, hsearched, h⟩ := bind_ok_iff.1 h
    split at h
    · next heq =>
      obtain rfl := Option.some.inj (Except.ok.inj h)
      rw [← hversion hfound, heq, hversion hsearched]
    · exact nomatch Except.ok.inj h

/-- What `promote_single_step` stores for a release for Azure when its publishing fails. -/
def PromoteArgs.provisional (config : Config) (args : PromoteArgs) (release : OnlineReleaseManifest) :
    Except Exit OnlineReleaseManifest :=
  promoted config { args with publish := fun _ => .error "" } release

theorem provisional_ok {args : PromoteArgs} {provisional : OnlineReleaseManifest}
    (hplatform : release.platform = "azure")
    (h : args.provisional config release = .ok provisional) :
    ∃ parsedVersion, config.parseToSemver args.version = .ok parsedVersion ∧
      provisional = { release with
        publishedImageMetadata := some (.azure .provisional (generateUrn config parsedVersion) "" "") }
      := by
  unfold PromoteArgs.provisional promoted at h
  rw [if_pos hplatform] at h
  split at h
  · exact nomatch h
  · next parsedVersion hparsed =>
    simp only [publishImage, hplatform] at h
    obtain rfl := Except.ok.inj h
    exact ⟨parsedVersion, hparsed, rfl⟩

/-! ## All URNs name one version -/

/-- The URNs that are recorded provisionally, while the image is published and when it is
released are made of one version. -/
def UrnsName (config : Config) (imageVersion : String) (provisional started : OnlineReleaseManifest)
    (services : List Marketplace) : Prop :=
  (∀ urn, RecordsUrn provisional .provisional urn → urn = generateUrn config imageVersion) ∧
  ∀ taken, taken <+: services → ∀ transportState urn,
    transportState = .publish ∨ transportState = .released →
    RecordsUrn ((Transport.mk started []).polls config taken).release transportState urn →
    urn = generateUrn config imageVersion

/-- All recorded URNs name the version that was added to the plan exactly if the version of a
release that gets released is what `parse_to_semver` makes of it. -/
theorem urns_agree_iff {args : PromoteArgs} {bucketName : String} {bucket : Bucket}
    {modifiers : List String} {provisional started : OnlineReleaseManifest}
    {offerService : OfferService} {published : PublishedOffer}
    (hfound : findRelease args.findOrders config.upper config.allFeatures bucketName bucket
      ⟨args.committish, args.version, args.gardenlinuxEpoch, args.architecture, args.platform,
        modifiers⟩ = .ok (some release))
    (hplatform : release.platform = "azure")
    (hprovisional : args.provisional config release = .ok provisional)
    (hpublished : uploadAndPublishOffer config offerService provisional = .ok (published, started))
    (services : List Marketplace) :
    UrnsName config published.imageVersion provisional started services ↔
      ((∃ taken, taken <+: services ∧ ∃ urn,
        RecordsUrn ((Transport.mk started []).polls config taken).release .released urn) →
      config.parseToSemver args.version = .ok args.version) := by
  have hversion : release.version = args.version := version_of_findRelease hfound
  obtain ⟨parsedVersion, hparsed, rfl⟩ := provisional_ok hplatform hprovisional
  obtain ⟨hkey, -, operations, hstarted⟩ := uploadAndPublishOffer_ok hpublished
  have hkey' : config.parseToSemver args.version = .ok published.imageVersion := hversion ▸ hkey
  obtain rfl := Except.ok.inj (hparsed.symm.trans hkey')
  have hstate : ∀ taken, UrnState config args.version published.imageVersion
      ((Transport.mk started []).polls config taken).release := fun taken =>
    UrnState.polls (hversion ▸ urnState_started hstarted hkey) taken
  constructor
  · rintro ⟨-, hname⟩ ⟨taken, htaken, urn, hurn⟩
    have hreleased := (hstate taken).released urn hurn
    rw [hname taken htaken .released urn (Or.inr rfl) hurn] at hreleased
    rw [hparsed, generateUrn_injective config hreleased]
  · intro hsemver
    refine ⟨fun urn hurn => (RecordsUrn.eq rfl hurn).2.symm, ?_⟩
    rintro taken htaken _ urn (rfl | rfl) hurn
    · exact (hstate taken).publish urn hurn
    · rw [(hstate taken).released urn hurn]
      have hsame := Except.ok.inj (hparsed.symm.trans (hsemver ⟨taken, htaken, urn, hurn⟩))
      rw [hsame]

/-! ## A version of three components, and one of two -/

def urnConfig (parseToSemver : String → Except ModelError String) : Config :=
  ⟨asciiUpper, FeatureSet.ofEntries [("azure", ⟨"platform", [], []⟩)], "sap", "gardenlinux",
    "greatest", parseToSemver⟩

def urnRelease (version : String) : OnlineReleaseManifest :=
  { azureRelease with
    version := version,
    paths := [⟨"rootfs.vhd", "rootfs.vhd", "objects/27ab", "gardenlinux"⟩],
    s3Key := "meta/singles/azure-" ++ version ++ "-5b1e9f" }

def urnBucket (version : String) : Bucket :=
  AList.insert ("meta/singles/azure-" ++ version ++ "-5b1e9f") (.manifest (urnRelease version)) ∅

def urnArgs (version : String) : PromoteArgs :=
  ⟨"5b1e9f03", .amd64, "azure", 576, "", version, [.publish], fun _ => .error "", .sorted,
    ⟨.sorted, .sorted, .sorted⟩, .sorted⟩

def urnOffers : OfferService where
  copyImage _ _ := .ok "https://gardenlinux.blob.core.windows.net/images"
  fetchOffer := .ok ⟨[⟨"greatest", ∅⟩]⟩
  updateOffer _ := .ok ()
  publishOffer := .ok ()
  submissions := .ok [⟨"publish-1", .staging, .running⟩]

/-- The offer with an image of the version. -/
def urnPublished (imageVersion : String) : PublishedOffer :=
  ⟨imageVersion, ⟨[⟨"greatest", AList.insert imageVersion
    ⟨"https://gardenlinux.blob.core.windows.net/images", []⟩ ∅⟩]⟩, "publish-1"⟩

def urnProvisional (version imageVersion : String) : OnlineReleaseManifest :=
  { urnRelease version with
    publishedImageMetadata :=
      some (.azure .provisional ("sap:gardenlinux:greatest:" ++ imageVersion) "" "") }

def urnStarted (version imageVersion : String) : OnlineReleaseManifest :=
  { urnRelease version with
    publishedImageMetadata :=
      some (.azure .publish ("sap:gardenlinux:greatest:" ++ imageVersion) "publish-1" "") }

theorem urnRelease_found :
    findRelease (urnArgs "576.0.0").findOrders (urnConfig .ok).upper (urnConfig .ok).allFeatures
      "gardenlinux" (urnBucket "576.0.0") ⟨"5b1e9f03", "576.0.0", 576, .amd64, "azure", []⟩ =
    .ok (some (urnRelease "576.0.0")) := by
  decide +kernel

theorem urnRelease_published :
    uploadAndPublishOffer (urnConfig .ok) urnOffers (urnProvisional "576.0.0" "576.0.0") =
      .ok (urnPublished "576.0.0", urnStarted "576.0.0" "576.0.0") :=
  rfl

theorem urns_agree_576 :
    UrnsName (urnConfig .ok) "576.0.0" (urnProvisional "576.0.0" "576.0.0")
      (urnStarted "576.0.0" "576.0.0") [goingLive, goingLive] :=
  (urns_agree_iff urnRelease_found rfl rfl urnRelease_published [goingLive, goingLive]).2
    fun _ => rfl

/-- With two components, the URN of the released image names no version of the offer. -/
theorem urns_differ :
    ¬ ∀ (config : Config) (args : PromoteArgs) (bucketName : String) (bucket : Bucket)
        (modifiers : List String) (release provisional started : OnlineReleaseManifest)
        (offerService : OfferService) (published : PublishedOffer) (services : List Marketplace),
      findRelease args.findOrders config.upper config.allFeatures bucketName bucket
        ⟨args.committish, args.version, args.gardenlinuxEpoch, args.architecture, args.platform,
          modifiers⟩ = .ok (some release) →
      release.platform = "azure" →
      args.provisional config release = .ok provisional →
      uploadAndPublishOffer config offerService provisional = .ok (published, started) →
      UrnsName config published.imageVersion provisional started services := by
  intro h
  have hname := h (urnConfig fun version => .ok (version ++ ".0")) (urnArgs "318.8") "gardenlinux"
    (urnBucket "318.8") [] (urnRelease "318.8") (urnProvisional "318.8" "318.8.0")
    (urnStarted "318.8" "318.8.0") urnOffers (urnPublished "318.8.0") [goingLive, goingLive]
    (by decide +kernel) rfl rfl rfl
  have hreleased := hname.2 [goingLive, goingLive] List.prefix_rfl .released
    "sap:gardenlinux:greatest:318.8" (Or.inr rfl) ⟨"publish-1", "golive-1", by decide +kernel⟩
  exact absurd hreleased (by decide)

end Glci
