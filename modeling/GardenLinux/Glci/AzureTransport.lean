import GardenLinux.Glci.Steps

/-!
# Publishing to the Azure Marketplace

`upload_and_publish_image` and `check_offer_transport_state` of `ci/glci/az.py`: a release is
first published to the staging environment and then goes live, each by an operation of the
marketplace service, and `check_offer_transport_state` is called again and again until the
release is there.

What is proved here:

* `Transport.poll_idle` and `Transport.poll_next` — what one call can do;
* `Transport.Inv.poll` — the service is only ever asked about the publish operation;
* `released_iff` — exactly when `RELEASED` means that the go-live operation has succeeded:
  when no check is answered while the release goes live, unless both operations are one;
* `released_early` — a release that is `RELEASED` while the go-live operation still runs.
-/

namespace Glci

open GardenFeat

/-! ## The service -/

inductive AzmpOperationState
  | notStarted
  | running
  | completed
  | succeeded
  | failed
  deriving DecidableEq, Repr

inductive AzmpTransportDest
  | staging
  | prod
  deriving DecidableEq, Repr

/-- An entry of the list of submissions. -/
structure AzmpSubmission where
  id : String
  slot : AzmpTransportDest
  submissionState : AzmpOperationState
  deriving DecidableEq, Repr

inductive AzureError
  | requestError (text : String)
  | runtimeError (text : String)
  | modelError (e : ModelError)
  | attributeError
  | frozenInstanceError
  deriving DecidableEq, Repr

/-- What the service answers during one call of `check_offer_transport_state`. -/
structure Marketplace where
  operationState : String → Except AzureError AzmpOperationState
  goLive : Except AzureError Unit
  submissions : Except AzureError (List AzmpSubmission)

/-- `fetch_ongoing_operation_id`. -/
def fetchOngoingOperationId (operations : List AzmpSubmission) (transportDest : AzmpTransportDest) :
    Except AzureError String :=
  match operations.find? fun operation =>
    operation.slot = transportDest ∧ operation.submissionState = .running with
  | some operation => .ok operation.id
  | none => .error (.runtimeError
    "Did not find an ongoing transport operation to ship gardenliunx offer on the Azure Marketplace.")

def generateUrn (config : Config) (imageVersion : String) : String :=
  config.publisherId ++ ":" ++ config.offerId ++ ":" ++ config.planId ++ ":" ++ imageVersion

/-- The end of `upload_and_publish_image`: `published` is what becomes of the upload and of the
update and the publishing of the offer. -/
def uploadAndPublishImage (config : Config) (published : Except AzureError Unit)
    (operations : List AzmpSubmission) (release : OnlineReleaseManifest) :
    Except AzureError OnlineReleaseManifest := do
  published
  let publishOperationId ← fetchOngoingOperationId operations .staging
  let parsedVersion ← (config.parseToSemver release.version).mapError .modelError
  pure { release with
    publishedImageMetadata :=
      some (.azure .publish (generateUrn config parsedVersion) publishOperationId "") }

/-- The go-live operation is triggered and looked up. -/
def Marketplace.triggerGoLive (service : Marketplace) : Except AzureError String := do
  service.goLive
  let operations ← service.submissions
  fetchOngoingOperationId operations .prod

/-- What `check_offer_transport_state` makes of the state of the operation. -/
def transported (config : Config) (service : Marketplace) (release : OnlineReleaseManifest)
    (transportState : AzureTransportState) (publishOperationId goliveOperationId : String)
    (operationStatus : AzmpOperationState) : Except AzureError OnlineReleaseManifest :=
  if operationStatus = .failed then
    -- the go-live operation is assigned to an attribute of a frozen dataclass
    if transportState = .goLive then .error .frozenInstanceError
    else .ok { release with
      publishedImageMetadata := some (.azure .failed "" publishOperationId "") }
  else if transportState = .publish ∧ operationStatus = .succeeded then
    service.triggerGoLive.map fun goliveOperationId => { release with
      publishedImageMetadata := some (.azure .goLive "" publishOperationId goliveOperationId) }
  else if transportState = .goLive ∧ operationStatus = .succeeded then
    .ok { release with
      publishedImageMetadata := some (.azure .released (generateUrn config release.version)
        publishOperationId goliveOperationId) }
  else .ok release

/-- `check_offer_transport_state`: the result, and the operations of which the service has
reported the state. -/
def checkOfferTransportState (config : Config) (service : Marketplace)
    (release : OnlineReleaseManifest) :
    Except AzureError OnlineReleaseManifest × List (String × AzmpOperationState) :=
  match release.publishedImageMetadata with
  | some (.azure transportState _ publishOperationId goliveOperationId) =>
    if transportState = .released then (.ok release, [])
    else
      match service.operationState publishOperationId with
      | .error e => (.error e, [])
      | .ok operationStatus =>
        (transported config service release transportState publishOperationId goliveOperationId
          operationStatus, [(publishOperationId, operationStatus)])
  | _ => (.error .attributeError, [])

/-! ## Runs -/

/-- A release on its way, and what the service has reported so far. -/
structure Transport where
  release : OnlineReleaseManifest
  reports : List (String × AzmpOperationState)

namespace Transport

/-- A call of `check_offer_transport_state`; after an exception the release is as it was. -/
def poll (config : Config) (t : Transport) (service : Marketplace) : Transport :=
  let checked := checkOfferTransportState config service t.release
  ⟨checked.1.toOption.getD t.release, t.reports ++ checked.2⟩

def polls (config : Config) (t : Transport) (services : List Marketplace) : Transport :=
  services.foldl (poll config) t

/-- The service has reported that the operation in `golive_operation_id` succeeded. -/
def ReleasedAfterGoLive (t : Transport) : Prop :=
  ∀ urn publishOperationId goliveOperationId,
    t.release.publishedImageMetadata =
      some (.azure .released urn publishOperationId goliveOperationId) →
    (goliveOperationId, .succeeded) ∈ t.reports

/-- No check is answered while the release goes live, unless both operations are one. -/
def Meets (t : Transport) (service : Marketplace) : Prop :=
  ∀ urn publishOperationId goliveOperationId operationStatus,
    t.release.publishedImageMetadata =
      some (.azure .goLive urn publishOperationId goliveOperationId) →
    service.operationState publishOperationId = .ok operationStatus →
    goliveOperationId = publishOperationId

/-- How the state and the go-live operation follow the state of the publish operation. -/
inductive Next : AzureTransportState → String → AzmpOperationState → AzureTransportState → String →
    Prop
  | stay {transportState goliveOperationId operationStatus}
      (h : ¬ (transportState = .goLive ∧ operationStatus = .succeeded)) :
      Next transportState goliveOperationId operationStatus transportState goliveOperationId
  | fail {transportState goliveOperationId} :
      Next transportState goliveOperationId .failed .failed ""
  | goLive {goliveOperationId started} : Next .publish goliveOperationId .succeeded .goLive started
  | release {goliveOperationId} : Next .goLive goliveOperationId .succeeded .released goliveOperationId

variable {config : Config} {t : Transport} {service : Marketplace} {transportState : AzureTransportState}
  {urn publishOperationId goliveOperationId : String}

/-- The release has given Azure metadata. -/
def At (t : Transport) (transportState : AzureTransportState) (publishOperationId
    goliveOperationId : String) : Prop :=
  ∃ urn, t.release.publishedImageMetadata =
    some (.azure transportState urn publishOperationId goliveOperationId)

theorem At.eq {transportState' : AzureTransportState} {publishOperationId' goliveOperationId' : String}
    (h : t.At transportState publishOperationId goliveOperationId)
    (h' : t.At transportState' publishOperationId' goliveOperationId') :
    transportState = transportState' ∧ publishOperationId = publishOperationId' ∧
      goliveOperationId = goliveOperationId' := by
  obtain ⟨urn, h⟩ := h
  obtain ⟨urn', h'⟩ := h'
  have heq := Option.some.inj (h.symm.trans h')
  injection heq with hstate _ hpublish hgolive
  exact ⟨hstate, hpublish, hgolive⟩

/-- A check that is not answered, or not made, leaves everything as it is. -/
theorem poll_idle (h : t.At transportState publishOperationId goliveOperationId)
    (hidle : transportState = .released ∨
      ∀ operationStatus, service.operationState publishOperationId ≠ .ok operationStatus) :
    t.poll config service = t := by
  obtain ⟨urn, h⟩ := h
  have hchecked : checkOfferTransportState config service t.release = (.ok t.release, []) ∨
      ∃ e, checkOfferTransportState config service t.release = (.error e, []) := by
    unfold checkOfferTransportState
    rw [h]
    dsimp only
    split
    · exact Or.inl rfl
    · next hreleased =>
      split
      · exact Or.inr ⟨_, rfl⟩
      · next operationStatus hanswer =>
        exact absurd hanswer (hidle.resolve_left hreleased operationStatus)
  unfold poll
  rcases hchecked with hchecked | ⟨e, hchecked⟩
  · rw [hchecked]
    simp [Except.toOption]
  · rw [hchecked]
    simp [Except.toOption]

/-- A check that is answered follows the state of the publish operation. -/
theorem poll_next (config : Config) (h : t.At transportState publishOperationId goliveOperationId)
    (hreleased : transportState ≠ .released) {operationStatus : AzmpOperationState}
    (hanswer : service.operationState publishOperationId = .ok operationStatus) :
    (t.poll config service).reports = t.reports ++ [(publishOperationId, operationStatus)] ∧
      ∃ transportState' goliveOperationId',
        (t.poll config service).At transportState' publishOperationId goliveOperationId' ∧
        Next transportState goliveOperationId operationStatus transportState' goliveOperationId' := by
  obtain ⟨urn, h⟩ := h
  have hchecked : checkOfferTransportState config service t.release =
      (transported config service t.release transportState publishOperationId goliveOperationId
        operationStatus, [(publishOperationId, operationStatus)]) := by
    unfold checkOfferTransportState
    simp only [h, if_neg hreleased, hanswer]
  unfold poll At
  rw [hchecked]
  refine ⟨rfl, ?_⟩
  dsimp only
  unfold transported
  split
  · next hfailed =>
    subst hfailed
    split
    · exact ⟨_, _, ⟨urn, h⟩, .stay (by simp)⟩
    · exact ⟨_, _, ⟨_, rfl⟩, .fail⟩
  · split
    · next hpublish =>
      obtain ⟨rfl, rfl⟩ := hpublish
      cases service.triggerGoLive with
      | ok started => exact ⟨_, _, ⟨_, rfl⟩, .goLive⟩
      | error e => exact ⟨_, _, ⟨urn, h⟩, .stay (by simp)⟩
    · split
      · next hgolive =>
        obtain ⟨rfl, rfl⟩ := hgolive
        exact ⟨_, _, ⟨_, rfl⟩, .release⟩
      · next hgolive => exact ⟨_, _, ⟨urn, h⟩, .stay hgolive⟩

/-! ## The invariant -/

/-- The answers of the service about an operation that has come to an end do not change. -/
def Consistent (services : List Marketplace) : Prop :=
  services.Pairwise fun earlier later => ∀ operationId ended operationStatus,
    earlier.operationState operationId = .ok ended → ended = .succeeded ∨ ended = .failed →
    later.operationState operationId = .ok operationStatus → operationStatus = ended

/-- The service is only asked about the publish operation, which has succeeded when the
release goes live. -/
structure Inv (publishOperationId : String) (services : List Marketplace) (t : Transport) : Prop where
  asked : ∀ report ∈ t.reports, report.1 = publishOperationId
  answered : ∀ report ∈ t.reports, ∃ service ∈ services, service.operationState report.1 = .ok report.2
  state : ∃ transportState goliveOperationId,
    t.At transportState publishOperationId goliveOperationId ∧
    (transportState = .goLive ∨ transportState = .released →
      (publishOperationId, .succeeded) ∈ t.reports)

theorem Inv.poll {services : List Marketplace} (h : Inv publishOperationId services t)
    (service : Marketplace) :
    Inv publishOperationId (services ++ [service]) (t.poll config service) := by
  obtain ⟨transportState, goliveOperationId, hat, hsucceeded⟩ := h.state
  by_cases hidle : transportState = .released ∨
      ∀ operationStatus, service.operationState publishOperationId ≠ .ok operationStatus
  · rw [poll_idle hat hidle]
    refine ⟨h.asked, fun report hreport => ?_, transportState, goliveOperationId, hat, hsucceeded⟩
    obtain ⟨earlier, hmem, hanswer⟩ := h.answered report hreport
    exact ⟨earlier, List.mem_append_left _ hmem, hanswer⟩
  · push Not at hidle
    obtain ⟨hreleased, operationStatus, hanswer⟩ := hidle
    obtain ⟨hreports, transportState', goliveOperationId', hat', hnext⟩ :=
      poll_next config hat hreleased hanswer
    refine ⟨fun report hreport => ?_, fun report hreport => ?_, transportState', goliveOperationId',
      hat', fun hlive => ?_⟩
    · rw [hreports] at hreport
      rcases List.mem_append.1 hreport with hold | hnew
      · exact h.asked report hold
      · rw [List.mem_singleton.1 hnew]
    · rw [hreports] at hreport
      rcases List.mem_append.1 hreport with hold | hnew
      · obtain ⟨earlier, hmem, hearlier⟩ := h.answered report hold
        exact ⟨earlier, List.mem_append_left _ hmem, hearlier⟩
      · rw [List.mem_singleton.1 hnew]
        exact ⟨service, by simp, hanswer⟩
    · rw [hreports]
      cases hnext with
      | stay _ => exact List.mem_append_left _ (hsucceeded hlive)
      | fail => simp at hlive
      | goLive => simp
      | release => simp

theorem Inv.polls {services later : List Marketplace} (h : Inv publishOperationId services t) :
    Inv publishOperationId (services ++ later) (t.polls config later) := by
  induction later generalizing services t with
  | nil =>
    rw [List.append_nil]
    exact h
  | cons service later ih =>
    have hpoll : Inv publishOperationId (services ++ [service]) (t.poll config service) :=
      h.poll service
    have hlater := ih hpoll
    rw [List.append_assoc, List.singleton_append] at hlater
    exact hlater

theorem polls_concat (t : Transport) (taken : List Marketplace) (service : Marketplace) :
    t.polls config (taken ++ [service]) = (t.polls config taken).poll config service :=
  List.foldl_concat ..

/-- A release goes live by a check of which the answer does not change any more. -/
theorem Inv.succeeded {taken : List Marketplace} (h : Inv publishOperationId taken t)
    (hgolive : t.At .goLive publishOperationId goliveOperationId)
    (hconsistent : Consistent (taken ++ [service])) {operationStatus : AzmpOperationState}
    (hanswer : service.operationState publishOperationId = .ok operationStatus) :
    operationStatus = .succeeded := by
  obtain ⟨transportState, goliveOperationId', hat, hsucceeded⟩ := h.state
  obtain ⟨rfl, -, -⟩ := hgolive.eq hat
  obtain ⟨earlier, hmem, hearlier⟩ := h.answered _ (hsucceeded (Or.inl rfl))
  exact (List.pairwise_append.1 hconsistent).2.2 earlier hmem service (by simp) publishOperationId
    .succeeded operationStatus hearlier (Or.inl rfl) hanswer

/-- While the steps of a run meet the condition, a release has one operation. -/
theorem Inv.released {services : List Marketplace} (h : Inv publishOperationId [] t)
    (hstart : t.At .publish publishOperationId "")
    (hmeets : ∀ taken service, taken ++ [service] <+: services →
      (t.polls config taken).Meets service) {taken : List Marketplace} (htaken : taken <+: services)
    (hreleased : (t.polls config taken).At .released publishOperationId goliveOperationId) :
    goliveOperationId = publishOperationId := by
  induction taken using List.reverseRecOn generalizing goliveOperationId with
  | nil => exact nomatch (hstart.eq hreleased).1
  | append_singleton taken service ih =>
    have hinv : Inv publishOperationId ([] ++ taken) (t.polls config taken) := h.polls
    obtain ⟨transportState, golive, hat, -⟩ := hinv.state
    rw [polls_concat] at hreleased
    by_cases hidle : transportState = .released ∨
        ∀ operationStatus, service.operationState publishOperationId ≠ .ok operationStatus
    · rw [poll_idle hat hidle] at hreleased
      exact ih ((List.prefix_append _ _).trans htaken) hreleased
    · push Not at hidle
      obtain ⟨hne, operationStatus, hanswer⟩ := hidle
      obtain ⟨-, transportState', golive', hat', hnext⟩ := poll_next config hat hne hanswer
      obtain ⟨rfl, -, rfl⟩ := hreleased.eq hat'
      cases hnext with
      | stay _ => exact absurd rfl hne
      | release =>
        obtain ⟨urn, hgolive⟩ := hat
        exact hmeets taken service htaken urn _ _ _ hgolive hanswer

end Transport

/-! ## Released and gone live -/

open Transport

variable {config : Config}

/-- For a consistent service, `RELEASED` means in every state that the operation in
`golive_operation_id` was reported to have succeeded exactly when no check is answered while
the release goes live, unless the go-live operation is the publish operation. -/
theorem released_iff {published : Except AzureError Unit} {operations : List AzmpSubmission}
    {release started : OnlineReleaseManifest} {services : List Marketplace}
    (hstarted : uploadAndPublishImage config published operations release = .ok started)
    (hconsistent : Consistent services) :
    (∀ taken, taken <+: services → ((Transport.mk started []).polls config taken).ReleasedAfterGoLive) ↔
      ∀ taken service, taken ++ [service] <+: services →
        ((Transport.mk started []).polls config taken).Meets service := by
  obtain ⟨_, -, hstarted⟩ := bind_ok_iff.1 hstarted
  obtain ⟨publishOperationId, -, hstarted⟩ := bind_ok_iff.1 hstarted
  obtain ⟨parsedVersion, -, hstarted⟩ := bind_ok_iff.1 hstarted
  obtain rfl := Except.ok.inj hstarted
  set t : Transport := ⟨{ release with publishedImageMetadata := _ }, []⟩ with ht
  have hstart : t.At .publish publishOperationId "" := ⟨_, rfl⟩
  have hinv : Inv publishOperationId [] t := by
    refine ⟨by simp [ht], by simp [ht], .publish, "", hstart, ?_⟩
    simp
  constructor
  · intro hreleased taken service htaken urn publish golive operationStatus hmetadata hanswer
    have htakenInv : Inv publishOperationId ([] ++ taken) (t.polls config taken) := hinv.polls
    have hgolive : (t.polls config taken).At .goLive publish golive := ⟨urn, hmetadata⟩
    obtain ⟨transportState, golive', hat, -⟩ := htakenInv.state
    obtain ⟨rfl, rfl, rfl⟩ := hgolive.eq hat
    obtain rfl := htakenInv.succeeded hgolive (hconsistent.sublist htaken.sublist) hanswer
    obtain ⟨hreports, transportState', golive', hat', hnext⟩ :=
      poll_next config hgolive (by simp) hanswer
    have hafter : Inv publish ([] ++ (taken ++ [service])) (t.polls config (taken ++ [service])) :=
      hinv.polls
    cases hnext with
    | stay hne => exact absurd ⟨rfl, rfl⟩ hne
    | release =>
      obtain ⟨urn', hmetadata'⟩ := hat'
      rw [← polls_concat] at hmetadata'
      exact hafter.asked _ (hreleased _ htaken _ _ _ hmetadata')
  · intro hmeets taken htaken urn publish golive hmetadata
    have htakenInv : Inv publishOperationId ([] ++ taken) (t.polls config taken) := hinv.polls
    have hreleased : (t.polls config taken).At .released publish golive := ⟨urn, hmetadata⟩
    obtain ⟨transportState, golive', hat, hsucceeded⟩ := htakenInv.state
    obtain ⟨rfl, rfl, rfl⟩ := hreleased.eq hat
    obtain rfl := hinv.released hstart hmeets htaken hreleased
    exact hsucceeded (Or.inr rfl)

/-! ## A go-live operation that is still running -/

def azureConfig : Config := ⟨id, ∅, "sap", "gardenlinux", "greatest", fun version => .ok version⟩

def azureRelease : OnlineReleaseManifest :=
  { buildCommittish := "5b1e9f03", version := "576.0.0", gardenlinuxEpoch := 576,
    architecture := .amd64, platform := "azure", modifiers := [],
    buildTimestamp := "2022-01-24T12:00:00", paths := [], baseImage := none,
    publishedImageMetadata := none, s3Key := "meta/singles/azure-576.0.0-5b1e9f",
    s3Bucket := "gardenlinux", testResult := none, logs := none }

/-- The publish operation has succeeded, the go-live operation is running. -/
def goingLive : Marketplace where
  operationState operationId := .ok (if operationId = "publish-1" then .succeeded else .running)
  goLive := .ok ()
  submissions := .ok [⟨"publish-1", .staging, .succeeded⟩, ⟨"golive-1", .prod, .running⟩]

/-- The release when its publish operation is running. -/
def azureStarted : OnlineReleaseManifest :=
  { azureRelease with
    publishedImageMetadata :=
      some (.azure .publish "sap:gardenlinux:greatest:576.0.0" "publish-1" "") }

theorem goingLive_consistent (n : ℕ) : Consistent (List.replicate n goingLive) := by
  refine List.pairwise_replicate.2 (Or.inr ?_)
  intro operationId ended operationStatus hended _ hlater
  exact Except.ok.inj (hlater.symm.trans hended)

theorem released_iff_goingLive :
    (∀ taken, taken <+: [goingLive] →
      ((Transport.mk azureStarted []).polls azureConfig taken).ReleasedAfterGoLive) ↔
      ∀ taken service, taken ++ [service] <+: [goingLive] →
        ((Transport.mk azureStarted []).polls azureConfig taken).Meets service :=
  released_iff (show uploadAndPublishImage azureConfig (.ok ()) [⟨"publish-1", .staging, .running⟩]
    azureRelease = .ok azureStarted from rfl) (goingLive_consistent 1)

/-- After the second check the release is `RELEASED`, and nothing was ever reported of the
go-live operation. -/
theorem released_early :
    ¬ ∀ (config : Config) (published : Except AzureError Unit) (operations : List AzmpSubmission)
        (release started : OnlineReleaseManifest) (services : List Marketplace),
      uploadAndPublishImage config published operations release = .ok started →
      Consistent services →
      ((Transport.mk started []).polls config services).ReleasedAfterGoLive := by
  intro h
  have hreleased := h azureConfig (.ok ()) [⟨"publish-1", .staging, .running⟩] azureRelease
    azureStarted [goingLive, goingLive] rfl (goingLive_consistent 2)
    "sap:gardenlinux:greatest:576.0.0" "publish-1" "golive-1" (by decide)
  exact absurd hreleased (by decide)

end Glci
