import GardenLinux.Glci.AzureTransport

/-!
# What a check does with a reported state

A call of `check_offer_transport_state` after `upload_and_publish_image` and any number of
calls.  It should return a manifest for whatever state of the operation the service reports,
keep the ids of the operations, and record a failure.

What is proved here:

* `Transport.GoliveUnset.polls` — the id of a go-live operation is only recorded while the
  release goes live and after it;
* `checkOfferTransportState_copes_iff` — exactly when a check copes with a reported state;
* `polls_cope_iff` — the same for every state of a run;
* `goLive_failed_raises` — the failure of a release that goes live is not recorded.
-/

namespace Glci

open GardenFeat Transport

/-! ## Coping with a reported state -/

/-- A check of the release that gets a state reported returns a manifest that has the ids that
were recorded, and the state `FAILED` if that is what was reported. -/
def CopesWith (config : Config) (release : OnlineReleaseManifest) (service : Marketplace) : Prop :=
  ∀ transportState urn publishOperationId goliveOperationId operationStatus,
    release.publishedImageMetadata =
      some (.azure transportState urn publishOperationId goliveOperationId) →
    service.operationState publishOperationId = .ok operationStatus →
    ∃ checked transportState' urn' publishOperationId' goliveOperationId',
      (checkOfferTransportState config service release).1 = .ok checked ∧
      checked.publishedImageMetadata =
        some (.azure transportState' urn' publishOperationId' goliveOperationId') ∧
      (publishOperationId ≠ "" → publishOperationId' = publishOperationId) ∧
      (goliveOperationId ≠ "" → goliveOperationId' = goliveOperationId) ∧
      (∀ report ∈ (checkOfferTransportState config service release).2, report.2 = .failed →
        transportState' = .failed)

/-- No failure is reported while the release goes live, and when the publish operation has
succeeded the go-live operation can be triggered and found. -/
def Manageable (release : OnlineReleaseManifest) (service : Marketplace) : Prop :=
  ∀ transportState urn publishOperationId goliveOperationId operationStatus,
    release.publishedImageMetadata =
      some (.azure transportState urn publishOperationId goliveOperationId) →
    service.operationState publishOperationId = .ok operationStatus →
    ¬ (transportState = .goLive ∧ operationStatus = .failed) ∧
    (transportState = .publish → operationStatus = .succeeded →
      ∃ started, service.triggerGoLive = .ok started)

/-- Before a release goes live it has no go-live operation. -/
def Transport.GoliveUnset (t : Transport) : Prop :=
  ∃ transportState publishOperationId goliveOperationId,
    t.At transportState publishOperationId goliveOperationId ∧
    (transportState ≠ .goLive → transportState ≠ .released → goliveOperationId = "")

variable {config : Config} {t : Transport}

theorem Transport.GoliveUnset.poll (h : t.GoliveUnset) (service : Marketplace) :
    (t.poll config service).GoliveUnset := by
  obtain ⟨transportState, publishOperationId, goliveOperationId, hat, hunset⟩ := h
  by_cases hidle : transportState = .released ∨
      ∀ operationStatus, service.operationState publishOperationId ≠ .ok operationStatus
  · rw [poll_idle hat hidle]
    exact ⟨transportState, publishOperationId, goliveOperationId, hat, hunset⟩
  · push Not at hidle
    obtain ⟨hreleased, operationStatus, hanswer⟩ := hidle
    obtain ⟨-, transportState', goliveOperationId', hat', hnext⟩ :=
      poll_next config hat hreleased hanswer
    refine ⟨transportState', publishOperationId, goliveOperationId', hat',
      fun hgolive hreleased => ?_⟩
    cases hnext with
    | stay _ => exact hunset hgolive hreleased
    | fail => rfl
    | goLive => exact absurd rfl hgolive
    | release => exact absurd rfl hreleased

theorem Transport.GoliveUnset.polls (h : t.GoliveUnset) (services : List Marketplace) :
    (t.polls config services).GoliveUnset := by
  induction services generalizing t with
  | nil => exact h
  | cons service services ih => exact ih (h.poll service)

theorem goliveUnset_started {published : Except AzureError Unit} {operations : List AzmpSubmission}
    {release started : OnlineReleaseManifest}
    (hstarted : uploadAndPublishImage config published operations release = .ok started) :
    (Transport.mk started []).GoliveUnset := by
  obtain ⟨_, -, hstarted⟩ := bind_ok_iff.1 hstarted
  obtain ⟨publishOperationId, -, hstarted⟩ := bind_ok_iff.1 hstarted
  obtain ⟨parsedVersion, -, hstarted⟩ := bind_ok_iff.1 hstarted
  obtain rfl := Except.ok.inj hstarted
  exact ⟨.publish, publishOperationId, "", ⟨_, rfl⟩, fun _ _ => rfl⟩

/-! ## One check -/

section Check

variable {service : Marketplace} {release : OnlineReleaseManifest}
  {transportState : AzureTransportState} {urn publishOperationId goliveOperationId : String}
  {operationStatus : AzmpOperationState}

theorem checkOfferTransportState_reported
    (hmetadata : release.publishedImageMetadata =
      some (.azure transportState urn publishOperationId goliveOperationId))
    (hreleased : transportState ≠ .released)
    (hanswer : service.operationState publishOperationId = .ok operationStatus) :
    checkOfferTransportState config service release =
      (transported config service release transportState publishOperationId goliveOperationId
        operationStatus, [(publishOperationId, operationStatus)]) := by
  simp only [checkOfferTransportState, hmetadata, if_neg hreleased, hanswer]

/-- A manageable state is coped with, whichever branch is taken. -/
theorem transported_copes (config : Config)
    (hmetadata : release.publishedImageMetadata =
      some (.azure transportState urn publishOperationId goliveOperationId))
    (hunset : transportState ≠ .goLive → transportState ≠ .released → goliveOperationId = "")
    (hreleased : transportState ≠ .released)
    (hfailed : ¬ (transportState = .goLive ∧ operationStatus = .failed))
    (hgolive : transportState = .publish → operationStatus = .succeeded →
      ∃ started, service.triggerGoLive = .ok started) :
    ∃ checked transportState' urn' goliveOperationId',
      transported config service release transportState publishOperationId goliveOperationId
        operationStatus = .ok checked ∧
      checked.publishedImageMetadata =
        some (.azure transportState' urn' publishOperationId goliveOperationId') ∧
      (goliveOperationId ≠ "" → goliveOperationId' = goliveOperationId) ∧
      (operationStatus = .failed → transportState' = .failed) := by
  unfold transported
  split
  · next hstatus =>
    have hnotLive : transportState ≠ .goLive := fun heq => hfailed ⟨heq, hstatus⟩
    rw [if_neg hnotLive]
    exact ⟨_, _, _, _, rfl, rfl, fun hne => absurd (hunset hnotLive hreleased) hne, fun _ => rfl⟩
  · next hstatus =>
    split
    · next hpublish =>
      obtain ⟨rfl, rfl⟩ := hpublish
      obtain ⟨started, hstarted⟩ := hgolive rfl rfl
      rw [hstarted]
      exact ⟨_, _, _, _, rfl, rfl, fun hne => absurd (hunset (by simp) (by simp)) hne,
        fun h => absurd h hstatus⟩
    · split
      · exact ⟨_, _, _, _, rfl, rfl, fun _ => rfl, fun h => absurd h hstatus⟩
      · exact ⟨release, _, _, _, rfl, hmetadata, fun _ => rfl, fun h => absurd h hstatus⟩

end Check

/-- Exactly the manageable states are coped with. -/
theorem checkOfferTransportState_copes_iff (h : t.GoliveUnset) (service : Marketplace) :
    CopesWith config t.release service ↔ Manageable t.release service := by
  constructor
  · intro hcopes transportState urn publish golive operationStatus hmetadata hanswer
    obtain ⟨checked, _, _, _, _, hchecked, -⟩ :=
      hcopes transportState urn publish golive operationStatus hmetadata hanswer
    have hreports : transportState ≠ .released →
        transported config service t.release transportState publish golive operationStatus =
          .ok checked := by
      intro hreleased
      rw [checkOfferTransportState_reported hmetadata hreleased hanswer] at hchecked
      exact hchecked
    refine ⟨?_, ?_⟩
    · rintro ⟨rfl, rfl⟩
      exact nomatch hreports (by simp)
    · rintro rfl rfl
      obtain ⟨started, hstarted, -⟩ := map_ok_iff.1 (hreports (by simp))
      exact ⟨started, hstarted⟩
  · intro hmanageable transportState urn publish golive operationStatus hmetadata hanswer
    obtain ⟨transportState₀, publish₀, golive₀, hat, hunset⟩ := h
    obtain ⟨rfl, rfl, rfl⟩ := At.eq ⟨urn, hmetadata⟩ hat
    obtain ⟨hfailed, hgolive⟩ :=
      hmanageable transportState urn publish golive operationStatus hmetadata hanswer
    by_cases hreleased : transportState = .released
    · subst hreleased
      have hcheck : checkOfferTransportState config service t.release = (.ok t.release, []) := by
        simp [checkOfferTransportState, hmetadata]
      rw [hcheck]
      exact ⟨t.release, _, _, _, _, rfl, hmetadata, fun _ => rfl, fun _ => rfl, by simp⟩
    · rw [checkOfferTransportState_reported hmetadata hreleased hanswer]
      obtain ⟨checked, transportState', urn', golive', hchecked, hmetadata', hkept, hrecorded⟩ :=
        transported_copes config hmetadata hunset hreleased hfailed hgolive
      refine ⟨checked, transportState', urn', publish, golive', hchecked, hmetadata', fun _ => rfl,
        hkept, fun report hreport hstatus => hrecorded ?_⟩
      rw [← hstatus, List.mem_singleton.1 hreport]

/-- Every check of a run copes with what is reported exactly if every state of the run is
manageable. -/
theorem polls_cope_iff {published : Except AzureError Unit} {operations : List AzmpSubmission}
    {release started : OnlineReleaseManifest}
    (hstarted : uploadAndPublishImage config published operations release = .ok started)
    (services : List Marketplace) :
    (∀ taken service, taken ++ [service] <+: services →
      CopesWith config ((Transport.mk started []).polls config taken).release service) ↔
    ∀ taken service, taken ++ [service] <+: services →
      Manageable ((Transport.mk started []).polls config taken).release service := by
  have hstate : ∀ taken, ((Transport.mk started []).polls config taken).GoliveUnset := fun taken =>
    (goliveUnset_started hstarted).polls taken
  constructor
  · intro hcope taken service htaken
    exact (checkOfferTransportState_copes_iff (hstate taken) service).1 (hcope taken service htaken)
  · intro hmanageable taken service htaken
    exact (checkOfferTransportState_copes_iff (hstate taken) service).2
      (hmanageable taken service htaken)

/-! ## A failure while the release goes live -/

/-- The operation that was seen to succeed is reported as failed. -/
def goLiveFailing : Marketplace :=
  { goingLive with operationState := fun _ => .ok .failed }

theorem polls_cope_iff_goingLive :
    (∀ taken service, taken ++ [service] <+: [goingLive] →
      CopesWith azureConfig
        ((Transport.mk azureStarted []).polls azureConfig taken).release service) ↔
    ∀ taken service, taken ++ [service] <+: [goingLive] →
      Manageable ((Transport.mk azureStarted []).polls azureConfig taken).release service :=
  polls_cope_iff (show uploadAndPublishImage azureConfig (.ok ())
    [⟨"publish-1", .staging, .running⟩] azureRelease = .ok azureStarted from rfl) [goingLive]

/-- The check that gets the failure reported raises. -/
theorem goLive_failed_raises :
    ¬ ∀ (config : Config) (published : Except AzureError Unit) (operations : List AzmpSubmission)
        (release started : OnlineReleaseManifest) (services : List Marketplace)
        (service : Marketplace),
      uploadAndPublishImage config published operations release = .ok started →
      CopesWith config ((Transport.mk started []).polls config services).release service := by
  intro h
  obtain ⟨checked, _, _, _, _, hchecked, -⟩ := h azureConfig (.ok ())
    [⟨"publish-1", .staging, .running⟩] azureRelease azureStarted [goingLive] goLiveFailing rfl
    .goLive "" "publish-1" "golive-1" .failed (by decide) rfl
  exact nomatch (show Except.error AzureError.frozenInstanceError = Except.ok checked from hchecked)

end Glci
