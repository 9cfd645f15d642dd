import GardenLinux.Glci.ManifestKey
import GardenLinux.Glci.UploadResults

/-!
# Every manifest under its own key

`upload_results_step` stores a manifest, the steps that edit manifests compute the key
again and write it back.  Here the steps run one after the other, in any number and order.

What is proved here:

* `suffix_of_orders` — the key does not depend on the orders of the sets when upper-casing
  tells the maximal modifiers apart;
* `StoreStep.ownKeys` and `StoreStep.writesBack` — what one step keeps, and what it writes;
* `storeSteps_ownKeys` — in every run from a bucket without manifests, every manifest stays
  under its own key, and every edit is written back to the key that was read;
* `storeSteps_ownKeys_fails` — two names that are the same in upper case are enough for a
  manifest to have another key in another process, and to be written back to another key.
-/

namespace Glci

open GardenFeat Process

/-! ## The steps -/

/-- A step that stores manifests, with its arguments. -/
inductive StoreStep
  | uploadResults (args : UploadArgs)
  | promoteSingleStep (args : PromoteArgs)
  | uploadTestResults (args : TestArgs)
  | attachLogs (args : LogArgs)

/-- The step as one that edits manifests, if it does. -/
def StoreStep.edit? (config : Config) : StoreStep → Option ManifestStep
  | .uploadResults _ => none
  | .promoteSingleStep args => some (.promote config args)
  | .uploadTestResults args => some (.uploadTestResults config args)
  | .attachLogs args => some (.attachLogs config args)

def StoreStep.process (config : Config) (bucketName : String) : StoreStep → Step Unit
  | .uploadResults args => uploadResultsStep config bucketName args
  | .promoteSingleStep args => Glci.promoteSingleStep config bucketName args
  | .uploadTestResults args => Glci.uploadTestResults config bucketName args
  | .attachLogs args => attachLogsToSingleManifest config bucketName args

/-- The bucket after a step. -/
def StoreStep.run (config : Config) (bucketName : String) (bucket : Bucket) (step : StoreStep) :
    Bucket :=
  ((step.process config bucketName).run.eval s3Service bucket).2

/-- The bucket after one step after the other. -/
def runAll (config : Config) (bucketName : String) (steps : List StoreStep) (bucket : Bucket) :
    Bucket :=
  steps.foldl (StoreStep.run config bucketName) bucket

/-! ## The invariant -/

/-- The key is that of the release, whatever the orders of the sets. -/
def ReleaseIdentifier.HasKey (config : Config) (r : ReleaseIdentifier) (key : String) : Prop :=
  ∀ orders, r.canonicalReleaseManifestKey orders config.upper config.allFeatures = .ok key

/-- Every object under `meta/singles` is read as a manifest of which the key is its own. -/
def OwnKeys (config : Config) (bucketName : String) (bucket : Bucket) : Prop :=
  ∀ key ∈ bucket, hasPrefix manifestKeyPrefix key →
    ∃ manifest, releaseManifest bucketName bucket key false = .ok (some manifest) ∧
      manifest.releaseIdentifier.HasKey config key

/-- The write of a manifest follows the read of the key that it goes to, and keeps the
identifier, the time of the build and the paths. -/
def WritesBack (bucketName : String) (exchanges : List (Exchange s3)) : Prop :=
  ∀ before after key object, exchanges = before ++ ⟨.putObject key object, ()⟩ :: after →
    ∃ earlier stored old new, before = earlier ++ [⟨.getObject key, stored⟩] ∧
      deserialise bucketName key true stored = .ok (some old) ∧ object = .manifest new ∧
      new.releaseIdentifier = old.releaseIdentifier ∧ new.buildTimestamp = old.buildTimestamp ∧
      new.paths = old.paths

/-- Upper-casing tells the maximal modifiers of a release apart. -/
def ReleaseIdentifier.ToldApart (config : Config) (r : ReleaseIdentifier) : Prop :=
  ∀ u v, IsMaximal config.allFeatures r.modifiers u → IsMaximal config.allFeatures r.modifiers v →
    config.upper u = config.upper v → u = v

/-- What is uploaded is told apart, and logs are attached to manifests under `meta/singles`
(the keys that `upload_results_step` leaves as its result). -/
def StoreStep.Meets (config : Config) : StoreStep → Prop
  | .uploadResults args => args.Stores → args.releaseIdentifier.ToldApart config
  | .attachLogs args => ∀ entry ∈ args.buildDict,
    ¬ entry.2.toList.all isSpace → hasPrefix manifestKeyPrefix entry.2
  | .promoteSingleStep _ | .uploadTestResults _ => True

variable {config : Config} {bucketName : String} {bucket : Bucket} {key : String}

/-! ## One key for all orders -/

/-- With one order of the sets the canonical features exist with every other. -/
theorem canonicalisedFeatures_of_orders {orders : SetOrders} (orders' : SetOrders)
    {platform : String} {modifiers : List String} {upper : String → String}
    {allFeatures : FeatureSet} {l : List FeatureDescriptor}
    (h : canonicalisedFeatures orders upper allFeatures platform modifiers = .ok l) :
    ∃ l', canonicalisedFeatures orders' upper allFeatures platform modifiers = .ok l' := by
  simp only [canonicalisedFeatures, bind_ok_iff] at h ⊢
  obtain ⟨p, hp, found, hfound, found', hfound', included, hincluded, -⟩ := h
  exact ⟨_, p, hp, found, hfound, found', hfound', included, hincluded, rfl⟩

/-- Maximal modifiers that are told apart have one order. -/
theorem canonicalisedFeatures_congr {orders orders' : SetOrders} {r : ReleaseIdentifier}
    (hr : r.ToldApart config) {l : List FeatureDescriptor}
    (h : canonicalisedFeatures orders config.upper config.allFeatures r.platform r.modifiers =
      .ok l) :
    canonicalisedFeatures orders' config.upper config.allFeatures r.platform r.modifiers =
      .ok l := by
  obtain ⟨l', h'⟩ := canonicalisedFeatures_of_orders orders' h
  obtain ⟨-, -, names, hnames, rfl⟩ := of_canonicalisedFeatures_ok h
  obtain ⟨-, -, names', hnames', rfl⟩ := of_canonicalisedFeatures_ok h'
  have heq : names' = names := by
    ext v
    rw [hnames, hnames']
  subst heq
  rw [h', sortOn_congr (orders'.descriptors.perm orders.descriptors _)]
  intro d hd d' hd' hupper
  rw [orders'.descriptors.mem_list, Finset.mem_image] at hd hd'
  obtain ⟨u, hu, rfl⟩ := hd
  obtain ⟨v, hv, rfl⟩ := hd'
  rw [hr u v ((hnames' u).1 hu) ((hnames' v).1 hv) hupper]

/-- A key of a release that is told apart is its key whatever the orders. -/
theorem ReleaseIdentifier.ToldApart.hasKey {orders : SetOrders} {r : ReleaseIdentifier}
    (hr : r.ToldApart config)
    (h : r.canonicalReleaseManifestKey orders config.upper config.allFeatures = .ok key) :
    r.HasKey config key := by
  intro orders'
  simp only [ReleaseIdentifier.canonicalReleaseManifestKey,
    ReleaseIdentifier.canonicalReleaseManifestKeySuffix, bind_ok_iff] at h ⊢
  obtain ⟨suffix, ⟨features, hfeatures, hsuffix⟩, hkey⟩ := h
  exact ⟨suffix, ⟨features, canonicalisedFeatures_congr hr hfeatures, hsuffix⟩, hkey⟩

/-! ## Writes that keep the invariant -/

theorem ownKeys_insert {manifest : OnlineReleaseManifest} (h : OwnKeys config bucketName bucket)
    (hmanifest : manifest.releaseIdentifier.HasKey config key) :
    OwnKeys config bucketName (bucket.insert key (.manifest manifest)) := by
  intro key' hmem hpre
  by_cases heq : key' = key
  · subst heq
    refine ⟨{ manifest with s3Key := key', s3Bucket := bucketName }, ?_, hmanifest⟩
    rw [releaseManifest, AList.lookup_insert, deserialise]
  · obtain ⟨found, hfound, hkey⟩ := h key' ((AList.mem_insert _).1 hmem |>.resolve_left heq) hpre
    refine ⟨found, ?_, hkey⟩
    rwa [releaseManifest, AList.lookup_insert_ne heq]

theorem ownKeys_insert_of_not_prefix {object : S3Object} (h : OwnKeys config bucketName bucket)
    (hkey : ¬ hasPrefix manifestKeyPrefix key) :
    OwnKeys config bucketName (bucket.insert key object) := by
  intro key' hmem hpre
  have hne : key' ≠ key := by
    rintro rfl
    exact hkey hpre
  obtain ⟨found, hfound, hown⟩ := h key' ((AList.mem_insert _).1 hmem |>.resolve_left hne) hpre
  refine ⟨found, ?_, hown⟩
  rwa [releaseManifest, AList.lookup_insert_ne hne]

/-- An upload of a release that is told apart keeps the invariant. -/
theorem uploadResults_ownKeys {args : UploadArgs}
    (hargs : args.Stores → args.releaseIdentifier.ToldApart config)
    (h : OwnKeys config bucketName bucket) :
    OwnKeys config bucketName
      ((uploadResultsStep config bucketName args).run.eval s3Service bucket).2 := by
  obtain ⟨_, hinv, -⟩ := alone_induction (S := s3Service) (g := [])
    (J := fun _ bucket => OwnKeys config bucketName bucket) uploadResultsStep_safe h
    fun uploaded bucket c hbucket hallowed => by
      cases c with
      | getObject key => exact hallowed.elim
      | putObject key object =>
        rcases hallowed with ⟨rfl, sha1Digest, rfl⟩ |
          ⟨manifest, orders, hstores, rfl, hidentifier, hkey, -⟩
        · exact ownKeys_insert_of_not_prefix hbucket (not_manifestKeyPrefix_uploadKey sha1Digest)
        · refine ownKeys_insert hbucket ?_
          rw [hidentifier] at hkey
          have hown := (hargs hstores).hasKey hkey
          rwa [← hidentifier] at hown
  exact hinv

/-! ## Edits that keep the invariant -/

/-- What a step holds in its hand is a manifest with the key that it was read from. -/
def Holds (config : Config) (held : Option (String × OnlineReleaseManifest)) : Prop :=
  ∀ readKey manifest, held = some (readKey, manifest) →
    manifest.releaseIdentifier.HasKey config readKey

/-- The keys that a step reads lie under `meta/singles`. -/
def ManifestStep.ReadsSingles (step : ManifestStep) : Prop :=
  ∀ readKey, step.Reads readKey → hasPrefix manifestKeyPrefix readKey

theorem holds_remembered (h : OwnKeys config bucketName bucket)
    (hpre : hasPrefix manifestKeyPrefix key) :
    Holds config (remembered bucketName key (bucket.lookup key)) := by
  intro readKey manifest hheld
  obtain ⟨rfl, -, -, hread⟩ := remembered_some hheld
  cases hlookup : bucket.lookup key with
  | none =>
    rw [hlookup] at hread
    simp [deserialise] at hread
  | some object =>
    obtain ⟨found, hfound, hown⟩ := h key (AList.lookup_isSome.1 (by simp [hlookup])) hpre
    rw [releaseManifest, hlookup] at hfound
    rw [hlookup] at hread
    have heq : deserialise bucketName key true (some object) =
        deserialise bucketName key false (some object) := by
      cases object <;> rfl
    rw [heq, hfound] at hread
    rwa [← Option.some.inj (Except.ok.inj hread)]

/-- What one call of an edit keeps. -/
theorem rewriting_step {step : ManifestStep} (hreads : step.ReadsSingles)
    (held : Option (String × OnlineReleaseManifest)) (bucket : Bucket) (c : S3Call)
    (h : OwnKeys step.config bucketName bucket ∧ Holds step.config held)
    (hallowed : (rewriting bucketName step).Allowed held c) :
    OwnKeys step.config bucketName (s3Service.perform bucket c).2 ∧
      Holds step.config ((rewriting bucketName step).update held c (s3Service.perform bucket c).1) := by
  cases c with
  | getObject key => exact ⟨h.1, holds_remembered h.1 (hreads key hallowed)⟩
  | putObject key object =>
    obtain ⟨readKey, manifest, newManifest, orders, rfl, hedit, rfl, hkey⟩ := hallowed
    have hown := h.2 readKey manifest rfl
    obtain rfl := Except.ok.inj ((hown orders).symm.trans hkey)
    refine ⟨ownKeys_insert h.1 ?_, fun _ _ hheld => nomatch hheld⟩
    rwa [ManifestStep.overwrites hedit, ManifestField.releaseIdentifier_overwrite]

theorem holds_none : Holds config none := fun _ _ h => nomatch h

theorem ManifestStep.ownKeys {step : ManifestStep} (hreads : step.ReadsSingles)
    (h : OwnKeys step.config bucketName bucket) :
    OwnKeys step.config bucketName ((step.process bucketName).run.eval s3Service bucket).2 := by
  obtain ⟨_, hinv, -⟩ := alone_induction (S := s3Service)
    (J := fun held bucket => OwnKeys step.config bucketName bucket ∧ Holds step.config held)
    (step.rewrites bucketName) ⟨h, holds_none⟩ (rewriting_step hreads)
  exact hinv.1

/-- What is held after some calls was read by the last of them. -/
theorem last_of_held {step : ManifestStep} {before : List (Exchange s3)} {readKey : String}
    {manifest : OnlineReleaseManifest}
    (h : ghostAfter (rewriting bucketName step) none before = some (readKey, manifest)) :
    ∃ earlier stored, before = earlier ++ [⟨.getObject readKey, stored⟩] ∧
      deserialise bucketName readKey true stored = .ok (some manifest) := by
  rcases List.eq_nil_or_concat before with rfl | ⟨earlier, ⟨c, stored⟩, rfl⟩
  · exact nomatch h
  · rw [List.concat_eq_append, ghostAfter, List.foldl_append] at h
    cases c with
    | getObject key =>
      obtain ⟨rfl, -, -, hread⟩ := remembered_some h
      exact ⟨earlier, stored, List.concat_eq_append, hread⟩
    | putObject key object => exact nomatch h

theorem ManifestStep.writesBack {step : ManifestStep} (hreads : step.ReadsSingles)
    (h : OwnKeys step.config bucketName bucket) :
    WritesBack bucketName ((step.process bucketName).run.calls s3Service bucket) := by
  intro before after key object hcalls
  obtain ⟨hallowed, store, -, hholds⟩ := allowed_of_mem_calls (S := s3Service)
    (J := fun held bucket => OwnKeys step.config bucketName bucket ∧ Holds step.config held)
    (step.rewrites bucketName) ⟨h, holds_none⟩ (rewriting_step hreads) hcalls
  obtain ⟨readKey, manifest, newManifest, orders, hheld, hedit, rfl, hkey⟩ := hallowed
  obtain rfl := Except.ok.inj ((hholds readKey manifest hheld orders).symm.trans hkey)
  obtain ⟨earlier, stored, rfl, hread⟩ := last_of_held hheld
  refine ⟨earlier, stored, manifest, newManifest, rfl, hread, rfl, ?_⟩
  rw [ManifestStep.overwrites hedit]
  exact ⟨ManifestField.releaseIdentifier_overwrite .., ManifestField.buildTimestamp_overwrite ..,
    ManifestField.paths_overwrite ..⟩

/-! ## Runs -/

theorem StoreStep.edit?_config {step : StoreStep} {edit : ManifestStep}
    (h : step.edit? config = some edit) : edit.config = config := by
  cases step <;> cases h <;> rfl

theorem StoreStep.edit?_process {step : StoreStep} {edit : ManifestStep}
    (h : step.edit? config = some edit) :
    edit.process bucketName = step.process config bucketName := by
  cases step <;> cases h <;> rfl

theorem StoreStep.Meets.readsSingles {step : StoreStep} (hstep : step.Meets config)
    {edit : ManifestStep} (h : step.edit? config = some edit) : edit.ReadsSingles := by
  intro readKey hread
  cases step with
  | uploadResults args => cases h
  | promoteSingleStep args =>
    cases h
    obtain ⟨orders, r, hkey⟩ := hread
    exact hasPrefix_of_key hkey
  | uploadTestResults args =>
    cases h
    obtain ⟨orders, r, hkey⟩ := hread
    exact hasPrefix_of_key hkey
  | attachLogs args =>
    cases h
    obtain ⟨hmem, hspace⟩ := hread
    obtain ⟨entry, hentry, rfl⟩ := List.mem_map.1 hmem
    exact hstep entry hentry hspace

/-- A step keeps every manifest under its own key. -/
theorem StoreStep.ownKeys {step : StoreStep} (hstep : step.Meets config)
    (h : OwnKeys config bucketName bucket) :
    OwnKeys config bucketName (step.run config bucketName bucket) := by
  cases hedit : step.edit? config with
  | none =>
    cases step with
    | uploadResults args => exact uploadResults_ownKeys hstep h
    | promoteSingleStep args => cases hedit
    | uploadTestResults args => cases hedit
    | attachLogs args => cases hedit
  | some edit =>
    obtain rfl := StoreStep.edit?_config hedit
    rw [StoreStep.run, ← StoreStep.edit?_process hedit]
    exact ManifestStep.ownKeys (hstep.readsSingles hedit) h

/-- A step that edits manifests writes back to the key that it read. -/
theorem StoreStep.writesBack {step : StoreStep} (hstep : step.Meets config)
    (h : OwnKeys config bucketName bucket) (hedit : (step.edit? config).isSome) :
    WritesBack bucketName ((step.process config bucketName).run.calls s3Service bucket) := by
  obtain ⟨edit, hedit⟩ := Option.isSome_iff_exists.1 hedit
  obtain rfl := StoreStep.edit?_config hedit
  rw [← StoreStep.edit?_process hedit]
  exact ManifestStep.writesBack (hstep.readsSingles hedit) h

theorem runAll_ownKeys {steps : List StoreStep} (hsteps : ∀ step ∈ steps, step.Meets config)
    (h : OwnKeys config bucketName bucket) :
    OwnKeys config bucketName (runAll config bucketName steps bucket) := by
  induction steps generalizing bucket with
  | nil => exact h
  | cons step steps ih =>
    exact ih (fun s hs => hsteps s (List.mem_cons_of_mem _ hs))
      (StoreStep.ownKeys (hsteps step (List.mem_cons_self ..)) h)

/-- In every run of steps from a bucket without manifests, where upper-casing tells the
maximal modifiers of what is uploaded apart, every manifest is under its own key after
every step, and every edit is written back to the key that was read. -/
theorem storeSteps_ownKeys {steps : List StoreStep}
    (hempty : ∀ key ∈ bucket, ¬ hasPrefix manifestKeyPrefix key)
    (hsteps : ∀ step ∈ steps, step.Meets config) :
    ∀ taken, taken <+: steps →
      OwnKeys config bucketName (runAll config bucketName taken bucket) ∧
      ∀ step, taken ++ [step] <+: steps → (step.edit? config).isSome →
        WritesBack bucketName ((step.process config bucketName).run.calls s3Service
          (runAll config bucketName taken bucket)) := by
  intro taken htaken
  have hown : OwnKeys config bucketName (runAll config bucketName taken bucket) :=
    runAll_ownKeys (fun step hstep => hsteps step (htaken.subset hstep))
      fun key hkey hpre => absurd hpre (hempty key hkey)
  refine ⟨hown, fun step hstep hedit => ?_⟩
  exact StoreStep.writesBack (hsteps step (hstep.subset (by simp))) hown hedit

/-! ## A name in two cases -/

def caseConfig : Config :=
  ⟨asciiUpper, caseFeatures, "publisher", "offer", "plan", fun version => .ok version⟩

/-- A build of `aws` with some modifiers. -/
def caseUpload (modifiers : String) : UploadArgs :=
  ⟨"5b1e9f03", .amd64, "aws", 576, modifiers, "576.0", [.build, .manifest, .tests], "build-image",
    false, true, [⟨"rootfs.raw", [1, 2, 3]⟩], fun _ => "7037807198c22a7d2b0807371d763779a84fdfcf",
    "2022-01-24T12:00:00", fun _ => .error "", .sorted⟩

/-- The upload of its test results. -/
def caseTest (modifiers : String) : TestArgs :=
  ⟨"5b1e9f03", .amd64, "aws", 576, modifiers, "576.0", [.build, .manifest, .tests], false,
    .testResult ⟨"default", .ok, "2022-01-24T13:00:00"⟩, ⟨.sorted, .sorted, .sorted⟩, .sorted⟩

/-- The orders of a process in which the set of descriptors is listed the other way round. -/
def otherOrders : SetOrders := ⟨.sorted, Enumeration.reversed SetOrders.sorted.descriptors⟩

/-- Its publication.  The key is read with the modifiers in the order of the normalised tuple and
written with those of the manifest, in the order of the parameter: where the descriptors collide in
the table of the set, it lists those first that it was given first. -/
def casePromote (modifiers : String) : PromoteArgs :=
  ⟨"5b1e9f03", .amd64, "aws", 576, modifiers, "576.0", [.build, .manifest, .publish],
    fun _ => .ok (.aws []), .sorted, ⟨.sorted, .sorted, .sorted⟩, otherOrders⟩

def devSteps : List StoreStep :=
  [.uploadResults (caseUpload "dev"), .uploadTestResults (caseTest "dev")]

theorem devSteps_meet : ∀ step ∈ devSteps, step.Meets caseConfig := by
  intro step hstep
  rcases List.mem_pair.1 hstep with rfl | rfl
  · intro _ u v hu hv _
    have hmodifiers : (caseUpload "dev").releaseIdentifier.modifiers = ["dev"] := by decide +kernel
    rw [hmodifiers] at hu hv
    exact (List.mem_singleton.1 hu.1).trans (List.mem_singleton.1 hv.1).symm
  · exact trivial

/-- The test results are written back to the manifest that the upload has stored. -/
theorem storeSteps_ownKeys_dev :
    OwnKeys caseConfig "gardenlinux" (runAll caseConfig "gardenlinux" devSteps ∅) ∧
      WritesBack "gardenlinux"
        (((StoreStep.uploadTestResults (caseTest "dev")).process caseConfig "gardenlinux").run.calls
          s3Service
          (runAll caseConfig "gardenlinux" [.uploadResults (caseUpload "dev")] ∅)) := by
  have hempty : ∀ key ∈ (∅ : Bucket), ¬ hasPrefix manifestKeyPrefix key := fun key hkey =>
    absurd hkey (AList.notMem_empty key)
  refine ⟨(storeSteps_ownKeys hempty devSteps_meet devSteps List.prefix_rfl).1, ?_⟩
  exact (storeSteps_ownKeys hempty devSteps_meet [.uploadResults (caseUpload "dev")]
    ⟨[_], rfl⟩).2 _ List.prefix_rfl (by decide +kernel)

/-- Whether a call writes, and the key that it is about. -/
def S3Call.access : S3Call → Bool × String
  | .getObject key => (false, key)
  | .putObject key _ => (true, key)

/-- A write to another key than the one that was read is not written back. -/
theorem not_writesBack {exchanges : List (Exchange s3)} {readKey : String}
    (h : exchanges.map (fun e => e.1.access) = [(false, readKey), (true, key)])
    (hne : readKey ≠ key) : ¬ WritesBack bucketName exchanges := by
  intro hback
  obtain ⟨⟨c, stored⟩, rest, rfl, hc, hrest⟩ := List.map_eq_cons_iff.1 h
  obtain ⟨⟨c', answer⟩, rest', rfl, hc', hrest'⟩ := List.map_eq_cons_iff.1 hrest
  obtain rfl := List.map_eq_nil_iff.1 hrest'
  cases c' with
  | getObject key' => exact Bool.false_ne_true (congrArg Prod.fst hc')
  | putObject key' object =>
    obtain ⟨earlier, stored', old, new, hlast, -⟩ := hback [⟨c, stored⟩] [] key' object rfl
    obtain ⟨-, hlast⟩ := List.append_inj' (show [] ++ [_] = earlier ++ [_] from hlast) rfl
    obtain ⟨rfl, -⟩ := Sigma.mk.inj (List.singleton_inj.1 hlast)
    exact hne ((congrArg Prod.snd hc).symm.trans (congrArg Prod.snd hc'))

/-- With `dev` and `DEV` another process computes another key for the manifest that was uploaded, and
publishing writes the manifest to another key than the one that it was read from. -/
theorem storeSteps_ownKeys_fails :
    (¬ ∀ (config : Config) (bucketName : String) (bucket : Bucket) (steps : List StoreStep),
      (∀ key ∈ bucket, ¬ hasPrefix manifestKeyPrefix key) →
      ∀ taken, taken <+: steps →
        OwnKeys config bucketName (runAll config bucketName taken bucket) ∧
        ∀ step, taken ++ [step] <+: steps → (step.edit? config).isSome →
          WritesBack bucketName ((step.process config bucketName).run.calls s3Service
            (runAll config bucketName taken bucket))) ∧
    ¬ OwnKeys caseConfig "gardenlinux"
      (runAll caseConfig "gardenlinux" [.uploadResults (caseUpload "dev,DEV")] ∅) ∧
    ¬ WritesBack "gardenlinux"
      (((StoreStep.promoteSingleStep (casePromote "dev,DEV")).process caseConfig
        "gardenlinux").run.calls s3Service
          (runAll caseConfig "gardenlinux" [.uploadResults (caseUpload "dev,DEV")] ∅)) := by
  have hother : ¬ OwnKeys caseConfig "gardenlinux"
      (runAll caseConfig "gardenlinux" [.uploadResults (caseUpload "dev,DEV")] ∅) := by
    intro hown
    obtain ⟨manifest, hmanifest, hkey⟩ := hown "meta/singles/aws-DEV-dev-576.0-5b1e9f"
      (by decide +kernel) (by decide +kernel)
    have hread : (releaseManifest "gardenlinux"
        (runAll caseConfig "gardenlinux" [.uploadResults (caseUpload "dev,DEV")] ∅)
        "meta/singles/aws-DEV-dev-576.0-5b1e9f" false).toOption.map
          (fun m => m.map fun m => m.releaseIdentifier.canonicalReleaseManifestKey otherOrders
            asciiUpper caseFeatures) =
        some (some (.ok "meta/singles/aws-dev-DEV-576.0-5b1e9f")) := by decide +kernel
    rw [hmanifest] at hread
    have hsame := Option.some.inj (Option.some.inj hread)
    exact absurd (Except.ok.inj ((hkey otherOrders).symm.trans hsame)) (by decide)
  have hkeys : ((StoreStep.process caseConfig "gardenlinux"
      (.promoteSingleStep (casePromote "dev,DEV"))).run.calls s3Service
      (runAll caseConfig "gardenlinux" [.uploadResults (caseUpload "dev,DEV")] ∅)).map
        (fun e => e.1.access) =
      [(false, "meta/singles/aws-DEV-dev-576.0-5b1e9f"),
        (true, "meta/singles/aws-dev-DEV-576.0-5b1e9f")] := by
    decide +kernel
  refine ⟨fun h => ?_, hother, not_writesBack hkeys (by decide)⟩
  exact hother (h caseConfig "gardenlinux" ∅ [.uploadResults (caseUpload "dev,DEV")]
    (fun key hkey => absurd hkey (AList.notMem_empty key)) _ List.prefix_rfl).1

end Glci
