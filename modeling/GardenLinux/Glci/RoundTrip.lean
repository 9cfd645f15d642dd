import GardenLinux.Glci.ManifestFields

/-!
# Manifests survive a round trip

A manifest or a manifest set that is uploaded to a bucket and read again from there.

What is proved here:

* `Represents.upload` and `Represents.reread` — on texts, the functions do what they do on the
  documents of a `Bucket`;
* `manifests_survive` — what is uploaded is read back in every field, manifests and sets.
-/

namespace Glci

open PyData

/-! ## Upload and read -/

section Store

variable {Text : Type} {yaml : Yaml Text} {read : Reader}

/-- A text that is read as the manifest. -/
def IsManifest (yaml : Yaml Text) (read : Reader) (text : Text)
    (document : OnlineReleaseManifest) : Prop :=
  ∃ d, yaml.safeLoad text = .ok d ∧ ∀ bucketName key, readManifest read bucketName key d =
    .ok (OnlineReleaseManifest.object .hinted
      { document with s3Key := key, s3Bucket := bucketName })

/-- A text that is read as the manifest set. -/
def IsManifestSet (yaml : Yaml Text) (read : Reader) (text : Text)
    (document : OnlineReleaseManifestSet) : Prop :=
  ∃ d, yaml.safeLoad text = .ok d ∧ ∀ bucketName key, readManifestSet read bucketName key d =
    .ok (OnlineReleaseManifestSet.object .hinted
      { document with s3Key := key, s3Bucket := bucketName })

namespace Store

theorem uploadReleaseManifest_ok (hyaml : yaml.Undoes) {cls : String} {attrs attrs' : Items}
    {d : PyValue} (hjson : jsonSerialisableAttrs attrs = attrs')
    (hplain : plain (.object cls attrs') = some d) (store : Store Text) (key : String) :
    ∃ text, yaml.safeLoad text = .ok d ∧
      store.uploadReleaseManifest yaml key (.object cls attrs) = .ok (store.insert key text) := by
  obtain ⟨text, hdump, hload⟩ := hyaml.dump hplain
  refine ⟨text, hload, ?_⟩
  simp [uploadReleaseManifest, jsonSerialisableManifest, asdict, hjson, hdump, bind, Except.bind,
    pure, Except.pure]

theorem uploadReleaseManifestSet_ok (hyaml : yaml.Undoes) {cls : String} {attrs attrs' : Items}
    {kind : SequenceKind} {manifests manifests' : List PyValue} {d : PyValue}
    (hmanifests : attrs.lookup "manifests" = some (kind.of manifests))
    (hjson : manifests.mapM jsonSerialisableManifest = .ok manifests')
    (hattrs : setItem attrs "manifests" (.list manifests') = attrs')
    (hplain : plain (.object cls attrs') = some d) (store : Store Text) (key : String) :
    ∃ text, yaml.safeLoad text = .ok d ∧
      store.uploadReleaseManifestSet yaml key (.object cls attrs) =
        .ok (store.insert key text) := by
  obtain ⟨text, hdump, hload⟩ := hyaml.dump hplain
  have hiterate : (kind.of manifests).iterate = .ok manifests := by cases kind <;> rfl
  refine ⟨text, hload, ?_⟩
  simp [uploadReleaseManifestSet, getAttr, hmanifests, hiterate, hjson, replaceAttr, hattrs, asdict,
    hdump, bind, Except.bind, pure, Except.pure]

variable {store : Store Text} {key : String} {text : Text} (bucketName : String) (absentOk : Bool)

theorem releaseManifest_of_lookup {document : OnlineReleaseManifest}
    (hlookup : store.lookup key = some text) (h : IsManifest yaml read text document) :
    store.releaseManifest yaml read bucketName key absentOk =
      .ok (some (OnlineReleaseManifest.object .hinted
        { document with s3Key := key, s3Bucket := bucketName })) := by
  obtain ⟨d, hload, hreads⟩ := h
  simp [releaseManifest, download, hlookup, hload, hreads bucketName key, bind, Except.bind, pure,
    Except.pure]

theorem releaseManifestSet_of_lookup {document : OnlineReleaseManifestSet}
    (hlookup : store.lookup key = some text) (h : IsManifestSet yaml read text document) :
    store.releaseManifestSet yaml read bucketName key absentOk =
      .ok (some (OnlineReleaseManifestSet.object .hinted
        { document with s3Key := key, s3Bucket := bucketName })) := by
  obtain ⟨d, hload, hreads⟩ := h
  simp [releaseManifestSet, download, hlookup, hload, hreads bucketName key, bind, Except.bind,
    pure, Except.pure]

end Store

section Upload

variable (hyaml : yaml.Undoes) (hread : Documented read) (form : Form) (setForm : SetForm)
  (store : Store Text) (key : String)

include hyaml hread

theorem ReleaseManifest.upload (m : ReleaseManifest) :
    ∃ text, IsManifest yaml read text m.document ∧
      store.uploadReleaseManifest yaml key (m.object form) = .ok (store.insert key text) := by
  obtain ⟨d, hplain, hreads⟩ := m.reads_back hread form "ReleaseManifest"
  obtain ⟨text, hload, hupload⟩ :=
    Store.uploadReleaseManifest_ok hyaml (m.jsonSerialisable form) hplain store key
  exact ⟨text, ⟨d, hload, hreads⟩, hupload⟩

theorem OnlineReleaseManifest.upload (m : OnlineReleaseManifest) :
    ∃ text, IsManifest yaml read text m ∧
      store.uploadReleaseManifest yaml key (m.object form) = .ok (store.insert key text) := by
  obtain ⟨d, hplain, hreads⟩ := m.reads_back hread form "OnlineReleaseManifest"
  obtain ⟨text, hload, hupload⟩ :=
    Store.uploadReleaseManifest_ok hyaml (m.jsonSerialisable form) hplain store key
  exact ⟨text, ⟨d, hload, hreads⟩, hupload⟩

omit hyaml hread in
/-- Each manifest of a set is serialised in its own form. -/
theorem mapM_jsonSerialisableManifest (manifests : List OnlineReleaseManifest) :
    (manifests.mapIdx fun i m => m.object (setForm.manifest i)).mapM jsonSerialisableManifest =
      .ok (manifests.mapIdx fun i m => m.object (setForm.serialised.manifest i)) := by
  refine mapM_ok_of_forall₂ (forall₂_mapIdx (fun i m => ?_) manifests)
  rw [OnlineReleaseManifest.object, jsonSerialisableManifest,
    OnlineReleaseManifest.jsonSerialisable]
  rfl

theorem ReleaseManifestSet.upload (s : ReleaseManifestSet) :
    ∃ text, IsManifestSet yaml read text s.document ∧
      store.uploadReleaseManifestSet yaml key (s.object setForm) =
        .ok (store.insert key text) := by
  obtain ⟨d, hplain, hreads⟩ := s.reads_back hread setForm "ReleaseManifestSet"
  have hattrs : setItem (s.attrs setForm) "manifests" (.list (s.manifests.mapIdx fun i m =>
      m.object (setForm.serialised.manifest i))) = s.attrs setForm.serialised := rfl
  obtain ⟨text, hload, hupload⟩ := Store.uploadReleaseManifestSet_ok hyaml rfl
    (mapM_jsonSerialisableManifest setForm s.manifests) hattrs hplain store key
  exact ⟨text, ⟨d, hload, hreads⟩, hupload⟩

theorem OnlineReleaseManifestSet.upload (s : OnlineReleaseManifestSet) :
    ∃ text, IsManifestSet yaml read text s ∧
      store.uploadReleaseManifestSet yaml key (s.object setForm) =
        .ok (store.insert key text) := by
  obtain ⟨d, hplain, hreads⟩ := s.reads_back hread setForm "OnlineReleaseManifestSet"
  have hattrs : setItem (s.attrs setForm) "manifests" (.list (s.manifests.mapIdx fun i m =>
      m.object (setForm.serialised.manifest i))) = s.attrs setForm.serialised := rfl
  obtain ⟨text, hload, hupload⟩ := Store.uploadReleaseManifestSet_ok hyaml rfl
    (mapM_jsonSerialisableManifest setForm s.manifests) hattrs hplain store key
  exact ⟨text, ⟨d, hload, hreads⟩, hupload⟩

end Upload

/-! ## The bucket of documents -/

/-- The texts of a store are those of the documents of a bucket. -/
structure Represents (yaml : Yaml Text) (read : Reader) (store : Store Text) (bucket : Bucket) :
    Prop where
  manifest : ∀ key document, bucket.lookup key = some (.manifest document) →
    ∃ text, store.lookup key = some text ∧ IsManifest yaml read text document
  manifestSet : ∀ key document, bucket.lookup key = some (.manifestSet document) →
    ∃ text, store.lookup key = some text ∧ IsManifestSet yaml read text document
  absent : ∀ key, bucket.lookup key = none → store.lookup key = none

namespace Represents

variable {store : Store Text} {bucket : Bucket} {key bucketName : String} {absentOk : Bool}

theorem empty : Represents yaml read (∅ : Store Text) (∅ : Bucket) where
  manifest key document h := by simp at h
  manifestSet key document h := by simp at h
  absent key _ := AList.lookup_empty key

theorem insert (h : Represents yaml read store bucket) {text : Text} {object : S3Object}
    (hmanifest : ∀ document, object = .manifest document → IsManifest yaml read text document)
    (hset : ∀ document, object = .manifestSet document → IsManifestSet yaml read text document) :
    Represents yaml read (store.insert key text) (bucket.insert key object) where
  manifest key' document hlookup := by
    by_cases hkey : key' = key
    · subst hkey
      rw [AList.lookup_insert] at hlookup
      exact ⟨text, AList.lookup_insert store, hmanifest document (Option.some.inj hlookup)⟩
    · rw [AList.lookup_insert_ne hkey] at hlookup ⊢
      exact h.manifest key' document hlookup
  manifestSet key' document hlookup := by
    by_cases hkey : key' = key
    · subst hkey
      rw [AList.lookup_insert] at hlookup
      exact ⟨text, AList.lookup_insert store, hset document (Option.some.inj hlookup)⟩
    · rw [AList.lookup_insert_ne hkey] at hlookup ⊢
      exact h.manifestSet key' document hlookup
  absent key' hlookup := by
    by_cases hkey : key' = key
    · subst hkey
      simp [AList.lookup_insert] at hlookup
    · rw [AList.lookup_insert_ne hkey] at hlookup ⊢
      exact h.absent key' hlookup

theorem insert_manifest (h : Represents yaml read store bucket) {text : Text}
    {document : OnlineReleaseManifest} (htext : IsManifest yaml read text document) :
    Represents yaml read (store.insert key text) (uploadReleaseManifest bucket key document) := by
  refine h.insert (fun document' heq => ?_) (by simp)
  cases heq
  exact htext

section Upload

variable (hyaml : yaml.Undoes) (hread : Documented read) (h : Represents yaml read store bucket)

include hyaml hread h

/-- The upload of a manifest that was never online. -/
theorem upload_document (form : Form) (m : ReleaseManifest) :
    ∃ store', store.uploadReleaseManifest yaml key (m.object form) = .ok store' ∧
      Represents yaml read store' (uploadReleaseManifest bucket key m.document) := by
  obtain ⟨text, htext, hupload⟩ := m.upload hyaml hread form store key
  exact ⟨_, hupload, h.insert_manifest htext⟩

theorem upload (form : Form) (m : OnlineReleaseManifest) :
    ∃ store', store.uploadReleaseManifest yaml key (m.object form) = .ok store' ∧
      Represents yaml read store' (uploadReleaseManifest bucket key m) := by
  obtain ⟨text, htext, hupload⟩ := m.upload hyaml hread form store key
  exact ⟨_, hupload, h.insert_manifest htext⟩

theorem upload_set (form : SetForm) (s : ReleaseManifestSet) :
    ∃ store', store.uploadReleaseManifestSet yaml key (s.object form) = .ok store' ∧
      Represents yaml read store' (bucket.insert key (.manifestSet s.document)) := by
  obtain ⟨text, htext, hupload⟩ := s.upload hyaml hread form store key
  refine ⟨_, hupload, h.insert (by simp) fun document heq => ?_⟩
  cases heq
  exact htext

end Upload

/-- What `release_manifest` makes of a document it makes of the text. -/
theorem reread (h : Represents yaml read store bucket) {result : Option OnlineReleaseManifest}
    (hresult : releaseManifest bucketName bucket key absentOk = .ok result) :
    store.releaseManifest yaml read bucketName key absentOk =
      .ok (result.map (·.object .hinted)) := by
  unfold releaseManifest deserialise at hresult
  split at hresult
  next document hlookup =>
    cases hresult
    obtain ⟨text, htext, hmanifest⟩ := h.manifest key document hlookup
    exact Store.releaseManifest_of_lookup bucketName absentOk htext hmanifest
  next => cases hresult
  next hlookup =>
    split_ifs at hresult with hok
    cases hresult
    simp [Store.releaseManifest, Store.download, h.absent key hlookup, hok, bind, Except.bind, pure,
      Except.pure]

theorem reread_set (h : Represents yaml read store bucket)
    {result : Option OnlineReleaseManifestSet}
    (hresult : releaseManifestSet bucketName bucket key absentOk = .ok result) :
    store.releaseManifestSet yaml read bucketName key absentOk =
      .ok (result.map (·.object .hinted)) := by
  unfold releaseManifestSet at hresult
  split at hresult
  next document hlookup =>
    cases hresult
    obtain ⟨text, htext, hset⟩ := h.manifestSet key document hlookup
    exact Store.releaseManifestSet_of_lookup bucketName absentOk htext hset
  next => cases hresult
  next hlookup =>
    split_ifs at hresult with hok
    cases hresult
    simp [Store.releaseManifestSet, Store.download, h.absent key hlookup, hok, bind, Except.bind,
      pure, Except.pure]

end Represents

/-! ## The round trip -/

/-- What is read under a key after an upload to it: every field of the original, with the
sequences and the enumerations as the type hints say, and `None` for what it did not have. -/
structure ManifestsSurvive (yaml : Yaml Text) (read : Reader) (store : Store Text)
    (bucketName key : String) (absentOk : Bool) : Prop where
  manifest : ∀ (form : Form) (m : ReleaseManifest),
    (do
      let store ← store.uploadReleaseManifest yaml key (m.object form)
      store.releaseManifest yaml read bucketName key absentOk) =
    .ok (some (OnlineReleaseManifest.object .hinted
      { m with s3Key := key, s3Bucket := bucketName, testResult := none, logs := none }))
  onlineManifest : ∀ (form : Form) (m : OnlineReleaseManifest),
    (do
      let store ← store.uploadReleaseManifest yaml key (m.object form)
      store.releaseManifest yaml read bucketName key absentOk) =
    .ok (some (OnlineReleaseManifest.object .hinted
      { m with s3Key := key, s3Bucket := bucketName }))
  manifestSet : ∀ (form : SetForm) (s : ReleaseManifestSet),
    (do
      let store ← store.uploadReleaseManifestSet yaml key (s.object form)
      store.releaseManifestSet yaml read bucketName key absentOk) =
    .ok (some (OnlineReleaseManifestSet.object .hinted
      ⟨s.manifests, s.flavourSetName, key, bucketName, none⟩))
  onlineManifestSet : ∀ (form : SetForm) (s : OnlineReleaseManifestSet),
    (do
      let store ← store.uploadReleaseManifestSet yaml key (s.object form)
      store.releaseManifestSet yaml read bucketName key absentOk) =
    .ok (some (OnlineReleaseManifestSet.object .hinted
      { s with s3Key := key, s3Bucket := bucketName }))

/-- Manifests and manifest sets survive a round trip through a store. -/
theorem manifests_survive (hyaml : yaml.Undoes) (hread : Documented read) (store : Store Text)
    (bucketName key : String) (absentOk : Bool) :
    ManifestsSurvive yaml read store bucketName key absentOk where
  manifest form m := by
    obtain ⟨text, htext, hupload⟩ := m.upload hyaml hread form store key
    rw [hupload]
    exact Store.releaseManifest_of_lookup bucketName absentOk (AList.lookup_insert store) htext
  onlineManifest form m := by
    obtain ⟨text, htext, hupload⟩ := m.upload hyaml hread form store key
    rw [hupload]
    exact Store.releaseManifest_of_lookup bucketName absentOk (AList.lookup_insert store) htext
  manifestSet form s := by
    obtain ⟨text, htext, hupload⟩ := s.upload hyaml hread form store key
    rw [hupload]
    exact Store.releaseManifestSet_of_lookup bucketName absentOk (AList.lookup_insert store) htext
  onlineManifestSet form s := by
    obtain ⟨text, htext, hupload⟩ := s.upload hyaml hread form store key
    rw [hupload]
    exact Store.releaseManifestSet_of_lookup bucketName absentOk (AList.lookup_insert store) htext

/-- A release that is about to be published in the Azure marketplace. -/
def marketplaceRelease : ReleaseManifest where
  buildCommittish := "4b825dc642cb6eb9a060e54bf8d69288fbee4904"
  version := "318.8"
  gardenlinuxEpoch := 318
  architecture := .amd64
  platform := "azure"
  modifiers := ["gardener", "_prod"]
  buildTimestamp := "2021-02-12T08:30:00"
  paths := [⟨"rootfs.vhd", "rootfs.vhd", "objects/27ab", "gardenlinux"⟩]
  baseImage := none
  publishedImageMetadata := some (.azure .publish "sap:gardenlinux:greatest:318.8.0" "op-1" "")

/-- The state of the transport and the architecture are members again. -/
theorem manifests_survive_azure :
    (do
      let store ← Store.uploadReleaseManifest plainYaml ∅ "meta/singles/azure"
        (marketplaceRelease.object .hinted)
      store.releaseManifest plainYaml fromData "gardenlinux" "meta/singles/azure" false) =
    .ok (some (.object "OnlineReleaseManifest"
      [("build_committish", .str "4b825dc642cb6eb9a060e54bf8d69288fbee4904"),
        ("version", .str "318.8"), ("gardenlinux_epoch", .int 318),
        ("architecture", .enum "Architecture" "amd64"), ("platform", .str "azure"),
        ("modifiers", .tuple [.str "gardener", .str "_prod"]),
        ("build_timestamp", .str "2021-02-12T08:30:00"),
        ("paths", .tuple [.object "S3_ReleaseFile" [("name", .str "rootfs.vhd"),
          ("suffix", .str "rootfs.vhd"), ("s3_key", .str "objects/27ab"),
          ("s3_bucket_name", .str "gardenlinux")]]),
        ("base_image", .none),
        ("published_image_metadata", .object "AzurePublishedImage"
          [("transport_state", .enum "AzureTransportState" "publishing"),
            ("urn", .str "sap:gardenlinux:greatest:318.8.0"),
            ("publish_operation_id", .str "op-1"), ("golive_operation_id", .str "")]),
        ("s3_key", .str "meta/singles/azure"), ("s3_bucket", .str "gardenlinux"),
        ("test_result", .none), ("logs", .none)])) :=
  (manifests_survive plainYaml_undoes fromData_documented ∅ "gardenlinux" "meta/singles/azure"
    false).manifest .hinted marketplaceRelease

end Store

end Glci
