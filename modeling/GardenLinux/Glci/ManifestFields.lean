import GardenLinux.Glci.Manifests

/-!
# The fields of a manifest are read back

Of the document that is written for a manifest each field is read by its hint, whatever the
form of the manifest was.

What is proved here:

* `ReleaseManifest.jsonSerialisable` — of a manifest, with the instances in it, the values of
  the members are left;
* `PublishedImage.reads` — the variant of a published image is found again;
* `ReleaseManifest.reads_back` and `OnlineReleaseManifest.reads_back` — the document of a
  manifest is read as the manifest, with the key and the bucket that it was read from, and
  so it is for manifest sets.
-/

namespace Glci

open PyData

/-! ## What is injected -/

/-- The items of a document with the key and the bucket that it was read from. -/
structure Injected (key bucketName : String) (parsed injected : Items) : Prop where
  key : injected.lookup "s3_key" = some (.str key)
  bucket : injected.lookup "s3_bucket" = some (.str bucketName)
  other : ∀ name, name ≠ "s3_key" → name ≠ "s3_bucket" →
    injected.lookup name = parsed.lookup name

theorem readManifest_dict (read : Reader) (key bucketName : String) {parsed : Items}
    (hbase : "base_image" ∈ parsed.map Prod.fst) :
    ∃ injected, Injected key bucketName parsed injected ∧
      readManifest read bucketName key (.dict parsed) =
        read manifestCasts OnlineReleaseManifest.hint (.dict injected) := by
  refine ⟨setItem (setItem parsed "s3_key" (.str key)) "s3_bucket" (.str bucketName), ⟨?_, ?_, ?_⟩,
    ?_⟩
  · simp [lookup_setItem]
  · simp [lookup_setItem]
  · intro name hkey hbucket
    simp [lookup_setItem, hkey, hbucket]
  · rw [readManifest, if_pos]
    rw [mem_names_setItem, mem_names_setItem]
    exact Or.inr (Or.inr hbase)

theorem readManifestSet_dict (read : Reader) (key bucketName : String) (parsed : Items) :
    ∃ injected, Injected key bucketName parsed injected ∧
      readManifestSet read bucketName key (.dict parsed) =
        read manifestCasts OnlineReleaseManifestSet.hint (.dict injected) := by
  refine ⟨setItem (setItem parsed "s3_bucket" (.str bucketName)) "s3_key" (.str key), ⟨?_, ?_, ?_⟩,
    rfl⟩
  · simp [lookup_setItem]
  · simp [lookup_setItem]
  · intro name hkey hbucket
    simp [lookup_setItem, hkey, hbucket]

/-! ## Members of enumerations are replaced -/

section JsonSerialisable

variable (form : Form)

@[simp] theorem jsonSerialisableAttr_str (s : String) :
    jsonSerialisableAttr (.str s) = .str s := by
  simp [jsonSerialisableAttr]

@[simp] theorem jsonSerialisableAttr_int (i : ℤ) : jsonSerialisableAttr (.int i) = .int i := by
  simp [jsonSerialisableAttr]

@[simp] theorem jsonSerialisableAttr_none : jsonSerialisableAttr .none = .none := by
  simp [jsonSerialisableAttr]

@[simp] theorem jsonSerialisableAttr_object (cls : String) (attrs : Items) :
    jsonSerialisableAttr (.object cls attrs) = .object cls (jsonSerialisableAttrs attrs) := by
  simp [jsonSerialisableAttr]

@[simp] theorem jsonSerialisableAttr_sequence (kind : SequenceKind) (items : List PyValue) :
    jsonSerialisableAttr (kind.of items) = kind.of items := by
  cases kind <;> simp [SequenceKind.of, jsonSerialisableAttr]

@[simp] theorem jsonSerialisableAttr_enum (kind : EnumKind) (cls value : String) :
    jsonSerialisableAttr (kind.of cls value) = EnumKind.value.of cls value := by
  cases kind <;> simp [EnumKind.of, jsonSerialisableAttr]

@[simp] theorem jsonSerialisableAttrs_nil : jsonSerialisableAttrs [] = [] := by
  simp [jsonSerialisableAttrs]

@[simp] theorem jsonSerialisableAttrs_cons (attr : String) (val : PyValue) (attrs : Items) :
    jsonSerialisableAttrs ((attr, val) :: attrs) =
      (attr, jsonSerialisableAttr val) :: jsonSerialisableAttrs attrs := by
  simp [jsonSerialisableAttrs]

theorem jsonSerialisableAttrs_append (attrs attrs' : Items) :
    jsonSerialisableAttrs (attrs ++ attrs') =
      jsonSerialisableAttrs attrs ++ jsonSerialisableAttrs attrs' := by
  induction attrs with
  | nil => simp
  | cons e attrs ih =>
    obtain ⟨attr, val⟩ := e
    rw [List.cons_append, jsonSerialisableAttrs_cons, jsonSerialisableAttrs_cons, ih,
      List.cons_append]

theorem jsonSerialisableAttr_ofOption {α : Type} {f g : α → PyValue}
    (h : ∀ x, jsonSerialisableAttr (f x) = g x) (o : Option α) :
    jsonSerialisableAttr (ofOption f o) = ofOption g o := by
  cases o with
  | none => simp [ofOption]
  | some x => exact h x

@[simp] theorem S3ReleaseFile.jsonSerialisable (f : S3ReleaseFile) :
    jsonSerialisableAttr f.object = f.object := by
  simp [S3ReleaseFile.object]

@[simp] theorem PublishedImage.jsonSerialisable (image : PublishedImage) :
    jsonSerialisableAttr (image.object form) = image.object form.serialised := by
  cases image <;> simp [PublishedImage.object, PublishedImage.attrs, PublishedImage.cls,
    Form.serialised]

@[simp] theorem ReleaseTestResult.jsonSerialisable (r : ReleaseTestResult) :
    jsonSerialisableAttr (r.object form) = r.object form.serialised := by
  simp [ReleaseTestResult.object, Form.serialised]

@[simp] theorem Logs.jsonSerialisable (logs : Logs) :
    jsonSerialisableAttr logs.object = logs.object := by
  cases logs <;> simp [Logs.object]

/-- Of a manifest, with the instances in it, the values of the members are left. -/
theorem ReleaseManifest.jsonSerialisable (m : ReleaseManifest) :
    jsonSerialisableAttrs (m.attrs form) = m.attrs form.serialised := by
  have hbase : jsonSerialisableAttr (ofOption .str m.baseImage) = ofOption .str m.baseImage :=
    jsonSerialisableAttr_ofOption jsonSerialisableAttr_str _
  have himage : jsonSerialisableAttr (ofOption (·.object form) m.publishedImageMetadata) =
      ofOption (·.object form.serialised) m.publishedImageMetadata :=
    jsonSerialisableAttr_ofOption (PublishedImage.jsonSerialisable form) _
  simp [ReleaseManifest.attrs, hbase, himage, Form.serialised]

theorem OnlineReleaseManifest.jsonSerialisable (m : OnlineReleaseManifest) :
    jsonSerialisableAttrs (m.attrs form) = m.attrs form.serialised := by
  have hresult : jsonSerialisableAttr (ofOption (·.object form) m.testResult) =
      ofOption (·.object form.serialised) m.testResult :=
    jsonSerialisableAttr_ofOption (ReleaseTestResult.jsonSerialisable form) _
  have hlogs : jsonSerialisableAttr (ofOption (·.object) m.logs) = ofOption (·.object) m.logs :=
    jsonSerialisableAttr_ofOption Logs.jsonSerialisable _
  rw [attrs, jsonSerialisableAttrs_append, ReleaseManifest.jsonSerialisable, attrs]
  simp [ownAttrs, hresult, hlogs]

end JsonSerialisable

/-! ## Each field is read back -/

section Reads

theorem forall₂_mapIdx {α β γ : Type} {R : β → γ → Prop} {f : ℕ → α → β} {g : ℕ → α → γ}
    (h : ∀ i x, R (f i x) (g i x)) (xs : List α) : List.Forall₂ R (xs.mapIdx f) (xs.mapIdx g) := by
  induction xs generalizing f g with
  | nil => exact .nil
  | cons x xs ih =>
    rw [List.mapIdx_cons, List.mapIdx_cons]
    exact .cons (h 0 x) (ih fun i x => h (i + 1) x)

theorem PublishedImage.nodup_fields (image : PublishedImage) :
    (image.fields.map Prod.fst).Nodup := by
  cases image <;> simp only [fields] <;> decide

theorem OnlineReleaseManifest.nodup_fields :
    (OnlineReleaseManifest.fields.map Prod.fst).Nodup := by decide

theorem OnlineReleaseManifestSet.nodup_fields :
    (OnlineReleaseManifestSet.fields.map Prod.fst).Nodup := by decide

theorem OnlineReleaseManifest.absent_ownFields :
    ∀ f ∈ OnlineReleaseManifest.ownFields, absentValue f = some .none := by
  simp [OnlineReleaseManifest.ownFields, absentValue, Hint.admitsNone, Hint.isNone]

theorem OnlineReleaseManifestSet.absent_ownFields :
    ∀ f ∈ OnlineReleaseManifestSet.ownFields, absentValue f = some .none := by
  simp [OnlineReleaseManifestSet.ownFields, absentValue]

variable {read : Reader} (hread : Documented read)

include hread

theorem SequenceKind.reads (kind : SequenceKind) {item : Hint} {vs ws : List PyValue}
    (h : List.Forall₂ (Reads read manifestCasts item) vs ws) :
    Reads read manifestCasts (.tuple item) (kind.of vs) (.tuple ws) := by
  have hcast : Cast.tuple ∈ manifestCasts := by decide
  cases kind with
  | tuple => exact .tuple hread hcast h
  | list => exact .list hread hcast h

theorem SequenceKind.reads_map (kind : SequenceKind) {α : Type} {item : Hint} {f g : α → PyValue}
    (h : ∀ x, Reads read manifestCasts item (f x) (g x)) (xs : List α) :
    Reads read manifestCasts (.tuple item) (kind.of (xs.map f)) (.tuple (xs.map g)) := by
  refine kind.reads hread ?_
  rw [List.forall₂_map_left_iff, List.forall₂_map_right_iff, List.forall₂_same]
  exact fun x _ => h x

theorem reads_optional {α : Type} {hint : Hint} {f g : α → PyValue}
    (h : ∀ x, Reads read manifestCasts hint (f x) (g x)) (o : Option α) :
    Reads read manifestCasts (.optional hint) (ofOption f o) (ofOption g o) := by
  cases o with
  | none => exact .union_none hread (by simp [Hint.admitsNone, Hint.isNone])
  | some x => exact .union_head hread (h x)

theorem S3ReleaseFile.reads (f : S3ReleaseFile) :
    Reads read manifestCasts S3ReleaseFile.hint f.object f.object :=
  .dataclass hread (by decide)
    (.str hread <| .str hread <| .str hread <| .str hread .nil) _ _

theorem AwsPublishedImage.reads (i : AwsPublishedImage) :
    Reads read manifestCasts AwsPublishedImage.hint i.object i.object :=
  .dataclass hread (by decide) (.str hread <| .str hread <| .str hread .nil) _ _

theorem AlicloudPublishedImage.reads (i : AlicloudPublishedImage) :
    Reads read manifestCasts AlicloudPublishedImage.hint i.object i.object :=
  .dataclass hread (by decide) (.str hread <| .str hread <| .str hread .nil) _ _

theorem OpenstackPublishedImage.reads (i : OpenstackPublishedImage) :
    Reads read manifestCasts OpenstackPublishedImage.hint i.object i.object :=
  .dataclass hread (by decide) (.str hread <| .str hread <| .str hread .nil) _ _

theorem Architecture.reads (a : Architecture) :
    Reads read manifestCasts Architecture.hint (.str a.value) (.enum "Architecture" a.value) :=
  .enum hread (by decide) (by cases a; decide)

theorem AzureTransportState.reads (s : AzureTransportState) :
    Reads read manifestCasts AzureTransportState.hint (.str s.value)
      (.enum "AzureTransportState" s.value) :=
  .enum hread (by decide) (by cases s <;> decide)

theorem TestResultCode.reads (c : TestResultCode) :
    Reads read manifestCasts TestResultCode.hint (.str c.value)
      (.enum "TestResultCode" c.value) :=
  .enum hread (by decide) (by cases c <;> decide)

variable (form : Form)

namespace PublishedImage

theorem readsAttrs (image : PublishedImage) :
    ReadsAttrs read manifestCasts image.fields (image.attrs form.serialised)
      (image.attrs .hinted) := by
  cases image with
  | alicloud images =>
    exact .cons (form.images.reads_map hread (AlicloudPublishedImage.reads hread) images) .nil
  | aws images =>
    exact .cons (form.images.reads_map hread (AwsPublishedImage.reads hread) images) .nil
  | azure transportState =>
    exact .cons (transportState.reads hread) <| .str hread <| .str hread <| .str hread .nil
  | gcp => exact .str hread <| .str hread .nil
  | oci => exact .str hread .nil
  | openstack images =>
    exact .cons (form.images.reads_map hread (OpenstackPublishedImage.reads hread) images) .nil

/-- The type of a variant whose first attribute an image does not have is passed over. -/
theorem rejects (image : PublishedImage) (cls : String) (field : DataField) (later : List DataField)
    (hfield : field.1 ∉ image.fields.map Prod.fst) (habsent : absentValue field = none) :
    Rejects read manifestCasts (.dataclass cls (field :: later)) (image.object form.serialised) :=
  .missing hread (image.readsAttrs hread form) image.nodup_fields hfield habsent _ _ _

theorem reads_own (image : PublishedImage) :
    Reads read manifestCasts (.dataclass image.cls image.fields) (image.object form.serialised)
      (image.object .hinted) :=
  .dataclass hread image.nodup_fields (image.readsAttrs hread form) _ _

/-- The variant of a published image is found again. -/
theorem reads (image : PublishedImage) :
    Reads read manifestCasts hint (image.object form.serialised) (image.object .hinted) := by
  have hown := image.reads_own hread form
  have hreject := image.rejects hread form
  cases image with
  | alicloud images => exact .union_head hread hown
  | aws images =>
    refine .union_tail hread rfl (hreject _ _ _ ?_ rfl) <| .union_head hread hown
    simp [fields, awsFields]
  | azure =>
    refine .union_tail hread rfl (hreject _ _ _ ?_ rfl) <|
      .union_tail hread rfl (hreject _ _ _ ?_ rfl) <| .union_head hread hown
    all_goals simp [fields, azureFields]
  | gcp =>
    refine .union_tail hread rfl (hreject _ _ _ ?_ rfl) <|
      .union_tail hread rfl (hreject _ _ _ ?_ rfl) <|
      .union_tail hread rfl (hreject _ _ _ ?_ rfl) <| .union_head hread hown
    all_goals simp [fields, gcpFields]
  | oci =>
    refine .union_tail hread rfl (hreject _ _ _ ?_ rfl) <|
      .union_tail hread rfl (hreject _ _ _ ?_ rfl) <|
      .union_tail hread rfl (hreject _ _ _ ?_ rfl) <|
      .union_tail hread rfl (hreject _ _ _ ?_ rfl) <| .union_head hread hown
    all_goals simp [fields, ociFields]
  | openstack =>
    refine .union_tail hread rfl (hreject _ _ _ ?_ rfl) <|
      .union_tail hread rfl (hreject _ _ _ ?_ rfl) <|
      .union_tail hread rfl (hreject _ _ _ ?_ rfl) <|
      .union_tail hread rfl (hreject _ _ _ ?_ rfl) <|
      .union_tail hread rfl (hreject _ _ _ ?_ rfl) <| .union_head hread hown
    all_goals simp [fields, openstackFields]

end PublishedImage

theorem PublishedImage.reads_option (image : Option PublishedImage) :
    Reads read manifestCasts PublishedImage.hint (ofOption (·.object form.serialised) image)
      (ofOption (·.object .hinted) image) := by
  cases image with
  | none => exact .union_none hread (by simp [Hint.admitsNone, Hint.isNone])
  | some image => exact image.reads hread form

theorem ReleaseTestResult.reads (r : ReleaseTestResult) :
    Reads read manifestCasts ReleaseTestResult.hint (r.object form.serialised)
      (r.object .hinted) :=
  .dataclass hread (by decide)
    (.str hread <| .cons (r.testResult.reads hread) <| .str hread .nil) _ _

/-- The logs are a file or, in old manifests, a text. -/
theorem Logs.reads (logs : Option Logs) :
    Reads read manifestCasts (.union [S3ReleaseFile.hint, .str, .none])
      (ofOption (·.object) logs) (ofOption (·.object) logs) := by
  cases logs with
  | none => exact .union_none hread (by simp [Hint.admitsNone, Hint.isNone])
  | some logs =>
    cases logs with
    | file log => exact .union_head hread (log.reads hread)
    | text log =>
      refine .union_tail hread rfl ?_ (.union_head hread (.str hread log))
      exact .not_dict hread (plain_str log) (by simp)

theorem ReleaseManifest.readsAttrs (m : ReleaseManifest) :
    ReadsAttrs read manifestCasts ReleaseManifest.fields (m.attrs form.serialised)
      (m.attrs .hinted) :=
  .str hread <| .str hread <| .cons (.int hread _) <| .cons (m.architecture.reads hread) <|
  .str hread <| .cons (form.modifiers.reads_map hread (.str hread) m.modifiers) <| .str hread <|
  .cons (form.paths.reads_map hread (S3ReleaseFile.reads hread) m.paths) <|
  .cons (reads_optional hread (.str hread) m.baseImage) <|
  .cons (PublishedImage.reads_option hread form m.publishedImageMetadata) .nil

namespace OnlineReleaseManifest

theorem readsAttrs_own (m : OnlineReleaseManifest) :
    ReadsAttrs read manifestCasts ownFields (m.ownAttrs form.serialised) (m.ownAttrs .hinted) :=
  .cons (reads_optional hread (ReleaseTestResult.reads hread form) m.testResult) <|
  .cons (Logs.reads hread m.logs) .nil

theorem readsAttrs (m : OnlineReleaseManifest) :
    ReadsAttrs read manifestCasts fields (m.attrs form.serialised) (m.attrs .hinted) :=
  (m.toReleaseManifest.readsAttrs hread form).append <|
    .str hread <| .str hread <| m.readsAttrs_own hread form

/-- A manifest that stands in a set. -/
theorem reads (m : OnlineReleaseManifest) :
    Reads read manifestCasts hint (m.object form.serialised) (m.object .hinted) :=
  .dataclass hread nodup_fields (m.readsAttrs hread form) _ _

end OnlineReleaseManifest

theorem ReleaseManifestSet.readsAttrs (form : SetForm) (s : ReleaseManifestSet) :
    ReadsAttrs read manifestCasts ReleaseManifestSet.fields (s.attrs form.serialised)
      (s.attrs .hinted) :=
  .cons (SequenceKind.list.reads hread <| forall₂_mapIdx
    (fun i m => OnlineReleaseManifest.reads hread (form.manifest i) m) s.manifests) <|
  .str hread .nil

namespace OnlineReleaseManifestSet

theorem readsAttrs (form : SetForm) (s : OnlineReleaseManifestSet) :
    ReadsAttrs read manifestCasts fields (s.attrs form.serialised) (s.attrs .hinted) :=
  (s.toReleaseManifestSet.readsAttrs hread form).append <| .str hread <| .str hread <|
    .cons (reads_optional hread (form.logs.reads_map hread (S3ReleaseFile.reads hread)) s.logs) .nil

end OnlineReleaseManifestSet

/-! ## Whole documents are read back -/

section Injected

variable {key bucketName : String} {parsed injected : Items} {base own : List DataField}
  {attrs attrs' : Items}

/-- Without the own fields in the document, these are `None`. -/
theorem Injected.gives_base (h : Injected key bucketName parsed injected)
    (hparsed : List.Forall₂ (Gives (read manifestCasts) parsed) base attrs)
    (hnames : ∀ name, name ∈ parsed.map Prod.fst ↔ name ∈ base.map Prod.fst)
    (hnodup : ((storedFields base own).map Prod.fst).Nodup)
    (hown : ∀ f ∈ own, absentValue f = some .none) :
    List.Forall₂ (Gives (read manifestCasts) injected) (storedFields base own)
      (attrs ++ ("s3_key", .str key) :: ("s3_bucket", .str bucketName) ::
        own.map fun f => (f.1, .none)) := by
  rw [storedFields, List.map_append, List.nodup_append] at hnodup
  obtain ⟨-, hnodup, hdisjoint⟩ := hnodup
  simp only [List.map_cons, List.nodup_cons, List.mem_cons, not_or] at hnodup hdisjoint
  have hbase : List.Forall₂ (Gives (read manifestCasts) injected) base attrs := by
    refine gives_congr hparsed fun f hf => h.other f.1 ?_ ?_
    · exact hdisjoint f.1 (List.mem_map_of_mem hf) "s3_key" (Or.inl rfl)
    · exact hdisjoint f.1 (List.mem_map_of_mem hf) "s3_bucket" (Or.inr (Or.inl rfl))
  have habsent : ∀ f ∈ own, injected.lookup f.1 = none := by
    intro f hf
    have hname : f.1 ∈ own.map Prod.fst := List.mem_map_of_mem hf
    have hkey : f.1 ≠ "s3_key" := fun heq => hnodup.1.2 (heq ▸ hname)
    have hbucket : f.1 ≠ "s3_bucket" := fun heq => hnodup.2.1 (heq ▸ hname)
    rw [h.other f.1 hkey hbucket, List.lookup_eq_none_iff]
    intro e he
    have he : e.1 ∈ base.map Prod.fst := (hnames e.1).1 (List.mem_map_of_mem he)
    exact bne_iff_ne.2 (hdisjoint e.1 he f.1 (Or.inr (Or.inr hname))).symm
  refine List.rel_append hbase <| .cons (gives_of_lookup h.key (hread.str _ key)) <|
    .cons (gives_of_lookup h.bucket (hread.str _ bucketName)) ?_
  rw [List.forall₂_map_right_iff, List.forall₂_same]
  exact fun f hf => gives_absent (habsent f hf) (hown f hf)

/-- Otherwise the key and the bucket are replaced. -/
theorem Injected.gives_stored (h : Injected key bucketName parsed injected)
    (hparsed : List.Forall₂ (Gives (read manifestCasts) parsed) (storedFields base own) attrs)
    (hnodup : ((storedFields base own).map Prod.fst).Nodup) :
    List.Forall₂ (Gives (read manifestCasts) injected) (storedFields base own)
      (setItem (setItem attrs "s3_key" (.str key)) "s3_bucket" (.str bucketName)) := by
  have hkey : ("s3_key", .str, none) ∈ storedFields base own := by simp [storedFields]
  have hbucket : ("s3_bucket", .str, none) ∈ storedFields base own := by simp [storedFields]
  have hset := gives_setItem (gives_setItem hparsed hnodup hkey (hread.str _ key)) hnodup hbucket
    (hread.str _ bucketName)
  refine gives_congr hset fun f _ => ?_
  rw [lookup_setItem, lookup_setItem]
  split_ifs with hb hk
  · rw [hb, h.bucket]
  · rw [hk, h.key]
  · exact h.other _ hk hb

end Injected

/-- The document of a manifest that was never online. -/
theorem ReleaseManifest.reads_back (m : ReleaseManifest) (cls : String) :
    ∃ d, plain (.object cls (m.attrs form.serialised)) = some d ∧ ∀ bucketName key,
      readManifest read bucketName key d =
        .ok (OnlineReleaseManifest.object .hinted
          { m.document with s3Key := key, s3Bucket := bucketName }) := by
  obtain ⟨parsed, hparsed, hnames, hgives⟩ := (m.readsAttrs hread form).document (by decide) cls
  refine ⟨.dict parsed, hparsed, fun bucketName key => ?_⟩
  obtain ⟨injected, hinjected, hreads⟩ :=
    readManifest_dict read key bucketName ((hnames "base_image").2 (by decide))
  refine hreads.trans (hread.dataclass _ _ _ _ _ ?_)
  exact hinjected.gives_base hread hgives hnames OnlineReleaseManifest.nodup_fields
    OnlineReleaseManifest.absent_ownFields

/-- The document of a manifest that was online. -/
theorem OnlineReleaseManifest.reads_back (m : OnlineReleaseManifest) (cls : String) :
    ∃ d, plain (.object cls (m.attrs form.serialised)) = some d ∧ ∀ bucketName key,
      readManifest read bucketName key d =
        .ok (OnlineReleaseManifest.object .hinted
          { m with s3Key := key, s3Bucket := bucketName }) := by
  obtain ⟨parsed, hparsed, hnames, hgives⟩ := (m.readsAttrs hread form).document nodup_fields cls
  refine ⟨.dict parsed, hparsed, fun bucketName key => ?_⟩
  obtain ⟨injected, hinjected, hreads⟩ :=
    readManifest_dict read key bucketName ((hnames "base_image").2 (by decide))
  refine hreads.trans (hread.dataclass _ _ _ _ _ ?_)
  exact hinjected.gives_stored hread hgives nodup_fields

theorem ReleaseManifestSet.reads_back (form : SetForm) (s : ReleaseManifestSet)
    (cls : String) :
    ∃ d, plain (.object cls (s.attrs form.serialised)) = some d ∧ ∀ bucketName key,
      readManifestSet read bucketName key d =
        .ok (OnlineReleaseManifestSet.object .hinted
          { s.document with s3Key := key, s3Bucket := bucketName }) := by
  obtain ⟨parsed, hparsed, hnames, hgives⟩ := (s.readsAttrs hread form).document (by decide) cls
  refine ⟨.dict parsed, hparsed, fun bucketName key => ?_⟩
  obtain ⟨injected, hinjected, hreads⟩ := readManifestSet_dict read key bucketName parsed
  refine hreads.trans (hread.dataclass _ _ _ _ _ ?_)
  exact hinjected.gives_base hread hgives hnames OnlineReleaseManifestSet.nodup_fields
    OnlineReleaseManifestSet.absent_ownFields

theorem OnlineReleaseManifestSet.reads_back (form : SetForm) (s : OnlineReleaseManifestSet)
    (cls : String) :
    ∃ d, plain (.object cls (s.attrs form.serialised)) = some d ∧ ∀ bucketName key,
      readManifestSet read bucketName key d =
        .ok (OnlineReleaseManifestSet.object .hinted
          { s with s3Key := key, s3Bucket := bucketName }) := by
  obtain ⟨parsed, hparsed, hnames, hgives⟩ := (s.readsAttrs hread form).document nodup_fields cls
  refine ⟨.dict parsed, hparsed, fun bucketName key => ?_⟩
  obtain ⟨injected, hinjected, hreads⟩ := readManifestSet_dict read key bucketName parsed
  refine hreads.trans (hread.dataclass _ _ _ _ _ ?_)
  exact hinjected.gives_stored hread hgives nodup_fields

end Reads

end Glci
