import GardenLinux.Lib.Text
import GardenLinux.Glci.Flavours
import GardenLinux.Glci.ManifestFields

/-!
# Tags of container images

`_flavour_identifier` of `ci/glci/oci.py` joins the names of the modifiers of a flavour, without
their underscores, to the tag of an image; `publish_image` puts the architecture in front of them,
`publish_from_release_set` leaves it out to find the releases that differ in nothing else.

What is proved here:

* `flavourIdentifier_member` — a member of an enumeration cannot be joined;
* `tagsSeparate_never` — so there is no tag with the architecture for a release that was read from
  the bucket;
* `inClosure_of_flavourTag` — without the architecture, tags tell apart what names without dashes
  and underscores tell apart.
-/

namespace Glci

open GardenFeat PyData

/-! ## The identifier of a flavour -/

inductive TagError
  | modelError (e : ModelError)
  | typeError (text : String)
  deriving DecidableEq, Repr

/-- `type(v).__name__`. -/
def typeName : PyValue → String
  | .none => "NoneType"
  | .int _ => "int"
  | .str _ => "str"
  | .enum cls _ => cls
  | .list _ => "list"
  | .tuple _ => "tuple"
  | .dict _ => "dict"
  | .object cls _ => cls

/-- The items of a `str.join`, from the `i`-th on. -/
def joinItems : ℕ → List PyValue → Except TagError (List String)
  | _, [] => .ok []
  | i, .str s :: items =>
    match joinItems (i + 1) items with
    | .ok texts => .ok (s :: texts)
    | .error e => .error e
  | i, item :: _ => .error (.typeError
      ("sequence item " ++ toString i ++ ": expected str instance, " ++ typeName item ++ " found"))

/-- `ReleaseIdentifier.flavour`. -/
def ReleaseIdentifier.flavour (orders : SetOrders) (config : Config) (r : ReleaseIdentifier) :
    Except ModelError GardenlinuxFlavour := do
  let modifiers ← normalisedModifiers orders config.upper config.allFeatures r.platform r.modifiers
  (GardenlinuxFlavour.mk r.architecture r.platform modifiers).postInit config.allFeatures

/-- `GardenlinuxFlavour.calculate_modifiers`. -/
def GardenlinuxFlavour.calculateModifiers (orders : SetOrders) (config : Config)
    (flavour : GardenlinuxFlavour) : Except ModelError (List FeatureDescriptor) := do
  let names ← normalisedModifiers orders config.upper config.allFeatures flavour.platform
    flavour.modifiers
  featuresByName config.allFeatures names

/-- `name.strip('_')`. -/
def stripped (name : String) : String := String.ofList (Text.strip '_' name.toList)

/-- `_flavour_identifier`; the attribute `architecture` is a text in `upload_results_step`, and a
member of `Architecture` for a manifest that was read from the bucket. -/
def flavourIdentifier (orders : SetOrders) (config : Config) (architecture : PyValue)
    (flavour : GardenlinuxFlavour) (includeArch : Bool) : Except TagError String := do
  let modifiers ← (flavour.calculateModifiers orders config).mapError .modelError
  let features := (modifiers.filter (·.name ≠ "oci")).map fun f => PyValue.str (stripped f.name)
  let features := if includeArch then architecture :: features else features
  let texts ← joinItems 0 features
  pure ((String.singleton '-').intercalate texts)

/-- The member of `Architecture` that `dacite` makes of its value. -/
def Architecture.member (a : Architecture) : PyValue := .enum "Architecture" a.value

/-- The orders of the sets of `flavour` and of `calculate_modifiers`. -/
structure TagOrders where
  flavour : SetOrders
  modifiers : SetOrders

/-- `_flavour_identifier(release.flavour(), include_arch)`, for a release that was read. -/
def OnlineReleaseManifest.flavourTag (release : OnlineReleaseManifest) (orders : TagOrders)
    (config : Config) (includeArch : Bool) : Except TagError String := do
  let flavour ← (release.releaseIdentifier.flavour orders.flavour config).mapError .modelError
  flavourIdentifier orders.modifiers config release.architecture.member flavour includeArch

/-! ## The architecture -/

/-- A member of an enumeration cannot be joined. -/
theorem flavourIdentifier_member {orders : SetOrders} {config : Config} {cls value : String}
    {flavour : GardenlinuxFlavour} {found : List FeatureDescriptor}
    (h : flavour.calculateModifiers orders config = .ok found) :
    flavourIdentifier orders config (.enum cls value) flavour true =
      .error (.typeError ("sequence item 0: expected str instance, " ++ cls ++ " found")) := by
  rw [flavourIdentifier, h]
  rfl

/-- The architecture of a release that was read is such a member. -/
theorem flavourTag_ne_ok (release : OnlineReleaseManifest) (orders : TagOrders) (config : Config)
    (tag : String) : release.flavourTag orders config true ≠ .ok tag := by
  intro h
  cases hflavour : release.releaseIdentifier.flavour orders.flavour config with
  | error e =>
    rw [OnlineReleaseManifest.flavourTag, hflavour] at h
    exact nomatch h
  | ok flavour =>
    rw [OnlineReleaseManifest.flavourTag, hflavour] at h
    have hidentifier : flavourIdentifier orders.modifiers config release.architecture.member flavour
        true = .ok tag := h
    cases hfound : flavour.calculateModifiers orders.modifiers config with
    | error e =>
      rw [flavourIdentifier, hfound] at hidentifier
      exact nomatch hidentifier
    | ok found =>
      rw [Architecture.member, flavourIdentifier_member hfound] at hidentifier
      exact nomatch hidentifier

/-- There are tags with and without the architecture, the latter tell the modifiers of two
releases apart, and the former their architectures as well. -/
structure TagsSeparate (config : Config) (orders orders' : Bool → TagOrders)
    (release release' : OnlineReleaseManifest) : Prop where
  defined : ∀ includeArch, ∃ tag,
    release.flavourTag (orders includeArch) config includeArch = .ok tag
  defined' : ∀ includeArch, ∃ tag,
    release'.flavourTag (orders' includeArch) config includeArch = .ok tag
  modifiers : ∀ tag, release.flavourTag (orders false) config false = .ok tag →
    release'.flavourTag (orders' false) config false = .ok tag →
    ∀ v, InClosure config.allFeatures release.platform release.modifiers v ↔
      InClosure config.allFeatures release'.platform release'.modifiers v
  architecture : ∀ tag, release.flavourTag (orders true) config true = .ok tag →
    release'.flavourTag (orders' true) config true = .ok tag →
    release.architecture = release'.architecture

/-- No two releases have such tags. -/
theorem tagsSeparate_never (config : Config) (orders orders' : Bool → TagOrders)
    (release release' : OnlineReleaseManifest) :
    ¬ TagsSeparate config orders orders' release release' := by
  intro h
  obtain ⟨tag, htag⟩ := h.defined true
  exact flavourTag_ne_ok release (orders true) config tag htag

/-- A platform `oci` that includes an element. -/
def ociConfig : Config :=
  ⟨asciiUpper, FeatureSet.ofEntries [("oci", ⟨"platform", ["base"], []⟩), ("base", ⟨"element", [], []⟩)],
    "publisher", "offer", "plan", fun version => .ok version⟩

def ociRelease : OnlineReleaseManifest where
  buildCommittish := "5b1e9f2c"
  version := "576.1"
  gardenlinuxEpoch := 576
  architecture := .amd64
  platform := "oci"
  modifiers := []
  buildTimestamp := "2021-10-29T00:00:00"
  paths := []
  baseImage := none
  publishedImageMetadata := none
  s3Key := "meta/singles/oci-base-576.1-5b1e9f"
  s3Bucket := "gardenlinux"
  testResult := none
  logs := none

/-- What is joined for `publish_image` holds a member of `Architecture`. -/
theorem tagsSeparate_fails :
    ¬ ∀ (config : Config) (orders orders' : Bool → TagOrders) (release release' : OnlineReleaseManifest),
      release.platform = "oci" → release'.platform = "oci" → release.version = release'.version →
      TagsSeparate config orders orders' release release' := by
  intro h
  have hcase := h ociConfig (fun _ => ⟨.sorted, .sorted⟩) (fun _ => ⟨.sorted, .sorted⟩) ociRelease
    ociRelease rfl rfl rfl
  obtain ⟨tag, htag⟩ := hcase.defined true
  have herror : ociRelease.flavourTag ⟨.sorted, .sorted⟩ ociConfig true =
      .error (.typeError "sequence item 0: expected str instance, Architecture found") := by
    decide +kernel
  exact nomatch herror.symm.trans htag

/-! ## The modifiers -/

variable {config : Config}

theorem map_name_of_featuresByName {allFeatures : FeatureSet} {names : List String}
    {found : List FeatureDescriptor} (h : featuresByName allFeatures names = .ok found) :
    found.map (·.name) = names := by
  induction names generalizing found with
  | nil =>
    obtain rfl := Except.ok.inj h
    rfl
  | cons name names ih =>
    obtain ⟨ys, zs, hys, hzs, rfl⟩ := gather_cons_ok_iff.1 h
    cases hf : featureByName allFeatures name with
    | error e => simp [hf] at hys
    | ok f =>
      obtain ⟨-, rfl⟩ := featureByName_ok_iff.1 hf
      simp only [hf, Except.ok.injEq] at hys
      subst hys
      rw [List.singleton_append, List.map_cons, ih hzs]
      rfl

/-- The closure of a closure is the closure. -/
theorem inClosure_idem {allFeatures : FeatureSet} {platform : String} {modifiers l : List String}
    (h : ∀ v, v ∈ l ↔ InClosure allFeatures platform modifiers v) (v : String) :
    InClosure allFeatures platform l v ↔ InClosure allFeatures platform modifiers v := by
  constructor
  · rintro (hv | ⟨u, hu, huv⟩)
    · exact (h v).1 hv
    · rcases List.mem_cons.1 hu with rfl | hu
      · exact Or.inr ⟨u, List.mem_cons_self .., huv⟩
      · rcases (h u).1 hu with hu | ⟨w, hw, hwu⟩
        · exact Or.inr ⟨u, List.mem_cons_of_mem _ hu, huv⟩
        · exact Or.inr ⟨w, hw, hwu.trans huv⟩
  · intro hv
    exact Or.inl ((h v).2 hv)

theorem joinItems_str (i : ℕ) (names : List String) :
    joinItems i (names.map .str) = .ok names := by
  induction names generalizing i with
  | nil => rfl
  | cons name names ih => rw [List.map_cons, joinItems, ih]

theorem postInit_ok {allFeatures : FeatureSet} {flavour flavour' : GardenlinuxFlavour}
    (h : flavour.postInit allFeatures = .ok flavour') : flavour' = flavour := by
  unfold GardenlinuxFlavour.postInit at h
  split at h
  · exact nomatch h
  · split at h
    · exact nomatch h
    · exact (Except.ok.inj h).symm

/-- A tag without the architecture joins the names of the closure. -/
theorem of_flavourTag_ok {release : OnlineReleaseManifest} {orders : TagOrders} {tag : String}
    (h : release.flavourTag orders config false = .ok tag) :
    ∃ names : List String,
      (∀ v, v ∈ names ↔ v ≠ "oci" ∧ InClosure config.allFeatures release.platform release.modifiers v) ∧
      (∀ v ∈ names, v ∈ config.allFeatures) ∧
      tag = (String.singleton '-').intercalate (names.map stripped) := by
  simp only [OnlineReleaseManifest.flavourTag, ReleaseIdentifier.flavour, flavourIdentifier,
    GardenlinuxFlavour.calculateModifiers, bind_ok_iff, mapError_ok_iff] at h
  obtain ⟨flavour, ⟨l, hl, hpost⟩, found, ⟨l', hl', hfound⟩, texts, hjoin, htag⟩ := h
  obtain rfl := postInit_ok hpost
  obtain ⟨-, closure, hclosure, rfl⟩ := of_normalisedModifiers_ok hl
  obtain ⟨hres, closure', hclosure', rfl⟩ := of_normalisedModifiers_ok hl'
  have hexist := featuresByName_ok_iff.1 ⟨found, hfound⟩
  set listed := sortOn config.upper (orders.modifiers.names.list closure') with hlisted
  have hmem : ∀ v, v ∈ listed ↔ InClosure config.allFeatures release.platform release.modifiers v := by
    intro v
    rw [hlisted, mem_sortOn, orders.modifiers.names.mem_list, hclosure']
    refine inClosure_idem (fun u => ?_) v
    rw [mem_sortOn, orders.flavour.names.mem_list, hclosure]
  have hnames : (found.filter (·.name ≠ "oci")).map (·.name) = listed.filter (· ≠ "oci") := by
    rw [← map_name_of_featuresByName hfound, List.filter_map]
    rfl
  refine ⟨listed.filter (· ≠ "oci"), fun v => ?_, fun v hv => ?_, ?_⟩
  · rw [List.mem_filter, hmem, and_comm, decide_eq_true_iff]
  · exact hexist v (List.mem_filter.1 hv).1
  · have htexts : texts = (listed.filter (· ≠ "oci")).map stripped := by
      rw [if_neg Bool.false_ne_true] at hjoin
      have hstr : (found.filter (·.name ≠ "oci")).map (fun f => PyValue.str (stripped f.name)) =
          ((listed.filter (· ≠ "oci")).map stripped).map .str := by
        rw [← hnames, List.map_map, List.map_map]
        rfl
      rw [hstr, joinItems_str] at hjoin
      exact (Except.ok.inj hjoin).symm
    rw [← htexts]
    exact (Except.ok.inj htag).symm

/-- Names that can still be told apart, and from a join, when their underscores are gone. -/
structure NamesApart (allFeatures : FeatureSet) : Prop where
  separator : ∀ v ∈ allFeatures, '-' ∉ (stripped v).toList
  nonempty : ∀ v ∈ allFeatures, stripped v ≠ ""
  injective : ∀ u ∈ allFeatures, ∀ v ∈ allFeatures, stripped u = stripped v → u = v

/-- A join of texts that are not empty is empty for no texts only. -/
theorem eq_nil_of_intercalate {l : List String} (hne : ∀ s ∈ l, s ≠ "")
    (h : (String.singleton '-').intercalate l = "") : l = [] := by
  cases l with
  | nil => rfl
  | cons s l =>
    have hlen := length_intercalate (c := '-') (List.cons_ne_nil s l)
    rw [h, List.map_cons, List.sum_cons] at hlen
    have hpos : 0 < s.length := by
      rw [Nat.pos_iff_ne_zero, Ne, String.length_eq_zero_iff]
      exact hne s (List.mem_cons_self ..)
    simp only [String.length_empty] at hlen
    omega

theorem map_stripped_injective (hapart : NamesApart config.allFeatures) {names names' : List String}
    (hexist : ∀ v ∈ names, v ∈ config.allFeatures) (hexist' : ∀ v ∈ names', v ∈ config.allFeatures)
    (h : (String.singleton '-').intercalate (names.map stripped) =
      (String.singleton '-').intercalate (names'.map stripped)) : names = names' := by
  have hne : ∀ names : List String, (∀ v ∈ names, v ∈ config.allFeatures) →
      ∀ s ∈ names.map stripped, s ≠ "" := by
    intro names hexist s hs
    obtain ⟨v, hv, rfl⟩ := List.mem_map.1 hs
    exact hapart.nonempty v (hexist v hv)
  have hsep : ∀ names : List String, (∀ v ∈ names, v ∈ config.allFeatures) →
      ∀ s ∈ names.map stripped, '-' ∉ s.toList := by
    intro names hexist s hs
    obtain ⟨v, hv, rfl⟩ := List.mem_map.1 hs
    exact hapart.separator v (hexist v hv)
  have hmap : names.map stripped = names'.map stripped := by
    by_cases hnil : names.map stripped = []
    · rw [hnil] at h ⊢
      exact (eq_nil_of_intercalate (hne names' hexist') h.symm).symm
    · by_cases hnil' : names'.map stripped = []
      · rw [hnil'] at h
        exact absurd (eq_nil_of_intercalate (hne names hexist) h) hnil
      · exact intercalate_injective (hsep names hexist) (hsep names' hexist') hnil hnil' h
  clear h
  induction names generalizing names' with
  | nil => exact (List.map_eq_nil_iff.1 hmap.symm).symm
  | cons v names ih =>
    obtain ⟨v', rest, rfl, hv, hrest⟩ := List.map_eq_cons_iff.1 hmap.symm
    rw [List.forall_mem_cons] at hexist hexist'
    obtain rfl := hapart.injective v' hexist'.1 v hexist.1 hv
    rw [ih hexist.2 hexist'.2 hrest.symm]

/-- Without the architecture, tags of such names tell apart the modifiers other than `oci`. -/
theorem inClosure_of_flavourTag (hapart : NamesApart config.allFeatures)
    {release release' : OnlineReleaseManifest} {orders orders' : TagOrders} {tag : String}
    (h : release.flavourTag orders config false = .ok tag)
    (h' : release'.flavourTag orders' config false = .ok tag) {v : String} (hv : v ≠ "oci") :
    InClosure config.allFeatures release.platform release.modifiers v ↔
      InClosure config.allFeatures release'.platform release'.modifiers v := by
  obtain ⟨names, hmem, hexist, htag⟩ := of_flavourTag_ok h
  obtain ⟨names', hmem', hexist', htag'⟩ := of_flavourTag_ok h'
  obtain rfl := map_stripped_injective hapart hexist hexist' (htag.symm.trans htag')
  have hiff := (hmem v).symm.trans (hmem' v)
  simpa [hv] using hiff

end Glci
