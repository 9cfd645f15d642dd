import GardenLinux.Glci.Agreement
import GardenLinux.Glci.Bucket

/-!
# The manifest key

The key of a release manifest is made of the canonical features, the version and six
characters of the commit; two releases are taken to be the same when their normalised
identifiers are.

What is proved here:

* `suffix_ok_iff` — when there is a key and what it is;
* `flavour_of_suffix_eq` — for names without the separator, releases of one version and commit
  that share a key suffix have the same platform and the same maximal modifiers;
* `suffix_injective_iff` — exactly when they have the same normalised modifiers as well,
  whatever the orders of the sets;
* `keyDetermined_iff` and `keyShared_iff` — exactly when the key of a release, and what is found
  under it, is determined by the normalised identifier, and when two identifiers share both.
-/

namespace Glci

open Relation GardenFeat

variable {allFeatures : FeatureSet} {upper : String → String}

/-! ## What the key is made of -/

/-- `-<version>-<commit[:6]>`. -/
def ReleaseIdentifier.keyTail (r : ReleaseIdentifier) : String :=
  "-" ++ r.version ++ "-" ++ String.ofList (r.buildCommittish.toList.take 6)

/-- The names of the canonical features, in an order of sets. -/
def flavourNames (orders : SetOrders) (upper : String → String) (allFeatures : FeatureSet)
    (platform : String) (maximal : Finset String) : List String :=
  platform :: (sortOn (fun m => upper m.name)
    (orders.descriptors.list (maximal.image (describe allFeatures)))).map (·.name)

theorem mem_flavourNames {orders : SetOrders} {platform v : String} {maximal : Finset String} :
    v ∈ flavourNames orders upper allFeatures platform maximal ↔ v = platform ∨ v ∈ maximal := by
  rw [flavourNames, List.mem_cons, mem_names_sortOn]

theorem suffix_ok_iff (hac : allFeatures.Acyclic) {orders : SetOrders} {r : ReleaseIdentifier}
    {suffix : String} :
    r.canonicalReleaseManifestKeySuffix orders upper allFeatures = .ok suffix ↔
      r.platform ∈ allFeatures ∧ Resolves allFeatures r.modifiers ∧
        ∃ maximal : Finset String,
          (∀ v, v ∈ maximal ↔ IsMaximal allFeatures r.modifiers v) ∧
          suffix = (String.singleton '-').intercalate
            (flavourNames orders upper allFeatures r.platform maximal) ++ r.keyTail := by
  simp only [ReleaseIdentifier.canonicalReleaseManifestKeySuffix, bind_ok_iff,
    canonicalisedFeatures_ok_iff hac]
  constructor
  · rintro ⟨_, ⟨hp, hres, maximal, hmax, rfl⟩, hsuffix⟩
    exact ⟨hp, hres, maximal, hmax, (Except.ok.inj hsuffix).symm⟩
  · rintro ⟨hp, hres, maximal, hmax, rfl⟩
    exact ⟨_, ⟨hp, hres, maximal, hmax, rfl⟩, rfl⟩

theorem string_append_left_cancel {a b t : String} (h : a ++ t = b ++ t) : a = b := by
  have hlist := congrArg String.toList h
  rw [String.toList_append, String.toList_append, List.append_left_inj] at hlist
  exact String.toList_injective hlist

/-! ## The closure and the maximal modifiers -/

theorem inClosure_iff {platform : String} {modifiers : List String} {v : String} :
    InClosure allFeatures platform modifiers v ↔
      (allFeatures.inclusion ∅).ReachedFrom modifiers v ∨ Implies allFeatures platform v := by
  rw [InClosure, reachedFrom_iff]
  constructor
  · rintro (hv | ⟨u, hu, huv⟩)
    · exact Or.inl (Or.inl hv)
    · rcases List.mem_cons.1 hu with rfl | hu
      · exact Or.inr huv
      · exact Or.inl (Or.inr ⟨u, hu, huv⟩)
  · rintro ((hv | ⟨u, hu, huv⟩) | hpv)
    · exact Or.inl hv
    · exact Or.inr ⟨u, List.mem_cons_of_mem _ hu, huv⟩
    · exact Or.inr ⟨platform, List.mem_cons_self .., hpv⟩

/-- Modifiers with the same maximal ones have the same closure. -/
theorem reachedFrom_congr_maximal (hac : allFeatures.Acyclic) {modifiers modifiers' : List String}
    (h : ∀ v, IsMaximal allFeatures modifiers v ↔ IsMaximal allFeatures modifiers' v) (v : String) :
    (allFeatures.inclusion ∅).ReachedFrom modifiers v ↔
      (allFeatures.inclusion ∅).ReachedFrom modifiers' v := by
  obtain ⟨maximal, hmax⟩ := exists_maximal allFeatures modifiers
  have hgen : ∀ v, v ∈ maximal.toList ↔ (allFeatures.inclusion ∅).IsGenerator modifiers v :=
    fun v => by rw [Finset.mem_toList, hmax, isGenerator_iff hac]
  have hgen' : ∀ v, v ∈ maximal.toList ↔ (allFeatures.inclusion ∅).IsGenerator modifiers' v :=
    fun v => by rw [Finset.mem_toList, hmax, h, isGenerator_iff hac]
  rw [← Guarded.reachedFrom_generators (hac.inclusion ∅) hgen,
    ← Guarded.reachedFrom_generators (hac.inclusion ∅) hgen']

/-- Modifiers with the same closure have the same maximal ones. -/
theorem isMaximal_congr_reachedFrom (hac : allFeatures.Acyclic)
    {modifiers modifiers' : List String}
    (h : ∀ v, (allFeatures.inclusion ∅).ReachedFrom modifiers v ↔
      (allFeatures.inclusion ∅).ReachedFrom modifiers' v) (v : String) :
    IsMaximal allFeatures modifiers v ↔ IsMaximal allFeatures modifiers' v := by
  rw [← isGenerator_iff hac, ← isGenerator_iff hac,
    Guarded.isGenerator_congr (hac.inclusion ∅) h]

theorem exists_closure {platform : String} {modifiers : List String}
    (hres : Resolves allFeatures (platform :: modifiers)) :
    ∃ names : Finset String, ∀ v, v ∈ names ↔ InClosure allFeatures platform modifiers v := by
  classical
  refine ⟨allFeatures.keys.toFinset.filter (InClosure allFeatures platform modifiers),
    fun v => ?_⟩
  rw [Finset.mem_filter, List.mem_toFinset, ← AList.mem_keys]
  refine ⟨And.right, fun hv => ⟨?_, hv⟩⟩
  rcases hv with hv | ⟨u, hu, huv⟩
  · exact (hres v (List.mem_cons_of_mem _ hv)).1
  · exact (hres u hu).2 v huv

/-! ## Flavours do not share a key -/

/-- For modifiers that resolve, an error of `normalised_modifiers` is that of the
platform. -/
theorem normalisedModifiers_error (hac : allFeatures.Acyclic) {orders : SetOrders}
    {platform : String} {modifiers : List String} {e : ModelError}
    (hplatform : platform ∈ allFeatures) (hres : Resolves allFeatures modifiers)
    (he : includedFeatures allFeatures (describe allFeatures platform) = .error e) :
    normalisedModifiers orders upper allFeatures platform modifiers = .error e := by
  obtain ⟨found, hfound⟩ := featuresByName_ok_iff.2 fun u hu => (hres u hu).1
  have hlisted : ∀ d, d ∈ orders.descriptors.list found.toFinset ↔
      ∃ u ∈ modifiers, d = describe allFeatures u := fun d => by
    rw [orders.descriptors.mem_list, List.mem_toFinset, mem_featuresByName hfound]
  obtain ⟨included, hincluded⟩ := gather_includedFeatures_ok hac hlisted
    fun u hu => (hres u hu).2
  unfold normalisedModifiers
  simp only [featureByName_ok_iff.2 ⟨hplatform, rfl⟩, hfound, hincluded, he, bind, Except.bind]

/-- Upper-casing tells the names of the closure apart. -/
def ToldApart (upper : String → String) (allFeatures : FeatureSet) (platform : String)
    (modifiers : List String) : Prop :=
  ∀ u v, InClosure allFeatures platform modifiers u → InClosure allFeatures platform modifiers v →
    upper u = upper v → u = v

/-- Modifiers with the same closure have the same normalised form in all orders of the sets, if
the names of the closure are told apart or the platform does not resolve. -/
theorem normalisedModifiers_congr (hac : allFeatures.Acyclic) {platform : String}
    {modifiers modifiers' : List String} (hplatform : platform ∈ allFeatures)
    (hres : Resolves allFeatures modifiers) (hres' : Resolves allFeatures modifiers')
    (h : ∀ v, InClosure allFeatures platform modifiers v ↔
      InClosure allFeatures platform modifiers' v)
    (htold : Resolves allFeatures (platform :: modifiers) →
      ToldApart upper allFeatures platform modifiers) (orders orders' : SetOrders) :
    normalisedModifiers orders upper allFeatures platform modifiers =
      normalisedModifiers orders' upper allFeatures platform modifiers' := by
  cases hP : includedFeatures allFeatures (describe allFeatures platform) with
  | error e =>
    rw [normalisedModifiers_error hac hplatform hres hP,
      normalisedModifiers_error hac hplatform hres' hP]
  | ok included =>
    have hresP : ∀ v, Implies allFeatures platform v → v ∈ allFeatures :=
      (of_includedFeaturesWithin_ok hP).1
    have hall : Resolves allFeatures (platform :: modifiers) :=
      List.forall_mem_cons.2 ⟨⟨hplatform, hresP⟩, hres⟩
    have hall' : Resolves allFeatures (platform :: modifiers') :=
      List.forall_mem_cons.2 ⟨⟨hplatform, hresP⟩, hres'⟩
    obtain ⟨names, hnames⟩ := exists_closure hall
    have hsorted : sortOn upper (orders.names.list names) =
        sortOn upper (orders'.names.list names) := by
      refine sortOn_congr (orders.names.perm orders'.names _) fun u hu v hv => ?_
      rw [orders.names.mem_list, hnames] at hu hv
      exact htold hall u v hu hv
    rw [(normalisedModifiers_ok_iff hac).2 ⟨hall, names, hnames, rfl⟩, hsorted,
      (normalisedModifiers_ok_iff hac).2 ⟨hall', names, fun v => (hnames v).trans (h v), rfl⟩]

/-- Two names of the closure that are the same in upper case have no order of their own. -/
theorem toldApart_of_normalisedModifiers (hac : allFeatures.Acyclic) {platform : String}
    {modifiers : List String} (hres : Resolves allFeatures (platform :: modifiers))
    (h : ∀ orders orders' : SetOrders,
      normalisedModifiers orders upper allFeatures platform modifiers =
        normalisedModifiers orders' upper allFeatures platform modifiers) :
    ToldApart upper allFeatures platform modifiers := by
  intro u v hu hv huv
  obtain ⟨names, hnames⟩ := exists_closure hres
  by_contra hne
  obtain ⟨e, e', hsorted⟩ := Enumeration.exists_sortOn_ne ((hnames u).2 hu) ((hnames v).2 hv) hne huv
  have hnorm : ∀ o : SetOrders, normalisedModifiers o upper allFeatures platform modifiers =
      .ok (sortOn upper (o.names.list names)) := fun o =>
    (normalisedModifiers_ok_iff hac).2 ⟨hres, names, hnames, rfl⟩
  have heq := h ⟨e, SetOrders.sorted.descriptors⟩ ⟨e', SetOrders.sorted.descriptors⟩
  rw [hnorm, hnorm] at heq
  exact hsorted (Except.ok.inj heq)

section Suffix

variable {r r' : ReleaseIdentifier}

theorem keyTail_congr (hversion : r.version = r'.version)
    (hcommittish : r.buildCommittish = r'.buildCommittish) : r.keyTail = r'.keyTail := by
  rw [ReleaseIdentifier.keyTail, ReleaseIdentifier.keyTail, hversion, hcommittish]

/-- For names without the separator: two releases of one version and commit that share a key
suffix have the same platform and the same maximal modifiers. -/
theorem flavour_of_suffix_eq (hac : allFeatures.Acyclic)
    (hdash : ∀ name ∈ allFeatures, '-' ∉ name.toList) {orders orders' : SetOrders}
    (hversion : r.version = r'.version)
    (hcommittish : r.buildCommittish = r'.buildCommittish) {suffix : String}
    (h : r.canonicalReleaseManifestKeySuffix orders upper allFeatures = .ok suffix)
    (h' : r'.canonicalReleaseManifestKeySuffix orders' upper allFeatures = .ok suffix) :
    r.platform = r'.platform ∧
      ∀ v, IsMaximal allFeatures r.modifiers v ↔ IsMaximal allFeatures r'.modifiers v := by
  obtain ⟨hp, hres, maximal, hmax, hsuffix⟩ := (suffix_ok_iff hac).1 h
  obtain ⟨hp', hres', maximal', hmax', hsuffix'⟩ := (suffix_ok_iff hac).1 h'
  have hnames : ∀ (o : SetOrders) (platform : String) (maximal : Finset String)
      (modifiers : List String), platform ∈ allFeatures → Resolves allFeatures modifiers →
      (∀ v, v ∈ maximal ↔ IsMaximal allFeatures modifiers v) →
      ∀ v ∈ flavourNames o upper allFeatures platform maximal, '-' ∉ v.toList := by
    intro o platform maximal modifiers hp hres hmax v hv
    rcases mem_flavourNames.1 hv with rfl | hv
    · exact hdash v hp
    · exact hdash v (hres v ((hmax v).1 hv).1).1
  have hjoin : flavourNames orders upper allFeatures r.platform maximal =
      flavourNames orders' upper allFeatures r'.platform maximal' := by
    refine intercalate_injective (hnames _ _ _ _ hp hres hmax) (hnames _ _ _ _ hp' hres' hmax')
      (List.cons_ne_nil _ _) (List.cons_ne_nil _ _) ?_
    rw [keyTail_congr hversion hcommittish] at hsuffix
    exact string_append_left_cancel (hsuffix.symm.trans hsuffix')
  obtain ⟨hplatform, hsorted⟩ := List.cons.inj hjoin
  refine ⟨hplatform, fun v => ?_⟩
  rw [← hmax, ← hmax', ← mem_names_sortOn, hsorted, mem_names_sortOn]

/-- Releases that share a key suffix have the same platform and the same normalised modifiers,
whatever the orders of the sets in each of the calls. -/
def SuffixInjective (upper : String → String) (allFeatures : FeatureSet)
    (r r' : ReleaseIdentifier) : Prop :=
  ∀ (orders orders' : SetOrders) (suffix : String),
    r.canonicalReleaseManifestKeySuffix orders upper allFeatures = .ok suffix →
    r'.canonicalReleaseManifestKeySuffix orders' upper allFeatures = .ok suffix →
    r.platform = r'.platform ∧ ∀ o o',
      normalisedModifiers o upper allFeatures r.platform r.modifiers =
        normalisedModifiers o' upper allFeatures r'.platform r'.modifiers

/-- For names without the separator: two releases of one version and commit share a key suffix
only with their platform and normalised modifiers, exactly if upper-casing tells the names of the
closure apart wherever platform and maximal modifiers are the same. -/
theorem suffix_injective_iff (hac : allFeatures.Acyclic)
    (hdash : ∀ name ∈ allFeatures, '-' ∉ name.toList) (hversion : r.version = r'.version)
    (hcommittish : r.buildCommittish = r'.buildCommittish) :
    SuffixInjective upper allFeatures r r' ↔
      (r.platform = r'.platform →
        (∀ v, IsMaximal allFeatures r.modifiers v ↔ IsMaximal allFeatures r'.modifiers v) →
        Resolves allFeatures (r.platform :: r.modifiers) → Resolves allFeatures r'.modifiers →
        ToldApart upper allFeatures r.platform r.modifiers) := by
  have hclosure : (∀ v, IsMaximal allFeatures r.modifiers v ↔
      IsMaximal allFeatures r'.modifiers v) → ∀ v, InClosure allFeatures r.platform r.modifiers v ↔
        InClosure allFeatures r.platform r'.modifiers v := by
    intro hmaximal v
    rw [inClosure_iff, inClosure_iff, reachedFrom_congr_maximal hac hmaximal]
  constructor
  · intro h hplatform hmaximal hres hres'
    have hp : r.platform ∈ allFeatures := (hres _ (List.mem_cons_self ..)).1
    have hmodifiers : Resolves allFeatures r.modifiers := (List.forall_mem_cons.1 hres).2
    obtain ⟨maximal, hmax⟩ := exists_maximal allFeatures r.modifiers
    have hsuffix : ∃ suffix,
        r.canonicalReleaseManifestKeySuffix .sorted upper allFeatures = .ok suffix ∧
        r'.canonicalReleaseManifestKeySuffix .sorted upper allFeatures = .ok suffix := by
      refine ⟨_, (suffix_ok_iff hac).2 ⟨hp, hmodifiers, maximal, hmax, rfl⟩, ?_⟩
      rw [keyTail_congr hversion hcommittish, hplatform]
      exact (suffix_ok_iff hac).2 ⟨hplatform ▸ hp, hres', maximal,
        fun v => (hmax v).trans (hmaximal v), rfl⟩
    obtain ⟨suffix, hs, hs'⟩ := hsuffix
    have hsame := (h _ _ suffix hs hs').2
    refine toldApart_of_normalisedModifiers hac hres fun o o' => ?_
    exact (hsame o o').trans (hsame o' o').symm
  · intro htold orders orders' suffix h h'
    obtain ⟨hplatform, hmaximal⟩ := flavour_of_suffix_eq hac hdash hversion hcommittish h h'
    obtain ⟨hp, hres, -⟩ := (suffix_ok_iff hac).1 h
    obtain ⟨-, hres', -⟩ := (suffix_ok_iff hac).1 h'
    refine ⟨hplatform, ?_⟩
    rw [← hplatform]
    exact normalisedModifiers_congr hac hp hres hres' (hclosure hmaximal)
      fun hall => htold hplatform hmaximal hall hres'

/-- A release of the platform `aws` with some modifiers. -/
def awsRelease (modifiers : List String) : ReleaseIdentifier :=
  ⟨"5b1e9f03", "576.0", 576, .amd64, "aws", modifiers⟩

theorem suffix_injective_iff_aws :
    SuffixInjective asciiUpper platformWithElement (awsRelease ["gardener"])
        (awsRelease ["server", "gardener"]) ↔
      ("aws" = "aws" →
        (∀ v, IsMaximal platformWithElement ["gardener"] v ↔
          IsMaximal platformWithElement ["server", "gardener"] v) →
        Resolves platformWithElement ["aws", "gardener"] →
        Resolves platformWithElement ["server", "gardener"] →
        ToldApart asciiUpper platformWithElement "aws" ["gardener"]) :=
  suffix_injective_iff platformWithElement_acyclic (by decide +kernel)
    (show (awsRelease ["gardener"]).version = (awsRelease ["server", "gardener"]).version from rfl)
    rfl

/-- A platform and a flag in lower and in upper case. -/
def caseFeatures : FeatureSet := FeatureSet.ofEntries
  [("aws", ⟨"platform", [], []⟩), ("dev", ⟨"flag", [], []⟩), ("DEV", ⟨"flag", [], []⟩)]

theorem caseFeatures_acyclic : caseFeatures.Acyclic :=
  FeatureSet.acyclic_of_rank (fun _ => 0) (by decide +kernel)

/-- One release has two normalised forms, in two orders of the set of names. -/
theorem suffix_injective_fails :
    ¬ ∀ (upper : String → String) (allFeatures : FeatureSet) (r r' : ReleaseIdentifier),
      allFeatures.Acyclic → (∀ name ∈ allFeatures, '-' ∉ name.toList) → r.version = r'.version →
      r.buildCommittish = r'.buildCommittish → SuffixInjective upper allFeatures r r' := by
  intro h
  have hsuffix : (awsRelease ["dev", "DEV"]).canonicalReleaseManifestKeySuffix .sorted asciiUpper
      caseFeatures = .ok "aws-DEV-dev-576.0-5b1e9f" := by decide +kernel
  have hnorm : normalisedModifiers .sorted asciiUpper caseFeatures "aws" ["dev", "DEV"] =
      .ok ["DEV", "dev"] := by decide +kernel
  have hnorm' : normalisedModifiers
      ⟨Enumeration.reversed SetOrders.sorted.names, SetOrders.sorted.descriptors⟩ asciiUpper
      caseFeatures "aws" ["dev", "DEV"] = .ok ["dev", "DEV"] := by decide +kernel
  have hsame := (h asciiUpper caseFeatures (awsRelease ["dev", "DEV"]) (awsRelease ["dev", "DEV"])
    caseFeatures_acyclic (by decide +kernel) rfl rfl _ _ _ hsuffix hsuffix).2 .sorted
      ⟨Enumeration.reversed SetOrders.sorted.names, SetOrders.sorted.descriptors⟩
  exact absurd (Except.ok.inj (hnorm.symm.trans (hsame.trans hnorm'))) (by decide)

end Suffix

/-! ## One key for one identity -/

/-- Two identifiers of one release: the same data, and `normalised_modifiers` returns the
same tuple for both. -/
def SameRelease (upper : String → String) (allFeatures : FeatureSet) (r r' : ReleaseIdentifier) :
    Prop :=
  r'.platform = r.platform ∧ r'.version = r.version ∧ r'.buildCommittish = r.buildCommittish ∧
    r'.architecture = r.architecture ∧ r'.gardenlinuxEpoch = r.gardenlinuxEpoch ∧
    ∃ orders orders' modifiers,
      normalisedModifiers orders upper allFeatures r.platform r.modifiers = .ok modifiers ∧
      normalisedModifiers orders' upper allFeatures r'.platform r'.modifiers = .ok modifiers

/-- Every identifier of the release has the key of `r`, and a manifest that was uploaded for
`r` and is still under its key is found for it, whatever the orders of the sets. -/
def KeyDetermined (upper : String → String) (allFeatures : FeatureSet) (r : ReleaseIdentifier) :
    Prop :=
  ∀ r', SameRelease upper allFeatures r r' →
    (∀ orders orders', ∃ key,
      r.canonicalReleaseManifestKey orders upper allFeatures = .ok key ∧
      r'.canonicalReleaseManifestKey orders' upper allFeatures = .ok key) ∧
    ∀ (orders : SetOrders) (find : FindOrders) (bucketName : String)
      (bucket stored later : Bucket) (key : String) (manifest : ReleaseManifest),
      manifest.releaseIdentifier = r →
      uploadResults orders upper allFeatures bucket manifest = .ok (key, stored) →
      later.lookup key = stored.lookup key →
      findRelease find upper allFeatures bucketName later r' =
        .ok (some { manifest.document with s3Key := key, s3Bucket := bucketName })

/-- The two identifiers have one key, and a manifest that was uploaded for the first and is still
under its key is found for the second, whatever the orders of the sets. -/
def KeyShared (upper : String → String) (allFeatures : FeatureSet) (r r' : ReleaseIdentifier) :
    Prop :=
  (∀ orders orders', ∃ key,
    r.canonicalReleaseManifestKey orders upper allFeatures = .ok key ∧
    r'.canonicalReleaseManifestKey orders' upper allFeatures = .ok key) ∧
  ∀ (orders : SetOrders) (find : FindOrders) (bucketName : String)
    (bucket stored later : Bucket) (key : String) (manifest : ReleaseManifest),
    manifest.releaseIdentifier = r →
    uploadResults orders upper allFeatures bucket manifest = .ok (key, stored) →
    later.lookup key = stored.lookup key →
    findRelease find upper allFeatures bucketName later r' =
      .ok (some { manifest.document with s3Key := key, s3Bucket := bucketName })

/-- The maximal modifiers of two identifiers, joined behind the platform, are one text. -/
def SameFlavourText (upper : String → String) (allFeatures : FeatureSet)
    (r r' : ReleaseIdentifier) : Prop :=
  ∀ own own' : Finset String, (∀ v, v ∈ own ↔ IsMaximal allFeatures r.modifiers v) →
    (∀ v, v ∈ own' ↔ IsMaximal allFeatures r'.modifiers v) → ∀ orders,
      (String.singleton '-').intercalate
          (flavourNames orders upper allFeatures r.platform own) =
        (String.singleton '-').intercalate
          (flavourNames orders upper allFeatures r'.platform own')

/-- The closure of a release is told apart by upper-cased names, and what the platform
implies is implied by a modifier that the platform does not imply. -/
structure Canonical (upper : String → String) (allFeatures : FeatureSet) (r : ReleaseIdentifier) :
    Prop where
  implied : ∀ v, Implies allFeatures r.platform v →
    ∃ m ∈ r.modifiers, ¬ Implies allFeatures r.platform m ∧ Implies allFeatures m v
  upper_injective : ∀ u v, InClosure allFeatures r.platform r.modifiers u →
    InClosure allFeatures r.platform r.modifiers v → upper u = upper v → u = v

theorem uploadResults_ok_iff {orders : SetOrders} {bucket stored : Bucket} {key : String}
    {manifest : ReleaseManifest} :
    uploadResults orders upper allFeatures bucket manifest = .ok (key, stored) ↔
      manifest.releaseIdentifier.canonicalReleaseManifestKey orders upper allFeatures = .ok key ∧
        stored = uploadReleaseManifest bucket key manifest.document := by
  simp only [uploadResults, bind_ok_iff, key_ok_iff]
  constructor
  · rintro ⟨suffix, hs, hk⟩
    obtain ⟨rfl, rfl⟩ := Prod.mk.inj (Except.ok.inj hk)
    exact ⟨⟨suffix, hs, rfl⟩, rfl⟩
  · rintro ⟨⟨suffix, hs, rfl⟩, rfl⟩
    exact ⟨suffix, hs, rfl⟩

/-- Identifiers of one release have the same closure. -/
theorem SameRelease.inClosure {r r' : ReleaseIdentifier} (h : SameRelease upper allFeatures r r')
    (v : String) :
    InClosure allFeatures r'.platform r'.modifiers v ↔
      InClosure allFeatures r.platform r.modifiers v := by
  obtain ⟨-, -, -, -, -, orders, orders', modifiers, hnorm, hnorm'⟩ := h
  obtain ⟨-, names, hnames, rfl⟩ := of_normalisedModifiers_ok hnorm
  obtain ⟨-, names', hnames', heq⟩ := of_normalisedModifiers_ok hnorm'
  have hsorted : v ∈ sortOn upper (orders'.names.list names') ↔
      v ∈ sortOn upper (orders.names.list names) := by rw [heq]
  rwa [mem_sortOn, mem_sortOn, orders.names.mem_list, orders'.names.mem_list, hnames,
    hnames'] at hsorted

theorem SameRelease.resolves {r r' : ReleaseIdentifier}
    (h : SameRelease upper allFeatures r r') :
    Resolves allFeatures (r.platform :: r.modifiers) ∧
      Resolves allFeatures (r'.platform :: r'.modifiers) := by
  obtain ⟨-, -, -, -, -, orders, orders', modifiers, hnorm, hnorm'⟩ := h
  exact ⟨(of_normalisedModifiers_ok hnorm).1, (of_normalisedModifiers_ok hnorm').1⟩

/-- Where the platform's includes are implied by modifiers of their own, the closure is
reached from the modifiers. -/
theorem reachedFrom_iff_inClosure {platform : String} {modifiers : List String}
    (h : ∀ v, Implies allFeatures platform v → ∃ m, ¬ Implies allFeatures platform m ∧
      InClosure allFeatures platform modifiers m ∧ Implies allFeatures m v) (v : String) :
    (allFeatures.inclusion ∅).ReachedFrom modifiers v ↔
      InClosure allFeatures platform modifiers v := by
  rw [inClosure_iff]
  refine ⟨Or.inl, ?_⟩
  rintro (hv | hpv)
  · exact hv
  · obtain ⟨m, hpm, hm, hmv⟩ := h v hpv
    have hmreach := (inClosure_iff.1 hm).resolve_right hpm
    exact hmreach.trans (reach_iff.2 (Or.inr hmv))

/-- Canonical releases of one identity have the same maximal modifiers. -/
theorem Canonical.isMaximal_iff (hac : allFeatures.Acyclic) {r r' : ReleaseIdentifier}
    (h : Canonical upper allFeatures r) (hsame : SameRelease upper allFeatures r r') (v : String) :
    IsMaximal allFeatures r.modifiers v ↔ IsMaximal allFeatures r'.modifiers v := by
  have himplied : ∀ v, Implies allFeatures r.platform v → ∃ m,
      ¬ Implies allFeatures r.platform m ∧ InClosure allFeatures r.platform r.modifiers m ∧
        Implies allFeatures m v := by
    intro v hv
    obtain ⟨m, hm, hpm, hmv⟩ := h.implied v hv
    exact ⟨m, hpm, Or.inl hm, hmv⟩
  refine isMaximal_congr_reachedFrom hac (fun v => ?_) v
  rw [reachedFrom_iff_inClosure himplied, ← hsame.inClosure, reachedFrom_iff_inClosure]
  intro v hv
  rw [hsame.1] at hv
  obtain ⟨m, hpm, hm, hmv⟩ := himplied v hv
  exact ⟨m, by rwa [hsame.1], (hsame.inClosure m).2 hm, hmv⟩

/-- The names of features that are told apart by upper-cased names do not depend on the
order of the set. -/
theorem flavourNames_congr (orders orders' : SetOrders) {platform : String}
    {maximal : Finset String}
    (hinj : ∀ u ∈ maximal, ∀ v ∈ maximal, upper u = upper v → u = v) :
    flavourNames orders upper allFeatures platform maximal =
      flavourNames orders' upper allFeatures platform maximal := by
  rw [flavourNames, flavourNames, sortOn_congr (orders.descriptors.perm orders'.descriptors _)]
  intro d hd d' hd' heq
  rw [orders.descriptors.mem_list, Finset.mem_image] at hd hd'
  obtain ⟨u, hu, rfl⟩ := hd
  obtain ⟨v, hv, rfl⟩ := hd'
  rw [hinj u hu v hv heq]

/-- The parts of two keys that are not the flavour are the same. -/
theorem joined_eq {a b : String} {r r' : ReleaseIdentifier} (htail : r'.keyTail = r.keyTail)
    (h : manifestKeyPrefix ++ "/" ++ (a ++ r.keyTail) =
      manifestKeyPrefix ++ "/" ++ (b ++ r'.keyTail)) : a = b := by
  rw [htail] at h
  have hlist := congrArg String.toList h
  simp only [String.toList_append, List.append_assoc, List.append_cancel_left_eq] at hlist
  exact String.toList_injective (List.append_cancel_right hlist)

section Shared

variable {r r' : ReleaseIdentifier}

theorem SameRelease.keyTail (hsame : SameRelease upper allFeatures r r') :
    r'.keyTail = r.keyTail :=
  keyTail_congr hsame.2.1 hsame.2.2.1

/-- The keys of two identifiers of one release. -/
theorem SameRelease.exists_maximal_key (hac : allFeatures.Acyclic)
    (hsame : SameRelease upper allFeatures r r') :
    ∃ own own' : Finset String, (∀ v, v ∈ own ↔ IsMaximal allFeatures r.modifiers v) ∧
      (∀ v, v ∈ own' ↔ IsMaximal allFeatures r'.modifiers v) ∧ ∀ orders,
      r.canonicalReleaseManifestKey orders upper allFeatures =
        .ok (manifestKeyPrefix ++ "/" ++ ((String.singleton '-').intercalate
          (flavourNames orders upper allFeatures r.platform own) ++ r.keyTail)) ∧
      r'.canonicalReleaseManifestKey orders upper allFeatures =
        .ok (manifestKeyPrefix ++ "/" ++ ((String.singleton '-').intercalate
          (flavourNames orders upper allFeatures r'.platform own') ++ r'.keyTail)) := by
  obtain ⟨hres, hres'⟩ := hsame.resolves
  obtain ⟨hp, hmodifiers⟩ := List.forall_mem_cons.1 hres
  obtain ⟨hp', hmodifiers'⟩ := List.forall_mem_cons.1 hres'
  obtain ⟨own, hown⟩ := exists_maximal allFeatures r.modifiers
  obtain ⟨own', hown'⟩ := exists_maximal allFeatures r'.modifiers
  refine ⟨own, own', hown, hown', fun orders => ⟨?_, ?_⟩⟩
  · exact key_ok_iff.2 ⟨_, (suffix_ok_iff hac).2 ⟨hp.1, hmodifiers, own, hown, rfl⟩, rfl⟩
  · exact key_ok_iff.2 ⟨_, (suffix_ok_iff hac).2 ⟨hp'.1, hmodifiers', own', hown', rfl⟩, rfl⟩

/-- Identifiers of one release with the same joined names, told apart, have one key. -/
theorem SameRelease.key (hac : allFeatures.Acyclic) (hsame : SameRelease upper allFeatures r r')
    (htold : ToldApart upper allFeatures r.platform r.modifiers)
    (hjoined : SameFlavourText upper allFeatures r r') (orders orders' : SetOrders) :
    ∃ key, r.canonicalReleaseManifestKey orders upper allFeatures = .ok key ∧
      r'.canonicalReleaseManifestKey orders' upper allFeatures = .ok key := by
  obtain ⟨own, own', hown, hown', hkeys⟩ := hsame.exists_maximal_key hac
  have hnames : flavourNames orders upper allFeatures r.platform own =
      flavourNames orders' upper allFeatures r.platform own :=
    flavourNames_congr orders orders' fun u hu v hv =>
      htold u v (Or.inl ((hown u).1 hu).1) (Or.inl ((hown v).1 hv).1)
  refine ⟨_, (hkeys orders).1, ?_⟩
  rw [(hkeys orders').2, hnames, hjoined own own' hown hown' orders', hsame.keyTail]

/-- Normalised identifiers of one release that is told apart are equal. -/
theorem SameRelease.normalised (hac : allFeatures.Acyclic)
    (hsame : SameRelease upper allFeatures r r')
    (htold : ToldApart upper allFeatures r.platform r.modifiers) (orders orders' : SetOrders) :
    ∃ n, normalisedReleaseIdentifier orders upper allFeatures r = .ok n ∧
      normalisedReleaseIdentifier orders' upper allFeatures r' = .ok n := by
  obtain ⟨hres, hres'⟩ := hsame.resolves
  obtain ⟨names, hnames⟩ := exists_closure hres
  have hsorted : sortOn upper (orders'.names.list names) =
      sortOn upper (orders.names.list names) := by
    refine sortOn_congr (orders'.names.perm orders.names _) fun u hu v hv => ?_
    rw [orders'.names.mem_list, hnames] at hu hv
    exact htold u v hu hv
  have hnorm : normalisedModifiers orders upper allFeatures r.platform r.modifiers =
      .ok (sortOn upper (orders.names.list names)) :=
    (normalisedModifiers_ok_iff hac).2 ⟨hres, names, hnames, rfl⟩
  have hnorm' : normalisedModifiers orders' upper allFeatures r'.platform r'.modifiers =
      .ok (sortOn upper (orders.names.list names)) :=
    (normalisedModifiers_ok_iff hac).2 ⟨hres', names, fun v => (hnames v).trans
      (hsame.inClosure v).symm, hsorted.symm⟩
  refine ⟨{ r with modifiers := sortOn upper (orders.names.list names) }, ?_, ?_⟩
  · simp only [normalisedReleaseIdentifier, hnorm, bind, Except.bind, pure, Except.pure]
  · simp only [normalisedReleaseIdentifier, hnorm', bind, Except.bind, pure, Except.pure,
      Except.ok.injEq]
    obtain ⟨hp, hv, hc, ha, he, -⟩ := hsame
    cases r
    cases r'
    simp_all

/-- What was uploaded for one of them is found for the other. -/
theorem SameRelease.keyShared (hac : allFeatures.Acyclic)
    (hsame : SameRelease upper allFeatures r r')
    (htold : ToldApart upper allFeatures r.platform r.modifiers)
    (hjoined : SameFlavourText upper allFeatures r r') : KeyShared upper allFeatures r r' := by
  refine ⟨hsame.key hac htold hjoined, ?_⟩
  rintro orders find bucketName bucket stored later key manifest rfl hupload hlater
  obtain ⟨hkey, rfl⟩ := uploadResults_ok_iff.1 hupload
  obtain ⟨key', hkey', hfind⟩ := hsame.key hac htold hjoined orders find.key
  obtain rfl := Except.ok.inj (hkey'.symm.trans hkey)
  obtain ⟨n, hfound, hsearched⟩ := hsame.normalised hac htold find.found find.searched
  rw [uploadReleaseManifest, AList.lookup_insert] at hlater
  rw [findRelease_of_lookup hfind hlater hfound hsearched, if_pos rfl]

end Shared

/-- What was uploaded for a canonical release is found for every identifier of it. -/
theorem Canonical.keyDetermined (hac : allFeatures.Acyclic) {r : ReleaseIdentifier}
    (h : Canonical upper allFeatures r) : KeyDetermined upper allFeatures r := by
  intro r' hsame
  refine hsame.keyShared hac h.upper_injective ?_
  intro own own' hown hown' orders
  have heq : own' = own := by
    ext v
    rw [hown, hown', h.isMaximal_iff hac hsame]
  rw [heq, hsame.1]

/-! ### When the key is not determined -/

/-- A list of modifiers between the closure and what of it the platform does not imply has
the same closure. -/
theorem inClosure_congr_between {platform : String} {modifiers modifiers' : List String}
    (hsub : ∀ v ∈ modifiers', InClosure allFeatures platform modifiers v)
    (hcover : ∀ v, InClosure allFeatures platform modifiers v →
      v ∈ modifiers' ∨ Implies allFeatures platform v) (v : String) :
    InClosure allFeatures platform modifiers' v ↔ InClosure allFeatures platform modifiers v := by
  constructor
  · rintro (hv | ⟨u, hu, huv⟩)
    · exact hsub v hv
    · rcases List.mem_cons.1 hu with rfl | hu
      · exact Or.inr ⟨u, List.mem_cons_self .., huv⟩
      · rcases hsub u hu with hu | ⟨w, hw, hwu⟩
        · exact Or.inr ⟨u, List.mem_cons_of_mem _ hu, huv⟩
        · exact Or.inr ⟨w, hw, TransGen.trans hwu huv⟩
  · intro hv
    rcases hcover v hv with hv | hpv
    · exact Or.inl hv
    · exact Or.inr ⟨platform, List.mem_cons_self .., hpv⟩

theorem resolves_of_inClosure {platform : String} {modifiers modifiers' : List String}
    (hres : Resolves allFeatures (platform :: modifiers))
    (hsub : ∀ v ∈ modifiers', InClosure allFeatures platform modifiers v) :
    Resolves allFeatures (platform :: modifiers') := by
  intro u hu
  rcases List.mem_cons.1 hu with rfl | hu
  · exact hres u (List.mem_cons_self ..)
  · rcases hsub u hu with hu | ⟨w, hw, hwu⟩
    · exact hres u (List.mem_cons_of_mem _ hu)
    · exact ⟨(hres w hw).2 u hwu, fun v huv => (hres w hw).2 v (TransGen.trans hwu huv)⟩

/-- Such a list identifies the same release. -/
theorem sameRelease_between (hac : allFeatures.Acyclic) {r : ReleaseIdentifier}
    {modifiers' : List String} {orders : SetOrders} {normalised : List String}
    (h : normalisedModifiers orders upper allFeatures r.platform r.modifiers = .ok normalised)
    (hsub : ∀ v ∈ modifiers', InClosure allFeatures r.platform r.modifiers v)
    (hcover : ∀ v, InClosure allFeatures r.platform r.modifiers v →
      v ∈ modifiers' ∨ Implies allFeatures r.platform v) :
    SameRelease upper allFeatures r { r with modifiers := modifiers' } := by
  refine ⟨rfl, rfl, rfl, rfl, rfl, orders, orders, normalised, h, ?_⟩
  obtain ⟨hres, names, hnames, rfl⟩ := of_normalisedModifiers_ok h
  exact (normalisedModifiers_ok_iff hac).2 ⟨resolves_of_inClosure hres hsub, names,
    fun v => (hnames v).trans (inClosure_congr_between hsub hcover v).symm, rfl⟩

/-- The length of a key tells how long the maximal names are together. -/
theorem sum_length_of_key (hac : allFeatures.Acyclic) {orders : SetOrders} {r : ReleaseIdentifier}
    {key : String} {maximal : Finset String}
    (hmax : ∀ v, v ∈ maximal ↔ IsMaximal allFeatures r.modifiers v)
    (h : r.canonicalReleaseManifestKey orders upper allFeatures = .ok key) :
    key.length + 1 = (manifestKeyPrefix ++ "/").length + r.keyTail.length +
      (r.platform.length + 1) + ∑ v ∈ maximal, (v.length + 1) := by
  obtain ⟨suffix, hsuffix, rfl⟩ := key_ok_iff.1 h
  obtain ⟨-, -, maximal', hmax', rfl⟩ := (suffix_ok_iff hac).1 hsuffix
  have heq : maximal' = maximal := by
    ext v
    rw [hmax, hmax']
  subst heq
  have hperm : ((sortOn (fun m => upper m.name)
      (orders.descriptors.list (maximal'.image (describe allFeatures)))).map (·.name)).Perm
      maximal'.toList :=
    (List.perm_ext_iff_of_nodup (nodup_names_sortOn _) maximal'.nodup_toList).2 fun v => by
      rw [mem_names_sortOn, Finset.mem_toList]
  have hjoin := length_intercalate (c := '-') (l := flavourNames orders upper allFeatures
    r.platform maximal') (List.cons_ne_nil _ _)
  rw [flavourNames, List.map_cons, List.sum_cons, (hperm.map _).sum_eq, Finset.sum_map_toList]
    at hjoin
  simp only [String.length_append, flavourNames]
  omega

/-- Above a name that only the platform implies there is a maximal name that the platform
implies. -/
theorem exists_maximal_implied (hac : allFeatures.Acyclic) {platform v : String}
    {modifiers closure : List String}
    (hall : ∀ u, u ∈ closure ↔ InClosure allFeatures platform modifiers u)
    (hv : Implies allFeatures platform v)
    (hno : ∀ m ∈ modifiers, ¬ Implies allFeatures platform m → ¬ Implies allFeatures m v) :
    ∃ s, IsMaximal allFeatures closure s ∧ Implies allFeatures platform s := by
  obtain ⟨s, hs, hsv⟩ := Guarded.exists_generator_reach (hac.inclusion ∅)
    ((hall v).2 (Or.inr ⟨platform, List.mem_cons_self .., hv⟩)) (by simp)
  rw [isGenerator_iff hac] at hs
  refine ⟨s, hs, ?_⟩
  by_contra hps
  rcases (hall s).1 hs.1 with hmem | ⟨u, hu, hus⟩
  · rcases reach_iff.1 hsv with rfl | hsv
    · exact hps hv
    · exact hno s hmem hps hsv
  · rcases List.mem_cons.1 hu with rfl | hu
    · exact hps hus
    · exact hs.2 u ((hall u).2 (Or.inl hu)) hus

/-- Without the names that the platform implies, no name becomes maximal. -/
theorem IsMaximal.of_own {platform u : String} {closure own : List String}
    (hown : ∀ v, v ∈ own ↔ v ∈ closure ∧ ¬ Implies allFeatures platform v)
    (hu : IsMaximal allFeatures own u) : IsMaximal allFeatures closure u := by
  obtain ⟨hmem, hu⟩ := hu
  obtain ⟨hcl, hpu⟩ := (hown u).1 hmem
  refine ⟨hcl, fun w hw hwu => ?_⟩
  by_cases hpw : Implies allFeatures platform w
  · exact hpu (TransGen.trans hpw hwu)
  · exact hu w ((hown w).2 ⟨hw, hpw⟩) hwu

/-- A closure whose maximal names the platform implies has two keys. -/
theorem KeyDetermined.implied (hac : allFeatures.Acyclic) {r : ReleaseIdentifier}
    {orders : SetOrders} {normalised : List String}
    (h : normalisedModifiers orders upper allFeatures r.platform r.modifiers = .ok normalised)
    (hdet : KeyDetermined upper allFeatures r) (v : String)
    (hv : Implies allFeatures r.platform v) :
    ∃ m ∈ r.modifiers, ¬ Implies allFeatures r.platform m ∧ Implies allFeatures m v := by
  classical
  obtain ⟨-, names, hnames, -⟩ := of_normalisedModifiers_ok h
  by_contra hno
  push Not at hno
  -- all of the closure, and what of it the platform does not imply
  have hall : ∀ u, u ∈ names.toList ↔ InClosure allFeatures r.platform r.modifiers u := fun u => by
    rw [Finset.mem_toList, hnames]
  have hown : ∀ u, u ∈ (names.filter fun u => ¬ Implies allFeatures r.platform u).toList ↔
      u ∈ names.toList ∧ ¬ Implies allFeatures r.platform u :=
    fun u => by rw [Finset.mem_toList, Finset.mem_filter, Finset.mem_toList]
  obtain ⟨key, hkey, hkeyAll⟩ := (hdet _ (sameRelease_between hac h (fun u hu => (hall u).1 hu)
    fun u hu => Or.inl ((hall u).2 hu))).1 orders orders
  obtain ⟨key', hkey', hkeyOwn⟩ := (hdet _ (sameRelease_between hac h
    (fun u hu => (hall u).1 ((hown u).1 hu).1) fun u hu => by
      by_cases hpu : Implies allFeatures r.platform u
      · exact Or.inr hpu
      · exact Or.inl ((hown u).2 ⟨(hall u).2 hu, hpu⟩))).1 orders orders
  obtain rfl := Except.ok.inj (hkey'.symm.trans hkey)
  obtain ⟨maximal, hmax⟩ := exists_maximal allFeatures names.toList
  obtain ⟨maximal', hmax'⟩ := exists_maximal allFeatures
    (names.filter fun u => ¬ Implies allFeatures r.platform u).toList
  have hlen := sum_length_of_key hac hmax hkeyAll
  have hlen' := sum_length_of_key hac hmax' hkeyOwn
  -- a maximal name above `v` is implied by the platform, hence missing from the second key
  obtain ⟨s, hs, hps⟩ := exists_maximal_implied hac hall hv hno
  have hsub : maximal' ⊆ maximal := fun u hu => (hmax u).2 (((hmax' u).1 hu).of_own hown)
  have hs' : s ∉ maximal' := fun hs' => ((hown s).1 ((hmax' s).1 hs').1).2 hps
  have hlt : ∑ u ∈ maximal', (u.length + 1) < ∑ u ∈ maximal, (u.length + 1) :=
    Finset.sum_lt_sum_of_subset hsub ((hmax s).2 hs) hs' (Nat.succ_pos _)
      fun _ _ _ => Nat.zero_le _
  simp only [ReleaseIdentifier.keyTail] at hlen hlen'
  omega

/-- Two names of the closure that are the same in upper case make the normalised tuple, and
with it what is found, depend on the order of a set. -/
theorem KeyShared.toldApart (hac : allFeatures.Acyclic) {r r' : ReleaseIdentifier}
    (hsame : SameRelease upper allFeatures r r') (hshared : KeyShared upper allFeatures r r') :
    ToldApart upper allFeatures r.platform r.modifiers := by
  intro u v hu hv huv
  obtain ⟨hres, hres'⟩ := hsame.resolves
  obtain ⟨names, hnames⟩ := exists_closure hres
  by_contra hne
  obtain ⟨e, e', hsorted⟩ := Enumeration.exists_sortOn_ne ((hnames u).2 hu) ((hnames v).2 hv) hne huv
  obtain ⟨key, hkey, hkey'⟩ := hshared.1 .sorted .sorted
  have hnorm : ∀ o : SetOrders, normalisedReleaseIdentifier o upper allFeatures r =
      .ok { r with modifiers := sortOn upper (o.names.list names) } := by
    intro o
    have hok : normalisedModifiers o upper allFeatures r.platform r.modifiers =
        .ok (sortOn upper (o.names.list names)) :=
      (normalisedModifiers_ok_iff hac).2 ⟨hres, names, hnames, rfl⟩
    simp only [normalisedReleaseIdentifier, hok, bind, Except.bind, pure, Except.pure]
  have hnorm' : ∀ o : SetOrders, normalisedReleaseIdentifier o upper allFeatures r' =
      .ok { r' with modifiers := sortOn upper (o.names.list names) } := by
    intro o
    have hok : normalisedModifiers o upper allFeatures r'.platform r'.modifiers =
        .ok (sortOn upper (o.names.list names)) :=
      (normalisedModifiers_ok_iff hac).2 ⟨hres', names, fun v => (hnames v).trans
        (hsame.inClosure v).symm, rfl⟩
    simp only [normalisedReleaseIdentifier, hok, bind, Except.bind, pure, Except.pure]
  obtain ⟨manifest, hmanifest⟩ : ∃ m : ReleaseManifest, m.releaseIdentifier = r :=
    ⟨{ r with
        buildTimestamp := "", paths := [], baseImage := none, publishedImageMetadata := none }, rfl⟩
  have hlookup : (uploadReleaseManifest ∅ key manifest.document).lookup key =
      some (.manifest manifest.document) := AList.lookup_insert _
  have hdocument : manifest.document.releaseIdentifier = r := hmanifest
  -- found in one order of the names, searched in the other
  have hfound := hshared.2 .sorted
    ⟨.sorted, ⟨e, SetOrders.sorted.descriptors⟩, ⟨e', SetOrders.sorted.descriptors⟩⟩ "" ∅
    (uploadReleaseManifest ∅ key manifest.document) (uploadReleaseManifest ∅ key manifest.document)
    key manifest hmanifest (uploadResults_ok_iff.2 ⟨by rw [hmanifest]; exact hkey, rfl⟩) rfl
  have hnot : ({ r with modifiers := sortOn upper (e.list names) } : ReleaseIdentifier) ≠
      { r' with modifiers := sortOn upper (e'.list names) } := fun heq =>
    hsorted (congrArg ReleaseIdentifier.modifiers heq)
  have hread : findRelease ⟨.sorted, ⟨e, SetOrders.sorted.descriptors⟩,
      ⟨e', SetOrders.sorted.descriptors⟩⟩ upper allFeatures ""
        (uploadReleaseManifest ∅ key manifest.document) r' = _ :=
    findRelease_of_lookup hkey' hlookup ((congrArg _ hdocument).trans (hnorm _)) (hnorm' _)
  rw [if_neg hnot] at hread
  exact Option.some_ne_none _ (Except.ok.inj (hfound.symm.trans hread))

theorem KeyShared.sameFlavourText (hac : allFeatures.Acyclic) {r r' : ReleaseIdentifier}
    (hsame : SameRelease upper allFeatures r r') (hshared : KeyShared upper allFeatures r r') :
    SameFlavourText upper allFeatures r r' := by
  intro own own' hown hown' orders
  obtain ⟨names, names', hnames, hnames', hkeys⟩ := hsame.exists_maximal_key hac
  have heq : own = names := by
    ext v
    rw [hown, hnames]
  have heq' : own' = names' := by
    ext v
    rw [hown', hnames']
  obtain ⟨key, hkey, hkey'⟩ := hshared.1 orders orders
  rw [(hkeys orders).1] at hkey
  rw [(hkeys orders).2] at hkey'
  rw [heq, heq']
  exact joined_eq hsame.keyTail (Except.ok.inj (hkey.trans hkey'.symm))

/-- Two identifiers of one release share its key, and what is found under it, exactly when
upper-casing tells the features of the closure apart and their maximal modifiers, joined behind the
platform, are one text. -/
theorem keyShared_iff (hac : allFeatures.Acyclic) {r r' : ReleaseIdentifier}
    (hsame : SameRelease upper allFeatures r r') :
    KeyShared upper allFeatures r r' ↔
      ToldApart upper allFeatures r.platform r.modifiers ∧
        SameFlavourText upper allFeatures r r' :=
  ⟨fun h => ⟨h.toldApart hac hsame, h.sameFlavourText hac hsame⟩,
    fun ⟨htold, hjoined⟩ => hsame.keyShared hac htold hjoined⟩

/-- The key of a release and what is found under it are determined by its normalised
identifier exactly when whatever the platform implies is implied by a modifier that the
platform does not imply, and upper-casing tells the features of the closure apart. -/
theorem keyDetermined_iff (hac : allFeatures.Acyclic) {r : ReleaseIdentifier}
    {orders : SetOrders} {normalised : List String}
    (h : normalisedModifiers orders upper allFeatures r.platform r.modifiers = .ok normalised) :
    KeyDetermined upper allFeatures r ↔ Canonical upper allFeatures r := by
  refine ⟨fun hdet => ?_, fun hc => hc.keyDetermined hac⟩
  have hself : SameRelease upper allFeatures r r :=
    ⟨rfl, rfl, rfl, rfl, rfl, orders, orders, normalised, h, h⟩
  have hshared : KeyShared upper allFeatures r r := hdet r hself
  exact ⟨hdet.implied hac h, hshared.toldApart hac hself⟩

theorem keyDetermined_iff_gardener :
    KeyDetermined asciiUpper platformWithElement (awsRelease ["gardener"]) ↔
      Canonical asciiUpper platformWithElement (awsRelease ["gardener"]) :=
  keyDetermined_iff platformWithElement_acyclic
    (show normalisedModifiers .sorted asciiUpper platformWithElement
      (awsRelease ["gardener"]).platform (awsRelease ["gardener"]).modifiers =
        .ok ["gardener", "server"] by decide +kernel)

/-- With and without an element that the platform includes, a release has the same
normalised modifiers and two keys. -/
theorem keyDetermined_fails :
    ¬ ∀ (upper : String → String) (allFeatures : FeatureSet) (r r' : ReleaseIdentifier)
        (orders : SetOrders), allFeatures.Acyclic → SameRelease upper allFeatures r r' →
      r.canonicalReleaseManifestKey orders upper allFeatures =
        r'.canonicalReleaseManifestKey orders upper allFeatures := by
  intro h
  have hsame : SameRelease asciiUpper platformWithElement (awsRelease []) (awsRelease ["server"]) :=
    ⟨rfl, rfl, rfl, rfl, rfl, .sorted, .sorted, ["server"], by decide +kernel, by decide +kernel⟩
  have hkeys := h asciiUpper platformWithElement (awsRelease []) (awsRelease ["server"]) .sorted
    platformWithElement_acyclic hsame
  have hbare : (awsRelease []).canonicalReleaseManifestKey .sorted asciiUpper platformWithElement =
      .ok "meta/singles/aws-576.0-5b1e9f" := by decide +kernel
  have hserver : (awsRelease ["server"]).canonicalReleaseManifestKey .sorted asciiUpper
      platformWithElement = .ok "meta/singles/aws-server-576.0-5b1e9f" := by decide +kernel
  rw [hbare, hserver] at hkeys
  exact absurd (Except.ok.inj hkeys) (by decide)

end Glci
