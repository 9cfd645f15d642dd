import GardenLinux.Lib.Listing
import GardenLinux.Feat.FeatureSet

/-!
# The release model: features, identifiers, keys

The functions of `ci/glci/model.py` that close a list of modifiers under inclusion,
minimise it, and derive from it the key under which the manifest of a release is stored.
The features are those `bin/garden-feat.go` works with; a `FeatureSet` has one feature for
each name.

What is proved here:

* `includedFeatures_ok` — without cycles and dangling names the recursion of
  `included_features` ends;
* `names_includedFeatures` — what it yields are the transitively included features;
* `normalisedModifiers_ok_iff` and `canonicalisedFeatures_ok_iff` — when the two
  functions succeed and what they return.
-/

namespace Glci

open Relation GardenFeat

/-! ## Features -/

/-- What the functions raise. -/
inductive ModelError
  | valueError (text : String)
  | recursionError
  | clientError (key : String)
  | daciteError (key : String)
  deriving DecidableEq, Repr

/-- `FeatureDescriptor`: the name and `features.include`. -/
structure FeatureDescriptor where
  name : String
  includes : List String
  deriving DecidableEq, Repr

def featureByName (allFeatures : FeatureSet) (featureName : String) :
    Except ModelError FeatureDescriptor :=
  match allFeatures.lookup featureName with
  | some feature => .ok ⟨featureName, feature.includes⟩
  | none => .error (.valueError featureName)

/-- `for x in xs: yield from step(x)`, run to its end. -/
def gather {α β : Type} (step : α → Except ModelError (List β)) :
    List α → Except ModelError (List β)
  | [] => .ok []
  | x :: xs =>
    match step x with
    | .error e => .error e
    | .ok ys =>
      match gather step xs with
      | .error e => .error e
      | .ok zs => .ok (ys ++ zs)

/-- `FeatureDescriptor.included_features` down to a given depth. -/
def includedFeaturesWithin (allFeatures : FeatureSet) :
    ℕ → FeatureDescriptor → Except ModelError (List FeatureDescriptor)
  | 0, _ => .error .recursionError
  | depth + 1, feature =>
    gather (fun name =>
      match featureByName allFeatures name with
      | .error e => .error e
      | .ok included =>
        match includedFeaturesWithin allFeatures depth included with
        | .error e => .error e
        | .ok below => .ok (below ++ [included])) feature.includes

/-- `FeatureDescriptor.included_features`. A path without repetitions is no longer than
the number of features, so a recursion that goes deeper does not come to an end. -/
def includedFeatures (allFeatures : FeatureSet) (feature : FeatureDescriptor) :
    Except ModelError (List FeatureDescriptor) :=
  includedFeaturesWithin allFeatures (allFeatures.keys.length + 1) feature

/-! ## Normalised and canonical modifiers -/

/-- The orders in which Python goes over its sets of names and of features. -/
structure SetOrders where
  names : Enumeration String
  descriptors : Enumeration FeatureDescriptor

/-- `[feature_by_name(f) for f in names]`. -/
def featuresByName (allFeatures : FeatureSet) (names : List String) :
    Except ModelError (List FeatureDescriptor) :=
  gather (fun name =>
    match featureByName allFeatures name with
    | .error e => .error e
    | .ok feature => .ok [feature]) names

/-- `normalised_modifiers`, with `str.upper` as a parameter. -/
def normalisedModifiers (orders : SetOrders) (upper : String → String) (allFeatures : FeatureSet)
    (platform : String) (modifiers : List String) : Except ModelError (List String) := do
  let platform ← featureByName allFeatures platform
  let found ← featuresByName allFeatures modifiers
  let modifiers := found.toFinset
  let included ← gather (includedFeatures allFeatures) (orders.descriptors.list modifiers)
  let ofPlatform ← includedFeatures allFeatures platform
  let allModifiers := modifiers.image (·.name) ∪ (included.map (·.name)).toFinset
    ∪ (ofPlatform.map (·.name)).toFinset
  pure (sortOn upper (orders.names.list allModifiers))

/-- What stands in a Python set next to feature descriptors. -/
inductive Item
  | descriptor (feature : FeatureDescriptor)
  | includedFeatures (feature : FeatureDescriptor)
  | name (name : String)
  deriving DecidableEq

/-- `canonicalised_features`. The first set that is subtracted holds a generator object
and the names of the modifiers. -/
def canonicalisedFeatures (orders : SetOrders) (upper : String → String)
    (allFeatures : FeatureSet) (platform : String) (modifiers : List String) :
    Except ModelError (List FeatureDescriptor) := do
  let platform ← featureByName allFeatures platform
  let found ← featuresByName allFeatures modifiers
  let minimal := found.toFinset
  let minimal := minimal.filter fun m =>
    Item.descriptor m ∉ Item.includedFeatures platform :: modifiers.map Item.name
  let found ← featuresByName allFeatures modifiers
  let included ← gather (includedFeatures allFeatures) found
  let minimal := minimal \ included.toFinset
  pure (platform :: sortOn (fun m => upper m.name) (orders.descriptors.list minimal))

/-! ## Release identifiers -/

inductive Architecture
  | amd64
  deriving DecidableEq, Repr

def Architecture.value : Architecture → String
  | .amd64 => "amd64"

structure ReleaseIdentifier where
  buildCommittish : String
  version : String
  gardenlinuxEpoch : ℤ
  architecture : Architecture
  platform : String
  modifiers : List String
  deriving DecidableEq, Repr

/-- `canonical_release_manifest_key_suffix`. -/
def ReleaseIdentifier.canonicalReleaseManifestKeySuffix (r : ReleaseIdentifier)
    (orders : SetOrders) (upper : String → String) (allFeatures : FeatureSet) :
    Except ModelError String := do
  let features ← canonicalisedFeatures orders upper allFeatures r.platform r.modifiers
  let flavourName := (String.singleton '-').intercalate (features.map (·.name))
  pure (flavourName ++ ("-" ++ r.version ++ "-" ++ String.ofList (r.buildCommittish.toList.take 6)))

def manifestKeyPrefix : String := "meta/singles"

/-- `canonical_release_manifest_key`. -/
def ReleaseIdentifier.canonicalReleaseManifestKey (r : ReleaseIdentifier)
    (orders : SetOrders) (upper : String → String) (allFeatures : FeatureSet) :
    Except ModelError String := do
  let suffix ← r.canonicalReleaseManifestKeySuffix orders upper allFeatures
  pure (manifestKeyPrefix ++ "/" ++ suffix)

/-- `normalised_release_identifier`. -/
def normalisedReleaseIdentifier (orders : SetOrders) (upper : String → String)
    (allFeatures : FeatureSet) (r : ReleaseIdentifier) : Except ModelError ReleaseIdentifier := do
  let modifiers ← normalisedModifiers orders upper allFeatures r.platform r.modifiers
  pure { r with modifiers }

/-! ## Looking features up -/

/-- The descriptor of a name. -/
def describe (allFeatures : FeatureSet) (name : String) : FeatureDescriptor :=
  ⟨name, allFeatures.includes name⟩

/-- `v` is included by `u`, directly or through other features. -/
def Implies (allFeatures : FeatureSet) (u v : String) : Prop :=
  TransGen (fun a b => b ∈ allFeatures.includes a) u v

/-- Every feature of the list exists, and so does whatever it includes. -/
def Resolves (allFeatures : FeatureSet) (names : List String) : Prop :=
  ∀ u ∈ names, u ∈ allFeatures ∧ ∀ v, Implies allFeatures u v → v ∈ allFeatures

variable {allFeatures : FeatureSet}

theorem describe_injective : Function.Injective (describe allFeatures) := fun _ _ h =>
  congrArg FeatureDescriptor.name h

theorem featureByName_ok_iff {name : String} {feature : FeatureDescriptor} :
    featureByName allFeatures name = .ok feature ↔
      name ∈ allFeatures ∧ feature = describe allFeatures name := by
  unfold featureByName describe FeatureSet.includes
  cases hlook : allFeatures.lookup name with
  | none =>
    have hname : name ∉ allFeatures := AList.lookup_eq_none.1 hlook
    simp [hname]
  | some f =>
    have hname : name ∈ allFeatures := AList.lookup_isSome.1 (by simp [hlook])
    simp [hname, eq_comm]

section Gather

variable {α β : Type} {step : α → Except ModelError (List β)}

theorem gather_ok {xs : List α} (h : ∀ x ∈ xs, ∃ ys, step x = .ok ys) :
    ∃ zs, gather step xs = .ok zs := by
  induction xs with
  | nil => exact ⟨[], rfl⟩
  | cons x xs ih =>
    obtain ⟨ys, hys⟩ := h x (List.mem_cons_self ..)
    obtain ⟨zs, hzs⟩ := ih fun y hy => h y (List.mem_cons_of_mem _ hy)
    exact ⟨ys ++ zs, by simp [gather, hys, hzs]⟩

theorem gather_cons_ok_iff {x : α} {xs : List α} {ws : List β} :
    gather step (x :: xs) = .ok ws ↔
      ∃ ys zs, step x = .ok ys ∧ gather step xs = .ok zs ∧ ys ++ zs = ws := by
  rw [gather]
  cases step x with
  | error e => simp
  | ok ys => cases gather step xs <;> simp

theorem of_gather_ok {xs : List α} {zs : List β} (h : gather step xs = .ok zs) :
    (∀ x ∈ xs, ∃ ys, step x = .ok ys) ∧
      ∀ z, z ∈ zs ↔ ∃ x ∈ xs, ∃ ys, step x = .ok ys ∧ z ∈ ys := by
  induction xs generalizing zs with
  | nil =>
    cases h
    simp
  | cons x xs ih =>
    obtain ⟨ys, rest, hx, hxs, rfl⟩ := gather_cons_ok_iff.1 h
    obtain ⟨hall, hmem⟩ := ih hxs
    refine ⟨List.forall_mem_cons.2 ⟨⟨ys, hx⟩, hall⟩, fun z => ?_⟩
    rw [List.mem_append, hmem]
    simp [hx]

end Gather

/-- Looking a list of names up succeeds for existing features. -/
theorem featuresByName_ok_iff {names : List String} :
    (∃ found, featuresByName allFeatures names = .ok found) ↔ ∀ u ∈ names, u ∈ allFeatures := by
  constructor
  · rintro ⟨found, h⟩ u hu
    obtain ⟨ys, hys⟩ := (of_gather_ok h).1 u hu
    cases hf : featureByName allFeatures u with
    | error e => simp [hf] at hys
    | ok f => exact (featureByName_ok_iff.1 hf).1
  · intro h
    refine gather_ok fun u hu => ⟨[describe allFeatures u], ?_⟩
    rw [featureByName_ok_iff.2 ⟨h u hu, rfl⟩]

theorem mem_featuresByName {names : List String} {found : List FeatureDescriptor}
    (h : featuresByName allFeatures names = .ok found) (d : FeatureDescriptor) :
    d ∈ found ↔ ∃ u ∈ names, d = describe allFeatures u := by
  have hexist := featuresByName_ok_iff.1 ⟨found, h⟩
  have hlook : ∀ u ∈ names, featureByName allFeatures u = .ok (describe allFeatures u) :=
    fun u hu => featureByName_ok_iff.2 ⟨hexist u hu, rfl⟩
  rw [(of_gather_ok h).2]
  constructor
  · rintro ⟨u, hu, ys, hys, hd⟩
    rw [hlook u hu] at hys
    cases hys
    exact ⟨u, hu, List.mem_singleton.1 hd⟩
  · rintro ⟨u, hu, rfl⟩
    refine ⟨u, hu, [describe allFeatures u], ?_, List.mem_singleton.2 rfl⟩
    rw [hlook u hu]

/-! ## The recursion of `included_features` -/

/-- What a completed recursion yields are the descriptors of the included features, all of
which exist. -/
theorem of_includedFeaturesWithin_ok {depth : ℕ} {u : String} {l : List FeatureDescriptor}
    (h : includedFeaturesWithin allFeatures depth (describe allFeatures u) = .ok l) :
    (∀ v, Implies allFeatures u v → v ∈ allFeatures) ∧
      ∀ d, d ∈ l ↔ ∃ v, Implies allFeatures u v ∧ d = describe allFeatures v := by
  induction depth generalizing u l with
  | zero => cases h
  | succ depth ih =>
    obtain ⟨hall, hmem⟩ := of_gather_ok h
    have hstep : ∀ w ∈ allFeatures.includes u, w ∈ allFeatures ∧ ∃ below,
        includedFeaturesWithin allFeatures depth (describe allFeatures w) = .ok below := by
      intro w hw
      obtain ⟨ys, hys⟩ := hall w hw
      cases hf : featureByName allFeatures w with
      | error e => simp [hf] at hys
      | ok f =>
        obtain ⟨hwmem, rfl⟩ := featureByName_ok_iff.1 hf
        cases hbelow : includedFeaturesWithin allFeatures depth (describe allFeatures w) with
        | error e => simp [hf, hbelow] at hys
        | ok below => exact ⟨hwmem, below, rfl⟩
    have himplies : ∀ v, Implies allFeatures u v ↔ ∃ w ∈ allFeatures.includes u,
        v = w ∨ Implies allFeatures w v := by
      intro v
      unfold Implies
      rw [TransGen.head'_iff]
      simp only [reflTransGen_iff_eq_or_transGen]
    constructor
    · intro v hv
      obtain ⟨w, hw, hwv⟩ := (himplies v).1 hv
      obtain ⟨hwmem, below, hbelow⟩ := hstep w hw
      rcases hwv with rfl | hwv
      · exact hwmem
      · exact (ih hbelow).1 v hwv
    · intro d
      rw [hmem]
      constructor
      · rintro ⟨w, hw, ys, hys, hd⟩
        obtain ⟨hwmem, below, hbelow⟩ := hstep w hw
        simp only [featureByName_ok_iff.2 ⟨hwmem, rfl⟩, hbelow, Except.ok.injEq] at hys
        rw [← hys, List.mem_append, List.mem_singleton, (ih hbelow).2] at hd
        rcases hd with ⟨v, hv, rfl⟩ | rfl
        · exact ⟨v, (himplies v).2 ⟨w, hw, Or.inr hv⟩, rfl⟩
        · exact ⟨w, (himplies w).2 ⟨w, hw, Or.inl rfl⟩, rfl⟩
      · rintro ⟨v, hv, rfl⟩
        obtain ⟨w, hw, hwv⟩ := (himplies v).1 hv
        obtain ⟨hwmem, below, hbelow⟩ := hstep w hw
        refine ⟨w, hw, below ++ [describe allFeatures w], ?_, ?_⟩
        · simp only [featureByName_ok_iff.2 ⟨hwmem, rfl⟩, hbelow]
        · rw [List.mem_append, List.mem_singleton, (ih hbelow).2]
          rcases hwv with rfl | hwv
          · exact Or.inr rfl
          · exact Or.inl ⟨v, hwv, rfl⟩

open Classical in
/-- Without cycles the recursion ends at a depth of the number of included features. -/
theorem includedFeaturesWithin_ok (hac : allFeatures.Acyclic) {depth : ℕ} {u : String}
    (hres : ∀ v, Implies allFeatures u v → v ∈ allFeatures)
    (hdepth : (allFeatures.keys.toFinset.filter (Implies allFeatures u)).card < depth) :
    ∃ l, includedFeaturesWithin allFeatures depth (describe allFeatures u) = .ok l := by
  induction depth generalizing u with
  | zero => omega
  | succ depth ih =>
    refine gather_ok fun w hw => ?_
    have huw : Implies allFeatures u w := TransGen.single hw
    have hwmem := hres w huw
    have hsub : allFeatures.keys.toFinset.filter (Implies allFeatures w) ⊂
        allFeatures.keys.toFinset.filter (Implies allFeatures u) := by
      refine Finset.ssubset_iff_subset_ne.2 ⟨?_, fun heq => ?_⟩
      · intro v hv
        obtain ⟨hv, hwv⟩ := Finset.mem_filter.1 hv
        exact Finset.mem_filter.2 ⟨hv, TransGen.trans huw hwv⟩
      · have hmem : w ∈ allFeatures.keys.toFinset.filter (Implies allFeatures u) :=
          Finset.mem_filter.2 ⟨List.mem_toFinset.2 (AList.mem_keys.1 hwmem), huw⟩
        rw [← heq] at hmem
        exact hac w (Finset.mem_filter.1 hmem).2
    have hcard := Finset.card_lt_card hsub
    obtain ⟨below, hbelow⟩ := ih (fun v hv => hres v (TransGen.trans huw hv)) (by omega)
    refine ⟨below ++ [describe allFeatures w], ?_⟩
    rw [featureByName_ok_iff.2 ⟨hwmem, rfl⟩]
    simp only [hbelow]

/-- Without cycles and dangling names `included_features` comes to its end. -/
theorem includedFeatures_ok (hac : allFeatures.Acyclic) {u : String}
    (hres : ∀ v, Implies allFeatures u v → v ∈ allFeatures) :
    ∃ l, includedFeatures allFeatures (describe allFeatures u) = .ok l := by
  classical
  refine includedFeaturesWithin_ok hac hres (Nat.lt_succ_of_le ?_)
  exact (Finset.card_le_card (Finset.filter_subset _ _)).trans (List.toFinset_card_le _)

/-- What a list of descriptors includes. -/
theorem of_gather_includedFeatures {us : List String} {found included : List FeatureDescriptor}
    (hfound : ∀ d, d ∈ found ↔ ∃ u ∈ us, d = describe allFeatures u)
    (h : gather (includedFeatures allFeatures) found = .ok included) :
    (∀ u ∈ us, ∀ v, Implies allFeatures u v → v ∈ allFeatures) ∧
      ∀ d, d ∈ included ↔ ∃ u ∈ us, ∃ v, Implies allFeatures u v ∧ d = describe allFeatures v := by
  obtain ⟨hall, hmem⟩ := of_gather_ok h
  have hok : ∀ u ∈ us, ∃ l, includedFeatures allFeatures (describe allFeatures u) = .ok l :=
    fun u hu => hall _ ((hfound _).2 ⟨u, hu, rfl⟩)
  constructor
  · intro u hu
    obtain ⟨l, hl⟩ := hok u hu
    exact (of_includedFeaturesWithin_ok hl).1
  · intro d
    rw [hmem]
    constructor
    · rintro ⟨_, hx, l, hl, hd⟩
      obtain ⟨u, hu, rfl⟩ := (hfound _).1 hx
      exact ⟨u, hu, ((of_includedFeaturesWithin_ok hl).2 d).1 hd⟩
    · rintro ⟨u, hu, hd⟩
      obtain ⟨l, hl⟩ := hok u hu
      exact ⟨_, (hfound _).2 ⟨u, hu, rfl⟩, l, hl, ((of_includedFeaturesWithin_ok hl).2 d).2 hd⟩

theorem gather_includedFeatures_ok (hac : allFeatures.Acyclic) {us : List String}
    {found : List FeatureDescriptor} (hfound : ∀ d, d ∈ found ↔ ∃ u ∈ us, d = describe allFeatures u)
    (hres : ∀ u ∈ us, ∀ v, Implies allFeatures u v → v ∈ allFeatures) :
    ∃ included, gather (includedFeatures allFeatures) found = .ok included := by
  refine gather_ok fun d hd => ?_
  obtain ⟨u, hu, rfl⟩ := (hfound d).1 hd
  exact includedFeatures_ok hac (hres u hu)

/-! ## `normalised_modifiers` -/

/-- `v` is a modifier, or is included by the platform or by a modifier. -/
def InClosure (allFeatures : FeatureSet) (platform : String) (modifiers : List String)
    (v : String) : Prop :=
  v ∈ modifiers ∨ ∃ u ∈ platform :: modifiers, Implies allFeatures u v

variable {orders : SetOrders} {upper : String → String} {platform : String}
  {modifiers : List String}

theorem of_normalisedModifiers_ok {l : List String}
    (h : normalisedModifiers orders upper allFeatures platform modifiers = .ok l) :
    Resolves allFeatures (platform :: modifiers) ∧
      ∃ names : Finset String, (∀ v, v ∈ names ↔ InClosure allFeatures platform modifiers v) ∧
        l = sortOn upper (orders.names.list names) := by
  simp only [normalisedModifiers, bind_ok_iff] at h
  obtain ⟨_, hp, found, hfound, included, hincluded, ofPlatform, hofPlatform, hl⟩ := h
  obtain ⟨hpmem, rfl⟩ := featureByName_ok_iff.1 hp
  have hmem := featuresByName_ok_iff.1 ⟨found, hfound⟩
  have hmods := mem_featuresByName hfound
  obtain ⟨hresP, hmemP⟩ := of_includedFeaturesWithin_ok hofPlatform
  obtain ⟨hresM, hmemM⟩ := of_gather_includedFeatures
    (fun d => by rw [orders.descriptors.mem_list, List.mem_toFinset, hmods]) hincluded
  refine ⟨?_, _, fun v => ?_, (Except.ok.inj hl).symm⟩
  · intro u hu
    rcases List.mem_cons.1 hu with rfl | hu
    · exact ⟨hpmem, hresP⟩
    · exact ⟨hmem u hu, hresM u hu⟩
  · simp only [Finset.mem_union, Finset.mem_image, List.mem_toFinset, List.mem_map, hmods, hmemP,
      hmemM, InClosure, List.mem_cons, or_assoc]
    constructor
    · rintro (⟨_, ⟨u, hu, rfl⟩, rfl⟩ | ⟨_, ⟨u, hu, w, huw, rfl⟩, rfl⟩ | ⟨_, ⟨w, hw, rfl⟩, rfl⟩)
      · exact Or.inl hu
      · exact Or.inr ⟨u, Or.inr hu, huw⟩
      · exact Or.inr ⟨platform, Or.inl rfl, hw⟩
    · rintro (hv | ⟨u, rfl | hu, huv⟩)
      · exact Or.inl ⟨_, ⟨v, hv, rfl⟩, rfl⟩
      · exact Or.inr (Or.inr ⟨_, ⟨v, huv, rfl⟩, rfl⟩)
      · exact Or.inr (Or.inl ⟨_, ⟨u, hu, v, huv, rfl⟩, rfl⟩)

/-- Without cycles `normalised_modifiers` succeeds exactly for features whose includes
exist, and returns the closure, sorted. -/
theorem normalisedModifiers_ok_iff (hac : allFeatures.Acyclic) {l : List String} :
    normalisedModifiers orders upper allFeatures platform modifiers = .ok l ↔
      Resolves allFeatures (platform :: modifiers) ∧
        ∃ names : Finset String, (∀ v, v ∈ names ↔ InClosure allFeatures platform modifiers v) ∧
          l = sortOn upper (orders.names.list names) := by
  refine ⟨of_normalisedModifiers_ok, ?_⟩
  rintro ⟨hres, names, hnames, rfl⟩
  obtain ⟨hpmem, hresP⟩ := hres platform (List.mem_cons_self ..)
  have hresM : Resolves allFeatures modifiers := fun u hu => hres u (List.mem_cons_of_mem _ hu)
  obtain ⟨found, hfound⟩ := featuresByName_ok_iff.2 fun u hu => (hresM u hu).1
  have hlisted : ∀ d, d ∈ orders.descriptors.list found.toFinset ↔
      ∃ u ∈ modifiers, d = describe allFeatures u := fun d => by
    rw [orders.descriptors.mem_list, List.mem_toFinset, mem_featuresByName hfound]
  obtain ⟨included, hincluded⟩ := gather_includedFeatures_ok hac hlisted
    fun u hu => (hresM u hu).2
  obtain ⟨ofPlatform, hofPlatform⟩ := includedFeatures_ok hac hresP
  have hok : ∃ l, normalisedModifiers orders upper allFeatures platform modifiers = .ok l := by
    simp only [normalisedModifiers, bind_ok_iff]
    exact ⟨_, _, featureByName_ok_iff.2 ⟨hpmem, rfl⟩, found, hfound, included, hincluded,
      ofPlatform, hofPlatform, rfl⟩
  obtain ⟨l, hl⟩ := hok
  obtain ⟨-, names', hnames', rfl⟩ := of_normalisedModifiers_ok hl
  have heq : names' = names := by
    ext v
    rw [hnames, hnames']
  rw [hl, heq]

/-! ## `canonicalised_features` -/

/-- A modifier that no modifier includes. -/
def IsMaximal (allFeatures : FeatureSet) (modifiers : List String) (v : String) : Prop :=
  v ∈ modifiers ∧ ∀ m ∈ modifiers, ¬ Implies allFeatures m v

/-- The first subtraction takes nothing away: no descriptor equals a generator or a name. -/
theorem filter_notMem_item (minimal : Finset FeatureDescriptor) (f : FeatureDescriptor)
    (names : List String) :
    (minimal.filter fun m => Item.descriptor m ∉ Item.includedFeatures f :: names.map Item.name) =
      minimal := by
  refine Finset.filter_true_of_mem fun m _ => ?_
  simp

theorem of_canonicalisedFeatures_ok {l : List FeatureDescriptor}
    (h : canonicalisedFeatures orders upper allFeatures platform modifiers = .ok l) :
    platform ∈ allFeatures ∧ Resolves allFeatures modifiers ∧
      ∃ names : Finset String, (∀ v, v ∈ names ↔ IsMaximal allFeatures modifiers v) ∧
        l = describe allFeatures platform :: sortOn (fun m => upper m.name)
          (orders.descriptors.list (names.image (describe allFeatures))) := by
  classical
  simp only [canonicalisedFeatures, bind_ok_iff, filter_notMem_item] at h
  obtain ⟨_, hp, found, hfound, found', hfound', included, hincluded, hl⟩ := h
  obtain ⟨hpmem, rfl⟩ := featureByName_ok_iff.1 hp
  have hmem := featuresByName_ok_iff.1 ⟨found, hfound⟩
  obtain ⟨hresM, hmemM⟩ := of_gather_includedFeatures (mem_featuresByName hfound') hincluded
  refine ⟨hpmem, fun u hu => ⟨hmem u hu, hresM u hu⟩,
    modifiers.toFinset.filter (IsMaximal allFeatures modifiers), fun v => ?_, ?_⟩
  · rw [Finset.mem_filter, List.mem_toFinset]
    exact ⟨And.right, fun hv => ⟨hv.1, hv⟩⟩
  · have hset : found.toFinset \ included.toFinset =
        (modifiers.toFinset.filter (IsMaximal allFeatures modifiers)).image
          (describe allFeatures) := by
      ext d
      simp only [Finset.mem_sdiff, List.mem_toFinset, mem_featuresByName hfound, hmemM,
        Finset.mem_image, Finset.mem_filter]
      constructor
      · rintro ⟨⟨u, hu, rfl⟩, hnot⟩
        exact ⟨u, ⟨hu, hu, fun m hm hmu => hnot ⟨m, hm, u, hmu, rfl⟩⟩, rfl⟩
      · rintro ⟨u, ⟨hu, -, hmax⟩, rfl⟩
        refine ⟨⟨u, hu, rfl⟩, ?_⟩
        rintro ⟨m, hm, w, hmw, heq⟩
        obtain rfl := describe_injective heq
        exact hmax m hm hmw
    rw [← hset]
    exact (Except.ok.inj hl).symm

/-- Without cycles `canonicalised_features` succeeds exactly for an existing platform and
modifiers whose includes exist, and returns the platform and the maximal modifiers. -/
theorem canonicalisedFeatures_ok_iff (hac : allFeatures.Acyclic) {l : List FeatureDescriptor} :
    canonicalisedFeatures orders upper allFeatures platform modifiers = .ok l ↔
      platform ∈ allFeatures ∧ Resolves allFeatures modifiers ∧
        ∃ names : Finset String, (∀ v, v ∈ names ↔ IsMaximal allFeatures modifiers v) ∧
          l = describe allFeatures platform :: sortOn (fun m => upper m.name)
            (orders.descriptors.list (names.image (describe allFeatures))) := by
  refine ⟨of_canonicalisedFeatures_ok, ?_⟩
  rintro ⟨hpmem, hres, names, hnames, rfl⟩
  obtain ⟨found, hfound⟩ := featuresByName_ok_iff.2 fun u hu => (hres u hu).1
  obtain ⟨included, hincluded⟩ := gather_includedFeatures_ok hac (mem_featuresByName hfound)
    fun u hu => (hres u hu).2
  have hok : ∃ l, canonicalisedFeatures orders upper allFeatures platform modifiers = .ok l := by
    simp only [canonicalisedFeatures, bind_ok_iff]
    exact ⟨_, _, featureByName_ok_iff.2 ⟨hpmem, rfl⟩, found, hfound, found, hfound, included,
      hincluded, rfl⟩
  obtain ⟨l, hl⟩ := hok
  obtain ⟨-, -, names', hnames', rfl⟩ := of_canonicalisedFeatures_ok hl
  have heq : names' = names := by
    ext v
    rw [hnames, hnames']
  rw [hl, heq]

/-! ## The key of a manifest -/

theorem key_ok_iff {orders : SetOrders} {r : ReleaseIdentifier} {key : String} :
    r.canonicalReleaseManifestKey orders upper allFeatures = .ok key ↔
      ∃ suffix, r.canonicalReleaseManifestKeySuffix orders upper allFeatures = .ok suffix ∧
        key = manifestKeyPrefix ++ "/" ++ suffix := by
  simp only [ReleaseIdentifier.canonicalReleaseManifestKey, bind_ok_iff]
  constructor
  · rintro ⟨suffix, hs, hk⟩
    exact ⟨suffix, hs, (Except.ok.inj hk).symm⟩
  · rintro ⟨suffix, hs, rfl⟩
    exact ⟨suffix, hs, rfl⟩

end Glci
