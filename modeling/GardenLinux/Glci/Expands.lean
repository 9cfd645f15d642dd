import GardenLinux.Glci.OwnKey

/-!
# Features that expand

With a cycle in the inclusions, or a name that is no feature, the recursion of `included_features`
fails for the features that lead there, and with it whatever is computed from them.

What is proved here:

* `canonicalisedFeatures_ok_iff_expands` and `normalisedModifiers_ok_iff_expands` — when the two
  functions succeed, for any features;
* `Expands.inClosure` — what a list that expands includes expands as well.
-/

namespace Glci

open Relation GardenFeat

variable {allFeatures : FeatureSet} {upper : String → String} {orders : SetOrders}
  {platform : String} {modifiers : List String}

/-- The features exist, and `included_features` comes to its end for each. -/
def Expands (allFeatures : FeatureSet) (names : List String) : Prop :=
  ∀ u ∈ names, u ∈ allFeatures ∧
    ∃ l, includedFeatures allFeatures (describe allFeatures u) = .ok l

/-! ## When the functions succeed -/

theorem exists_gather_includedFeatures {us : List String} {found : List FeatureDescriptor}
    (hfound : ∀ d, d ∈ found ↔ ∃ u ∈ us, d = describe allFeatures u)
    (h : Expands allFeatures us) :
    ∃ included, gather (includedFeatures allFeatures) found = .ok included := by
  refine gather_ok ?_
  intro d hd
  obtain ⟨u, hu, rfl⟩ := (hfound d).1 hd
  exact (h u hu).2

theorem expands_of_gather {us : List String} {found included : List FeatureDescriptor}
    (hfound : ∀ d, d ∈ found ↔ ∃ u ∈ us, d = describe allFeatures u)
    (hus : ∀ u ∈ us, u ∈ allFeatures)
    (h : gather (includedFeatures allFeatures) found = .ok included) : Expands allFeatures us := by
  intro u hu
  exact ⟨hus u hu, (of_gather_ok h).1 _ ((hfound _).2 ⟨u, hu, rfl⟩)⟩

theorem canonicalisedFeatures_ok_iff_expands :
    (∃ l, canonicalisedFeatures orders upper allFeatures platform modifiers = .ok l) ↔
      platform ∈ allFeatures ∧ Expands allFeatures modifiers := by
  constructor
  · rintro ⟨l, h⟩
    simp only [canonicalisedFeatures, bind_ok_iff] at h
    obtain ⟨_, hp, found, hfound, found', hfound', included, hincluded, -⟩ := h
    refine ⟨(featureByName_ok_iff.1 hp).1, ?_⟩
    exact expands_of_gather (mem_featuresByName hfound') (featuresByName_ok_iff.1 ⟨_, hfound⟩)
      hincluded
  · rintro ⟨hp, h⟩
    obtain ⟨found, hfound⟩ := featuresByName_ok_iff.2 fun u hu => (h u hu).1
    obtain ⟨included, hincluded⟩ := exists_gather_includedFeatures (mem_featuresByName hfound) h
    simp only [canonicalisedFeatures, bind_ok_iff]
    exact ⟨_, _, featureByName_ok_iff.2 ⟨hp, rfl⟩, found, hfound, found, hfound, included,
      hincluded, rfl⟩

theorem normalisedModifiers_ok_iff_expands :
    (∃ l, normalisedModifiers orders upper allFeatures platform modifiers = .ok l) ↔
      Expands allFeatures (platform :: modifiers) := by
  have hlisted : ∀ found, featuresByName allFeatures modifiers = .ok found →
      ∀ d, d ∈ orders.descriptors.list found.toFinset ↔
        ∃ u ∈ modifiers, d = describe allFeatures u := by
    intro found hfound d
    rw [orders.descriptors.mem_list, List.mem_toFinset, mem_featuresByName hfound]
  constructor
  · rintro ⟨l, h⟩
    simp only [normalisedModifiers, bind_ok_iff] at h
    obtain ⟨_, hp, found, hfound, included, hincluded, ofPlatform, hofPlatform, -⟩ := h
    obtain ⟨hpmem, rfl⟩ := featureByName_ok_iff.1 hp
    have hmodifiers := expands_of_gather (hlisted found hfound)
      (featuresByName_ok_iff.1 ⟨_, hfound⟩) hincluded
    exact List.forall_mem_cons.2 ⟨⟨hpmem, ofPlatform, hofPlatform⟩, hmodifiers⟩
  · intro h
    obtain ⟨⟨hp, ofPlatform, hofPlatform⟩, hmodifiers⟩ := List.forall_mem_cons.1 h
    obtain ⟨found, hfound⟩ := featuresByName_ok_iff.2 fun u hu => (hmodifiers u hu).1
    obtain ⟨included, hincluded⟩ :=
      exists_gather_includedFeatures (hlisted found hfound) hmodifiers
    simp only [normalisedModifiers, bind_ok_iff]
    exact ⟨_, _, featureByName_ok_iff.2 ⟨hp, rfl⟩, found, hfound, included, hincluded,
      ofPlatform, hofPlatform, rfl⟩

/-- The names that all orders of the sets list. -/
theorem exists_normalised (h : Expands allFeatures (platform :: modifiers)) :
    ∃ names : Finset String, (∀ v, v ∈ names ↔ InClosure allFeatures platform modifiers v) ∧
      ∀ (orders : SetOrders) (upper : String → String),
        normalisedModifiers orders upper allFeatures platform modifiers =
          .ok (sortOn upper (orders.names.list names)) := by
  have hok : ∀ (orders : SetOrders) (upper : String → String), ∃ l,
      normalisedModifiers orders upper allFeatures platform modifiers = .ok l :=
    fun _ _ => normalisedModifiers_ok_iff_expands.2 h
  obtain ⟨l, hl⟩ := hok .sorted id
  obtain ⟨-, names, hnames, -⟩ := of_normalisedModifiers_ok hl
  refine ⟨names, hnames, ?_⟩
  intro orders upper
  obtain ⟨l', hl'⟩ := hok orders upper
  obtain ⟨-, names', hnames', rfl⟩ := of_normalisedModifiers_ok hl'
  obtain rfl : names' = names := by
    ext v
    rw [hnames, hnames']
  exact hl'

theorem normalisedReleaseIdentifier_eq {r : ReleaseIdentifier} {l : List String}
    (h : normalisedModifiers orders upper allFeatures r.platform r.modifiers = .ok l) :
    normalisedReleaseIdentifier orders upper allFeatures r = .ok { r with modifiers := l } := by
  simp only [normalisedReleaseIdentifier, h, bind, Except.bind, pure, Except.pure]

/-! ## What is included expands -/

theorem gather_mono {α β : Type} {f g : α → Except ModelError (List β)} {xs : List α} {zs : List β}
    (hfg : ∀ x ∈ xs, ∀ ys, f x = .ok ys → g x = .ok ys) (h : gather f xs = .ok zs) :
    gather g xs = .ok zs := by
  induction xs generalizing zs with
  | nil => exact h
  | cons x xs ih =>
    rw [List.forall_mem_cons] at hfg
    obtain ⟨ys, rest, hx, hxs, rfl⟩ := gather_cons_ok_iff.1 h
    exact gather_cons_ok_iff.2 ⟨ys, rest, hfg.1 ys hx, ih hfg.2 hxs, rfl⟩

/-- A recursion that ends does so with more depth as well. -/
theorem includedFeaturesWithin_succ {depth : ℕ} {feature : FeatureDescriptor}
    {l : List FeatureDescriptor} (h : includedFeaturesWithin allFeatures depth feature = .ok l) :
    includedFeaturesWithin allFeatures (depth + 1) feature = .ok l := by
  induction depth generalizing feature l with
  | zero => cases h
  | succ depth ih =>
    refine gather_mono ?_ h
    intro name _ ys hname
    cases hf : featureByName allFeatures name with
    | error e => simp [hf] at hname
    | ok included =>
      cases hbelow : includedFeaturesWithin allFeatures depth included with
      | error e => simp [hf, hbelow] at hname
      | ok below =>
        simp only [hf, hbelow] at hname
        simp only [ih hbelow, hname]

theorem Expands.of_mem_includes {u v : String} (h : Expands allFeatures [u])
    (hv : v ∈ allFeatures.includes u) : Expands allFeatures [v] := by
  obtain ⟨l, hl⟩ := (h u (List.mem_singleton_self u)).2
  obtain ⟨ys, hys⟩ := (of_gather_ok hl).1 v hv
  rw [Expands, List.forall_mem_singleton]
  cases hf : featureByName allFeatures v with
  | error e => simp [hf] at hys
  | ok f =>
    obtain ⟨hmem, rfl⟩ := featureByName_ok_iff.1 hf
    cases hbelow : includedFeaturesWithin allFeatures allFeatures.keys.length
        (describe allFeatures v) with
    | error e => simp [hf, hbelow] at hys
    | ok below => exact ⟨hmem, below, includedFeaturesWithin_succ hbelow⟩

theorem Expands.of_implies {u v : String} (h : Expands allFeatures [u])
    (huv : Implies allFeatures u v) : Expands allFeatures [v] := by
  induction huv with
  | single hv => exact h.of_mem_includes hv
  | tail _ hv ih => exact ih.of_mem_includes hv

/-- What is in the closure of features that expand expands as well. -/
theorem Expands.inClosure {v : String} (h : Expands allFeatures (platform :: modifiers))
    (hv : InClosure allFeatures platform modifiers v) : Expands allFeatures [v] := by
  obtain hv | ⟨u, hu, huv⟩ := hv
  · exact List.forall_mem_singleton.2 (h v (List.mem_cons_of_mem _ hv))
  · exact Expands.of_implies (List.forall_mem_singleton.2 (h u hu)) huv

end Glci
