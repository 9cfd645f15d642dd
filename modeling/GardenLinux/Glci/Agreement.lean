import GardenLinux.Feat.Cname
import GardenLinux.Glci.Model

/-!
# The two feature closures

`ci/glci/model.py` and `bin/garden-feat.go` close and minimise lists of features
independently of each other; the one names the release, the other builds it.

What is proved here:

* `implies_iff` — transitive inclusion in the terms of the inclusion graph;
* `normalisedModifiers_agrees` — the two closures are the same set;
* `canonicalisedFeatures_agrees_iff` — exactly when the canonical features are the
  modifiers that nothing implies, and are what `reduceFeatures` returns.
-/

namespace Glci

open Relation GardenFeat

variable {allFeatures : FeatureSet}

/-! ## Inclusion in both -/

theorem edge_iff {u v : String} :
    (allFeatures.inclusion ∅).Edge u v ↔ v ∈ allFeatures.includes u := by
  simp [Guarded.Edge]

theorem implies_iff {u v : String} :
    TransGen (allFeatures.inclusion ∅).Edge u v ↔ Implies allFeatures u v := by
  have hrel : (allFeatures.inclusion ∅).Edge = fun a b => b ∈ allFeatures.includes a := by
    funext a b
    exact propext edge_iff
  rw [hrel]
  rfl

theorem reach_iff {u v : String} :
    ReflTransGen (allFeatures.inclusion ∅).Edge u v ↔ v = u ∨ Implies allFeatures u v := by
  rw [reflTransGen_iff_eq_or_transGen, implies_iff]

theorem reachedFrom_iff {names : List String} {v : String} :
    (allFeatures.inclusion ∅).ReachedFrom names v ↔
      v ∈ names ∨ ∃ u ∈ names, Implies allFeatures u v := by
  simp only [Guarded.ReachedFrom, reach_iff, guarded_ok, Finset.notMem_empty, not_false_eq_true,
    true_and]
  constructor
  · rintro ⟨u, hu, rfl | huv⟩
    · exact Or.inl hu
    · exact Or.inr ⟨u, hu, huv⟩
  · rintro (hv | ⟨u, hu, huv⟩)
    · exact ⟨v, hv, Or.inl rfl⟩
    · exact ⟨u, hu, Or.inr huv⟩

theorem below_iff (hac : allFeatures.Acyclic) {u v : String} :
    (allFeatures.inclusion ∅).Below u v ↔ Implies allFeatures u v := by
  rw [Guarded.Below, reach_iff]
  constructor
  · rintro ⟨hne, heq | huv⟩
    · exact absurd heq hne
    · exact huv
  · intro huv
    refine ⟨?_, Or.inr huv⟩
    rintro rfl
    exact hac v huv

theorem covered_iff (hac : allFeatures.Acyclic) {names : List String} {v : String} :
    (allFeatures.inclusion ∅).Covered names v ↔ ∃ u ∈ names, Implies allFeatures u v := by
  simp only [Guarded.Covered, below_iff hac, guarded_ok, Finset.notMem_empty, not_false_eq_true,
    true_and]

theorem isGenerator_iff (hac : allFeatures.Acyclic) {names : List String} {v : String} :
    (allFeatures.inclusion ∅).IsGenerator names v ↔ IsMaximal allFeatures names v := by
  rw [Guarded.isGenerator_iff_not_covered, covered_iff hac, IsMaximal]
  simp

/-! ## The closure -/

variable {orders : SetOrders} {upper : String → String} {platform : String}
  {modifiers : List String}

/-- Where both succeed, the platform and its normalised modifiers are the features that
`garden-feat` expands the platform and the modifiers to. -/
theorem normalisedModifiers_agrees {normalised expanded : List String} {collectedIgn : NameSet}
    (h : normalisedModifiers orders upper allFeatures platform modifiers = .ok normalised)
    (hgo : expandFeatures allFeatures (platform :: modifiers) ∅ = .ok (expanded, collectedIgn))
    (v : String) : v = platform ∨ v ∈ normalised ↔ v ∈ expanded := by
  obtain ⟨-, names, hnames, rfl⟩ := of_normalisedModifiers_ok h
  rw [mem_of_expandFeatures hgo, reachedFrom_iff, mem_sortOn, orders.names.mem_list, hnames,
    InClosure, List.mem_cons, or_assoc]

/-- The descriptors in the order of names and include lists. -/
def SetOrders.sorted : SetOrders where
  names := .sorted
  descriptors := .sortedOn (fun d => toLex (d.name, d.includes)) fun d d' h => by
    obtain ⟨hname, hincludes⟩ := Prod.mk.inj (toLex.injective h)
    cases d
    cases d'
    exact congrArg₂ FeatureDescriptor.mk hname hincludes

/-- `str.upper` on ASCII. -/
def asciiUpper (s : String) : String :=
  String.ofList (s.toList.map Char.toUpper)

theorem normalisedModifiers_agrees_aws :
    "gardener" = "aws" ∨ "gardener" ∈ ["gardener", "server"] ↔
      "gardener" ∈ ["gardener", "server", "aws"] :=
  normalisedModifiers_agrees
    (show normalisedModifiers .sorted asciiUpper shortcutFeatures "aws" ["server"] =
      .ok ["gardener", "server"] by decide +kernel)
    (show expandFeatures shortcutFeatures ["aws", "server"] ∅ =
      .ok (["gardener", "server", "aws"], ∅) by decide +kernel) "gardener"

/-! ## The canonical features -/

/-- The canonical features are the platform and, sorted and each once, the modifiers that
neither the platform nor another modifier implies; and they are the names that
`reduceFeatures` returns for the platform and the modifiers. -/
def CanonicalAgrees (orders : SetOrders) (order : MapOrder) (upper : String → String)
    (allFeatures : FeatureSet) (platform : String) (modifiers : List String) : Prop :=
  ∃ minimal, canonicalisedFeatures orders upper allFeatures platform modifiers =
      .ok (describe allFeatures platform :: minimal) ∧
    minimal.Pairwise (fun a b => upper a.name ≤ upper b.name) ∧
    (minimal.map (·.name)).Nodup ∧
    (∀ v, v ∈ minimal.map (·.name) ↔ v ∈ modifiers ∧ ¬ Implies allFeatures platform v ∧
      ∀ m ∈ modifiers, m ≠ v → ¬ Implies allFeatures m v) ∧
    ∃ reduced, reduceFeatures order allFeatures (platform :: modifiers) ∅ = .ok reduced ∧
      ∀ v, v ∈ reduced ↔ v = platform ∨ v ∈ minimal.map (·.name)

/-- A platform and modifiers on which the two minimisations agree. -/
structure Separate (allFeatures : FeatureSet) (platform : String) (modifiers : List String) :
    Prop where
  /-- Whatever a modifier implies exists. -/
  resolves : ∀ m ∈ modifiers, ∀ v, Implies allFeatures m v → v ∈ allFeatures
  /-- A modifier that the platform implies is implied by a modifier as well. -/
  implied : ∀ m ∈ modifiers, Implies allFeatures platform m →
    ∃ m' ∈ modifiers, Implies allFeatures m' m
  /-- No modifier implies the platform. -/
  apart : ∀ m ∈ modifiers, ¬ Implies allFeatures m platform
  /-- No implied feature excludes an implied one. -/
  compatible : ∀ u v, (∃ f ∈ platform :: modifiers, Implies allFeatures f u) →
    (∃ f ∈ platform :: modifiers, Implies allFeatures f v) → v ∉ allFeatures.excludes u
  /-- The platform has a name, and so has every modifier that no modifier implies. -/
  named : platform ≠ "" ∧ ("" ∈ modifiers → ∃ m ∈ modifiers, Implies allFeatures m "")

/-- Where the empty name is implied by a modifier, the named entries imply everything. -/
theorem exists_named (hac : allFeatures.Acyclic)
    (hnamed : platform ≠ "" ∧ ("" ∈ modifiers → ∃ m ∈ modifiers, Implies allFeatures m ""))
    {u : String} (h : ∃ f ∈ platform :: modifiers, Implies allFeatures f u) :
    ∃ f ∈ (platform :: modifiers).filter (· ≠ ""), Implies allFeatures f u := by
  obtain ⟨f, hf, hfu⟩ := h
  by_cases hempty : f = ""
  · subst hempty
    have hmem : "" ∈ modifiers := (List.mem_cons.1 hf).resolve_left fun heq => hnamed.1 heq.symm
    obtain ⟨m, hm, hm'⟩ := hnamed.2 hmem
    refine ⟨m, List.mem_filter.2 ⟨List.mem_cons_of_mem _ hm, ?_⟩, TransGen.trans hm' hfu⟩
    rw [decide_eq_true_eq]
    rintro rfl
    exact hac _ hm'
  · exact ⟨f, List.mem_filter.2 ⟨hf, by simpa using hempty⟩, hfu⟩

theorem exists_of_named {u : String}
    (h : ∃ f ∈ (platform :: modifiers).filter (· ≠ ""), Implies allFeatures f u) :
    ∃ f ∈ platform :: modifiers, Implies allFeatures f u := by
  obtain ⟨f, hf, hfu⟩ := h
  exact ⟨f, (List.mem_filter.1 hf).1, hfu⟩

/-- What `reduceFeatures` returns, in terms of implied and maximal names. -/
theorem reduceFeatures_ok_iff_implies (order : MapOrder) (hac : allFeatures.Acyclic)
    {names reduced : List String} (hnames : ∀ f ∈ names, f ∈ allFeatures) :
    reduceFeatures order allFeatures names ∅ = .ok reduced ↔
      (∀ u v, (∃ f ∈ names.filter (· ≠ ""), Implies allFeatures f u) →
        (∃ f ∈ names.filter (· ≠ ""), Implies allFeatures f v) → v ∉ allFeatures.excludes u) ∧
      ∃ maximal : NameSet,
        (∀ v, v ∈ maximal ↔ IsMaximal allFeatures (names.filter (· ≠ "")) v) ∧
        reduced = order.list maximal := by
  rw [reduceFeatures_ok_iff order hac hnames]
  simp only [covered_iff hac, isGenerator_iff hac]

variable (allFeatures) in
theorem exists_maximal (names : List String) :
    ∃ maximal : Finset String, ∀ v, v ∈ maximal ↔ IsMaximal allFeatures names v := by
  classical
  refine ⟨names.toFinset.filter (IsMaximal allFeatures names), fun v => ?_⟩
  rw [Finset.mem_filter, List.mem_toFinset]
  exact ⟨And.right, fun hv => ⟨hv.1, hv⟩⟩

theorem mem_names_sortOn {names : Finset String} {v : String} :
    v ∈ (sortOn (fun m => upper m.name)
      (orders.descriptors.list (names.image (describe allFeatures)))).map (·.name) ↔
      v ∈ names := by
  simp only [List.mem_map, mem_sortOn, orders.descriptors.mem_list, Finset.mem_image]
  constructor
  · rintro ⟨_, ⟨u, hu, rfl⟩, rfl⟩
    exact hu
  · exact fun hv => ⟨_, ⟨v, hv, rfl⟩, rfl⟩

theorem nodup_names_sortOn (names : Finset String) :
    ((sortOn (fun m => upper m.name)
      (orders.descriptors.list (names.image (describe allFeatures)))).map (·.name)).Nodup := by
  refine List.Nodup.map_on ?_ ((perm_sortOn _).nodup_iff.2 (orders.descriptors.nodup _))
  intro d hd d' hd' heq
  rw [mem_sortOn, orders.descriptors.mem_list, Finset.mem_image] at hd hd'
  obtain ⟨u, -, rfl⟩ := hd
  obtain ⟨u', -, rfl⟩ := hd'
  exact congrArg (describe allFeatures) heq

/-- The maximal names of the platform and its modifiers, where the modifiers are separate
from it. -/
theorem Separate.isMaximal_iff (hac : allFeatures.Acyclic)
    (h : Separate allFeatures platform modifiers) {v : String} :
    IsMaximal allFeatures ((platform :: modifiers).filter (· ≠ "")) v ↔
      v = platform ∨ IsMaximal allFeatures modifiers v := by
  constructor
  · rintro ⟨hv, hmax⟩
    have hnone : ∀ f ∈ platform :: modifiers, ¬ Implies allFeatures f v := fun f hf hfv => by
      obtain ⟨f', hf', hfv'⟩ := exists_named hac h.named ⟨f, hf, hfv⟩
      exact hmax f' hf' hfv'
    rcases List.mem_cons.1 (List.mem_filter.1 hv).1 with rfl | hv
    · exact Or.inl rfl
    · exact Or.inr ⟨hv, fun m hm => hnone m (List.mem_cons_of_mem _ hm)⟩
  · intro hv
    have hname : v ∈ (platform :: modifiers).filter (· ≠ "") := by
      rcases hv with rfl | hv
      · exact List.mem_filter.2 ⟨List.mem_cons_self .., by simpa using h.named.1⟩
      · refine List.mem_filter.2 ⟨List.mem_cons_of_mem _ hv.1, ?_⟩
        rw [decide_eq_true_eq]
        rintro rfl
        obtain ⟨m, hm, hm'⟩ := h.named.2 hv.1
        exact hv.2 m hm hm'
    refine ⟨hname, fun f hf hfv => ?_⟩
    rcases List.mem_cons.1 (List.mem_filter.1 hf).1 with rfl | hmod
    · rcases hv with rfl | hv
      · exact hac _ hfv
      · obtain ⟨m, hm, hm'⟩ := h.implied v hv.1 hfv
        exact hv.2 m hm hm'
    · rcases hv with rfl | hv
      · exact h.apart f hmod hfv
      · exact hv.2 f hmod hfv

/-- For an acyclic set of features, the canonical features are minimal and are what
`garden-feat` reduces to exactly when platform and modifiers are separate. -/
theorem canonicalisedFeatures_agrees_iff (orders : SetOrders) (order : MapOrder)
    (upper : String → String) (hac : allFeatures.Acyclic) (hplatform : platform ∈ allFeatures)
    (hmodifiers : ∀ m ∈ modifiers, m ∈ allFeatures) :
    CanonicalAgrees orders order upper allFeatures platform modifiers ↔
      Separate allFeatures platform modifiers := by
  have hnames : ∀ f ∈ platform :: modifiers, f ∈ allFeatures :=
    List.forall_mem_cons.2 ⟨hplatform, hmodifiers⟩
  constructor
  · rintro ⟨minimal, hcan, -, -, hmem, reduced, hred, hsame⟩
    obtain ⟨-, hres, names, hmax, hl⟩ := (canonicalisedFeatures_ok_iff hac).1 hcan
    obtain rfl := (List.cons.inj hl).2
    obtain ⟨hcompat, maximal, hmaximal, rfl⟩ :=
      (reduceFeatures_ok_iff_implies order hac hnames).1 hred
    simp only [mem_names_sortOn, hmax, order.mem_list, hmaximal] at hmem hsame
    have hplat := (hsame platform).2 (Or.inl rfl)
    have hnamed : platform ≠ "" ∧
        ("" ∈ modifiers → ∃ m ∈ modifiers, Implies allFeatures m "") := by
      refine ⟨by simpa using (List.mem_filter.1 hplat.1).2, fun hempty => ?_⟩
      by_contra hno
      push Not at hno
      simpa using (List.mem_filter.1 ((hsame "").2 (Or.inr ⟨hempty, hno⟩)).1).2
    refine ⟨fun m hm => (hres m hm).2, fun m hm hpm => ?_, fun m hm hmp => ?_, ?_, hnamed⟩
    · by_contra hno
      push Not at hno
      exact ((hmem m).1 ⟨hm, hno⟩).2.1 hpm
    · obtain ⟨f, hf, hfp⟩ := exists_named hac hnamed ⟨m, List.mem_cons_of_mem _ hm, hmp⟩
      exact hplat.2 f hf hfp
    · exact fun u v hu hv => hcompat u v (exists_named hac hnamed hu) (exists_named hac hnamed hv)
  · intro hsep
    obtain ⟨names, hmax⟩ := exists_maximal allFeatures modifiers
    obtain ⟨maximal, hmaximal⟩ :=
      exists_maximal allFeatures ((platform :: modifiers).filter (· ≠ ""))
    refine ⟨_, (canonicalisedFeatures_ok_iff hac).2 ⟨hplatform,
      fun m hm => ⟨hmodifiers m hm, hsep.resolves m hm⟩, names, hmax, rfl⟩,
      pairwise_sortOn _, nodup_names_sortOn names, fun v => ?_, order.list maximal,
      (reduceFeatures_ok_iff_implies order hac hnames).2 ⟨fun u v hu hv =>
        hsep.compatible u v (exists_of_named hu) (exists_of_named hv), maximal, hmaximal, rfl⟩,
      fun v => ?_⟩
    · rw [mem_names_sortOn, hmax]
      constructor
      · rintro ⟨hv, hno⟩
        refine ⟨hv, fun hpv => ?_, fun m hm _ => hno m hm⟩
        obtain ⟨m, hm, hmv⟩ := hsep.implied v hv hpv
        exact hno m hm hmv
      · rintro ⟨hv, -, hno⟩
        refine ⟨hv, fun m hm hmv => hno m hm ?_ hmv⟩
        rintro rfl
        exact hac _ hmv
    · rw [order.mem_list, hmaximal, mem_names_sortOn, hmax, hsep.isMaximal_iff hac]

/-- A platform that includes an element. -/
def platformWithElement : FeatureSet := FeatureSet.ofEntries
  [("aws", ⟨"platform", ["server"], []⟩), ("server", ⟨"element", [], []⟩),
    ("gardener", ⟨"element", ["server"], []⟩)]

theorem platformWithElement_acyclic : platformWithElement.Acyclic :=
  FeatureSet.acyclic_of_rank (fun f => if f = "server" then 0 else 1) (by decide +kernel)

theorem canonicalisedFeatures_agrees_iff_gardener :
    CanonicalAgrees .sorted .sorted asciiUpper platformWithElement "aws" ["server", "gardener"] ↔
      Separate platformWithElement "aws" ["server", "gardener"] :=
  canonicalisedFeatures_agrees_iff .sorted .sorted asciiUpper platformWithElement_acyclic
    (by decide +kernel) (by decide +kernel)

/-- A modifier that the platform includes stays among the canonical features. -/
theorem canonicalisedFeatures_keeps_server :
    ¬ ∀ (orders : SetOrders) (order : MapOrder) (upper : String → String)
        (allFeatures : FeatureSet) (platform : String) (modifiers : List String),
      allFeatures.Acyclic → platform ∈ allFeatures → (∀ m ∈ modifiers, m ∈ allFeatures) →
      platform ∉ modifiers →
      CanonicalAgrees orders order upper allFeatures platform modifiers := by
  intro h
  obtain ⟨minimal, hcan, -, -, hmem, -⟩ := h .sorted .sorted asciiUpper platformWithElement "aws"
    ["server"] platformWithElement_acyclic (by decide +kernel) (by decide +kernel)
    (by decide +kernel)
  have hkeeps : canonicalisedFeatures .sorted asciiUpper platformWithElement "aws" ["server"] =
      .ok [⟨"aws", ["server"]⟩, ⟨"server", []⟩] := by decide +kernel
  rw [hkeeps] at hcan
  obtain ⟨-, rfl⟩ := List.cons.inj (Except.ok.inj hcan)
  exact ((hmem "server").1 (by simp)).2.1 (TransGen.single (by decide +kernel))

end Glci
