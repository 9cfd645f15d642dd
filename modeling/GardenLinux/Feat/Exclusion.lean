import GardenLinux.Feat.Cname

/-!
# Exclusion

`expandFeatures` of `bin/garden-feat.go` collects what the features exclude while it walks
through them, and looks at it when it is through with the whole request.

What is proved here:

* `excluded_or_ok` — without cycles an expansion succeeds or reports an excluded feature;
* `exclusion_decided` — whether a feature is excluded is decided by the closure of the
  request, in whatever order the request stands, and by nothing else.
-/

namespace GardenFeat

variable {allFeatures : FeatureSet} {ignored : NameSet}

/-- The expansion fails with "has been excluded by another feature". -/
def ReportsExcluded (allFeatures : FeatureSet) (ignored : NameSet) (features : List String) :
    Prop :=
  ∃ f, expandFeatures allFeatures features ignored = .error (.excluded f)

/-- A feature of the closure excludes a feature of the closure. -/
def Clashes (allFeatures : FeatureSet) (ignored : NameSet) (features : List String) : Prop :=
  ∃ u v, (allFeatures.inclusion ignored).ReachedFrom features u ∧
    (allFeatures.inclusion ignored).ReachedFrom features v ∧ v ∈ allFeatures.excludes u

/-- Two feature sets have the same features with the same include lists. -/
structure SameIncludes (allFeatures allFeatures' : FeatureSet) : Prop where
  mem : ∀ f, f ∈ allFeatures' ↔ f ∈ allFeatures
  includes : allFeatures'.includes = allFeatures.includes

theorem excluded_or_ok (hac : allFeatures.Acyclic) {features : List String}
    (hfs : ∀ f ∈ features, f ∈ allFeatures) :
    ReportsExcluded allFeatures ignored features ∨
      ∃ r, expandFeatures allFeatures features ignored = .ok r := by
  rcases sweep_or_loops_features ignored ∅ hfs with ⟨seen, tr, hsweep⟩ | ⟨w, hloops⟩
  · rw [ReportsExcluded, expandFeatures, expandLoop_of_sweep hsweep hfs]
    simp only
    split
    · next f _ => exact Or.inl ⟨f, rfl⟩
    · exact Or.inr ⟨_, rfl⟩
  · exact absurd hloops.hasCycle ((hac.inclusion ignored).not_hasCycleFrom _)

theorem reportsExcluded_iff (hac : allFeatures.Acyclic) {features : List String}
    (hfs : ∀ f ∈ features, f ∈ allFeatures) :
    ReportsExcluded allFeatures ignored features ↔ Clashes allFeatures ignored features := by
  constructor
  · rintro ⟨f, hf⟩
    by_contra hclash
    obtain ⟨expanded, collectedIgn, hok⟩ := exists_expansion hac hfs fun u v hu hv hexcl =>
      hclash ⟨u, v, hu, hv, hexcl⟩
    rw [hf] at hok
    cases hok
  · rintro ⟨u, v, hu, hv, hexcl⟩
    rcases excluded_or_ok hac hfs with hreports | ⟨⟨expanded, collectedIgn⟩, hok⟩
    · exact hreports
    · exact absurd hexcl (compatible_of_expandFeatures hok u v hu hv)

theorem clashes_congr {features features' : List String} (h : ∀ f, f ∈ features' ↔ f ∈ features) :
    Clashes allFeatures ignored features' ↔ Clashes allFeatures ignored features := by
  simp only [Clashes, Guarded.reachedFrom_congr h]

theorem SameIncludes.inclusion {allFeatures allFeatures' : FeatureSet}
    (h : SameIncludes allFeatures allFeatures') (ignored : NameSet) :
    allFeatures'.inclusion ignored = allFeatures.inclusion ignored := by
  simp only [FeatureSet.inclusion, Graph.guarded, edges_buildInclusionGraph, h.includes]

/-- What is excluded is decided by the closure: by which of its features exclude which,
not by the order of the request and not by what ignored or unreached features exclude. -/
theorem exclusion_decided (hac : allFeatures.Acyclic) {features : List String}
    (hfs : ∀ f ∈ features, f ∈ allFeatures) :
    (ReportsExcluded allFeatures ignored features ↔ Clashes allFeatures ignored features) ∧
      (∀ features', features'.Perm features →
        (ReportsExcluded allFeatures ignored features' ↔
          ReportsExcluded allFeatures ignored features)) ∧
      ∀ allFeatures', SameIncludes allFeatures allFeatures' →
        (∀ u, (allFeatures.inclusion ignored).ReachedFrom features u →
          ∀ v, v ∈ allFeatures'.excludes u ↔ v ∈ allFeatures.excludes u) →
        (ReportsExcluded allFeatures' ignored features ↔
          ReportsExcluded allFeatures ignored features) := by
  refine ⟨reportsExcluded_iff hac hfs, fun features' hperm => ?_, fun allFeatures' hsame hexcl => ?_⟩
  · have hfs' : ∀ f ∈ features', f ∈ allFeatures := fun f hf => hfs f (hperm.mem_iff.1 hf)
    rw [reportsExcluded_iff hac hfs', reportsExcluded_iff hac hfs,
      clashes_congr fun f => hperm.mem_iff]
  · have hac' : allFeatures'.Acyclic := by
      rw [FeatureSet.Acyclic, hsame.includes]
      exact hac
    have hfs' : ∀ f ∈ features, f ∈ allFeatures' := fun f hf => (hsame.mem f).2 (hfs f hf)
    rw [reportsExcluded_iff hac' hfs', reportsExcluded_iff hac hfs, Clashes, Clashes,
      hsame.inclusion]
    constructor
    · rintro ⟨u, v, hu, hv, huv⟩
      exact ⟨u, v, hu, hv, (hexcl u hu v).1 huv⟩
    · rintro ⟨u, v, hu, hv, huv⟩
      exact ⟨u, v, hu, hv, (hexcl u hu v).2 huv⟩

/-- A platform with an element that excludes a flag. -/
def excludingFeatures : FeatureSet := FeatureSet.ofEntries
  [("aws", ⟨"platform", ["server"], []⟩), ("server", ⟨"element", [], ["_slim"]⟩),
    ("_slim", ⟨"flag", [], []⟩)]

theorem excludingFeatures_acyclic : excludingFeatures.Acyclic :=
  FeatureSet.acyclic_of_rank (fun name => if name = "aws" then 1 else 0) (by decide)

theorem exclusion_decided_slim :
    ReportsExcluded excludingFeatures ∅ ["aws", "_slim"] ∧
      ReportsExcluded excludingFeatures ∅ ["_slim", "aws"] := by
  have hdecided : (ReportsExcluded excludingFeatures ∅ ["aws", "_slim"] ↔
      Clashes excludingFeatures ∅ ["aws", "_slim"]) ∧ _ ∧ _ :=
    exclusion_decided excludingFeatures_acyclic (by decide)
  have hslim : ReportsExcluded excludingFeatures ∅ ["aws", "_slim"] :=
    ⟨"_slim", by decide +kernel⟩
  exact ⟨hslim, (hdecided.2.1 ["_slim", "aws"] (by decide)).2 hslim⟩

end GardenFeat
