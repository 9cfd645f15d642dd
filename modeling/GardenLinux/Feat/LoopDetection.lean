import GardenLinux.Feat.Expand
import GardenLinux.Lib.DirectPaths

/-!
# Loop detection

`postorderDFS` reports "... is part of a loop" when a feature lists one that is open.  A
feature that is marked but waits on the stack is passed over instead, so a cycle that is
entered through it goes unnoticed.

What is proved here:

* `ReportsLoop.hasCycle` — a reported loop is a cycle that the request leads into;
* `reportsLoop_iff_listsAbove` — a loop is reported exactly when some feature lists one
  that lies on the first direct path to it, a condition on the include lists, the order of
  the request and the ignored features;
* `loopDetection_iff` — hence exactly when loops are reported for the requests that lead
  into one and for no other, whatever the order of the request.
-/

namespace GardenFeat

open Relation

variable (allFeatures : FeatureSet) (ignored : NameSet)

/-- `expandFeatures` fails with "... is part of a loop". -/
def ReportsLoop (features : List String) : Prop :=
  ∃ w, expandFeatures allFeatures features ignored = .error (.partOfLoop w)

variable {allFeatures ignored}

/-! ## Reported loops -/

/-- A loop is reported exactly when the sweep of the request is cut short. -/
theorem reportsLoop_iff_sweepLoops {features : List String} (hf : ∀ f ∈ features, f ∈ allFeatures) :
    ReportsLoop allFeatures ignored features ↔
      ∃ w, (allFeatures.inclusion ignored).SweepLoops ∅ features w := by
  constructor
  · rintro ⟨w, herr⟩
    rcases sweep_or_loops_features ignored ∅ hf with ⟨seen, tr, hsweep⟩ | hloops
    · rw [expandFeatures, expandLoop_of_sweep hsweep hf] at herr
      simp only at herr
      split at herr
      · cases herr
      · cases herr
    · exact hloops
  · rintro ⟨w, hloops⟩
    refine ⟨w, ?_⟩
    rw [expandFeatures, expandLoop_of_loops hloops hf]

/-- A reported loop is one. -/
theorem ReportsLoop.hasCycle {features : List String} (hf : ∀ f ∈ features, f ∈ allFeatures)
    (h : ReportsLoop allFeatures ignored features) :
    (allFeatures.inclusion ignored).HasCycleFrom features := by
  obtain ⟨w, hloops⟩ := (reportsLoop_iff_sweepLoops hf).1 h
  exact hloops.hasCycle

/-- A loop is reported exactly when some feature lists one that lies on the first direct
path to it. -/
theorem reportsLoop_iff_listsAbove {features : List String}
    (hf : ∀ f ∈ features, f ∈ allFeatures) :
    ReportsLoop allFeatures ignored features ↔
      (allFeatures.inclusion ignored).ListsAbove features := by
  rw [reportsLoop_iff_sweepLoops hf]
  exact Guarded.sweepLoops_iff (U := (buildInclusionGraph allFeatures).universe)
    (fun _ _ _ hw => Graph.edges_universe hw)
    fun f hmem => Graph.mem_universe_of_mem (mem_vertices.2 (hf f hmem))

/-! ## When loop detection is exact -/

/-- A loop is reported exactly for the requests that lead into one, in every order of the
request, exactly when for every order of a request that leads into one some feature lists
one that lies on the first direct path to it. -/
theorem loopDetection_iff {features : List String} (hf : ∀ f ∈ features, f ∈ allFeatures) :
    ((ReportsLoop allFeatures ignored features ↔
        (allFeatures.inclusion ignored).HasCycleFrom features) ∧
      ∀ features', features'.Perm features →
        (ReportsLoop allFeatures ignored features' ↔ ReportsLoop allFeatures ignored features)) ↔
    ((allFeatures.inclusion ignored).HasCycleFrom features →
      ∀ features', features'.Perm features →
        (allFeatures.inclusion ignored).ListsAbove features') := by
  have hf' : ∀ features' : List String, features'.Perm features → ∀ f ∈ features', f ∈ allFeatures :=
    fun features' hperm f hmem => hf f (hperm.mem_iff.1 hmem)
  constructor
  · rintro ⟨hexact, hperm⟩ hcycle features' hp
    exact (reportsLoop_iff_listsAbove (hf' features' hp)).1 ((hperm features' hp).2
      (hexact.2 hcycle))
  · intro hmeets
    have hreports : ∀ features' : List String, features'.Perm features →
        (ReportsLoop allFeatures ignored features' ↔
          (allFeatures.inclusion ignored).HasCycleFrom features) := by
      intro features' hp
      constructor
      · intro h
        exact (Guarded.hasCycleFrom_congr fun r => hp.mem_iff).1 (h.hasCycle (hf' features' hp))
      · intro hcycle
        exact (reportsLoop_iff_listsAbove (hf' features' hp)).2 (hmeets hcycle features' hp)
    have hself := hreports features (List.Perm.refl _)
    exact ⟨hself, fun features' hp => (hreports features' hp).trans hself.symm⟩

/-- Two elements that include each other, both included by a platform. -/
def mutualFeatures : FeatureSet := FeatureSet.ofEntries
  [("aws", ⟨"platform", ["chost", "khost"], []⟩), ("chost", ⟨"element", ["khost"], []⟩),
    ("khost", ⟨"element", ["chost"], []⟩)]

theorem loopDetection_iff_aws :
    ((ReportsLoop mutualFeatures ∅ ["aws"] ↔
        (mutualFeatures.inclusion ∅).HasCycleFrom ["aws"]) ∧
      ∀ features', features'.Perm ["aws"] →
        (ReportsLoop mutualFeatures ∅ features' ↔ ReportsLoop mutualFeatures ∅ ["aws"])) ↔
    ((mutualFeatures.inclusion ∅).HasCycleFrom ["aws"] →
      ∀ features', features'.Perm ["aws"] → (mutualFeatures.inclusion ∅).ListsAbove features') :=
  loopDetection_iff (by decide +kernel)

theorem mutualFeatures_hasCycle : (mutualFeatures.inclusion ∅).HasCycleFrom ["aws"] := by
  have hedge : ∀ u v, v ∈ mutualFeatures.includes u → (mutualFeatures.inclusion ∅).Edge u v :=
    fun u v hv => ⟨by simp, hv, by simp⟩
  refine ⟨"chost", ?_, ?_⟩
  · exact ⟨"aws", by simp, by simp, ReflTransGen.single (hedge _ _ (by decide +kernel))⟩
  · exact (TransGen.single (hedge "chost" "khost" (by decide +kernel))).tail
      (hedge "khost" "chost" (by decide +kernel))

/-- `aws` leads into a cycle and no loop is reported, since both elements are marked when
`aws` is looked at; and of two orders of one request, one is refused. -/
theorem loopDetection_incomplete :
    (¬ ∀ (allFeatures : FeatureSet) (features : List String) (ignored : NameSet),
      (∀ v w, w ∈ allFeatures.includes v → w ∈ allFeatures) →
      (∀ f ∈ features, f ∈ allFeatures) →
        (ReportsLoop allFeatures ignored features ↔
          (allFeatures.inclusion ignored).HasCycleFrom features)) ∧
    ReportsLoop mutualFeatures ∅ ["chost", "aws"] ∧
      ¬ ReportsLoop mutualFeatures ∅ ["aws", "chost"] := by
  have hsilent : ∀ features, expandFeatures mutualFeatures features ∅ =
      .ok (["chost", "khost", "aws"], ∅) → ¬ ReportsLoop mutualFeatures ∅ features := by
    rintro features hok ⟨w, hw⟩
    rw [hok] at hw
    cases hw
  refine ⟨fun h => ?_, ⟨"chost", by decide +kernel⟩, hsilent _ (by decide +kernel)⟩
  have hincludes : ∀ v w, w ∈ mutualFeatures.includes v → w ∈ mutualFeatures := by
    intro v w hw
    have hv : v ∈ mutualFeatures.keys := by
      by_contra hv
      rw [FeatureSet.includes_of_notMem (fun hm => hv (AList.mem_keys.1 hm))] at hw
      simp at hw
    have hall : ∀ v ∈ mutualFeatures.keys, ∀ w ∈ mutualFeatures.includes v, w ∈ mutualFeatures := by
      decide +kernel
    exact hall v hv w hw
  exact hsilent ["aws"] (by decide +kernel)
    ((h mutualFeatures ["aws"] ∅ hincludes (by decide +kernel)).2 mutualFeatures_hasCycle)

end GardenFeat
