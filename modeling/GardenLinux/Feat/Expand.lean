import GardenLinux.Lib.PostOrder
import GardenLinux.Feat.Postorder

/-!
# `expandFeatures`: the closure of a request

`expandFeatures` of `bin/garden-feat.go` runs `postorderDFS` from every requested
feature over one shared `seen` set, collects what is emitted, what is ignored and what
is excluded on the way, and refuses the result if it holds an excluded feature.

What is proved here:

* `expandFeatures_ok_iff` — the outcome of a successful expansion, in terms of one
  completed sweep of the inclusion graph;
* `expandFeatures_closure` — the result lists, each once, the features reached from the
  request through non-ignored features, and the ignored set holds the ignored features
  met on the way;
* `expandFeatures_ordered_iff` — exactly when an included feature always comes before
  the feature that includes it.
-/

namespace GardenFeat

open Relation

/-! ## The function -/

/-- The variables `expandFeatures` collects into. -/
structure Expansion where
  collectedIgn : NameSet
  collectedExcl : NameSet
  expanded : List String

def Expansion.start : Expansion := ⟨∅, ∅, []⟩

def expandCallbacks (allFeatures : FeatureSet) (ignored : NameSet) : Callbacks Expansion where
  allowVertex v x :=
    if v ∈ ignored then (false, { x with collectedIgn := insert v x.collectedIgn }) else (true, x)
  processVertex v x :=
    { x with
      expanded := x.expanded ++ [v]
      collectedExcl := (allFeatures.excludes v).foldl (fun s e => insert e s) x.collectedExcl }

/-- `for _, f := range features`. -/
def expandLoop (allFeatures : FeatureSet) (ignored : NameSet) :
    List String → NameSet × Expansion → Except FeatError (NameSet × Expansion)
  | [], acc => .ok acc
  | f :: fs, (seen, x) =>
    match postorderDFS (buildInclusionGraph allFeatures) (some seen) f
        (expandCallbacks allFeatures ignored) x with
    | .error e => .error e
    | .ok acc => expandLoop allFeatures ignored fs acc

def expandFeatures (allFeatures : FeatureSet) (features : List String) (ignored : NameSet) :
    Except FeatError (List String × NameSet) :=
  match expandLoop allFeatures ignored features (∅, Expansion.start) with
  | .error e => .error e
  | .ok (_, x) =>
    match x.expanded.find? (· ∈ x.collectedExcl) with
    | some f => .error (.excluded f)
    | none => .ok (x.expanded, x.collectedIgn)

/-! ## The collected variables -/

variable {allFeatures : FeatureSet} {ignored : NameSet}

theorem expandCallbacks_lawful : (expandCallbacks allFeatures ignored).Lawful ignored where
  allowed := fun _ _ hv => if_neg hv
  refused := fun v env hv => by simp [expandCallbacks, hv]

theorem visit_of_mem {u : String} (hu : u ∈ ignored) (x : Expansion) :
    (expandCallbacks allFeatures ignored).visit ignored x u =
      { x with collectedIgn := insert u x.collectedIgn } := by
  simp [Callbacks.visit, expandCallbacks, hu]

theorem visit_of_notMem {u : String} (hu : u ∉ ignored) (x : Expansion) :
    (expandCallbacks allFeatures ignored).visit ignored x u =
      { x with
        expanded := x.expanded ++ [u]
        collectedExcl := (allFeatures.excludes u).foldl (fun s e => insert e s) x.collectedExcl } := by
  simp [Callbacks.visit, expandCallbacks, hu]

variable (allFeatures ignored) in
/-- What the callbacks have collected once the vertices of a trace have left the stack. -/
theorem foldl_visit (tr : List String) (x : Expansion) :
    let x' := tr.foldl ((expandCallbacks allFeatures ignored).visit ignored) x
    x'.expanded = x.expanded ++ tr.filter (allFeatures.inclusion ignored).ok ∧
      (∀ v, v ∈ x'.collectedIgn ↔ v ∈ x.collectedIgn ∨ (v ∈ tr ∧ v ∈ ignored)) ∧
      ∀ v, v ∈ x'.collectedExcl ↔ v ∈ x.collectedExcl ∨
        ∃ u ∈ tr, u ∉ ignored ∧ v ∈ allFeatures.excludes u := by
  induction tr generalizing x with
  | nil => simp
  | cons u tr ih =>
    rw [List.foldl_cons]
    obtain ⟨hexp, hign, hexcl⟩ := ih ((expandCallbacks allFeatures ignored).visit ignored x u)
    by_cases hu : u ∈ ignored
    · rw [visit_of_mem hu] at hexp hign hexcl ⊢
      refine ⟨?_, ?_, ?_⟩
      · rw [hexp, List.filter_cons_of_neg (by simp [hu])]
      · intro v
        rw [hign, Finset.mem_insert, List.mem_cons]
        constructor
        · rintro ((rfl | hv) | ⟨hv, hvi⟩)
          · exact Or.inr ⟨Or.inl rfl, hu⟩
          · exact Or.inl hv
          · exact Or.inr ⟨Or.inr hv, hvi⟩
        · rintro (hv | ⟨rfl | hv, hvi⟩)
          · exact Or.inl (Or.inr hv)
          · exact Or.inl (Or.inl rfl)
          · exact Or.inr ⟨hv, hvi⟩
      · intro v
        rw [hexcl]
        simp [hu]
    · rw [visit_of_notMem hu] at hexp hign hexcl ⊢
      refine ⟨?_, ?_, ?_⟩
      · rw [hexp, List.filter_cons_of_pos (by simp [hu])]
        simp
      · intro v
        rw [hign, List.mem_cons]
        constructor
        · rintro (hv | ⟨hv, hvi⟩)
          · exact Or.inl hv
          · exact Or.inr ⟨Or.inr hv, hvi⟩
        · rintro (hv | ⟨rfl | hv, hvi⟩)
          · exact Or.inl hv
          · exact absurd hvi hu
          · exact Or.inr ⟨hv, hvi⟩
      · intro v
        rw [hexcl, mem_foldl_insert, or_assoc]
        simp [hu]

/-! ## The loop over the request -/

theorem expandLoop_of_sweep {seen fs seen' tr}
    (h : (allFeatures.inclusion ignored).Sweep seen fs seen' tr) (hfs : ∀ f ∈ fs, f ∈ allFeatures)
    (x : Expansion) :
    expandLoop allFeatures ignored fs (seen, x) =
      .ok (seen', tr.foldl ((expandCallbacks allFeatures ignored).visit ignored) x) := by
  induction h generalizing x with
  | nil => rfl
  | seen hr _ ih =>
    have hmem := mem_vertices.2 (hfs _ (List.mem_cons_self ..))
    rw [expandLoop, postorderDFS_seen hmem hr]
    exact ih (fun f hf => hfs f (List.mem_cons_of_mem _ hf)) x
  | start hr h₁ _ ih =>
    have hmem := mem_vertices.2 (hfs _ (List.mem_cons_self ..))
    rw [expandLoop, postorderDFS_of_walk expandCallbacks_lawful hmem (by simpa using hr) h₁,
      List.foldl_append]
    exact ih (fun f hf => hfs f (List.mem_cons_of_mem _ hf)) _

theorem expandLoop_of_loops {seen fs w}
    (h : (allFeatures.inclusion ignored).SweepLoops seen fs w) (hfs : ∀ f ∈ fs, f ∈ allFeatures)
    (x : Expansion) :
    expandLoop allFeatures ignored fs (seen, x) = .error (.partOfLoop w) := by
  induction h generalizing x with
  | here hr h₁ =>
    have hmem := mem_vertices.2 (hfs _ (List.mem_cons_self ..))
    rw [expandLoop, postorderDFS_of_loops expandCallbacks_lawful hmem (by simpa using hr) h₁]
  | seen hr _ ih =>
    have hmem := mem_vertices.2 (hfs _ (List.mem_cons_self ..))
    rw [expandLoop, postorderDFS_seen hmem hr]
    exact ih (fun f hf => hfs f (List.mem_cons_of_mem _ hf)) x
  | next hr h₁ _ ih =>
    have hmem := mem_vertices.2 (hfs _ (List.mem_cons_self ..))
    rw [expandLoop, postorderDFS_of_walk expandCallbacks_lawful hmem (by simpa using hr) h₁]
    exact ih (fun f hf => hfs f (List.mem_cons_of_mem _ hf)) _

theorem mem_of_expandLoop_ok {fs : List String} {acc acc' : NameSet × Expansion}
    (h : expandLoop allFeatures ignored fs acc = .ok acc') : ∀ f ∈ fs, f ∈ allFeatures := by
  induction fs generalizing acc with
  | nil => simp
  | cons f fs ih =>
    have hf : f ∈ allFeatures := by
      by_contra hf
      rw [expandLoop, postorderDFS_not_part (fun hm => hf (mem_vertices.1 hm))] at h
      cases h
    rw [expandLoop] at h
    split at h
    · cases h
    · intro x hx
      rcases List.mem_cons.1 hx with rfl | hx
      · exact hf
      · exact ih h x hx

variable (ignored) in
/-- For existing features the request is swept to the end or a loop is met. -/
theorem sweep_or_loops_features (seen : NameSet) {fs : List String}
    (hfs : ∀ f ∈ fs, f ∈ allFeatures) :
    (∃ seen' tr, (allFeatures.inclusion ignored).Sweep seen fs seen' tr) ∨
      ∃ w, (allFeatures.inclusion ignored).SweepLoops seen fs w :=
  Guarded.sweep_or_loops (U := (buildInclusionGraph allFeatures).universe)
    (fun _ _ _ hw => Graph.edges_universe hw) fs
    (fun f hf => Graph.mem_universe_of_mem (mem_vertices.2 (hfs f hf))) seen

/-- No feature of the closure is excluded by a feature of the closure. -/
def Compatible (allFeatures : FeatureSet) (closure : List String) : Prop :=
  ∀ u ∈ closure, ∀ v ∈ closure, v ∉ allFeatures.excludes u

/-- What a swept request leaves in the collected variables. -/
theorem collected_start (tr : List String) {x : Expansion}
    (hx : tr.foldl ((expandCallbacks allFeatures ignored).visit ignored) Expansion.start = x) :
    x.expanded = tr.filter (allFeatures.inclusion ignored).ok ∧
      x.collectedIgn = tr.toFinset ∩ ignored ∧
      (x.expanded.find? (· ∈ x.collectedExcl) = none ↔ Compatible allFeatures x.expanded) := by
  obtain ⟨hexp, hign, hexcl⟩ := foldl_visit allFeatures ignored tr Expansion.start
  rw [hx] at hexp hign hexcl
  have hexp' : x.expanded = tr.filter (allFeatures.inclusion ignored).ok := hexp
  refine ⟨hexp', ?_, ?_⟩
  · ext v
    rw [hign]
    simp [Expansion.start]
  · rw [List.find?_eq_none]
    simp only [decide_eq_true_eq, hexcl, hexp', Compatible, List.mem_filter, guarded_ok]
    constructor
    · rintro hnone u ⟨hu, hui⟩ v hv hvu
      exact hnone v hv (Or.inr ⟨u, hu, hui, hvu⟩)
    · rintro hall v hv (hv' | ⟨u, hu, hui, hvu⟩)
      · simp [Expansion.start] at hv'
      · exact hall u ⟨hu, hui⟩ v hv hvu

/-- A swept request expands unless a feature of its closure is excluded. -/
theorem expandFeatures_of_sweep {features expanded tr : List String} {seen : NameSet}
    {collectedIgn : NameSet} (hsweep : (allFeatures.inclusion ignored).Sweep ∅ features seen tr)
    (hfs : ∀ f ∈ features, f ∈ allFeatures) :
    expandFeatures allFeatures features ignored = .ok (expanded, collectedIgn) ↔
      expanded = tr.filter (allFeatures.inclusion ignored).ok ∧
        collectedIgn = tr.toFinset ∩ ignored ∧ Compatible allFeatures expanded := by
  obtain ⟨x, hx⟩ : ∃ x, tr.foldl ((expandCallbacks allFeatures ignored).visit ignored)
      Expansion.start = x := ⟨_, rfl⟩
  obtain ⟨hexp, hign, hcompat⟩ := collected_start tr hx
  rw [expandFeatures, expandLoop_of_sweep hsweep hfs, hx]
  simp only
  cases hfind : x.expanded.find? (· ∈ x.collectedExcl) with
  | some f =>
    have hno : ¬ Compatible allFeatures x.expanded := fun hc => by
      rw [hcompat.2 hc] at hfind
      cases hfind
    constructor
    · intro h
      cases h
    · rintro ⟨he, -, hc⟩
      rw [hexp, ← he] at hno
      exact absurd hc hno
  | none =>
    have hyes := hcompat.1 hfind
    constructor
    · intro h
      obtain ⟨rfl, rfl⟩ := Prod.mk.inj (Except.ok.inj h)
      exact ⟨hexp, hign, hyes⟩
    · rintro ⟨he, hc, -⟩
      rw [he, hc, hexp, hign]

/-- A successful expansion: the request exists, its sweep is completed, nothing in the
closure is excluded, and the emitted and the refused names are returned. -/
theorem expandFeatures_ok_iff {features expanded : List String} {collectedIgn : NameSet} :
    expandFeatures allFeatures features ignored = .ok (expanded, collectedIgn) ↔
      (∀ f ∈ features, f ∈ allFeatures) ∧
        ∃ seen tr, (allFeatures.inclusion ignored).Sweep ∅ features seen tr ∧
          expanded = tr.filter (allFeatures.inclusion ignored).ok ∧
          collectedIgn = tr.toFinset ∩ ignored ∧ Compatible allFeatures expanded := by
  constructor
  · intro h
    have hfs : ∀ f ∈ features, f ∈ allFeatures := by
      rw [expandFeatures] at h
      split at h
      · cases h
      · rename_i acc x hloop
        exact mem_of_expandLoop_ok hloop
    rcases sweep_or_loops_features ignored ∅ hfs with
      ⟨seen, tr, hsweep⟩ | ⟨w, hloops⟩
    · exact ⟨hfs, seen, tr, hsweep, (expandFeatures_of_sweep hsweep hfs).1 h⟩
    · rw [expandFeatures, expandLoop_of_loops hloops hfs] at h
      cases h
  · rintro ⟨hfs, seen, tr, hsweep, hrest⟩
    exact (expandFeatures_of_sweep hsweep hfs).2 hrest

/-! ## What a successful expansion returns -/

section Success

variable {features expanded : List String} {collectedIgn : NameSet}

theorem nodup_of_expandFeatures
    (h : expandFeatures allFeatures features ignored = .ok (expanded, collectedIgn)) :
    expanded.Nodup := by
  obtain ⟨-, seen, tr, hsweep, rfl, -, -⟩ := expandFeatures_ok_iff.1 h
  exact hsweep.nodup.filter _

theorem mem_of_expandFeatures
    (h : expandFeatures allFeatures features ignored = .ok (expanded, collectedIgn)) (v : String) :
    v ∈ expanded ↔ (allFeatures.inclusion ignored).ReachedFrom features v := by
  obtain ⟨-, seen, tr, hsweep, rfl, -, -⟩ := expandFeatures_ok_iff.1 h
  exact hsweep.mem_emitted_iff

theorem mem_ignored_of_expandFeatures
    (h : expandFeatures allFeatures features ignored = .ok (expanded, collectedIgn)) (v : String) :
    v ∈ collectedIgn ↔
      v ∈ ignored ∧ (v ∈ features ∨ ∃ u ∈ expanded, v ∈ allFeatures.includes u) := by
  have hmem := mem_of_expandFeatures h
  obtain ⟨-, seen, tr, hsweep, -, rfl, -⟩ := expandFeatures_ok_iff.1 h
  have hrefused := hsweep.mem_refused_iff (x := v)
  rw [guarded_not_ok] at hrefused
  rw [Finset.mem_inter, List.mem_toFinset, hrefused]
  simp only [hmem, guarded_succ, edges_buildInclusionGraph]

/-- An expansion lists, each once, the features reached from the request, and collects
the ignored features met on the way; both depend on the set of requested names only. -/
theorem expandFeatures_closure
    (h : expandFeatures allFeatures features ignored = .ok (expanded, collectedIgn)) :
    expanded.Nodup ∧
      (∀ v, v ∈ expanded ↔ (allFeatures.inclusion ignored).ReachedFrom features v) ∧
      (∀ v, v ∈ collectedIgn ↔
        v ∈ ignored ∧ (v ∈ features ∨ ∃ u ∈ expanded, v ∈ allFeatures.includes u)) ∧
      ∀ features' expanded' collectedIgn', (∀ f, f ∈ features' ↔ f ∈ features) →
        expandFeatures allFeatures features' ignored = .ok (expanded', collectedIgn') →
        (∀ v, v ∈ expanded' ↔ v ∈ expanded) ∧ collectedIgn' = collectedIgn := by
  refine ⟨nodup_of_expandFeatures h, mem_of_expandFeatures h, mem_ignored_of_expandFeatures h, ?_⟩
  intro features' expanded' collectedIgn' hsame h'
  have hset : ∀ v, v ∈ expanded' ↔ v ∈ expanded := fun v => by
    rw [mem_of_expandFeatures h', mem_of_expandFeatures h, Guarded.reachedFrom_congr hsame]
  refine ⟨hset, ?_⟩
  ext v
  rw [mem_ignored_of_expandFeatures h', mem_ignored_of_expandFeatures h]
  simp only [hsame, hset]

/-- A platform that includes an element and, after it, what that element includes. -/
def shortcutFeatures : FeatureSet := FeatureSet.ofEntries
  [("aws", ⟨"platform", ["gardener", "server"], []⟩), ("gardener", ⟨"element", ["server"], []⟩),
    ("server", ⟨"element", [], []⟩)]

theorem expandFeatures_closure_aws :
    (["gardener", "server", "aws"].Nodup ∧
      (∀ v, v ∈ ["gardener", "server", "aws"] ↔
        (shortcutFeatures.inclusion ∅).ReachedFrom ["aws"] v)) ∧
      ∀ expanded collectedIgn,
        expandFeatures shortcutFeatures ["aws", "aws"] ∅ = .ok (expanded, collectedIgn) →
        ∀ v, v ∈ expanded ↔ v ∈ ["gardener", "server", "aws"] := by
  obtain ⟨hnodup, hreach, -, hsame⟩ := expandFeatures_closure
    (show expandFeatures shortcutFeatures ["aws"] ∅ = .ok (["gardener", "server", "aws"], ∅) by
      decide +kernel)
  exact ⟨⟨hnodup, hreach⟩, fun expanded collectedIgn h =>
    (hsame ["aws", "aws"] expanded collectedIgn (by simp) h).1⟩

/-- Wherever a feature of the list and one that it includes stand in the list, the
included one stands first. -/
def IncludedFirst (allFeatures : FeatureSet) (l : List String) : Prop :=
  ∀ (i j : ℕ) (a b : String), l[i]? = some a → l[j]? = some b → b ∈ allFeatures.includes a → j < i

/-- The result is in the order of inclusion exactly when the reached part of the graph
has neither a cycle nor a shortcut: a feature `P` with an include `C` that leads to a later
include `B` of `P`, reached on a path that no path to `B` precedes. -/
theorem expandFeatures_ordered_iff
    (h : expandFeatures allFeatures features ignored = .ok (expanded, collectedIgn)) :
    IncludedFirst allFeatures expanded ↔
      ¬ (allFeatures.inclusion ignored).HasCycleFrom features ∧
        ∀ P, (allFeatures.inclusion ignored).NoShortcutAt features P := by
  obtain ⟨-, seen, tr, hsweep, rfl, -, -⟩ := expandFeatures_ok_iff.1 h
  rw [← hsweep.emits_iff, Guarded.emits_iff_index (hsweep.nodup.filter _)]
  · rfl
  · exact fun x hx => (List.mem_filter.1 hx).2
  · intro x hx y hy hok
    rw [hsweep.mem_emitted_iff] at hx ⊢
    exact hx.succ hy hok

end Success

/-- An expansion that succeeds and names `gardener` before `server`, which it includes:
`server` was marked when `aws` was looked at, and is passed over below `gardener`. -/
theorem expandFeatures_not_ordered :
    ¬ ∀ (allFeatures : FeatureSet) (features : List String) (ignored : NameSet)
        (expanded : List String) (collectedIgn : NameSet),
      expandFeatures allFeatures features ignored = .ok (expanded, collectedIgn) →
        IncludedFirst allFeatures expanded := by
  intro h
  have hlt : 1 < 0 := h shortcutFeatures ["aws"] ∅ ["gardener", "server", "aws"] ∅
    (by decide +kernel) 0 1 "gardener" "server" rfl rfl (by decide +kernel)
  omega

theorem expandFeatures_ordered_iff_gardener :
    IncludedFirst shortcutFeatures ["server", "gardener"] ↔
      ¬ (shortcutFeatures.inclusion ∅).HasCycleFrom ["gardener"] ∧
        ∀ P, (shortcutFeatures.inclusion ∅).NoShortcutAt ["gardener"] P :=
  expandFeatures_ordered_iff
    (show expandFeatures shortcutFeatures ["gardener"] ∅ = .ok (["server", "gardener"], ∅) by
      decide +kernel)

end GardenFeat
