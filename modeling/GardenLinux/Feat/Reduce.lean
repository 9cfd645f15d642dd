import GardenLinux.Lib.Listing
import GardenLinux.Feat.Expand

/-!
# `reduceFeatures`: the generators of a request

`reduceFeatures` of `bin/garden-feat.go` goes through the request, traverses the graph
anew from every entry that is neither blank nor ignored, and drops what it meets below
that entry: later entries are blanked in the slice, earlier ones leave the map `minimal`.

What is proved here:

* `foldl_reduceVisit` — what one traversal does to the collected variables;
* `reduceLoop_ok` — after each entry `minimal` holds the generators of the entries seen
  so far and the blanked entries are the covered ones;
* `reduceFeatures_ok_iff`, `reduceFeatures_ok` — for an acyclic graph the result lists,
  each once, the generators of the named entries of the request; it is there for every
  request that expands.
-/

namespace GardenFeat

open Relation

/-! ## The function -/

/-- An order in which `range` goes over the keys of a map. -/
abbrev MapOrder := Enumeration String

/-- The variables of `reduceFeatures`; `rest` is `features[i:]`. -/
structure Reduction where
  rest : List String
  minimal : NameSet
  visited : NameSet
  collectedExcl : NameSet

def reduceCallbacks (allFeatures : FeatureSet) (ignored : NameSet) (f : String) :
    Callbacks Reduction where
  allowVertex v r := (decide (v ∉ ignored), r)
  processVertex v r :=
    if v = f then r
    else
      { rest := r.rest.map fun h => if h = v then "" else h
        minimal := r.minimal.erase v
        visited := insert v r.visited
        collectedExcl := (allFeatures.excludes v).foldl (fun s e => insert e s) r.collectedExcl }

/-- `for i < len(features)`, with the number of entries left. -/
def reduceLoop (allFeatures : FeatureSet) (ignored : NameSet) :
    ℕ → Reduction → Except FeatError Reduction
  | 0, r => .ok r
  | n + 1, r =>
    match r.rest with
    | [] => .ok r
    | f :: rest =>
      if f = "" then reduceLoop allFeatures ignored n { r with rest }
      else if f ∈ ignored then reduceLoop allFeatures ignored n { r with rest }
      else
        match postorderDFS (buildInclusionGraph allFeatures) none f
            (reduceCallbacks allFeatures ignored f)
            { r with rest, minimal := insert f r.minimal } with
        | .error e => .error e
        | .ok (_, r) => reduceLoop allFeatures ignored n r

def reduceFeatures (order : MapOrder) (allFeatures : FeatureSet) (features : List String)
    (ignored : NameSet) : Except FeatError (List String) :=
  match reduceLoop allFeatures ignored features.length ⟨features, ∅, ∅, ∅⟩ with
  | .error e => .error e
  | .ok r =>
    match (order.list r.visited).find? (· ∈ r.collectedExcl) with
    | some f => .error (.excluded f)
    | none => .ok (order.list r.minimal)

/-! ## One traversal -/

variable {allFeatures : FeatureSet} {ignored : NameSet}

theorem reduceCallbacks_lawful {f : String} :
    (reduceCallbacks allFeatures ignored f).Lawful ignored where
  allowed := fun v env hv => by simp [reduceCallbacks, hv]
  refused := fun v env hv => by simp [reduceCallbacks, hv]

/-- Blanking some names and then some others is blanking them all. -/
theorem map_blank_blank (p q : String → Prop) [DecidablePred p] [DecidablePred q]
    (l : List String) :
    (l.map fun h => if p h then "" else h).map (fun h => if q h then "" else h) =
      l.map fun h => if p h ∨ q h then "" else h := by
  rw [List.map_map]
  refine List.map_congr_left fun h _ => ?_
  by_cases hp : p h <;> simp [hp]

variable (allFeatures ignored) in
/-- What a traversal from `f` does: the emitted names other than `f` are blanked, are
taken out of `minimal`, and are visited. -/
theorem foldl_reduceVisit (f : String) (tr : List String) (r : Reduction) :
    let below := tr.filter fun v => decide (v ≠ f ∧ v ∉ ignored)
    let r' := tr.foldl ((reduceCallbacks allFeatures ignored f).visit ignored) r
    r'.rest = r.rest.map (fun h => if h ∈ below then "" else h) ∧
      (∀ v, v ∈ r'.minimal ↔ v ∈ r.minimal ∧ v ∉ below) ∧
      (∀ v, v ∈ r'.visited ↔ v ∈ r.visited ∨ v ∈ below) ∧
      ∀ v, v ∈ r'.collectedExcl ↔ v ∈ r.collectedExcl ∨
        ∃ u ∈ below, v ∈ allFeatures.excludes u := by
  induction tr generalizing r with
  | nil => simp
  | cons u tr ih =>
    rw [List.foldl_cons]
    obtain ⟨hrest, hmin, hvis, hexcl⟩ :=
      ih ((reduceCallbacks allFeatures ignored f).visit ignored r u)
    by_cases hu : u ≠ f ∧ u ∉ ignored
    · have hvisit : (reduceCallbacks allFeatures ignored f).visit ignored r u =
          { rest := r.rest.map fun h => if h = u then "" else h
            minimal := r.minimal.erase u
            visited := insert u r.visited
            collectedExcl :=
              (allFeatures.excludes u).foldl (fun s e => insert e s) r.collectedExcl } := by
        simp [Callbacks.visit, reduceCallbacks, hu.1, hu.2]
      rw [hvisit] at hrest hmin hvis hexcl ⊢
      rw [List.filter_cons_of_pos (by simpa using hu)]
      refine ⟨?_, ?_, ?_, ?_⟩
      · rw [hrest, map_blank_blank]
        simp only [List.mem_cons]
      · intro v
        rw [hmin, Finset.mem_erase, List.mem_cons]
        tauto
      · intro v
        rw [hvis, Finset.mem_insert, List.mem_cons]
        tauto
      · intro v
        rw [hexcl, mem_foldl_insert, or_assoc]
        simp
    · have hvisit : (reduceCallbacks allFeatures ignored f).visit ignored r u = r := by
        by_cases hui : u ∈ ignored
        · simp [Callbacks.visit, reduceCallbacks, hui]
        · have huf : u = f := by
            by_contra hne
            exact hu ⟨hne, hui⟩
          simp [Callbacks.visit, reduceCallbacks, huf]
      rw [hvisit] at hrest hmin hvis hexcl ⊢
      rw [List.filter_cons_of_neg (by simpa using hu)]
      exact ⟨hrest, hmin, hvis, hexcl⟩

/-- Without cycles a traversal of its own from an existing feature is completed, and emits
the features reached from it. -/
theorem exists_walk_of_acyclic (hac : allFeatures.Acyclic) {f : String} (hf : f ∈ allFeatures)
    (hfi : f ∉ ignored) :
    ∃ seen tr, (allFeatures.inclusion ignored).Walk [] {f} [f] seen tr ∧
      ∀ v, v ∈ tr.filter (allFeatures.inclusion ignored).ok ↔
        ReflTransGen (allFeatures.inclusion ignored).Edge f v := by
  have hsingle : ∀ x ∈ [f], x ∈ allFeatures := fun x hx => List.mem_singleton.1 hx ▸ hf
  rcases sweep_or_loops_features ignored ∅ hsingle with ⟨seen, tr, hsweep⟩ | ⟨w, hloops⟩
  · have hemit : ∀ v, v ∈ tr.filter (allFeatures.inclusion ignored).ok ↔
        ReflTransGen (allFeatures.inclusion ignored).Edge f v := by
      intro v
      rw [hsweep.mem_emitted_iff]
      constructor
      · rintro ⟨r, hr, -, hrv⟩
        exact List.mem_singleton.1 hr ▸ hrv
      · exact fun hfv => ⟨f, List.mem_singleton.2 rfl, guarded_ok.2 hfi, hfv⟩
    cases hsweep with
    | seen hmem _ => exact absurd hmem (Finset.notMem_empty f)
    | start _ hwalk hnil =>
      cases hnil
      rw [List.append_nil] at hemit
      exact ⟨_, _, hwalk, hemit⟩
  · exact absurd hloops.hasCycle ((hac.inclusion ignored).not_hasCycleFrom _)

/-! ## The loop over the request -/

/-- The variables once the entries `done` have been seen and `todo` are left: the visited
entries of `todo` are blank, and `minimal` holds the generators of `done`. -/
structure Reduced (allFeatures : FeatureSet) (ignored : NameSet) (done todo : List String)
    (r : Reduction) : Prop where
  rest_eq : r.rest = todo.map fun h => if h ∈ r.visited then "" else h
  mem_minimal : ∀ v, v ∈ r.minimal ↔ (allFeatures.inclusion ignored).IsGenerator done v
  mem_visited : ∀ v, v ∈ r.visited ↔ (allFeatures.inclusion ignored).Covered done v
  mem_excl : ∀ v, v ∈ r.collectedExcl ↔
    ∃ u, (allFeatures.inclusion ignored).Covered done u ∧ v ∈ allFeatures.excludes u

variable (allFeatures ignored) in
theorem reduced_start (features : List String) :
    Reduced allFeatures ignored [] features ⟨features, ∅, ∅, ∅⟩ := by
  have hnone : ∀ v, ¬ (allFeatures.inclusion ignored).Covered [] v := by
    rintro v ⟨r, hr, -⟩
    simp at hr
  refine ⟨?_, ?_, ?_, ?_⟩
  · simp
  · intro v
    simp [Guarded.isGenerator_iff_not_covered]
  · simp [hnone]
  · simp [hnone]

/-- An entry that is covered already or is ignored changes nothing. -/
theorem Reduced.pass (hac : allFeatures.Acyclic) {done todo : List String} {f h : String}
    {rest : List String} {r : Reduction} (hr : Reduced allFeatures ignored done (f :: todo) r)
    (hrest : r.rest = h :: rest)
    (hf : (allFeatures.inclusion ignored).Covered done f ∨ f ∈ ignored) :
    Reduced allFeatures ignored (done ++ [f]) todo { r with rest } := by
  have hf' : (allFeatures.inclusion ignored).Covered done f ∨
      (allFeatures.inclusion ignored).ok f = false := hf.imp id guarded_not_ok.2
  have hcov := Guarded.covered_append_of_covered (hac.inclusion ignored) hf'
  have hgen := Guarded.isGenerator_append_of_covered (hac.inclusion ignored) hf'
  have htail := hr.rest_eq
  rw [hrest, List.map_cons] at htail
  refine ⟨?_, ?_, ?_, ?_⟩
  · exact (List.cons.inj htail).2
  · simpa only [hgen] using hr.mem_minimal
  · simpa only [hcov] using hr.mem_visited
  · simpa only [hcov] using hr.mem_excl

/-- A blank entry of the request itself is passed over. -/
theorem Reduced.skip {done todo : List String} {f h : String} {rest : List String} {r : Reduction}
    (hr : Reduced allFeatures ignored done (f :: todo) r) (hrest : r.rest = h :: rest) :
    Reduced allFeatures ignored done todo { r with rest } := by
  have htail := hr.rest_eq
  rw [hrest, List.map_cons] at htail
  exact ⟨(List.cons.inj htail).2, hr.mem_minimal, hr.mem_visited, hr.mem_excl⟩

/-- An entry that is neither covered nor ignored is traversed from. -/
theorem Reduced.visit {done todo : List String} {f : String} {rest : List String}
    {r : Reduction} (hr : Reduced allFeatures ignored done (f :: todo) r)
    (hrest : r.rest = f :: rest)
    (hf : ¬ (allFeatures.inclusion ignored).Covered done f) (hfi : f ∉ ignored) {tr : List String}
    (htr : ∀ v, v ∈ tr.filter (allFeatures.inclusion ignored).ok ↔
      ReflTransGen (allFeatures.inclusion ignored).Edge f v) :
    Reduced allFeatures ignored (done ++ [f]) todo
      (tr.foldl ((reduceCallbacks allFeatures ignored f).visit ignored)
        { r with rest, minimal := insert f r.minimal }) := by
  have hok : (allFeatures.inclusion ignored).ok f = true := guarded_ok.2 hfi
  have hbelow : ∀ v, v ∈ tr.filter (fun v => decide (v ≠ f ∧ v ∉ ignored)) ↔
      (allFeatures.inclusion ignored).Below f v := by
    intro v
    rw [Guarded.Below, ← htr, List.mem_filter, List.mem_filter, decide_eq_true_eq, guarded_ok]
    tauto
  have hcov : ∀ v, (allFeatures.inclusion ignored).Covered (done ++ [f]) v ↔
      (allFeatures.inclusion ignored).Covered done v ∨
        (allFeatures.inclusion ignored).Below f v := by
    intro v
    rw [Guarded.covered_append]
    simp only [hok, true_and]
  obtain ⟨hrest', hmin, hvis, hexcl⟩ := foldl_reduceVisit allFeatures ignored f tr
    { r with rest, minimal := insert f r.minimal }
  generalize tr.foldl ((reduceCallbacks allFeatures ignored f).visit ignored)
    { r with rest, minimal := insert f r.minimal } = r' at hrest' hmin hvis hexcl ⊢
  have htail := hr.rest_eq
  rw [hrest, List.map_cons] at htail
  refine ⟨?_, ?_, ?_, ?_⟩
  · rw [hrest', (List.cons.inj htail).2, map_blank_blank]
    simp only [hvis]
  · intro v
    rw [hmin, hbelow, Finset.mem_insert, hr.mem_minimal,
      Guarded.isGenerator_append_of_not_covered hok hf]
  · intro v
    rw [hvis, hbelow, hr.mem_visited, hcov]
  · intro v
    rw [hexcl, hr.mem_excl]
    simp only [hbelow, hcov, or_and_right, exists_or]

/-- The loop runs to its end, and what it has collected is about the named entries. -/
theorem reduceLoop_ok (hac : allFeatures.Acyclic) {todo : List String}
    (htodo : ∀ f ∈ todo, f ≠ "" → f ∉ ignored → f ∈ allFeatures) {done : List String}
    {r : Reduction} (hr : Reduced allFeatures ignored done todo r) :
    ∃ r', reduceLoop allFeatures ignored todo.length r = .ok r' ∧
      Reduced allFeatures ignored (done ++ todo.filter (· ≠ "")) [] r' := by
  induction todo generalizing done r with
  | nil => exact ⟨r, rfl, by simpa using hr⟩
  | cons f todo ih =>
    have htodo' : ∀ f ∈ todo, f ≠ "" → f ∉ ignored → f ∈ allFeatures :=
      fun x hx => htodo x (List.mem_cons_of_mem _ hx)
    have hrest := hr.rest_eq
    rw [List.map_cons] at hrest
    rw [List.length_cons, reduceLoop, hrest]
    by_cases hblank : f = ""
    · subst hblank
      simp only [ite_self, if_true]
      rw [List.filter_cons_of_neg (by simp)]
      exact ih htodo' (hr.skip hrest)
    · rw [List.filter_cons_of_pos (by simpa using hblank), List.append_cons]
      by_cases hf : f ∈ r.visited
      · simp only [if_pos hf, if_true]
        exact ih htodo' (hr.pass hac hrest (Or.inl ((hr.mem_visited f).1 hf)))
      · simp only [if_neg hf, if_neg hblank]
        by_cases hfi : f ∈ ignored
        · rw [if_pos hfi]
          exact ih htodo' (hr.pass hac hrest (Or.inr hfi))
        · rw [if_neg hfi]
          have hmem := htodo f (List.mem_cons_self ..) hblank hfi
          obtain ⟨seen, tr, hwalk, htr⟩ := exists_walk_of_acyclic hac hmem hfi
          rw [if_neg hf] at hrest
          rw [postorderDFS_of_walk reduceCallbacks_lawful (mem_vertices.2 hmem) (by simp) hwalk]
          exact ih htodo' (hr.visit hrest (fun hc => hf ((hr.mem_visited f).2 hc)) hfi htr)

/-! ## The reduced request -/

/-- For an acyclic graph and existing features, the reduction succeeds unless a visited
feature excludes a visited one, and lists the generators of the named entries. -/
theorem reduceFeatures_ok_iff (order : MapOrder) (hac : allFeatures.Acyclic)
    {features reduced : List String} (hfs : ∀ f ∈ features, f ∈ allFeatures) :
    reduceFeatures order allFeatures features ignored = .ok reduced ↔
      (∀ u v, (allFeatures.inclusion ignored).Covered (features.filter (· ≠ "")) u →
        (allFeatures.inclusion ignored).Covered (features.filter (· ≠ "")) v →
        v ∉ allFeatures.excludes u) ∧
      ∃ names : NameSet, (∀ v, v ∈ names ↔
        (allFeatures.inclusion ignored).IsGenerator (features.filter (· ≠ "")) v) ∧
        reduced = order.list names := by
  obtain ⟨r, hloop, hr⟩ := reduceLoop_ok hac
    (fun f hf _ _ => hfs f hf) (reduced_start allFeatures ignored features)
  rw [List.nil_append] at hr
  have hnone : (order.list r.visited).find? (· ∈ r.collectedExcl) = none ↔
      ∀ u v, (allFeatures.inclusion ignored).Covered (features.filter (· ≠ "")) u →
        (allFeatures.inclusion ignored).Covered (features.filter (· ≠ "")) v →
        v ∉ allFeatures.excludes u := by
    simp only [List.find?_eq_none, order.mem_list, hr.mem_visited, decide_eq_true_eq, hr.mem_excl]
    constructor
    · exact fun h u v hu hv huv => h v hv ⟨u, hu, huv⟩
    · rintro h v hv ⟨u, hu, huv⟩
      exact h u v hu hv huv
  unfold reduceFeatures
  rw [hloop, ← hnone]
  simp only
  cases hfind : (order.list r.visited).find? (· ∈ r.collectedExcl) with
  | some f => simp
  | none =>
    simp only [Except.ok.injEq, true_and]
    constructor
    · rintro rfl
      exact ⟨r.minimal, hr.mem_minimal, rfl⟩
    · rintro ⟨names, hnames, rfl⟩
      congr 1
      ext v
      rw [hnames, hr.mem_minimal]

/-- For an acyclic graph and a request that expands, the reduction succeeds and lists, each
once, the generators of the named entries. -/
theorem reduceFeatures_ok (order : MapOrder) (hac : allFeatures.Acyclic)
    {features expanded : List String} {collectedIgn : NameSet}
    (h : expandFeatures allFeatures features ignored = .ok (expanded, collectedIgn)) :
    ∃ reduced, reduceFeatures order allFeatures features ignored = .ok reduced ∧ reduced.Nodup ∧
      ∀ v, v ∈ reduced ↔
        (allFeatures.inclusion ignored).IsGenerator (features.filter (· ≠ "")) v := by
  obtain ⟨hfs, -, -, -, -, -, hcompat⟩ := expandFeatures_ok_iff.1 h
  have hexp : ∀ v, (allFeatures.inclusion ignored).Covered (features.filter (· ≠ "")) v →
      v ∈ expanded := by
    rintro v ⟨f, hf, hok, hfv⟩
    exact (mem_of_expandFeatures h v).2 ⟨f, (List.mem_filter.1 hf).1, hok, hfv.2⟩
  have hgen : ∃ names : NameSet, ∀ v, v ∈ names ↔
      (allFeatures.inclusion ignored).IsGenerator (features.filter (· ≠ "")) v := by
    classical
    refine ⟨features.toFinset.filter fun v =>
      (allFeatures.inclusion ignored).IsGenerator (features.filter (· ≠ "")) v, fun v => ?_⟩
    rw [Finset.mem_filter, List.mem_toFinset]
    exact ⟨And.right, fun hv => ⟨(List.mem_filter.1 hv.1).1, hv⟩⟩
  obtain ⟨names, hnames⟩ := hgen
  refine ⟨order.list names, (reduceFeatures_ok_iff order hac hfs).2
    ⟨fun u v hu hv => hcompat u (hexp u hu) v (hexp v hv), names, hnames, rfl⟩,
    order.nodup _, fun v => ?_⟩
  rw [order.mem_list, hnames]

end GardenFeat
