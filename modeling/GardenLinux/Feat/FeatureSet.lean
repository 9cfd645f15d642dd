import GardenLinux.Lib.Reach

/-!
# The feature set of `garden-feat`

The data of `bin/garden-feat.go`: features with their include and exclude lists, the
set of all features of a feature directory, the inclusion graph built from it, the
sets of names the commands work with, and the errors they report.
-/

namespace GardenFeat

/-! ## Features and the inclusion graph -/

/-- `type feature struct`: the type of a feature and `Features.Include` /
`Features.Exclude`. -/
structure Feature where
  type : String
  includes : List String
  excludes : List String
  deriving DecidableEq, Repr

/-- `type featureSet map[string]feature`. -/
abbrev FeatureSet := AList fun _ : String => Feature

/-- `type set map[string]struct{}`. -/
abbrev NameSet := Finset String

/-- `type graph map[string][]string`: its keys, and the list that indexing it yields,
which is empty at a name that is not a key. -/
structure Graph where
  vertices : Finset String
  edges : String → List String
  edges_eq_nil : ∀ v, v ∉ vertices → edges v = []

/-- The map after `allFeatures[featName] = f` for every entry. -/
def FeatureSet.ofEntries (entries : List (String × Feature)) : FeatureSet :=
  entries.foldl (fun allFeatures e => allFeatures.insert e.1 e.2) ∅

/-- `Features.Include` of a feature, and nothing for a name without a feature: the zero
value of a missing map entry. -/
def FeatureSet.includes (allFeatures : FeatureSet) (name : String) : List String :=
  (allFeatures.lookup name).elim [] (·.includes)

/-- `Features.Exclude`, likewise. -/
def FeatureSet.excludes (allFeatures : FeatureSet) (name : String) : List String :=
  (allFeatures.lookup name).elim [] (·.excludes)

theorem FeatureSet.includes_of_notMem {allFeatures : FeatureSet} {name : String}
    (h : name ∉ allFeatures) : allFeatures.includes name = [] := by
  rw [FeatureSet.includes, AList.lookup_eq_none.2 h]
  rfl

def buildInclusionGraph (allFeatures : FeatureSet) : Graph where
  vertices := allFeatures.keys.toFinset
  edges := allFeatures.includes
  edges_eq_nil := fun _ hv => FeatureSet.includes_of_notMem fun hmem =>
    hv (List.mem_toFinset.2 (AList.mem_keys.1 hmem))

@[simp] theorem mem_vertices {allFeatures : FeatureSet} {v : String} :
    v ∈ (buildInclusionGraph allFeatures).vertices ↔ v ∈ allFeatures := by
  simp [buildInclusionGraph, AList.mem_keys]

@[simp] theorem edges_buildInclusionGraph (allFeatures : FeatureSet) :
    (buildInclusionGraph allFeatures).edges = allFeatures.includes := rfl

def makeSet (items : List String) : NameSet :=
  items.foldl (fun s i => insert i s) ∅

theorem mem_foldl_insert {items : List String} {s : NameSet} {x : String} :
    x ∈ items.foldl (fun s i => insert i s) s ↔ x ∈ s ∨ x ∈ items := by
  induction items generalizing s with
  | nil => simp
  | cons i items ih =>
    rw [List.foldl_cons, ih, Finset.mem_insert, List.mem_cons]
    tauto

@[simp] theorem mem_makeSet {items : List String} {x : String} : x ∈ makeSet items ↔ x ∈ items := by
  rw [makeSet, mem_foldl_insert]
  simp

/-- Every name the graph knows of, as a key or in a list. -/
def Graph.universe (g : Graph) : Finset String :=
  g.vertices ∪ g.vertices.biUnion fun v => (g.edges v).toFinset

theorem Graph.mem_universe_of_mem {g : Graph} {v : String} (h : v ∈ g.vertices) :
    v ∈ g.universe :=
  Finset.mem_union_left _ h

theorem Graph.edges_universe {g : Graph} {v w : String} (h : w ∈ g.edges v) :
    w ∈ g.universe := by
  refine Finset.mem_union_right _ (Finset.mem_biUnion.2 ⟨v, ?_, List.mem_toFinset.2 h⟩)
  by_contra hv
  rw [g.edges_eq_nil v hv] at h
  simp at h

/-- The graph seen through an ignore set: the guard admits the names not ignored. -/
def Graph.guarded (g : Graph) (ignored : NameSet) : Guarded String where
  succ := g.edges
  ok := fun v => decide (v ∉ ignored)

@[simp] theorem guarded_succ (g : Graph) (ignored : NameSet) :
    (g.guarded ignored).succ = g.edges := rfl

@[simp] theorem guarded_ok {g : Graph} {ignored : NameSet} {v : String} :
    (g.guarded ignored).ok v = true ↔ v ∉ ignored := by
  simp [Graph.guarded]

@[simp] theorem guarded_not_ok {g : Graph} {ignored : NameSet} {v : String} :
    (g.guarded ignored).ok v = false ↔ v ∈ ignored := by
  simp [Graph.guarded]

/-- The inclusion graph of a feature set without the ignored features. -/
abbrev FeatureSet.inclusion (allFeatures : FeatureSet) (ignored : NameSet) : Guarded String :=
  (buildInclusionGraph allFeatures).guarded ignored

/-- No feature includes itself, directly or through others. -/
def FeatureSet.Acyclic (allFeatures : FeatureSet) : Prop :=
  ∀ v, ¬ Relation.TransGen (fun u w => w ∈ allFeatures.includes u) v v

theorem FeatureSet.Acyclic.inclusion {allFeatures : FeatureSet} (h : allFeatures.Acyclic)
    (ignored : NameSet) : (allFeatures.inclusion ignored).Acyclic :=
  Guarded.acyclic_of_succ h

/-- A rank that goes down along every include list shows that there is no cycle. -/
theorem FeatureSet.acyclic_of_rank {allFeatures : FeatureSet} (rank : String → ℕ)
    (h : ∀ u ∈ allFeatures.keys, ∀ w ∈ allFeatures.includes u, rank w < rank u) :
    allFeatures.Acyclic := by
  have hstep : ∀ u w, w ∈ allFeatures.includes u → rank w < rank u := by
    intro u w hw
    by_cases hu : u ∈ allFeatures
    · exact h u (AList.mem_keys.1 hu) w hw
    · rw [FeatureSet.includes_of_notMem hu] at hw
      simp at hw
  have hpath : ∀ u w, Relation.TransGen (fun u w => w ∈ allFeatures.includes u) u w →
      rank w < rank u := by
    intro u w huw
    induction huw with
    | single hw => exact hstep _ _ hw
    | tail _ hw ih => exact (hstep _ _ hw).trans ih
  exact fun v hv => (hpath v v hv).false

/-! ## Errors -/

/-- What the commands report on failure. -/
inductive FeatError
  | notPartOfGraph (origin : String)
  | partOfLoop (name : String)
  | excluded (name : String)
  | doesNotExist (name : String)
  | multiplePlatforms (first second : String)
  | noPlatform
  | inCommand (cmd : String) (err : FeatError)
  deriving DecidableEq, Repr

/-- The texts given to `fmt.Errorf`. -/
def FeatError.message : FeatError → String
  | .notPartOfGraph origin => origin ++ " is not part of the graph"
  | .partOfLoop name => name ++ " is part of a loop"
  | .excluded name => name ++ " has been excluded by another feature"
  | .doesNotExist name => "feature " ++ name ++ " does not exist"
  | .multiplePlatforms first second =>
    "cannot have multiple platforms: " ++ first ++ " and " ++ second
  | .noPlatform => "must have a platform"
  | .inCommand cmd err => cmd ++ ": " ++ err.message

/-- `fmt.Errorf("<cmd>: %w", err)`. -/
def wrap {β : Type} (cmd : String) : Except FeatError β → Except FeatError β
  | .ok b => .ok b
  | .error e => .error (.inCommand cmd e)

theorem bind_ok_iff {ε β γ : Type} {x : Except ε β} {k : β → Except ε γ} {c : γ} :
    (x >>= k) = .ok c ↔ ∃ b, x = .ok b ∧ k b = .ok c := by
  cases x <;> simp [bind, Except.bind]

theorem map_ok_iff {ε β γ : Type} {x : Except ε β} {f : β → γ} {c : γ} :
    x.map f = .ok c ↔ ∃ b, x = .ok b ∧ f b = c := by
  cases x <;> simp [Except.map]

theorem mapError_ok_iff {ε ε' α : Type} {x : Except ε α} {f : ε → ε'} {a : α} :
    x.mapError f = .ok a ↔ x = .ok a := by
  cases x <;> simp [Except.mapError]

end GardenFeat
