import GardenLinux.Feat.Reduce

/-!
# The canonical name

`cnameCmd` of `bin/garden-feat.go` expands and checks the request, reduces it, sorts the
reduced names by type and name, and prints them joined to one word.

What is proved here:

* `sortFeatures_ok_iff` — when sorting succeeds and what it returns;
* `expandFeatures_reduced` — the reduced request expands to the same features;
* `cnameCmd_ok_iff` and `cnameCmd_congr` — the name depends on the generators of the
  request only, so requests that expand to the same features have the same name;
* `reduceFeatures_canonical` — reduction is a canonical minimal generator of a request of
  which the empty feature is no generator.
-/

namespace GardenFeat

/-! ## Sorting -/

/-- The three lists of `sortFeatures`. -/
structure Sorting where
  platforms : List String
  others : List String
  flags : List String

/-- `for _, f := range unsorted`. -/
def sortLoop (allFeatures : FeatureSet) (validatePlatform : Bool) :
    List String → Sorting → Except FeatError Sorting
  | [], s => .ok s
  | f :: fs, s =>
    match allFeatures.lookup f with
    | none => .error (.doesNotExist f)
    | some feat =>
      if feat.type = "platform" then
        match validatePlatform, s.platforms with
        | true, p :: _ => .error (.multiplePlatforms p f)
        | _, _ => sortLoop allFeatures validatePlatform fs { s with platforms := s.platforms ++ [f] }
      else if feat.type = "flag" then
        sortLoop allFeatures validatePlatform fs { s with flags := s.flags ++ [f] }
      else
        sortLoop allFeatures validatePlatform fs { s with others := s.others ++ [f] }

/-- `sort.Strings`. -/
def sortStrings (l : List String) : List String :=
  sortOn id l

def sortFeatures (allFeatures : FeatureSet) (unsorted : List String)
    (strict validatePlatform : Bool) : Except FeatError (List String) :=
  match sortLoop allFeatures validatePlatform unsorted ⟨[], [], []⟩ with
  | .error e => .error e
  | .ok s =>
    if validatePlatform && s.platforms.isEmpty then .error .noPlatform
    else if strict then
      .ok (sortStrings s.platforms ++ sortStrings s.others ++ sortStrings s.flags)
    else .ok (s.platforms ++ s.others ++ s.flags)

/-- `allFeatures[f].Type`. -/
def FeatureSet.typeOf (allFeatures : FeatureSet) (f : String) : String :=
  (allFeatures.lookup f).elim "" (·.type)

def isPlatform (allFeatures : FeatureSet) (f : String) : Bool :=
  allFeatures.typeOf f = "platform"

def isFlag (allFeatures : FeatureSet) (f : String) : Bool :=
  allFeatures.typeOf f = "flag"

def isOther (allFeatures : FeatureSet) (f : String) : Bool :=
  !isPlatform allFeatures f && !isFlag allFeatures f

variable {allFeatures : FeatureSet}

theorem sortLoop_ok_iff {validatePlatform : Bool} {unsorted : List String} {s s' : Sorting}
    (hs : s.platforms.length ≤ 1 ∨ validatePlatform = false) :
    sortLoop allFeatures validatePlatform unsorted s = .ok s' ↔
      (∀ f ∈ unsorted, f ∈ allFeatures) ∧
        (validatePlatform = true →
          (s.platforms ++ unsorted.filter (isPlatform allFeatures)).length ≤ 1) ∧
        s' = ⟨s.platforms ++ unsorted.filter (isPlatform allFeatures),
          s.others ++ unsorted.filter (isOther allFeatures),
          s.flags ++ unsorted.filter (isFlag allFeatures)⟩ := by
  induction unsorted generalizing s with
  | nil =>
    simp only [sortLoop, Except.ok.injEq, List.filter_nil, List.append_nil]
    constructor
    · rintro rfl
      refine ⟨by simp, fun hv => hs.resolve_right (by simp [hv]), rfl⟩
    · rintro ⟨-, -, rfl⟩
      rfl
  | cons f fs ih =>
    unfold sortLoop
    cases hlook : allFeatures.lookup f with
    | none =>
      have hf : f ∉ allFeatures := AList.lookup_eq_none.1 hlook
      simp [hf]
    | some feat =>
      have hf : f ∈ allFeatures := AList.lookup_isSome.1 (by simp [hlook])
      have htype : allFeatures.typeOf f = feat.type := by simp [FeatureSet.typeOf, hlook]
      by_cases hp : feat.type = "platform"
      · have hplat : isPlatform allFeatures f = true := by simp [isPlatform, htype, hp]
        have hflag : isFlag allFeatures f = false := by simp [isFlag, htype, hp]
        have hother : isOther allFeatures f = false := by simp [isOther, hplat]
        obtain ⟨platforms, others, flags⟩ := s
        cases validatePlatform with
        | false =>
          have hstep := ih (s := ⟨platforms ++ [f], others, flags⟩) (Or.inr rfl)
          simpa [hp, hf, hplat, hflag, hother] using hstep
        | true =>
          cases platforms with
          | nil =>
            have hstep := ih (s := ⟨[f], others, flags⟩) (Or.inl (by simp))
            simpa [hp, hf, hplat, hflag, hother] using hstep
          | cons p ps => simp [hp, hplat]
      · by_cases hfl : feat.type = "flag"
        · have hplat : isPlatform allFeatures f = false := by simp [isPlatform, htype, hp]
          have hflag : isFlag allFeatures f = true := by simp [isFlag, htype, hfl]
          have hother : isOther allFeatures f = false := by simp [isOther, hflag]
          have hstep := ih (s := ⟨s.platforms, s.others, s.flags ++ [f]⟩) hs
          simpa [hfl, hf, hplat, hflag, hother] using hstep
        · have hplat : isPlatform allFeatures f = false := by simp [isPlatform, htype, hp]
          have hflag : isFlag allFeatures f = false := by simp [isFlag, htype, hfl]
          have hother : isOther allFeatures f = true := by simp [isOther, hplat, hflag]
          have hstep := ih (s := ⟨s.platforms, s.others ++ [f], s.flags⟩) hs
          simpa [hp, hfl, hf, hplat, hflag, hother] using hstep

/-- The order in which `sortFeatures` returns the names. -/
def arranged (allFeatures : FeatureSet) (strict : Bool) (unsorted : List String) : List String :=
  let order := if strict then sortStrings else id
  order (unsorted.filter (isPlatform allFeatures)) ++
    order (unsorted.filter (isOther allFeatures)) ++ order (unsorted.filter (isFlag allFeatures))

/-- Sorting succeeds for existing features, of which exactly one is a platform where that
is asked for. -/
theorem sortFeatures_ok_iff {unsorted sorted : List String} {strict validatePlatform : Bool} :
    sortFeatures allFeatures unsorted strict validatePlatform = .ok sorted ↔
      (∀ f ∈ unsorted, f ∈ allFeatures) ∧
        (validatePlatform = true → (unsorted.filter (isPlatform allFeatures)).length = 1) ∧
        sorted = arranged allFeatures strict unsorted := by
  have hloop : ∀ s', sortLoop allFeatures validatePlatform unsorted ⟨[], [], []⟩ = .ok s' ↔
      (∀ f ∈ unsorted, f ∈ allFeatures) ∧
        (validatePlatform = true → (unsorted.filter (isPlatform allFeatures)).length ≤ 1) ∧
        s' = ⟨unsorted.filter (isPlatform allFeatures), unsorted.filter (isOther allFeatures),
          unsorted.filter (isFlag allFeatures)⟩ := fun s' =>
    sortLoop_ok_iff (Or.inl (by simp))
  rw [sortFeatures]
  cases hres : sortLoop allFeatures validatePlatform unsorted ⟨[], [], []⟩ with
  | error e =>
    refine ⟨fun h => by simp at h, ?_⟩
    rintro ⟨hfs, hone, -⟩
    rw [(hloop _).2 ⟨hfs, fun hv => (hone hv).le, rfl⟩] at hres
    cases hres
  | ok s =>
    obtain ⟨hfs, hle, rfl⟩ := (hloop s).1 hres
    simp only
    by_cases hempty : (validatePlatform && (unsorted.filter (isPlatform allFeatures)).isEmpty) = true
    · rw [if_pos hempty]
      refine ⟨fun h => by simp at h, ?_⟩
      rintro ⟨-, hone, -⟩
      rw [Bool.and_eq_true, List.isEmpty_iff] at hempty
      have hlen := hone hempty.1
      rw [hempty.2] at hlen
      simp at hlen
    · rw [if_neg hempty]
      have hone : validatePlatform = true → (unsorted.filter (isPlatform allFeatures)).length = 1 := by
        intro hv
        have hpos : unsorted.filter (isPlatform allFeatures) ≠ [] := by
          intro hnil
          simp [hv, hnil] at hempty
        have hlt := List.length_pos_of_ne_nil hpos
        have hle' := hle hv
        omega
      have hrest : (∀ f ∈ unsorted, f ∈ allFeatures) ∧ (validatePlatform = true →
          (unsorted.filter (isPlatform allFeatures)).length = 1) := ⟨hfs, hone⟩
      rw [← and_assoc, and_iff_right hrest]
      cases strict <;> simp [arranged, eq_comm]

theorem sortStrings_perm {l l' : List String} (h : l.Perm l') : sortStrings l = sortStrings l' :=
  sortOn_congr h fun _ _ _ _ heq => heq

/-- Strict sorting forgets the order it is given. -/
theorem arranged_perm {l l' : List String} (h : l.Perm l') :
    arranged allFeatures true l = arranged allFeatures true l' := by
  simp only [arranged, if_true]
  rw [sortStrings_perm (h.filter _), sortStrings_perm (h.filter (isOther allFeatures)),
    sortStrings_perm (h.filter (isFlag allFeatures))]

/-! ## Printing -/

/-- The loop of `printCname` from index `i` on, with what has been printed. -/
def printCnameLoop (allFeatures : FeatureSet) :
    ℕ → List String → String → Except FeatError String
  | _, [], out => .ok (out ++ "\n")
  | i, f :: fs, out =>
    match allFeatures.lookup f with
    | none => .error (.doesNotExist f)
    | some feat =>
      printCnameLoop allFeatures (i + 1) fs
        (out ++ (if feat.type ≠ "flag" ∧ 0 < i then "-" else "") ++ f)

/-- The line `printCname` prints. -/
def printCname (allFeatures : FeatureSet) (features : List String) : Except FeatError String :=
  printCnameLoop allFeatures 0 features ""

/-- The line `cnameCmd` prints. -/
def cnameCmd (order : MapOrder) (allFeatures : FeatureSet) (features ignore : List String) :
    Except FeatError String :=
  let ignored := makeSet ignore
  wrap "cname" do
    let (expanded, _) ← expandFeatures allFeatures features ignored
    let _ ← sortFeatures allFeatures expanded false true
    let reduced ← reduceFeatures order allFeatures features ignored
    let sorted ← sortFeatures allFeatures reduced true false
    printCname allFeatures sorted

/-! ## The reduced request -/

variable {ignored : NameSet}

/-- Without cycles a request of existing features expands to what it reaches, unless a
feature of the closure is excluded. -/
theorem exists_expansion (hac : allFeatures.Acyclic) {features : List String}
    (hfs : ∀ f ∈ features, f ∈ allFeatures)
    (hcompat : ∀ u v, (allFeatures.inclusion ignored).ReachedFrom features u →
      (allFeatures.inclusion ignored).ReachedFrom features v → v ∉ allFeatures.excludes u) :
    ∃ expanded collectedIgn,
      expandFeatures allFeatures features ignored = .ok (expanded, collectedIgn) := by
  rcases sweep_or_loops_features ignored ∅ hfs with ⟨seen, tr, hsweep⟩ | ⟨w, hloops⟩
  · refine ⟨_, _, expandFeatures_ok_iff.2 ⟨hfs, seen, tr, hsweep, rfl, rfl, ?_⟩⟩
    intro u hu v hv
    exact hcompat u v (hsweep.mem_emitted_iff.1 hu) (hsweep.mem_emitted_iff.1 hv)
  · exact absurd hloops.hasCycle ((hac.inclusion ignored).not_hasCycleFrom _)

/-- No two features of an expansion exclude each other. -/
theorem compatible_of_expandFeatures {features expanded : List String} {collectedIgn : NameSet}
    (h : expandFeatures allFeatures features ignored = .ok (expanded, collectedIgn)) (u v : String)
    (hu : (allFeatures.inclusion ignored).ReachedFrom features u)
    (hv : (allFeatures.inclusion ignored).ReachedFrom features v) :
    v ∉ allFeatures.excludes u := by
  rw [← mem_of_expandFeatures h] at hu hv
  obtain ⟨-, -, -, -, -, -, hcompat⟩ := expandFeatures_ok_iff.1 h
  exact hcompat u hu v hv

/-- A list of the generators of a request expands to the same features. -/
theorem expandFeatures_reduced (hac : allFeatures.Acyclic) {features expanded reduced : List String}
    {collectedIgn : NameSet}
    (h : expandFeatures allFeatures features ignored = .ok (expanded, collectedIgn))
    (hgen : ∀ v, v ∈ reduced ↔ (allFeatures.inclusion ignored).IsGenerator features v) :
    ∃ expanded' collectedIgn',
      expandFeatures allFeatures reduced ignored = .ok (expanded', collectedIgn') ∧
        ∀ v, v ∈ expanded' ↔ v ∈ expanded := by
  have hreach := Guarded.reachedFrom_generators (hac.inclusion ignored) hgen
  have hfs : ∀ f ∈ reduced, f ∈ allFeatures := fun f hf =>
    (expandFeatures_ok_iff.1 h).1 f ((hgen f).1 hf).1
  obtain ⟨expanded', collectedIgn', h'⟩ := exists_expansion hac hfs fun u v hu hv =>
    compatible_of_expandFeatures h u v ((hreach u).1 hu) ((hreach v).1 hv)
  refine ⟨expanded', collectedIgn', h', fun v => ?_⟩
  rw [mem_of_expandFeatures h', mem_of_expandFeatures h, hreach]

/-- If the empty feature is none of them, the generators of a request are those of its named
entries. -/
theorem isGenerator_named (hac : allFeatures.Acyclic) {features : List String}
    (hempty : ¬ (allFeatures.inclusion ignored).IsGenerator features "") (v : String) :
    (allFeatures.inclusion ignored).IsGenerator (features.filter (· ≠ "")) v ↔
      (allFeatures.inclusion ignored).IsGenerator features v := by
  have hmem : ∀ r, r ∈ features.filter (· ≠ "") ↔ r ∈ features ∧ r ≠ "" := fun r => by
    rw [List.mem_filter, decide_eq_true_eq]
  constructor
  · rintro ⟨hv, hok, hmin⟩
    obtain ⟨hv, hne⟩ := (hmem v).1 hv
    refine ⟨hv, hok, fun r hr hrok hrv hreach => ?_⟩
    by_cases hr' : r = ""
    · -- a generator reaches the empty feature, and so the feature below it
      subst hr'
      obtain ⟨r', hgen, hreach'⟩ := Guarded.exists_generator_reach (hac.inclusion ignored) hr hrok
      have hr'' : r' ≠ "" := fun heq => hempty (heq ▸ hgen)
      by_cases heq : r' = v
      · exact hrv ((hac.inclusion ignored).antisymm hreach (heq ▸ hreach'))
      · exact hmin r' ((hmem r').2 ⟨hgen.1, hr''⟩) hgen.2.1 heq (hreach'.trans hreach)
    · exact hmin r ((hmem r).2 ⟨hr, hr'⟩) hrok hrv hreach
  · intro hgen
    have hne : v ≠ "" := fun heq => hempty (heq ▸ hgen)
    exact ⟨(hmem v).2 ⟨hgen.1, hne⟩, hgen.2.1, fun r hr => hgen.2.2 r ((hmem r).1 hr).1⟩

/-! ## The printed name -/

theorem wrap_ok_iff {β : Type} {cmd : String} {x : Except FeatError β} {b : β} :
    wrap cmd x = .ok b ↔ x = .ok b := by
  cases x <;> simp [wrap]

/-- What `cnameCmd` prints for a request: its generators, strictly sorted. -/
theorem cnameCmd_ok_iff (order : MapOrder) (hac : allFeatures.Acyclic)
    {features ignore expanded : List String} {collectedIgn : NameSet}
    (hempty : ¬ (allFeatures.inclusion (makeSet ignore)).IsGenerator features "")
    (h : expandFeatures allFeatures features (makeSet ignore) = .ok (expanded, collectedIgn)) :
    ∃ reduced, reduced.Nodup ∧
      (∀ v, v ∈ reduced ↔ (allFeatures.inclusion (makeSet ignore)).IsGenerator features v) ∧
      ∀ name, cnameCmd order allFeatures features ignore = .ok name ↔
        (∀ f ∈ expanded, f ∈ allFeatures) ∧
          (expanded.filter (isPlatform allFeatures)).length = 1 ∧
          printCname allFeatures (arranged allFeatures true reduced) = .ok name := by
  obtain ⟨reduced, hred, hnd, hgen⟩ := reduceFeatures_ok order hac h
  simp only [isGenerator_named hac hempty] at hgen
  have hexist : ∀ f ∈ reduced, f ∈ allFeatures := fun f hf =>
    (expandFeatures_ok_iff.1 h).1 f ((hgen f).1 hf).1
  refine ⟨reduced, hnd, hgen, fun name => ?_⟩
  unfold cnameCmd
  simp only [wrap_ok_iff, bind_ok_iff, h, hred, Except.ok.injEq, sortFeatures_ok_iff]
  constructor
  · rintro ⟨_, rfl, _, ⟨hall, hone, -⟩, _, rfl, _, ⟨-, -, rfl⟩, hname⟩
    exact ⟨hall, hone trivial, hname⟩
  · rintro ⟨hall, hone, hname⟩
    exact ⟨_, rfl, _, ⟨hall, fun _ => hone, rfl⟩, _, rfl, _, ⟨hexist, by simp, rfl⟩, hname⟩

/-- Requests that expand to the same features have the same name. -/
theorem cnameCmd_congr (order order' : MapOrder) (hac : allFeatures.Acyclic)
    {features features' ignore ignore' expanded expanded' : List String}
    {collectedIgn collectedIgn' : NameSet} (hignore : makeSet ignore' = makeSet ignore)
    (hempty : ¬ (allFeatures.inclusion (makeSet ignore)).IsGenerator features "")
    (h : expandFeatures allFeatures features (makeSet ignore) = .ok (expanded, collectedIgn))
    (h' : expandFeatures allFeatures features' (makeSet ignore) = .ok (expanded', collectedIgn'))
    (hsame : ∀ v, v ∈ expanded' ↔ v ∈ expanded) (name : String) :
    cnameCmd order' allFeatures features' ignore' = .ok name ↔
      cnameCmd order allFeatures features ignore = .ok name := by
  have hreach : ∀ v, (allFeatures.inclusion (makeSet ignore)).ReachedFrom features' v ↔
      (allFeatures.inclusion (makeSet ignore)).ReachedFrom features v := fun v => by
    rw [← mem_of_expandFeatures h', ← mem_of_expandFeatures h, hsame]
  have hempty' : ¬ (allFeatures.inclusion (makeSet ignore)).IsGenerator features' "" := by
    rwa [Guarded.isGenerator_congr (hac.inclusion _) hreach]
  obtain ⟨reduced, hnd, hgen, hname⟩ := cnameCmd_ok_iff order hac hempty h
  rw [← hignore] at h' hempty'
  obtain ⟨reduced', hnd', hgen', hname'⟩ := cnameCmd_ok_iff order' hac hempty' h'
  rw [hignore] at h' hgen'
  have hred : reduced'.Perm reduced := by
    refine (List.perm_ext_iff_of_nodup hnd' hnd).2 fun v => ?_
    rw [hgen, hgen', Guarded.isGenerator_congr (hac.inclusion _) hreach]
  have hexp : expanded'.Perm expanded :=
    (List.perm_ext_iff_of_nodup (nodup_of_expandFeatures h') (nodup_of_expandFeatures h)).2 hsame
  rw [hname, hname', arranged_perm hred, (hexp.filter _).length_eq]
  simp only [hsame]

/-! ## Reduction is canonical -/

/-- For an acyclic graph and a request that expands, with the empty feature not among its
generators: the reduced request lists, each once, the requested features that no other one
reaches, it expands to the same features, and every request with the same expansion has its
name. -/
theorem reduceFeatures_canonical (order : MapOrder) (hac : allFeatures.Acyclic)
    {features ignore expanded : List String} {collectedIgn : NameSet}
    (hempty : ¬ (allFeatures.inclusion (makeSet ignore)).IsGenerator features "")
    (h : expandFeatures allFeatures features (makeSet ignore) = .ok (expanded, collectedIgn)) :
    (∃ reduced, reduceFeatures order allFeatures features (makeSet ignore) = .ok reduced ∧
      reduced.Nodup ∧
      (∀ v, v ∈ reduced ↔ (allFeatures.inclusion (makeSet ignore)).IsGenerator features v) ∧
      ∃ expanded' collectedIgn',
        expandFeatures allFeatures reduced (makeSet ignore) = .ok (expanded', collectedIgn') ∧
          ∀ v, v ∈ expanded' ↔ v ∈ expanded) ∧
    ∀ (order' : MapOrder) (features' ignore' expanded' : List String) (collectedIgn' : NameSet),
      makeSet ignore' = makeSet ignore →
      expandFeatures allFeatures features' (makeSet ignore) = .ok (expanded', collectedIgn') →
      (∀ v, v ∈ expanded' ↔ v ∈ expanded) →
      ∀ name, cnameCmd order' allFeatures features' ignore' = .ok name ↔
        cnameCmd order allFeatures features ignore = .ok name := by
  constructor
  · obtain ⟨reduced, hred, hnd, hgen⟩ := reduceFeatures_ok order hac h
    simp only [isGenerator_named hac hempty] at hgen
    exact ⟨reduced, hred, hnd, hgen, expandFeatures_reduced hac h hgen⟩
  · intro order' features' ignore' expanded' collectedIgn' hignore h' hsame name
    exact cnameCmd_congr order order' hac hignore hempty h h' hsame name

theorem shortcutFeatures_acyclic : shortcutFeatures.Acyclic :=
  FeatureSet.acyclic_of_rank
    (fun f => if f = "aws" then 2 else if f = "gardener" then 1 else 0) (by decide +kernel)

theorem reduceFeatures_canonical_aws :
    (∃ reduced, reduceFeatures .sorted shortcutFeatures ["server", "aws"] (makeSet []) =
        .ok reduced ∧ reduced.Nodup ∧
      (∀ v, v ∈ reduced ↔
        (shortcutFeatures.inclusion (makeSet [])).IsGenerator ["server", "aws"] v) ∧
      ∃ expanded' collectedIgn',
        expandFeatures shortcutFeatures reduced (makeSet []) = .ok (expanded', collectedIgn') ∧
          ∀ v, v ∈ expanded' ↔ v ∈ ["server", "gardener", "aws"]) ∧
    ∀ name, cnameCmd .sorted shortcutFeatures ["aws"] [] = .ok name ↔
      cnameCmd .sorted shortcutFeatures ["server", "aws"] [] = .ok name := by
  obtain ⟨hred, hname⟩ := reduceFeatures_canonical .sorted shortcutFeatures_acyclic
    (fun hgen => absurd hgen.1 (by decide))
    (show expandFeatures shortcutFeatures ["server", "aws"] (makeSet []) =
      .ok (["server", "gardener", "aws"], ∅) by decide +kernel)
  exact ⟨hred, hname .sorted ["aws"] [] ["gardener", "server", "aws"] ∅ rfl
    (by decide +kernel) (by simp [or_left_comm])⟩

/-- A feature set of one platform with an empty name. -/
def unnamedFeatures : FeatureSet := FeatureSet.ofEntries [("", ⟨"platform", [], []⟩)]

/-- A requested feature with an empty name is skipped as if its entry had been blanked. -/
theorem reduceFeatures_drops_unnamed :
    ¬ ∀ (order : MapOrder) (allFeatures : FeatureSet) (features : List String)
        (ignored : NameSet) (expanded : List String) (collectedIgn : NameSet),
      allFeatures.Acyclic →
      expandFeatures allFeatures features ignored = .ok (expanded, collectedIgn) →
      ∃ reduced, reduceFeatures order allFeatures features ignored = .ok reduced ∧
        ∀ v, v ∈ reduced ↔ (allFeatures.inclusion ignored).IsGenerator features v := by
  intro h
  have hac : unnamedFeatures.Acyclic :=
    FeatureSet.acyclic_of_rank (fun _ => 0) (by decide +kernel)
  obtain ⟨reduced, hred, hgen⟩ := h .sorted unnamedFeatures [""] ∅ [""] ∅ hac (by decide +kernel)
  have hnil : reduceFeatures .sorted unnamedFeatures [""] ∅ = .ok [] := by decide +kernel
  rw [hnil] at hred
  cases hred
  have hmem : "" ∈ ([] : List String) :=
    (hgen "").2 ⟨by simp, by simp, fun r hr _ hne => absurd (List.mem_singleton.1 hr) hne⟩
  simp at hmem

end GardenFeat
