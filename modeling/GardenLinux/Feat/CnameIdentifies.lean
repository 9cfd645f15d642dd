import GardenLinux.Lib.Text
import GardenLinux.Feat.Cname

/-!
# The canonical name identifies the selection

`printCname` of `bin/garden-feat.go` writes flags after what stands before them and other
names after a `-`.  By the naming convention flags begin with the only `_` of their name and
other names have neither mark, so that the name can be taken apart again.

What is proved here:

* `printCname_injective` — lists of named features are told apart by what is printed;
* `cnameCmd_identifies` — requests of one name, of which the empty feature is no generator,
  expand to the same features;
* `cnameCmd_empty_feature` — a request with the empty feature for a generator has the name of
  one without it.
-/

namespace GardenFeat

variable {allFeatures : FeatureSet}

/-! ## The naming convention -/

/-- What a name has at the beginning of a part of the printed name. -/
def isMark (c : Char) : Bool := c = '_' || c = '-'

/-- Names of flags begin with `_` and have no further `_` or `-`; all other names have
neither. -/
def FollowsConvention (allFeatures : FeatureSet) : Prop :=
  ∀ f ∈ allFeatures,
    if isFlag allFeatures f then ∃ cs, f.toList = '_' :: cs ∧ ∀ c ∈ cs, ¬ isMark c
    else ∀ c ∈ f.toList, ¬ isMark c

/-- What is printed for a feature that is not the first one. -/
def cnamePart (allFeatures : FeatureSet) (f : String) : List Char :=
  if isFlag allFeatures f then f.toList else '-' :: f.toList

theorem marked_cnamePart (hconv : FollowsConvention allFeatures) {f : String}
    (hf : f ∈ allFeatures) : Text.Marked isMark (cnamePart allFeatures f) := by
  have h := hconv f hf
  rw [cnamePart]
  split
  · next hflag =>
    rw [if_pos hflag] at h
    obtain ⟨cs, hcs, hmarks⟩ := h
    exact ⟨'_', cs, hcs, by decide, hmarks⟩
  · next hflag =>
    rw [if_neg hflag] at h
    exact ⟨'-', f.toList, rfl, by decide, h⟩

theorem cnamePart_injective (hconv : FollowsConvention allFeatures) {f f' : String}
    (hf : f ∈ allFeatures) (hf' : f' ∈ allFeatures)
    (h : cnamePart allFeatures f = cnamePart allFeatures f') : f = f' := by
  have hdash : ∀ {f}, f ∈ allFeatures → isFlag allFeatures f → ∀ cs, f.toList ≠ '-' :: cs := by
    intro f hf hflag cs heq
    have hname := hconv f hf
    rw [if_pos hflag] at hname
    obtain ⟨cs', hcs', -⟩ := hname
    rw [hcs'] at heq
    simp at heq
  rw [cnamePart, cnamePart] at h
  split_ifs at h with hflag hflag'
  · exact String.toList_injective h
  · exact absurd h (hdash hf hflag _)
  · exact absurd h.symm (hdash hf' (by assumption) _)
  · exact String.toList_injective (List.cons.inj h).2

/-! ## What is printed -/

/-- The names of a list in one word. -/
def cnameText (allFeatures : FeatureSet) : List String → List Char
  | [] => []
  | f :: fs => f.toList ++ (fs.map (cnamePart allFeatures)).flatten

theorem typeOf_of_lookup {f : String} {feat : Feature} (h : allFeatures.lookup f = some feat) :
    isFlag allFeatures f = decide (feat.type = "flag") := by
  rw [isFlag, FeatureSet.typeOf, h, Option.elim_some]

theorem printCnameLoop_ok_iff {i : ℕ} (hi : 0 < i) {fs : List String} {out name : String} :
    printCnameLoop allFeatures i fs out = .ok name ↔
      (∀ f ∈ fs, f ∈ allFeatures) ∧
        name.toList = out.toList ++ (fs.map (cnamePart allFeatures)).flatten ++ ['\n'] := by
  induction fs generalizing i out with
  | nil =>
    rw [printCnameLoop, Except.ok.injEq, ← String.toList_inj]
    simp [eq_comm]
  | cons f fs ih =>
    rw [printCnameLoop, List.forall_mem_cons]
    cases hf : allFeatures.lookup f with
    | none =>
      have hmem : f ∉ allFeatures := AList.lookup_eq_none.1 hf
      simp [hmem]
    | some feat =>
      have hmem : f ∈ allFeatures := AList.lookup_isSome.1 (by rw [hf]; rfl)
      simp only [ih (Nat.succ_pos i), hmem, true_and]
      have hpart : (out ++ (if feat.type ≠ "flag" ∧ 0 < i then "-" else "") ++ f).toList =
          out.toList ++ cnamePart allFeatures f := by
        rw [cnamePart, typeOf_of_lookup hf]
        by_cases htype : feat.type = "flag" <;> simp [htype, hi]
      rw [hpart, List.map_cons, List.flatten_cons, List.append_assoc out.toList]

theorem printCname_ok_iff {fs : List String} {name : String} :
    printCname allFeatures fs = .ok name ↔
      (∀ f ∈ fs, f ∈ allFeatures) ∧ name.toList = cnameText allFeatures fs ++ ['\n'] := by
  cases fs with
  | nil =>
    rw [printCname, printCnameLoop, Except.ok.injEq, ← String.toList_inj]
    simp [cnameText, eq_comm]
  | cons f fs =>
    rw [printCname, printCnameLoop, List.forall_mem_cons]
    cases hf : allFeatures.lookup f with
    | none =>
      have hmem : f ∉ allFeatures := AList.lookup_eq_none.1 hf
      simp [hmem]
    | some feat =>
      have hmem : f ∈ allFeatures := AList.lookup_isSome.1 (by rw [hf]; rfl)
      simp [printCnameLoop_ok_iff, hmem, cnameText]

/-- With the dash that the first name lacks, the text is made of the parts of all names. -/
theorem flatten_cnameParts (f : String) (fs : List String) :
    ((f :: fs).map (cnamePart allFeatures)).flatten =
      if isFlag allFeatures f then cnameText allFeatures (f :: fs)
      else '-' :: cnameText allFeatures (f :: fs) := by
  rw [List.map_cons, List.flatten_cons, cnamePart]
  split <;> rfl

/-- The first character tells whether the first name is that of a flag. -/
theorem isFlag_of_cnameText (hconv : FollowsConvention allFeatures) {f : String}
    {fs : List String} (hf : f ∈ allFeatures) (hne : f ≠ "") :
    isFlag allFeatures f = ((cnameText allFeatures (f :: fs)).head? = some '_') := by
  have hname := hconv f hf
  rw [cnameText]
  cases hcs : f.toList with
  | nil => exact absurd (String.toList_eq_nil_iff.1 hcs) hne
  | cons c cs =>
    by_cases hflag : isFlag allFeatures f
    · rw [if_pos hflag] at hname
      obtain ⟨cs', hcs', -⟩ := hname
      rw [hcs] at hcs'
      simp [hflag, (List.cons.inj hcs').1]
    · rw [if_neg hflag, hcs] at hname
      have hc : c ≠ '_' := by
        rintro rfl
        exact hname '_' (List.mem_cons_self ..) (by decide)
      simp [hflag, hc]

theorem flatten_cnameParts_injective (hconv : FollowsConvention allFeatures) {fs fs' : List String}
    (hfs : ∀ f ∈ fs, f ∈ allFeatures) (hfs' : ∀ f ∈ fs', f ∈ allFeatures)
    (h : (fs.map (cnamePart allFeatures)).flatten = (fs'.map (cnamePart allFeatures)).flatten) :
    fs = fs' := by
  have hmarked : ∀ {fs : List String}, (∀ f ∈ fs, f ∈ allFeatures) →
      ∀ part ∈ fs.map (cnamePart allFeatures), Text.Marked isMark part := by
    intro fs hfs part hpart
    obtain ⟨f, hf, rfl⟩ := List.mem_map.1 hpart
    exact marked_cnamePart hconv (hfs f hf)
  have hmap := Text.flatten_injective_of_marked (hmarked hfs) (hmarked hfs') h
  clear h
  induction fs generalizing fs' with
  | nil => exact (List.map_eq_nil_iff.1 hmap.symm).symm
  | cons f fs ih =>
    obtain ⟨f', fs'', rfl, hpart, hrest⟩ := List.map_eq_cons_iff.1 hmap.symm
    rw [List.forall_mem_cons] at hfs hfs'
    rw [cnamePart_injective hconv hfs'.1 hfs.1 hpart, ih hfs.2 hfs'.2 hrest.symm]

theorem cnameText_injective (hconv : FollowsConvention allFeatures) {fs fs' : List String}
    (hfs : ∀ f ∈ fs, f ∈ allFeatures ∧ f ≠ "") (hfs' : ∀ f ∈ fs', f ∈ allFeatures ∧ f ≠ "")
    (h : cnameText allFeatures fs = cnameText allFeatures fs') : fs = fs' := by
  refine flatten_cnameParts_injective hconv (fun f hf => (hfs f hf).1)
    (fun f hf => (hfs' f hf).1) ?_
  cases fs with
  | nil =>
    cases fs' with
    | nil => rfl
    | cons f' fs' =>
      obtain ⟨-, hne⟩ := hfs' f' (List.mem_cons_self ..)
      simp [cnameText, hne] at h
  | cons f fs =>
    obtain ⟨hf, hne⟩ := hfs f (List.mem_cons_self ..)
    cases fs' with
    | nil => simp [cnameText, hne] at h
    | cons f' fs' =>
      obtain ⟨hf', hne'⟩ := hfs' f' (List.mem_cons_self ..)
      -- the first characters agree, so both first names are flags or neither is
      have hflag : isFlag allFeatures f ↔ isFlag allFeatures f' := by
        rw [isFlag_of_cnameText hconv hf hne, isFlag_of_cnameText hconv hf' hne', h]
      rw [flatten_cnameParts, flatten_cnameParts, h]
      simp only [hflag]

/-- Lists of named features are told apart by what is printed. -/
theorem printCname_injective (hconv : FollowsConvention allFeatures) {fs fs' : List String}
    {name : String} (hfs : ∀ f ∈ fs, f ≠ "") (hfs' : ∀ f ∈ fs', f ≠ "")
    (h : printCname allFeatures fs = .ok name) (h' : printCname allFeatures fs' = .ok name) :
    fs = fs' := by
  rw [printCname_ok_iff] at h h'
  obtain ⟨hmem, hname⟩ := h
  obtain ⟨hmem', hname'⟩ := h'
  refine cnameText_injective hconv (fun f hf => ⟨hmem f hf, hfs f hf⟩)
    (fun f hf => ⟨hmem' f hf, hfs' f hf⟩) ?_
  exact List.append_cancel_right (hname.symm.trans hname')

/-! ## Requests with one name -/

theorem mem_arranged {strict : Bool} {fs : List String} {f : String} :
    f ∈ arranged allFeatures strict fs ↔ f ∈ fs := by
  have hkind : isPlatform allFeatures f ∨ isOther allFeatures f ∨ isFlag allFeatures f := by
    simp only [isPlatform, isOther, isFlag]
    grind
  have hsort : ∀ l : List String, f ∈ (if strict then sortStrings else id) l ↔ f ∈ l := by
    intro l
    cases strict
    · rfl
    · exact mem_sortOn
  simp only [arranged, List.mem_append, hsort, List.mem_filter]
  grind

theorem expansion_of_cnameCmd {order : MapOrder} {features ignore : List String} {name : String}
    (h : cnameCmd order allFeatures features ignore = .ok name) :
    ∃ expanded collectedIgn,
      expandFeatures allFeatures features (makeSet ignore) = .ok (expanded, collectedIgn) := by
  unfold cnameCmd at h
  simp only [wrap_ok_iff, bind_ok_iff] at h
  obtain ⟨⟨expanded, collectedIgn⟩, hexp, -⟩ := h
  exact ⟨expanded, collectedIgn, hexp⟩

/-- By the naming convention and without cycles, requests of one name expand to the same
features, if the empty feature is no generator of either. -/
theorem cnameCmd_identifies (order order' : MapOrder) (hac : allFeatures.Acyclic)
    (hconv : FollowsConvention allFeatures) {features features' ignore ignore' : List String}
    {name : String} (hignore : makeSet ignore' = makeSet ignore)
    (hempty : ¬ (allFeatures.inclusion (makeSet ignore)).IsGenerator features "")
    (hempty' : ¬ (allFeatures.inclusion (makeSet ignore)).IsGenerator features' "")
    (h : cnameCmd order allFeatures features ignore = .ok name)
    (h' : cnameCmd order' allFeatures features' ignore' = .ok name) :
    ∃ expanded collectedIgn expanded' collectedIgn',
      expandFeatures allFeatures features (makeSet ignore) = .ok (expanded, collectedIgn) ∧
        expandFeatures allFeatures features' (makeSet ignore) = .ok (expanded', collectedIgn') ∧
          ∀ v, v ∈ expanded' ↔ v ∈ expanded := by
  rw [← hignore] at hempty'
  obtain ⟨expanded, collectedIgn, hexp⟩ := expansion_of_cnameCmd h
  obtain ⟨expanded', collectedIgn', hexp'⟩ := expansion_of_cnameCmd h'
  obtain ⟨reduced, -, hgen, hname⟩ := cnameCmd_ok_iff order hac hempty hexp
  obtain ⟨reduced', -, hgen', hname'⟩ := cnameCmd_ok_iff order' hac hempty' hexp'
  obtain ⟨-, -, hprint⟩ := (hname name).1 h
  obtain ⟨-, -, hprint'⟩ := (hname' name).1 h'
  rw [hignore] at hexp' hgen' hempty'
  have hnamed : ∀ {features reduced : List String},
      ¬ (allFeatures.inclusion (makeSet ignore)).IsGenerator features "" →
      (∀ v, v ∈ reduced ↔ (allFeatures.inclusion (makeSet ignore)).IsGenerator features v) →
      ∀ f ∈ arranged allFeatures true reduced, f ≠ "" := by
    rintro features reduced hempty hgen f hf rfl
    exact hempty ((hgen "").1 (mem_arranged.1 hf))
  have harranged := printCname_injective hconv (hnamed hempty hgen) (hnamed hempty' hgen')
    hprint hprint'
  have hmem : ∀ v, v ∈ reduced' ↔ (allFeatures.inclusion (makeSet ignore)).IsGenerator features v := by
    intro v
    have hv : v ∈ arranged allFeatures true reduced' ↔ v ∈ reduced' := mem_arranged
    rw [← hv, ← harranged, mem_arranged, hgen]
  refine ⟨expanded, collectedIgn, expanded', collectedIgn', hexp, hexp', fun v => ?_⟩
  rw [mem_of_expandFeatures hexp', mem_of_expandFeatures hexp,
    ← Guarded.reachedFrom_generators (hac.inclusion _) hgen',
    ← Guarded.reachedFrom_generators (hac.inclusion _) hmem]

/-- A platform that includes an element, a flag, and an element with an empty name. -/
def flaggedFeatures : FeatureSet := FeatureSet.ofEntries
  [("aws", ⟨"platform", ["server"], []⟩), ("server", ⟨"element", [], []⟩),
    ("_dev", ⟨"flag", [], []⟩), ("", ⟨"element", [], []⟩)]

theorem flaggedFeatures_acyclic : flaggedFeatures.Acyclic :=
  FeatureSet.acyclic_of_rank (fun f => if f = "aws" then 1 else 0) (by decide +kernel)

theorem flaggedFeatures_followsConvention : FollowsConvention flaggedFeatures := by
  intro f hf
  have hkeys : flaggedFeatures.keys = ["", "_dev", "server", "aws"] := by decide +kernel
  have hmem := AList.mem_keys.1 hf
  rw [hkeys] at hmem
  simp only [List.mem_cons, List.not_mem_nil, or_false] at hmem
  rcases hmem with rfl | rfl | rfl | rfl
  · rw [if_neg (by decide +kernel)]
    simp [isMark]
  · rw [if_pos (by decide +kernel)]
    exact ⟨['d', 'e', 'v'], by simp, by simp [isMark]⟩
  · rw [if_neg (by decide +kernel)]
    simp [isMark]
  · rw [if_neg (by decide +kernel)]
    simp [isMark]

theorem cnameCmd_identifies_aws :
    ∃ expanded collectedIgn expanded' collectedIgn',
      expandFeatures flaggedFeatures ["aws", "_dev"] (makeSet []) = .ok (expanded, collectedIgn) ∧
        expandFeatures flaggedFeatures ["_dev", "server", "aws"] (makeSet []) =
          .ok (expanded', collectedIgn') ∧
            ∀ v, v ∈ expanded' ↔ v ∈ expanded :=
  cnameCmd_identifies .sorted .sorted flaggedFeatures_acyclic flaggedFeatures_followsConvention
    rfl (fun hgen => absurd hgen.1 (by decide)) (fun hgen => absurd hgen.1 (by decide))
    (show cnameCmd .sorted flaggedFeatures ["aws", "_dev"] [] = .ok "aws_dev\n" by decide +kernel)
    (show cnameCmd .sorted flaggedFeatures ["_dev", "server", "aws"] [] = .ok "aws_dev\n" by
      decide +kernel)

/-- A request with the empty feature for a generator has the name of one without it. -/
theorem cnameCmd_empty_feature :
    ¬ ∀ (order : MapOrder) (allFeatures : FeatureSet) (features features' ignore : List String)
        (name : String) (expanded expanded' : List String) (collectedIgn collectedIgn' : NameSet),
      allFeatures.Acyclic → FollowsConvention allFeatures →
      cnameCmd order allFeatures features ignore = .ok name →
      cnameCmd order allFeatures features' ignore = .ok name →
      expandFeatures allFeatures features (makeSet ignore) = .ok (expanded, collectedIgn) →
      expandFeatures allFeatures features' (makeSet ignore) = .ok (expanded', collectedIgn') →
      ∀ v, v ∈ expanded' ↔ v ∈ expanded := by
  intro h
  have hsame := h .sorted flaggedFeatures ["aws"] ["aws", ""] [] "aws\n" ["server", "aws"]
    ["server", "aws", ""] ∅ ∅ flaggedFeatures_acyclic flaggedFeatures_followsConvention
    (by decide +kernel) (by decide +kernel) (by decide +kernel) (by decide +kernel) ""
  simp at hsame

end GardenFeat
