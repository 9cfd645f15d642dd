import GardenLinux.Feat.FeatureSet

/-!
# Reading the feature directory

`readFeatures` of `bin/garden-feat.go`.  A feature is defined by `<name>/info.yaml` or by
`<name>.yaml` of the feature directory; the first is read from there, the second is looked
for in the working directory.

What is proved here:

* `readEntries_congr` — the outcome does not depend on the working directory as long as no
  `.yaml` file of the feature directory comes up;
* `perm_of_readEntries` — what definitions with different names contribute;
* `dependsOnDirOnly_iff` — exactly when the feature directory alone decides what is read;
* `dependsOnDirOnly_fails` — a directory with a `.yaml` file in it.
-/

namespace GardenFeat

/-! ## Files -/

inductive OsError
  | notExist
  | other (text : String)
  deriving DecidableEq, Repr

/-- What reading a file gives. -/
abbrev File (Content : Type) := Except OsError Content

/-- An entry of the feature directory: a directory with its `info.yaml`, or anything else
with what it contains. -/
inductive Node (Content : Type)
  | directory (info : File Content)
  | file (own : File Content)

/-- What `ioutil.ReadDir` returns, sorted by name. -/
structure FeatureDir (Content : Type) where
  entries : List (String × Node Content)
  sorted : (entries.map Prod.fst).Pairwise (· < ·)

/-- The path that is read: `<featDir>/<featName>/info.yaml`, or a bare name. -/
inductive FeatFile
  | infoYaml (featName : String)
  | bare (name : String)
  deriving DecidableEq, Repr

inductive ReadError
  | readDir (err : OsError)
  | readFile (featFile : FeatFile) (err : OsError)
  | yaml (text : String)
  | unsupportedType (text : String)
  deriving DecidableEq, Repr

/-- The yaml libraries: `yaml.Unmarshal` into a `feature`, `simpleyaml.NewYaml` and `Map`. -/
structure YamlLibrary (Content Yaml Tree : Type) where
  unmarshal : Content → Except String Feature
  newYaml : Content → Except String Yaml
  map : Yaml → Except String Tree

/-- A feature with its `yaml` field. -/
structure FeatureFile (Tree : Type) extends Feature where
  yaml : Tree
  deriving DecidableEq, Repr

/-- `map[string]feature`, with the `yaml` of each feature. -/
abbrev FeatureFiles (Tree : Type) := AList fun _ : String => FeatureFile Tree

/-! ## `readFeatures` -/

/-- `filepath.Ext` of a name without separators: what begins at the last dot. -/
def ext (name : String) : String :=
  if '.' ∈ name.toList then
    String.ofList ('.' :: (name.toList.reverse.takeWhile (· ≠ '.')).reverse)
  else ""

/-- `e.Name()[:len(e.Name())-5]`. -/
def stem (name : String) : String := String.ofList (name.toList.take (name.toList.length - 5))

/-- A definition of a feature: its name, and the file and what reading it gives. -/
structure Definition (Content : Type) where
  featName : String
  featFile : FeatFile
  featData : File Content

variable {Content Yaml Tree : Type}

/-- The feature that an entry defines; other entries are passed over. -/
def definition (workingDir : String → File Content) (name : String) :
    Node Content → Option (Definition Content)
  | .directory (.error .notExist) => none
  | .directory info => some ⟨name, .infoYaml name, info⟩
  | .file _ => if ext name = ".yaml" then some ⟨stem name, .bare name, workingDir name⟩ else none

/-- The feature in a file. -/
def featureOf (yaml : YamlLibrary Content Yaml Tree) (types : List String) (featName : String)
    (featData : Content) : Except ReadError (FeatureFile Tree) := do
  let f ← (yaml.unmarshal featData).mapError .yaml
  if types.any (f.type = ·) then
    let y ← (yaml.newYaml featData).mapError .yaml
    let tree ← (yaml.map y).mapError .yaml
    pure { f with yaml := tree }
  else
    throw (.unsupportedType ("feature " ++ featName ++ " has unsupported type " ++ f.type))

/-- What a definition adds to the features. -/
def readDefinition (yaml : YamlLibrary Content Yaml Tree) (types : List String)
    (d : Definition Content) : Except ReadError (String × FeatureFile Tree) := do
  let featData ← d.featData.mapError (.readFile d.featFile)
  let f ← featureOf yaml types d.featName featData
  pure (d.featName, f)

/-- The loop over the entries. -/
def readEntries (yaml : YamlLibrary Content Yaml Tree) (types : List String)
    (workingDir : String → File Content) :
    List (String × Node Content) → FeatureFiles Tree → Except ReadError (FeatureFiles Tree)
  | [], allFeatures => .ok allFeatures
  | e :: entries, allFeatures =>
    match definition workingDir e.1 e.2 with
    | none => readEntries yaml types workingDir entries allFeatures
    | some d =>
      match readDefinition yaml types d with
      | .error err => .error err
      | .ok (featName, f) =>
        readEntries yaml types workingDir entries (allFeatures.insert featName f)

def readFeatures (yaml : YamlLibrary Content Yaml Tree) (types : List String)
    (workingDir : String → File Content) :
    Except OsError (FeatureDir Content) → Except ReadError (FeatureFiles Tree)
  | .error err => .error (.readDir err)
  | .ok featDir => readEntries yaml types workingDir featDir.entries ∅

/-! ## What should be read -/

/-- What an entry of the feature directory itself contains. -/
def Node.content : Node Content → File Content
  | .directory info => info
  | .file own => own

/-- The definition that stands in the feature directory. -/
def ownDefinition (e : String × Node Content) : Option (Definition Content) :=
  definition (fun _ => e.2.content) e.1 e.2

/-- What an accepted definition of the feature directory should contribute. -/
def contribution (yaml : YamlLibrary Content Yaml Tree) (types : List String)
    (e : String × Node Content) : Option (Sigma fun _ : String => FeatureFile Tree) :=
  (ownDefinition e).bind fun d =>
    match readDefinition yaml types d with
    | .ok (featName, f) => some ⟨featName, f⟩
    | .error _ => none

/-- The feature directory alone decides: the outcome is the same in any two working
directories, each accepted definition contributes one entry, and no two definitions of
one name go through. -/
structure DependsOnDirOnly (yaml : YamlLibrary Content Yaml Tree) (types : List String)
    (featDir : Except OsError (FeatureDir Content)) : Prop where
  sameOutcome : ∀ workingDir workingDir' : String → File Content,
    readFeatures yaml types workingDir featDir = readFeatures yaml types workingDir' featDir
  contributes : ∀ workingDir allFeatures dir, featDir = .ok dir →
    readFeatures yaml types workingDir featDir = .ok allFeatures →
    allFeatures.entries.Perm (dir.entries.filterMap (contribution yaml types))
  unreplaced : ∀ workingDir allFeatures dir, featDir = .ok dir →
    readFeatures yaml types workingDir featDir = .ok allFeatures →
    ((dir.entries.filterMap ownDefinition).map (·.featName)).Nodup

/-- The entry is a `.yaml` file. -/
def IsFlat (e : String × Node Content) : Prop :=
  ext e.1 = ".yaml" ∧ ∃ own, e.2 = .file own

/-- The entry is passed over or accepted. -/
def Passes (yaml : YamlLibrary Content Yaml Tree) (types : List String)
    (e : String × Node Content) : Prop :=
  ∀ d, ownDefinition e = some d → ∃ entry, readDefinition yaml types d = .ok entry

/-- A `.yaml` file comes up before an entry that is not accepted. -/
inductive FlatReached (yaml : YamlLibrary Content Yaml Tree) (types : List String) :
    List (String × Node Content) → Prop
  | here {e entries} : IsFlat e → FlatReached yaml types (e :: entries)
  | later {e entries} : ¬ IsFlat e → Passes yaml types e → FlatReached yaml types entries →
      FlatReached yaml types (e :: entries)

/-! ## Entries that are no `.yaml` files -/

variable {yaml : YamlLibrary Content Yaml Tree} {types : List String}

theorem definition_of_not_flat {e : String × Node Content} (h : ¬ IsFlat e)
    (workingDir : String → File Content) : definition workingDir e.1 e.2 = ownDefinition e := by
  obtain ⟨name, node⟩ := e
  cases node with
  | directory info =>
    cases info with
    | error err => cases err <;> rfl
    | ok content => rfl
  | file own =>
    have hext : ext name ≠ ".yaml" := fun hext => h ⟨hext, own, rfl⟩
    simp [ownDefinition, definition, hext]

/-- A definition that is no `.yaml` file has the name of its entry. -/
theorem featName_of_not_flat {e : String × Node Content} (h : ¬ IsFlat e)
    {d : Definition Content} (hd : ownDefinition e = some d) : d.featName = e.1 := by
  obtain ⟨name, node⟩ := e
  cases node with
  | directory info =>
    cases info with
    | error err =>
      cases err with
      | notExist => simp [ownDefinition, definition] at hd
      | other text =>
        obtain rfl := Option.some.inj hd
        rfl
    | ok content =>
      obtain rfl := Option.some.inj hd
      rfl
  | file own =>
    have hext : ext name ≠ ".yaml" := fun hext => h ⟨hext, own, rfl⟩
    simp [ownDefinition, definition, hext] at hd

theorem readDefinition_featName {d : Definition Content} {entry : String × FeatureFile Tree}
    (h : readDefinition yaml types d = .ok entry) : entry.1 = d.featName := by
  rw [readDefinition] at h
  cases hdata : d.featData.mapError (ReadError.readFile d.featFile) with
  | error err => simp [hdata, bind, Except.bind] at h
  | ok featData =>
    cases hf : featureOf yaml types d.featName featData with
    | error err => simp [hdata, hf, bind, Except.bind] at h
    | ok f =>
      simp only [hdata, hf, bind, Except.bind, pure, Except.pure, Except.ok.injEq] at h
      rw [← h]

/-! ## The outcome -/

section Steps

variable {workingDir : String → File Content} {e : String × Node Content}
  {entries : List (String × Node Content)} {allFeatures : FeatureFiles Tree}
  {d : Definition Content}

theorem readEntries_skip (hd : definition workingDir e.1 e.2 = none) :
    readEntries yaml types workingDir (e :: entries) allFeatures =
      readEntries yaml types workingDir entries allFeatures := by
  rw [readEntries, hd]

theorem readEntries_stop (hd : definition workingDir e.1 e.2 = some d) {err : ReadError}
    (hread : readDefinition yaml types d = .error err) :
    readEntries yaml types workingDir (e :: entries) allFeatures = .error err := by
  simp only [readEntries, hd, hread]

theorem readEntries_add (hd : definition workingDir e.1 e.2 = some d)
    {entry : String × FeatureFile Tree} (hread : readDefinition yaml types d = .ok entry) :
    readEntries yaml types workingDir (e :: entries) allFeatures =
      readEntries yaml types workingDir entries (allFeatures.insert entry.1 entry.2) := by
  simp only [readEntries, hd, hread]

theorem passes_of_none (hd : ownDefinition e = none) : Passes yaml types e := by
  simp [Passes, hd]

theorem passes_of_some (hd : ownDefinition e = some d) {entry : String × FeatureFile Tree}
    (hread : readDefinition yaml types d = .ok entry) : Passes yaml types e := by
  intro d' hd'
  obtain rfl := Option.some.inj (hd.symm.trans hd')
  exact ⟨entry, hread⟩

end Steps

/-- As long as no `.yaml` file comes up, the working directory does not matter. -/
theorem readEntries_congr {entries : List (String × Node Content)}
    (h : ¬ FlatReached yaml types entries) (workingDir workingDir' : String → File Content)
    (allFeatures : FeatureFiles Tree) :
    readEntries yaml types workingDir entries allFeatures =
      readEntries yaml types workingDir' entries allFeatures := by
  induction entries generalizing allFeatures with
  | nil => rfl
  | cons e entries ih =>
    have hflat : ¬ IsFlat e := fun he => h (.here he)
    have hdef := definition_of_not_flat hflat workingDir
    have hdef' := definition_of_not_flat hflat workingDir'
    cases hd : ownDefinition e with
    | none =>
      rw [readEntries_skip (hdef.trans hd), readEntries_skip (hdef'.trans hd)]
      exact ih (fun hrest => h (.later hflat (passes_of_none hd) hrest)) allFeatures
    | some d =>
      cases hread : readDefinition yaml types d with
      | error err =>
        rw [readEntries_stop (hdef.trans hd) hread, readEntries_stop (hdef'.trans hd) hread]
      | ok entry =>
        rw [readEntries_add (hdef.trans hd) hread, readEntries_add (hdef'.trans hd) hread]
        exact ih (fun hrest => h (.later hflat (passes_of_some hd hread) hrest)) _

/-- A `.yaml` file that comes up is looked for in the working directory. -/
theorem FlatReached.readFile {entries : List (String × Node Content)}
    (h : FlatReached yaml types entries) : ∃ name, ∀ (err : OsError)
      (allFeatures : FeatureFiles Tree),
      readEntries yaml types (fun _ => .error err) entries allFeatures =
        .error (.readFile (.bare name) err) := by
  induction h with
  | @here e entries he =>
    obtain ⟨name, node⟩ := e
    obtain ⟨hext, own, rfl⟩ := he
    refine ⟨name, fun err allFeatures => ?_⟩
    simp only at hext
    simp [readEntries, definition, hext, readDefinition, Except.mapError, bind, Except.bind]
  | @later e entries he hpasses _ ih =>
    obtain ⟨name, hname⟩ := ih
    refine ⟨name, fun err allFeatures => ?_⟩
    have hdef := definition_of_not_flat he fun _ => .error err
    cases hd : ownDefinition e with
    | none =>
      rw [readEntries_skip (hdef.trans hd)]
      exact hname err allFeatures
    | some d =>
      obtain ⟨entry, hentry⟩ := hpasses d hd
      rw [readEntries_add (hdef.trans hd) hentry]
      exact hname err _

/-- Without `.yaml` files and with different names, the entries that are accepted are what
is added to the features. -/
theorem perm_of_readEntries {entries : List (String × Node Content)}
    (hflat : ∀ e ∈ entries, ¬ IsFlat e) (hnames : (entries.map Prod.fst).Nodup)
    {workingDir : String → File Content} {allFeatures allFeatures' : FeatureFiles Tree}
    (hnew : ∀ e ∈ entries, e.1 ∉ allFeatures)
    (h : readEntries yaml types workingDir entries allFeatures = .ok allFeatures') :
    allFeatures'.entries.Perm
      (entries.filterMap (contribution yaml types) ++ allFeatures.entries) := by
  induction entries generalizing allFeatures with
  | nil =>
    obtain rfl := Except.ok.inj h
    exact List.Perm.refl _
  | cons e entries ih =>
    rw [List.map_cons, List.nodup_cons] at hnames
    have hrest : ∀ e' ∈ entries, ¬ IsFlat e' := fun e' he' => hflat e' (List.mem_cons_of_mem _ he')
    have hnewRest : ∀ e' ∈ entries, e'.1 ∉ allFeatures := fun e' he' =>
      hnew e' (List.mem_cons_of_mem _ he')
    have hhead := hflat e (List.mem_cons_self ..)
    have hdef := definition_of_not_flat hhead workingDir
    cases hd : ownDefinition e with
    | none =>
      rw [readEntries_skip (hdef.trans hd)] at h
      have hc : contribution yaml types e = none := by simp [contribution, hd]
      rw [List.filterMap_cons_none hc]
      exact ih hrest hnames.2 hnewRest h
    | some d =>
      cases hread : readDefinition yaml types d with
      | error err => simp [readEntries_stop (hdef.trans hd) hread] at h
      | ok entry =>
        obtain ⟨featName, f⟩ := entry
        rw [readEntries_add (hdef.trans hd) hread] at h
        have hname : featName = e.1 :=
          (readDefinition_featName hread).trans (featName_of_not_flat hhead hd)
        have hc : contribution yaml types e = some ⟨featName, f⟩ := by
          simp [contribution, hd, hread]
        have hnotMem : featName ∉ allFeatures := hname ▸ hnew e (List.mem_cons_self ..)
        have hnewInsert : ∀ e' ∈ entries, e'.1 ∉ allFeatures.insert featName f := by
          intro e' he' hmem
          rcases (AList.mem_insert _).1 hmem with heq | hmem
          · exact hnames.1 (List.mem_map.2 ⟨e', he', heq.trans hname⟩)
          · exact hnewRest e' he' hmem
        have hperm := ih hrest hnames.2 hnewInsert h
        rw [AList.entries_insert_of_notMem hnotMem] at hperm
        rw [List.filterMap_cons_some hc]
        exact hperm.trans List.perm_middle

/-- Reading that succeeds comes across every `.yaml` file. -/
theorem not_flat_of_readEntries {entries : List (String × Node Content)}
    (h : ¬ FlatReached yaml types entries) {workingDir : String → File Content}
    {allFeatures allFeatures' : FeatureFiles Tree}
    (hread : readEntries yaml types workingDir entries allFeatures = .ok allFeatures') :
    ∀ e ∈ entries, ¬ IsFlat e := by
  induction entries generalizing allFeatures with
  | nil => simp
  | cons e entries ih =>
    have hflat : ¬ IsFlat e := fun he => h (.here he)
    have hdef := definition_of_not_flat hflat workingDir
    rw [List.forall_mem_cons]
    refine ⟨hflat, ?_⟩
    cases hd : ownDefinition e with
    | none =>
      rw [readEntries_skip (hdef.trans hd)] at hread
      exact ih (fun hrest => h (.later hflat (passes_of_none hd) hrest)) hread
    | some d =>
      cases hentry : readDefinition yaml types d with
      | error err => simp [readEntries_stop (hdef.trans hd) hentry] at hread
      | ok entry =>
        rw [readEntries_add (hdef.trans hd) hentry] at hread
        exact ih (fun hrest => h (.later hflat (passes_of_some hd hentry) hrest)) hread

theorem nodup_definitions {entries : List (String × Node Content)}
    (hflat : ∀ e ∈ entries, ¬ IsFlat e) (hnames : (entries.map Prod.fst).Nodup) :
    ((entries.filterMap ownDefinition).map (·.featName)).Nodup := by
  have hsub : ((entries.filterMap ownDefinition).map (·.featName)).Sublist
      (entries.map Prod.fst) := by
    clear hnames
    induction entries with
    | nil => exact List.Sublist.refl _
    | cons e entries ih =>
      have hrest := ih fun e' he' => hflat e' (List.mem_cons_of_mem _ he')
      cases hd : ownDefinition e with
      | none =>
        rw [List.filterMap_cons_none hd, List.map_cons]
        exact hrest.cons e.1
      | some d =>
        rw [List.filterMap_cons_some hd, List.map_cons, List.map_cons,
          featName_of_not_flat (hflat e (List.mem_cons_self ..)) hd]
        exact hrest.cons_cons e.1
  exact hsub.nodup hnames

/-- The feature directory alone decides iff no `.yaml` file comes up in it. -/
theorem dependsOnDirOnly_iff (yaml : YamlLibrary Content Yaml Tree) (types : List String)
    (featDir : Except OsError (FeatureDir Content)) :
    DependsOnDirOnly yaml types featDir ↔
      ∀ dir, featDir = .ok dir → ¬ FlatReached yaml types dir.entries := by
  constructor
  · rintro h dir rfl hreached
    obtain ⟨name, hname⟩ := hreached.readFile
    have hsame := h.sameOutcome (fun _ => .error .notExist)
      (fun _ => .error (.other "permission denied"))
    rw [readFeatures, readFeatures, hname, hname] at hsame
    simp at hsame
  · intro h
    cases featDir with
    | error err =>
      refine ⟨fun _ _ => rfl, ?_, ?_⟩
      · rintro _ _ _ ⟨⟩
      · rintro _ _ _ ⟨⟩
    | ok dir =>
      have hreached := h dir rfl
      have hnames : (dir.entries.map Prod.fst).Nodup := dir.sorted.imp fun hlt => ne_of_lt hlt
      refine ⟨fun workingDir workingDir' => readEntries_congr hreached _ _ _, ?_, ?_⟩
      · rintro workingDir allFeatures _ ⟨⟩ hread
        have hflat := not_flat_of_readEntries hreached hread
        simpa using perm_of_readEntries hflat hnames (by simp) hread
      · rintro workingDir allFeatures _ ⟨⟩ hread
        exact nodup_definitions (not_flat_of_readEntries hreached hread) hnames

/-! ## A `.yaml` file in the feature directory -/

/-- Yaml documents that say nothing but the type. -/
def typeOnly : YamlLibrary String String (List (String × String)) where
  unmarshal featData := .ok ⟨String.ofList (featData.toList.drop 6), [], []⟩
  newYaml := .ok
  map featData := .ok [("type", String.ofList (featData.toList.drop 6))]

def flatDir : FeatureDir String :=
  ⟨[("_slim", .directory (.ok "type: flag")), ("vhost.yaml", .file (.ok "type: element"))],
    by decide⟩

/-- The features can be read from the feature directory itself but not from elsewhere. -/
theorem dependsOnDirOnly_fails :
    ¬ DependsOnDirOnly typeOnly ["platform", "element", "flag"] (.ok flatDir) := by
  intro h
  have hsame := h.sameOutcome
    (fun name => if name = "vhost.yaml" then .ok "type: element" else .error .notExist)
    (fun _ => .error .notExist)
  have hthere : (readFeatures typeOnly ["platform", "element", "flag"]
      (fun name => if name = "vhost.yaml" then .ok "type: element" else .error .notExist)
      (.ok flatDir)).toBool = true := by decide
  rw [hsame] at hthere
  exact absurd hthere (by decide)

end GardenFeat
