import GardenLinux.Lib.Listing

/-!
# Python data and what YAML keeps of it

The values that Python code holds: numbers, texts, members of enumerations, sequences,
dictionaries and instances of dataclasses.  `dataclasses.asdict` unfolds the instances;
what is left is plain if no member of an enumeration is in it, and only plain data can be
written as YAML.

What is proved here:

* `lookup_setItem` — assigning an item of a dictionary changes that item only;
* `lookup_sortItems` — a dictionary with its items sorted is the same dictionary;
* `plain_object` — the document of an instance has the documents of its attributes.
-/

namespace PyData

/-! ## Values -/

inductive PyValue
  | none
  | int (i : ℤ)
  | str (s : String)
  | enum (cls value : String)
  | list (items : List PyValue)
  | tuple (items : List PyValue)
  | dict (entries : List (String × PyValue))
  | object (cls : String) (attrs : List (String × PyValue))

/-- The names and values of the items of a dictionary or of the attributes of an object. -/
abbrev Items := List (String × PyValue)

/-- What `dacite` raises, with the path of the field. -/
inductive DaciteError
  | missingValue (fieldPath : List String)
  | wrongType (fieldPath : List String)
  | unionMatch (fieldPath : List String)
  deriving DecidableEq, Repr

inductive PyError
  | typeError (text : String)
  | valueError (text : String)
  | attributeError (name : String)
  | representerError
  | parserError
  | dacite (e : DaciteError)
  | raised (exception text : String)
  deriving DecidableEq, Repr

/-- `list(v)`. -/
def PyValue.iterate : PyValue → Except PyError (List PyValue)
  | .list items | .tuple items => .ok items
  | .str s => .ok (s.toList.map fun c => .str (String.singleton c))
  | .dict entries => .ok (entries.map fun e => .str e.1)
  | _ => .error (.typeError "object is not iterable")

/-! ## Dictionaries -/

/-- `items[name] = v`. -/
def setItem (items : Items) (name : String) (v : PyValue) : Items :=
  if name ∈ items.map Prod.fst then items.map fun e => if e.1 = name then (name, v) else e
  else items ++ [(name, v)]

/-- The items in the order of their names. -/
def sortItems (items : Items) : Items := sortOn Prod.fst items

variable {items : Items} {name : String} {v : PyValue}

theorem lookup_map_setItem (items : Items) (name name' : String) (v : PyValue) :
    (items.map fun e => if e.1 = name then (name, v) else e).lookup name' =
      if name' = name then (items.lookup name).map fun _ => v else items.lookup name' := by
  induction items with
  | nil => simp
  | cons e items ih =>
    obtain ⟨k, w⟩ := e
    rw [List.map_cons]
    by_cases hk : k = name
    · subst hk
      rw [if_pos rfl, List.lookup_cons, ih]
      by_cases hname : name' = k
      · simp [hname]
      · have hne : (name' == k) = false := by simpa using hname
        simp [hname, List.lookup_cons, hne]
    · rw [if_neg hk, List.lookup_cons, ih]
      by_cases hname : name' = name
      · subst hname
        have hne : (name' == k) = false := by simpa using fun h => hk h.symm
        simp [List.lookup_cons, hne]
      · rw [if_neg hname, if_neg hname, List.lookup_cons]

/-- Assigning an item changes that item only. -/
theorem lookup_setItem (items : Items) (name name' : String) (v : PyValue) :
    (setItem items name v).lookup name' =
      if name' = name then some v else items.lookup name' := by
  unfold setItem
  split_ifs with hmem hname hname
  · subst hname
    obtain ⟨w, hw⟩ : ∃ w, items.lookup name' = some w := by
      obtain ⟨e, he, rfl⟩ := List.mem_map.1 hmem
      exact Option.isSome_iff_exists.1 (List.lookup_isSome_iff.2 ⟨e, he, by simp⟩)
    rw [lookup_map_setItem, if_pos rfl, hw, Option.map_some]
  · rw [lookup_map_setItem, if_neg hname]
  · subst hname
    have hnone : items.lookup name' = none := by
      rw [List.lookup_eq_none_iff]
      intro e he
      exact bne_iff_ne.2 fun h => hmem (h ▸ List.mem_map_of_mem he)
    simp [List.lookup_append, hnone]
  · have hne : (name' == name) = false := by simpa using hname
    simp [List.lookup_append, List.lookup_cons, hne]

/-- With distinct names an item is found wherever it stands. -/
theorem lookup_eq_some_iff_mem (hnodup : (items.map Prod.fst).Nodup) :
    items.lookup name = some v ↔ (name, v) ∈ items := by
  induction items with
  | nil => simp
  | cons e items ih =>
    obtain ⟨name', w⟩ := e
    rw [List.map_cons, List.nodup_cons] at hnodup
    rw [List.lookup_cons, List.mem_cons, Prod.mk.injEq]
    by_cases hname : name = name'
    · subst hname
      have hnot : (name, v) ∉ items := fun hmem =>
        hnodup.1 (List.mem_map.2 ⟨(name, v), hmem, rfl⟩)
      simp [hnot, eq_comm]
    · have hne : (name == name') = false := by simpa using hname
      simp [hname, hne, ih hnodup.2]

/-- A dictionary with its items in another order is the same dictionary. -/
theorem lookup_sortItems (hnodup : (items.map Prod.fst).Nodup) (name : String) :
    (sortItems items).lookup name = items.lookup name := by
  have hperm : (sortItems items).Perm items := perm_sortOn items
  have hsorted : ((sortItems items).map Prod.fst).Nodup := (hperm.map _).nodup_iff.2 hnodup
  ext v
  rw [lookup_eq_some_iff_mem hsorted, lookup_eq_some_iff_mem hnodup, hperm.mem_iff]

theorem mem_names_setItem {name' : String} :
    name' ∈ (setItem items name v).map Prod.fst ↔ name' = name ∨ name' ∈ items.map Prod.fst := by
  unfold setItem
  split_ifs with hmem
  · have hnames : (items.map fun e => if e.1 = name then (name, v) else e).map Prod.fst =
        items.map Prod.fst := by
      rw [List.map_map]
      refine List.map_congr_left fun e _ => ?_
      by_cases he : e.1 = name <;> simp [he]
    rw [hnames]
    exact ⟨Or.inr, fun h => h.elim (fun heq => heq ▸ hmem) id⟩
  · simp [or_comm]

theorem mem_names_sortItems :
    name ∈ (sortItems items).map Prod.fst ↔ name ∈ items.map Prod.fst :=
  ((perm_sortOn items).map Prod.fst).mem_iff

/-! ## Dataclasses -/

mutual

/-- `_asdict_inner` of `dataclasses`. -/
def asdictInner : PyValue → PyValue
  | .object _ attrs => .dict (asdictItems attrs)
  | .list items => .list (asdictAll items)
  | .tuple items => .tuple (asdictAll items)
  | .dict entries => .dict (asdictItems entries)
  | .none => .none
  | .int i => .int i
  | .str s => .str s
  | .enum cls value => .enum cls value

def asdictAll : List PyValue → List PyValue
  | [] => []
  | v :: vs => asdictInner v :: asdictAll vs

def asdictItems : Items → Items
  | [] => []
  | (name, v) :: items => (name, asdictInner v) :: asdictItems items

end

/-- `dataclasses.asdict`. -/
def asdict : PyValue → Except PyError PyValue
  | .object _ attrs => .ok (.dict (asdictItems attrs))
  | _ => .error (.typeError "asdict() should be called on dataclass instances")

/-- `dataclasses.replace(v, name=w)`. -/
def replaceAttr (v : PyValue) (name : String) (w : PyValue) : Except PyError PyValue :=
  match v with
  | .object cls attrs => .ok (.object cls (setItem attrs name w))
  | _ => .error (.typeError "replace() should be called on dataclass instances")

/-- `v.name`. -/
def getAttr (v : PyValue) (name : String) : Except PyError PyValue :=
  match v with
  | .object _ attrs =>
    match attrs.lookup name with
    | some w => .ok w
    | none => .error (.attributeError name)
  | _ => .error (.attributeError name)

/-! ## YAML documents -/

mutual

/-- The document that `yaml.safe_dump` writes for a value: tuples are written as lists and
the items of a dictionary in the order of their names.  It has no representation for members
of enumerations and for other objects. -/
def yamlData : PyValue → Option PyValue
  | .none => some .none
  | .int i => some (.int i)
  | .str s => some (.str s)
  | .list items => (yamlAll items).map .list
  | .tuple items => (yamlAll items).map .list
  | .dict entries => (yamlItems entries).map fun es => .dict (sortItems es)
  | .enum _ _ => none
  | .object _ _ => none

def yamlAll : List PyValue → Option (List PyValue)
  | [] => some []
  | v :: vs =>
    match yamlData v, yamlAll vs with
    | some w, some ws => some (w :: ws)
    | _, _ => none

def yamlItems : Items → Option Items
  | [] => some []
  | (name, v) :: items =>
    match yamlData v, yamlItems items with
    | some w, some ws => some ((name, w) :: ws)
    | _, _ => none

end

/-- A YAML library: `yaml.safe_dump` and `yaml.safe_load`. -/
structure Yaml (Text : Type) where
  safeDump : PyValue → Except PyError Text
  safeLoad : Text → Except PyError PyValue

/-- `safe_load` undoes `safe_dump` on plain data. -/
def Yaml.Undoes {Text : Type} (yaml : Yaml Text) : Prop :=
  ∀ v w, yamlData v = some w → ∃ text, yaml.safeDump v = .ok text ∧ yaml.safeLoad text = .ok w

/-- The documents themselves as texts. -/
def plainYaml : Yaml PyValue where
  safeDump v := match yamlData v with
    | some w => .ok w
    | none => .error .representerError
  safeLoad := .ok

theorem plainYaml_undoes : plainYaml.Undoes := by
  intro v w h
  exact ⟨w, by simp [plainYaml, h], rfl⟩

/-! ## The document of a value -/

/-- The document in which a value is stored. -/
def plain (v : PyValue) : Option PyValue := yamlData (asdictInner v)

def plainAll (vs : List PyValue) : Option (List PyValue) := yamlAll (asdictAll vs)

def plainItems (items : Items) : Option Items := yamlItems (asdictItems items)

@[simp] theorem plain_none : plain .none = some .none := rfl

@[simp] theorem plain_int (i : ℤ) : plain (.int i) = some (.int i) := rfl

@[simp] theorem plain_str (s : String) : plain (.str s) = some (.str s) := rfl

@[simp] theorem plain_list (items : List PyValue) :
    plain (.list items) = (plainAll items).map .list := rfl

@[simp] theorem plain_tuple (items : List PyValue) :
    plain (.tuple items) = (plainAll items).map .list := rfl

/-- The document of an instance has the documents of its attributes. -/
@[simp] theorem plain_object (cls : String) (attrs : Items) :
    plain (.object cls attrs) = (plainItems attrs).map fun es => .dict (sortItems es) := rfl

@[simp] theorem plainAll_nil : plainAll [] = some [] := rfl

theorem plainAll_cons {w : PyValue} {vs ws : List PyValue} (hv : plain v = some w)
    (hvs : plainAll vs = some ws) : plainAll (v :: vs) = some (w :: ws) := by
  unfold plain at hv
  unfold plainAll at hvs
  simp [plainAll, asdictAll, yamlAll, hv, hvs]

@[simp] theorem plainItems_nil : plainItems [] = some [] := rfl

theorem plainItems_cons {w : PyValue} {ws : Items} (hv : plain v = some w)
    (hitems : plainItems items = some ws) :
    plainItems ((name, v) :: items) = some ((name, w) :: ws) := by
  unfold plain at hv
  unfold plainItems at hitems
  simp [plainItems, asdictItems, yamlItems, hv, hitems]

/-- The document of an instance is loaded from the text that was dumped for it. -/
theorem Yaml.Undoes.dump {Text : Type} {yaml : Yaml Text} (hyaml : yaml.Undoes) {cls : String}
    {attrs : Items} {d : PyValue} (h : plain (.object cls attrs) = some d) :
    ∃ text, yaml.safeDump (.dict (asdictItems attrs)) = .ok text ∧ yaml.safeLoad text = .ok d :=
  hyaml _ d (by simpa only [plain, asdictInner] using h)

end PyData
