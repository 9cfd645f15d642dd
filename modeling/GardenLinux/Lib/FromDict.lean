import GardenLinux.Lib.PyData

/-!
# Reading documents by type hints

`dacite.from_dict` makes instances of dataclasses of the dictionaries of a document, as the
type hints of the fields say.  `Documented` is what it promises; `fromData` is a reader
that keeps the promises.

What is proved here:

* `Reads.dataclass` — an instance is read back if each of its attributes is;
* `Reads.union_head` and `Reads.union_tail` — a value of a union is read back by the
  first hint that does not reject its document;
* `gives_setItem` — an item that is assigned in the document is an attribute of the instance;
* `fromData_documented` — the promises can be kept.
-/

namespace PyData

/-! ## Type hints -/

/-- Enumerations with the values of their members, dataclasses with their fields. -/
inductive Hint
  | none
  | int
  | str
  | enum (cls : String) (values : List String)
  | tuple (item : Hint)
  | union (members : List Hint)
  | dataclass (cls : String) (fields : List (String × Hint × Option PyValue))

/-- The name of a field, its hint and its default. -/
abbrev DataField := String × Hint × Option PyValue

/-- `typing.Optional`. -/
abbrev Hint.optional (h : Hint) : Hint := .union [h, .none]

def Hint.isNone : Hint → Bool
  | .none => true
  | _ => false

def Hint.admitsNone : Hint → Bool
  | .union members => members.any Hint.isNone
  | _ => false

/-- No data is cast for the hint itself. -/
def Hint.uncast : Hint → Bool
  | .none | .int | .str | .dataclass _ _ => true
  | _ => false

/-- The value of a field that is missing in the data. -/
def absentValue (field : DataField) : Option PyValue :=
  field.2.2.or (if field.2.1.admitsNone then some .none else none)

/-- What `cast` of `dacite.Config` lists: enumerations and `typing.Tuple`. -/
inductive Cast
  | enum (cls : String)
  | tuple
  deriving DecidableEq, Repr

/-- `dacite.from_dict` with the casts of its configuration, at any type hint. -/
abbrev Reader := List Cast → Hint → PyValue → Except PyError PyValue

/-- The attribute that a field gets from the items of a dictionary. -/
def Gives (read : Hint → PyValue → Except PyError PyValue) (items : Items) (field : DataField)
    (attr : String × PyValue) : Prop :=
  attr.1 = field.1 ∧
    match items.lookup field.1 with
    | some v => read field.2.1 v = .ok attr.2
    | none => absentValue field = some attr.2

/-- What `dacite` promises: data of the hinted type is taken over, what is listed in `cast` is
cast, the hints of a union are tried one by one, and the fields of a dataclass are looked
up by their names. -/
structure Documented (read : Reader) : Prop where
  int : ∀ casts i, read casts .int (.int i) = .ok (.int i)
  str : ∀ casts s, read casts .str (.str s) = .ok (.str s)
  enum : ∀ casts cls values s, .enum cls ∈ casts → s ∈ values →
    read casts (.enum cls values) (.str s) = .ok (.enum cls s)
  tuple : ∀ casts item vs ws, .tuple ∈ casts →
    List.Forall₂ (fun v w => read casts item v = .ok w) vs ws →
      read casts (.tuple item) (.list vs) = .ok (.tuple ws)
  union_none : ∀ casts members, (Hint.union members).admitsNone →
    read casts (.union members) .none = .ok .none
  union_head : ∀ casts hint members v w, read casts hint v = .ok w →
    read casts (.union (hint :: members)) v = .ok w
  union_tail : ∀ casts hint members v w e, members.all Hint.uncast →
    read casts hint v = .error (.dacite e) → read casts (.union members) v = .ok w →
      read casts (.union (hint :: members)) v = .ok w
  dataclass : ∀ casts cls fields items attrs,
    List.Forall₂ (Gives (read casts) items) fields attrs →
      read casts (.dataclass cls fields) (.dict items) = .ok (.object cls attrs)
  missing : ∀ casts cls earlier field later items,
    (∀ f ∈ earlier, ∃ attr, Gives (read casts) items f attr) →
      items.lookup field.1 = none → absentValue field = none →
        ∃ e, read casts (.dataclass cls (earlier ++ field :: later)) (.dict items) =
          .error (.dacite e)
  not_dict : ∀ casts cls fields v, (∀ items, v ≠ .dict items) →
    ∃ e, read casts (.dataclass cls fields) v = .error (.dacite e)

/-! ## The attributes of an instance -/

section Gives

variable {read : Hint → PyValue → Except PyError PyValue} {items items' : Items} {field : DataField}
  {fields : List DataField} {attr : String × PyValue} {attrs : Items} {name : String}
  {v w : PyValue}

/-- A field asks for its own item only. -/
theorem Gives.congr (h : Gives read items field attr)
    (hlookup : items'.lookup field.1 = items.lookup field.1) : Gives read items' field attr := by
  unfold Gives at h ⊢
  rwa [hlookup]

theorem gives_of_lookup {hint : Hint} {default : Option PyValue}
    (hlookup : items.lookup name = some v) (hv : read hint v = .ok w) :
    Gives read items (name, hint, default) (name, w) := by
  simp [Gives, hlookup, hv]

theorem gives_absent (hlookup : items.lookup field.1 = none)
    (habsent : absentValue field = some w) : Gives read items field (field.1, w) := by
  simp [Gives, hlookup, habsent]

theorem gives_congr (h : List.Forall₂ (Gives read items) fields attrs)
    (hlookup : ∀ f ∈ fields, items'.lookup f.1 = items.lookup f.1) :
    List.Forall₂ (Gives read items') fields attrs :=
  ((List.forall₂_and_left _ _).2 ⟨hlookup, h⟩).imp fun _ _ hf => hf.2.congr hf.1

theorem names_of_gives (h : List.Forall₂ (Gives read items) fields attrs) :
    attrs.map Prod.fst = fields.map Prod.fst := by
  induction h with
  | nil => rfl
  | cons hfield _ ih => rw [List.map_cons, List.map_cons, hfield.1, ih]

theorem gives_sortItems (h : List.Forall₂ (Gives read items) fields attrs)
    (hnodup : (items.map Prod.fst).Nodup) :
    List.Forall₂ (Gives read (sortItems items)) fields attrs :=
  gives_congr h fun f _ => lookup_sortItems hnodup f.1

/-- An item that is assigned in the document is an attribute of the instance. -/
theorem gives_setItem {hint : Hint} {default : Option PyValue}
    (h : List.Forall₂ (Gives read items) fields attrs) (hnodup : (fields.map Prod.fst).Nodup)
    (hmem : (name, hint, default) ∈ fields) (hv : read hint v = .ok w) :
    List.Forall₂ (Gives read (setItem items name v)) fields (setItem attrs name w) := by
  have hname : name ∈ attrs.map Prod.fst := by
    rw [names_of_gives h]
    exact List.mem_map.2 ⟨_, hmem, rfl⟩
  have hfield : ∀ f ∈ fields, f.1 = name → f = (name, hint, default) := fun f hf heq =>
    List.inj_on_of_nodup_map hnodup hf hmem heq
  rw [setItem.eq_1 attrs, if_pos hname, List.forall₂_map_right_iff]
  refine ((List.forall₂_and_left _ _).2 ⟨hfield, h⟩).imp fun f attr hf => ?_
  obtain ⟨hfield, hgives⟩ := hf
  by_cases heq : f.1 = name
  · obtain rfl := hfield heq
    rw [if_pos hgives.1]
    refine gives_of_lookup ?_ hv
    rw [lookup_setItem, if_pos rfl]
  · have hattr : attr.1 ≠ name := fun hattr => heq (hgives.1.symm.trans hattr)
    rw [if_neg hattr]
    refine hgives.congr ?_
    rw [lookup_setItem, if_neg heq]

end Gives

/-! ## Writing and reading -/

section Reads

variable (read : Reader) (casts : List Cast)

/-- The document of `v` is read as `w`. -/
def Reads (hint : Hint) (v w : PyValue) : Prop :=
  ∃ d, plain v = some d ∧ read casts hint d = .ok w

/-- There is no reading the document of `v`. -/
def Rejects (hint : Hint) (v : PyValue) : Prop :=
  ∃ d e, plain v = some d ∧ read casts hint d = .error (.dacite e)

/-- The attributes of an instance are read field by field. -/
inductive ReadsAttrs : List DataField → Items → Items → Prop
  | nil : ReadsAttrs [] [] []
  | cons {name : String} {hint : Hint} {default : Option PyValue} {v w : PyValue}
      {fields : List DataField} {attrs attrs' : Items} (hread : Reads read casts hint v w)
      (hattrs : ReadsAttrs fields attrs attrs') :
      ReadsAttrs ((name, hint, default) :: fields) ((name, v) :: attrs) ((name, w) :: attrs')

variable {read : Reader} {casts : List Cast} {hint item : Hint} {members : List Hint}
  {v w : PyValue} {vs ws : List PyValue} {cls : String} {fields : List DataField}
  {attrs attrs' : Items}

theorem Reads.int (hread : Documented read) (i : ℤ) : Reads read casts .int (.int i) (.int i) :=
  ⟨_, plain_int i, hread.int casts i⟩

theorem Reads.str (hread : Documented read) (s : String) :
    Reads read casts .str (.str s) (.str s) :=
  ⟨_, plain_str s, hread.str casts s⟩

/-- The value of a member is read as the member. -/
theorem Reads.enum (hread : Documented read) {values : List String} {s : String}
    (hcast : .enum cls ∈ casts) (hs : s ∈ values) :
    Reads read casts (.enum cls values) (.str s) (.enum cls s) :=
  ⟨_, plain_str s, hread.enum casts cls values s hcast hs⟩

theorem plainAll_of_reads (h : List.Forall₂ (Reads read casts item) vs ws) :
    ∃ ds, plainAll vs = some ds ∧ List.Forall₂ (fun d w => read casts item d = .ok w) ds ws := by
  induction h with
  | nil => exact ⟨[], plainAll_nil, .nil⟩
  | cons hv _ ih =>
    obtain ⟨d, hd, hw⟩ := hv
    obtain ⟨ds, hds, hws⟩ := ih
    exact ⟨d :: ds, plainAll_cons hd hds, .cons hw hws⟩

/-- Sequences of either kind are read as tuples. -/
theorem Reads.tuple (hread : Documented read) (hcast : .tuple ∈ casts)
    (h : List.Forall₂ (Reads read casts item) vs ws) :
    Reads read casts (.tuple item) (.tuple vs) (.tuple ws) := by
  obtain ⟨ds, hds, hws⟩ := plainAll_of_reads h
  exact ⟨.list ds, by simp [hds], hread.tuple casts item ds ws hcast hws⟩

theorem Reads.list (hread : Documented read) (hcast : .tuple ∈ casts)
    (h : List.Forall₂ (Reads read casts item) vs ws) :
    Reads read casts (.tuple item) (.list vs) (.tuple ws) := by
  obtain ⟨ds, hds, hws⟩ := plainAll_of_reads h
  exact ⟨.list ds, by simp [hds], hread.tuple casts item ds ws hcast hws⟩

theorem Reads.union_none (hread : Documented read) (h : (Hint.union members).admitsNone) :
    Reads read casts (.union members) .none .none :=
  ⟨_, plain_none, hread.union_none casts members h⟩

theorem Reads.union_head (hread : Documented read) (h : Reads read casts hint v w) :
    Reads read casts (.union (hint :: members)) v w := by
  obtain ⟨d, hd, hw⟩ := h
  exact ⟨d, hd, hread.union_head casts hint members d w hw⟩

/-- A hint that rejects the document is passed over. -/
theorem Reads.union_tail (hread : Documented read) (hmembers : members.all Hint.uncast)
    (hreject : Rejects read casts hint v) (h : Reads read casts (.union members) v w) :
    Reads read casts (.union (hint :: members)) v w := by
  obtain ⟨d, e, hd, he⟩ := hreject
  obtain ⟨d', hd', hw⟩ := h
  obtain rfl := Option.some.inj (hd'.symm.trans hd)
  exact ⟨d', hd', hread.union_tail casts hint members d' w e hmembers he hw⟩

/-- The documents of the attributes give the fields their values. -/
theorem ReadsAttrs.gives (h : ReadsAttrs read casts fields attrs attrs')
    (hnodup : (fields.map Prod.fst).Nodup) :
    ∃ ds, plainItems attrs = some ds ∧ ds.map Prod.fst = fields.map Prod.fst ∧
      List.Forall₂ (Gives (read casts) ds) fields attrs' := by
  induction h with
  | nil => exact ⟨[], plainItems_nil, rfl, .nil⟩
  | @cons name hint default v w fields attrs attrs' hv _ ih =>
    obtain ⟨hname, hnodup⟩ := List.nodup_cons.1 hnodup
    obtain ⟨d, hd, hw⟩ := hv
    obtain ⟨ds, hds, hnames, hgives⟩ := ih hnodup
    refine ⟨(name, d) :: ds, plainItems_cons hd hds, by rw [List.map_cons, List.map_cons, hnames],
      .cons (gives_of_lookup List.lookup_cons_self hw) (gives_congr hgives fun f hf => ?_)⟩
    have hne : (f.1 == name) = false := by
      simpa using fun heq : f.1 = name => hname (List.mem_map.2 ⟨f, hf, heq⟩)
    rw [List.lookup_cons, hne]

theorem ReadsAttrs.str (hread : Documented read) {name s : String} {default : Option PyValue}
    (h : ReadsAttrs read casts fields attrs attrs') :
    ReadsAttrs read casts ((name, .str, default) :: fields) ((name, .str s) :: attrs)
      ((name, .str s) :: attrs') :=
  .cons (.str hread s) h

theorem ReadsAttrs.append {fields₂ : List DataField} {attrs₂ attrs₂' : Items}
    (h : ReadsAttrs read casts fields attrs attrs')
    (h₂ : ReadsAttrs read casts fields₂ attrs₂ attrs₂') :
    ReadsAttrs read casts (fields ++ fields₂) (attrs ++ attrs₂) (attrs' ++ attrs₂') := by
  induction h with
  | nil => exact h₂
  | cons hv _ ih => exact .cons hv ih

/-- The document of an instance is a dictionary that gives the fields their values. -/
theorem ReadsAttrs.document (h : ReadsAttrs read casts fields attrs attrs')
    (hnodup : (fields.map Prod.fst).Nodup) (cls : String) :
    ∃ items, plain (.object cls attrs) = some (.dict items) ∧
      (∀ name, name ∈ items.map Prod.fst ↔ name ∈ fields.map Prod.fst) ∧
      List.Forall₂ (Gives (read casts) items) fields attrs' := by
  obtain ⟨ds, hds, hnames, hgives⟩ := h.gives hnodup
  refine ⟨sortItems ds, by simp [hds], fun name => ?_, gives_sortItems hgives (hnames ▸ hnodup)⟩
  rw [mem_names_sortItems, hnames]

/-- An instance is read back if each of its attributes is. -/
theorem Reads.dataclass (hread : Documented read) (hnodup : (fields.map Prod.fst).Nodup)
    (h : ReadsAttrs read casts fields attrs attrs') (cls cls' : String) :
    Reads read casts (.dataclass cls fields) (.object cls' attrs) (.object cls attrs') := by
  obtain ⟨items, hitems, -, hgives⟩ := h.document hnodup cls'
  exact ⟨.dict items, hitems, hread.dataclass casts cls fields items attrs' hgives⟩

/-- What is no instance is not read as one. -/
theorem Rejects.not_dict (hread : Documented read) {d : PyValue} (hv : plain v = some d)
    (hdict : ∀ items, d ≠ .dict items) : Rejects read casts (.dataclass cls fields) v := by
  obtain ⟨e, he⟩ := hread.not_dict casts cls fields d hdict
  exact ⟨d, e, hv, he⟩

/-- An instance without the first attribute of a class is not read as one of the class. -/
theorem Rejects.missing (hread : Documented read) {field : DataField} {ownFields : List DataField}
    (hown : ReadsAttrs read casts ownFields attrs attrs') (hnodup : (ownFields.map Prod.fst).Nodup)
    (hfield : field.1 ∉ ownFields.map Prod.fst) (habsent : absentValue field = none)
    (cls cls' : String) (later : List DataField) :
    Rejects read casts (.dataclass cls (field :: later)) (.object cls' attrs) := by
  obtain ⟨items, hitems, hnames, -⟩ := hown.document hnodup cls'
  have hlookup : items.lookup field.1 = none := by
    rw [List.lookup_eq_none_iff]
    intro e he
    refine bne_iff_ne.2 fun heq => hfield ?_
    rw [heq, ← hnames]
    exact List.mem_map_of_mem he
  obtain ⟨e, he⟩ := hread.missing casts cls [] field later items (by simp) hlookup habsent
  exact ⟨.dict items, e, hitems, he⟩

end Reads

/-! ## A reader that keeps the promises -/

/-- The error of a field as the error of the instance around it. -/
def PyError.inField (name : String) : PyError → PyError
  | .dacite (.missingValue path) => .dacite (.missingValue (name :: path))
  | .dacite (.wrongType path) => .dacite (.wrongType (name :: path))
  | .dacite (.unionMatch path) => .dacite (.unionMatch (name :: path))
  | e => e

mutual

def fromData (casts : List Cast) : Hint → PyValue → Except PyError PyValue
  | .none, .none => .ok .none
  | .int, .int i => .ok (.int i)
  | .str, .str s => .ok (.str s)
  | .enum cls values, .str s =>
    if .enum cls ∈ casts then
      if s ∈ values then .ok (.enum cls s) else .error (.valueError s)
    else .error (.dacite (.wrongType []))
  | .tuple item, v =>
    if .tuple ∈ casts then do
      let vs ← v.iterate
      let ws ← vs.mapM fun v => fromData casts item v
      pure (.tuple ws)
    else .error (.dacite (.wrongType []))
  | .union members, .none =>
    if members.any Hint.isNone then .ok .none else fromUnion casts members .none
  | .union members, v => fromUnion casts members v
  | .dataclass cls fields, .dict items => (fromFields casts fields items).map (.object cls)
  | _, _ => .error (.dacite (.wrongType []))

def fromUnion (casts : List Cast) : List Hint → PyValue → Except PyError PyValue
  | [], _ => .error (.dacite (.unionMatch []))
  | hint :: members, v =>
    match fromData casts hint v with
    | .error (.dacite _) => fromUnion casts members v
    | r => r

def fromFields (casts : List Cast) :
    List (String × Hint × Option PyValue) → Items → Except PyError Items
  | [], _ => .ok []
  | (name, hint, default) :: fields, items =>
    match items.lookup name with
    | some v =>
      match fromData casts hint v with
      | .error e => .error (e.inField name)
      | .ok w => (fromFields casts fields items).map ((name, w) :: ·)
    | none =>
      match absentValue (name, hint, default) with
      | none => .error (.dacite (.missingValue [name]))
      | some w => (fromFields casts fields items).map ((name, w) :: ·)

end

section FromData

variable {casts : List Cast} {items : Items} {fields : List DataField} {attrs : Items}

theorem mapM_ok_of_forall₂ {α β : Type} {f : α → Except PyError β} {xs : List α} {ys : List β}
    (h : List.Forall₂ (fun x y => f x = .ok y) xs ys) : xs.mapM f = .ok ys := by
  induction h with
  | nil => rfl
  | cons hx _ ih =>
    rw [List.mapM_cons, hx, ih]
    rfl

theorem fromFields_of_gives (h : List.Forall₂ (Gives (fromData casts) items) fields attrs) :
    fromFields casts fields items = .ok attrs := by
  induction h with
  | nil => simp [fromFields]
  | @cons field attr fields attrs hfield _ ih =>
    obtain ⟨name, hint, default⟩ := field
    obtain ⟨rfl, hvalue⟩ := hfield
    cases hlookup : items.lookup attr.1 with
    | none =>
      rw [hlookup] at hvalue
      simp [fromFields, hlookup, hvalue, ih, Except.map]
    | some v =>
      rw [hlookup] at hvalue
      simp only at hvalue
      simp [fromFields, hlookup, hvalue, ih, Except.map]

theorem fromFields_missing {earlier later : List DataField} {field : DataField}
    (hearlier : ∀ f ∈ earlier, ∃ attr, Gives (fromData casts) items f attr)
    (hlookup : items.lookup field.1 = none) (habsent : absentValue field = none) :
    fromFields casts (earlier ++ field :: later) items =
      .error (.dacite (.missingValue [field.1])) := by
  induction earlier with
  | nil => simp [fromFields, hlookup, habsent]
  | cons f earlier ih =>
    obtain ⟨⟨attr, hname, hvalue⟩, hearlier⟩ := List.forall_mem_cons.1 hearlier
    cases hf : items.lookup f.1 with
    | none =>
      rw [hf] at hvalue
      simp [fromFields, hf, hvalue, ih hearlier, Except.map]
    | some v =>
      rw [hf] at hvalue
      simp only at hvalue
      simp [fromFields, hf, hvalue, ih hearlier, Except.map]

theorem fromData_union_of_ne (members : List Hint) {v : PyValue} (hv : v ≠ .none) :
    fromData casts (.union members) v = fromUnion casts members v := by
  cases v with
  | none => exact absurd rfl hv
  | _ => simp [fromData]

mutual

/-- There is nothing but `None` to make of `None`. -/
theorem fromData_none : ∀ (hint : Hint) (w : PyValue),
    fromData casts hint .none = .ok w → w = .none
  | .none, w, h => by simpa [fromData, eq_comm] using h
  | .int, w, h => by simp [fromData] at h
  | .str, w, h => by simp [fromData] at h
  | .enum _ _, w, h => by simp [fromData] at h
  | .tuple _, w, h => by
    rw [fromData] at h
    split_ifs at h
    cases h
  | .union members, w, h => by
    rw [fromData] at h
    split_ifs at h
    · cases h
      rfl
    · exact fromUnion_none members w h
  | .dataclass _ _, w, h => by simp [fromData] at h

theorem fromUnion_none : ∀ (members : List Hint) (w : PyValue),
    fromUnion casts members .none = .ok w → w = .none
  | [], w, h => by simp [fromUnion] at h
  | hint :: members, w, h => by
    rw [fromUnion] at h
    split at h
    · exact fromUnion_none members w h
    · exact fromData_none hint w h

end

theorem fromUnion_head {hint : Hint} {v w : PyValue} (members : List Hint)
    (h : fromData casts hint v = .ok w) : fromUnion casts (hint :: members) v = .ok w := by
  simp [fromUnion, h]

theorem fromUnion_tail {hint : Hint} {v : PyValue} {e : DaciteError} (members : List Hint)
    (h : fromData casts hint v = .error (.dacite e)) :
    fromUnion casts (hint :: members) v = fromUnion casts members v := by
  simp [fromUnion, h]

/-- A hint of a union that accepts the data is taken. -/
theorem fromData_union_head {hint : Hint} {v w : PyValue} (members : List Hint)
    (h : fromData casts hint v = .ok w) : fromData casts (.union (hint :: members)) v = .ok w := by
  by_cases hv : v = .none
  · subst hv
    obtain rfl := fromData_none hint w h
    rw [fromData, fromUnion_head members h, ite_self]
  · rw [fromData_union_of_ne _ hv, fromUnion_head members h]

theorem fromData_union_tail {hint : Hint} {v : PyValue} {e : DaciteError} (members : List Hint)
    (h : fromData casts hint v = .error (.dacite e)) :
    fromData casts (.union (hint :: members)) v = fromData casts (.union members) v := by
  by_cases hv : v = .none
  · subst hv
    have hnone : hint.isNone = false := by
      cases hint with
      | none => simp [fromData] at h
      | _ => rfl
    rw [fromData, fromData, fromUnion_tail members h, List.any_cons, hnone, Bool.false_or]
  · rw [fromData_union_of_ne _ hv, fromData_union_of_ne _ hv, fromUnion_tail members h]

theorem fromData_documented : Documented fromData where
  int casts i := by simp [fromData]
  str casts s := by simp [fromData]
  enum casts cls values s hcast hs := by simp [fromData, hcast, hs]
  tuple casts item vs ws hcast h := by
    simp [fromData, hcast, PyValue.iterate, mapM_ok_of_forall₂ h, bind, Except.bind, pure,
      Except.pure]
  union_none casts members h := by
    rw [fromData]
    exact if_pos h
  union_head casts hint members v w h := fromData_union_head members h
  union_tail casts hint members v w e _ hhint h := (fromData_union_tail members hhint).trans h
  dataclass casts cls fields items attrs h := by
    simp [fromData, fromFields_of_gives h, Except.map]
  missing casts cls earlier field later items hearlier hlookup habsent := by
    refine ⟨.missingValue [field.1], ?_⟩
    simp [fromData, fromFields_missing hearlier hlookup habsent, Except.map]
  not_dict casts cls fields v h := by
    refine ⟨.wrongType [], ?_⟩
    cases v with
    | dict items => exact absurd rfl (h items)
    | _ => simp [fromData]

end FromData

end PyData
