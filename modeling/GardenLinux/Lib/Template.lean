import GardenLinux.Lib.Text

/-!
# Texts with references

A text refers to variables as `$(name)`.  A controller puts their values in one after the
other: for each variable it replaces all references to it in what the replacements before have
left.  In a text that is made of written-out parts and of references this is the same as filling
every reference once, as long as no value brings a dollar sign along.

What is proved here:

* `putIn_text` — the replacements one after the other fill the references they are about;
* `putIn_text_of_covered` — all of them, when there is a value for each variable;
* `putIn_lines` — the lines of a text are filled on their own;
* `oneByOne` — hence a controller that does it in any order is a `Substitution`: what a text
  stands for does not depend on how it goes about it.
-/

namespace Template

/-- A part of a text: written out, or the reference to a variable. -/
inductive Piece
  | lit (s : List Char)
  | var (name : List Char)
  deriving DecidableEq, Repr

/-- `$(name)`. -/
def reference (name : List Char) : List Char := '$' :: '(' :: (name ++ [')'])

def Piece.text : Piece → List Char
  | .lit s => s
  | .var name => reference name

/-- The parts one after the other. -/
def text (ps : List Piece) : List Char := ps.flatMap Piece.text

/-- The names of the variables that a text refers to. -/
def names : List Piece → List (List Char)
  | [] => []
  | .lit _ :: ps => names ps
  | .var name :: ps => name :: names ps

/-- The text with the values of its variables. -/
def fill (value : List Char → List Char) (ps : List Piece) : List Char :=
  ps.flatMap fun
    | .lit s => s
    | .var name => value name

/-- The replacements one after the other. -/
def putIn (rs : List (List Char × List Char)) (s : List Char) : List Char :=
  rs.foldl (fun s r => Text.replace (reference r.1) r.2 s) s

example : putIn [("a".toList, "x".toList), ("b".toList, "y".toList)] "$(b)-$(a)$(c)".toList =
    "y-x$(c)".toList := by decide

@[simp] theorem text_nil : text [] = [] := rfl

@[simp] theorem text_cons (p : Piece) (ps : List Piece) : text (p :: ps) = p.text ++ text ps := rfl

@[simp] theorem text_append (ps qs : List Piece) : text (ps ++ qs) = text ps ++ text qs :=
  List.flatMap_append

@[simp] theorem fill_nil (value : List Char → List Char) : fill value [] = [] := rfl

@[simp] theorem fill_lit (value : List Char → List Char) (s : List Char) (ps : List Piece) :
    fill value (.lit s :: ps) = s ++ fill value ps := rfl

@[simp] theorem fill_var (value : List Char → List Char) (name : List Char) (ps : List Piece) :
    fill value (.var name :: ps) = value name ++ fill value ps := rfl

@[simp] theorem fill_append (value : List Char → List Char) (ps qs : List Piece) :
    fill value (ps ++ qs) = fill value ps ++ fill value qs :=
  List.flatMap_append

@[simp] theorem names_append (ps qs : List Piece) :
    names (ps ++ qs) = names ps ++ names qs := by
  induction ps with
  | nil => rfl
  | cons p ps ih => cases p <;> simp [names, ih]

theorem mem_names_iff {name : List Char} {ps : List Piece} :
    name ∈ names ps ↔ .var name ∈ ps := by
  induction ps with
  | nil => simp [names]
  | cons p ps ih => cases p <;> simp [names, ih]

/-- Without values a text is left as it is. -/
theorem text_eq_fill (ps : List Piece) : text ps = fill reference ps := by
  induction ps with
  | nil => rfl
  | cons p ps ih => cases p <;> simp [Piece.text, ih]

theorem fill_intercalate (value : List Char → List Char) (sep : List Piece)
    (parts : List (List Piece)) :
    fill value (sep.intercalate parts) = (fill value sep).intercalate (parts.map (fill value)) := by
  induction parts with
  | nil => rfl
  | cons part parts ih =>
    cases parts with
    | nil => simp
    | cons part' parts => simpa [List.intercalate] using ih

theorem intercalate_append {α : Type*} (sep : List α) {xs ys : List (List α)} (hxs : xs ≠ [])
    (hys : ys ≠ []) :
    sep.intercalate (xs ++ ys) = sep.intercalate xs ++ sep ++ sep.intercalate ys := by
  induction xs with
  | nil => exact absurd rfl hxs
  | cons x xs ih =>
    by_cases hnil : xs = []
    · subst hnil
      simp [List.intercalate_cons_of_ne_nil hys]
    · rw [List.cons_append, List.intercalate_cons_of_ne_nil (by simp [hnil]), ih hnil,
        List.intercalate_cons_of_ne_nil hnil]
      simp

theorem mem_intercalate {α : Type*} {p : α} {sep : List α} {parts : List (List α)}
    (h : p ∈ sep.intercalate parts) : p ∈ sep ∨ ∃ part ∈ parts, p ∈ part := by
  induction parts with
  | nil => simp [List.intercalate] at h
  | cons part parts ih =>
    cases parts with
    | nil => exact .inr ⟨part, by simp, by simpa using h⟩
    | cons part' parts =>
      have hcons : p ∈ part ∨ p ∈ sep ∨ p ∈ sep.intercalate (part' :: parts) := by
        simpa [List.intercalate] using h
      rcases hcons with hpart | hsep | hrest
      · exact .inr ⟨part, by simp, hpart⟩
      · exact .inl hsep
      · obtain hsep | ⟨other, hother, hp⟩ := ih hrest
        · exact .inl hsep
        · exact .inr ⟨other, by simp_all, hp⟩

@[simp] theorem putIn_nil (s : List Char) : putIn [] s = s := rfl

@[simp] theorem putIn_cons (r : List Char × List Char) (rs : List (List Char × List Char))
    (s : List Char) : putIn (r :: rs) s = putIn rs (Text.replace (reference r.1) r.2 s) := rfl

/-! ## One replacement -/

/-- The rest of an occurrence is dropped. -/
theorem replaceFrom_append (old new s t : List Char) :
    Text.replaceFrom old new s.length (s ++ t) = Text.replace old new t := by
  induction s with
  | nil => rfl
  | cons c s ih => simpa [Text.replaceFrom] using ih

/-- An occurrence at the beginning is replaced. -/
theorem replace_self_append {old : List Char} (hold : old ≠ []) (new t : List Char) :
    Text.replace old new (old ++ t) = new ++ Text.replace old new t := by
  cases old with
  | nil => exact absurd rfl hold
  | cons c old =>
    rw [Text.replace, List.cons_append, Text.replaceFrom, if_pos ⟨t, rfl⟩]
    simp [replaceFrom_append]

/-- A reference ends at its bracket, so that it is no beginning of another one. -/
theorem reference_prefix_iff {name name' t : List Char} (h : ')' ∉ name) (h' : ')' ∉ name') :
    reference name <+: reference name' ++ t ↔ name = name' := by
  constructor
  · rintro ⟨u, hu⟩
    have hnames : name ++ ')' :: u = name' ++ ')' :: t := by
      simpa [reference] using hu
    exact (Text.append_cons_inj h h' hnames).1
  · rintro rfl
    exact ⟨t, rfl⟩

theorem replace_reference_of_ne {name name' : List Char} (h : ')' ∉ name) (h' : ')' ∉ name')
    (hdollar : '$' ∉ name') (hne : name ≠ name') (new t : List Char) :
    Text.replace (reference name) new (reference name' ++ t) =
      reference name' ++ Text.replace (reference name) new t := by
  have hnot : ¬ reference name <+: '$' :: (('(' :: (name' ++ [')'])) ++ t) :=
    mt (reference_prefix_iff h h').1 hne
  -- behind the dollar sign there is no other one
  have hrest : '$' ∉ '(' :: (name' ++ [')']) := by simp [hdollar]
  have hdrop := Text.replace_append hrest ('(' :: (name ++ [')'])) new t
  rw [show reference name' ++ t = '$' :: (('(' :: (name' ++ [')'])) ++ t) from rfl, Text.replace,
    Text.replaceFrom, if_neg hnot]
  exact congrArg ('$' :: ·) hdrop

/-- A part that a controller can be given: only references have dollar signs, and names end
where the bracket is. -/
def Piece.Plain : Piece → Prop
  | .lit s => '$' ∉ s
  | .var name => '$' ∉ name ∧ ')' ∉ name

instance Piece.Plain.decidable : DecidablePred Piece.Plain
  | .lit s => inferInstanceAs (Decidable ('$' ∉ s))
  | .var name => inferInstanceAs (Decidable ('$' ∉ name ∧ ')' ∉ name))

/-- A part after the replacements. -/
def Piece.subst (rs : List (List Char × List Char)) : Piece → Piece
  | .lit s => .lit s
  | .var name =>
    match rs.lookup name with
    | some v => .lit v
    | none => .var name

theorem replace_text {name new : List Char} {ps : List Piece} (hps : ∀ p ∈ ps, p.Plain)
    (hname : ')' ∉ name) :
    Text.replace (reference name) new (text ps) = text (ps.map (Piece.subst [(name, new)])) := by
  induction ps with
  | nil => rfl
  | cons p ps ih =>
    rw [List.forall_mem_cons] at hps
    rw [text_cons, List.map_cons, text_cons, ← ih hps.2]
    cases p with
    | lit s => exact Text.replace_append hps.1 _ new _
    | var name' =>
      obtain ⟨hdollar, hbracket⟩ := hps.1
      by_cases hname' : name = name'
      · subst hname'
        simpa [Piece.subst, Piece.text, reference] using
          replace_self_append (by simp [reference] : reference name ≠ []) new (text ps)
      · have hlookup : [(name, new)].lookup name' = none := by
          simp [List.lookup, beq_eq_false_iff_ne.2 (Ne.symm hname')]
        simpa [Piece.subst, Piece.text, hlookup] using
          replace_reference_of_ne hname hbracket hdollar hname' new (text ps)

/-! ## All replacements -/

theorem mem_of_lookup {rs : List (List Char × List Char)} {name v : List Char}
    (h : rs.lookup name = some v) : (name, v) ∈ rs := by
  obtain ⟨l₁, l₂, rfl, -⟩ := List.lookup_eq_some_iff.1 h
  simp

theorem Piece.Plain.subst {p : Piece} {rs : List (List Char × List Char)} (h : p.Plain)
    (hrs : ∀ r ∈ rs, '$' ∉ r.2) : (p.subst rs).Plain := by
  cases p with
  | lit s => exact h
  | var name =>
    cases hlookup : rs.lookup name with
    | some v => simpa [Piece.subst, hlookup, Piece.Plain] using hrs _ (mem_of_lookup hlookup)
    | none => simpa [Piece.subst, hlookup] using h

theorem Piece.subst_cons (r : List Char × List Char) (rs : List (List Char × List Char))
    (p : Piece) : (p.subst [r]).subst rs = p.subst (r :: rs) := by
  cases p with
  | lit s => rfl
  | var name =>
    by_cases hr : name = r.1
    · simp [Piece.subst, List.lookup, hr]
    · simp [Piece.subst, List.lookup, beq_eq_false_iff_ne.2 hr]

/-- Replacing one variable after the other fills the references they are about. -/
theorem putIn_text {rs : List (List Char × List Char)} {ps : List Piece}
    (hps : ∀ p ∈ ps, p.Plain) (hnames : ∀ r ∈ rs, ')' ∉ r.1) (hvalues : ∀ r ∈ rs, '$' ∉ r.2) :
    putIn rs (text ps) = text (ps.map (Piece.subst rs)) := by
  induction rs generalizing ps with
  | nil =>
    have hid : ps.map (Piece.subst []) = ps := by
      conv_rhs => rw [← List.map_id ps]
      exact List.map_congr_left fun p _ => by cases p <;> rfl
    rw [putIn_nil, hid]
  | cons r rs ih =>
    rw [List.forall_mem_cons] at hnames hvalues
    have hplain : ∀ p ∈ ps.map (Piece.subst [r]), p.Plain := by
      intro p hp
      obtain ⟨q, hq, rfl⟩ := List.mem_map.1 hp
      exact (hps q hq).subst (by simpa using hvalues.1)
    rw [putIn_cons, replace_text hps hnames.1, ih hplain hnames.2 hvalues.2, List.map_map]
    congr 1
    exact List.map_congr_left fun p _ => Piece.subst_cons r rs p

theorem text_subst_of_covered {rs : List (List Char × List Char)} {value : List Char → List Char}
    {ps : List Piece} (h : ∀ name ∈ names ps, rs.lookup name = some (value name)) :
    text (ps.map (Piece.subst rs)) = fill value ps := by
  induction ps with
  | nil => rfl
  | cons p ps ih =>
    cases p with
    | lit s => simpa [Piece.subst, Piece.text] using ih h
    | var name =>
      have hcons := List.forall_mem_cons.1 h
      simpa [Piece.subst, Piece.text, hcons.1] using ih hcons.2

/-- With a value for every variable nothing but the filled text is left. -/
theorem putIn_text_of_covered {rs : List (List Char × List Char)}
    {value : List Char → List Char} {ps : List Piece} (hps : ∀ p ∈ ps, p.Plain)
    (hnames : ∀ r ∈ rs, ')' ∉ r.1) (hvalues : ∀ r ∈ rs, '$' ∉ r.2)
    (h : ∀ name ∈ names ps, rs.lookup name = some (value name)) :
    putIn rs (text ps) = fill value ps :=
  (putIn_text hps hnames hvalues).trans (text_subst_of_covered h)

theorem lookup_eq_some_of_nodup {rs : List (List Char × List Char)} (h : (rs.map Prod.fst).Nodup)
    {r : List Char × List Char} (hr : r ∈ rs) : rs.lookup r.1 = some r.2 := by
  induction rs with
  | nil => cases hr
  | cons r' rs ih =>
    rw [List.map_cons, List.nodup_cons] at h
    rcases List.mem_cons.1 hr with rfl | hr
    · simp [List.lookup]
    · have hne : r.1 ≠ r'.1 := fun heq => h.1 (heq ▸ List.mem_map_of_mem hr)
      simp [List.lookup, beq_eq_false_iff_ne.2 hne, ih h.2 hr]

theorem lookup_perm {rs rs' : List (List Char × List Char)} (hperm : rs.Perm rs')
    (h : (rs.map Prod.fst).Nodup) (name : List Char) : rs.lookup name = rs'.lookup name := by
  have h' : (rs'.map Prod.fst).Nodup := (hperm.map Prod.fst).nodup_iff.1 h
  cases hlookup : rs'.lookup name with
  | some v =>
    exact lookup_eq_some_of_nodup h (hperm.mem_iff.2 (mem_of_lookup hlookup))
  | none =>
    rw [List.lookup_eq_none_iff] at hlookup ⊢
    exact fun r hr => hlookup r (hperm.mem_iff.1 hr)

/-! ## Lines -/

section Lines

variable {d : Char} {old : List Char}

theorem prefix_append_cons_iff (hd : d ∉ old) (s t : List Char) :
    old <+: s ++ d :: t ↔ old <+: s := by
  constructor
  · intro h
    refine List.prefix_of_prefix_length_le h (List.prefix_append _ _) ?_
    by_contra hlong
    have hget : old[s.length]? = some d := by
      rw [List.prefix_iff_getElem?] at h
      have hs := h s.length (not_le.1 hlong)
      rw [List.getElem?_eq_getElem (not_le.1 hlong), ← hs]
      simp
    exact hd (List.mem_of_getElem? hget)
  · exact fun h => h.trans (List.prefix_append _ _)

theorem replaceFrom_append_cons (hd : d ∉ old) (hold : old ≠ []) (new t : List Char) :
    ∀ (s : List Char) (skip : ℕ), skip ≤ s.length →
      Text.replaceFrom old new skip (s ++ d :: t) =
        Text.replaceFrom old new skip s ++ d :: Text.replace old new t := by
  intro s
  induction s with
  | nil =>
    intro skip hskip
    obtain rfl : skip = 0 := by simpa using hskip
    have hnot : ¬ old <+: d :: t := fun h => by
      have hnil := (prefix_append_cons_iff (s := []) hd t).1 h
      exact hold (List.prefix_nil.1 hnil)
    simp only [List.nil_append, Text.replaceFrom, if_neg hnot, Text.replace]
  | cons c s ih =>
    intro skip hskip
    cases skip with
    | succ skip => exact ih skip (by simpa using hskip)
    | zero =>
      have hiff := prefix_append_cons_iff hd (c :: s) t
      rw [List.cons_append] at hiff ⊢
      rw [Text.replaceFrom, Text.replaceFrom]
      by_cases hpre : old <+: c :: s
      · have hlength := hpre.length_le
        rw [List.length_cons] at hlength
        rw [if_pos (hiff.2 hpre), if_pos hpre, ih _ (by omega), List.append_assoc]
      · rw [if_neg (mt hiff.1 hpre), if_neg hpre, ih 0 (Nat.zero_le _)]
        rfl

/-- A word does not reach over a character that it does not have. -/
theorem replace_append_cons (hd : d ∉ old) (hold : old ≠ []) (new s t : List Char) :
    Text.replace old new (s ++ d :: t) = Text.replace old new s ++ d :: Text.replace old new t :=
  replaceFrom_append_cons hd hold new t s 0 (Nat.zero_le _)

end Lines

/-- The lines of a text are filled on their own. -/
theorem putIn_lines {rs : List (List Char × List Char)} (hnames : ∀ r ∈ rs, '\n' ∉ r.1)
    (s t : List Char) : putIn rs (s ++ '\n' :: t) = putIn rs s ++ '\n' :: putIn rs t := by
  induction rs generalizing s t with
  | nil => rfl
  | cons r rs ih =>
    rw [List.forall_mem_cons] at hnames
    have hd : '\n' ∉ reference r.1 := by simp [reference, hnames.1]
    rw [putIn_cons, replace_append_cons hd (by simp [reference]), ih hnames.2]
    rfl

/-! ## Controllers -/

/-- Values that a controller can be given: each variable once, and nothing that looks like a
reference in a value. -/
structure Values (rs : List (List Char × List Char)) : Prop where
  nodup : (rs.map Prod.fst).Nodup
  bracket : ∀ r ∈ rs, ')' ∉ r.1
  newline : ∀ r ∈ rs, '\n' ∉ r.1
  dollar : ∀ r ∈ rs, '$' ∉ r.2

/-- A controller that puts values in the place of references. -/
structure Substitution where
  put : List (List Char × List Char) → List Char → List Char
  put_text : ∀ {rs : List (List Char × List Char)} {value : List Char → List Char}
    {ps : List Piece}, Values rs → (∀ p ∈ ps, p.Plain) →
      (∀ name ∈ names ps, rs.lookup name = some (value name)) → put rs (text ps) = fill value ps
  put_lines : ∀ {rs : List (List Char × List Char)}, Values rs → ∀ s t,
    put rs (s ++ '\n' :: t) = put rs s ++ '\n' :: put rs t

theorem Values.perm {rs rs' : List (List Char × List Char)} (h : Values rs) (hperm : rs'.Perm rs) :
    Values rs' where
  nodup := (hperm.map Prod.fst).nodup_iff.2 h.nodup
  bracket r hr := h.bracket r (hperm.mem_iff.1 hr)
  newline r hr := h.newline r (hperm.mem_iff.1 hr)
  dollar r hr := h.dollar r (hperm.mem_iff.1 hr)

/-- The values are put in one after the other, in an order of the controller's own. -/
def oneByOne (order : List (List Char × List Char) → List (List Char × List Char))
    (horder : ∀ rs, (order rs).Perm rs) : Substitution where
  put rs s := putIn (order rs) s
  put_text {rs value ps} hrs hps h := by
    have horder' := hrs.perm (horder rs)
    refine putIn_text_of_covered hps horder'.bracket horder'.dollar fun name hname => ?_
    rw [lookup_perm (horder rs) horder'.nodup, h name hname]
  put_lines hrs s t := putIn_lines (hrs.perm (horder _)).newline s t

end Template
