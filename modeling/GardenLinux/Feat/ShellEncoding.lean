import GardenLinux.Lib.BashScript
import GardenLinux.Feat.ShellVars

/-!
# Evaluating the printed parameters

The lines of `printShellVars` as a shell reads them: each is an assignment of a text between
single quotes or of an array of such texts.

What is proved here:

* `text_toList` — what is printed is the script of the assignments;
* `isIdentifier_below` — when the variables of the scalars have names, all the others do;
* `faithfullyEncoded_iff` — exactly when the variables hold what is in the tree;
* `faithfullyEncoded_fails` — a value with an apostrophe, and two nodes of one name.
-/

namespace GardenFeat

/-! ## The printed text -/

def Line.print : Line → String
  | .scalar name value => name ++ "='" ++ value ++ "'\n"
  | .values name vals => name ++ "=(" ++ String.join (vals.map (" '" ++ · ++ "'")) ++ " )\n"
  | .header name names => name ++ "=(" ++ String.join (names.map (" '" ++ · ++ "'")) ++ " )\n"

/-- What is on standard output; a header that breaks off has no end of line. -/
def Output.text (out : Output) : String :=
  String.join (out.lines.map Line.print) ++
    out.broken.elim "" fun b => b.name ++ "=(" ++ String.join (b.names.map (" '" ++ · ++ "'"))

/-- The assignment that a line is meant to be. -/
def Line.assignment : Line → Bash.Assignment
  | .scalar name value => ⟨name.toList, .scalar value.toList⟩
  | .values name vals => ⟨name.toList, .array (vals.map String.toList)⟩
  | .header name names => ⟨name.toList, .array (names.map String.toList)⟩

theorem toList_join (ss : List String) : (String.join ss).toList = ss.flatMap String.toList := by
  induction ss with
  | nil => rfl
  | cons s ss ih => rw [String.join_cons, String.toList_append, ih, List.flatMap_cons]

theorem toList_elements (vals : List String) :
    (String.join (vals.map (" '" ++ · ++ "'"))).toList =
      Bash.elements (vals.map String.toList) := by
  rw [toList_join, Bash.elements, List.flatMap_map, List.flatMap_map]
  refine congrArg (vals.flatMap ·) (funext fun v => ?_)
  simp only [String.toList_append]
  rfl

theorem toList_print (line : Line) : line.print.toList = line.assignment.line := by
  have harray : ∀ (name : String) (vals : List String),
      (name ++ "=(" ++ String.join (vals.map (" '" ++ · ++ "'")) ++ " )\n").toList =
        (⟨name.toList, .array (vals.map String.toList)⟩ : Bash.Assignment).line := by
    intro name vals
    simp only [String.toList_append, toList_elements, Bash.Assignment.line, Bash.Value.text]
    simp
  cases line with
  | scalar name value =>
    simp only [Line.print, String.toList_append, Line.assignment, Bash.Assignment.line,
      Bash.Value.text, Bash.quoted]
    simp [Bash.squote]
  | values name vals => exact harray name vals
  | header name names => exact harray name names

theorem text_toList {out : Output} (h : out.broken = none) :
    out.text.toList = Bash.scriptOf (out.lines.map Line.assignment) := by
  rw [Output.text, h, Option.elim_none, String.append_empty, toList_join, Bash.scriptOf,
    List.flatMap_map, List.flatMap_map]
  exact congrArg (out.lines.flatMap ·) (funext toList_print)

/-! ## A faithful encoding -/

/-- A boolean, an integer, also one beyond `int`, or a string as a text. -/
def Scalar.value : Scalar → Option String
  | .uint64 n => some (toString n)
  | s => s.text

def YamlNode.value : YamlNode → Option String
  | .scalar s => s.value
  | _ => none

/-- What the variable of a scalar, or of a list of scalars, should hold. -/
def YamlNode.leaf : YamlNode → Option Bash.Value
  | .scalar s => s.value.map fun text => .scalar text.toList
  | .list a => (a.mapM YamlNode.value).map fun texts => .array (texts.map String.toList)
  | .map _ => none

/-- The keys are identifiers, and the scalars are strings, booleans or integers. -/
structure PlainTree (root : List (Scalar × YamlNode)) : Prop where
  keys : ∀ pn ∈ nodes root, ∀ m, pn.2 = .map m → ∀ e ∈ m,
    ∃ key : String, e.1 = .string key ∧ Bash.isIdentifier key.toList
  scalars : ∀ pn ∈ below root, ∀ s, pn.2 = .scalar s → s.value.isSome

/-- The variable gets the value, and no other one. -/
def Holds (trace : List Bash.Assignment) (name : String) (value : Bash.Value) : Prop :=
  ⟨name.toList, value⟩ ∈ trace ∧ ∀ a ∈ trace, a.name = name.toList → a.value = value

/-- No two nodes have one variable, and the lines are assignments after which the variables
of scalars and of lists of scalars hold what is in the tree. -/
structure FaithfullyEncoded (shell : Bash.Shell) (root : List (Scalar × YamlNode)) : Prop where
  distinct : ("_" :: (below root).map Prod.fst).Nodup
  holds : ∃ trace, shell.evaluate (printShellVars root).text.toList = some trace ∧
    ∀ pn ∈ below root, ∀ value, pn.2.leaf = some value → Holds trace pn.1 value

/-- The paths are different names of variables, no integer is beyond `int`, and no text has an
apostrophe or a NUL character in it. -/
structure Encodable (shell : Bash.Shell) (root : List (Scalar × YamlNode)) : Prop where
  distinct : ("_" :: (below root).map Prod.fst).Nodup
  names : ∀ pn ∈ below root, shell.isVariable pn.1.toList
  printed : ∀ pn ∈ below root, pn.2.isPrinted
  clean : ∀ pn ∈ below root, ∀ value, pn.2.leaf = some value → value.Clean

theorem PlainTree.hasStringKeys {root : List (Scalar × YamlNode)} (h : PlainTree root) :
    ∀ pn ∈ nodes root, pn.2.HasStringKeys := by
  rintro ⟨path, node⟩ hpn
  cases node with
  | map m =>
    intro e he
    obtain ⟨key, hkey, -⟩ := h.keys _ hpn m rfl e he
    exact ⟨key, hkey⟩
  | _ => trivial

theorem YamlNode.value_of_text {node : YamlNode} {text : String} (h : node.text = some text) :
    node.value = some text := by
  cases node with
  | scalar s =>
    cases s with
    | uint64 n => simp [YamlNode.text, Scalar.text] at h
    | _ => exact h
  | _ => simp [YamlNode.text] at h

/-- The values of a list whose elements have texts are these texts. -/
theorem mapM_value {a : List YamlNode} {texts : List String}
    (h : a.mapM YamlNode.text = some texts) : a.mapM YamlNode.value = some texts := by
  induction a generalizing texts with
  | nil => exact h
  | cons node a ih =>
    rw [List.mapM_cons] at h ⊢
    obtain ⟨text, htext, h⟩ := Option.bind_eq_some_iff.1 h
    obtain ⟨rest, hrest, h⟩ := Option.bind_eq_some_iff.1 h
    rw [YamlNode.value_of_text htext, ih hrest]
    exact h

/-- The elements of a list of scalars are scalars. -/
theorem isSome_of_mapM_value {a : List YamlNode} {texts : List String}
    (h : a.mapM YamlNode.value = some texts) : ∀ node ∈ a, node.value.isSome := by
  induction a generalizing texts with
  | nil => simp
  | cons node a ih =>
    rw [List.mapM_cons] at h
    obtain ⟨text, htext, h⟩ := Option.bind_eq_some_iff.1 h
    obtain ⟨rest, hrest, -⟩ := Option.bind_eq_some_iff.1 h
    exact List.forall_mem_cons.2 ⟨Option.isSome_of_eq_some htext, ih hrest⟩

/-- A list of scalars that are printed is printed as one array. -/
theorem mapM_text_of_printed {path : String} {a : List YamlNode} {texts : List String}
    (hprinted : ∀ child ∈ children (path, .list a), child.2.isPrinted)
    (h : a.mapM YamlNode.value = some texts) : a.mapM YamlNode.text = some texts := by
  cases ha : a.mapM YamlNode.text with
  | some texts' => rw [← h, mapM_value ha]
  | none =>
    rw [children_list_of_none ha] at hprinted
    have hall : a.all (·.text.isSome) = true := by
      rw [List.all_eq_true]
      intro node hnode
      obtain ⟨i, hi⟩ := List.mem_iff_getElem?.1 hnode
      have hchild := hprinted _ (List.mem_map_of_mem (List.mk_mem_zipIdx_iff_getElem?.2 hi))
      have hvalue := isSome_of_mapM_value h node hnode
      cases node with
      | scalar s => exact hchild
      | _ => exact nomatch hvalue
    rw [← mapM_text_isSome, ha] at hall
    exact nomatch hall

theorem lineOf_leaf {pn : String × YamlNode} {value : Bash.Value} (hprinted : pn.2.isPrinted)
    (hchildren : ∀ child ∈ children pn, child.2.isPrinted) (h : pn.2.leaf = some value) :
    ∃ line, lineOf pn = some line ∧ line.assignment.value = value := by
  obtain ⟨path, node⟩ := pn
  cases node with
  | scalar s =>
    obtain ⟨text, htext⟩ := Option.isSome_iff_exists.1 hprinted
    have hvalue : s.value = some text := @YamlNode.value_of_text (.scalar s) _ htext
    obtain ⟨text', htext', rfl⟩ := Option.map_eq_some_iff.1 h
    obtain rfl := Option.some.inj (hvalue.symm.trans htext')
    exact ⟨.scalar path text, by simp [lineOf, htext], rfl⟩
  | list a =>
    obtain ⟨texts, htexts, rfl⟩ := Option.map_eq_some_iff.1 h
    have htext := mapM_text_of_printed hchildren htexts
    exact ⟨.values path texts, by simp [lineOf, htext], rfl⟩
  | map m => simp [YamlNode.leaf] at h

/-- A line is that of a scalar or of a list of scalars, or a header. -/
theorem lineOf_cases {pn : String × YamlNode} {line : Line} (h : lineOf pn = some line) :
    (∃ value, pn.2.leaf = some value ∧ line.assignment.value = value) ∨
      ∃ header, line = .header header ((children pn).map Prod.fst) := by
  obtain ⟨path, node⟩ := pn
  cases node with
  | scalar s =>
    obtain ⟨text, htext, rfl⟩ := Option.map_eq_some_iff.1 h
    have hvalue : s.value = some text := @YamlNode.value_of_text (.scalar s) _ htext
    exact Or.inl ⟨.scalar text.toList, by simp [YamlNode.leaf, hvalue], rfl⟩
  | list a =>
    cases ha : a.mapM YamlNode.text with
    | some texts =>
      simp only [lineOf, ha, Option.some.injEq] at h
      subst h
      exact Or.inl ⟨.array (texts.map String.toList), by simp [YamlNode.leaf, mapM_value ha], rfl⟩
    | none =>
      simp only [lineOf, ha, Option.some.injEq] at h
      exact Or.inr ⟨path, h.symm⟩
  | map m =>
    obtain rfl := Option.some.inj h
    exact Or.inr ⟨_, rfl⟩

/-! ## Names -/

theorem path_ne_empty {path : String} (h : Bash.isIdentifier path.toList) : path ≠ "" := by
  rintro rfl
  exact absurd h (by decide)

theorem isIdentifier_childPath {path name : String} (hpath : Bash.isIdentifier path.toList)
    (hname : name.toList.all Bash.isNameChar) :
    Bash.isIdentifier (childPath path name).toList := by
  rw [childPath, if_pos (path_ne_empty hpath), String.toList_append, String.toList_append]
  cases hcs : path.toList with
  | nil =>
    rw [hcs] at hpath
    simp [Bash.isIdentifier] at hpath
  | cons c cs =>
    rw [hcs, Bash.isIdentifier, Bool.and_eq_true] at hpath
    simp only [List.cons_append, Bash.isIdentifier, List.all_append, Bool.and_eq_true]
    exact ⟨hpath.1, ⟨hpath.2, by decide⟩, hname⟩

/-- A path has all the characters of what it is made of. -/
theorem mem_childPath {path name : String} {c : Char} (h : c ∈ path.toList ∨ c ∈ name.toList) :
    c ∈ (childPath path name).toList := by
  rw [childPath]
  split
  · rw [String.toList_append, String.toList_append]
    rcases h with h | h <;> simp [h]
  · next hpath =>
    rw [not_not.1 hpath] at h
    simpa using h

theorem all_isNameChar_toString (i : ℕ) : (toString i).toList.all Bash.isNameChar := by
  rw [List.all_eq_true]
  intro c hc
  have hdigits : (toString i).toList = Nat.toDigits 10 i := Nat.toList_repr
  rw [hdigits] at hc
  rw [Bash.isNameChar, Nat.isDigit_of_mem_toDigits (by decide) (by decide) hc, Bool.or_true]

/-- The name of a map among the elements of a list is one of its leaves. -/
theorem name_child {path name : String} {m : List (Scalar × YamlNode)}
    (h : (nameEntry m).bind YamlNode.text = some name) :
    ∃ node value, (childPath path "name", node) ∈ children (path, .map m) ∧
      YamlNode.leaf node = some value := by
  obtain ⟨node, hentry, htext⟩ := Option.bind_eq_some_iff.1 h
  obtain ⟨⟨key, node⟩, hfind, rfl⟩ := Option.map_eq_some_iff.1 hentry
  have hmem := List.mem_of_find?_eq_some hfind
  have hkey : key = .string "name" := by simpa using List.find?_some hfind
  subst hkey
  cases node with
  | scalar s =>
    simp only [YamlNode.text] at htext
    have hvalue : s.value = some name := @YamlNode.value_of_text (.scalar s) _ htext
    exact ⟨.scalar s, .scalar name.toList, List.mem_filterMap.2 ⟨_, hmem, rfl⟩,
      by simp [YamlNode.leaf, hvalue]⟩
  | _ => simp [YamlNode.text] at htext

/-- The children of a node go by identifiers when the node does and the leaves do. -/
theorem isIdentifier_child {pn child : String × YamlNode} {later : List (String × YamlNode)}
    (hpath : Bash.isIdentifier pn.1.toList)
    (hkeys : ∀ m, pn.2 = .map m → ∀ e ∈ m,
      ∃ key : String, e.1 = .string key ∧ Bash.isIdentifier key.toList)
    (hleaves : ∀ below ∈ later, ∀ value, below.2.leaf = some value →
      Bash.isIdentifier below.1.toList)
    (hlater : ∀ grandchild ∈ children child, grandchild ∈ later) (h : child ∈ children pn) :
    Bash.isIdentifier child.1.toList := by
  obtain ⟨path, node⟩ := pn
  cases node with
  | scalar s => simp [children] at h
  | list a =>
    rw [children] at h
    split_ifs at h
    · simp at h
    · obtain ⟨⟨val, i⟩, -, rfl⟩ := List.mem_map.1 h
      refine isIdentifier_childPath hpath ?_
      cases val with
      | map m =>
        rw [elementName]
        cases hname : (nameEntry m).bind YamlNode.text with
        | none => exact all_isNameChar_toString i
        | some name =>
          obtain ⟨node, value, hmem, hleaf⟩ := name_child hname
          have hid := hleaves _ (hlater _ hmem) value hleaf
          simp only [elementName, hname, Option.getD_some] at hid
          rw [Option.getD_some, List.all_eq_true]
          intro c hc
          exact Bash.isNameChar_of_identifier hid c
            (mem_childPath (Or.inl (mem_childPath (Or.inr hc))))
      | _ => exact all_isNameChar_toString i
  | map m =>
    obtain ⟨e, he, hchild⟩ := List.mem_filterMap.1 h
    obtain ⟨key, hkey, hid⟩ := hkeys m rfl e he
    rw [hkey] at hchild
    obtain rfl := Option.some.inj hchild
    exact isIdentifier_childPath hpath
      (List.all_eq_true.2 fun c hc => Bash.isNameChar_of_identifier hid c hc)

theorem isIdentifier_visitOrder {stack : List (String × YamlNode)}
    (hstack : ∀ pn ∈ stack, Bash.isIdentifier pn.1.toList)
    (hkeys : ∀ pn ∈ visitOrder stack, ∀ m, pn.2 = .map m → ∀ e ∈ m,
      ∃ key : String, e.1 = .string key ∧ Bash.isIdentifier key.toList)
    (hleaves : ∀ pn ∈ visitOrder stack, ∀ value, pn.2.leaf = some value →
      Bash.isIdentifier pn.1.toList) :
    ∀ pn ∈ visitOrder stack, Bash.isIdentifier pn.1.toList := by
  induction stack using visitOrder.induct with
  | case1 => simp [visitOrder]
  | case2 pn rest ih =>
    rw [visitOrder] at hkeys hleaves ⊢
    rw [List.forall_mem_cons] at hstack hkeys hleaves ⊢
    refine ⟨hstack.1, ih (fun child hchild => ?_) hkeys.2 hleaves.2⟩
    rcases List.mem_append.1 hchild with hmem | hrest
    · refine isIdentifier_child hstack.1 hkeys.1 hleaves.2 (fun grandchild hgrandchild => ?_) hmem
      obtain ⟨before, after, hsplit⟩ :=
        List.append_of_mem (mem_visitOrder_of_mem (List.mem_append_left rest hmem))
      rw [hsplit]
      exact List.mem_append_right _
        (List.mem_cons_of_mem _ (children_later hsplit grandchild hgrandchild))
    · exact hstack.2 child hrest

/-- All variables have names when those of the leaves do. -/
theorem isIdentifier_below {root : List (Scalar × YamlNode)} (h : PlainTree root)
    (hleaves : ∀ pn ∈ below root, ∀ value, pn.2.leaf = some value →
      Bash.isIdentifier pn.1.toList) :
    ∀ pn ∈ below root, Bash.isIdentifier pn.1.toList := by
  have hkeys := h.keys
  rw [nodes_eq, List.forall_mem_cons] at hkeys
  refine isIdentifier_visitOrder (fun child hchild => ?_) hkeys.2 hleaves
  obtain ⟨e, he, heq⟩ := List.mem_filterMap.1 hchild
  obtain ⟨key, hkey, hid⟩ := hkeys.1 root rfl e he
  rw [hkey] at heq
  obtain rfl := Option.some.inj heq
  exact hid

/-! ## What the lines assign -/

variable {shell : Bash.Shell} {root : List (Scalar × YamlNode)}

/-- The assignments that are printed. -/
def assignments (root : List (Scalar × YamlNode)) : List Bash.Assignment :=
  ((nodes root).filterMap lineOf).map Line.assignment

theorem evaluate_printShellVars (h : PlainTree root) :
    shell.evaluate (printShellVars root).text.toList =
      shell.evaluate (Bash.scriptOf (assignments root)) := by
  have hprint : printShellVars root = ⟨(nodes root).filterMap lineOf, none⟩ :=
    printStack_eq h.hasStringKeys
  rw [text_toList (by rw [hprint]), hprint]
  rfl

/-- An assignment is the header of the root or that of a node below. -/
theorem mem_assignments {a : Bash.Assignment}
    (hpaths : ∀ pn ∈ below root, Bash.isIdentifier pn.1.toList) (h : a ∈ assignments root) :
    (a.name = "_".toList ∨ ∃ pn ∈ below root, a.name = pn.1.toList) ∧
      (a.value.Clean ∨ ∃ pn ∈ below root, a.name = pn.1.toList ∧ pn.2.leaf = some a.value) := by
  obtain ⟨line, hline, rfl⟩ := List.mem_map.1 h
  obtain ⟨pn, hpn, hlineOf⟩ := List.mem_filterMap.1 hline
  have hassignment : line.assignment.name = line.name.toList := by cases line <;> rfl
  have hheader : ∀ header, line = .header header ((children pn).map Prod.fst) →
      line.assignment.value.Clean := by
    rintro header rfl text htext
    rw [Line.assignment, Bash.Value.texts, List.map_map] at htext
    obtain ⟨child, hchild, rfl⟩ := List.mem_map.1 htext
    exact Bash.identifier_clean (hpaths child (mem_below_iff.2 ⟨pn, hpn, hchild⟩))
  rw [nodes_eq] at hpn
  rcases List.mem_cons.1 hpn with rfl | hbelow
  · obtain rfl := Option.some.inj hlineOf
    exact ⟨Or.inl (by simp [Line.assignment, headerName]), Or.inl (hheader _ rfl)⟩
  · have hne := path_ne_empty (hpaths pn hbelow)
    have hname : line.assignment.name = pn.1.toList := by
      rw [hassignment, lineOf_name hne hlineOf]
    refine ⟨Or.inr ⟨pn, hbelow, hname⟩, ?_⟩
    rcases lineOf_cases hlineOf with ⟨value, hleaf, rfl⟩ | ⟨header, hline⟩
    · exact Or.inr ⟨pn, hbelow, hname, hleaf⟩
    · exact Or.inl (hheader header hline)

/-- The assignment of a node below the root. -/
theorem exists_assignment (hprinted : ∀ pn ∈ below root, pn.2.isPrinted)
    (hpaths : ∀ pn ∈ below root, Bash.isIdentifier pn.1.toList) {pn : String × YamlNode}
    (hpn : pn ∈ below root) : ∃ a ∈ assignments root, a.name = pn.1.toList ∧
      ∀ value, pn.2.leaf = some value → a.value = value := by
  have hsome := (lineOf_isSome pn).trans (hprinted pn hpn)
  obtain ⟨line, hlineOf⟩ := Option.isSome_iff_exists.1 hsome
  have hnodes : pn ∈ nodes root := by
    rw [nodes_eq]
    exact List.mem_cons_of_mem _ hpn
  have hne := path_ne_empty (hpaths pn hpn)
  refine ⟨line.assignment, List.mem_map_of_mem (List.mem_filterMap.2 ⟨pn, hnodes, hlineOf⟩), ?_, ?_⟩
  · rw [← lineOf_name hne hlineOf]
    cases line <;> rfl
  · intro value hleaf
    have hchildren : ∀ child ∈ children pn, child.2.isPrinted := fun child hchild =>
      hprinted child (mem_below_iff.2 ⟨pn, hnodes, hchild⟩)
    obtain ⟨line', hline', hvalue⟩ := lineOf_leaf (hprinted pn hpn) hchildren hleaf
    rw [Option.some.inj (hlineOf.symm.trans hline'), hvalue]

/-- The names of the variables that are assigned to. -/
theorem names_assignments (hpaths : ∀ pn ∈ below root, Bash.isIdentifier pn.1.toList) :
    (assignments root).map Bash.Assignment.name =
      ("_" :: ((below root).filter (·.2.isPrinted)).map Prod.fst).map String.toList := by
  rw [← names_lines fun pn hpn => path_ne_empty (hpaths pn hpn), assignments, List.map_map,
    List.map_map]
  exact List.map_congr_left fun line _ => by cases line <;> rfl

/-- A node whose variable is assigned to is printed. -/
theorem isPrinted_of_assigned (hpaths : ∀ pn ∈ below root, Bash.isIdentifier pn.1.toList)
    (hdistinct : ("_" :: (below root).map Prod.fst).Nodup) {pn : String × YamlNode}
    (hpn : pn ∈ below root) {a : Bash.Assignment} (ha : a ∈ assignments root)
    (hname : a.name = pn.1.toList) : pn.2.isPrinted := by
  have hmem : a.name ∈ (assignments root).map Bash.Assignment.name := List.mem_map_of_mem ha
  rw [names_assignments hpaths, hname] at hmem
  obtain ⟨path, hpath, heq⟩ := List.mem_map.1 hmem
  obtain rfl := String.toList_injective heq
  rw [List.nodup_cons] at hdistinct
  rcases List.mem_cons.1 hpath with hroot | hpath
  · exact absurd (hroot ▸ List.mem_map_of_mem hpn) hdistinct.1
  · obtain ⟨pn', hpn', hsame⟩ := List.mem_map.1 hpath
    obtain ⟨hbelow, hprinted⟩ := List.mem_filter.1 hpn'
    rwa [List.inj_on_of_nodup_map hdistinct.2 hpn hbelow hsame.symm]

theorem nodup_assignments (hpaths : ∀ pn ∈ below root, Bash.isIdentifier pn.1.toList)
    (hdistinct : ("_" :: (below root).map Prod.fst).Nodup) :
    ((assignments root).map Bash.Assignment.name).Nodup := by
  rw [names_assignments hpaths]
  refine List.Nodup.map (fun _ _ h => String.toList_injective h) (hdistinct.sublist ?_)
  exact (List.filter_sublist.map Prod.fst).cons_cons "_"

theorem encodable_of_faithfullyEncoded (h : PlainTree root) :
    FaithfullyEncoded shell root → Encodable shell root := by
  rintro ⟨hdistinct, trace, htrace, hholds⟩
  rw [evaluate_printShellVars h] at htrace
  have hleaves : ∀ pn ∈ below root, ∀ value, pn.2.leaf = some value →
      Bash.isIdentifier pn.1.toList := by
    intro pn hpn value hleaf
    have hvar := Bash.script_names htrace _ (hholds pn hpn value hleaf).1
    exact (Bool.and_eq_true_iff.1 hvar).1
  have hpaths := isIdentifier_below h hleaves
  have hclean := Bash.clean_of_evaluate (fun a ha => ?_) htrace fun a ha => ?_
  · -- all that is printed is read, so a node that is not printed has no variable
    obtain rfl := Option.some.inj ((Bash.evaluate_scriptOf hclean).symm.trans htrace)
    have hprinted : ∀ pn ∈ below root, pn.2.isPrinted := by
      rintro ⟨path, node⟩ hpn
      cases node with
      | scalar s =>
        obtain ⟨text, htext⟩ := Option.isSome_iff_exists.1 (h.scalars _ hpn s rfl)
        have hleaf : YamlNode.leaf (.scalar s) = some (.scalar text.toList) := by
          rw [YamlNode.leaf, htext, Option.map_some]
        exact isPrinted_of_assigned hpaths hdistinct hpn (hholds _ hpn _ hleaf).1 rfl
      | _ => rfl
    refine ⟨hdistinct, fun pn hpn => ?_, hprinted, fun pn hpn value hleaf => ?_⟩
    · obtain ⟨a, ha, hname, -⟩ := exists_assignment hprinted hpaths hpn
      exact hname ▸ (hclean a ha).1
    · obtain ⟨a, ha, -, hvalue⟩ := exists_assignment hprinted hpaths hpn
      exact hvalue value hleaf ▸ (hclean a ha).2
  · rcases (mem_assignments hpaths ha).1 with hname | ⟨pn, hpn, hname⟩
    · rw [hname]
      decide
    · rw [hname]
      exact hpaths pn hpn
  · rcases (mem_assignments hpaths ha).2 with hclean | ⟨pn, hpn, hname, hleaf⟩
    · exact Or.inl hclean
    · refine Or.inr fun b hb heq => (hholds pn hpn _ hleaf).2 b hb (heq.trans hname)

theorem faithfullyEncoded_of_encodable (h : PlainTree root) :
    Encodable shell root → FaithfullyEncoded shell root := by
  rintro ⟨hdistinct, hnames, hprinted, hclean⟩
  have hpaths : ∀ pn ∈ below root, Bash.isIdentifier pn.1.toList := fun pn hpn =>
    (Bool.and_eq_true_iff.1 (hnames pn hpn)).1
  have hall : ∀ a ∈ assignments root, shell.isVariable a.name ∧ a.value.Clean := by
    intro a ha
    obtain ⟨hname, hvalue⟩ := mem_assignments hpaths ha
    constructor
    · rcases hname with hname | ⟨pn, hpn, hname⟩
      · rw [hname, Bash.Shell.isVariable, decide_eq_true shell.underscore]
        decide
      · rw [hname]
        exact hnames pn hpn
    · rcases hvalue with hvalue | ⟨pn, hpn, -, hleaf⟩
      · exact hvalue
      · exact hclean pn hpn _ hleaf
  refine ⟨hdistinct, assignments root, ?_, fun pn hpn value hleaf => ?_⟩
  · rw [evaluate_printShellVars h, Bash.evaluate_scriptOf hall]
  · obtain ⟨⟨name, v⟩, ha, rfl, hvalue⟩ := exists_assignment hprinted hpaths hpn
    obtain rfl := hvalue value hleaf
    refine ⟨ha, fun b hb heq => ?_⟩
    rw [List.inj_on_of_nodup_map (nodup_assignments hpaths hdistinct) hb ha heq]

/-- For trees of strings, booleans and integers with identifiers as keys: the variables hold
what is in the tree iff the paths are different variables, no integer is beyond `int`, and no
text has an apostrophe or a NUL character. -/
theorem faithfullyEncoded_iff (shell : Bash.Shell) (root : List (Scalar × YamlNode))
    (h : PlainTree root) : FaithfullyEncoded shell root ↔ Encodable shell root :=
  ⟨encodable_of_faithfullyEncoded h, faithfullyEncoded_of_encodable h⟩

/-! ## Examples -/

/-- The variables that a shell keeps to itself. -/
def exampleShell : Bash.Shell where
  reserved := ["UID", "EUID", "PPID", "BASHOPTS", "BASH_VERSINFO", "SHELLOPTS"].map String.toList
  underscore := by decide

/-- `motd: v1`. -/
def motdTree (text : String) : List (Scalar × YamlNode) :=
  [(.string "motd", .scalar (.string text))]

/-- `a_b: x` and `a: {b: y}`. -/
def sharedTree : List (Scalar × YamlNode) :=
  [(.string "a_b", .scalar (.string "x")),
    (.string "a", .map [(.string "b", .scalar (.string "y"))])]

theorem below_motdTree (text : String) : below (motdTree text) =
    [("motd", .scalar (.string text))] := by
  have hchildren : children ("", .map (motdTree text)) = [("motd", .scalar (.string text))] := rfl
  rw [below, hchildren, visitOrder, children, List.append_nil, visitOrder]

theorem plainTree_motdTree (text : String) : PlainTree (motdTree text) where
  keys := by
    rw [nodes_eq, below_motdTree, List.forall_mem_cons, List.forall_mem_singleton]
    constructor
    · rintro _ ⟨⟩ e he
      obtain rfl := List.mem_singleton.1 he
      exact ⟨"motd", rfl, by decide⟩
    · rintro _ ⟨⟩
  scalars := by
    rw [below_motdTree, List.forall_mem_singleton]
    rintro _ ⟨⟩
    rfl

theorem faithfullyEncoded_motd : FaithfullyEncoded exampleShell (motdTree "v1") := by
  rw [faithfullyEncoded_iff exampleShell (motdTree "v1") (plainTree_motdTree "v1")]
  refine ⟨?_, ?_, ?_, ?_⟩
  · rw [below_motdTree]
    decide
  · rw [below_motdTree, List.forall_mem_singleton]
    decide
  · rw [below_motdTree, List.forall_mem_singleton]
    rfl
  · rw [below_motdTree, List.forall_mem_singleton]
    rintro _ ⟨⟩
    rw [Bash.Value.Clean, Bash.Value.texts, List.forall_mem_singleton]
    decide

theorem below_sharedTree : below sharedTree = [("a_b", .scalar (.string "x")),
    ("a", .map [(.string "b", .scalar (.string "y"))]), ("a_b", .scalar (.string "y"))] := by
  have hroot : children ("", .map sharedTree) = [("a_b", .scalar (.string "x")),
      ("a", .map [(.string "b", .scalar (.string "y"))])] := rfl
  have ha : children ("a", .map [(.string "b", .scalar (.string "y"))]) =
      [("a_b", .scalar (.string "y"))] := rfl
  rw [below, hroot, visitOrder, children, List.nil_append, visitOrder, ha, List.append_nil,
    visitOrder, children, List.append_nil, visitOrder]

theorem plainTree_sharedTree : PlainTree sharedTree where
  keys := by
    rw [nodes_eq, below_sharedTree]
    intro pn hpn m hm e he
    simp only [List.mem_cons, List.not_mem_nil, or_false] at hpn
    rcases hpn with rfl | rfl | rfl | rfl
    · obtain rfl := YamlNode.map.inj hm
      simp only [sharedTree, List.mem_cons, List.not_mem_nil, or_false] at he
      rcases he with rfl | rfl
      · exact ⟨"a_b", rfl, by decide⟩
      · exact ⟨"a", rfl, by decide⟩
    · simp at hm
    · obtain rfl := YamlNode.map.inj hm
      obtain rfl := List.mem_singleton.1 he
      exact ⟨"b", rfl, by decide⟩
    · simp at hm
  scalars := by
    rw [below_sharedTree]
    intro pn hpn s hs
    simp only [List.mem_cons, List.not_mem_nil, or_false] at hpn
    rcases hpn with rfl | rfl | rfl <;> cases hs <;> rfl

/-- A value with an apostrophe is not held, and two nodes have one variable. -/
theorem faithfullyEncoded_fails :
    (PlainTree (motdTree "it's up") ∧ ¬ FaithfullyEncoded exampleShell (motdTree "it's up")) ∧
      PlainTree sharedTree ∧ ¬ FaithfullyEncoded exampleShell sharedTree := by
  refine ⟨⟨plainTree_motdTree _, fun h => ?_⟩, plainTree_sharedTree, fun h => ?_⟩
  · have hclean := (encodable_of_faithfullyEncoded (plainTree_motdTree _) h).clean
    rw [below_motdTree, List.forall_mem_singleton] at hclean
    exact absurd (hclean _ rfl _ (List.mem_singleton_self _)).1 (by decide)
  · have hdistinct := h.distinct
    rw [below_sharedTree] at hdistinct
    exact absurd hdistinct (by decide)

end GardenFeat
