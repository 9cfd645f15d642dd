import Mathlib.Data.List.Count
import Mathlib.Data.List.Nodup
import GardenLinux.Feat.FeatureSet

/-!
# Printing parameters as shell variables

`printShellVars` of `bin/garden-feat.go`.  The merged parameters are a tree; each of its
nodes is printed as a variable, named after the path to the node, and the variable of a map
or of a list that has more than scalars in it lists the names of the variables below.

What is proved here:

* `printStack_eq` — the stack prints the nodes in the order of their visits and stops at a
  key that is no string;
* `announcedDefined_iff` — exactly when every announced variable is defined once;
* `announcedDefined_fails` — a float is announced and not printed.
-/

namespace GardenFeat

/-! ## Trees -/

/-- The scalars that yaml documents decode to.  An integer beyond `int` is an `uint64`. -/
inductive Scalar
  | bool (b : Bool)
  | int (n : ℤ)
  | string (s : String)
  | uint64 (n : ℕ)
  | float (text : String)
  | null
  deriving DecidableEq, Repr

/-- `interface{}`; the entries of a map are in the order in which it is ranged over. -/
inductive YamlNode
  | scalar (s : Scalar)
  | list (a : List YamlNode)
  | map (m : List (Scalar × YamlNode))

/-- `case bool, int, string`, printed with `%v`. -/
def Scalar.text : Scalar → Option String
  | .bool b => some (if b then "true" else "false")
  | .int n => some (toString n)
  | .string s => some s
  | _ => none

def YamlNode.text : YamlNode → Option String
  | .scalar s => s.text
  | _ => none

mutual

/-- How many nodes there are. -/
def YamlNode.size : YamlNode → ℕ
  | .scalar _ => 1
  | .list a => 1 + sizeList a
  | .map m => 1 + sizeEntries m

def sizeList : List YamlNode → ℕ
  | [] => 0
  | val :: a => val.size + sizeList a

def sizeEntries : List (Scalar × YamlNode) → ℕ
  | [] => 0
  | (_, val) :: m => val.size + sizeEntries m

end

/-- The nodes with their prefixes that are on the stack. -/
def stackSize (stack : List (String × YamlNode)) : ℕ := sizeList (stack.map Prod.snd)

/-! ## `printShellVars` -/

inductive Line
  | scalar (name value : String)
  | values (name : String) (values : List String)
  | header (name : String) (names : List String)
  deriving DecidableEq, Repr

def Line.name : Line → String
  | .scalar name _ => name
  | .values name _ => name
  | .header name _ => name

/-- The header that was being printed when a type assertion failed. -/
structure Broken where
  name : String
  names : List String
  deriving DecidableEq, Repr

structure Output where
  lines : List Line
  broken : Option Broken
  deriving DecidableEq, Repr

def Output.after (lines : List Line) (out : Output) : Output :=
  { out with lines := lines ++ out.lines }

def childPath (path name : String) : String := if path ≠ "" then path ++ "_" ++ name else name

def headerName (path : String) : String := if path = "" then "_" else path

/-- `m["name"]`. -/
def nameEntry (m : List (Scalar × YamlNode)) : Option YamlNode :=
  (m.find? fun e => e.1 = .string "name").map Prod.snd

/-- An element of a list goes by its position, or by its name when it is a map that has
one. -/
def elementName (i : ℕ) : YamlNode → String
  | .map m => ((nameEntry m).bind YamlNode.text).getD (toString i)
  | _ => toString i

def elementNodes (path : String) (a : List YamlNode) : List (String × YamlNode) :=
  a.zipIdx.map fun e => (childPath path (elementName e.2 e.1), e.1)

/-- The loop over a map: `key.(string)` panics for the other keys. -/
def entryNodes (path : String) :
    List (Scalar × YamlNode) → Except (List String) (List (String × YamlNode))
  | [] => .ok []
  | (.string key, val) :: m =>
    match entryNodes path m with
    | .ok prefixNodes => .ok ((childPath path key, val) :: prefixNodes)
    | .error names => .error (childPath path key :: names)
  | _ :: _ => .error []

structure Visited where
  lines : List Line
  pushed : List (String × YamlNode)

/-- What happens to a node that is popped off the stack. -/
def visit (pn : String × YamlNode) : Except Broken Visited :=
  match pn.2 with
  | .scalar s => .ok ⟨(s.text.map (Line.scalar pn.1)).toList, []⟩
  | .list a =>
    match a.mapM YamlNode.text with
    | some values => .ok ⟨[.values pn.1 values], []⟩
    | none =>
      let prefixNodes := elementNodes pn.1 a
      .ok ⟨[.header pn.1 (prefixNodes.map Prod.fst)], prefixNodes⟩
  | .map m =>
    match entryNodes pn.1 m with
    | .error names => .error ⟨headerName pn.1, names⟩
    | .ok prefixNodes =>
      .ok ⟨[.header (headerName pn.1) (prefixNodes.map Prod.fst)], prefixNodes⟩

theorem sizeList_append (a b : List YamlNode) : sizeList (a ++ b) = sizeList a + sizeList b := by
  induction a with
  | nil => simp [sizeList]
  | cons val a ih => rw [List.cons_append, sizeList, ih, sizeList, Nat.add_assoc]

theorem elementNodes_snd (path : String) (a : List YamlNode) :
    (elementNodes path a).map Prod.snd = a := by
  simp [elementNodes, Function.comp_def, List.zipIdx_map_fst]

theorem size_entryNodes {path : String} {m : List (Scalar × YamlNode)}
    {prefixNodes : List (String × YamlNode)} (h : entryNodes path m = .ok prefixNodes) :
    stackSize prefixNodes = sizeEntries m := by
  induction m generalizing prefixNodes with
  | nil =>
    obtain rfl := Except.ok.inj h
    rfl
  | cons e m ih =>
    obtain ⟨key, val⟩ := e
    cases key with
    | string key =>
      rw [entryNodes] at h
      cases hm : entryNodes path m with
      | error names => simp [hm] at h
      | ok nodes =>
        simp only [hm, Except.ok.injEq] at h
        rw [← h, stackSize, List.map_cons, sizeList, sizeEntries, ← ih hm, stackSize]
    | _ => simp [entryNodes] at h

/-- What is pushed is smaller than the node. -/
theorem visit_size {pn : String × YamlNode} {v : Visited} (h : visit pn = .ok v) :
    stackSize v.pushed < pn.2.size := by
  obtain ⟨path, node⟩ := pn
  cases node with
  | scalar s =>
    obtain rfl := Except.ok.inj h
    simp [stackSize, sizeList, YamlNode.size]
  | list a =>
    simp only [visit] at h
    cases ha : a.mapM YamlNode.text with
    | some values =>
      simp only [ha, Except.ok.injEq] at h
      simp [← h, stackSize, sizeList, YamlNode.size]
    | none =>
      simp only [ha, Except.ok.injEq] at h
      rw [← h, stackSize, elementNodes_snd, YamlNode.size]
      omega
  | map m =>
    simp only [visit] at h
    cases hm : entryNodes path m with
    | error names => simp [hm] at h
    | ok nodes =>
      simp only [hm, Except.ok.injEq] at h
      rw [← h, size_entryNodes hm, YamlNode.size]
      omega

/-- The loop over the stack. -/
def printStack (stack : List (String × YamlNode)) : Output :=
  match stack with
  | [] => ⟨[], none⟩
  | pn :: rest =>
    match _h : visit pn with
    | .error broken => ⟨[], some broken⟩
    | .ok v => (printStack (v.pushed ++ rest)).after v.lines
termination_by stackSize stack
decreasing_by
  have hsize := visit_size _h
  simp only [stackSize, List.map_append, List.map_cons, sizeList_append, sizeList] at hsize ⊢
  omega

def printShellVars (root : List (Scalar × YamlNode)) : Output := printStack [("", .map root)]

/-! ## The nodes of a tree -/

/-- The keys of the node are strings. -/
def YamlNode.HasStringKeys : YamlNode → Prop
  | .map m => ∀ e ∈ m, ∃ key, e.1 = .string key
  | _ => True

/-- The nodes that have a variable below that of a node: not those of a list of scalars. -/
def children : String × YamlNode → List (String × YamlNode)
  | (_, .scalar _) => []
  | (path, .list a) => if a.all (·.text.isSome) then [] else elementNodes path a
  | (path, .map m) => m.filterMap fun e =>
    match e.1 with
    | .string key => some (childPath path key, e.2)
    | _ => none

/-- The line that is printed for a node; there is none for a float, a null and an
`uint64`. -/
def lineOf (pn : String × YamlNode) : Option Line :=
  match pn.2 with
  | .scalar s => s.text.map (Line.scalar pn.1)
  | .list a =>
    match a.mapM YamlNode.text with
    | some values => some (.values pn.1 values)
    | none => some (.header pn.1 ((children pn).map Prod.fst))
  | .map _ => some (.header (headerName pn.1) ((children pn).map Prod.fst))

theorem mapM_text_isSome (a : List YamlNode) :
    (a.mapM YamlNode.text).isSome = a.all (·.text.isSome) := by
  induction a with
  | nil => rfl
  | cons val a ih =>
    rw [List.mapM_cons, List.all_cons, ← ih]
    cases val.text with
    | none => rfl
    | some value => cases a.mapM YamlNode.text <;> rfl

theorem children_list_of_some {path : String} {a : List YamlNode} {values : List String}
    (h : a.mapM YamlNode.text = some values) : children (path, .list a) = [] := by
  rw [children, ← mapM_text_isSome, h]
  rfl

theorem children_list_of_none {path : String} {a : List YamlNode}
    (h : a.mapM YamlNode.text = none) : children (path, .list a) = elementNodes path a := by
  rw [children, ← mapM_text_isSome, h]
  rfl

theorem entryNodes_ok_iff {path : String} {m : List (Scalar × YamlNode)}
    {prefixNodes : List (String × YamlNode)} :
    entryNodes path m = .ok prefixNodes ↔
      (YamlNode.map m).HasStringKeys ∧ children (path, .map m) = prefixNodes := by
  induction m generalizing prefixNodes with
  | nil => simp [entryNodes, YamlNode.HasStringKeys, children]
  | cons e m ih =>
    obtain ⟨key, val⟩ := e
    cases key with
    | string key =>
      have hchildren : children (path, .map ((.string key, val) :: m)) =
          (childPath path key, val) :: children (path, .map m) := rfl
      have hkeys : (YamlNode.map ((.string key, val) :: m)).HasStringKeys ↔
          (YamlNode.map m).HasStringKeys := by simp [YamlNode.HasStringKeys]
      rw [entryNodes, hchildren, hkeys]
      cases hm : entryNodes path m with
      | error names =>
        have hnot : ¬ (YamlNode.map m).HasStringKeys := fun hk => by
          simpa [hm] using ih.2 ⟨hk, rfl⟩
        simp [hnot]
      | ok nodes =>
        obtain ⟨hk, heq⟩ := ih.1 hm
        simp [hk, heq]
    | _ => simp [entryNodes, YamlNode.HasStringKeys]

/-- What a visit does: the line of the node is printed and its children are pushed. -/
theorem visit_ok_iff {pn : String × YamlNode} {v : Visited} :
    visit pn = .ok v ↔ pn.2.HasStringKeys ∧ v = ⟨(lineOf pn).toList, children pn⟩ := by
  obtain ⟨path, node⟩ := pn
  cases node with
  | scalar s => simp [visit, YamlNode.HasStringKeys, lineOf, children, eq_comm]
  | list a =>
    simp only [visit, lineOf, YamlNode.HasStringKeys, true_and]
    cases ha : a.mapM YamlNode.text with
    | some values => simp [children_list_of_some ha, eq_comm]
    | none => simp [children_list_of_none ha, eq_comm]
  | map m =>
    simp only [visit, lineOf]
    cases hm : entryNodes path m with
    | error names =>
      have hnot : ¬ (YamlNode.map m).HasStringKeys := fun hk => by
        have hok := hm.symm.trans (entryNodes_ok_iff.2 ⟨hk, rfl⟩)
        simp at hok
      simp [hnot]
    | ok nodes =>
      obtain ⟨hk, rfl⟩ := entryNodes_ok_iff.1 hm
      simp [hk, eq_comm]

theorem size_children (pn : String × YamlNode) : stackSize (children pn) < pn.2.size := by
  obtain ⟨path, node⟩ := pn
  cases node with
  | scalar s => simp [children, stackSize, sizeList, YamlNode.size]
  | list a =>
    rw [children, YamlNode.size]
    split
    · simp [stackSize, sizeList]
    · rw [stackSize, elementNodes_snd]
      omega
  | map m =>
    rw [YamlNode.size]
    suffices h : stackSize (children (path, .map m)) ≤ sizeEntries m by omega
    induction m with
    | nil => simp [children, stackSize, sizeList]
    | cons e m ih =>
      obtain ⟨key, val⟩ := e
      simp only [children, stackSize] at ih
      cases key <;> simp [children, stackSize, sizeList, sizeEntries] <;> omega

/-- The nodes on the stack and those below, in the order in which they are visited. -/
def visitOrder (stack : List (String × YamlNode)) : List (String × YamlNode) :=
  match stack with
  | [] => []
  | pn :: rest => pn :: visitOrder (children pn ++ rest)
termination_by stackSize stack
decreasing_by
  have hsize := size_children pn
  simp only [stackSize, List.map_append, List.map_cons, sizeList_append, sizeList] at hsize ⊢
  omega

theorem printStack_cons {pn : String × YamlNode} {rest : List (String × YamlNode)} {v : Visited}
    (h : visit pn = .ok v) :
    printStack (pn :: rest) = (printStack (v.pushed ++ rest)).after v.lines := by
  rw [printStack]
  split
  · next hv => simp [h] at hv
  · next hv =>
    rw [h] at hv
    rw [Except.ok.inj hv]

/-- The lines are those of the nodes in the order of their visits, when all keys are
strings. -/
theorem printStack_eq {stack : List (String × YamlNode)}
    (h : ∀ pn ∈ visitOrder stack, pn.2.HasStringKeys) :
    printStack stack = ⟨(visitOrder stack).filterMap lineOf, none⟩ := by
  induction stack using visitOrder.induct with
  | case1 => rw [printStack, visitOrder]; rfl
  | case2 pn rest ih =>
    rw [visitOrder] at h
    have hvisit := visit_ok_iff.2 ⟨h pn (List.mem_cons_self ..), rfl⟩
    have hrest := ih fun pn' hpn' => h pn' (List.mem_cons_of_mem _ hpn')
    rw [printStack_cons hvisit, hrest, visitOrder, List.filterMap_cons]
    cases lineOf pn <;> rfl

theorem hasStringKeys_of_printStack {stack : List (String × YamlNode)}
    (h : (printStack stack).broken = none) : ∀ pn ∈ visitOrder stack, pn.2.HasStringKeys := by
  induction stack using visitOrder.induct with
  | case1 => simp [visitOrder]
  | case2 pn rest ih =>
    rw [visitOrder, List.forall_mem_cons]
    rw [printStack] at h
    split at h
    · simp at h
    · next v hv =>
      obtain ⟨hkeys, rfl⟩ := visit_ok_iff.1 hv
      exact ⟨hkeys, ih h⟩

theorem mem_visitOrder_of_mem {stack : List (String × YamlNode)} {pn : String × YamlNode}
    (h : pn ∈ stack) : pn ∈ visitOrder stack := by
  induction stack using visitOrder.induct with
  | case1 => simp at h
  | case2 pn' rest ih =>
    rw [visitOrder]
    rcases List.mem_cons.1 h with rfl | h
    · exact List.mem_cons_self ..
    · exact List.mem_cons_of_mem _ (ih (List.mem_append_right _ h))

/-- Every node is on the stack or the child of a node. -/
theorem mem_visitOrder {stack : List (String × YamlNode)} {pn : String × YamlNode}
    (h : pn ∈ visitOrder stack) :
    pn ∈ stack ∨ ∃ parent ∈ visitOrder stack, pn ∈ children parent := by
  induction stack using visitOrder.induct with
  | case1 => simp [visitOrder] at h
  | case2 pn' rest ih =>
    rw [visitOrder] at h ⊢
    rcases List.mem_cons.1 h with rfl | h
    · exact Or.inl (List.mem_cons_self ..)
    · rcases ih h with hstack | ⟨parent, hparent, hchild⟩
      · rcases List.mem_append.1 hstack with hchild | hrest
        · exact Or.inr ⟨pn', List.mem_cons_self .., hchild⟩
        · exact Or.inl (List.mem_cons_of_mem _ hrest)
      · exact Or.inr ⟨parent, List.mem_cons_of_mem _ hparent, hchild⟩

/-- Children come later than their parent. -/
theorem children_later {stack before after : List (String × YamlNode)} {pn : String × YamlNode}
    (h : visitOrder stack = before ++ pn :: after) : ∀ child ∈ children pn, child ∈ after := by
  induction stack using visitOrder.induct generalizing before with
  | case1 => simp [visitOrder] at h
  | case2 pn' rest ih =>
    rw [visitOrder] at h
    intro child hchild
    cases before with
    | nil =>
      obtain ⟨rfl, rfl⟩ := List.cons.inj h
      exact mem_visitOrder_of_mem (List.mem_append_left _ hchild)
    | cons pn'' before => exact ih (List.cons.inj h).2 child hchild

/-! ## What is announced -/

/-- A shell takes the line for an assignment to the name: a name is not empty, and `isName`
says what else may stand before the equals sign. -/
def Line.Assigns (isName : String → Bool) (name : String) (line : Line) : Prop :=
  line.name = name ∧ name ≠ "" ∧ isName name

/-- Nothing panics, and every name in a header is assigned to in a later line and in no
other line. -/
structure AnnouncedDefined (isName : String → Bool) (out : Output) : Prop where
  returns : out.broken = none
  defined : ∀ before header names after, out.lines = before ++ .header header names :: after →
    ∀ name ∈ names, (∃ line ∈ after, line.Assigns isName name) ∧
      (out.lines.map Line.name).count name = 1

/-- A boolean, an `int`, a string, a list or a map. -/
def YamlNode.isPrinted : YamlNode → Bool
  | .scalar s => s.text.isSome
  | _ => true

def nodes (root : List (Scalar × YamlNode)) : List (String × YamlNode) :=
  visitOrder [("", .map root)]

/-- The nodes below the root. -/
def below (root : List (Scalar × YamlNode)) : List (String × YamlNode) :=
  visitOrder (children ("", .map root))

/-- All keys are strings, the paths of nodes are names, no two printed nodes share one, and
a value that is not printed shares its path with one that is printed later than its map or
list. -/
structure Announceable (isName : String → Bool) (root : List (Scalar × YamlNode)) : Prop where
  keys : ∀ pn ∈ nodes root, pn.2.HasStringKeys
  named : ∀ pn ∈ below root, pn.1 ≠ "" ∧ isName pn.1
  distinct : ("_" :: ((below root).filter (·.2.isPrinted)).map Prod.fst).Nodup
  backed : ∀ before pn after, nodes root = before ++ pn :: after → ∀ child ∈ children pn,
    child.2.isPrinted = false → ∃ other ∈ after, other.2.isPrinted ∧ other.1 = child.1

theorem nodes_eq (root : List (Scalar × YamlNode)) :
    nodes root = ("", .map root) :: below root := by
  rw [nodes, visitOrder, List.append_nil, below]

/-- The nodes below the root are the children of nodes. -/
theorem mem_below_iff {root : List (Scalar × YamlNode)} {pn : String × YamlNode} :
    pn ∈ below root ↔ ∃ parent ∈ nodes root, pn ∈ children parent := by
  constructor
  · intro h
    rw [nodes_eq]
    rcases mem_visitOrder h with hroot | ⟨parent, hparent, hchild⟩
    · exact ⟨_, List.mem_cons_self .., hroot⟩
    · exact ⟨parent, List.mem_cons_of_mem _ hparent, hchild⟩
  · rintro ⟨parent, hparent, hchild⟩
    obtain ⟨before, after, hsplit⟩ := List.append_of_mem hparent
    have hafter := children_later hsplit pn hchild
    have hnodes := (nodes_eq root).symm.trans hsplit
    cases before with
    | nil => exact (List.cons.inj hnodes).2 ▸ hafter
    | cons pn' before =>
      rw [(List.cons.inj hnodes).2]
      exact List.mem_append_right _ (List.mem_cons_of_mem _ hafter)

theorem lineOf_isSome (pn : String × YamlNode) : (lineOf pn).isSome = pn.2.isPrinted := by
  obtain ⟨path, node⟩ := pn
  cases node with
  | scalar s => simp [lineOf, YamlNode.isPrinted]
  | list a =>
    simp only [lineOf, YamlNode.isPrinted]
    cases a.mapM YamlNode.text <;> rfl
  | map m => rfl

/-- A header lists the children. -/
theorem lineOf_header {pn : String × YamlNode} {header : String} {names : List String}
    (h : lineOf pn = some (.header header names)) : names = (children pn).map Prod.fst := by
  obtain ⟨path, node⟩ := pn
  cases node with
  | scalar s => simp [lineOf] at h
  | list a =>
    simp only [lineOf] at h
    cases ha : a.mapM YamlNode.text with
    | some values => simp [ha] at h
    | none =>
      simp only [ha, Option.some.injEq, Line.header.injEq] at h
      exact h.2.symm
  | map m =>
    simp only [lineOf, Option.some.injEq, Line.header.injEq] at h
    exact h.2.symm

/-- A node that has children has a header. -/
theorem lineOf_of_child {pn child : String × YamlNode} (h : child ∈ children pn) :
    ∃ header, lineOf pn = some (.header header ((children pn).map Prod.fst)) := by
  obtain ⟨path, node⟩ := pn
  cases node with
  | scalar s => simp [children] at h
  | list a =>
    simp only [lineOf]
    cases ha : a.mapM YamlNode.text with
    | some values => simp [children_list_of_some ha] at h
    | none => exact ⟨path, rfl⟩
  | map m => exact ⟨_, rfl⟩

theorem lineOf_name {pn : String × YamlNode} (hpath : pn.1 ≠ "") {line : Line}
    (h : lineOf pn = some line) : line.name = pn.1 := by
  obtain ⟨path, node⟩ := pn
  cases node with
  | scalar s =>
    obtain ⟨value, -, rfl⟩ := Option.map_eq_some_iff.1 h
    rfl
  | list a =>
    simp only [lineOf] at h
    cases ha : a.mapM YamlNode.text with
    | some values =>
      obtain rfl := Option.some.inj (ha ▸ h)
      rfl
    | none =>
      obtain rfl := Option.some.inj (ha ▸ h)
      rfl
  | map m =>
    obtain rfl := Option.some.inj h
    exact if_neg hpath

/-- The names of the lines. -/
theorem names_lines {root : List (Scalar × YamlNode)} (h : ∀ pn ∈ below root, pn.1 ≠ "") :
    ((nodes root).filterMap lineOf).map Line.name =
      "_" :: ((below root).filter (·.2.isPrinted)).map Prod.fst := by
  have htail : ∀ pns : List (String × YamlNode), (∀ pn ∈ pns, pn.1 ≠ "") →
      (pns.filterMap lineOf).map Line.name = (pns.filter (·.2.isPrinted)).map Prod.fst := by
    intro pns hpns
    induction pns with
    | nil => rfl
    | cons pn pns ih =>
      rw [List.forall_mem_cons] at hpns
      have hsome := lineOf_isSome pn
      cases hline : lineOf pn with
      | none =>
        rw [hline] at hsome
        rw [List.filterMap_cons_none hline, ih hpns.2, List.filter_cons_of_neg (by simp [← hsome])]
      | some line =>
        rw [hline] at hsome
        rw [List.filterMap_cons_some hline, List.map_cons, ih hpns.2, lineOf_name hpns.1 hline,
          List.filter_cons_of_pos (by simp [← hsome]), List.map_cons]
  have hroot : lineOf ("", .map root) =
      some (.header "_" ((children ("", .map root)).map Prod.fst)) := rfl
  rw [nodes_eq, List.filterMap_cons_some hroot, List.map_cons, htail _ h]
  rfl

section Announced

variable {isName : String → Bool} {root : List (Scalar × YamlNode)}

/-- What is announced for a node is defined after it and once. -/
theorem AnnouncedDefined.child (h : AnnouncedDefined isName (printShellVars root))
    {before after : List (String × YamlNode)} {pn child : String × YamlNode}
    (hsplit : nodes root = before ++ pn :: after) (hchild : child ∈ children pn) :
    (∃ line ∈ after.filterMap lineOf, line.Assigns isName child.1) ∧
      (((nodes root).filterMap lineOf).map Line.name).count child.1 = 1 := by
  have hdefined := h.defined
  rw [printShellVars, printStack_eq (hasStringKeys_of_printStack h.returns)] at hdefined
  obtain ⟨header, hheader⟩ := lineOf_of_child hchild
  refine hdefined (before.filterMap lineOf) header _ (after.filterMap lineOf) ?_ child.1
    (List.mem_map_of_mem hchild)
  rw [← nodes, hsplit, List.filterMap_append, List.filterMap_cons_some hheader]

/-- Every node below the root is announced for its parent. -/
theorem AnnouncedDefined.ofBelow (h : AnnouncedDefined isName (printShellVars root))
    {pn : String × YamlNode} (hpn : pn ∈ below root) :
    (∃ line : Line, line.Assigns isName pn.1) ∧
      (((nodes root).filterMap lineOf).map Line.name).count pn.1 = 1 := by
  obtain ⟨parent, hparent, hmem⟩ := mem_below_iff.1 hpn
  obtain ⟨before, after, hsplit⟩ := List.append_of_mem hparent
  obtain ⟨⟨line, -, hassigns⟩, hcount⟩ := h.child hsplit hmem
  exact ⟨⟨line, hassigns⟩, hcount⟩

theorem AnnouncedDefined.named (h : AnnouncedDefined isName (printShellVars root)) :
    ∀ pn ∈ below root, pn.1 ≠ "" ∧ isName pn.1 := by
  intro pn hpn
  obtain ⟨⟨line, hassigns⟩, -⟩ := h.ofBelow hpn
  exact hassigns.2

theorem AnnouncedDefined.distinct (h : AnnouncedDefined isName (printShellVars root)) :
    ("_" :: ((below root).filter (·.2.isPrinted)).map Prod.fst).Nodup := by
  have hnames := names_lines fun pn hpn => (h.named pn hpn).1
  have hcount : ∀ name ∈ ((below root).filter (·.2.isPrinted)).map Prod.fst,
      ("_" :: ((below root).filter (·.2.isPrinted)).map Prod.fst).count name = 1 := by
    intro name hname
    obtain ⟨pn, hpn, rfl⟩ := List.mem_map.1 hname
    rw [← hnames]
    exact (h.ofBelow (List.mem_filter.1 hpn).1).2
  rw [List.nodup_cons, List.nodup_iff_count_le_one]
  constructor
  · intro hroot
    have hone := hcount "_" hroot
    rw [List.count_cons_self] at hone
    exact absurd (List.count_pos_iff.2 hroot) (by omega)
  · intro name
    by_cases hname : name ∈ ((below root).filter (·.2.isPrinted)).map Prod.fst
    · exact (List.count_le_count_cons).trans (hcount name hname).le
    · rw [List.count_eq_zero_of_not_mem hname]
      exact Nat.zero_le 1

theorem AnnouncedDefined.announceable (h : AnnouncedDefined isName (printShellVars root)) :
    Announceable isName root := by
  refine ⟨hasStringKeys_of_printStack h.returns, h.named, h.distinct, ?_⟩
  intro before pn after hsplit child hmem _
  obtain ⟨⟨line, hline, hname, -⟩, -⟩ := h.child hsplit hmem
  obtain ⟨other, hother, hlineOf⟩ := List.mem_filterMap.1 hline
  refine ⟨other, hother, by rw [← lineOf_isSome, hlineOf]; rfl, ?_⟩
  have hbelow : other ∈ below root := by
    rw [nodes_eq] at hsplit
    cases before with
    | nil => exact (List.cons.inj hsplit).2 ▸ hother
    | cons pn' before =>
      rw [(List.cons.inj hsplit).2]
      exact List.mem_append_right _ (List.mem_cons_of_mem _ hother)
  rw [← lineOf_name (h.named other hbelow).1 hlineOf, hname]

theorem Announceable.announcedDefined (h : Announceable isName root) :
    AnnouncedDefined isName (printShellVars root) := by
  have hprint : printShellVars root = ⟨(nodes root).filterMap lineOf, none⟩ :=
    printStack_eq h.keys
  have hnames := names_lines fun pn hpn => (h.named pn hpn).1
  refine ⟨by rw [hprint], ?_⟩
  rw [hprint]
  intro before header names after hlines name hname
  obtain ⟨before', rest', hnodes, rfl, hrest⟩ := List.filterMap_eq_append_iff.1 hlines
  obtain ⟨skipped, pn, after', rfl, hskipped, hheader, rfl⟩ :=
    List.filterMap_eq_cons_iff.1 hrest
  rw [lineOf_header hheader] at hname
  obtain ⟨child, hchild, rfl⟩ := List.mem_map.1 hname
  have hsplit : nodes root = (before' ++ skipped) ++ pn :: after' := by
    rw [hnodes, List.append_assoc]
  have hmem : pn ∈ nodes root := by simp [hsplit]
  have hbelow : child ∈ below root := mem_below_iff.2 ⟨pn, hmem, hchild⟩
  -- the line is that of the child itself or of the one that it shares its path with
  obtain ⟨other, hother, hprinted, hpath⟩ : ∃ other ∈ after', other.2.isPrinted ∧
      other.1 = child.1 := by
    cases hp : child.2.isPrinted with
    | true => exact ⟨child, children_later hsplit child hchild, hp, rfl⟩
    | false => exact h.backed _ pn after' hsplit child hchild hp
  obtain ⟨line, hline⟩ := Option.isSome_iff_exists.1 ((lineOf_isSome other).trans hprinted)
  have hname : line.name = child.1 :=
    (lineOf_name (hpath ▸ (h.named child hbelow).1) hline).trans hpath
  have hlater : line ∈ after'.filterMap lineOf := List.mem_filterMap.2 ⟨other, hother, hline⟩
  refine ⟨⟨line, hlater, hname, h.named child hbelow⟩, ?_⟩
  have hnodup : (((nodes root).filterMap lineOf).map Line.name).Nodup := hnames ▸ h.distinct
  refine List.count_eq_one_of_mem hnodup (List.mem_map.2 ⟨line, ?_, hname⟩)
  rw [hsplit, List.filterMap_append, List.filterMap_cons_some hheader]
  exact List.mem_append_right _ (List.mem_cons_of_mem _ hlater)

end Announced

/-- Every announced variable is defined once iff the tree is announceable. -/
theorem announcedDefined_iff (isName : String → Bool) (root : List (Scalar × YamlNode)) :
    AnnouncedDefined isName (printShellVars root) ↔ Announceable isName root :=
  ⟨AnnouncedDefined.announceable, Announceable.announcedDefined⟩

/-! ## A float and a key that is no string -/

/-- `disksize: 1.5`. -/
def floatTree : List (Scalar × YamlNode) := [(.string "disksize", .scalar (.float "1.5"))]

/-- `4: root`. -/
def numberedTree : List (Scalar × YamlNode) := [(.int 4, .scalar (.string "root"))]

/-- The float is announced and never defined; the integer key panics. -/
theorem announcedDefined_fails :
    ¬ AnnouncedDefined (fun _ => true) (printShellVars floatTree) ∧
      ¬ AnnouncedDefined (fun _ => true) (printShellVars numberedTree) := by
  constructor
  · intro hdefined
    have h := hdefined.announceable
    have hchildren : children ("", .map floatTree) = [("disksize", .scalar (.float "1.5"))] := rfl
    have hbelow : below floatTree = [("disksize", .scalar (.float "1.5"))] := by
      rw [below, hchildren, visitOrder, children, List.append_nil, visitOrder]
    obtain ⟨other, hother, hprinted, -⟩ := h.backed [] _ _ (nodes_eq floatTree) _
      (hchildren ▸ List.mem_singleton_self _) rfl
    rw [hbelow] at hother
    obtain rfl := List.mem_singleton.1 hother
    simp [YamlNode.isPrinted, Scalar.text] at hprinted
  · intro hdefined
    have h := hdefined.announceable
    have hroot : ("", .map numberedTree) ∈ nodes numberedTree :=
      nodes_eq numberedTree ▸ List.mem_cons_self ..
    obtain ⟨key, hkey⟩ := h.keys _ hroot _ (List.mem_cons_self ..)
    simp at hkey

end GardenFeat
