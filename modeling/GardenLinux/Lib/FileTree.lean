import Mathlib.Data.List.Basic
import Mathlib.Data.List.Infix

/-!
# Trees of files

Directories, files and symbolic links of a file system: how a path is followed through the links,
and what copying, removing and writing do.

What is proved here:

* `follow_eq` — a path with no link on its way leads to itself;
* `clear_eq_leaf_iff`, `remove_eq_leaf_iff` and `write_eq_leaf_iff` — which files are still there.
-/

namespace FileTree

/-- The names from the root to a file. -/
abbrev Path := List (List Char)

/-- A directory, or a file; a file with a target is a symbolic link. -/
inductive Node (α : Type)
  | dir
  | leaf (a : α) (target : Option (List Char))

/-- What stands at each path. -/
abbrev Tree (α : Type) := Path → Option (Node α)

variable {α : Type}

/-! ## Paths -/

/-- The names of a path in writing. -/
def components (text : List Char) : Path := (text.splitOn '/').filter (· ≠ [])

/-- The path in writing, from the root on. -/
def join (p : Path) : List Char := '/' :: ['/'].intercalate p

def isDot (name : List Char) : Bool := name = ['.']

def isDotDot (name : List Char) : Bool := name = ['.', '.']

/-- Names that are no steps. -/
def isProper (name : List Char) : Bool := name ≠ [] ∧ '/' ∉ name ∧ !isDot name ∧ !isDotDot name

theorem isProper_spec {name : List Char} (h : isProper name = true) :
    name ≠ [] ∧ '/' ∉ name ∧ isDot name = false ∧ isDotDot name = false := by
  simpa [isProper] using h

theorem splitOn_join {p : Path} (hp : ∀ c ∈ p, isProper c = true) (hne : p ≠ []) :
    (['/'].intercalate p).splitOn '/' = p :=
  List.splitOn_intercalate _ (fun c hc => (isProper_spec (hp c hc)).2.1) hne

/-- A path is read back from its writing. -/
theorem components_join {p : Path} (hp : ∀ c ∈ p, isProper c = true) : components (join p) = p := by
  have hfilter : p.filter (· ≠ []) = p := by
    rw [List.filter_eq_self]
    intro c hc
    exact decide_eq_true (isProper_spec (hp c hc)).1
  by_cases hne : p = []
  · subst hne
    rfl
  · have hsplit : (join p).splitOn '/' = [] :: p := by
      have h := List.splitOn_append_cons_self (a := '/') [] (['/'].intercalate p)
      rw [splitOn_join hp hne] at h
      exact h
    rw [components, hsplit, List.filter_cons, if_neg (by simp), hfilter]

/-- The names in writing begin and end with a character of a name. -/
theorem inner_join {p : Path} (hp : ∀ c ∈ p, isProper c = true) (hne : p ≠ []) :
    ∃ x y xs ys, ['/'].intercalate p = x :: xs ∧ ['/'].intercalate p = ys ++ [y] ∧ x ≠ '/' ∧
      y ≠ '/' := by
  induction p with
  | nil => exact absurd rfl hne
  | cons c cs ih =>
    rw [List.forall_mem_cons] at hp
    obtain ⟨hc, hslash, -⟩ := isProper_spec hp.1
    obtain ⟨x, xs, rfl⟩ := List.exists_cons_of_ne_nil hc
    have hx : x ≠ '/' := by
      rintro rfl
      exact hslash List.mem_cons_self
    by_cases hcs : cs = []
    · subst hcs
      obtain ⟨ys, y, hys⟩ :=
        (List.eq_nil_or_concat' (x :: xs)).resolve_left (List.cons_ne_nil _ _)
      rw [List.intercalate_singleton]
      refine ⟨x, y, xs, ys, rfl, hys, hx, ?_⟩
      rintro rfl
      apply hslash
      rw [hys]
      exact List.mem_append_right _ List.mem_cons_self
    · obtain ⟨-, y, -, ys, -, hys, -, hy⟩ := ih hp.2 hcs
      rw [List.intercalate_cons_of_ne_nil hcs]
      refine ⟨x, y, _, (x :: xs) ++ ['/'] ++ ys, rfl, ?_, hx, hy⟩
      rw [hys]
      simp

/-- The walk along the names of a path from a directory.  The last one need not be there.  At
a link the walk goes on with `next`; a link out of the tree leads nowhere. -/
def walk (t : Tree α) (next : Path → Path → Option Path) : Path → Path → Option Path
  | d, [] => some d
  | d, c :: cs =>
    if isDot c then walk t next d cs
    else if isDotDot c then
      if d = [] then none else walk t next d.dropLast cs
    else
      match t (d ++ [c]) with
      | some .dir => walk t next (d ++ [c]) cs
      | some (.leaf _ (some target)) =>
        if target.head? = some '/' then none else next d (components target ++ cs)
      | _ => if cs = [] then some (d ++ [c]) else none

/-- The walk through a number of links. -/
def walkLinks (t : Tree α) : ℕ → Path → Path → Option Path
  | 0 => walk t fun _ _ => none
  | n + 1 => walk t (walkLinks t n)

/-- Where a path leads; a system follows 40 links. -/
def follow (t : Tree α) (p : Path) : Option Path := walkLinks t 40 [] p

/-- The directory that a path leads to. -/
def directory (t : Tree α) (p : Path) : Option Path :=
  match follow t p with
  | none => none
  | some q =>
    match t q with
    | some .dir => some q
    | _ => none

/-- Where a path leads when its last name is not followed. -/
def place (t : Tree α) (p : Path) : Option Path :=
  match p.getLast? with
  | none => some []
  | some name =>
    if isDot name || isDotDot name then none
    else (directory t p.dropLast).map (· ++ [name])

/-! ## Changes -/

/-- The tree below a path. -/
def copy (t : Tree α) (q : Path) : Tree α := fun p => t (q ++ p)

/-- What is at a path is removed, with all that is below. -/
def remove (t : Tree α) (q : Path) : Tree α := fun p => if q <+: p then none else t p

/-- It is removed, and an empty directory made. -/
def clear (t : Tree α) (q : Path) : Tree α := fun p =>
  if p = q then some .dir else remove t q p

/-- A file is written. -/
def write (t : Tree α) (q : Path) (a : α) : Tree α := fun p =>
  if p = q then some (.leaf a none) else t p

theorem remove_eq_leaf_iff {t : Tree α} {q p : Path} {a : α} {target : Option (List Char)} :
    remove t q p = some (.leaf a target) ↔ t p = some (.leaf a target) ∧ ¬ q <+: p := by
  unfold remove
  split
  · next h => simp [h]
  · next h => simp [h]

theorem clear_eq_leaf_iff {t : Tree α} {q p : Path} {a : α} {target : Option (List Char)} :
    clear t q p = some (.leaf a target) ↔ t p = some (.leaf a target) ∧ ¬ q <+: p := by
  unfold clear
  split
  · next h =>
    subst h
    simp
  · exact remove_eq_leaf_iff

theorem write_eq_leaf_iff {t : Tree α} {q p : Path} {a b : α} {target : Option (List Char)} :
    write t q b p = some (.leaf a target) ↔
      (p = q ∧ b = a ∧ target = none) ∨ (p ≠ q ∧ t p = some (.leaf a target)) := by
  unfold write
  split
  · next h =>
    simp only [h, Option.some.injEq, Node.leaf.injEq]
    simp [eq_comm]
  · next h => simp [h]

/-! ## Paths without links -/

/-- No link stands at the path or on its way. -/
def NoLink (t : Tree α) (p : Path) : Prop :=
  ∀ q, q <+: p → ∀ a target, t q ≠ some (.leaf a (some target))

theorem NoLink.of_prefix {t : Tree α} {p q : Path} (h : NoLink t p) (hq : q <+: p) : NoLink t q :=
  fun r hr => h r (hr.trans hq)

/-- A tree that has only files of another one has no more links. -/
theorem NoLink.mono {t u : Tree α} {p : Path} (h : NoLink t p)
    (hle : ∀ q a target, u q = some (.leaf a (some target)) → t q = some (.leaf a (some target))) :
    NoLink u p := by
  intro q hq a target hu
  exact h q hq a target (hle q a target hu)

theorem walk_eq {t : Tree α} {next : Path → Path → Option Path} {d p q : Path}
    (hlink : NoLink t (d ++ p)) (hproper : ∀ c ∈ p, isProper c) (h : walk t next d p = some q) :
    q = d ++ p := by
  induction p generalizing d with
  | nil =>
    rw [walk, Option.some.injEq] at h
    rw [← h, List.append_nil]
  | cons c cs ih =>
    rw [List.forall_mem_cons] at hproper
    have hc := hproper.1
    simp only [isProper, decide_eq_true_eq, Bool.not_eq_true'] at hc
    rw [walk, if_neg (by simp [hc.2.2.1]), if_neg (by simp [hc.2.2.2])] at h
    have hstep : d ++ c :: cs = (d ++ [c]) ++ cs := by rw [List.append_assoc, List.singleton_append]
    rw [hstep] at hlink ⊢
    split at h
    · exact ih hlink hproper.2 h
    · next a target hnode => exact absurd hnode (hlink _ (List.prefix_append _ _) a target)
    · split at h
      · next hnil =>
        rw [Option.some.injEq] at h
        rw [hnil, List.append_nil, h]
      · cases h

/-- **No links.** A path without links on its way leads to itself. -/
theorem follow_eq {t : Tree α} {p q : Path} (hlink : NoLink t p) (hproper : ∀ c ∈ p, isProper c)
    (h : follow t p = some q) : q = p :=
  walk_eq (d := []) hlink hproper h

theorem directory_eq {t : Tree α} {p q : Path} (hlink : NoLink t p)
    (hproper : ∀ c ∈ p, isProper c) (h : directory t p = some q) : q = p := by
  unfold directory at h
  split at h
  · cases h
  · next r hr =>
    split at h
    · rw [← Option.some.inj h]
      exact follow_eq hlink hproper hr
    · cases h

theorem place_eq {t : Tree α} {p q : Path} (hlink : NoLink t p) (hproper : ∀ c ∈ p, isProper c)
    (h : place t p = some q) : q = p := by
  unfold place at h
  split at h
  · next hlast =>
    rw [List.getLast?_eq_none_iff] at hlast
    rw [hlast, ← Option.some.inj h]
  · next name hlast =>
    obtain ⟨parent, rfl⟩ := List.getLast?_eq_some_iff.1 hlast
    split at h
    · cases h
    · rw [List.dropLast_concat, Option.map_eq_some_iff] at h
      obtain ⟨r, hr, rfl⟩ := h
      have hparent : parent <+: parent ++ [name] := List.prefix_append _ _
      rw [directory_eq (hlink.of_prefix hparent) (fun c hc => hproper c (hparent.subset hc)) hr]

end FileTree
