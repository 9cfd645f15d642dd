import Mathlib.Data.List.DropRight
import GardenLinux.Lib.FileTree
import GardenLinux.Lib.Text
import GardenLinux.Lib.TextFilter

/-!
# `os.path`

Paths in writing: how they are put together, split and made relative.

What is proved here:

* `relpath_join` — a path below a directory, seen from there;
* `osJoin_injective` — the relative part is read back from a path that was put together;
* `isProper_resolve` — where a path leads has only proper names.
-/

namespace FileTree

/-- The names with a slash between them. -/
def relative (p : Path) : List Char := ['/'].intercalate p

/-- `os.path.join(a, b)`. -/
def osJoin (a b : List Char) : List Char :=
  if b.head? = some '/' then b
  else if a = [] ∨ a.getLast? = some '/' then a ++ b
  else a ++ '/' :: b

/-- `os.path.split(path)`: the slashes at the end of the head go, unless it has only slashes. -/
def osSplit (path : List Char) : List Char × List Char :=
  let head := path.rdropWhile (· ≠ '/')
  let tail := path.rtakeWhile (· ≠ '/')
  (if head.all (· = '/') then head else Text.rstrip '/' head, tail)

/-- The step along one name; `enter` is where the name leads from a directory. -/
def step (enter : Path → List Char → Path) (d : Path) (c : List Char) : Path :=
  if isDot c then d else if isDotDot c then d.dropLast else enter d c

/-- A name as it is written. -/
def lexical (d : Path) (c : List Char) : Path := d ++ [c]

/-- `os.path.abspath` of an absolute path. -/
def abspath (text : List Char) : Path := (components text).foldl (step lexical) []

/-- Where the system gets along an absolute path. -/
def resolve (enter : Path → List Char → Path) (text : List Char) : Path :=
  (components text).foldl (step enter) []

/-- The directories on the way there. -/
def visited (enter : Path → List Char → Path) (text : List Char) : List Path :=
  (components text).scanl (step enter) []

def dotDot : List Char := ['.', '.']

/-- The names that two paths begin with. -/
def commonPrefix : Path → Path → Path
  | c :: p, c' :: q => if c = c' then c :: commonPrefix p q else []
  | _, _ => []

/-- `os.path.relpath(path, start)`. -/
def relpath (path start : List Char) : List Char :=
  let startList := abspath start
  let pathList := abspath path
  let i := (commonPrefix startList pathList).length
  let relList := List.replicate (startList.length - i) dotDot ++ pathList.drop i
  if relList = [] then ['.'] else relative relList

/-! ## Names -/

theorem step_of_isProper {c : List Char} (h : isProper c = true)
    (enter : Path → List Char → Path) (d : Path) : step enter d c = enter d c := by
  obtain ⟨-, -, hdot, hdotDot⟩ := isProper_spec h
  simp [step, hdot, hdotDot]

/-- Names that lead where they are written lead along the path. -/
theorem foldl_step_of_isProper {enter : Path → List Char → Path} {p d : Path}
    (hp : ∀ c ∈ p, isProper c = true)
    (henter : ∀ q c, q ++ [c] <+: p → enter (d ++ q) c = d ++ q ++ [c]) :
    p.foldl (step enter) d = d ++ p := by
  induction p generalizing d with
  | nil => rw [List.foldl_nil, List.append_nil]
  | cons c p ih =>
    rw [List.forall_mem_cons] at hp
    have hc : enter d c = d ++ [c] := by
      simpa using henter [] c (by simp)
    rw [List.foldl_cons, step_of_isProper hp.1, hc, ih hp.2, List.append_assoc,
      List.singleton_append]
    intro q c' hq
    simpa using henter (c :: q) c' (by simpa using hq)

theorem foldl_lexical {p : Path} (hp : ∀ c ∈ p, isProper c = true) (d : Path) :
    p.foldl (step lexical) d = d ++ p :=
  foldl_step_of_isProper hp fun _ _ _ => rfl

theorem components_append_slash (a b : List Char) :
    components (a ++ '/' :: b) = components a ++ components b := by
  rw [components, List.splitOn_append_cons_self, List.filter_append]
  rfl

theorem components_osJoin (a b : List Char) :
    components (osJoin a b) =
      if b.head? = some '/' then components b else components a ++ components b := by
  unfold osJoin
  split
  · rfl
  · split
    · next h =>
      obtain rfl | hlast := h
      · rfl
      · obtain ⟨a', rfl⟩ := List.getLast?_eq_some_iff.1 hlast
        rw [List.append_assoc, List.singleton_append, components_append_slash,
          components_append_slash]
        simp [components]
    · exact components_append_slash a b

theorem components_name {c : List Char} (h : isProper c = true) : components c = [c] := by
  obtain ⟨hne, hslash, -⟩ := isProper_spec h
  rw [components, List.splitOn_eq_singleton hslash]
  simp [hne]

theorem mem_components {text c : List Char} (h : c ∈ components text) : c ≠ [] ∧ '/' ∉ c := by
  rw [components, List.mem_filter, List.splitOn_eq_splitOnP] at h
  refine ⟨of_decide_eq_true h.2, ?_⟩
  intro hslash
  simpa using TextFilter.mem_splitOnP h.1 '/' hslash

/-- A path with proper names only. -/
def IsProper (p : Path) : Prop := ∀ c ∈ p, isProper c = true

instance (p : Path) : Decidable (IsProper p) :=
  inferInstanceAs (Decidable (∀ c ∈ p, isProper c = true))

section Enter

variable {enter : Path → List Char → Path}
  (henter : ∀ d c, IsProper d → isProper c = true → IsProper (enter d c))
include henter

theorem isProper_step {d : Path} {c : List Char} (hd : IsProper d) (hne : c ≠ [])
    (hslash : '/' ∉ c) : IsProper (step enter d c) := by
  unfold step
  split
  · exact hd
  · next hdot =>
    split
    · exact fun c' hc' => hd c' (List.mem_of_mem_dropLast hc')
    · next hdotDot => exact henter d c hd (by simp [isProper, hne, hslash, hdot, hdotDot])

theorem isProper_of_mem_scanl {p d e : Path} (hp : ∀ c ∈ p, c ≠ [] ∧ '/' ∉ c) (hd : IsProper d)
    (he : e ∈ p.scanl (step enter) d) : IsProper e := by
  induction p generalizing d with
  | nil =>
    rw [List.scanl_nil, List.mem_singleton] at he
    exact he ▸ hd
  | cons c p ih =>
    rw [List.forall_mem_cons] at hp
    rw [List.scanl_cons, List.mem_cons] at he
    obtain rfl | he := he
    · exact hd
    · exact ih hp.2 (isProper_step henter hd hp.1.1 hp.1.2) he

theorem isProper_visited {text : List Char} {d : Path} (h : d ∈ visited enter text) :
    IsProper d :=
  isProper_of_mem_scanl henter (fun _ => mem_components) (fun c hc => by simp at hc) h

/-- Where a path leads all names are proper. -/
theorem isProper_resolve (text : List Char) : IsProper (resolve enter text) := by
  have hmem : resolve enter text ∈ visited enter text := by
    rw [visited, resolve, ← List.getLast_scanl List.scanl_ne_nil]
    exact List.getLast_mem _
  exact isProper_visited henter hmem

end Enter

/-! ## Putting together and making relative -/

theorem head?_relative {p : Path} (hp : IsProper p) : (relative p).head? ≠ some '/' := by
  by_cases hne : p = []
  · subst hne
    decide
  · obtain ⟨x, y, xs, ys, hx, -, hxslash, -⟩ := inner_join hp hne
    simpa [relative, hx] using hxslash

/-- The relative part is read back. -/
theorem osJoin_injective {a b b' : List Char} (hb : b.head? ≠ some '/') (hb' : b'.head? ≠ some '/')
    (h : osJoin a b = osJoin a b') : b = b' := by
  rw [osJoin, if_neg hb, osJoin, if_neg hb'] at h
  split at h
  · exact List.append_cancel_left h
  · exact List.cons.inj (List.append_cancel_left h) |>.2

theorem relative_injective {p q : Path} (hp : IsProper p) (hq : IsProper q) (hne : p ≠ [])
    (hne' : q ≠ []) (h : relative p = relative q) : p = q := by
  rw [← splitOn_join hp hne, ← splitOn_join hq hne']
  exact congrArg _ h

theorem abspath_join {p : Path} (hp : IsProper p) : abspath (join p) = p := by
  rw [abspath, components_join hp, foldl_lexical hp, List.nil_append]

theorem abspath_osJoin_join {p : Path} {c : List Char} (hp : IsProper p) (hc : isProper c = true) :
    abspath (osJoin (join p) c) = p ++ [c] := by
  have hhead : c.head? ≠ some '/' := by
    intro h
    obtain ⟨xs, rfl⟩ := List.head?_eq_some_iff.1 h
    exact (isProper_spec hc).2.1 List.mem_cons_self
  rw [abspath, components_osJoin, if_neg hhead, components_join hp, components_name hc,
    List.foldl_append, foldl_lexical hp, List.nil_append, List.foldl_cons, List.foldl_nil,
    step_of_isProper hc, lexical]

theorem commonPrefix_append (p q : Path) : commonPrefix p (p ++ q) = p := by
  induction p with
  | nil => rw [commonPrefix]; simp
  | cons c p ih => rw [List.cons_append, commonPrefix, if_pos rfl, ih]

/-- A path below a directory is seen from there as the rest of it. -/
theorem relpath_eq {path : List Char} {p q : Path} (hp : IsProper p) (hne : q ≠ [])
    (hpath : abspath path = p ++ q) : relpath path (join p) = relative q := by
  rw [relpath, abspath_join hp, hpath, commonPrefix_append]
  simp [hne]

/-- The directories of a path, with a slash after each. -/
def front (p : Path) : List Char := if p = [] then [] else relative p ++ ['/']

theorem relative_concat (p : Path) (name : List Char) :
    relative (p ++ [name]) = front p ++ name := by
  induction p with
  | nil => rw [relative, front, if_pos rfl, List.nil_append, List.intercalate_singleton]; rfl
  | cons c p ih =>
    by_cases hp : p = []
    · subst hp
      simp [relative, front, List.intercalate_cons_cons]
    · simp only [relative, front, if_neg hp, if_neg (List.cons_ne_nil c p)] at ih ⊢
      rw [List.cons_append, List.intercalate_cons_of_ne_nil (by simp), ih,
        List.intercalate_cons_of_ne_nil hp]
      simp only [List.append_assoc]

theorem components_relative {p : Path} (hp : IsProper p) : components (relative p) = p := by
  have h := components_join hp
  rw [join, ← List.nil_append ('/' :: _), components_append_slash] at h
  exact h

theorem components_front {p : Path} (hp : IsProper p) : components (front p) = p := by
  unfold front
  split
  · next h => rw [h]; rfl
  · rw [components_append_slash, components_relative hp]
    exact List.append_nil p

theorem head?_front {p : Path} (hp : IsProper p) : (front p).head? ≠ some '/' := by
  unfold front
  split
  · simp
  · next hne =>
    obtain ⟨x, y, xs, ys, hx, -, hxslash, -⟩ := inner_join hp hne
    simpa [relative, hx] using hxslash

/-- A relative path is appended to what was put together before. -/
theorem components_osJoin_osJoin (a b : List Char) {c : List Char} (hc : c.head? ≠ some '/') :
    components (osJoin a (osJoin b c)) = components (osJoin a b) ++ components c := by
  have hb : components (osJoin b c) = components b ++ components c := by
    rw [components_osJoin, if_neg hc]
  have hhead : (osJoin b c).head? = some '/' ↔ b.head? = some '/' := by
    rw [osJoin, if_neg hc]
    cases b with
    | nil => simpa using hc
    | cons x b => split <;> simp
  rw [components_osJoin a, components_osJoin a, hb]
  by_cases habs : b.head? = some '/'
  · rw [if_pos (hhead.2 habs), if_pos habs]
  · rw [if_neg (mt hhead.1 habs), if_neg habs, List.append_assoc]

/-! ## Splitting -/

theorem components_append_slashes {a b : List Char} (hb : ∀ c ∈ b, c = '/') :
    components (a ++ b) = components a := by
  have hnil : components b = [] := by
    induction b with
    | nil => rfl
    | cons c b ih =>
      rw [List.forall_mem_cons] at hb
      rw [hb.1, ← List.nil_append ('/' :: b), components_append_slash, ih hb.2, List.append_nil]
      rfl
  cases b with
  | nil => rw [List.append_nil]
  | cons c b =>
    rw [List.forall_mem_cons] at hb
    rw [hb.1, ← List.nil_append ('/' :: b), components_append_slash] at hnil
    rw [hb.1, components_append_slash, (List.append_eq_nil_iff.1 hnil).2, List.append_nil]

/-- The slashes at the end of a head do not matter, and it is as absolute without them. -/
theorem components_osJoin_head (a head : List Char) :
    components (osJoin a (if head.all (· = '/') then head else Text.rstrip '/' head)) =
      components (osJoin a head) := by
  split
  · rfl
  · next hall =>
    have hcut : Text.rstrip '/' head ++ head.rtakeWhile (· = '/') = head :=
      List.rdropWhile_append_rtakeWhile
    have hslashes : ∀ c ∈ head.rtakeWhile (· = '/'), c = '/' := by
      intro c hc
      simpa using List.mem_rtakeWhile_imp hc
    have hcomponents : components (Text.rstrip '/' head) = components head := by
      rw [← components_append_slashes hslashes, hcut]
    have hhead : (Text.rstrip '/' head).head? = head.head? := by
      have hne : Text.rstrip '/' head ≠ [] := by
        rw [Text.rstrip, ne_eq, List.rdropWhile_eq_nil_iff]
        simpa using hall
      conv_rhs => rw [← hcut]
      exact (List.head?_append_of_ne_nil _ hne).symm
    rw [components_osJoin, components_osJoin, hcomponents, hhead]

/-- A path is split before its last name. -/
theorem osSplit_append {front name : List Char} (hfront : front = [] ∨ front.getLast? = some '/')
    (hname : '/' ∉ name) :
    osSplit (front ++ name) =
      (if front.all (· = '/') then front else Text.rstrip '/' front, name) := by
  have hcut : (front ++ name).rdropWhile (· ≠ '/') = front ∧
      (front ++ name).rtakeWhile (· ≠ '/') = name := by
    induction name using List.reverseRecOn with
    | nil =>
      obtain rfl | hlast := hfront
      · exact ⟨rfl, rfl⟩
      · obtain ⟨front', rfl⟩ := List.getLast?_eq_some_iff.1 hlast
        rw [List.append_nil, List.rdropWhile_concat_neg _ _ _ (by simp),
          List.rtakeWhile_concat_neg _ _ _ (by simp)]
        exact ⟨rfl, rfl⟩
    | append_singleton name c ih =>
      rw [List.mem_append, not_or, List.mem_singleton] at hname
      have hc : c ≠ '/' := Ne.symm hname.2
      rw [← List.append_assoc, List.rdropWhile_concat_pos _ _ _ (by simpa using hc),
        List.rtakeWhile_concat_pos _ _ _ (by simpa using hc), (ih hname.1).1, (ih hname.1).2]
      exact ⟨rfl, rfl⟩
  rw [osSplit, hcut.1, hcut.2]

theorem getLast?_osJoin_front (a : List Char) (p : Path) :
    osJoin a (front p) = [] ∨ (osJoin a (front p)).getLast? = some '/' := by
  have hfront : front p = [] ∨ (front p).getLast? = some '/' := by
    unfold front
    split
    · exact .inl rfl
    · exact .inr (by simp)
  unfold osJoin
  obtain hnil | hlast := hfront
  · rw [hnil, if_neg (by simp)]
    split
    · next h => simpa using h
    · exact .inr (by simp)
  · have hne : front p ≠ [] := by
      rintro h
      simp [h] at hlast
    right
    split
    · exact hlast
    · split
      · rw [List.getLast?_append_of_ne_nil _ hne, hlast]
      · rw [List.getLast?_append_of_ne_nil _ (List.cons_ne_nil _ _),
          List.getLast?_cons_of_ne_nil hne, hlast]

end FileTree
