import GardenLinux.Lib.FileTree

/-!
# Files put into a tree one after another

Each item comes with the directories that are made for it and with the path of its file.  The trees
have no links.

What is proved here:

* `unpackAll_ok_iff` — when all items can be put into a tree;
* `After.of_unpackAll` — what the tree then is, and what was written.
-/

namespace FileTree

variable {α : Type}

/-- A tree, and the paths where a directory was made or a file written. -/
structure Disk (α : Type) where
  tree : Tree α
  written : List Path

inductive Failure
  | notADirectory (p : Path)
  | isADirectory (p : Path)
  | noFile

/-- A directory is made where nothing is. -/
def mkdir (w : Disk α) (p : Path) : Except Failure (Disk α) :=
  match w.tree p with
  | none => .ok ⟨fun q => if q = p then some .dir else w.tree q, w.written ++ [p]⟩
  | some .dir => .ok w
  | some (.leaf _ _) => .error (.notADirectory p)

def makedirs (w : Disk α) (ds : List Path) : Except Failure (Disk α) := ds.foldlM mkdir w

/-- A file is written; it may replace another one. -/
def save (w : Disk α) (p : Path) (a : α) : Except Failure (Disk α) :=
  match w.tree p with
  | some .dir => .error (.isADirectory p)
  | _ => .ok ⟨write w.tree p a, w.written ++ [p]⟩

/-- An item without a target has no name of a file. -/
structure Item (α : Type) where
  dirs : List Path
  target : Option Path
  content : α

def unpack (w : Disk α) (x : Item α) : Except Failure (Disk α) := do
  let w ← makedirs w x.dirs
  match x.target with
  | none => .error .noFile
  | some p => save w p x.content

def unpackAll (w : Disk α) (xs : List (Item α)) : Except Failure (Disk α) := xs.foldlM unpack w

/-! ## One step -/

theorem makedirs_cons (w : Disk α) (d : Path) (ds : List Path) :
    makedirs w (d :: ds) = mkdir w d >>= fun v => makedirs v ds :=
  List.foldlM_cons

/-- What making directories does. -/
structure Made (w : Disk α) (ds : List Path) (v : Disk α) : Prop where
  noLeaf : ∀ d ∈ ds, ∀ a target, w.tree d ≠ some (.leaf a target)
  tree : ∀ q, v.tree q = if q ∈ ds ∧ w.tree q = none then some .dir else w.tree q
  written : ∀ q, q ∈ v.written ↔ q ∈ w.written ∨ (q ∈ ds ∧ w.tree q = none)

theorem Made.of_mkdir {w v : Disk α} {d : Path} (h : mkdir w d = .ok v) : Made w [d] v := by
  unfold mkdir at h
  split at h
  · next hd =>
    obtain rfl := Except.ok.inj h
    refine ⟨by simp [hd], fun q => ?_, fun q => ?_⟩
    all_goals
      by_cases hq : q = d
      · simp [hq, hd]
      · simp [hq]
  · next hd =>
    obtain rfl := Except.ok.inj h
    refine ⟨by simp [hd], fun q => ?_, fun q => ?_⟩
    all_goals
      by_cases hq : q = d
      · simp [hq, hd]
      · simp [hq]
  · cases h

theorem Made.cons {w u v : Disk α} {d : Path} {ds : List Path} (h : Made w [d] u)
    (h' : Made u ds v) : Made w (d :: ds) v where
  noLeaf := by
    rw [List.forall_mem_cons]
    refine ⟨h.noLeaf d List.mem_cons_self, ?_⟩
    intro e he a target heq
    apply h'.noLeaf e he a target
    rw [h.tree, if_neg (by simp [heq]), heq]
  tree := by
    intro q
    rw [h'.tree, h.tree]
    by_cases hnone : w.tree q = none
    · by_cases hq : q = d
      · subst hq
        simp [hnone]
      · simp [hq]
    · simp [hnone]
  written := by
    intro q
    rw [h'.written, h.written, h.tree]
    by_cases hnone : w.tree q = none
    · by_cases hq : q = d
      · subst hq
        simp [hnone]
      · simp [hq]
    · simp [hnone]

theorem Made.of_makedirs {w v : Disk α} {ds : List Path} (h : makedirs w ds = .ok v) :
    Made w ds v := by
  induction ds generalizing w with
  | nil =>
    obtain rfl := Except.ok.inj h
    exact ⟨by simp, by simp, by simp⟩
  | cons d ds ih =>
    rw [makedirs_cons] at h
    cases hd : mkdir w d with
    | error e =>
      rw [hd] at h
      cases h
    | ok u =>
      rw [hd] at h
      exact (Made.of_mkdir hd).cons (ih h)

theorem Made.dir_of_dir {w v : Disk α} {ds : List Path} (h : Made w ds v) {p : Path}
    (hp : w.tree p = some .dir) : v.tree p = some .dir := by
  rw [h.tree, if_neg (by simp [hp]), hp]

theorem Made.dir_of_mem {w v : Disk α} {ds : List Path} (h : Made w ds v) {p : Path}
    (hp : p ∈ ds) : v.tree p = some .dir := by
  cases hnode : w.tree p with
  | none => rw [h.tree, if_pos ⟨hp, hnode⟩]
  | some node =>
    cases node with
    | dir => exact h.dir_of_dir hnode
    | leaf a target => exact absurd hnode (h.noLeaf p hp a target)

theorem exists_makedirs {w : Disk α} {ds : List Path}
    (h : ∀ d ∈ ds, ∀ a target, w.tree d ≠ some (.leaf a target)) : ∃ v, makedirs w ds = .ok v := by
  induction ds generalizing w with
  | nil => exact ⟨w, rfl⟩
  | cons d ds ih =>
    rw [List.forall_mem_cons] at h
    rw [makedirs_cons, mkdir]
    cases hd : w.tree d with
    | none =>
      refine ih ?_
      intro e he a target heq
      by_cases hed : e = d
      · simp [hed] at heq
      · simp only [if_neg hed] at heq
        exact h.2 e he a target heq
    | some node =>
      cases node with
      | dir => exact ih h.2
      | leaf a target => exact absurd hd (h.1 a target)

theorem save_ok_iff {w v : Disk α} {p : Path} {a : α} :
    save w p a = .ok v ↔ w.tree p ≠ some .dir ∧ ⟨write w.tree p a, w.written ++ [p]⟩ = v := by
  unfold save
  split
  · next h => simp [h]
  · next h => simpa using fun _ => h

/-- Putting one item into the tree. -/
theorem unpack_ok_iff {w w' : Disk α} {x : Item α} :
    unpack w x = .ok w' ↔ ∃ v p, makedirs w x.dirs = .ok v ∧ x.target = some p ∧
      v.tree p ≠ some .dir ∧ ⟨write v.tree p x.content, v.written ++ [p]⟩ = w' := by
  unfold unpack
  cases hv : makedirs w x.dirs with
  | error e => simp [bind, Except.bind]
  | ok v =>
    cases hp : x.target with
    | none => simp [bind, Except.bind]
    | some p => simp [bind, Except.bind, save_ok_iff]

/-! ## All items -/

/-- The last item that goes to a path. -/
def lastAt (xs : List (Item α)) (p : Path) : Option (Item α) :=
  (xs.filter fun x => x.target = some p).getLast?

theorem lastAt_concat_self {x : Item α} {p : Path} (h : x.target = some p) (xs : List (Item α)) :
    lastAt (xs ++ [x]) p = some x := by
  simp [lastAt, List.filter_append, h]

theorem lastAt_concat_of_ne {x : Item α} {p : Path} (h : x.target ≠ some p) (xs : List (Item α)) :
    lastAt (xs ++ [x]) p = lastAt xs p := by
  simp [lastAt, List.filter_append, h]

theorem lastAt_eq_none_iff {xs : List (Item α)} {p : Path} :
    lastAt xs p = none ↔ ∀ x ∈ xs, x.target ≠ some p := by
  simp [lastAt]

theorem lastAt_some {xs : List (Item α)} {x : Item α} {p : Path} (h : lastAt xs p = some x) :
    x ∈ xs ∧ x.target = some p := by
  have hmem := List.mem_of_getLast? h
  rw [List.mem_filter, decide_eq_true_eq] at hmem
  exact hmem

/-- No item is in the way of another one, or of what is there. -/
def Clear (t : Tree α) (xs : List (Item α)) : Prop :=
  ∀ x ∈ xs, (∀ d ∈ x.dirs, ∀ a target, t d ≠ some (.leaf a target)) ∧
    ∃ p, x.target = some p ∧ t p ≠ some .dir ∧ ∀ y ∈ xs, p ∉ y.dirs

/-- What the items make of a tree. -/
structure After (t : Tree α) (xs : List (Item α)) (w : Disk α) : Prop where
  leaf : ∀ p x, lastAt xs p = some x → w.tree p = some (.leaf x.content none)
  made : ∀ p, lastAt xs p = none → (∃ x ∈ xs, p ∈ x.dirs) → t p = none → w.tree p = some .dir
  kept : ∀ p, lastAt xs p = none → ((∀ x ∈ xs, p ∉ x.dirs) ∨ t p ≠ none) → w.tree p = t p
  written : ∀ p, p ∈ w.written ↔
    (∃ x ∈ xs, x.target = some p) ∨ ((∃ x ∈ xs, p ∈ x.dirs) ∧ t p = none)

theorem After.nil (t : Tree α) : After t [] ⟨t, []⟩ where
  leaf p x h := by simp [lastAt] at h
  made p _ h := by simp at h
  kept p _ _ := rfl
  written p := by simp

theorem After.cases {t : Tree α} {xs : List (Item α)} {w : Disk α} (h : After t xs w) (p : Path) :
    (∃ x, lastAt xs p = some x ∧ w.tree p = some (.leaf x.content none)) ∨
      (lastAt xs p = none ∧ (∃ x ∈ xs, p ∈ x.dirs) ∧ t p = none ∧ w.tree p = some .dir) ∨
      (lastAt xs p = none ∧ ((∀ x ∈ xs, p ∉ x.dirs) ∨ t p ≠ none) ∧ w.tree p = t p) := by
  cases hlast : lastAt xs p with
  | some x => exact .inl ⟨x, rfl, h.leaf p x hlast⟩
  | none =>
    right
    by_cases hdirs : ∃ x ∈ xs, p ∈ x.dirs
    · by_cases ht : t p = none
      · exact .inl ⟨rfl, hdirs, ht, h.made p hlast hdirs ht⟩
      · exact .inr ⟨rfl, .inr ht, h.kept p hlast (.inr ht)⟩
    · push Not at hdirs
      exact .inr ⟨rfl, .inl hdirs, h.kept p hlast (.inl hdirs)⟩

/-- Where nothing is after the items, nothing was. -/
theorem After.eq_none_iff {t : Tree α} {xs : List (Item α)} {w : Disk α} (h : After t xs w)
    {p : Path} :
    w.tree p = none ↔ lastAt xs p = none ∧ t p = none ∧ ∀ x ∈ xs, p ∉ x.dirs := by
  obtain ⟨x, hlast, hp⟩ | ⟨hlast, hdirs, ht, hp⟩ | ⟨hlast, hor, hp⟩ := h.cases p
  · simp [hlast, hp]
  · simpa [hlast, ht, hp] using hdirs
  · simp only [hlast, hp, true_and]
    exact ⟨fun ht => ⟨ht, hor.resolve_right (not_not_intro ht)⟩, And.left⟩

/-- **One item.** What is at its path must not be a directory, and it has a way to there. -/
theorem After.clear_concat {t : Tree α} {xs : List (Item α)} {w v : Disk α} {x : Item α} {p : Path}
    (h : After t xs w) (hclear : Clear t xs) (hmade : Made w x.dirs v) (htarget : x.target = some p)
    (hdir : v.tree p ≠ some .dir) : Clear t (xs ++ [x]) := by
  have hfree : ∀ d ∈ x.dirs, lastAt xs d = none := by
    intro d hd
    cases hlast : lastAt xs d with
    | none => rfl
    | some y => exact absurd (h.leaf d y hlast) (hmade.noLeaf d hd y.content none)
  have hway : ∀ d ∈ x.dirs, ∀ a target, t d ≠ some (.leaf a target) := by
    intro d hd a target heq
    apply hmade.noLeaf d hd a target
    rw [h.kept d (hfree d hd) (.inr (by simp [heq])), heq]
  have hself : p ∉ x.dirs := fun hp => hdir (hmade.dir_of_mem hp)
  have hfirst : ∀ y ∈ xs, y.target = some p → t p ≠ some .dir ∧ ∀ z ∈ xs, p ∉ z.dirs := by
    intro y hy hyp
    obtain ⟨-, q, hq, hqdir, hqway⟩ := hclear y hy
    obtain rfl : p = q := Option.some.inj (hyp.symm.trans hq)
    exact ⟨hqdir, hqway⟩
  have hnot : t p ≠ some .dir := by
    intro ht
    cases hlast : lastAt xs p with
    | some y => exact (hfirst y (lastAt_some hlast).1 (lastAt_some hlast).2).1 ht
    | none =>
      apply hdir
      apply hmade.dir_of_dir
      rw [h.kept p hlast (.inr (by simp [ht])), ht]
  have hothers : ∀ y ∈ xs, p ∉ y.dirs := by
    intro y hy hp
    have hlast : lastAt xs p = none := by
      rw [lastAt_eq_none_iff]
      intro z hz hzp
      exact (hfirst z hz hzp).2 y hy hp
    apply hdir
    apply hmade.dir_of_dir
    cases hnode : t p with
    | none => exact h.made p hlast ⟨y, hy, hp⟩ hnode
    | some node =>
      cases node with
      | dir => exact absurd hnode hnot
      | leaf a target => exact absurd hnode ((hclear y hy).1 p hp a target)
  intro y hy
  rw [List.mem_append, List.mem_singleton] at hy
  obtain hy | rfl := hy
  · obtain ⟨hleaf, q, hq, hqdir, hqway⟩ := hclear y hy
    refine ⟨hleaf, q, hq, hqdir, ?_⟩
    intro z hz
    rw [List.mem_append, List.mem_singleton] at hz
    obtain hz | rfl := hz
    · exact hqway z hz
    · intro hqz
      exact lastAt_eq_none_iff.1 (hfree q hqz) y hy hq
  · refine ⟨hway, p, htarget, hnot, ?_⟩
    intro z hz
    rw [List.mem_append, List.mem_singleton] at hz
    obtain hz | rfl := hz
    · exact hothers z hz
    · exact hself

theorem After.concat {t : Tree α} {xs : List (Item α)} {w v : Disk α} {x : Item α} {p : Path}
    (h : After t xs w) (hmade : Made w x.dirs v) (htarget : x.target = some p) :
    After t (xs ++ [x]) ⟨write v.tree p x.content, v.written ++ [p]⟩ where
  leaf q y hlast := by
    by_cases hq : q = p
    · subst hq
      rw [lastAt_concat_self htarget, Option.some.injEq] at hlast
      simp [write, hlast]
    · rw [lastAt_concat_of_ne (by simpa [htarget] using Ne.symm hq)] at hlast
      have hleaf := h.leaf q y hlast
      simp [write, hq, hmade.tree, hleaf]
  made q hlast hmem ht := by
    have hq : q ≠ p := by
      rintro rfl
      simp [lastAt_concat_self htarget] at hlast
    rw [lastAt_concat_of_ne (by simpa [htarget] using Ne.symm hq)] at hlast
    simp only [write, if_neg hq]
    obtain ⟨y, hy, hqy⟩ := hmem
    rw [List.mem_append, List.mem_singleton] at hy
    obtain hy | rfl := hy
    · exact hmade.dir_of_dir (h.made q hlast ⟨y, hy, hqy⟩ ht)
    · exact hmade.dir_of_mem hqy
  kept q hlast hor := by
    have hq : q ≠ p := by
      rintro rfl
      simp [lastAt_concat_self htarget] at hlast
    rw [lastAt_concat_of_ne (by simpa [htarget] using Ne.symm hq)] at hlast
    simp only [write, if_neg hq]
    have hnot : ¬(q ∈ x.dirs ∧ w.tree q = none) := by
      rintro ⟨hqx, hnone⟩
      obtain hdirs | ht := hor
      · exact hdirs x (by simp) hqx
      · exact ht (h.eq_none_iff.1 hnone).2.1
    have hor' : (∀ y ∈ xs, q ∉ y.dirs) ∨ t q ≠ none :=
      hor.imp_left fun hdirs y hy => hdirs y (List.mem_append_left _ hy)
    rw [hmade.tree, if_neg hnot, h.kept q hlast hor']
  written q := by
    simp only [List.mem_append, List.mem_singleton, hmade.written, h.written]
    constructor
    · rintro (((⟨y, hy, hyq⟩ | ⟨⟨y, hy, hyq⟩, ht⟩) | ⟨hqx, hnone⟩) | rfl)
      · exact .inl ⟨y, .inl hy, hyq⟩
      · exact .inr ⟨⟨y, .inl hy, hyq⟩, ht⟩
      · exact .inr ⟨⟨x, .inr rfl, hqx⟩, (h.eq_none_iff.1 hnone).2.1⟩
      · exact .inl ⟨x, .inr rfl, htarget⟩
    · rintro (⟨y, hy | rfl, hyq⟩ | ⟨⟨y, hy | rfl, hyq⟩, ht⟩)
      · exact .inl (.inl (.inl ⟨y, hy, hyq⟩))
      · exact .inr (Option.some.inj (hyq.symm.trans htarget))
      · exact .inl (.inl (.inr ⟨⟨y, hy, hyq⟩, ht⟩))
      · by_cases hnone : w.tree q = none
        · exact .inl (.inr ⟨hyq, hnone⟩)
        · -- what the earlier items left there they wrote
          have hwritten := mt h.eq_none_iff.2 hnone
          simp only [ht, true_and, not_and_or, lastAt_eq_none_iff] at hwritten
          push Not at hwritten
          exact .inl (.inl (hwritten.imp id fun hdirs => ⟨hdirs, ht⟩))

theorem unpackAll_concat (w : Disk α) (xs : List (Item α)) (x : Item α) :
    unpackAll w (xs ++ [x]) = unpackAll w xs >>= fun v => unpack v x := by
  simp only [unpackAll, List.foldlM_append, List.foldlM_cons, List.foldlM_nil, bind_pure]

/-- **All items.** Putting them into a tree succeeds only if they are clear of each other. -/
theorem After.of_unpackAll {t : Tree α} {xs : List (Item α)} {w : Disk α}
    (h : unpackAll ⟨t, []⟩ xs = .ok w) : Clear t xs ∧ After t xs w := by
  induction xs using List.reverseRecOn generalizing w with
  | nil =>
    obtain rfl := Except.ok.inj h
    exact ⟨by simp [Clear], After.nil t⟩
  | append_singleton xs x ih =>
    rw [unpackAll_concat] at h
    cases hu : unpackAll ⟨t, []⟩ xs with
    | error e =>
      rw [hu] at h
      cases h
    | ok u =>
      rw [hu] at h
      obtain ⟨hclear, hafter⟩ := ih hu
      obtain ⟨v, p, hv, hp, hdir, rfl⟩ := unpack_ok_iff.1 h
      have hmade := Made.of_makedirs hv
      exact ⟨hafter.clear_concat hclear hmade hp hdir, hafter.concat hmade hp⟩

theorem Clear.left {t : Tree α} {xs ys : List (Item α)} (h : Clear t (xs ++ ys)) : Clear t xs := by
  intro x hx
  obtain ⟨hleaf, p, hp, hdir, hway⟩ := h x (List.mem_append_left _ hx)
  exact ⟨hleaf, p, hp, hdir, fun y hy => hway y (List.mem_append_left _ hy)⟩

theorem exists_unpackAll {t : Tree α} {xs : List (Item α)} (h : Clear t xs) :
    ∃ w, unpackAll ⟨t, []⟩ xs = .ok w := by
  induction xs using List.reverseRecOn with
  | nil => exact ⟨_, rfl⟩
  | append_singleton xs x ih =>
    obtain ⟨u, hu⟩ := ih h.left
    obtain ⟨-, hafter⟩ := After.of_unpackAll hu
    obtain ⟨hleaf, p, hp, hdir, hway⟩ := h x (by simp)
    have hfree : ∀ d ∈ x.dirs, ∀ a target, u.tree d ≠ some (.leaf a target) := by
      intro d hd a target heq
      obtain ⟨y, hlast, -⟩ | ⟨-, -, -, hud⟩ | ⟨-, -, hud⟩ := hafter.cases d
      · obtain ⟨hy, htarget⟩ := lastAt_some hlast
        obtain ⟨-, q, hq, -, hqway⟩ := h y (List.mem_append_left _ hy)
        obtain rfl : d = q := Option.some.inj (htarget.symm.trans hq)
        exact hqway x (by simp) hd
      · simp [hud] at heq
      · exact hleaf d hd a target (hud ▸ heq)
    obtain ⟨v, hv⟩ := exists_makedirs hfree
    have hmade := Made.of_makedirs hv
    have hvp : v.tree p ≠ some .dir := by
      rw [hmade.tree, if_neg fun hx => hway x (by simp) hx.1]
      intro heq
      obtain ⟨y, -, hup⟩ | ⟨-, ⟨y, hy, hyp⟩, -, -⟩ | ⟨-, -, hup⟩ := hafter.cases p
      · simp [hup] at heq
      · exact hway y (List.mem_append_left _ hy) hyp
      · exact hdir (hup ▸ heq)
    refine ⟨⟨write v.tree p x.content, v.written ++ [p]⟩, ?_⟩
    rw [unpackAll_concat, hu]
    exact unpack_ok_iff.2 ⟨v, p, hv, hp, hvp, rfl⟩

theorem unpackAll_ok_iff {t : Tree α} {xs : List (Item α)} :
    (∃ w, unpackAll ⟨t, []⟩ xs = .ok w) ↔ Clear t xs :=
  ⟨fun ⟨_, hw⟩ => (After.of_unpackAll hw).1, exists_unpackAll⟩

end FileTree
