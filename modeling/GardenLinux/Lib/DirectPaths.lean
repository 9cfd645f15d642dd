import GardenLinux.Lib.EagerWalk
import GardenLinux.Lib.Paths

/-!
# The paths of the eager-marking walk

A vertex that is marked when it is put on the stack is entered along a path on which
every vertex is listed by its predecessor and by none above it.  Such a path is called
direct.  Of the direct paths to a vertex the walk takes the first, in the order of
`Paths`.

What is proved here:

* `FirstDirect.unique` — there is at most one first direct path to a vertex;
* `SweepTakes.firstDirect` — a vertex is taken from the stack below the first direct
  path to it;
* `sweepLoops_iff` — so a sweep is cut short by a loop exactly when some vertex lists
  one that lies on the first direct path to it.
-/

namespace Guarded

open Relation

variable {α : Type*} (g : Guarded α) (roots : List α)

/-- No vertex of the path, listed from its end to its root, occurs twice or is a successor
of one above its predecessor. -/
def Direct : List α → Prop
  | [] => True
  | v :: π => v ∉ π ∧ (∀ w ∈ π.tail, v ∉ g.succ w) ∧ Direct π

/-- A direct path that no direct path to the same vertex precedes. -/
def FirstDirect (π : List α) : Prop :=
  g.IsPath roots π ∧ g.Direct π ∧
    ∀ τ, g.IsPath roots τ → g.Direct τ → τ.head? = π.head? → ¬ g.Precedes roots τ π

/-- Some vertex lists one that lies on the first direct path to it. -/
def ListsAbove : Prop :=
  ∃ v π, g.FirstDirect roots (v :: π) ∧ ∃ w ∈ g.succ v, w ∈ v :: π

variable {g roots}

/-! ## Direct paths -/

theorem Direct.nodup {π : List α} (h : g.Direct π) : π.Nodup := by
  induction π with
  | nil => exact List.nodup_nil
  | cons v π ih => exact List.nodup_cons.2 ⟨h.1, ih h.2.2⟩

/-- There is at most one first direct path to a vertex. -/
theorem FirstDirect.unique {v : α} {π σ : List α} (hπ : g.FirstDirect roots (v :: π))
    (hσ : g.FirstDirect roots (v :: σ)) : π = σ := by
  have hsuffix : ∀ {κ a b : List α}, g.Direct (v :: a) → v :: a = κ ++ v :: b → a = b := by
    intro κ a b ha heq
    cases κ with
    | nil => exact (List.cons.inj heq).2
    | cons d κ =>
      obtain ⟨rfl, rfl⟩ := List.cons.inj heq
      exact absurd (by simp) ha.1
  rcases suffix_or_part (v :: π) (v :: σ) with ⟨κ, heq⟩ | ⟨κ, heq⟩ | ⟨ρ, x, y, a, b, hne, ha, hb⟩
  · exact hsuffix hπ.2.1 heq
  · exact (hsuffix hσ.2.1 heq).symm
  · have hx : g.Follows roots ρ x := (isPath_cons.1 (isPath_of_append (ha ▸ hπ.1))).1
    have hy : g.Follows roots ρ y := (isPath_cons.1 (isPath_of_append (hb ▸ hσ.1))).1
    rcases before_total hx hy hne with h | h
    · exact absurd ⟨ρ, x, y, a, b, ha, hb, h⟩ (hσ.2.2 _ hπ.1 hπ.2.1 rfl)
    · exact absurd ⟨ρ, y, x, b, a, hb, ha, h⟩ (hπ.2.2 _ hσ.1 hσ.2.1 rfl)

/-! ## What the walk keeps -/

theorem not_pair_sublist {l : List α} {x v : α} (hnd : (v :: l).Nodup) :
    ¬ [x, v].Sublist (v :: l) := by
  intro h
  have hv : v ∈ l := by
    cases h with
    | cons _ h => exact h.subset (by simp)
    | cons_cons _ h => exact h.subset (by simp)
  exact (List.nodup_cons.1 hnd).1 hv

/-- The walk comes to the siblings `ps` below the open path `hot`, with the marks `seen`
made and the vertices in `done` off the stack. -/
structure Stage (g : Guarded α) (roots hot : List α) (seen : Finset α) (ps : List α)
    (done : Set α) : Prop where
  path : hot = [] ∨ g.IsPath roots hot
  direct : g.Direct hot
  opened : ∀ u ∈ hot, ∀ w ∈ g.succ u, w ∈ seen
  marked_done : ∀ x ∈ done, x ∈ seen
  closed : ∀ x ∈ done, g.ok x = true → ∀ y ∈ g.succ x, y ∈ seen
  -- what is marked and not off the stack is open or was put on the stack for an open vertex
  waiting : ∀ x ∈ seen, x ∈ done ∨ x ∈ hot ∨ (∃ u ∈ hot, x ∈ g.succ u) ∨ (hot = [] ∧ x ∈ ps)
  before : ∀ x τ, g.IsPath roots (x :: τ) → g.Direct (x :: τ) →
    g.Precedes roots (x :: τ) hot → x ∈ done
  nodup : ps.Nodup
  pending : ∀ p ∈ ps, p ∈ seen ∧ p ∉ done ∧ p ∉ hot ∧ g.Follows roots hot p ∧
    ∀ u ∈ hot.tail, p ∉ g.succ u
  earlier : ∀ p ∈ ps, ∀ x, g.Before roots hot x p →
    x ∈ done ∨ x ∈ hot ∨ (∃ u ∈ hot.tail, x ∈ g.succ u) ∨ [x, p].Sublist ps
  single : hot = [] → ps.length ≤ 1 ∧ ∀ p ∈ ps, ∀ x ∈ done, g.ok x = true → p ∉ g.succ x

theorem Stage.isPath {hot : List α} {seen : Finset α} {v : α} {vs : List α} {done : Set α}
    (h : g.Stage roots hot seen (v :: vs) done) (hok : g.ok v = true) :
    g.IsPath roots (v :: hot) :=
  isPath_cons.2 ⟨(h.pending v (List.mem_cons_self ..)).2.2.2.1, hok, h.path⟩

theorem Stage.direct_cons {hot : List α} {seen : Finset α} {v : α} {vs : List α} {done : Set α}
    (h : g.Stage roots hot seen (v :: vs) done) : g.Direct (v :: hot) := by
  obtain ⟨-, -, hhot, -, htail⟩ := h.pending v (List.mem_cons_self ..)
  exact ⟨hhot, htail, h.direct⟩

/-- A successor of a vertex that is off the stack is off the stack too, unless it is open
or listed by an open vertex. -/
theorem Stage.succ_done {hot : List α} {seen : Finset α} {ps : List α} {done : Set α}
    (h : g.Stage roots hot seen ps done) {b c : α} (hb : b ∈ done) (hok : g.ok b = true)
    (hc : c ∈ g.succ b) (hhot : c ∉ hot) (hopen : ∀ u ∈ hot, c ∉ g.succ u) : c ∈ done := by
  rcases h.waiting c (h.closed b hb hok c hc) with hd | hd | ⟨u, hu, hcu⟩ | ⟨hnil, hps⟩
  · exact hd
  · exact absurd hd hhot
  · exact absurd hcu (hopen u hu)
  · exact absurd hc ((h.single hnil).2 c hps b hb hok)

/-- What a direct path comes to once it has parted from the open path to an earlier sibling
is off the stack. -/
theorem Stage.done_of_earlier {hot : List α} {seen : Finset α} {v : α} {vs : List α}
    {done : Set α} (h : g.Stage roots hot seen (v :: vs) done) {y : α}
    (hy : g.Before roots hot y v) :
    ∀ (κ : List α) (x : α) (τ : List α), x :: τ = κ ++ y :: hot → g.IsPath roots (x :: τ) →
      g.Direct (x :: τ) → x ∈ done := by
  intro κ
  induction κ with
  | nil =>
    intro x τ heq _ hdir
    obtain ⟨rfl, rfl⟩ := List.cons.inj heq
    obtain ⟨hhot, htail, -⟩ := hdir
    rcases h.earlier v (List.mem_cons_self ..) x hy with hd | hd | ⟨u, hu, hxu⟩ | hd
    · exact hd
    · exact absurd hd hhot
    · exact absurd hxu (htail u hu)
    · exact absurd hd (not_pair_sublist h.nodup)
  | cons d κ ih =>
    intro x τ heq hx hdir
    obtain ⟨rfl, rfl⟩ := List.cons.inj heq
    cases hκ : κ ++ y :: hot with
    | nil => simp at hκ
    | cons b σ =>
      rw [List.append_eq, hκ] at hx hdir
      obtain ⟨hnot, htail, hdir'⟩ := hdir
      obtain ⟨hfol, -, hpath⟩ := isPath_cons.1 hx
      have hpath' : g.IsPath roots (b :: σ) := hpath.resolve_left (by simp)
      have hb : b ∈ done := ih b σ hκ.symm hpath' hdir'
      have hsub : ∀ u ∈ hot, u ∈ σ := by
        intro u hu
        cases κ with
        | nil =>
          obtain ⟨-, rfl⟩ := List.cons.inj hκ
          exact hu
        | cons e κ =>
          obtain ⟨-, rfl⟩ := List.cons.inj hκ
          simp [hu]
      exact h.succ_done hb hpath'.ok hfol (fun hh => hnot (List.mem_cons_of_mem _ (hsub _ hh)))
        fun u hu => htail u (hsub u hu)

theorem Stage.eq_of_root {hot : List α} {seen : Finset α} {v x : α} {vs : List α} {done : Set α}
    (h : g.Stage roots hot seen (v :: vs) done) (hnil : hot = []) (hx : x ∈ v :: vs) : x = v := by
  have hlen := (h.single hnil).1
  rcases List.mem_cons.1 hx with rfl | hx
  · rfl
  · have hpos := List.length_pos_of_mem hx
    simp only [List.length_cons] at hlen
    omega

/-- The end of a direct path that precedes the path to a pending vertex is off the stack. -/
theorem Stage.before_cons {hot : List α} {seen : Finset α} {v : α} {vs : List α} {done : Set α}
    (h : g.Stage roots hot seen (v :: vs) done) {x : α} {τ : List α}
    (hx : g.IsPath roots (x :: τ)) (hdir : g.Direct (x :: τ))
    (hpre : g.Precedes roots (x :: τ) (v :: hot)) : x ∈ done := by
  rcases precedes_cons hpre with ⟨κ, y, heq, hy⟩ | hpre
  · exact h.done_of_earlier hy κ x τ heq hx hdir
  · exact h.before x τ hx hdir hpre

/-- The open path to a pending vertex is the first direct path to it. -/
theorem Stage.firstDirect {hot : List α} {seen : Finset α} {v : α} {vs : List α} {done : Set α}
    (h : g.Stage roots hot seen (v :: vs) done) (hok : g.ok v = true) :
    g.FirstDirect roots (v :: hot) := by
  refine ⟨h.isPath hok, h.direct_cons, ?_⟩
  rintro τ hτ hdir hhead hpre
  cases τ with
  | nil => cases hhead
  | cons x τ =>
    obtain rfl : x = v := Option.some.inj hhead
    exact (h.pending x (List.mem_cons_self ..)).2.1 (h.before_cons hτ hdir hpre)

variable [DecidableEq α]

/-- The invariant passes to the remaining siblings. -/
theorem Stage.next {hot : List α} {seen seen₁ : Finset α} {v : α} {vs : List α} {done : Set α}
    (h : g.Stage roots hot seen (v :: vs) done) (tr : List α) (hsub : seen ⊆ seen₁)
    (hmem : ∀ x, x ∈ tr ↔ x ∉ seen ∧ x ∈ seen₁)
    (hclosed : ∀ x ∈ v :: tr, g.ok x = true → ∀ y ∈ g.succ x, y ∈ seen₁) :
    g.Stage roots hot seen₁ vs (done ∪ {x | x ∈ v :: tr}) where
  path := h.path
  direct := h.direct
  opened := fun u hu w hw => hsub (h.opened u hu w hw)
  marked_done := by
    rintro x (hx | hx)
    · exact hsub (h.marked_done x hx)
    · rcases List.mem_cons.1 hx with rfl | hx
      · exact hsub (h.pending x (List.mem_cons_self ..)).1
      · exact ((hmem x).1 hx).2
  closed := by
    rintro x (hx | hx) hok y hy
    · exact hsub (h.closed x hx hok y hy)
    · exact hclosed x hx hok y hy
  waiting := by
    intro x hx
    by_cases hseen : x ∈ seen
    · rcases h.waiting x hseen with hd | hd | hd | ⟨hnil, hps⟩
      · exact Or.inl (Or.inl hd)
      · exact Or.inr (Or.inl hd)
      · exact Or.inr (Or.inr (Or.inl hd))
      · rcases List.mem_cons.1 hps with rfl | hps
        · exact Or.inl (Or.inr (List.mem_cons_self ..))
        · exact Or.inr (Or.inr (Or.inr ⟨hnil, hps⟩))
    · exact Or.inl (Or.inr (List.mem_cons_of_mem _ ((hmem x).2 ⟨hseen, hx⟩)))
  before := fun x τ hx hdir hpre => Or.inl (h.before x τ hx hdir hpre)
  nodup := (List.nodup_cons.1 h.nodup).2
  pending := by
    intro p hp
    obtain ⟨hseen, hdone, hhot, hfol, htail⟩ := h.pending p (List.mem_cons_of_mem _ hp)
    refine ⟨hsub hseen, ?_, hhot, hfol, htail⟩
    rintro (hd | hd)
    · exact hdone hd
    · rcases List.mem_cons.1 hd with rfl | hd
      · exact (List.nodup_cons.1 h.nodup).1 hp
      · exact ((hmem p).1 hd).1 hseen
  earlier := by
    intro p hp x hx
    rcases h.earlier p (List.mem_cons_of_mem _ hp) x hx with hd | hd | hd | hd
    · exact Or.inl (Or.inl hd)
    · exact Or.inr (Or.inl hd)
    · exact Or.inr (Or.inr (Or.inl hd))
    · cases hd with
      | cons _ hd => exact Or.inr (Or.inr (Or.inr hd))
      | cons_cons _ hd => exact Or.inl (Or.inr (List.mem_cons_self ..))
  single := by
    intro hnil
    have hlen := (h.single hnil).1
    have hvs : vs = [] := by
      cases vs with
      | nil => rfl
      | cons u us => simp at hlen
    subst hvs
    simp

/-- The invariant passes to the fresh successors of a vertex that is opened. -/
theorem Stage.down {hot : List α} {seen : Finset α} {v : α} {vs : List α} {done : Set α}
    (h : g.Stage roots hot seen (v :: vs) done) (hok : g.ok v = true)
    (hback : g.backEntry hot v = none) :
    g.Stage roots (v :: hot) (g.marked seen v) (g.fresh seen v) done where
  path := Or.inr (h.isPath hok)
  direct := h.direct_cons
  opened := by
    intro u hu w hw
    rcases List.mem_cons.1 hu with rfl | hu
    · exact mem_marked.2 (Or.inr hw)
    · exact subset_marked _ _ (h.opened u hu w hw)
  marked_done := fun x hx => subset_marked _ _ (h.marked_done x hx)
  closed := fun x hx hxok y hy => subset_marked _ _ (h.closed x hx hxok y hy)
  waiting := by
    intro x hx
    rcases mem_marked.1 hx with hseen | hsucc
    · rcases h.waiting x hseen with hd | hd | ⟨u, hu, hxu⟩ | ⟨hnil, hps⟩
      · exact Or.inl hd
      · exact Or.inr (Or.inl (List.mem_cons_of_mem _ hd))
      · exact Or.inr (Or.inr (Or.inl ⟨u, List.mem_cons_of_mem _ hu, hxu⟩))
      · exact Or.inr (Or.inl (List.mem_cons.2 (Or.inl (h.eq_of_root hnil hps))))
    · exact Or.inr (Or.inr (Or.inl ⟨v, List.mem_cons_self .., hsucc⟩))
  before := fun x τ hx hdir hpre => h.before_cons hx hdir hpre
  nodup := nodup_fresh seen v
  pending := by
    intro p hp
    obtain ⟨hsucc, hseen⟩ := mem_fresh.1 hp
    refine ⟨mem_marked.2 (Or.inr hsucc), fun hd => hseen (h.marked_done p hd),
      backEntry_eq_none.1 hback p hsucc, hsucc, ?_⟩
    exact fun u hu hpu => hseen (h.opened u hu p hpu)
  earlier := by
    intro p hp x hx
    by_cases hseen : x ∈ seen
    · rcases h.waiting x hseen with hd | hd | hd | ⟨hnil, hps⟩
      · exact Or.inl hd
      · exact Or.inr (Or.inl (List.mem_cons_of_mem _ hd))
      · exact Or.inr (Or.inr (Or.inl hd))
      · exact Or.inr (Or.inl (List.mem_cons.2 (Or.inl (h.eq_of_root hnil hps))))
    · have hpair := (lastBefore_iff_dedup.1 hx).filter (fun w => decide (w ∉ seen))
      have hkeep : [x, p].filter (fun w => decide (w ∉ seen)) = [x, p] := by
        simp [hseen, (mem_fresh.1 hp).2]
      rw [hkeep] at hpair
      exact Or.inr (Or.inr (Or.inr hpair))
  single := fun hnil => by simp at hnil

/-! ## Where a vertex is taken from the stack -/

variable (g)

/-- `Takes hot seen pending path marks v`: while the pending siblings are walked, `v`
is taken from the stack for the first time, with `path` open and `marks` made. -/
inductive Takes : List α → Finset α → List α → List α → Finset α → α → Prop
  | here {hot seen v vs} : g.ok v = true → Takes hot seen (v :: vs) hot seen v
  | down {hot seen v vs path marks u} : g.ok v = true → g.backEntry hot v = none →
      Takes (v :: hot) (g.marked seen v) (g.fresh seen v) path marks u →
      Takes hot seen (v :: vs) path marks u
  | skip {hot seen v vs path marks u} : g.ok v = false →
      Takes hot seen vs path marks u → Takes hot seen (v :: vs) path marks u
  | next {hot seen v vs seen₁ tr₁ path marks u} : g.ok v = true → g.backEntry hot v = none →
      g.Walk (v :: hot) (g.marked seen v) (g.fresh seen v) seen₁ tr₁ →
      Takes hot seen₁ vs path marks u → Takes hot seen (v :: vs) path marks u

/-- `SweepTakes seen roots path marks v`: one of the traversals of the roots takes `v`
from the stack for the first time, with `path` open and `marks` made. -/
inductive SweepTakes : Finset α → List α → List α → Finset α → α → Prop
  | here {seen r rs path marks u} : r ∉ seen → Takes g [] (insert r seen) [r] path marks u →
      SweepTakes seen (r :: rs) path marks u
  | seen {seen r rs path marks u} : r ∈ seen → SweepTakes seen rs path marks u →
      SweepTakes seen (r :: rs) path marks u
  | next {seen r rs seen₁ tr₁ path marks u} : r ∉ seen →
      g.Walk [] (insert r seen) [r] seen₁ tr₁ → SweepTakes seen₁ rs path marks u →
      SweepTakes seen (r :: rs) path marks u

variable {g}

theorem Takes.firstDirect {hot seen ps path marks v} (h : g.Takes hot seen ps path marks v) :
    ∀ {done : Set α}, g.Stage roots hot seen ps done → g.ok v = true →
      g.FirstDirect roots (v :: path) := by
  induction h with
  | here _ => exact fun hstage hok => hstage.firstDirect hok
  | down hok hback _ ih => exact fun hstage => ih (hstage.down hok hback)
  | @skip hot seen v vs path marks u hok _ ih =>
    intro done hstage
    refine ih (hstage.next [] (Finset.Subset.refl _) (fun x => ?_) ?_)
    · simp
    · intro x hx hxok
      rw [List.mem_singleton.1 hx, hok] at hxok
      cases hxok
  | @next hot seen v vs seen₁ tr₁ path marks u hok hback h₁ _ ih =>
    intro done hstage
    have hsub : seen ⊆ seen₁ := (subset_marked seen v).trans h₁.subset
    refine ih (hstage.next tr₁ hsub (fun x => ?_) ?_)
    · rw [h₁.mem_trace, mem_fresh, mem_marked]
      have hx : x ∈ g.succ v → x ∈ seen₁ := fun hx => h₁.subset (mem_marked.2 (Or.inr hx))
      tauto
    · intro x hx hxok y hy
      rcases List.mem_cons.1 hx with rfl | hx
      · exact h₁.subset (mem_marked.2 (Or.inr hy))
      · exact (h₁.closed x hx hxok y hy).1

/-- What is marked before a root is walked is off the stack. -/
theorem stage_root {before after : List α} {r : α} {seen : Finset α}
    (hroots : roots = before ++ r :: after) (hbefore : ∀ x ∈ before, x ∈ seen)
    (hclosed : ∀ x ∈ seen, g.ok x = true → ∀ y ∈ g.succ x, y ∈ seen) (hr : r ∉ seen) :
    g.Stage roots [] (insert r seen) [r] {x | x ∈ seen} where
  path := Or.inl rfl
  direct := trivial
  opened := by simp
  marked_done := fun x hx => Finset.mem_insert_of_mem hx
  closed := fun x hx hok y hy => Finset.mem_insert_of_mem (hclosed x hx hok y hy)
  waiting := by
    intro x hx
    rcases Finset.mem_insert.1 hx with rfl | hx
    · exact Or.inr (Or.inr (Or.inr ⟨rfl, List.mem_cons_self ..⟩))
    · exact Or.inl hx
  before := fun x τ _ _ hpre => absurd hpre (not_precedes_nil _)
  nodup := List.nodup_singleton r
  pending := by
    intro p hp
    obtain rfl := List.mem_singleton.1 hp
    have hfol : g.Follows roots [] p := by
      rw [Follows, hroots]
      simp
    exact ⟨Finset.mem_insert_self _ _, hr, by simp, hfol, by simp⟩
  earlier := by
    intro p hp x hx
    obtain rfl := List.mem_singleton.1 hp
    have hfirst : FirstBefore (before ++ p :: after) x p := hroots ▸ hx
    exact Or.inl (hbefore x (hfirst.mem_of_split fun hmem => hr (hbefore p hmem)))
  single := by
    refine fun _ => ⟨le_refl _, ?_⟩
    intro p hp x hx hok hpx
    rw [List.mem_singleton.1 hp] at hpx
    exact hr (hclosed x hx hok r hpx)

/-- The marks are closed again once a root has been walked. -/
theorem Walk.closed_root {r : α} {seen seen₁ : Finset α} {tr₁ : List α}
    (h : g.Walk [] (insert r seen) [r] seen₁ tr₁)
    (hclosed : ∀ x ∈ seen, g.ok x = true → ∀ y ∈ g.succ x, y ∈ seen) :
    ∀ x ∈ seen₁, g.ok x = true → ∀ y ∈ g.succ x, y ∈ seen₁ := by
  intro x hx hok y hy
  by_cases hseen : x ∈ seen
  · exact h.subset (Finset.mem_insert_of_mem (hclosed x hseen hok y hy))
  · refine (h.closed x (h.mem_trace.2 ?_) hok y hy).1
    by_cases hxr : x = r
    · exact Or.inl (List.mem_singleton.2 hxr)
    · exact Or.inr ⟨hx, fun hmem => (Finset.mem_insert.1 hmem).elim hxr hseen⟩

/-- A vertex is taken from the stack below the first direct path to it. -/
theorem SweepTakes.firstDirect {seen rs path marks v} (h : g.SweepTakes seen rs path marks v) :
    ∀ before, roots = before ++ rs → (∀ x ∈ before, x ∈ seen) →
      (∀ x ∈ seen, g.ok x = true → ∀ y ∈ g.succ x, y ∈ seen) → g.ok v = true →
      g.FirstDirect roots (v :: path) := by
  induction h with
  | here hr ht =>
    intro before hroots hbefore hclosed hok
    exact ht.firstDirect (stage_root hroots hbefore hclosed hr) hok
  | @seen seen r rs path marks v hr _ ih =>
    intro before hroots hbefore hclosed hok
    refine ih (before ++ [r]) (by simp [hroots]) (fun x hx => ?_) hclosed hok
    rcases List.mem_append.1 hx with hx | hx
    · exact hbefore x hx
    · exact List.mem_singleton.1 hx ▸ hr
  | @next seen r rs seen₁ tr₁ path marks v _ h₁ _ ih =>
    intro before hroots hbefore hclosed hok
    refine ih (before ++ [r]) (by simp [hroots]) (fun x hx => h₁.subset ?_)
      (h₁.closed_root hclosed) hok
    rcases List.mem_append.1 hx with hx | hx
    · exact Finset.mem_insert_of_mem (hbefore x hx)
    · exact Finset.mem_insert.2 (Or.inl (List.mem_singleton.1 hx))

/-! ## When a loop is found -/

/-- What a completed walk has emitted was taken from the stack, and listed nothing above it. -/
theorem Walk.exists_takes {hot seen ps seen' tr} (h : g.Walk hot seen ps seen' tr) {x : α}
    (hx : x ∈ tr) (hok : g.ok x = true) :
    ∃ path marks, g.Takes hot seen ps path marks x ∧ g.backEntry path x = none := by
  induction h with
  | nil => simp at hx
  | skip hv _ ih =>
    rcases List.mem_cons.1 hx with rfl | hx
    · rw [hv] at hok; cases hok
    · obtain ⟨path, marks, ht, hback⟩ := ih hx
      exact ⟨path, marks, Takes.skip hv ht, hback⟩
  | @node hot seen v vs seen₁ tr₁ seen₂ tr₂ hv hback h₁ _ ih₁ ih₂ =>
    rcases List.mem_append.1 hx with hx | hx
    · obtain ⟨path, marks, ht, hnone⟩ := ih₁ hx
      exact ⟨path, marks, Takes.down hv hback ht, hnone⟩
    · rcases List.mem_cons.1 hx with rfl | hx
      · exact ⟨hot, seen, Takes.here hv, hback⟩
      · obtain ⟨path, marks, ht, hnone⟩ := ih₂ hx
        exact ⟨path, marks, Takes.next hv hback h₁ ht, hnone⟩

theorem Sweep.exists_takes {seen rs seen' tr} (h : g.Sweep seen rs seen' tr) {x : α}
    (hx : x ∈ tr) (hok : g.ok x = true) :
    ∃ path marks, g.SweepTakes seen rs path marks x ∧ g.backEntry path x = none := by
  induction h with
  | nil => simp at hx
  | seen hr _ ih =>
    obtain ⟨path, marks, ht, hnone⟩ := ih hx
    exact ⟨path, marks, SweepTakes.seen hr ht, hnone⟩
  | start hr h₁ _ ih =>
    rcases List.mem_append.1 hx with hx | hx
    · obtain ⟨path, marks, ht, hnone⟩ := h₁.exists_takes hx hok
      exact ⟨path, marks, SweepTakes.here hr ht, hnone⟩
    · obtain ⟨path, marks, ht, hnone⟩ := ih hx
      exact ⟨path, marks, SweepTakes.next hr h₁ ht, hnone⟩

/-- A walk is cut short where a vertex that is taken from the stack lists one above it. -/
theorem Loops.exists_takes {hot seen ps w} (h : g.Loops hot seen ps w) :
    ∃ path marks v, g.Takes hot seen ps path marks v ∧ g.ok v = true ∧
      g.backEntry path v = some w := by
  induction h with
  | @here hot seen v vs w hok hback => exact ⟨hot, seen, v, Takes.here hok, hok, hback⟩
  | down hok hback _ ih =>
    obtain ⟨path, marks, v, ht, hv⟩ := ih
    exact ⟨path, marks, v, Takes.down hok hback ht, hv⟩
  | skip hok _ ih =>
    obtain ⟨path, marks, v, ht, hv⟩ := ih
    exact ⟨path, marks, v, Takes.skip hok ht, hv⟩
  | next hok hback h₁ _ ih =>
    obtain ⟨path, marks, v, ht, hv⟩ := ih
    exact ⟨path, marks, v, Takes.next hok hback h₁ ht, hv⟩

theorem SweepLoops.exists_takes {seen rs w} (h : g.SweepLoops seen rs w) :
    ∃ path marks v, g.SweepTakes seen rs path marks v ∧ g.ok v = true ∧
      g.backEntry path v = some w := by
  induction h with
  | here hr hl =>
    obtain ⟨path, marks, v, ht, hv⟩ := hl.exists_takes
    exact ⟨path, marks, v, SweepTakes.here hr ht, hv⟩
  | seen hr _ ih =>
    obtain ⟨path, marks, v, ht, hv⟩ := ih
    exact ⟨path, marks, v, SweepTakes.seen hr ht, hv⟩
  | next hr h₁ _ ih =>
    obtain ⟨path, marks, v, ht, hv⟩ := ih
    exact ⟨path, marks, v, SweepTakes.next hr h₁ ht, hv⟩

/-- On a finite graph a sweep is cut short by a loop exactly when some vertex lists one that
lies on the first direct path to it. -/
theorem sweepLoops_iff {U : Finset α} (hU : ∀ u ∈ U, ∀ w ∈ g.succ u, w ∈ U)
    (hroots : ∀ r ∈ roots, r ∈ U) :
    (∃ w, g.SweepLoops ∅ roots w) ↔ g.ListsAbove roots := by
  constructor
  · rintro ⟨w, hloops⟩
    obtain ⟨path, marks, v, htakes, hok, hback⟩ := hloops.exists_takes
    have hfirst : g.FirstDirect roots (v :: path) :=
      htakes.firstDirect [] rfl (by simp) (by simp) hok
    obtain ⟨hw, hopen⟩ := backEntry_eq_some hback
    exact ⟨v, path, hfirst, w, hw, hopen⟩
  · rintro ⟨v, π, hfirst, w, hw, hmem⟩
    rcases sweep_or_loops hU roots hroots ∅ with ⟨seen', tr, hsweep⟩ | hloops
    · have hv : v ∈ tr.filter g.ok := hsweep.mem_emitted_iff.2 hfirst.1.reachedFrom
      obtain ⟨hv, hok⟩ := List.mem_filter.1 hv
      obtain ⟨path, marks, htakes, hback⟩ := hsweep.exists_takes hv hok
      have heq : π = path := hfirst.unique (htakes.firstDirect [] rfl (by simp) (by simp) hok)
      exact absurd (heq ▸ hmem) (backEntry_eq_none.1 hback w hw)
    · exact hloops

end Guarded
