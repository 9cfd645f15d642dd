import GardenLinux.Lib.Reach

/-!
# Paths, their order, and post-order lists

Paths through a guarded graph are compared where they part: at the roots the one
whose root is mentioned first comes first, below a vertex the one that goes on to
the successor whose last mention comes first.

What is proved here:

* `lastBefore_total`, `firstBefore_total` — two members of a list are ordered by
  their last, and by their first, mentions;
* `IsPath.compare` — of two paths to a vertex off every cycle, one precedes the other
  unless they are the same;
* `Emits.transGen` — what a vertex of a post-order list leads to lies in front of it;
* `emits_iff_index` — post-order read off the positions of a list.
-/

namespace Guarded

open Relation

variable {α : Type*}

/-! ## The order of siblings -/

/-- The first mention of `x` comes before the first mention of `y`. -/
def FirstBefore (l : List α) (x y : α) : Prop :=
  ∃ a b, l = a ++ y :: b ∧ y ∉ a ∧ x ∈ a

/-- The last mention of `x` comes before the last mention of `y`. -/
def LastBefore (l : List α) (x y : α) : Prop :=
  ∃ a b, l = a ++ x :: b ∧ x ∉ b ∧ y ∈ b

theorem LastBefore.mem_left {l : List α} {x y : α} (h : LastBefore l x y) : x ∈ l := by
  obtain ⟨a, b, rfl, -, -⟩ := h
  simp

theorem lastBefore_cons_of_mem {l : List α} {e x y : α} (h : LastBefore l x y) :
    LastBefore (e :: l) x y := by
  obtain ⟨a, b, rfl, hx, hy⟩ := h
  exact ⟨e :: a, b, rfl, hx, hy⟩

theorem lastBefore_total {l : List α} {x y : α} (hx : x ∈ l) (hy : y ∈ l) (hne : x ≠ y) :
    LastBefore l x y ∨ LastBefore l y x := by
  induction l with
  | nil => simp at hx
  | cons e l ih =>
    by_cases hxl : x ∈ l
    · by_cases hyl : y ∈ l
      · exact (ih hxl hyl).imp lastBefore_cons_of_mem lastBefore_cons_of_mem
      · have he : e = y := ((List.mem_cons.1 hy).resolve_right hyl).symm
        exact Or.inr ⟨[], l, by rw [he]; rfl, hyl, hxl⟩
    · have he : e = x := ((List.mem_cons.1 hx).resolve_right hxl).symm
      have hyl : y ∈ l := (List.mem_cons.1 hy).resolve_left fun h => hne (he ▸ h.symm)
      exact Or.inl ⟨[], l, by rw [he]; rfl, hxl, hyl⟩

theorem firstBefore_reverse {l : List α} {x y : α} (h : LastBefore l.reverse y x) :
    FirstBefore l x y := by
  obtain ⟨a, b, hl, hy, hx⟩ := h
  refine ⟨b.reverse, a.reverse, ?_, by simpa using hy, by simpa using hx⟩
  rw [← List.reverse_reverse l, hl]
  simp

theorem firstBefore_total {l : List α} {x y : α} (hx : x ∈ l) (hy : y ∈ l) (hne : x ≠ y) :
    FirstBefore l x y ∨ FirstBefore l y x := by
  rcases lastBefore_total (List.mem_reverse.2 hx) (List.mem_reverse.2 hy) hne with h | h
  · exact Or.inr (firstBefore_reverse h)
  · exact Or.inl (firstBefore_reverse h)

/-- What is mentioned before the first mention of `y` lies in front of it. -/
theorem FirstBefore.mem_of_split {a b : List α} {x y : α} (h : FirstBefore (a ++ y :: b) x y)
    (hy : y ∉ a) : x ∈ a := by
  obtain ⟨a', b', heq, hy', hx⟩ := h
  rcases List.append_eq_append_iff.1 heq with ⟨c, rfl, hc⟩ | ⟨c, rfl, hc⟩
  · cases c with
    | nil => simpa using hx
    | cons d c =>
      have hd : y = d := (List.cons.inj (by simpa using hc)).1
      exact absurd (by simp [hd]) hy'
  · exact List.mem_append_left _ hx

theorem lastBefore_iff_dedup [DecidableEq α] {l : List α} {x y : α} :
    LastBefore l x y ↔ [x, y].Sublist l.dedup := by
  induction l with
  | nil => simp [LastBefore]
  | cons e l ih =>
    by_cases he : e ∈ l
    · rw [List.dedup_cons_of_mem he, ← ih]
      refine ⟨?_, lastBefore_cons_of_mem⟩
      rintro ⟨a, b, heq, hx, hy⟩
      cases a with
      | nil =>
        obtain ⟨rfl, rfl⟩ := List.cons.inj heq
        exact absurd he hx
      | cons d a =>
        obtain ⟨rfl, rfl⟩ := List.cons.inj heq
        exact ⟨a, b, rfl, hx, hy⟩
    · rw [List.dedup_cons_of_notMem he]
      constructor
      · rintro ⟨a, b, heq, hx, hy⟩
        cases a with
        | nil =>
          obtain ⟨rfl, rfl⟩ := List.cons.inj heq
          exact List.Sublist.cons_cons _ (List.singleton_sublist.2 (List.mem_dedup.2 hy))
        | cons d a =>
          obtain ⟨rfl, rfl⟩ := List.cons.inj heq
          exact (ih.1 ⟨a, b, rfl, hx, hy⟩).trans (List.sublist_cons_self _ _)
      · intro hsub
        cases hsub with
        | cons _ h => exact lastBefore_cons_of_mem (ih.2 h)
        | cons_cons _ h =>
          exact ⟨[], l, rfl, he, List.mem_dedup.1 (List.singleton_sublist.1 h)⟩

/-! ## Paths and where they part -/

variable (g : Guarded α) (roots : List α)

/-- A path from a root inside the guard, listed from its end to its root. -/
def IsPath : List α → Prop
  | [] => False
  | [r] => r ∈ roots ∧ g.ok r = true
  | v :: u :: π => g.Edge u v ∧ IsPath (u :: π)

/-- What may follow a path: a root after nothing, a successor after a vertex. -/
def Follows : List α → α → Prop
  | [], v => v ∈ roots
  | u :: _, v => v ∈ g.succ u

/-- The order among what may follow a path. -/
def Before : List α → α → α → Prop
  | [], x, y => FirstBefore roots x y
  | u :: _, x, y => LastBefore (g.succ u) x y

/-- `τ` parts from `σ` to an earlier sibling. -/
def Precedes (τ σ : List α) : Prop :=
  ∃ ρ x y τ' σ', τ = τ' ++ x :: ρ ∧ σ = σ' ++ y :: ρ ∧ g.Before roots ρ x y

/-- No shortcut at `P`: when an earlier successor `C` of `P` leads to a later successor
`B` of `P`, then every path to `P` is preceded by a path to `B`. -/
def NoShortcutAt (P : α) : Prop :=
  ∀ π C B, g.IsPath roots (P :: π) → LastBefore (g.succ P) C B → TransGen g.Edge C B →
    ∃ τ, g.IsPath roots (B :: τ) ∧ g.Precedes roots (B :: τ) (P :: π)

/-- Every vertex of the list comes after its admitted successors, those in `done` being
in front of the list. -/
def Emits (g : Guarded α) : Set α → List α → Prop
  | _, [] => True
  | done, x :: xs => (∀ y ∈ g.succ x, g.ok y = true → y ∈ done) ∧ Emits g (insert x done) xs

variable {g roots}

theorem isPath_cons {v : α} {π : List α} :
    g.IsPath roots (v :: π) ↔
      g.Follows roots π v ∧ g.ok v = true ∧ (π = [] ∨ g.IsPath roots π) := by
  cases π with
  | nil => simp [IsPath, Follows]
  | cons u π =>
    cases π with
    | nil =>
      simp only [IsPath, Follows, Edge]
      constructor
      · rintro ⟨⟨hu, hv, hok⟩, hr⟩
        exact ⟨hv, hok, Or.inr hr⟩
      · rintro ⟨hv, hok, hr | hr⟩
        · cases hr
        · exact ⟨⟨hr.2, hv, hok⟩, hr⟩
    | cons w π =>
      simp only [IsPath, Follows, Edge]
      constructor
      · rintro ⟨⟨hu, hv, hok⟩, hr⟩
        exact ⟨hv, hok, Or.inr hr⟩
      · rintro ⟨hv, hok, hr | hr⟩
        · cases hr
        · exact ⟨⟨hr.1.2.2, hv, hok⟩, hr⟩

theorem IsPath.ok {v : α} {π : List α} (h : g.IsPath roots (v :: π)) : g.ok v = true :=
  (isPath_cons.1 h).2.1

theorem IsPath.reachedFrom {v : α} {π : List α} (h : g.IsPath roots (v :: π)) :
    g.ReachedFrom roots v := by
  induction π generalizing v with
  | nil => exact reachedFrom_root h.1 h.2
  | cons u π ih => exact (ih h.2).tail h.1

theorem isPath_of_append {σ ρ : List α} {x : α} (h : g.IsPath roots (σ ++ x :: ρ)) :
    g.IsPath roots (x :: ρ) := by
  induction σ with
  | nil => exact h
  | cons u σ ih => exact ih ((isPath_cons.1 h).2.2.resolve_left (by simp))

/-- Every vertex of a path leads to its end. -/
theorem IsPath.transGen {v x : α} {σ ρ : List α} (h : g.IsPath roots (v :: (σ ++ x :: ρ))) :
    TransGen g.Edge x v := by
  induction σ generalizing v with
  | nil => exact TransGen.single h.1
  | cons u σ ih => exact (ih h.2).tail h.1

/-- A path can be continued to whatever its end leads to. -/
theorem IsPath.extend {v x : α} {π : List α} (h : g.IsPath roots (v :: π))
    (hvx : ReflTransGen g.Edge v x) :
    ∃ σ κ, g.IsPath roots (x :: σ) ∧ x :: σ = κ ++ v :: π := by
  induction hvx with
  | refl => exact ⟨π, [], h, rfl⟩
  | @tail u w _ hedge ih =>
    obtain ⟨σ, κ, hσ, heq⟩ := ih
    exact ⟨u :: σ, w :: κ, ⟨hedge, hσ⟩, by rw [heq]; rfl⟩

theorem Precedes.append_left {τ σ : List α} (h : g.Precedes roots τ σ) (κ : List α) :
    g.Precedes roots (κ ++ τ) σ := by
  obtain ⟨ρ, x, y, τ', σ', rfl, rfl, hxy⟩ := h
  exact ⟨ρ, x, y, κ ++ τ', σ', by simp, rfl, hxy⟩

theorem Precedes.append_right {τ σ : List α} (h : g.Precedes roots τ σ) (κ : List α) :
    g.Precedes roots τ (κ ++ σ) := by
  obtain ⟨ρ, x, y, τ', σ', rfl, rfl, hxy⟩ := h
  exact ⟨ρ, x, y, τ', κ ++ σ', rfl, by simp, hxy⟩

theorem not_precedes_nil (τ : List α) : ¬ g.Precedes roots τ [] := by
  rintro ⟨ρ, x, y, τ', σ', -, heq, -⟩
  simp at heq

/-- A path that precedes `v :: π` parts from it at `v` or precedes `π`. -/
theorem precedes_cons {τ π : List α} {v : α} (h : g.Precedes roots τ (v :: π)) :
    (∃ κ x, τ = κ ++ x :: π ∧ g.Before roots π x v) ∨ g.Precedes roots τ π := by
  obtain ⟨ρ, x, y, τ', σ', rfl, heq, hxy⟩ := h
  cases σ' with
  | nil =>
    obtain ⟨rfl, rfl⟩ := List.cons.inj heq
    exact Or.inl ⟨τ', x, rfl, hxy⟩
  | cons d σ' =>
    obtain ⟨rfl, rfl⟩ := List.cons.inj heq
    exact Or.inr ⟨ρ, x, y, τ', σ', rfl, rfl, hxy⟩

theorem before_total {π : List α} {x y : α} (hx : g.Follows roots π x)
    (hy : g.Follows roots π y) (hne : x ≠ y) :
    g.Before roots π x y ∨ g.Before roots π y x := by
  cases π with
  | nil => exact firstBefore_total hx hy hne
  | cons u π => exact lastBefore_total hx hy hne

/-- Two lists read from their ends: one ends in the other, or they part. -/
theorem suffix_or_part (a b : List α) :
    (∃ κ, a = κ ++ b) ∨ (∃ κ, b = κ ++ a) ∨
      ∃ ρ x y a' b', x ≠ y ∧ a = a' ++ x :: ρ ∧ b = b' ++ y :: ρ := by
  induction a using List.reverseRecOn generalizing b with
  | nil => exact Or.inr (Or.inl ⟨b, by simp⟩)
  | append_singleton a x ih =>
    rcases List.eq_nil_or_concat b with rfl | ⟨b, y, rfl⟩
    · exact Or.inl ⟨a ++ [x], by simp⟩
    · by_cases hxy : x = y
      · subst hxy
        rcases ih b with ⟨κ, rfl⟩ | ⟨κ, rfl⟩ | ⟨ρ, u, w, a', b', hne, rfl, rfl⟩
        · exact Or.inl ⟨κ, by simp⟩
        · exact Or.inr (Or.inl ⟨κ, by simp⟩)
        · exact Or.inr (Or.inr ⟨ρ ++ [x], u, w, a', b', hne, by simp, by simp⟩)
      · exact Or.inr (Or.inr ⟨[], x, y, a, b, hxy, rfl, by simp⟩)

/-- Of two paths to the same vertex off every cycle, one precedes the other unless they
are the same. -/
theorem IsPath.compare {v : α} {τ σ : List α} (hτ : g.IsPath roots (v :: τ))
    (hσ : g.IsPath roots (v :: σ)) (hv : ¬ TransGen g.Edge v v) :
    τ = σ ∨ g.Precedes roots (v :: τ) (v :: σ) ∨ g.Precedes roots (v :: σ) (v :: τ) := by
  have hloop : ∀ {κ a b : List α}, g.IsPath roots (v :: a) → v :: a = κ ++ v :: b → a = b := by
    intro κ a b ha heq
    cases κ with
    | nil => exact (List.cons.inj heq).2
    | cons d κ =>
      obtain ⟨rfl, rfl⟩ := List.cons.inj heq
      exact absurd ha.transGen hv
  rcases suffix_or_part (v :: τ) (v :: σ) with ⟨κ, heq⟩ | ⟨κ, heq⟩ | ⟨ρ, x, y, a, b, hne, ha, hb⟩
  · exact Or.inl (hloop hτ heq)
  · exact Or.inl (hloop hσ heq).symm
  · rw [ha] at hτ
    rw [hb] at hσ
    have hx := (isPath_cons.1 (isPath_of_append hτ)).1
    have hy := (isPath_cons.1 (isPath_of_append hσ)).1
    rcases before_total hx hy hne with h | h
    · exact Or.inr (Or.inl ⟨ρ, x, y, a, b, ha, hb, h⟩)
    · exact Or.inr (Or.inr ⟨ρ, y, x, b, a, hb, ha, h⟩)

/-! ## Post-order lists -/

theorem emits_append {done : Set α} {a b : List α} :
    g.Emits done (a ++ b) ↔ g.Emits done a ∧ g.Emits (done ∪ {x | x ∈ a}) b := by
  induction a generalizing done with
  | nil => simp [Emits]
  | cons x a ih =>
    have hset : insert x done ∪ {y | y ∈ a} = done ∪ {y | y ∈ x :: a} := by
      ext y
      simp only [Set.mem_union, Set.mem_insert_iff, Set.mem_ofPred_eq, List.mem_cons]
      tauto
    rw [List.cons_append, Emits, Emits, ih, hset, and_assoc]

/-- A set that holds the admitted successors of its members. -/
def Settled (g : Guarded α) (done : Set α) : Prop :=
  ∀ x ∈ done, ∀ y ∈ g.succ x, g.ok y = true → y ∈ done

theorem Emits.settled {done : Set α} {l : List α} (h : g.Emits done l) (hd : g.Settled done) :
    g.Settled (done ∪ {x | x ∈ l}) := by
  induction l generalizing done with
  | nil => simpa using hd
  | cons x l ih =>
    have hset : done ∪ {y | y ∈ x :: l} = insert x done ∪ {y | y ∈ l} := by
      ext y
      simp only [Set.mem_union, Set.mem_insert_iff, Set.mem_ofPred_eq, List.mem_cons]
      tauto
    rw [hset]
    refine ih h.2 ?_
    intro u hu y hy hok
    rcases Set.mem_insert_iff.1 hu with rfl | hu
    · exact Set.mem_insert_of_mem _ (h.1 y hy hok)
    · exact Set.mem_insert_of_mem _ (hd u hu y hy hok)

theorem Settled.reach {done : Set α} (hd : g.Settled done) {x y : α} (hx : x ∈ done)
    (h : ReflTransGen g.Edge x y) : y ∈ done := by
  induction h with
  | refl => exact hx
  | tail _ hedge ih => exact hd _ ih _ hedge.mem hedge.ok_right

/-- What a vertex of a post-order list leads to lies in front of it. -/
theorem Emits.transGen {done : Set α} {a b : List α} {x y : α} (h : g.Emits done (a ++ x :: b))
    (hd : g.Settled done) (hxy : TransGen g.Edge x y) : y ∈ done ∪ {z | z ∈ a} := by
  obtain ⟨ha, hx, -⟩ := emits_append.1 h
  obtain ⟨w, hedge, hwy⟩ := TransGen.head'_iff.1 hxy
  exact (ha.settled hd).reach (hx w hedge.mem hedge.ok_right) hwy

/-- For a list without repetitions that holds the admitted successors of its members,
post-order can be read off the positions. -/
theorem emits_iff_index {l : List α} (hnd : l.Nodup) (hok : ∀ x ∈ l, g.ok x = true)
    (hclosed : ∀ x ∈ l, ∀ y ∈ g.succ x, g.ok y = true → y ∈ l) :
    g.Emits ∅ l ↔ ∀ (i j : ℕ) (x y : α), l[i]? = some x → l[j]? = some y → y ∈ g.succ x →
      j < i := by
  constructor
  · intro hem i j x y hi hj hy
    obtain ⟨hilt, hix⟩ := List.getElem?_eq_some_iff.1 hi
    have hsplit : l = l.take i ++ x :: l.drop (i + 1) := by
      rw [← hix, List.cons_getElem_drop_succ, List.take_append_drop]
    rw [hsplit, emits_append] at hem
    have hyok := hok y (List.mem_of_getElem? hj)
    rcases hem.2.1 y hy hyok with hd | hd
    · exact absurd hd (Set.notMem_empty y)
    · obtain ⟨k, hk⟩ := List.mem_iff_getElem?.1 hd
      have hki : k < i := by
        by_contra hge
        rw [List.getElem?_take, if_neg hge] at hk
        cases hk
      rw [List.getElem?_take_of_lt hki] at hk
      have hjk : j = k :=
        (List.getElem?_inj (List.getElem?_eq_some_iff.1 hj).1 hnd).1 (hj.trans hk.symm)
      omega
  · intro hidx
    suffices key : ∀ b a : List α, l = a ++ b → g.Emits {x | x ∈ a} b by
      have hkey := key l [] rfl
      simpa using hkey
    intro b
    induction b with
    | nil => intro _ _; exact trivial
    | cons x b ih =>
      intro a hl
      refine ⟨?_, ?_⟩
      · intro y hy hyok
        have hx : l[a.length]? = some x := by simp [hl]
        have hyl := hclosed x (by simp [hl]) y hy hyok
        obtain ⟨j, hj⟩ := List.mem_iff_getElem?.1 hyl
        have hlt := hidx a.length j x y hx hj hy
        rw [hl, List.getElem?_append_left hlt] at hj
        exact List.mem_of_getElem? hj
      · have hset : insert x {y | y ∈ a} = {y | y ∈ a ++ [x]} := by
          ext y
          simp only [Set.mem_insert_iff, Set.mem_ofPred_eq, List.mem_append, List.mem_singleton]
          tauto
        rw [hset]
        exact ih (a ++ [x]) (by simp [hl])

end Guarded
