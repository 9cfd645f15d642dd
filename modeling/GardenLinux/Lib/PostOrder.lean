import GardenLinux.Lib.EagerWalk
import GardenLinux.Lib.Paths

/-!
# When the eager-marking walk emits in post-order

Marking a vertex when it is put on the stack is harmless only as long as no vertex
is found waiting there as the sibling of an open vertex.  This file says on the
graph alone when that is so.

What is proved here:

* `Sweep.emits_of_noShortcut` — without shortcuts (a successor `B` of `P` that an
  earlier successor of `P` leads to, and that no path leads to before `P`) every
  vertex is emitted after its admitted successors;
* `Sweep.noShortcut_of_emits` — and when every vertex is emitted after its admitted
  successors, there is no shortcut;
* `Sweep.emits_iff` — so a completed sweep is in post-order exactly when the reached
  part of the graph has neither a cycle nor a shortcut.
-/

namespace Guarded

open Relation

variable {α : Type*} {g : Guarded α} {roots : List α}

/-! ## What a walk knows about the path above it -/

/-- The walk of the siblings `ps` below the open path `hot`, with `done` emitted, is in
step with the order of paths. -/
structure OnPath (g : Guarded α) (roots hot ps : List α) (done : Set α) : Prop where
  path : hot = [] ∨ g.IsPath roots hot
  follows : ∀ p ∈ ps, g.Follows roots hot p
  order : ps.Pairwise (g.Before roots hot)
  single : hot = [] → ps.length ≤ 1
  settled : g.Settled done
  before : ∀ x τ, g.IsPath roots (x :: τ) → g.Precedes roots (x :: τ) hot → x ∈ done
  siblings : ∀ l₁ p l₂, ps = l₁ ++ p :: l₂ → ∀ x, g.Before roots hot x p → g.ok x = true →
    x ∈ done ∨ x ∈ l₁

theorem OnPath.isPath {hot : List α} {v : α} {vs : List α} {done : Set α}
    (h : g.OnPath roots hot (v :: vs) done) (hok : g.ok v = true) : g.IsPath roots (v :: hot) :=
  isPath_cons.2 ⟨h.follows v (List.mem_cons_self ..), hok, h.path⟩

/-- Only below an open vertex has the vertex that is looked at later siblings. -/
theorem OnPath.exists_parent {hot : List α} {v w : α} {vs : List α} {done : Set α}
    (h : g.OnPath roots hot (v :: vs) done) (hw : w ∈ vs) :
    ∃ u ρ, hot = u :: ρ ∧ LastBefore (g.succ u) v w := by
  cases hot with
  | nil =>
    have hlen := h.single rfl
    have hpos := List.length_pos_of_mem hw
    simp only [List.length_cons] at hlen
    omega
  | cons u ρ => exact ⟨u, ρ, rfl, (List.pairwise_cons.1 h.order).1 w hw⟩

/-- What has been emitted is settled again once a vertex follows its successors. -/
theorem Emits.settled_insert {done : Set α} {l : List α} {v : α} (hem : g.Emits done l)
    (hset : g.Settled done)
    (hdone : ∀ w ∈ g.succ v, g.ok w = true → w ∈ done ∪ {x | x ∈ l}) :
    g.Settled (insert v (done ∪ {x | x ∈ l})) := by
  intro x hx y hy hyok
  rcases Set.mem_insert_iff.1 hx with rfl | hx
  · exact Set.mem_insert_of_mem _ (hdone y hy hyok)
  · exact Set.mem_insert_of_mem _ (hem.settled hset x hx y hy hyok)

/-- A path to a pending vertex that parts from the open path early has been walked. -/
theorem OnPath.before_cons {hot : List α} {v : α} {vs : List α} {done : Set α}
    (h : g.OnPath roots hot (v :: vs) done) {x : α} {τ : List α} (hx : g.IsPath roots (x :: τ))
    (hpre : g.Precedes roots (x :: τ) (v :: hot)) : x ∈ done := by
  rcases precedes_cons hpre with ⟨κ, y, heq, hy⟩ | hpre
  · have hyok : g.ok y = true := by
      rw [heq] at hx
      exact (isPath_of_append hx).ok
    have hyd : y ∈ done := by
      rcases h.siblings [] v vs rfl y hy hyok with hd | hd
      · exact hd
      · simp at hd
    cases κ with
    | nil =>
      obtain ⟨rfl, -⟩ := List.cons.inj heq
      exact hyd
    | cons d κ =>
      obtain ⟨rfl, rfl⟩ := List.cons.inj heq
      exact h.settled.reach hyd hx.transGen.to_reflTransGen
  · exact h.before x τ hx hpre

/-- The invariant passes to the remaining siblings. -/
theorem OnPath.next {hot : List α} {v : α} {vs : List α} {done done' : Set α}
    (h : g.OnPath roots hot (v :: vs) done) (hsub : done ⊆ done') (hset : g.Settled done')
    (hv : g.ok v = true → v ∈ done') : g.OnPath roots hot vs done' where
  path := h.path
  follows := fun p hp => h.follows p (List.mem_cons_of_mem _ hp)
  order := (List.pairwise_cons.1 h.order).2
  single := fun hh => by
    have hlen := h.single hh
    simp only [List.length_cons] at hlen
    omega
  settled := hset
  before := fun x τ hx hpre => hsub (h.before x τ hx hpre)
  siblings := by
    rintro l₁ p l₂ rfl x hx hok
    rcases h.siblings (v :: l₁) p l₂ rfl x hx hok with hd | hd
    · exact Or.inl (hsub hd)
    · rcases List.mem_cons.1 hd with rfl | hd
      · exact Or.inl (hv hok)
      · exact Or.inr hd

theorem mem_of_pair_sublist {l₁ l₂ : List α} {x p : α} (hnd : (l₁ ++ p :: l₂).Nodup)
    (h : [x, p].Sublist (l₁ ++ p :: l₂)) : x ∈ l₁ := by
  have hp : p ∉ l₂ := (List.nodup_cons.1 (List.nodup_append.1 hnd).2.1).1
  obtain ⟨s₁, s₂, heq, h₁, h₂⟩ := List.sublist_append_iff.1 h
  cases s₁ with
  | nil =>
    obtain rfl : [x, p] = s₂ := heq
    have hpl : p ∈ l₂ := by
      cases h₂ with
      | cons _ h => exact h.subset (by simp)
      | cons_cons _ h => exact h.subset (by simp)
    exact absurd hpl hp
  | cons d s₁ =>
    obtain ⟨rfl, -⟩ := List.cons.inj heq
    exact h₁.subset (List.mem_cons_self ..)

variable [DecidableEq α]

/-- The invariant passes to the fresh successors of a vertex whose other successors
have been emitted. -/
theorem OnPath.down {hot : List α} {v : α} {vs : List α} {done : Set α}
    (h : g.OnPath roots hot (v :: vs) done) (hok : g.ok v = true) {seen : Finset α}
    (hsucc : ∀ w ∈ g.succ v, g.ok w = true → w ∈ done ∨ w ∉ seen) :
    g.OnPath roots (v :: hot) (g.fresh seen v) done where
  path := Or.inr (h.isPath hok)
  follows := fun p hp => (mem_fresh.1 hp).1
  order := List.pairwise_iff_forall_sublist.2 fun {_ _} hsub =>
    lastBefore_iff_dedup.2 (hsub.trans List.filter_sublist)
  single := fun hh => by simp at hh
  settled := h.settled
  before := fun x τ hx hpre => h.before_cons hx hpre
  siblings := by
    intro l₁ p l₂ heq x hx hxok
    rcases hsucc x (LastBefore.mem_left hx) hxok with hd | hseen
    · exact Or.inl hd
    · refine Or.inr (mem_of_pair_sublist (heq ▸ nodup_fresh seen v) ?_)
      have hp : p ∉ seen := (mem_fresh.1 (heq ▸ List.mem_append_right _ (List.mem_cons_self ..))).2
      have hfil := (lastBefore_iff_dedup.1 hx).filter (· ∉ seen)
      rw [← heq]
      simpa [hseen, hp, fresh] using hfil

/-! ## Without shortcuts the walk emits in post-order -/

/-- `w` waits on the stack as a later sibling of a vertex of the open path. -/
def Waits (g : Guarded α) (hot : List α) (w : α) : Prop :=
  ∃ σ c u ρ, hot = σ ++ c :: u :: ρ ∧ LastBefore (g.succ u) c w

/-- Every admitted mark is accounted for. -/
def Known (g : Guarded α) (hot : List α) (seen : Finset α) (ps : List α) (done : Set α) : Prop :=
  ∀ w ∈ seen, g.ok w = true → w ∈ done ∨ w ∈ hot ∨ w ∈ ps ∨ g.Waits hot w

/-- Without shortcuts, no admitted successor of the vertex that is looked at waits on
the stack. -/
theorem OnPath.succ_done {hot : List α} {v : α} {vs : List α} {done : Set α} {seen : Finset α}
    (h : g.OnPath roots hot (v :: vs) done) (hknown : g.Known hot seen (v :: vs) done)
    (hns : ∀ P, g.NoShortcutAt roots P) (hok : g.ok v = true)
    (hback : g.backEntry hot v = none) :
    ∀ w ∈ g.succ v, g.ok w = true → w ∈ done ∨ w ∉ seen := by
  intro w hw hwok
  by_cases hseen : w ∈ seen
  · left
    have hopen := backEntry_eq_none.1 hback w hw
    have hedge : g.Edge v w := ⟨hok, hw, hwok⟩
    rcases hknown w hseen hwok with hd | hhot | hps | ⟨σ, c, u, ρ, rfl, hcw⟩
    · exact hd
    · exact absurd (List.mem_cons_of_mem _ hhot) hopen
    · rcases List.mem_cons.1 hps with rfl | hvs
      · exact absurd (List.mem_cons_self ..) hopen
      · obtain ⟨u, ρ, rfl, hvw⟩ := h.exists_parent hvs
        obtain ⟨τ, hτ, hpre⟩ := hns u ρ v w (h.path.resolve_left (by simp)) hvw
          (TransGen.single hedge)
        exact h.before w τ hτ hpre
    · have hpath : g.IsPath roots (σ ++ c :: u :: ρ) := h.path.resolve_left (by simp)
      have hcv : TransGen g.Edge c v := (h.isPath hok).transGen
      have hu : g.IsPath roots (u :: ρ) := (isPath_of_append hpath).2
      obtain ⟨τ, hτ, hpre⟩ := hns u ρ c w hu hcw (hcv.tail hedge)
      have hpre' : g.Precedes roots (w :: τ) (σ ++ c :: u :: ρ) := by
        simpa using hpre.append_right (σ ++ [c])
      exact h.before w τ hτ hpre'
  · exact Or.inr hseen

omit [DecidableEq α] in
/-- A vertex that is refused leaves the marks accounted for. -/
theorem Known.skip {hot : List α} {v : α} {vs : List α} {seen : Finset α} {done : Set α}
    (hknown : g.Known hot seen (v :: vs) done) (hok : g.ok v = false) :
    g.Known hot seen vs done := by
  intro w hw hwok
  rcases hknown w hw hwok with hd | hhot | hps | hwait
  · exact Or.inl hd
  · exact Or.inr (Or.inl hhot)
  · have hne : w ≠ v := fun heq => by rw [heq, hok] at hwok; cases hwok
    exact Or.inr (Or.inr (Or.inl ((List.mem_cons.1 hps).resolve_left hne)))
  · exact Or.inr (Or.inr (Or.inr hwait))

/-- Going down to the fresh successors, the later siblings start to wait. -/
theorem Known.down {hot : List α} {v : α} {vs : List α} {seen : Finset α} {done : Set α}
    (hknown : g.Known hot seen (v :: vs) done) (hpath : g.OnPath roots hot (v :: vs) done) :
    g.Known (v :: hot) (g.marked seen v) (g.fresh seen v) done := by
  intro w hw hwok
  by_cases hws : w ∈ seen
  · rcases hknown w hws hwok with hd | hhot | hps | ⟨σ, c, u, ρ, rfl, hcw⟩
    · exact Or.inl hd
    · exact Or.inr (Or.inl (List.mem_cons_of_mem _ hhot))
    · rcases List.mem_cons.1 hps with rfl | hvs
      · exact Or.inr (Or.inl (List.mem_cons_self ..))
      · obtain ⟨u, ρ, rfl, hvw⟩ := hpath.exists_parent hvs
        exact Or.inr (Or.inr (Or.inr ⟨[], v, u, ρ, rfl, hvw⟩))
    · exact Or.inr (Or.inr (Or.inr ⟨v :: σ, c, u, ρ, rfl, hcw⟩))
  · exact Or.inr (Or.inr (Or.inl (mem_fresh.2 ⟨(mem_marked.1 hw).resolve_left hws, hws⟩)))

/-- After the walk below a vertex, its marks are among what has been emitted. -/
theorem Known.next {hot : List α} {v : α} {vs : List α} {seen seen₁ : Finset α}
    {tr₁ : List α} {done : Set α} (hknown : g.Known hot seen (v :: vs) done)
    (h₁ : g.Walk (v :: hot) (g.marked seen v) (g.fresh seen v) seen₁ tr₁) :
    g.Known hot seen₁ vs (insert v (done ∪ {x | x ∈ tr₁.filter g.ok})) := by
  intro w hw hwok
  by_cases hws : w ∈ seen
  · rcases hknown w hws hwok with hd | hhot | hps | hwait
    · exact Or.inl (Set.mem_insert_of_mem _ (Or.inl hd))
    · exact Or.inr (Or.inl hhot)
    · rcases List.mem_cons.1 hps with rfl | hvs
      · exact Or.inl (Set.mem_insert _ _)
      · exact Or.inr (Or.inr (Or.inl hvs))
    · exact Or.inr (Or.inr (Or.inr hwait))
  · have hwtr : w ∈ tr₁ := by
      by_cases hwv : w ∈ g.succ v
      · exact h₁.mem_trace.2 (Or.inl (mem_fresh.2 ⟨hwv, hws⟩))
      · exact h₁.mem_trace.2 (Or.inr ⟨hw, fun hm => (mem_marked.1 hm).elim hws hwv⟩)
    exact Or.inl (Set.mem_insert_of_mem _ (Or.inr (List.mem_filter.2 ⟨hwtr, hwok⟩)))

theorem Walk.emits_of_noShortcut (hns : ∀ P, g.NoShortcutAt roots P) {hot seen ps seen' tr}
    (h : g.Walk hot seen ps seen' tr) :
    ∀ done, g.OnPath roots hot ps done → g.Known hot seen ps done →
      g.Emits done (tr.filter g.ok) := by
  induction h with
  | nil => intro done _ _; exact trivial
  | skip hok _ ih =>
    intro done hpath hknown
    rw [List.filter_cons_of_neg (by simp [hok])]
    refine ih done (hpath.next (fun _ h => h) hpath.settled fun hv => ?_) (hknown.skip hok)
    rw [hok] at hv
    cases hv
  | @node hot seen v vs seen₁ tr₁ seen₂ tr₂ hok hback h₁ _ ih₁ ih₂ =>
    intro done hpath hknown
    have hsucc := hpath.succ_done hknown hns hok hback
    have hem₁ := ih₁ done (hpath.down hok hsucc) (hknown.down hpath)
    have hdone : ∀ w ∈ g.succ v, g.ok w = true → w ∈ done ∪ {x | x ∈ tr₁.filter g.ok} := by
      intro w hw hwok
      rcases hsucc w hw hwok with hd | hws
      · exact Or.inl hd
      · exact Or.inr (List.mem_filter.2 ⟨h₁.mem_trace.2 (Or.inl (mem_fresh.2 ⟨hw, hws⟩)), hwok⟩)
    have hset := hem₁.settled_insert hpath.settled hdone
    rw [List.filter_append, List.filter_cons_of_pos hok, emits_append]
    exact ⟨hem₁, hdone, ih₂ _ (hpath.next (fun x hx => Set.mem_insert_of_mem _ (Or.inl hx)) hset
      fun _ => Set.mem_insert _ _) (hknown.next h₁)⟩

omit [DecidableEq α] in
/-- A root that is not marked yet starts a walk in step with the order of paths. -/
theorem onPath_root {rs₀ rs : List α} {r : α} {seen : Finset α} {done : Set α}
    (hroots : roots = rs₀ ++ r :: rs) (hrs₀ : ∀ x ∈ rs₀, x ∈ seen) (hr : r ∉ seen)
    (hseen : ∀ w ∈ seen, g.ok w = true → w ∈ done) (hset : g.Settled done) :
    g.OnPath roots [] [r] done where
  path := Or.inl rfl
  follows := fun p hp => by
    rw [List.mem_singleton.1 hp]
    change r ∈ roots
    simp [hroots]
  order := List.pairwise_singleton _ _
  single := fun _ => le_refl _
  settled := hset
  before := fun x τ _ hpre => absurd hpre (not_precedes_nil _)
  siblings := by
    intro l₁ p l₂ heq x hx hok
    cases l₁ with
    | cons d l₁ => simp at heq
    | nil =>
      obtain ⟨rfl, -⟩ := List.cons.inj heq
      have hfirst : FirstBefore (rs₀ ++ r :: rs) x r := hroots ▸ hx
      exact Or.inl (hseen x (hrs₀ x (hfirst.mem_of_split fun hm => hr (hrs₀ r hm))) hok)

theorem Walk.seen_done {r : α} {seen seen₁ : Finset α} {tr₁ : List α} {done : Set α}
    (h : g.Walk [] (insert r seen) [r] seen₁ tr₁)
    (hseen : ∀ w ∈ seen, g.ok w = true → w ∈ done) :
    ∀ w ∈ seen₁, g.ok w = true → w ∈ done ∪ {x | x ∈ tr₁.filter g.ok} := by
  intro w hw hwok
  by_cases hws : w ∈ insert r seen
  · rcases Finset.mem_insert.1 hws with rfl | hws
    · exact Or.inr (List.mem_filter.2 ⟨h.mem_trace.2 (Or.inl (List.mem_singleton_self _)), hwok⟩)
    · exact Or.inl (hseen w hws hwok)
  · exact Or.inr (List.mem_filter.2 ⟨h.mem_trace.2 (Or.inr ⟨hw, hws⟩), hwok⟩)

/-- Without shortcuts every vertex is emitted after its admitted successors. -/
theorem Sweep.emits_of_noShortcut (hns : ∀ P, g.NoShortcutAt roots P) {seen rs seen' tr}
    (h : g.Sweep seen rs seen' tr) :
    ∀ rs₀ done, roots = rs₀ ++ rs → (∀ x ∈ rs₀, x ∈ seen) →
      (∀ w ∈ seen, g.ok w = true → w ∈ done) → g.Settled done →
      g.Emits done (tr.filter g.ok) := by
  induction h with
  | nil => intro _ _ _ _ _ _; exact trivial
  | @seen seen r rs seen' tr hr _ ih =>
    intro rs₀ done hroots hrs₀ hseen hset
    exact ih (rs₀ ++ [r]) done (by simp [hroots])
      (List.forall_mem_append.2 ⟨hrs₀, List.forall_mem_singleton.2 hr⟩) hseen hset
  | @start seen r rs seen₁ tr₁ seen₂ tr₂ hr h₁ _ ih =>
    intro rs₀ done hroots hrs₀ hseen hset
    have hknown : g.Known [] (insert r seen) [r] done := by
      intro w hw hwok
      rcases Finset.mem_insert.1 hw with rfl | hw
      · exact Or.inr (Or.inr (Or.inl (List.mem_singleton_self _)))
      · exact Or.inl (hseen w hw hwok)
    have hem₁ := h₁.emits_of_noShortcut hns done (onPath_root hroots hrs₀ hr hseen hset) hknown
    have hmono : insert r seen ⊆ seen₁ := h₁.subset
    have hrs : ∀ x ∈ rs₀ ++ [r], x ∈ seen₁ := List.forall_mem_append.2
      ⟨fun x hx => hmono (Finset.mem_insert_of_mem (hrs₀ x hx)),
        List.forall_mem_singleton.2 (hmono (Finset.mem_insert_self _ _))⟩
    rw [List.filter_append, emits_append]
    exact ⟨hem₁, ih (rs₀ ++ [r]) _ (by simp [hroots]) hrs (h₁.seen_done hseen)
      (hem₁.settled hset)⟩

/-! ## A walk that emits in post-order has met no shortcut -/

/-- The pending siblings are marked and not emitted, and every emitted vertex is the end
of a path that precedes theirs. -/
structure Ahead (g : Guarded α) (roots hot : List α) (seen : Finset α) (ps : List α)
    (done : Set α) : Prop where
  marked : ∀ p ∈ ps, p ∈ seen
  doneMarked : ∀ x ∈ done, x ∈ seen
  pending : ∀ p ∈ ps, p ∉ done
  ahead : ∀ x ∈ done, ∀ p ∈ ps,
    ∃ τ, g.IsPath roots (x :: τ) ∧ g.Precedes roots (x :: τ) (p :: hot)

omit [DecidableEq α] in
theorem not_before_self {hot : List α} {x : α} (h : g.Before roots hot x x) : False := by
  cases hot with
  | nil =>
    obtain ⟨a, b, -, hx, hx'⟩ := h
    exact hx hx'
  | cons u hot =>
    obtain ⟨a, b, -, hx, hx'⟩ := h
    exact hx hx'

/-- Siblings leave the stack in their order. -/
theorem Walk.sublist {hot seen ps seen' tr} (h : g.Walk hot seen ps seen' tr) :
    ps.Sublist tr := by
  induction h with
  | nil => exact List.Sublist.refl _
  | skip _ _ ih => exact ih.cons_cons _
  | node _ _ _ _ _ ih => exact (ih.cons_cons _).trans (List.sublist_append_right _ _)

/-- What is walked below a vertex is reached from it. -/
theorem Walk.reach_of_fresh {hot seen v seen₁ tr₁} (hok : g.ok v = true)
    (h : g.Walk (v :: hot) (g.marked seen v) (g.fresh seen v) seen₁ tr₁) :
    ∀ x ∈ tr₁, g.ok x = true → ReflTransGen g.Edge v x := by
  refine h.forall_trace (S := fun x => g.ok x = true → ReflTransGen g.Edge v x) ?_ ?_
  · exact fun x y hx hxok hy hyok => (hx hxok).tail ⟨hxok, hy, hyok⟩
  · exact fun p hp hpok => ReflTransGen.single ⟨hok, (mem_fresh.1 hp).1, hpok⟩

/-- The shortcut at a vertex whose walk is in post-order is ruled out. -/
theorem OnPath.noShortcutAt {hot : List α} {v : α} {vs : List α} {done : Set α}
    {seen seen₁ : Finset α} {tr₁ : List α} (h : g.OnPath roots hot (v :: vs) done)
    (hahead : g.Ahead roots hot seen (v :: vs) done) (hac : ¬ TransGen g.Edge v v)
    (hok : g.ok v = true)
    (h₁ : g.Walk (v :: hot) (g.marked seen v) (g.fresh seen v) seen₁ tr₁)
    (hnd : tr₁.Nodup) (hem₁ : g.Emits done (tr₁.filter g.ok))
    (hsucc : ∀ w ∈ g.succ v, g.ok w = true → w ∈ done ∨ w ∈ g.fresh seen v) :
    g.NoShortcutAt roots v := by
  intro σ C B hσ hCB hreach
  have hv := h.isPath hok
  have hBok : g.ok B = true := by
    obtain ⟨w, -, hw⟩ := TransGen.tail'_iff.1 hreach
    exact hw.ok_right
  have hCok : g.ok C = true := by
    obtain ⟨w, hw, -⟩ := TransGen.head'_iff.1 hreach
    exact hw.ok_left
  have hBmem : B ∈ g.succ v := by
    obtain ⟨a, b, heq, -, hB⟩ := hCB
    rw [heq]
    exact List.mem_append_right _ (List.mem_cons_of_mem _ hB)
  rcases hv.compare hσ hac with rfl | hpre | hpre
  · by_cases hBd : B ∈ done
    · exact hahead.ahead B hBd v (List.mem_cons_self ..)
    · exfalso
      have hCd : C ∉ done := fun hC => hBd (h.settled.reach hC hreach.to_reflTransGen)
      have hBf := (hsucc B hBmem hBok).resolve_left hBd
      have hCf := (hsucc C (LastBefore.mem_left hCB) hCok).resolve_left hCd
      -- siblings leave the stack in order, so `C` is emitted in front of `B`
      have hpair : [C, B].Sublist (g.fresh seen v) := by
        have hfil := (lastBefore_iff_dedup.1 hCB).filter (· ∉ seen)
        simpa [fresh, (mem_fresh.1 hBf).2, (mem_fresh.1 hCf).2] using hfil
      have hpair' : [C, B].Sublist (tr₁.filter g.ok) := by
        have hfil := (hpair.trans h₁.sublist).filter g.ok
        simpa [hCok, hBok] using hfil
      obtain ⟨a, b, heq, hC, hB⟩ := List.cons_sublist_iff.1 hpair'
      obtain ⟨a₁, a₂, rfl⟩ := List.append_of_mem hC
      rw [heq, List.append_assoc, List.cons_append] at hem₁
      rcases hem₁.transGen h.settled hreach with hd | ha
      · exact hBd hd
      · have hnd' := hnd.filter g.ok
        rw [heq] at hnd'
        exact (List.disjoint_of_nodup_append hnd') (List.mem_append_left _ ha)
          (List.singleton_sublist.1 hB)
  · refine ⟨v :: hot, ⟨⟨hok, hBmem, hBok⟩, hv⟩, ?_⟩
    exact hpre.append_left [B]
  · exact absurd (h.before_cons hσ hpre) (hahead.pending v (List.mem_cons_self ..))

omit [DecidableEq α] in
/-- A vertex that is refused leaves the others ahead. -/
theorem Ahead.skip {hot : List α} {v : α} {vs : List α} {seen : Finset α} {done : Set α}
    (h : g.Ahead roots hot seen (v :: vs) done) : g.Ahead roots hot seen vs done where
  marked := fun p hp => h.marked p (List.mem_cons_of_mem _ hp)
  doneMarked := h.doneMarked
  pending := fun p hp => h.pending p (List.mem_cons_of_mem _ hp)
  ahead := fun y hy p hp => h.ahead y hy p (List.mem_cons_of_mem _ hp)

/-- What precedes a vertex precedes the paths to its fresh successors. -/
theorem Ahead.down {hot : List α} {v : α} {vs : List α} {seen : Finset α} {done : Set α}
    (h : g.Ahead roots hot seen (v :: vs) done) :
    g.Ahead roots (v :: hot) (g.marked seen v) (g.fresh seen v) done where
  marked := fun p hp => mem_marked.2 (Or.inr (mem_fresh.1 hp).1)
  doneMarked := fun y hy => subset_marked seen v (h.doneMarked y hy)
  pending := fun p hp hpd => (mem_fresh.1 hp).2 (h.doneMarked p hpd)
  ahead := fun y hy p _ => by
    obtain ⟨τ, hτ, hpre⟩ := h.ahead y hy v (List.mem_cons_self ..)
    exact ⟨τ, hτ, hpre.append_right [p]⟩

/-- What is reached below a vertex precedes the paths to its later siblings. -/
theorem Ahead.next {hot : List α} {v : α} {vs : List α} {seen seen₁ : Finset α}
    {tr₁ : List α} {done : Set α} (h : g.Ahead roots hot seen (v :: vs) done)
    (hpath : g.OnPath roots hot (v :: vs) done) (hok : g.ok v = true)
    (h₁ : g.Walk (v :: hot) (g.marked seen v) (g.fresh seen v) seen₁ tr₁) :
    g.Ahead roots hot seen₁ vs (insert v (done ∪ {x | x ∈ tr₁.filter g.ok})) where
  marked := fun p hp => (subset_marked seen v).trans h₁.subset (h.skip.marked p hp)
  doneMarked := by
    intro y hy
    rcases Set.mem_insert_iff.1 hy with rfl | hy | hy
    · exact (subset_marked seen y).trans h₁.subset (h.marked y (List.mem_cons_self ..))
    · exact (subset_marked seen v).trans h₁.subset (h.doneMarked y hy)
    · rcases h₁.mem_trace.1 (List.mem_filter.1 hy).1 with hf | ⟨hs, -⟩
      · exact h₁.subset (mem_marked.2 (Or.inr (mem_fresh.1 hf).1))
      · exact hs
  pending := by
    intro p hp hpd
    rcases Set.mem_insert_iff.1 hpd with rfl | hpd | hpd
    · exact not_before_self ((List.pairwise_cons.1 hpath.order).1 p hp)
    · exact h.skip.pending p hp hpd
    · have hseen := h.skip.marked p hp
      rcases h₁.mem_trace.1 (List.mem_filter.1 hpd).1 with hf | ⟨-, hnot⟩
      · exact (mem_fresh.1 hf).2 hseen
      · exact hnot (subset_marked _ _ hseen)
  ahead := by
    intro y hy p hp
    have hvp := (List.pairwise_cons.1 hpath.order).1 p hp
    have hbelow : ReflTransGen g.Edge v y →
        ∃ τ, g.IsPath roots (y :: τ) ∧ g.Precedes roots (y :: τ) (p :: hot) := by
      intro hvy
      obtain ⟨σ, κ, hσ, heq⟩ := (hpath.isPath hok).extend hvy
      exact ⟨σ, hσ, hot, v, p, κ, [], heq, rfl, hvp⟩
    rcases Set.mem_insert_iff.1 hy with rfl | hy | hy
    · exact hbelow ReflTransGen.refl
    · exact h.skip.ahead y hy p hp
    · obtain ⟨hy₁, hyok⟩ := List.mem_filter.1 hy
      exact hbelow (h₁.reach_of_fresh hok y hy₁ hyok)

theorem Walk.noShortcut_of_emits (hac : ∀ v, g.ReachedFrom roots v → ¬ TransGen g.Edge v v)
    {hot seen ps seen' tr} (h : g.Walk hot seen ps seen' tr) :
    ∀ done, g.OnPath roots hot ps done → g.Ahead roots hot seen ps done → tr.Nodup →
      g.Emits done (tr.filter g.ok) → ∀ x ∈ tr.filter g.ok, g.NoShortcutAt roots x := by
  induction h with
  | nil => intro _ _ _ _ _ x hx; simp at hx
  | skip hok _ ih =>
    intro done hpath hahead hnd hem x hx
    rw [List.filter_cons_of_neg (by simp [hok])] at hem hx
    refine ih done (hpath.next (fun _ h => h) hpath.settled fun hv => ?_) hahead.skip
      (List.nodup_cons.1 hnd).2 hem x hx
    rw [hok] at hv
    cases hv
  | @node hot seen v vs seen₁ tr₁ seen₂ tr₂ hok hback h₁ _ ih₁ ih₂ =>
    intro done hpath hahead hnd hem x hx
    rw [List.filter_append, List.filter_cons_of_pos hok, emits_append] at hem
    obtain ⟨hem₁, hdone, hem₂⟩ := hem
    obtain ⟨hnd₁, hnd₂, -⟩ := List.nodup_append.1 hnd
    -- a successor that follows `v` out of the walk was emitted before or is fresh
    have hsucc : ∀ w ∈ g.succ v, g.ok w = true → w ∈ done ∨ w ∈ g.fresh seen v := by
      intro w hw hwok
      rcases hdone w hw hwok with hd | hw₁
      · exact Or.inl hd
      · rcases h₁.mem_trace.1 (List.mem_filter.1 hw₁).1 with hf | ⟨-, hnot⟩
        · exact Or.inr hf
        · exact absurd (mem_marked.2 (Or.inr hw)) hnot
    rw [List.filter_append, List.filter_cons_of_pos hok, List.mem_append, List.mem_cons] at hx
    rcases hx with hx | rfl | hx
    · exact ih₁ done (hpath.down hok fun w hw hwok =>
        (hsucc w hw hwok).imp id fun hf => (mem_fresh.1 hf).2) hahead.down hnd₁ hem₁ x hx
    · exact hpath.noShortcutAt hahead (hac x (hpath.isPath hok).reachedFrom) hok h₁ hnd₁ hem₁
        hsucc
    · exact ih₂ _ (hpath.next (fun y hy => Set.mem_insert_of_mem _ (Or.inl hy))
        (hem₁.settled_insert hpath.settled hdone) fun _ => Set.mem_insert _ _)
        (hahead.next hpath hok h₁) (List.nodup_cons.1 hnd₂).2 hem₂ x hx

theorem Sweep.noShortcut_of_emits (hac : ∀ v, g.ReachedFrom roots v → ¬ TransGen g.Edge v v)
    {seen rs seen' tr} (h : g.Sweep seen rs seen' tr) :
    ∀ rs₀ done, roots = rs₀ ++ rs → (∀ x ∈ rs₀, x ∈ seen) →
      (∀ w ∈ seen, g.ok w = true → w ∈ done) → (∀ x ∈ done, x ∈ seen ∧ g.ReachedFrom rs₀ x) →
      g.Settled done → tr.Nodup → g.Emits done (tr.filter g.ok) →
      ∀ x ∈ tr.filter g.ok, g.NoShortcutAt roots x := by
  have hgrow : ∀ {rs₀ : List α} {r y : α}, g.ReachedFrom rs₀ y → g.ReachedFrom (rs₀ ++ [r]) y :=
    fun ⟨p, hp, hpok, hpy⟩ => ⟨p, List.mem_append_left _ hp, hpok, hpy⟩
  induction h with
  | nil => intro _ _ _ _ _ _ _ _ _ x hx; simp at hx
  | @seen seen r rs seen' tr hr _ ih =>
    intro rs₀ done hroots hrs₀ hseen hdone hset hnd hem
    exact ih (rs₀ ++ [r]) done (by simp [hroots])
      (List.forall_mem_append.2 ⟨hrs₀, List.forall_mem_singleton.2 hr⟩) hseen
      (fun x hx => ⟨(hdone x hx).1, hgrow (hdone x hx).2⟩) hset hnd hem
  | @start seen r rs seen₁ tr₁ seen₂ tr₂ hr h₁ _ ih =>
    intro rs₀ done hroots hrs₀ hseen hdone hset hnd hem x hx
    rw [List.filter_append, emits_append] at hem
    obtain ⟨hnd₁, hnd₂, -⟩ := List.nodup_append.1 hnd
    have hmono : insert r seen ⊆ seen₁ := h₁.subset
    have hahead : g.Ahead roots [] (insert r seen) [r] done := by
      refine ⟨fun p hp => List.mem_singleton.1 hp ▸ Finset.mem_insert_self _ _,
        fun y hy => Finset.mem_insert_of_mem (hdone y hy).1,
        fun p hp hpd => hr (List.mem_singleton.1 hp ▸ (hdone p hpd).1), ?_⟩
      intro y hy p hp
      rw [List.mem_singleton.1 hp]
      obtain ⟨r₀, hr₀, hr₀ok, hr₀y⟩ := (hdone y hy).2
      have hroot : g.IsPath roots [r₀] := ⟨by simp [hroots, hr₀], hr₀ok⟩
      obtain ⟨σ, κ, hσ, heq⟩ := hroot.extend hr₀y
      exact ⟨σ, hσ, [], r₀, r, κ, [], heq, rfl, rs₀, rs, hroots, fun hm => hr (hrs₀ r hm), hr₀⟩
    rw [List.filter_append, List.mem_append] at hx
    rcases hx with hx | hx
    · exact h₁.noShortcut_of_emits hac done (onPath_root hroots hrs₀ hr hseen hset) hahead hnd₁
        hem.1 x hx
    · have hrs : ∀ y ∈ rs₀ ++ [r], y ∈ seen₁ := List.forall_mem_append.2
        ⟨fun y hy => hmono (Finset.mem_insert_of_mem (hrs₀ y hy)),
          List.forall_mem_singleton.2 (hmono (Finset.mem_insert_self _ _))⟩
      refine ih (rs₀ ++ [r]) _ (by simp [hroots]) hrs (h₁.seen_done hseen) ?_
        (hem.1.settled hset) hnd₂ hem.2 x hx
      · rintro y (hy | hy)
        · exact ⟨hmono (Finset.mem_insert_of_mem (hdone y hy).1), hgrow (hdone y hy).2⟩
        · obtain ⟨hy₁, hyok⟩ := List.mem_filter.1 hy
          refine ⟨?_, ?_⟩
          · rcases h₁.mem_trace.1 hy₁ with hm | ⟨hm, -⟩
            · exact hmono (List.mem_singleton.1 hm ▸ Finset.mem_insert_self _ _)
            · exact hm
          · refine h₁.forall_trace (S := fun y => g.ok y = true → g.ReachedFrom (rs₀ ++ [r]) y)
              ?_ ?_ y hy₁ hyok
            · exact fun u w hu huok hw hwok => (hu huok).succ hw hwok
            · exact fun p hp hpok =>
                reachedFrom_root (by simp [List.mem_singleton.1 hp]) hpok

/-! ## The two together -/

/-- A completed sweep emits every vertex after its admitted successors exactly when the
reached part of the graph has neither a cycle nor a shortcut. -/
theorem Sweep.emits_iff {seen' tr} (h : g.Sweep ∅ roots seen' tr) :
    g.Emits ∅ (tr.filter g.ok) ↔ ¬ g.HasCycleFrom roots ∧ ∀ P, g.NoShortcutAt roots P := by
  have hset : g.Settled (∅ : Set α) := fun x hx => absurd hx (Set.notMem_empty x)
  constructor
  · intro hem
    have hcycle : ∀ v, g.ReachedFrom roots v → ¬ TransGen g.Edge v v := by
      intro v hv hvv
      have hnd := h.nodup.filter g.ok
      obtain ⟨a, b, heq⟩ := List.append_of_mem (h.mem_emitted_iff.2 hv)
      rw [heq] at hem hnd
      rcases hem.transGen hset hvv with hd | ha
      · exact Set.notMem_empty v hd
      · exact (List.disjoint_of_nodup_append hnd) ha (List.mem_cons_self ..)
    refine ⟨fun ⟨v, hv, hvv⟩ => hcycle v hv hvv, ?_⟩
    intro P π C B hP
    have hPem := h.mem_emitted_iff.2 hP.reachedFrom
    exact h.noShortcut_of_emits hcycle [] ∅ rfl (by simp) (by simp)
      (fun x hx => absurd hx (Set.notMem_empty x)) hset h.nodup hem P hPem π C B hP
  · rintro ⟨-, hns⟩
    exact h.emits_of_noShortcut hns [] ∅ rfl (by simp) (by simp) hset

end Guarded
