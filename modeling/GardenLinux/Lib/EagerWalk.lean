import GardenLinux.Lib.Reach

/-!
# The eager-marking walk

A depth-first traversal that marks a vertex when it is put on the stack, not when
it is taken from it.  `Walk` describes by recursion what such a traversal does
with a row of pending siblings below a path of open vertices (the "hot" ones),
`Loops` describes a traversal that is cut short because a vertex lists an open
one, and `Sweep` / `SweepLoops` string the traversals of several roots together
over one set of marks.  A run is recorded by its trace, the vertices in the order
in which they leave the stack; those that pass the guard are the emitted ones.

What is proved here:

* `Walk.account` and `Walk.closed` — every vertex leaves the stack once, and the
  successors of an emitted vertex are all marked;
* `walk_or_loops` and `sweep_or_loops` — on a finite graph one of the two happens;
* `Sweep.nodup`, `Sweep.mem_trace_iff` — the trace of a completed sweep lists,
  each once, the reached vertices and the refused vertices next to them;
* `Loops.hasCycle` — a reported loop is one.
-/

namespace Guarded

open Relation

variable {α : Type*} [DecidableEq α] (g : Guarded α)

/-! ## One vertex -/

/-- The unmarked successors of `v`, in the order in which they are taken from the
stack; a successor listed twice counts where it is listed last. -/
def fresh (seen : Finset α) (v : α) : List α :=
  (g.succ v).dedup.filter (· ∉ seen)

/-- The marks once the successors of `v` have been put on the stack. -/
def marked (seen : Finset α) (v : α) : Finset α :=
  seen ∪ (g.fresh seen v).toFinset

/-- The successor of `v` that is found open when `v` is looked at below the path
`hot`: the last one in its list. -/
def backEntry (hot : List α) (v : α) : Option α :=
  (g.succ v).reverse.find? (· ∈ v :: hot)

variable {g}

theorem mem_fresh {seen : Finset α} {v w : α} :
    w ∈ g.fresh seen v ↔ w ∈ g.succ v ∧ w ∉ seen := by
  simp [fresh]

theorem nodup_fresh (seen : Finset α) (v : α) : (g.fresh seen v).Nodup :=
  (List.nodup_dedup _).filter _

theorem mem_marked {seen : Finset α} {v w : α} :
    w ∈ g.marked seen v ↔ w ∈ seen ∨ w ∈ g.succ v := by
  rw [marked, Finset.mem_union, List.mem_toFinset, mem_fresh]
  tauto

theorem subset_marked (seen : Finset α) (v : α) : seen ⊆ g.marked seen v :=
  Finset.subset_union_left

theorem backEntry_eq_none {hot : List α} {v : α} :
    g.backEntry hot v = none ↔ ∀ w ∈ g.succ v, w ∉ v :: hot := by
  simp [backEntry]

theorem backEntry_eq_some {hot : List α} {v w : α} (h : g.backEntry hot v = some w) :
    w ∈ g.succ v ∧ w ∈ v :: hot := by
  refine ⟨by simpa using List.mem_of_find?_eq_some h, ?_⟩
  simpa using List.find?_some h

/-! ## The walk below one path -/

variable (g)

/-- `Walk hot seen pending seen' trace`: with the path `hot` open, the pending
siblings are walked to the end, the marks grow from `seen` to `seen'`, and
`trace` lists the vertices in the order in which they left the stack. -/
inductive Walk : List α → Finset α → List α → Finset α → List α → Prop
  | nil (hot seen) : Walk hot seen [] seen []
  | skip {hot seen v vs seen' tr} : g.ok v = false →
      Walk hot seen vs seen' tr → Walk hot seen (v :: vs) seen' (v :: tr)
  | node {hot seen v vs seen₁ tr₁ seen₂ tr₂} : g.ok v = true → g.backEntry hot v = none →
      Walk (v :: hot) (g.marked seen v) (g.fresh seen v) seen₁ tr₁ →
      Walk hot seen₁ vs seen₂ tr₂ →
      Walk hot seen (v :: vs) seen₂ (tr₁ ++ v :: tr₂)

/-- `Loops hot seen pending w`: walking the pending siblings is cut short because
some vertex lists the open vertex `w`. -/
inductive Loops : List α → Finset α → List α → α → Prop
  | here {hot seen v vs w} : g.ok v = true → g.backEntry hot v = some w →
      Loops hot seen (v :: vs) w
  | down {hot seen v vs w} : g.ok v = true → g.backEntry hot v = none →
      Loops (v :: hot) (g.marked seen v) (g.fresh seen v) w → Loops hot seen (v :: vs) w
  | skip {hot seen v vs w} : g.ok v = false →
      Loops hot seen vs w → Loops hot seen (v :: vs) w
  | next {hot seen v vs w seen₁ tr₁} : g.ok v = true → g.backEntry hot v = none →
      Walk g (v :: hot) (g.marked seen v) (g.fresh seen v) seen₁ tr₁ →
      Loops hot seen₁ vs w → Loops hot seen (v :: vs) w

variable {g}

theorem Walk.subset {hot seen ps seen' tr} (h : g.Walk hot seen ps seen' tr) : seen ⊆ seen' := by
  induction h with
  | nil => exact Finset.Subset.refl _
  | skip _ _ ih => exact ih
  | node _ _ _ _ ih₁ ih₂ => exact ((subset_marked _ _).trans ih₁).trans ih₂

theorem sdiff_val_add {a b c : Finset α} (hab : a ⊆ b) (hbc : b ⊆ c) :
    (b \ a).val + (c \ b).val = (c \ a).val := by
  have hd : Disjoint (b \ a) (c \ b) :=
    Finset.disjoint_left.2 fun x hx hx' => (Finset.mem_sdiff.1 hx').2 (Finset.mem_sdiff.1 hx).1
  have hu : (b \ a) ∪ (c \ b) = c \ a := by
    ext x
    have h1 : x ∈ a → x ∈ b := fun hx => hab hx
    have h2 : x ∈ b → x ∈ c := fun hx => hbc hx
    simp only [Finset.mem_union, Finset.mem_sdiff]
    tauto
  rw [← hu, ← Finset.disjUnion_eq_union _ _ hd, Finset.disjUnion_val]

/-- Accounting: what leaves the stack is what was pending and what was marked on
the way, each once. -/
theorem Walk.account {hot seen ps seen' tr} (h : g.Walk hot seen ps seen' tr) :
    (tr : Multiset α) = (ps : Multiset α) + ( seen' \ seen).val := by
  induction h with
  | nil => simp
  | skip _ _ ih =>
    rw [← Multiset.cons_coe, ih, ← Multiset.cons_coe, Multiset.cons_add]
  | @node hot seen v vs seen₁ tr₁ seen₂ tr₂ _ _ h₁ h₂ ih₁ ih₂ =>
    have hF : (g.fresh seen v : Multiset α) = (g.marked seen v \ seen).val := by
      have hset : (g.fresh seen v).toFinset = g.marked seen v \ seen := by
        ext x
        simp only [List.mem_toFinset, mem_fresh, Finset.mem_sdiff, mem_marked]
        tauto
      rw [← hset, List.toFinset_val, (nodup_fresh seen v).dedup]
    have hsub := h₁.subset
    have hseen : seen ⊆ seen₁ := (subset_marked seen v).trans hsub
    calc ((tr₁ ++ v :: tr₂ : List α) : Multiset α)
        = (tr₁ : Multiset α) + (v ::ₘ (tr₂ : Multiset α)) := by
          rw [Multiset.cons_coe, Multiset.coe_add]
      _ = ((g.marked seen v \ seen).val + (seen₁ \ g.marked seen v).val)
            + (v ::ₘ ((vs : Multiset α) + (seen₂ \ seen₁).val)) := by rw [ih₁, ih₂, hF]
      _ = (seen₁ \ seen).val + (v ::ₘ ((vs : Multiset α) + (seen₂ \ seen₁).val)) := by
          rw [sdiff_val_add (subset_marked seen v) hsub]
      _ = (v ::ₘ (vs : Multiset α)) + ((seen₁ \ seen).val + (seen₂ \ seen₁).val) := by
          rw [← Multiset.cons_add, ← add_assoc, ← add_assoc, add_comm (seen₁ \ seen).val]
      _ = ((v :: vs : List α) : Multiset α) + (seen₂ \ seen).val := by
          rw [sdiff_val_add hseen h₂.subset, Multiset.cons_coe]

theorem Walk.mem_trace {hot seen ps seen' tr} (h : g.Walk hot seen ps seen' tr) {x : α} :
    x ∈ tr ↔ x ∈ ps ∨ (x ∈ seen' ∧ x ∉ seen) := by
  have hm : x ∈ (tr : Multiset α) ↔ x ∈ (ps : Multiset α) + ( seen' \ seen).val := by
    rw [h.account]
  simpa only [Multiset.mem_coe, Multiset.mem_add, Finset.mem_val, Finset.mem_sdiff] using hm

/-- The successors of an emitted vertex are marked, and none of them was open. -/
theorem Walk.closed {hot seen ps seen' tr} (h : g.Walk hot seen ps seen' tr) :
    ∀ x ∈ tr, g.ok x = true → ∀ y ∈ g.succ x, y ∈ seen' ∧ y ∉ hot := by
  induction h with
  | nil => intro x hx; simp at hx
  | skip hv _ ih =>
    intro x hx hok y hy
    rcases List.mem_cons.1 hx with rfl | hx
    · rw [hv] at hok; cases hok
    · exact ih x hx hok y hy
  | node _ hback h₁ h₂ ih₁ ih₂ =>
    intro x hx hok y hy
    rcases List.mem_append.1 hx with hx | hx
    · obtain ⟨hseen, hhot⟩ := ih₁ x hx hok y hy
      exact ⟨h₂.subset hseen, fun hmem => hhot (List.mem_cons_of_mem _ hmem)⟩
    · rcases List.mem_cons.1 hx with rfl | hx
      · refine ⟨h₂.subset (h₁.subset (mem_marked.2 (Or.inr hy))), fun hmem => ?_⟩
        exact backEntry_eq_none.1 hback y hy (List.mem_cons_of_mem _ hmem)
      · exact ih₂ x hx hok y hy

/-- A property of the pending vertices that passes from a vertex inside the guard to
its successors holds of everything that leaves the stack. -/
theorem Walk.forall_trace {S : α → Prop}
    (hS : ∀ x y, S x → g.ok x = true → y ∈ g.succ x → S y)
    {hot seen ps seen' tr} (h : g.Walk hot seen ps seen' tr) :
    (∀ p ∈ ps, S p) → ∀ x ∈ tr, S x := by
  induction h with
  | nil => intro _ x hx; simp at hx
  | skip _ _ ih =>
    intro hps x hx
    rcases List.mem_cons.1 hx with rfl | hx
    · exact hps x (List.mem_cons_self ..)
    · exact ih (fun p hp => hps p (List.mem_cons_of_mem _ hp)) x hx
  | @node hot seen v vs seen₁ tr₁ seen₂ tr₂ hok _ _ _ ih₁ ih₂ =>
    intro hps x hx
    have hv : S v := hps v (List.mem_cons_self ..)
    rcases List.mem_append.1 hx with hx | hx
    · exact ih₁ (fun p hp => hS v p hv hok (mem_fresh.1 hp).1) x hx
    · rcases List.mem_cons.1 hx with rfl | hx
      · exact hv
      · exact ih₂ (fun p hp => hps p (List.mem_cons_of_mem _ hp)) x hx

/-! ## Every walk ends -/

/-- Marking a child that was not marked before leaves less of the universe unmarked. -/
theorem card_sdiff_marked_lt {U seen : Finset α} {v c : α} (hcU : c ∈ U)
    (hc : c ∈ g.fresh seen v) : (U \ g.marked seen v).card < (U \ seen).card := by
  refine Finset.card_lt_card (Finset.ssubset_iff_subset_ne.2 ⟨?_, ?_⟩)
  · exact Finset.sdiff_subset_sdiff (Finset.Subset.refl _) (subset_marked _ _)
  · intro heq
    have hmem : c ∈ U \ seen := Finset.mem_sdiff.2 ⟨hcU, (mem_fresh.1 hc).2⟩
    rw [← heq] at hmem
    exact (Finset.mem_sdiff.1 hmem).2 (mem_marked.2 (Or.inr (mem_fresh.1 hc).1))

/-- A walk leaves no more of the universe unmarked than there was before it. -/
theorem Walk.card_sdiff_le {U : Finset α} {hot seen ps seen' tr}
    (h : g.Walk hot seen ps seen' tr) : (U \ seen').card ≤ (U \ seen).card :=
  Finset.card_le_card (Finset.sdiff_subset_sdiff (Finset.Subset.refl _) h.subset)

/-- On a finite graph the pending siblings are either walked to the end or a loop
cuts the walk short. -/
theorem walk_or_loops {U : Finset α} (hU : ∀ u ∈ U, ∀ w ∈ g.succ u, w ∈ U) :
    ∀ (hot : List α) (seen : Finset α) (ps : List α), (∀ p ∈ ps, p ∈ U) →
      (∃ seen' tr, g.Walk hot seen ps seen' tr) ∨ ∃ w, g.Loops hot seen ps w := by
  -- the unmarked part of the universe shrinks on the way down, the row of siblings on the way right
  suffices key : ∀ (n m : ℕ) (hot : List α) (seen : Finset α) (ps : List α),
      (U \ seen).card = n → ps.length = m → (∀ p ∈ ps, p ∈ U) →
      (∃ seen' tr, g.Walk hot seen ps seen' tr) ∨ ∃ w, g.Loops hot seen ps w from
    fun hot seen ps hps => key _ _ hot seen ps rfl rfl hps
  intro n
  induction n using Nat.strong_induction_on with
  | _ n ihn =>
    intro m
    induction m using Nat.strong_induction_on generalizing n with
    | _ m ihm =>
      intro hot seen ps hn hm hps
      cases ps with
      | nil => exact Or.inl ⟨seen, [], Walk.nil hot seen⟩
      | cons v vs =>
        have hvU : v ∈ U := hps v (List.mem_cons_self ..)
        have hvs : ∀ p ∈ vs, p ∈ U := fun p hp => hps p (List.mem_cons_of_mem _ hp)
        have hlen : vs.length < m := by rw [← hm]; simp
        cases hok : g.ok v with
        | false =>
          rcases ihm _ hlen n ihn hot seen vs hn rfl hvs with ⟨seen', tr, h⟩ | ⟨w, h⟩
          · exact Or.inl ⟨seen', v :: tr, Walk.skip hok h⟩
          · exact Or.inr ⟨w, Loops.skip hok h⟩
        | true =>
          cases hback : g.backEntry hot v with
          | some w => exact Or.inr ⟨w, Loops.here hok hback⟩
          | none =>
            have hdown : (∃ seen' tr, g.Walk (v :: hot) (g.marked seen v) (g.fresh seen v) seen' tr) ∨
                ∃ w, g.Loops (v :: hot) (g.marked seen v) (g.fresh seen v) w := by
              cases hf : g.fresh seen v with
              | nil => exact Or.inl ⟨_, [], Walk.nil _ _⟩
              | cons c cs =>
                have hc : c ∈ g.fresh seen v := by rw [hf]; exact List.mem_cons_self ..
                have hfU : ∀ p ∈ g.fresh seen v, p ∈ U := fun p hp => hU v hvU p (mem_fresh.1 hp).1
                have hlt : (U \ g.marked seen v).card < n := by
                  rw [← hn]
                  exact card_sdiff_marked_lt (hfU c hc) hc
                rw [← hf]
                exact ihn _ hlt _ (v :: hot) _ _ rfl rfl hfU
            rcases hdown with ⟨seen₁, tr₁, h₁⟩ | ⟨w, h₁⟩
            · have hle : (U \ seen₁).card ≤ n := by
                have hmark : (U \ g.marked seen v).card ≤ (U \ seen).card :=
                  Finset.card_le_card (Finset.sdiff_subset_sdiff (Finset.Subset.refl _)
                    (subset_marked seen v))
                rw [← hn]
                exact h₁.card_sdiff_le.trans hmark
              have hright : (∃ seen' tr, g.Walk hot seen₁ vs seen' tr) ∨
                  ∃ w, g.Loops hot seen₁ vs w := by
                rcases Nat.lt_or_ge (U \ seen₁).card n with hlt | hge
                · exact ihn _ hlt _ hot seen₁ vs rfl rfl hvs
                · exact ihm _ hlen n ihn hot seen₁ vs (le_antisymm hle hge) rfl hvs
              rcases hright with ⟨seen₂, tr₂, h₂⟩ | ⟨w, h₂⟩
              · exact Or.inl ⟨seen₂, _, Walk.node hok hback h₁ h₂⟩
              · exact Or.inr ⟨w, Loops.next hok hback h₁ h₂⟩
            · exact Or.inr ⟨w, Loops.down hok hback h₁⟩

/-! ## Sweeps over several roots -/

variable (g)

/-- `Sweep seen roots seen' trace`: the traversals of the roots, one after the other
over the same marks; a root that is marked already is passed over. -/
inductive Sweep : Finset α → List α → Finset α → List α → Prop
  | nil (seen) : Sweep seen [] seen []
  | seen {seen r rs seen' tr} : r ∈ seen → Sweep seen rs seen' tr → Sweep seen (r :: rs) seen' tr
  | start {seen r rs seen₁ tr₁ seen₂ tr₂} : r ∉ seen →
      g.Walk [] (insert r seen) [r] seen₁ tr₁ → Sweep seen₁ rs seen₂ tr₂ →
      Sweep seen (r :: rs) seen₂ (tr₁ ++ tr₂)

/-- `SweepLoops seen roots w`: one of the traversals is cut short by a loop at `w`. -/
inductive SweepLoops : Finset α → List α → α → Prop
  | here {seen r rs w} : r ∉ seen → g.Loops [] (insert r seen) [r] w → SweepLoops seen (r :: rs) w
  | seen {seen r rs w} : r ∈ seen → SweepLoops seen rs w → SweepLoops seen (r :: rs) w
  | next {seen r rs w seen₁ tr₁} : r ∉ seen → g.Walk [] (insert r seen) [r] seen₁ tr₁ →
      SweepLoops seen₁ rs w → SweepLoops seen (r :: rs) w

variable {g}

theorem sweep_or_loops {U : Finset α} (hU : ∀ u ∈ U, ∀ w ∈ g.succ u, w ∈ U) (roots : List α)
    (hroots : ∀ r ∈ roots, r ∈ U) (seen : Finset α) :
    (∃ seen' tr, g.Sweep seen roots seen' tr) ∨ ∃ w, g.SweepLoops seen roots w := by
  induction roots generalizing seen with
  | nil => exact Or.inl ⟨seen, [], Sweep.nil seen⟩
  | cons r rs ih =>
    have hrs : ∀ x ∈ rs, x ∈ U := fun x hx => hroots x (List.mem_cons_of_mem _ hx)
    by_cases hr : r ∈ seen
    · rcases ih hrs seen with ⟨seen', tr, h⟩ | ⟨w, h⟩
      · exact Or.inl ⟨seen', tr, Sweep.seen hr h⟩
      · exact Or.inr ⟨w, SweepLoops.seen hr h⟩
    · have hrU : ∀ p ∈ [r], p ∈ U := fun p hp =>
        List.mem_singleton.1 hp ▸ hroots r (List.mem_cons_self ..)
      rcases walk_or_loops hU [] (insert r seen) [r] hrU with ⟨seen₁, tr₁, h₁⟩ | ⟨w, h₁⟩
      · rcases ih hrs seen₁ with ⟨seen', tr, h⟩ | ⟨w, h⟩
        · exact Or.inl ⟨seen', _, Sweep.start hr h₁ h⟩
        · exact Or.inr ⟨w, SweepLoops.next hr h₁ h⟩
      · exact Or.inr ⟨w, SweepLoops.here hr h₁⟩

theorem Sweep.subset {seen roots seen' tr} (h : g.Sweep seen roots seen' tr) : seen ⊆ seen' := by
  induction h with
  | nil => exact Finset.Subset.refl _
  | seen _ _ ih => exact ih
  | start _ h₁ _ ih => exact ((Finset.subset_insert _ _).trans h₁.subset).trans ih

theorem Sweep.roots_subset {seen roots seen' tr} (h : g.Sweep seen roots seen' tr) :
    ∀ r ∈ roots, r ∈ seen' := by
  induction h with
  | nil => intro r hr; simp at hr
  | seen hr h ih =>
    intro x hx
    rcases List.mem_cons.1 hx with rfl | hx
    · exact h.subset hr
    · exact ih x hx
  | start _ h₁ h₂ ih =>
    intro x hx
    rcases List.mem_cons.1 hx with rfl | hx
    · exact h₂.subset (h₁.subset (Finset.mem_insert_self _ _))
    · exact ih x hx

/-- Everything newly marked leaves the stack, each once. -/
theorem Sweep.account {seen roots seen' tr} (h : g.Sweep seen roots seen' tr) :
    (tr : Multiset α) = ( seen' \ seen).val := by
  induction h with
  | nil => simp
  | seen _ _ ih => exact ih
  | @start seen r rs seen₁ tr₁ seen₂ tr₂ hr h₁ h₂ ih =>
    have hone : ({r} : Finset α) = insert r seen \ seen := by
      ext x
      simp only [Finset.mem_singleton, Finset.mem_sdiff, Finset.mem_insert]
      constructor
      · rintro rfl
        exact ⟨Or.inl rfl, hr⟩
      · rintro ⟨hx, hnot⟩
        exact hx.resolve_right hnot
    have hseen : seen ⊆ seen₁ := (Finset.subset_insert _ _).trans h₁.subset
    calc ((tr₁ ++ tr₂ : List α) : Multiset α)
        = (tr₁ : Multiset α) + (tr₂ : Multiset α) := by rw [Multiset.coe_add]
      _ = ((insert r seen \ seen).val + (seen₁ \ insert r seen).val) + (seen₂ \ seen₁).val := by
          rw [h₁.account, ih, ← hone]; rfl
      _ = (seen₂ \ seen).val := by
          rw [sdiff_val_add (Finset.subset_insert _ _) h₁.subset, sdiff_val_add hseen h₂.subset]

theorem Sweep.closed {seen roots seen' tr} (h : g.Sweep seen roots seen' tr) :
    ∀ x ∈ tr, g.ok x = true → ∀ y ∈ g.succ x, y ∈ seen' := by
  induction h with
  | nil => intro x hx; simp at hx
  | seen _ _ ih => exact ih
  | start _ h₁ h₂ ih =>
    intro x hx hok y hy
    rcases List.mem_append.1 hx with hx | hx
    · exact h₂.subset (h₁.closed x hx hok y hy).1
    · exact ih x hx hok y hy

theorem Sweep.forall_trace {S : α → Prop}
    (hS : ∀ x y, S x → g.ok x = true → y ∈ g.succ x → S y)
    {seen roots seen' tr} (h : g.Sweep seen roots seen' tr) :
    (∀ r ∈ roots, S r) → ∀ x ∈ tr, S x := by
  induction h with
  | nil => intro _ x hx; simp at hx
  | seen _ _ ih => exact fun hroots => ih fun r hr => hroots r (List.mem_cons_of_mem _ hr)
  | @start seen r rs seen₁ tr₁ seen₂ tr₂ _ h₁ _ ih =>
    intro hroots x hx
    have hr : S r := hroots r (List.mem_cons_self ..)
    rcases List.mem_append.1 hx with hx | hx
    · exact h₁.forall_trace hS (fun p hp => List.mem_singleton.1 hp ▸ hr) x hx
    · exact ih (fun x hx => hroots x (List.mem_cons_of_mem _ hx)) x hx

/-! ### What a completed sweep has listed -/

/-- No vertex is listed twice. -/
theorem Sweep.nodup {roots : List α} {seen' tr} (h : g.Sweep ∅ roots seen' tr) : tr.Nodup := by
  have hval := h.account
  rw [Finset.sdiff_empty] at hval
  rw [← Multiset.coe_nodup, hval]
  exact seen'.nodup

theorem Sweep.mem_seen_iff {roots : List α} {seen' tr} (h : g.Sweep ∅ roots seen' tr) {x : α} :
    x ∈ tr ↔ x ∈ seen' := by
  have hval := h.account
  rw [Finset.sdiff_empty] at hval
  rw [← Multiset.mem_coe, hval, Finset.mem_val]

/-- The trace lists the reached vertices, and the vertices refused by the guard that
are roots or successors of a reached vertex. -/
theorem Sweep.mem_trace_iff {roots : List α} {seen' tr} (h : g.Sweep ∅ roots seen' tr) {x : α} :
    x ∈ tr ↔ g.ReachedFrom roots x ∨
      (g.ok x = false ∧ (x ∈ roots ∨ ∃ y, g.ReachedFrom roots y ∧ x ∈ g.succ y)) := by
  constructor
  · intro hx
    have hS : x ∈ roots ∨ ∃ y, g.ReachedFrom roots y ∧ x ∈ g.succ y := by
      refine h.forall_trace (S := fun x => x ∈ roots ∨ ∃ y, g.ReachedFrom roots y ∧ x ∈ g.succ y)
        ?_ (fun r hr => Or.inl hr) x hx
      rintro u y (hu | ⟨w, hw, hu⟩) hok hy
      · exact Or.inr ⟨u, reachedFrom_root hu hok, hy⟩
      · exact Or.inr ⟨u, hw.succ hu hok, hy⟩
    cases hok : g.ok x with
    | false => exact Or.inr ⟨rfl, hS⟩
    | true =>
      rcases hS with hr | ⟨y, hy, hxy⟩
      · exact Or.inl (reachedFrom_root hr hok)
      · exact Or.inl (hy.succ hxy hok)
  · have hreach : ∀ v, g.ReachedFrom roots v → v ∈ tr := by
      intro v hv
      refine reachedFrom_of_closed (S := fun v => v ∈ tr) ?_ ?_ hv
      · exact fun r hr _ => h.mem_seen_iff.2 (h.roots_subset r hr)
      · exact fun u w hu he => h.mem_seen_iff.2 (h.closed u hu he.ok_left w he.mem)
    rintro (hx | ⟨_, hx | ⟨y, hy, hxy⟩⟩)
    · exact hreach x hx
    · exact h.mem_seen_iff.2 (h.roots_subset x hx)
    · exact h.mem_seen_iff.2 (h.closed y (hreach y hy) hy.ok x hxy)

/-- The emitted vertices are the reached ones. -/
theorem Sweep.mem_emitted_iff {roots : List α} {seen' tr} (h : g.Sweep ∅ roots seen' tr) {x : α} :
    x ∈ tr.filter g.ok ↔ g.ReachedFrom roots x := by
  rw [List.mem_filter, h.mem_trace_iff]
  constructor
  · rintro ⟨hx | ⟨hok, -⟩, hx'⟩
    · exact hx
    · rw [hok] at hx'; cases hx'
  · exact fun hx => ⟨Or.inl hx, hx.ok⟩

/-- The refused vertices are the refused roots and the refused successors of reached
vertices. -/
theorem Sweep.mem_refused_iff {roots : List α} {seen' tr} (h : g.Sweep ∅ roots seen' tr) {x : α} :
    x ∈ tr ∧ g.ok x = false ↔
      g.ok x = false ∧ (x ∈ roots ∨ ∃ y, g.ReachedFrom roots y ∧ x ∈ g.succ y) := by
  rw [h.mem_trace_iff]
  constructor
  · rintro ⟨hx | hx, hok⟩
    · rw [hx.ok] at hok; cases hok
    · exact hx
  · exact fun hx => ⟨Or.inr hx, hx.1⟩

/-! ## Loops -/

/-- A reported loop is one: the open path leads to the pending siblings, so the
vertex at which the walk is cut short closes a cycle. -/
theorem Loops.hasCycle {hot seen ps w} (h : g.Loops hot seen ps w) :
    (∀ u ∈ hot, g.ok u = true) →
    (∀ u ∈ hot, ∀ p ∈ ps, g.ok p = true → TransGen g.Edge u p) → g.HasCycleFrom ps := by
  induction h with
  | @here hot seen v vs w hok hback =>
    intro hhot hpath
    have hv : v ∈ v :: vs := List.mem_cons_self ..
    obtain ⟨hw, hopen⟩ := backEntry_eq_some hback
    refine ⟨v, reachedFrom_root hv hok, ?_⟩
    rcases List.mem_cons.1 hopen with rfl | hopen
    · exact TransGen.single ⟨hok, hw, hok⟩
    · exact TransGen.head ⟨hok, hw, hhot w hopen⟩ (hpath w hopen v hv hok)
  | @down hot seen v vs w hok hback _ ih =>
    intro hhot hpath
    have hv : v ∈ v :: vs := List.mem_cons_self ..
    have hedge : ∀ p ∈ g.fresh seen v, g.ok p = true → g.Edge v p :=
      fun p hp hp' => ⟨hok, (mem_fresh.1 hp).1, hp'⟩
    obtain ⟨c, ⟨p, hp, hpok, hpc⟩, hc⟩ := ih
      (fun u hu => by
        rcases List.mem_cons.1 hu with rfl | hu
        · exact hok
        · exact hhot u hu)
      (fun u hu p hp hpok => by
        rcases List.mem_cons.1 hu with rfl | hu
        · exact TransGen.single (hedge p hp hpok)
        · exact (hpath u hu v hv hok).tail (hedge p hp hpok))
    exact ⟨c, ⟨v, hv, hok, hpc.head (hedge p hp hpok)⟩, hc⟩
  | skip _ _ ih =>
    intro hhot hpath
    obtain ⟨c, ⟨p, hp, hpok, hpc⟩, hc⟩ := ih hhot fun u hu p hp =>
      hpath u hu p (List.mem_cons_of_mem _ hp)
    exact ⟨c, ⟨p, List.mem_cons_of_mem _ hp, hpok, hpc⟩, hc⟩
  | next _ _ _ _ ih =>
    intro hhot hpath
    obtain ⟨c, ⟨p, hp, hpok, hpc⟩, hc⟩ := ih hhot fun u hu p hp =>
      hpath u hu p (List.mem_cons_of_mem _ hp)
    exact ⟨c, ⟨p, List.mem_cons_of_mem _ hp, hpok, hpc⟩, hc⟩

theorem SweepLoops.hasCycle {seen roots w} (h : g.SweepLoops seen roots w) :
    g.HasCycleFrom roots := by
  have hmono : ∀ {r : α} {rs : List α}, g.HasCycleFrom rs → g.HasCycleFrom (r :: rs) := by
    rintro r rs ⟨c, ⟨p, hp, hpok, hpc⟩, hc⟩
    exact ⟨c, ⟨p, List.mem_cons_of_mem _ hp, hpok, hpc⟩, hc⟩
  induction h with
  | here _ h =>
    obtain ⟨c, ⟨p, hp, hpok, hpc⟩, hc⟩ := h.hasCycle (by simp) (by simp)
    exact ⟨c, ⟨p, List.mem_singleton.1 hp ▸ List.mem_cons_self .., hpok, hpc⟩, hc⟩
  | seen _ _ ih => exact hmono ih
  | next _ _ _ ih => exact hmono ih

end Guarded
