import Mathlib

/-!
# Guarded graphs: reachability, cycles and minimal generators

A guarded graph is a successor list for every vertex together with a guard that
decides which vertices may be entered.  Everything here is about paths that stay
inside the guard.

What is proved here:

* `reachedFrom_of_closed` — a set that holds the admitted roots and is closed
  under edges holds everything reached from them, and `reachedFrom_congr` — the
  reached set depends on the set of roots only;
* `exists_generator_reach` — without cycles every admitted root is reached from a
  generator, a root that no other admitted root reaches, so that the generators
  reach what the roots reach (`reachedFrom_generators`);
* `isGenerator_iff_source` and `isGenerator_congr` — the generators are the
  sources of the reached set, hence the same for any two lists of roots that
  reach the same vertices;
* `covered_append_of_covered` and `isGenerator_append_of_not_covered` — how the
  generators change when a root is added at the end.
-/

/-- A graph given by successor lists, with a guard on its vertices. -/
structure Guarded (α : Type*) where
  succ : α → List α
  ok : α → Bool

namespace Guarded

open Relation

variable {α : Type*} (g : Guarded α)

/-! ## Edges, reachability and cycles -/

/-- An edge between two vertices that both pass the guard. -/
def Edge (u v : α) : Prop := g.ok u = true ∧ v ∈ g.succ u ∧ g.ok v = true

/-- `v` is reached from one of the roots that pass the guard. -/
def ReachedFrom (roots : List α) (v : α) : Prop :=
  ∃ r ∈ roots, g.ok r = true ∧ ReflTransGen g.Edge r v

/-- A cycle inside the guard can be reached from the roots. -/
def HasCycleFrom (roots : List α) : Prop :=
  ∃ v, g.ReachedFrom roots v ∧ TransGen g.Edge v v

/-- The guarded graph has no cycle at all. -/
def Acyclic : Prop := ∀ v, ¬ TransGen g.Edge v v

variable {g}

theorem Edge.ok_left {u v : α} (h : g.Edge u v) : g.ok u = true := h.1

theorem Edge.mem {u v : α} (h : g.Edge u v) : v ∈ g.succ u := h.2.1

theorem Edge.ok_right {u v : α} (h : g.Edge u v) : g.ok v = true := h.2.2

theorem ok_of_reach {u v : α} (hu : g.ok u = true) (h : ReflTransGen g.Edge u v) :
    g.ok v = true := by
  rcases ReflTransGen.cases_tail h with rfl | ⟨w, -, hw⟩
  · exact hu
  · exact hw.ok_right

theorem ReachedFrom.ok {roots : List α} {v : α} (h : g.ReachedFrom roots v) :
    g.ok v = true := by
  obtain ⟨r, -, hr, hrv⟩ := h
  exact ok_of_reach hr hrv

theorem reachedFrom_root {roots : List α} {r : α} (hr : r ∈ roots) (hok : g.ok r = true) :
    g.ReachedFrom roots r :=
  ⟨r, hr, hok, ReflTransGen.refl⟩

theorem ReachedFrom.trans {roots : List α} {u v : α} (hu : g.ReachedFrom roots u)
    (huv : ReflTransGen g.Edge u v) : g.ReachedFrom roots v := by
  obtain ⟨r, hr, hok, hru⟩ := hu
  exact ⟨r, hr, hok, hru.trans huv⟩

theorem ReachedFrom.tail {roots : List α} {u v : α} (hu : g.ReachedFrom roots u)
    (huv : g.Edge u v) : g.ReachedFrom roots v :=
  hu.trans (ReflTransGen.single huv)

/-- Walking along successors that pass the guard stays in the reached set. -/
theorem ReachedFrom.succ {roots : List α} {u v : α} (hu : g.ReachedFrom roots u)
    (hv : v ∈ g.succ u) (hok : g.ok v = true) : g.ReachedFrom roots v :=
  hu.tail ⟨hu.ok, hv, hok⟩

/-- A set that holds the admitted roots and is closed under edges holds everything
reached from them. -/
theorem reachedFrom_of_closed {roots : List α} {S : α → Prop}
    (hroot : ∀ r ∈ roots, g.ok r = true → S r)
    (hclosed : ∀ u v, S u → g.Edge u v → S v) {v : α} (hv : g.ReachedFrom roots v) : S v := by
  obtain ⟨r, hr, hok, hrv⟩ := hv
  induction hrv with
  | refl => exact hroot r hr hok
  | tail _ hedge ih => exact hclosed _ _ ih hedge

/-- The reached set depends on the set of roots only. -/
theorem reachedFrom_congr {roots roots' : List α} (h : ∀ r, r ∈ roots ↔ r ∈ roots') (v : α) :
    g.ReachedFrom roots v ↔ g.ReachedFrom roots' v := by
  simp only [ReachedFrom, h]

theorem hasCycleFrom_congr {roots roots' : List α} (h : ∀ r, r ∈ roots ↔ r ∈ roots') :
    g.HasCycleFrom roots ↔ g.HasCycleFrom roots' := by
  simp only [HasCycleFrom, reachedFrom_congr h]

/-- A graph without cycles of successors has no cycle inside any guard. -/
theorem acyclic_of_succ (h : ∀ v, ¬ TransGen (fun u w => w ∈ g.succ u) v v) : g.Acyclic :=
  fun v hv => h v (TransGen.mono (fun _ _ (he : g.Edge _ _) => he.mem) v v hv)

theorem Acyclic.not_hasCycleFrom (h : g.Acyclic) (roots : List α) : ¬ g.HasCycleFrom roots :=
  fun ⟨v, _, hv⟩ => h v hv

/-- Without cycles, two vertices that reach each other are the same. -/
theorem Acyclic.antisymm (h : g.Acyclic) {u v : α} (huv : ReflTransGen g.Edge u v)
    (hvu : ReflTransGen g.Edge v u) : u = v := by
  rcases reflTransGen_iff_eq_or_transGen.1 huv with heq | htr
  · exact heq.symm
  · exact absurd (htr.trans_left hvu) (h u)

/-! ## Minimal generators -/

/-- A generator: an admitted root that no other admitted root reaches. -/
def IsGenerator (g : Guarded α) (roots : List α) (v : α) : Prop :=
  v ∈ roots ∧ g.ok v = true ∧
    ∀ r ∈ roots, g.ok r = true → r ≠ v → ¬ ReflTransGen g.Edge r v

/-- Without cycles every admitted root is reached from a generator. -/
theorem exists_generator_reach (hac : g.Acyclic) {roots : List α} {r : α} (hr : r ∈ roots)
    (hok : g.ok r = true) :
    ∃ v, g.IsGenerator roots v ∧ ReflTransGen g.Edge v r := by
  have hwf : WellFounded (fun a b : {x // x ∈ roots} => TransGen g.Edge a.1 b.1) := by
    have : IsTrans {x // x ∈ roots} (fun a b => TransGen g.Edge a.1 b.1) :=
      ⟨fun _ _ _ hab hbc => hab.trans hbc⟩
    have : Std.Irrefl (fun a b : {x // x ∈ roots} => TransGen g.Edge a.1 b.1) :=
      ⟨fun a ha => hac a.1 ha⟩
    have : Finite {x // x ∈ roots} := (List.finite_toSet roots).to_subtype
    exact Finite.wellFounded_of_trans_of_irrefl _
  obtain ⟨m, ⟨hmok, hmr⟩, hmin⟩ := hwf.has_min
    {a : {x // x ∈ roots} | g.ok a.1 = true ∧ ReflTransGen g.Edge a.1 r}
    ⟨⟨r, hr⟩, hok, ReflTransGen.refl⟩
  refine ⟨m.1, ⟨m.2, hmok, ?_⟩, hmr⟩
  intro s hs hsok hne hsm
  rcases reflTransGen_iff_eq_or_transGen.1 hsm with heq | htr
  · exact hne heq.symm
  · exact hmin ⟨s, hs⟩ ⟨hsok, hsm.trans hmr⟩ htr

/-- Any list of exactly the generators reaches what the roots reach. -/
theorem reachedFrom_generators (hac : g.Acyclic) {roots gens : List α}
    (hgens : ∀ v, v ∈ gens ↔ g.IsGenerator roots v) (v : α) :
    g.ReachedFrom gens v ↔ g.ReachedFrom roots v := by
  constructor
  · rintro ⟨r, hr, hok, hrv⟩
    exact ⟨r, ((hgens r).1 hr).1, hok, hrv⟩
  · rintro ⟨r, hr, hok, hrv⟩
    obtain ⟨m, hm, hmr⟩ := exists_generator_reach hac hr hok
    exact ⟨m, (hgens m).2 hm, hm.2.1, hmr.trans hrv⟩

/-- The generators are the sources of the reached set. -/
theorem isGenerator_iff_source (hac : g.Acyclic) {roots : List α} {v : α} :
    g.IsGenerator roots v ↔
      g.ReachedFrom roots v ∧
        ∀ u, g.ReachedFrom roots u → ReflTransGen g.Edge u v → u = v := by
  constructor
  · rintro ⟨hv, hok, hmin⟩
    refine ⟨reachedFrom_root hv hok, ?_⟩
    rintro u ⟨r, hr, hrok, hru⟩ huv
    have hrv : r = v := by
      by_contra hne
      exact hmin r hr hrok hne (hru.trans huv)
    exact hac.antisymm huv (hrv ▸ hru)
  · rintro ⟨⟨r, hr, hrok, hrv⟩, hsource⟩
    have hreq : r = v := hsource r (reachedFrom_root hr hrok) hrv
    subst hreq
    refine ⟨hr, hrok, ?_⟩
    intro s hs hsok hne hsr
    exact hne (hsource s (reachedFrom_root hs hsok) hsr)

/-- `v` is reached from `u` and is a different vertex. -/
def Below (g : Guarded α) (u v : α) : Prop := v ≠ u ∧ ReflTransGen g.Edge u v

/-- `v` lies below an admitted root. -/
def Covered (g : Guarded α) (roots : List α) (v : α) : Prop :=
  ∃ r ∈ roots, g.ok r = true ∧ g.Below r v

theorem Below.trans_reach (hac : g.Acyclic) {u v w : α} (huv : g.Below u v)
    (hvw : ReflTransGen g.Edge v w) : g.Below u w := by
  refine ⟨fun heq => huv.1 ?_, huv.2.trans hvw⟩
  subst heq
  exact hac.antisymm hvw huv.2

theorem Covered.trans_reach (hac : g.Acyclic) {roots : List α} {v w : α} (h : g.Covered roots v)
    (hvw : ReflTransGen g.Edge v w) : g.Covered roots w := by
  obtain ⟨r, hr, hok, hrv⟩ := h
  exact ⟨r, hr, hok, hrv.trans_reach hac hvw⟩

theorem isGenerator_iff_not_covered {roots : List α} {v : α} :
    g.IsGenerator roots v ↔ v ∈ roots ∧ g.ok v = true ∧ ¬ g.Covered roots v := by
  constructor
  · rintro ⟨hv, hok, hmin⟩
    refine ⟨hv, hok, ?_⟩
    rintro ⟨r, hr, hrok, hne, hrv⟩
    exact hmin r hr hrok hne.symm hrv
  · rintro ⟨hv, hok, hcov⟩
    exact ⟨hv, hok, fun r hr hrok hne hrv => hcov ⟨r, hr, hrok, hne.symm, hrv⟩⟩

theorem covered_append {roots : List α} {r v : α} :
    g.Covered (roots ++ [r]) v ↔ g.Covered roots v ∨ (g.ok r = true ∧ g.Below r v) := by
  constructor
  · rintro ⟨s, hs, hok, hsv⟩
    rcases List.mem_append.1 hs with hs | hs
    · exact Or.inl ⟨s, hs, hok, hsv⟩
    · obtain rfl := List.mem_singleton.1 hs
      exact Or.inr ⟨hok, hsv⟩
  · rintro (⟨s, hs, hok, hsv⟩ | ⟨hok, hrv⟩)
    · exact ⟨s, List.mem_append_left _ hs, hok, hsv⟩
    · exact ⟨r, by simp, hok, hrv⟩

/-- A root that is covered already, or is refused, covers nothing new. -/
theorem covered_append_of_covered (hac : g.Acyclic) {roots : List α} {r : α}
    (hr : g.Covered roots r ∨ g.ok r = false) (v : α) :
    g.Covered (roots ++ [r]) v ↔ g.Covered roots v := by
  rw [covered_append]
  refine ⟨?_, Or.inl⟩
  rintro (h | ⟨hok, hrv⟩)
  · exact h
  · rcases hr with hr | hr
    · exact hr.trans_reach hac hrv.2
    · rw [hr] at hok
      cases hok

theorem isGenerator_append_of_covered (hac : g.Acyclic) {roots : List α} {r : α}
    (hr : g.Covered roots r ∨ g.ok r = false) (v : α) :
    g.IsGenerator (roots ++ [r]) v ↔ g.IsGenerator roots v := by
  rw [isGenerator_iff_not_covered, isGenerator_iff_not_covered, covered_append_of_covered hac hr,
    List.mem_append, List.mem_singleton]
  refine ⟨?_, fun ⟨hv, hrest⟩ => ⟨Or.inl hv, hrest⟩⟩
  rintro ⟨hv | rfl, hok, hcov⟩
  · exact ⟨hv, hok, hcov⟩
  · rcases hr with hr | hr
    · exact absurd hr hcov
    · rw [hr] at hok
      cases hok

/-- A root that is not covered becomes a generator and takes what lies below it out. -/
theorem isGenerator_append_of_not_covered {roots : List α} {r : α} (hok : g.ok r = true)
    (hr : ¬ g.Covered roots r) (v : α) :
    g.IsGenerator (roots ++ [r]) v ↔ (v = r ∨ g.IsGenerator roots v) ∧ ¬ g.Below r v := by
  rw [isGenerator_iff_not_covered, isGenerator_iff_not_covered, covered_append, List.mem_append,
    List.mem_singleton]
  constructor
  · rintro ⟨hv, hvok, hcov⟩
    refine ⟨?_, fun hrv => hcov (Or.inr ⟨hok, hrv⟩)⟩
    rcases hv with hv | rfl
    · exact Or.inr ⟨hv, hvok, fun h => hcov (Or.inl h)⟩
    · exact Or.inl rfl
  · rintro ⟨rfl | ⟨hv, hvok, hcov⟩, hrv⟩
    · exact ⟨Or.inr rfl, hok, fun h => h.elim hr fun h => hrv h.2⟩
    · exact ⟨Or.inl hv, hvok, fun h => h.elim hcov fun h => hrv h.2⟩

/-- Two lists of roots that reach the same vertices have the same generators. -/
theorem isGenerator_congr (hac : g.Acyclic) {roots roots' : List α}
    (h : ∀ v, g.ReachedFrom roots v ↔ g.ReachedFrom roots' v) (v : α) :
    g.IsGenerator roots v ↔ g.IsGenerator roots' v := by
  simp only [isGenerator_iff_source hac, h]

end Guarded
