import Mathlib

/-!
# Listing finite sets, sorting by a key, joining with a separator

A program that iterates over a set, or over the keys of a map, meets the elements in an
order that the language leaves open; `Enumeration` is such an order.

What is proved here:

* `sortOn_congr` — sorting by a key forgets the order of the input when the key tells
  the elements apart;
* `exists_sortOn_ne` — and only then: with two elements of one key, two enumerations are
  sorted differently;
* `intercalate_injective` — strings without the separator can be told from their join,
  and `length_intercalate` — how long the join is.
-/

/-- A way to list the elements of every finite set. -/
structure Enumeration (α : Type*) where
  list : Finset α → List α
  nodup : ∀ s, (list s).Nodup
  mem_list : ∀ s v, v ∈ list s ↔ v ∈ s

section SortOn

variable {α β : Type*} [LinearOrder β] (key : α → β)

/-- `sorted(l, key=key)`: stable, by the key. -/
def sortOn (l : List α) : List α :=
  l.insertionSort fun a b => key a ≤ key b

variable {key}

theorem perm_sortOn (l : List α) : (sortOn key l).Perm l :=
  List.perm_insertionSort _ l

theorem mem_sortOn {l : List α} {v : α} : v ∈ sortOn key l ↔ v ∈ l :=
  (perm_sortOn l).mem_iff

theorem pairwise_sortOn (l : List α) : (sortOn key l).Pairwise fun a b => key a ≤ key b := by
  have : Std.Total fun a b : α => key a ≤ key b := ⟨fun a b => le_total (key a) (key b)⟩
  have : IsTrans α fun a b => key a ≤ key b := ⟨fun _ _ _ hab hbc => hab.trans hbc⟩
  exact List.pairwise_insertionSort _ l

theorem sortOn_of_pairwise {l : List α} (h : l.Pairwise fun a b => key a ≤ key b) :
    sortOn key l = l :=
  h.insertionSort_eq

/-- When the key tells the elements apart, the result does not depend on their order. -/
theorem sortOn_congr {l l' : List α} (hperm : l.Perm l')
    (hinj : ∀ a ∈ l, ∀ b ∈ l, key a = key b → a = b) : sortOn key l = sortOn key l' := by
  have hsorted : (sortOn key l).Perm (sortOn key l') :=
    (perm_sortOn l).trans (hperm.trans (perm_sortOn l').symm)
  refine hsorted.eq_of_pairwise ?_ (pairwise_sortOn l) (pairwise_sortOn l')
  intro a b ha hb hab hba
  exact hinj a (mem_sortOn.1 ha) b (hperm.mem_iff.2 (mem_sortOn.1 hb)) (le_antisymm hab hba)

end SortOn

namespace Enumeration

variable {α β : Type*} [LinearOrder β]

/-- The elements in the order of a key that tells all of them apart. -/
def sortedOn (key : α → β) (hkey : Function.Injective key) : Enumeration α where
  list s := s.val.liftOn (sortOn key) fun _ _ h => sortOn_congr h fun _ _ _ _ hab => hkey hab
  nodup := by
    rintro ⟨⟨l⟩, hl⟩
    exact (perm_sortOn l).nodup_iff.2 hl
  mem_list := by
    rintro ⟨⟨l⟩, hl⟩ v
    exact (perm_sortOn l).mem_iff

/-- The elements of a linear order in that order. -/
def sorted : Enumeration β :=
  sortedOn id Function.injective_id

/-- The elements in the opposite order. -/
def reversed (e : Enumeration α) : Enumeration α where
  list s := (e.list s).reverse
  nodup s := List.nodup_reverse.2 (e.nodup s)
  mem_list s v := List.mem_reverse.trans (e.mem_list s v)

theorem perm (e e' : Enumeration α) (s : Finset α) : (e.list s).Perm (e'.list s) :=
  (List.perm_ext_iff_of_nodup (e.nodup s) (e'.nodup s)).2 fun v => by
    rw [e.mem_list, e'.mem_list]

/-- Some enumeration lists a given set in a given order. -/
theorem exists_list_eq {s : Finset α} {l : List α} (hnodup : l.Nodup) (hmem : ∀ v, v ∈ l ↔ v ∈ s) :
    ∃ e : Enumeration α, e.list s = l := by
  classical
  refine ⟨{ list := fun t => if t = s then l else t.toList, nodup := ?_, mem_list := ?_ }, ?_⟩
  · intro t
    by_cases ht : t = s
    · simpa [ht] using hnodup
    · simpa [ht] using t.nodup_toList
  · intro t v
    by_cases ht : t = s
    · simpa [ht] using hmem v
    · simp [ht]
  · simp

/-- With two elements of one key, what sorting returns depends on the enumeration. -/
theorem exists_sortOn_ne {key : α → β} {s : Finset α} {x y : α} (hx : x ∈ s) (hy : y ∈ s)
    (hne : x ≠ y) (hkey : key x = key y) :
    ∃ e e' : Enumeration α, sortOn key (e.list s) ≠ sortOn key (e'.list s) := by
  classical
  set l := sortOn key s.toList with hl
  have hmem : ∀ v, v ∈ l ↔ v ∈ s := fun v => by rw [hl, mem_sortOn, Finset.mem_toList]
  have hnodup : l.Nodup := (perm_sortOn _).nodup_iff.2 s.nodup_toList
  have hsorted : l.Pairwise fun a b => key a ≤ key b := pairwise_sortOn _
  have hswap : ∀ v, key (Equiv.swap x y v) = key v ∧ (v ∈ s → Equiv.swap x y v ∈ s) := by
    intro v
    rcases eq_or_ne v x with rfl | hvx
    · rw [Equiv.swap_apply_left]
      exact ⟨hkey.symm, fun _ => hy⟩
    · rcases eq_or_ne v y with rfl | hvy
      · rw [Equiv.swap_apply_right]
        exact ⟨hkey, fun _ => hx⟩
      · rw [Equiv.swap_apply_of_ne_of_ne hvx hvy]
        exact ⟨rfl, id⟩
  have hmem' : ∀ v, v ∈ l.map (Equiv.swap x y) ↔ v ∈ s := by
    intro v
    rw [List.mem_map]
    constructor
    · rintro ⟨u, hu, rfl⟩
      exact (hswap u).2 ((hmem u).1 hu)
    · intro hv
      exact ⟨Equiv.swap x y v, (hmem _).2 ((hswap v).2 hv), Equiv.swap_apply_self x y v⟩
  have hsorted' : (l.map (Equiv.swap x y)).Pairwise fun a b => key a ≤ key b := by
    rw [List.pairwise_map]
    simpa only [(hswap _).1] using hsorted
  obtain ⟨e, he⟩ := exists_list_eq hnodup hmem
  obtain ⟨e', he'⟩ := exists_list_eq (hnodup.map (Equiv.swap x y).injective) hmem'
  refine ⟨e, e', ?_⟩
  rw [he, he', sortOn_of_pairwise hsorted, sortOn_of_pairwise hsorted']
  intro heq
  have hfix : ∀ v ∈ l, Equiv.swap x y v = v :=
    List.map_eq_map_iff.1 (heq.symm.trans (List.map_id l).symm)
  have hxy := hfix x ((hmem x).2 hx)
  rw [Equiv.swap_apply_left] at hxy
  exact hne hxy.symm

end Enumeration

/-! ## Joining -/

/-- Lists of strings without the separator are told apart by their join. -/
theorem intercalate_injective {c : Char} {l l' : List String} (hl : ∀ s ∈ l, c ∉ s.toList)
    (hl' : ∀ s ∈ l', c ∉ s.toList) (hne : l ≠ []) (hne' : l' ≠ [])
    (h : (String.singleton c).intercalate l = (String.singleton c).intercalate l') : l = l' := by
  have hlist := congrArg String.toList h
  rw [String.toList_intercalate, String.toList_intercalate, String.toList_singleton] at hlist
  have hsplit := congrArg (List.splitOn c) hlist
  have hmap : ∀ l : List String, (∀ s ∈ l, c ∉ s.toList) →
      ∀ m ∈ l.map String.toList, c ∉ m := by
    intro l hl m hm
    obtain ⟨s, hs, rfl⟩ := List.mem_map.1 hm
    exact hl s hs
  rw [List.splitOn_intercalate c (hmap l hl) (by simpa using hne),
    List.splitOn_intercalate c (hmap l' hl') (by simpa using hne')] at hsplit
  exact List.map_injective_iff.2 (fun _ _ => String.toList_injective) hsplit

/-- A join has one separator less than it has parts. -/
theorem length_intercalate {c : Char} {l : List String} (hne : l ≠ []) :
    ((String.singleton c).intercalate l).length + 1 = (l.map fun s => s.length + 1).sum := by
  induction l with
  | nil => exact absurd rfl hne
  | cons s l ih =>
    cases l with
    | nil => simp
    | cons t l =>
      have htail := ih (by simp)
      rw [String.intercalate_cons_cons, String.length_append, String.length_append,
        String.length_singleton, List.map_cons, List.sum_cons, ← htail]
      omega
