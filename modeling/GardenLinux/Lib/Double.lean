import Mathlib.Data.Nat.Log
import Mathlib.Tactic.Ring

/-!
# Natural numbers as doubles

A natural number read as a double keeps 53 bits: it is rounded to the nearest number with so many
bits, a tie to the even one.

What is proved here:

* `toDouble_of_lt` — numbers below `2 ^ 53` stay as they are;
* `le_toDouble` and `toDouble_le` — rounding does not cross a number with few enough bits;
* `toDouble_of_dvd` — a number with few enough bits stays as it is.
-/

namespace Double

/-- The nearest multiple of `2 ^ e`. -/
def roundTo (e n : ℕ) : ℕ :=
  if 2 ^ e < 2 * (n % 2 ^ e) ∨ (2 * (n % 2 ^ e) = 2 ^ e ∧ n / 2 ^ e % 2 = 1) then
    (n / 2 ^ e + 1) * 2 ^ e
  else n / 2 ^ e * 2 ^ e

/-- A natural number as a double. -/
def toDouble (n : ℕ) : ℕ := roundTo (Nat.log2 n - 52) n

/-! ## Rounding -/

/-- A multiple of the unit below a number stays below. -/
theorem le_roundTo {e n k : ℕ} (hk : 2 ^ e ∣ k) (h : k ≤ n) : k ≤ roundTo e n := by
  obtain ⟨m, rfl⟩ := hk
  have hm : m ≤ n / 2 ^ e := (Nat.le_div_iff_mul_le (Nat.two_pow_pos e)).2 (by rwa [Nat.mul_comm])
  have hfloor : 2 ^ e * m ≤ n / 2 ^ e * 2 ^ e := by
    rw [Nat.mul_comm (n / 2 ^ e)]
    exact Nat.mul_le_mul_left _ hm
  unfold roundTo
  split
  · exact hfloor.trans (Nat.mul_le_mul_right _ (Nat.le_succ _))
  · exact hfloor

/-- A multiple of the unit above a number stays above. -/
theorem roundTo_le {e n k : ℕ} (hk : 2 ^ e ∣ k) (h : n ≤ k) : roundTo e n ≤ k := by
  have hsplit := Nat.div_add_mod n (2 ^ e)
  unfold roundTo
  split
  · next hup =>
    -- it is rounded up only when it is no multiple itself
    have hrest : 0 < n % 2 ^ e := by
      have hunit : 0 < 2 ^ e := Nat.two_pow_pos e
      omega
    obtain ⟨m, rfl⟩ := hk
    have hm : n / 2 ^ e < m := by
      by_contra hle
      have hmul : 2 ^ e * m ≤ 2 ^ e * (n / 2 ^ e) := Nat.mul_le_mul_left _ (not_lt.1 hle)
      omega
    rw [Nat.mul_comm]
    exact Nat.mul_le_mul_left _ hm
  · exact (Nat.div_mul_le_self n (2 ^ e)).trans h

/-! ## Doubles -/

/-- A number below `2 ^ (53 + j)` is a multiple of a unit of at most `2 ^ j`. -/
theorem unit_dvd {n j : ℕ} (h : n < 2 ^ (53 + j)) : 2 ^ (Nat.log2 n - 52) ∣ 2 ^ j := by
  refine Nat.pow_dvd_pow 2 ?_
  by_cases hn : n = 0
  · simp [hn]
  · have hlog : Nat.log2 n < 53 + j := (Nat.log2_lt hn).2 h
    omega

theorem le_toDouble {n j k : ℕ} (hn : n < 2 ^ (53 + j)) (hk : 2 ^ j ∣ k) (h : k ≤ n) :
    k ≤ toDouble n :=
  le_roundTo ((unit_dvd hn).trans hk) h

theorem toDouble_le {n j k : ℕ} (hn : n < 2 ^ (53 + j)) (hk : 2 ^ j ∣ k) (h : n ≤ k) :
    toDouble n ≤ k :=
  roundTo_le ((unit_dvd hn).trans hk) h

theorem toDouble_of_dvd {n j : ℕ} (hn : n < 2 ^ (53 + j)) (h : 2 ^ j ∣ n) : toDouble n = n :=
  le_antisymm (toDouble_le hn h le_rfl) (le_toDouble hn h le_rfl)

theorem toDouble_of_lt {n : ℕ} (h : n < 2 ^ 53) : toDouble n = n :=
  toDouble_of_dvd (j := 0) h (one_dvd n)

example : toDouble (2 ^ 53 + 1) = 2 ^ 53 ∧ toDouble (2 ^ 53 + 3) = 2 ^ 53 + 4 := by decide

end Double
