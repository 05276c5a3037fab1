import Resonance.Foundation.MachineInt

/-!
`sp_arithmetic::FixedU128`: 128-bit numbers that count units of 10^-18.

A value is its inner integer. `from_rational` rounds a quotient that is not
exact to one of the two neighbours; which one is a parameter, and only the laws
of `Rounding` are used.
-/
namespace Resonance.FixedU128
open MachineInt

/-- The inner value of one. -/
def DIV : ℕ := 10 ^ 18

/-- How a quotient becomes a whole number. -/
structure Rounding where
  divide : ℕ → ℕ → ℕ
  div_le : ∀ n d, n / d ≤ divide n d
  mul_lt : ∀ n d, 0 < d → divide n d * d < n + d
  mono : ∀ {n m} d, n ≤ m → divide n d ≤ divide m d

namespace Rounding

/-- To the nearest neighbour, down when both are equally near. -/
def nearestPrefDown : Rounding where
  divide n d := if d < 2 * (n % d) then n / d + 1 else n / d
  div_le n d := by
    split <;> omega
  mul_lt n d hd := by
    have whole := Nat.div_add_mod' n d
    have := Nat.mod_lt n hd
    split
    · rw [Nat.add_mul]
      omega
    · omega
  mono := by
    intro n m d h
    have quotients := Nat.div_le_div_right (c := d) h
    rcases Nat.lt_or_eq_of_le quotients with lt | eq
    · split <;> split <;> omega
    · have hn := Nat.div_add_mod' n d
      have hm := Nat.div_add_mod' m d
      rw [eq] at hn ⊢
      split <;> split <;> omega

theorem divide_mul (r : Rounding) (q : ℕ) {d : ℕ} (hd : 0 < d) : r.divide (q * d) d = q := by
  have lower := r.div_le (q * d) d
  rw [Nat.mul_div_cancel q hd] at lower
  have upper := r.mul_lt (q * d) d hd
  rw [← Nat.succ_mul] at upper
  exact Nat.le_antisymm (Nat.le_of_lt_succ (Nat.lt_of_mul_lt_mul_right upper)) lower

theorem divide_le (r : Rounding) (n : ℕ) {d : ℕ} (hd : 0 < d) : r.divide n d ≤ n := by
  have upper := r.mul_lt n d hd
  by_contra above
  have := Nat.mul_le_mul_right d (Nat.lt_of_not_le above)
  have := Nat.le_mul_of_pos_right n hd
  rw [Nat.succ_mul] at *
  omega

end Rounding

def fromRational (r : Rounding) (a b : ℕ) : Except Panic ℕ :=
  if b = 0 then .error .divisionByZero
  else if r.divide (DIV * a) b ≤ maxValue 128 then .ok (r.divide (DIV * a) b)
  else .error .arithmeticOverflow

theorem fromRational_eq (r : Rounding) {a b : ℕ} (hb : 0 < b) (ha : DIV * a ≤ maxValue 128) :
    fromRational r a b = .ok (r.divide (DIV * a) b) := by
  have small := (r.divide_le (DIV * a) hb).trans ha
  rw [fromRational, if_neg hb.ne', if_pos small]

theorem fromRational_self (r : Rounding) {a : ℕ} (hb : 0 < a) : fromRational r a a = .ok DIV := by
  rw [fromRational, if_neg hb.ne', r.divide_mul DIV hb, if_pos (by decide)]

end Resonance.FixedU128
