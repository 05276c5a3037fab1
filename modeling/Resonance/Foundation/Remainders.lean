import Mathlib.FieldTheory.Finite.Basic

/-!
What division with remainder says of scaling, of counters and of primes.

`scale n unit ratio` stands for `n * ratio / unit`, computed as a quotient that
is then multiplied. It never exceeds the true value and falls short of it by
less than one unit of the number, scaled. Scaling up can still make the number
smaller: what the division drops decides, and a number of at least `unit * unit`
drops too little for that.

A counter that goes back to zero after `last` takes `last + 1` steps for it, so
after `n` steps it is `n % (last + 1)` and the resets are the multiples of
`last + 1` up to `n`.

With `n - 1 = d * 2 ^ r` and `d` odd, `n` passes the test of Miller and Rabin for
a base if the base to the `d` is one, or minus one after fewer than `r`
squarings, modulo `n`. A prime passes for every base it does not divide: the
powers end in one, and modulo a prime one has no square roots but itself and
minus one.
-/
namespace Scaling

def scale (n unit ratio : ℕ) : ℕ := n / unit * ratio

variable {n unit ratio ratio' : ℕ}

theorem scale_mono (n unit : ℕ) (h : ratio ≤ ratio') :
    scale n unit ratio ≤ scale n unit ratio' :=
  Nat.mul_le_mul_left _ h

theorem scale_mul_unit_le (n unit ratio : ℕ) : scale n unit ratio * unit ≤ n * ratio := by
  calc scale n unit ratio * unit = n / unit * unit * ratio := Nat.mul_right_comm _ _ _
    _ ≤ n * ratio := Nat.mul_le_mul_right _ (Nat.div_mul_le_self n unit)

/-- What scaling loses is less than the ratio. -/
theorem mul_le_scale_mul_unit (pos : 0 < unit) :
    n * ratio ≤ scale n unit ratio * unit + unit * ratio := by
  have dropped := (Nat.mod_lt n pos).le
  calc n * ratio = (n / unit * unit + n % unit) * ratio := by rw [Nat.div_add_mod']
    _ ≤ (n / unit * unit + unit) * ratio :=
        Nat.mul_le_mul_right _ (Nat.add_le_add_left dropped _)
    _ = scale n unit ratio * unit + unit * ratio := by
        rw [Nat.add_mul, scale, Nat.mul_right_comm]

theorem scale_le_self (h : ratio ≤ unit) : scale n unit ratio ≤ n :=
  (scale_mono n unit h).trans (Nat.div_mul_le_self n unit)

/-- Scaling up loses nothing if what the division drops is made up for. -/
theorem self_le_scale_iff (h : unit ≤ ratio) :
    n ≤ scale n unit ratio ↔ n % unit ≤ n / unit * (ratio - unit) := by
  have whole := Nat.div_add_mod' n unit
  have split : scale n unit ratio = n / unit * unit + n / unit * (ratio - unit) := by
    rw [scale, ← Nat.mul_add, Nat.add_sub_cancel' h]
  omega

theorem self_le_scale_of_large (pos : 0 < unit) (large : unit * unit ≤ n) (h : unit < ratio) :
    n ≤ scale n unit ratio := by
  have quotient : unit ≤ n / unit := (Nat.le_div_iff_mul_le pos).2 large
  rw [self_le_scale_iff h.le]
  calc n % unit ≤ unit := (Nat.mod_lt n pos).le
    _ ≤ n / unit := quotient
    _ ≤ n / unit * (ratio - unit) := Nat.le_mul_of_pos_right _ (Nat.sub_pos_of_lt h)

/-- A number is back after `unit` parts of it exactly if it divides evenly. -/
theorem self_le_scale_unit_iff : n ≤ scale n unit unit ↔ unit ∣ n := by
  rw [self_le_scale_iff le_rfl, Nat.sub_self, Nat.mul_zero, Nat.le_zero, Nat.dvd_iff_mod_eq_zero]

end Scaling

namespace Multiples

/-- The positive multiples of a period up to `n`, in order. -/
def multiples (period n : ℕ) : List ℕ := (List.range (n / period)).map fun k => (k + 1) * period

variable {period n gap : ℕ}

@[simp] theorem multiples_zero : multiples period 0 = [] := by
  simp [multiples]

@[simp] theorem length_multiples (period n : ℕ) : (multiples period n).length = n / period := by
  simp [multiples]

theorem multiples_succ_of_dvd (h : period ∣ n + 1) :
    multiples period (n + 1) = multiples period n ++ [n + 1] := by
  have next : (n / period + 1) * period = n + 1 := by
    rw [← Nat.succ_div_of_dvd h]
    exact Nat.div_mul_cancel h
  rw [multiples, Nat.succ_div_of_dvd h, List.range_succ, List.map_append, List.map_singleton, next]
  rfl

theorem multiples_succ_of_not_dvd (h : ¬ period ∣ n + 1) :
    multiples period (n + 1) = multiples period n := by
  rw [multiples, Nat.succ_div_of_not_dvd h]
  rfl

/-- Neighbours are one period apart, and nothing else unless there are none. -/
theorem isChain_multiples_iff (pos : 0 < period) :
    (multiples period n).IsChain (fun a b => b = a + gap) ↔ gap = period ∨ n < 2 * period := by
  rw [multiples, List.isChain_map, List.isChain_range, ← Nat.div_lt_iff_lt_mul pos]
  have next (k : ℕ) : (k.succ + 1) * period = (k + 1) * period + gap ↔ gap = period := by
    rw [Nat.succ_mul (k.succ), Nat.add_left_cancel_iff]
    exact eq_comm
  simp only [next]
  constructor
  · intro h
    rcases Nat.lt_or_ge (n / period) 2 with few | many
    · exact .inr few
    · exact .inl (h 0 (by omega))
  · rintro (rfl | few) k hk
    · rfl
    · omega

/-- Of `last` successive numbers exactly one is a multiple of `last + 1`, unless they
come right after one. -/
theorem length_multiples_add (n last : ℕ) :
    (multiples (last + 1) (n + last)).length =
      (multiples (last + 1) n).length + if last + 1 ∣ n then 0 else 1 := by
  have bound : n % (last + 1) < last + 1 := Nat.mod_lt n (Nat.succ_pos last)
  have whole : n / (last + 1) * (last + 1) + n % (last + 1) = n := Nat.div_add_mod' n (last + 1)
  rw [length_multiples, length_multiples]
  by_cases h : last + 1 ∣ n
  · have none : n % (last + 1) = 0 := Nat.mod_eq_zero_of_dvd h
    rw [if_pos h, Nat.add_zero (n / _)]
    refine Nat.div_eq_of_lt_le ?_ ?_
    · omega
    · rw [Nat.succ_mul]
      omega
  · have rest : n % (last + 1) ≠ 0 := fun none => h (Nat.dvd_of_mod_eq_zero none)
    rw [if_neg h]
    refine Nat.div_eq_of_lt_le ?_ ?_
    · rw [Nat.succ_mul]
      omega
    · rw [Nat.succ_mul, Nat.succ_mul]
      omega

/-- The counter after one more step. -/
theorem succ_mod_succ (n last : ℕ) :
    (n + 1) % (last + 1) = if last ≤ n % (last + 1) then 0 else n % (last + 1) + 1 := by
  have bound : n % (last + 1) < last + 1 := Nat.mod_lt n (Nat.succ_pos last)
  split
  · exact Nat.succ_mod_succ_eq_zero_iff.2 (by omega)
  · rw [Nat.add_mod, Nat.mod_eq_of_lt (a := 1) (by omega)]
    exact Nat.mod_eq_of_lt (by omega)

theorem last_le_mod_iff (n last : ℕ) : last ≤ n % (last + 1) ↔ last + 1 ∣ n + 1 := by
  have bound : n % (last + 1) < last + 1 := Nat.mod_lt n (Nat.succ_pos last)
  rw [Nat.dvd_iff_mod_eq_zero, Nat.succ_mod_succ_eq_zero_iff]
  omega

end Multiples

namespace StrongProbablePrimes

/-- `n` passes the test for the base `a`. -/
def StrongProbablePrime (n d r a : ℕ) : Prop :=
  a ^ d % n = 1 ∨ ∃ i < r, a ^ (d * 2 ^ i) % n = n - 1

instance (n d r a : ℕ) : Decidable (StrongProbablePrime n d r a) :=
  inferInstanceAs (Decidable (_ ∨ ∃ i < r, _))

variable {n d r a x : ℕ}

/-- Modulo a prime, only one and minus one have the square one. -/
theorem sqrt_one_of_prime (prime : n.Prime) (lt : x < n) (square : x ^ 2 % n = 1) :
    x = 1 ∨ x = n - 1 := by
  have pos : 0 < x := by
    rcases Nat.eq_zero_or_pos x with rfl | pos
    · simp at square
    · exact pos
  have divides : n ∣ (x + 1) * (x - 1) := by
    rw [← Nat.sq_sub_sq x 1, one_pow]
    refine (Nat.modEq_iff_dvd' (Nat.one_le_pow _ _ pos)).1 ?_
    rw [Nat.ModEq, square, Nat.mod_eq_of_lt prime.one_lt]
  rcases prime.dvd_mul.1 divides with above | below
  · have le := Nat.le_of_dvd (Nat.succ_pos x) above
    omega
  · rcases Nat.eq_zero_or_pos (x - 1) with zero | some
    · omega
    · have le := Nat.le_of_dvd some below
      omega

theorem pow_sub_one_of_prime (prime : n.Prime) (pos : 0 < a) (lt : a < n) :
    a ^ (n - 1) % n = 1 := by
  have coprime : a.Coprime n := (Nat.coprime_of_lt_prime pos.ne' lt prime).symm
  have fermat := Nat.ModEq.pow_card_sub_one_eq_one prime coprime
  rwa [Nat.ModEq, Nat.mod_eq_of_lt prime.one_lt] at fermat

theorem pow_two_mul (a d i n : ℕ) : (a ^ (d * 2 ^ i) % n) ^ 2 % n = a ^ (d * 2 ^ (i + 1)) % n := by
  rw [← Nat.pow_mod, ← pow_mul, Nat.pow_succ, Nat.mul_assoc]

/-- Going back from a power that is one, the squarings start at one or pass
minus one. -/
theorem of_pow_eq_one (prime : n.Prime) (one : a ^ (d * 2 ^ r) % n = 1) :
    StrongProbablePrime n d r a := by
  induction r with
  | zero =>
      rw [pow_zero, mul_one] at one
      exact .inl one
  | succ r ih =>
      rw [← pow_two_mul] at one
      rcases sqrt_one_of_prime prime (Nat.mod_lt _ prime.pos) one with earlier | minus
      · rcases ih earlier with start | ⟨i, hi, passes⟩
        · exact .inl start
        · exact .inr ⟨i, Nat.lt_succ_of_lt hi, passes⟩
      · exact .inr ⟨r, Nat.lt_succ_self r, minus⟩

theorem strongProbablePrime_of_prime (prime : n.Prime) (split : n - 1 = d * 2 ^ r) (pos : 0 < a)
    (lt : a < n) : StrongProbablePrime n d r a := by
  refine of_pow_eq_one prime ?_
  rw [← split]
  exact pow_sub_one_of_prime prime pos lt

end StrongProbablePrimes
