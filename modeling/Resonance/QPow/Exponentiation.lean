import Mathlib.Data.Nat.ModEq
import Resonance.QPow.Math

/-!
`mod_pow` as a function that can panic.

The zero modulus and a result too long for `U512` are the two ways to stop it.
With a modulus of at least two the loop keeps the accumulator below the
modulus, whatever the first base is, and ends with the power.
-/
namespace Resonance.QPow
open MachineInt

/-- How a computation of `qpow-math` can panic. -/
inductive MathPanic
  | arithmetic (panic : Panic)
  /-- "Modulus cannot be zero" -/
  | modulusCannotBeZero
  /-- More bytes than a `U512` has. -/
  | fromBigEndian
deriving DecidableEq

abbrev MathResult (α : Type) := Except MathPanic α

/-- A checked operation of `U512` or `u32`. -/
def arith {α : Type} (x : Except Panic α) : MathResult α := x.mapError .arithmetic

def checkedModPow (base exponent modulus : ℕ) : MathResult ℕ :=
  if h : 0 < modulus then
    let result := modPow base exponent modulus h
    if result ≤ maxValue 512 then .ok result else .error .fromBigEndian
  else .error .modulusCannotBeZero

/-- A `U512` has 64 bytes. -/
theorem pow_256_64 : 256 ^ 64 = 2 ^ 512 := by decide +kernel

variable {α : Type} {base exp modulus result : ℕ}

@[simp] theorem arith_ok (a : α) : arith (.ok a : Except Panic α) = .ok a := rfl

@[simp] theorem arith_eq_ok_iff {x : Except Panic α} {a : α} : arith x = .ok a ↔ x = .ok a := by
  cases x with
  | error p => simp [arith, Except.mapError]
  | ok b => simp

/-- The accumulator times the base to the remaining exponent stays the same
modulo the modulus. -/
theorem modPowLoop_eq (modulus base exp result : ℕ) (reduced : result < modulus) :
    modPowLoop modulus base exp result = result * base ^ exp % modulus := by
  have pos : 0 < modulus := Nat.zero_lt_of_lt reduced
  induction exp using Nat.strong_induction_on generalizing base result with
  | _ exp ih =>
      rw [modPowLoop]
      split
      · rename_i zero
        rw [zero, pow_zero, mul_one, Nat.mod_eq_of_lt reduced]
      · rename_i more
        have half : exp / 2 < exp := Nat.div_lt_self (Nat.pos_of_ne_zero more) Nat.one_lt_two
        have halves := Nat.div_add_mod exp 2
        have square :
            (base * base % modulus) ^ (exp / 2) ≡ base ^ (2 * (exp / 2)) [MOD modulus] := by
          rw [pow_mul, pow_two]
          exact (Nat.mod_modEq _ _).pow _
        split
        · rename_i odd
          rw [ih _ half _ _ (Nat.mod_lt _ pos)]
          have step := (Nat.mod_modEq (result * base) modulus).mul square
          rw [mul_assoc, ← pow_succ', ← odd, halves] at step
          exact step
        · rename_i even
          rw [ih _ half _ _ reduced]
          have step := square.mul_left result
          rw [show 2 * (exp / 2) = exp by omega] at step
          exact step

theorem checkedModPow_ok (base exponent : ℕ) (large : 2 ≤ modulus) (fits : modulus < 2 ^ 512) :
    checkedModPow base exponent modulus = .ok (base ^ exponent % modulus) := by
  have pos : 0 < modulus := Nat.zero_lt_of_lt large
  have power : modPow base exponent modulus pos = base ^ exponent % modulus := by
    rw [modPow, modPowLoop_eq _ _ _ _ large, one_mul]
  have small : base ^ exponent % modulus ≤ maxValue 512 :=
    le_maxValue_iff.2 ((Nat.mod_lt _ pos).trans fits)
  rw [checkedModPow, dif_pos pos, power]
  exact if_pos small

end Resonance.QPow
