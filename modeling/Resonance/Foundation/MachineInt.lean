import Mathlib.Algebra.BigOperators.Group.List.Basic
import Mathlib.Algebra.Order.Ring.Nat
import Mathlib.Order.Lattice

/-!
Unsigned integers of a fixed width.

They are natural numbers, and the width is an argument of the operations that
depend on it. An operation that can panic returns the panic as an error, so a
program written with them has to pass it on. Saturation commutes with sums: a
fold of saturating additions is one clamp of the true sum.
-/
namespace MachineInt

inductive Panic
  | divisionByZero
  | remainderByZero
  | arithmeticOverflow
deriving DecidableEq

def maxValue (w : ℕ) : ℕ := 2 ^ w - 1

def saturatingAdd (w a b : ℕ) : ℕ := min (a + b) (maxValue w)

def saturatingMul (w a b : ℕ) : ℕ := min (a * b) (maxValue w)

/-- The bits shifted out are lost. -/
def shl (w a n : ℕ) : ℕ := a * 2 ^ n % 2 ^ w

def shr (a n : ℕ) : ℕ := a / 2 ^ n

def checkedDiv (a b : ℕ) : Option ℕ := if b = 0 then none else some (a / b)

def add (w a b : ℕ) : Except Panic ℕ :=
  if a + b ≤ maxValue w then .ok (a + b) else .error .arithmeticOverflow

def sub (a b : ℕ) : Except Panic ℕ :=
  if b ≤ a then .ok (a - b) else .error .arithmeticOverflow

def div (a b : ℕ) : Except Panic ℕ := if b = 0 then .error .divisionByZero else .ok (a / b)

def rem (a b : ℕ) : Except Panic ℕ := if b = 0 then .error .remainderByZero else .ok (a % b)

theorem bind_eq_ok_iff {ε α β : Type} {x : Except ε α} {f : α → Except ε β} {b : β} :
    (x >>= f) = .ok b ↔ ∃ a, x = .ok a ∧ f a = .ok b := by
  cases x with
  | error e => simp [bind, Except.bind]
  | ok a => simp [bind, Except.bind]

theorem le_maxValue_iff {w a : ℕ} : a ≤ maxValue w ↔ a < 2 ^ w := by
  have := Nat.two_pow_pos w
  simp only [maxValue]
  omega

theorem lt_pow_of_le_maxValue {n k l : ℕ} (h : n ≤ maxValue (k * l)) : n < (2 ^ k) ^ l := by
  rw [← Nat.pow_mul]
  exact le_maxValue_iff.1 h

theorem le_maxValue_of_lt {n k w : ℕ} (h : n < 2 ^ k) (le : k ≤ w) : n ≤ maxValue w :=
  le_maxValue_iff.2 (h.trans_le (Nat.pow_le_pow_right Nat.two_pos le))

theorem saturatingAdd_eq {w a b : ℕ} (h : a + b ≤ maxValue w) : saturatingAdd w a b = a + b :=
  min_eq_left h

theorem saturatingMul_pos {w a b : ℕ} (hw : 0 < w) (ha : 0 < a) (hb : 0 < b) :
    0 < saturatingMul w a b := by
  have := Nat.pow_lt_pow_right Nat.one_lt_two hw
  have := Nat.mul_pos ha hb
  simp only [saturatingMul, maxValue]
  omega

/-- A saturated sum takes a further summand as the true sum does. -/
theorem saturatingAdd_min (w a b : ℕ) :
    saturatingAdd w (min a (maxValue w)) b = min (a + b) (maxValue w) := by
  simp only [saturatingAdd]
  omega

theorem foldl_saturatingAdd (w a : ℕ) (l : List ℕ) :
    l.foldl (saturatingAdd w) (min a (maxValue w)) = min (a + l.sum) (maxValue w) := by
  induction l generalizing a with
  | nil => rfl
  | cons b l ih =>
      rw [List.foldl_cons, saturatingAdd_min, ih, List.sum_cons, Nat.add_assoc]

theorem shl_eq {w a n : ℕ} (h : a * 2 ^ n < 2 ^ w) : shl w a n = a * 2 ^ n :=
  Nat.mod_eq_of_lt h

theorem shl_le_maxValue (w a n : ℕ) : shl w a n ≤ maxValue w :=
  le_maxValue_iff.2 (Nat.mod_lt _ (Nat.two_pow_pos w))

theorem shl_shl (w a m n : ℕ) : shl w (shl w a m) n = shl w a (m + n) := by
  rw [shl, shl, shl, Nat.mod_mul_mod, Nat.mul_assoc, ← Nat.pow_add]

theorem shl_one_eq_zero {w n : ℕ} (h : w ≤ n) : shl w 1 n = 0 := by
  rw [shl, one_mul]
  exact Nat.mod_eq_zero_of_dvd (Nat.pow_dvd_pow 2 h)

@[simp] theorem add_eq_ok_iff {w a b c : ℕ} :
    add w a b = .ok c ↔ a + b ≤ maxValue w ∧ a + b = c := by
  simp only [add]
  split <;> simp_all

@[simp] theorem sub_eq_ok_iff {a b c : ℕ} : sub a b = .ok c ↔ b ≤ a ∧ a - b = c := by
  simp only [sub]
  split <;> simp_all

@[simp] theorem div_eq_ok_iff {a b c : ℕ} : div a b = .ok c ↔ b ≠ 0 ∧ a / b = c := by
  simp only [div]
  split <;> simp_all

@[simp] theorem rem_eq_ok_iff {a b c : ℕ} : rem a b = .ok c ↔ b ≠ 0 ∧ a % b = c := by
  simp only [rem]
  split <;> simp_all

end MachineInt
