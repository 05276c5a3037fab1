import Resonance.Foundation.WhileLoops
import Resonance.QPow.Exponentiation

/-!
`mod_pow` on the bytes of its arguments.

The numbers are read from their 64 bytes, the loop runs while the exponent is
not zero, and the result is written in as many bytes as it needs and read back.
A round halves the exponent, so 512 rounds are enough for any `U512`; the loop
then ends where the recursion the rest of the model is written with does, and
under a modulus of at least two that is the power, which fits.
-/
namespace Resonance.QPow
open MachineInt Positional WhileLoops

/-- The `BigUint`s of `mod_pow` that its loop changes. -/
structure ModPowState where
  base : ℕ
  exp : ℕ
  result : ℕ
deriving DecidableEq

def squareAndMultiply (modulus : ℕ) : Loop ModPowState where
  guard s := s.exp ≠ 0
  body s :=
    let result := if s.exp.testBit 0 then s.result * s.base % modulus else s.result
    { base := s.base * s.base % modulus
      exp := s.exp >>> 1
      result := result }

/-- `U512::from_big_endian` -/
def u512FromBigEndian (bytes : List UInt8) : MathResult ℕ :=
  if bytes.length ≤ 64 then .ok (fromBigEndian bytes) else .error .fromBigEndian

/-- `mod_pow` with at most `rounds` rounds of its loop. -/
def modPowWithin (rounds base exponent modulus : ℕ) : MathResult (Option ℕ) :=
  if modulus = 0 then .error .modulusCannotBeZero
  else
    let base := fromBigEndian (toBigEndian 64 base).toList
    let exp := fromBigEndian (toBigEndian 64 exponent).toList
    let modulus := fromBigEndian (toBigEndian 64 modulus).toList
    match (squareAndMultiply modulus).within rounds ⟨base, exp, 1⟩ with
    | none => .ok none
    | some s => (u512FromBigEndian (toShortestBigEndian s.result)).map some

variable {rounds base exponent modulus : ℕ} {s : ModPowState}

theorem squareAndMultiply_guard : (squareAndMultiply modulus).guard s = false ↔ s.exp = 0 := by
  simp [squareAndMultiply]

/-- The exponent loses a bit in every round. -/
theorem squareAndMultiply_exits (modulus : ℕ) (bits : s.exp < 2 ^ rounds) :
    ∃ s', (squareAndMultiply modulus).within rounds s = some s' ∧ s'.exp = 0 := by
  have done : ∀ s : ModPowState, s.exp < 2 ^ 0 → (squareAndMultiply modulus).guard s = false :=
    fun s none => squareAndMultiply_guard.2 (Nat.lt_one_iff.1 none)
  have lowered : ∀ k (s : ModPowState), (squareAndMultiply modulus).guard s →
      s.exp < 2 ^ (k + 1) → ((squareAndMultiply modulus).body s).exp < 2 ^ k := by
    intro k s _ some
    change s.exp >>> 1 < 2 ^ k
    rw [Nat.shiftRight_one]
    rw [Nat.pow_succ] at some
    omega
  obtain ⟨s', exit, stopped⟩ := Loop.within_exits
    (fun k (s : ModPowState) => s.exp < 2 ^ k) done lowered bits
  exact ⟨s', exit, squareAndMultiply_guard.1 stopped⟩

def ModPowState.power (modulus : ℕ) (s : ModPowState) : ℕ :=
  modPowLoop modulus s.base s.exp s.result

theorem power_body (modulus : ℕ) (s : ModPowState) (more : (squareAndMultiply modulus).guard s) :
    ((squareAndMultiply modulus).body s).power modulus = s.power modulus := by
  have running : s.exp ≠ 0 := by simpa [squareAndMultiply] using more
  conv_rhs => rw [ModPowState.power, modPowLoop, if_neg running]
  simp [ModPowState.power, squareAndMultiply, Nat.shiftRight_one]

theorem within_power (modulus : ℕ) (bits : s.exp < 2 ^ rounds) :
    ∃ s', (squareAndMultiply modulus).within rounds s = some s' ∧
      s'.result = s.power modulus := by
  obtain ⟨s', exit, zero⟩ := squareAndMultiply_exits modulus bits
  have same := Loop.within_unroll (ModPowState.power modulus) (power_body modulus) exit
  refine ⟨s', exit, ?_⟩
  rw [← same, ModPowState.power, modPowLoop, if_pos zero]

theorem fromBigEndian_toBigEndian_64 {n : ℕ} (fits : n < 2 ^ 512) :
    fromBigEndian (toBigEndian 64 n).toList = n := by
  rw [fromBigEndian_toBigEndian, pow_256_64, Nat.mod_eq_of_lt fits]

theorem u512FromBigEndian_shortest (n : ℕ) :
    u512FromBigEndian (toShortestBigEndian n) =
      if n ≤ maxValue 512 then .ok n else .error .fromBigEndian := by
  have short : (toShortestBigEndian n).length ≤ 64 ↔ n ≤ maxValue 512 := by
    rw [length_toShortestBigEndian_le_iff (by decide), pow_256_64, le_maxValue_iff]
  rw [u512FromBigEndian, fromBigEndian_toShortestBigEndian]
  simp only [short]

/-- On every `U512` the bytes and the loop come to the same as the recursion. -/
theorem modPowWithin_eq (hb : base < 2 ^ 512) (he : exponent < 2 ^ 512) (hm : modulus < 2 ^ 512)
    (enough : 512 ≤ rounds) :
    modPowWithin rounds base exponent modulus =
      (checkedModPow base exponent modulus).map some := by
  rw [modPowWithin, checkedModPow]
  by_cases zero : modulus = 0
  · rw [if_pos zero, dif_neg (Nat.not_lt.2 zero.le)]
    rfl
  · have bits : exponent < 2 ^ rounds := le_maxValue_iff.1 (le_maxValue_of_lt he enough)
    rw [if_neg zero, dif_pos (Nat.pos_of_ne_zero zero), fromBigEndian_toBigEndian_64 hb,
      fromBigEndian_toBigEndian_64 he, fromBigEndian_toBigEndian_64 hm]
    obtain ⟨s', exit, result⟩ := within_power (s := ⟨base, exponent, 1⟩) modulus bits
    dsimp only
    rw [exit]
    dsimp only
    rw [u512FromBigEndian_shortest, result]
    rfl

/-- Under a modulus of at least two `mod_pow` is the power, whatever the base:
512 rounds are enough, and the result fits. -/
theorem modPowWithin_eq_power (hb : base < 2 ^ 512) (he : exponent < 2 ^ 512)
    (large : 2 ≤ modulus) (hm : modulus < 2 ^ 512) (enough : 512 ≤ rounds) :
    modPowWithin rounds base exponent modulus = .ok (some (base ^ exponent % modulus)) := by
  rw [modPowWithin_eq hb he hm enough, checkedModPow_ok base exponent large hm]
  rfl

/-- The base may be above the modulus. -/
theorem modPowWithin_eq_power_seven : modPowWithin 512 10 5 7 = .ok (some 5) :=
  modPowWithin_eq_power (by decide +kernel) (by decide +kernel) (by decide) (by decide +kernel)
    (by decide)

/-- Of a pair with a positive `m` the group element is the power. -/
theorem hashToGroupBigint_eq_power (h solution : ℕ) (rsa : RsaPair) (pos : 1 ≤ rsa.m) :
    hashToGroupBigint h rsa solution = rsa.m ^ saturatingAdd 512 h solution % rsa.n := by
  have large : 1 < rsa.n := Nat.lt_of_le_of_lt pos rsa.m_lt_n
  rw [hashToGroupBigint, modPow, modPowLoop_eq _ _ _ _ large, one_mul]

end Resonance.QPow
