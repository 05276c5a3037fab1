import Resonance.Foundation.Remainders
import Resonance.QPow.Exponentiation

/-!
`is_prime`: the Miller–Rabin test with bases from a hash.

The digest is any function to 64 bytes, and every operation of `U512` and
`u32` is checked. None of them panics on any number of 512 bits, and the answer
is whether the number is a strong probable prime to all 32 bases; which bases
the digest leads to matters only for composite numbers.
-/
namespace Resonance.QPow
open MachineInt Positional StrongProbablePrimes

structure Digests where
  sha2_256 : List UInt8 → Vector UInt8 32
  sha3_512 : List UInt8 → Vector UInt8 64

section
variable {α : Type}

/-- `a - b`, and what is done with it. -/
def subThen (a b : ℕ) (next : (d : ℕ) → a = b + d → MathResult α) : MathResult α :=
  if h : b ≤ a then next (a - b) (Nat.add_sub_cancel' h).symm
  else .error (.arithmetic .arithmeticOverflow)

/-- The loop that writes a positive `d` as an odd number times a power of two. -/
def decompose (d : ℕ) (pos : 0 < d) (r : ℕ) : MathResult (ℕ × ℕ) :=
  if even : d % 2 = 0 then
    arith (add 32 r 1) >>= fun r => decompose (d / 2) (by omega) r
  else .ok (d, r)
termination_by d

end

/-- The base made of the hash of `n` and a counter. -/
def deriveBase (digests : Digests) (n counter : ℕ) : MathResult ℕ := do
  let bytes := (toBigEndian 64 n).toList ++ (toBigEndian 64 counter).toList
  let hash := fromBigEndian (digests.sha3_512 bytes).toList
  let range ← arith (sub n 4)
  let reduced ← arith (rem hash range)
  arith (add 512 reduced 2)

/-- The 32 bases; the counter of the source is the number of bases so far. -/
def deriveBases (digests : Digests) (n : ℕ) : MathResult (List ℕ) :=
  (List.range 32).mapM (deriveBase digests n)

/-- `count` squarings of `x`: whether they pass minus one. -/
def squareUp (n : ℕ) : (count x : ℕ) → MathResult Bool
  | 0, _ => .ok false
  | count + 1, x => do
      let x ← checkedModPow x 2 n
      let minusOne ← arith (sub n 1)
      if x = minusOne then return true
      else if x = 1 then return false
      else squareUp n count x

/-- The body of the loop over the bases; false is its `return false`. -/
def passes (n d r base : ℕ) : MathResult Bool := do
  let x ← checkedModPow base d n
  let minusOne ← arith (sub n 1)
  if x = 1 ∨ x = minusOne then return true
  else
    let count ← arith (sub r 1)
    squareUp n count x

theorem pos_of_sub_one {n d : ℕ} (large : ¬ n ≤ 1) (minusOne : n = 1 + d) : 0 < d := by
  omega

def isPrime (digests : Digests) (n : ℕ) : MathResult Bool :=
  if small : n ≤ 1 then .ok false
  else if n = 2 ∨ n = 3 then .ok true
  else if n % 2 = 0 then .ok false
  else subThen n 1 fun d minusOne => do
    let (d, r) ← decompose d (pos_of_sub_one small minusOne) 0
    let bases ← deriveBases digests n
    bases.allM (passes n d r)

variable {digests : Digests} {n d r : ℕ}

/-- A number of `w` bits is halved fewer than `w` times. -/
theorem decompose_spec (w : ℕ) (pos : 0 < d) (bits : d < 2 ^ w) (fits : r + w ≤ maxValue 32) :
    ∃ k j, decompose d pos r = .ok (k, r + j) ∧ d = k * 2 ^ j ∧ k % 2 = 1 := by
  induction w generalizing d r with
  | zero =>
      rw [pow_zero] at bits
      omega
  | succ w ih =>
      rw [decompose]
      split
      · rename_i even
        have next : add 32 r 1 = .ok (r + 1) := add_eq_ok_iff.2 ⟨by omega, rfl⟩
        rw [pow_succ] at bits
        obtain ⟨k, j, run, split, odd⟩ := ih (d := d / 2) (r := r + 1) (by omega) (by omega)
          (by omega)
        refine ⟨k, j + 1, ?_, ?_, odd⟩
        · rw [next]
          refine run.trans ?_
          rw [Nat.add_assoc, Nat.add_comm 1]
        · rw [pow_succ, ← Nat.mul_assoc, ← split]
          omega
      · rename_i odd
        exact ⟨d, 0, rfl, by simp, by omega⟩

theorem deriveBase_spec (digests : Digests) (large : 5 ≤ n) (fits : n < 2 ^ 512) (counter : ℕ) :
    ∃ a, deriveBase digests n counter = .ok a ∧ 2 ≤ a ∧ a < n := by
  have some : n - 4 ≠ 0 := by omega
  have small (hash : ℕ) : hash % (n - 4) < n - 4 := Nat.mod_lt _ (Nat.pos_of_ne_zero some)
  simp only [deriveBase, bind_eq_ok_iff, arith_eq_ok_iff]
  generalize fromBigEndian _ = hash
  have below := small hash
  refine ⟨hash % (n - 4) + 2, ⟨n - 4, sub_eq_ok_iff.2 ⟨by omega, rfl⟩, hash % (n - 4),
    rem_eq_ok_iff.2 ⟨some, rfl⟩, add_eq_ok_iff.2 ⟨le_maxValue_iff.2 ?_, rfl⟩⟩, by omega, by omega⟩
  exact lt_of_le_of_lt (by omega : hash % (n - 4) + 2 ≤ n) fits

theorem mapM_ok {α β : Type} {f : α → MathResult β} {P : β → Prop}
    (each : ∀ a, ∃ b, f a = .ok b ∧ P b) (l : List α) :
    ∃ bs, l.mapM f = .ok bs ∧ ∀ b ∈ bs, P b := by
  induction l with
  | nil => exact ⟨[], rfl, by simp⟩
  | cons a l ih =>
      obtain ⟨b, first, hb⟩ := each a
      obtain ⟨bs, rest, hbs⟩ := ih
      refine ⟨b :: bs, ?_, List.forall_mem_cons.2 ⟨hb, hbs⟩⟩
      rw [List.mapM_cons, first, rest]
      rfl

theorem allM_ok {α : Type} {p : α → MathResult Bool} {q : α → Bool} {l : List α}
    (each : ∀ a ∈ l, p a = .ok (q a)) : l.allM p = .ok (l.all q) := by
  induction l with
  | nil => rfl
  | cons a l ih =>
      rw [List.forall_mem_cons] at each
      rw [List.allM, each.1, List.all_cons]
      cases q a with
      | false => rfl
      | true => exact ih each.2

theorem deriveBases_spec (digests : Digests) (large : 5 ≤ n) (fits : n < 2 ^ 512) :
    ∃ bases, deriveBases digests n = .ok bases ∧ ∀ a ∈ bases, 2 ≤ a ∧ a < n :=
  mapM_ok (deriveBase_spec digests large fits) _

theorem pow_two_pow (x i n : ℕ) : (x ^ 2 % n) ^ 2 ^ i % n = x ^ 2 ^ (i + 1) % n := by
  rw [← Nat.pow_mod, ← pow_mul, ← pow_succ']

/-- The early exit on one misses nothing: all further squares are one. -/
theorem squareUp_eq (large : 2 < n) (fits : n < 2 ^ 512) (count x : ℕ) :
    squareUp n count x = .ok (decide (∃ i < count, x ^ 2 ^ (i + 1) % n = n - 1)) := by
  induction count generalizing x with
  | zero => simp [squareUp]
  | succ count ih =>
      have minusOne : sub n 1 = .ok (n - 1) := sub_eq_ok_iff.2 ⟨by omega, rfl⟩
      rw [squareUp, checkedModPow_ok x 2 large.le fits, minusOne]
      simp only [arith_ok, bind, Except.bind]
      split
      · rename_i top
        refine congrArg Except.ok (decide_eq_true ?_).symm
        exact ⟨0, Nat.succ_pos count, by simpa using top⟩
      · rename_i below
        split
        · rename_i one
          refine congrArg Except.ok (decide_eq_false ?_).symm
          rintro ⟨i, -, top⟩
          rw [← pow_two_pow, one, one_pow, Nat.mod_eq_of_lt (by omega)] at top
          omega
        · rw [ih]
          refine congrArg Except.ok (decide_eq_decide.2 ?_)
          constructor
          · rintro ⟨i, hi, top⟩
            rw [pow_two_pow] at top
            exact ⟨i + 1, Nat.succ_lt_succ hi, top⟩
          · rintro ⟨i, hi, top⟩
            cases i with
            | zero => exact absurd (by simpa using top) below
            | succ i =>
                rw [← pow_two_pow] at top
                exact ⟨i, Nat.lt_of_succ_lt_succ hi, top⟩

/-- One round decides whether `n` is a strong probable prime to the base. -/
theorem passes_eq (large : 2 < n) (fits : n < 2 ^ 512) (some : 1 ≤ r) (d base : ℕ) :
    passes n d r base = .ok (decide (StrongProbablePrime n d r base)) := by
  have minusOne : sub n 1 = .ok (n - 1) := sub_eq_ok_iff.2 ⟨by omega, rfl⟩
  have count : sub r 1 = .ok (r - 1) := sub_eq_ok_iff.2 ⟨some, rfl⟩
  have squares (i : ℕ) : (base ^ d % n) ^ 2 ^ i % n = base ^ (d * 2 ^ i) % n := by
    rw [← Nat.pow_mod, ← pow_mul]
  rw [passes, checkedModPow_ok base d large.le fits, minusOne, count]
  simp only [arith_ok, bind, Except.bind, squareUp_eq large fits, squares]
  split
  · rename_i start
    refine congrArg Except.ok (decide_eq_true ?_).symm
    rcases start with one | top
    · exact .inl one
    · exact .inr ⟨0, some, by simpa using top⟩
  · rename_i neither
    rw [not_or] at neither
    refine congrArg Except.ok (decide_eq_decide.2 ?_)
    constructor
    · rintro ⟨i, hi, top⟩
      exact .inr ⟨i + 1, by omega, top⟩
    · rintro (one | ⟨i, hi, top⟩)
      · exact absurd one neither.1
      · cases i with
        | zero => exact absurd (by simpa using top) neither.2
        | succ i => exact ⟨i, by omega, top⟩

/-- On an odd number from five on the test is the one for all bases. -/
theorem isPrime_eq (digests : Digests) (large : 5 ≤ n) (odd : n % 2 = 1) (fits : n < 2 ^ 512) :
    ∃ (d r : ℕ) (bases : List ℕ), n - 1 = d * 2 ^ r ∧ (∀ a ∈ bases, 2 ≤ a ∧ a < n) ∧
      isPrime digests n = .ok (bases.all fun a => decide (StrongProbablePrime n d r a)) := by
  have bits : n - 1 < 2 ^ 512 := (Nat.sub_le n 1).trans_lt fits
  obtain ⟨d, r, run, split, oddPart⟩ := decompose_spec (r := 0) 512 (by omega) bits (by decide)
  obtain ⟨bases, derived, between⟩ := deriveBases_spec digests large fits
  have some : 1 ≤ r := by
    rcases Nat.eq_zero_or_pos r with rfl | pos
    · omega
    · exact pos
  refine ⟨d, r, bases, split, between, ?_⟩
  rw [isPrime, dif_neg (by omega), if_neg (by omega), if_neg (by omega), subThen,
    dif_pos (by omega), run, derived, Nat.zero_add]
  exact allM_ok fun a _ => passes_eq (by omega) fits some d a

theorem isPrime_spec (digests : Digests) (fits : n < 2 ^ 512) :
    ∃ b, isPrime digests n = .ok b ∧ (n.Prime → b = true) := by
  by_cases small : n ≤ 1
  · refine ⟨false, dif_pos small, fun prime => ?_⟩
    exact absurd prime.one_lt (Nat.not_lt.2 small)
  · by_cases least : n = 2 ∨ n = 3
    · refine ⟨true, ?_, fun _ => rfl⟩
      rw [isPrime, dif_neg small, if_pos least]
    · by_cases even : n % 2 = 0
      · refine ⟨false, ?_, fun prime => ?_⟩
        · rw [isPrime, dif_neg small, if_neg least, if_pos even]
        · rcases prime.eq_two_or_odd with two | odd
          · exact absurd (.inl two) least
          · omega
      · obtain ⟨d, r, bases, split, between, run⟩ :=
          isPrime_eq digests (by omega) (by omega) fits
        refine ⟨_, run, fun prime => List.all_eq_true.2 ?_⟩
        intro a ha
        have pos : 0 < a := by
          have := (between a ha).1
          omega
        exact decide_eq_true (strongProbablePrime_of_prime prime split pos (between a ha).2)

/-- No operation of `is_prime` panics, and it misses no prime, whatever the
bases are. -/
theorem isPrime_of_prime (digests : Digests) (fits : n < 2 ^ 512) :
    (∃ b, isPrime digests n = .ok b) ∧ (n.Prime → isPrime digests n = .ok true) := by
  obtain ⟨b, run, complete⟩ := isPrime_spec digests fits
  refine ⟨⟨b, run⟩, fun prime => ?_⟩
  rw [run, complete prime]

/-- Digests of zero bytes for everything. -/
def Digests.zeros : Digests := ⟨fun _ => .replicate 32 0, fun _ => .replicate 64 0⟩

theorem isPrime_of_prime_five : isPrime .zeros 5 = .ok true :=
  (isPrime_of_prime .zeros (by decide +kernel)).2 Nat.prime_five

end Resonance.QPow
