import Resonance.QPow.Primality

/-!
`get_random_rsa`: the search for the group of a header.

The modulus is rehashed until it is odd, above the base, coprime to it and not
prime. The loop need not stop, so the search has a number of rounds it may
take; running out of them is not an answer, and more rounds never change one.
Whatever the digests are, no round panics, and a pair the search stops at meets
all four conditions at once. Where it stops for every header, its pairs are the
ones the rest of the model takes for granted.
-/
namespace Resonance.QPow
open MachineInt Positional

variable {digests : Digests} {m n fuel fuel' : ℕ} {header : Vector UInt8 32}

section
variable {α : Type}

/-- `a % b`, and what is done with it. -/
def remThen (a b : ℕ) (next : (r : ℕ) → r < b → MathResult α) : MathResult α :=
  if h : b = 0 then .error (.arithmetic .remainderByZero)
  else next (a % b) (Nat.mod_lt a (Nat.pos_of_ne_zero h))

end

/-- `while y != 0`. -/
def euclid (x y : ℕ) : MathResult ℕ :=
  if y = 0 then .ok x else remThen x y fun r _ => euclid y r
termination_by y

def isCoprime (a b : ℕ) : MathResult Bool := do
  let x ← euclid a b
  return x = 1

def sha3_512 (digests : Digests) (input : ℕ) : ℕ :=
  fromBigEndian (digests.sha3_512 (toBigEndian 64 input).toList).toList

/-- The condition of the loop, which asks no further than it has to. -/
def rejected (digests : Digests) (m n : ℕ) : MathResult Bool :=
  if n % 2 = 0 then .ok true
  else if n ≤ m then .ok true
  else do
    let coprime ← isCoprime m n
    if coprime then isPrime digests n else return true

/-- At most `fuel` rounds of the loop. -/
def searchRsa (digests : Digests) (m : ℕ) : (fuel n : ℕ) → MathResult (Option ℕ)
  | 0, _ => .ok none
  | fuel + 1, n => do
      let again ← rejected digests m n
      if again then searchRsa digests m fuel (sha3_512 digests n) else return some n

def getRandomRsa (digests : Digests) (fuel : ℕ) (header : Vector UInt8 32) :
    MathResult (Option (ℕ × ℕ)) := do
  let m := fromBigEndian (digests.sha2_256 header.toList).toList
  let n := fromBigEndian (digests.sha3_512 header.toList).toList
  let found ← searchRsa digests m fuel n
  return found.map fun n => (m, n)

theorem euclid_eq (x y : ℕ) : euclid x y = .ok (Nat.gcd x y) := by
  induction y using Nat.strong_induction_on generalizing x with
  | _ y ih =>
      rw [euclid]
      split
      · rename_i zero
        rw [zero, Nat.gcd_zero_right]
      · rename_i more
        rw [remThen, dif_neg more, ih _ (Nat.mod_lt x (Nat.pos_of_ne_zero more)),
          Nat.gcd_comm x y, Nat.gcd_rec y x, Nat.gcd_comm]

/-- Euclid's loop is right on all pairs, zeros included. -/
theorem isCoprime_eq (a b : ℕ) : isCoprime a b = .ok (decide (Nat.gcd a b = 1)) := by
  rw [isCoprime, euclid_eq]
  rfl

theorem fromBigEndian_lt_512 (bytes : Vector UInt8 64) : fromBigEndian bytes.toList < 2 ^ 512 := by
  have bound := fromBigEndian_lt bytes.toList
  rwa [Vector.length_toList, pow_256_64] at bound

theorem sha3_512_lt (digests : Digests) (n : ℕ) : sha3_512 digests n < 2 ^ 512 :=
  fromBigEndian_lt_512 _

/-- What the search stops at. -/
structure Accepted (m n : ℕ) : Prop where
  odd : n % 2 = 1
  above : m < n
  coprime : Nat.gcd m n = 1
  notPrime : ¬ n.Prime

theorem rejected_spec (digests : Digests) (m : ℕ) (fits : n < 2 ^ 512) :
    ∃ again, rejected digests m n = .ok again ∧ (again = false → Accepted m n) := by
  by_cases even : n % 2 = 0
  · exact ⟨true, if_pos even, fun stop => nomatch stop⟩
  · by_cases low : n ≤ m
    · refine ⟨true, ?_, fun stop => nomatch stop⟩
      rw [rejected, if_neg even, if_pos low]
    · rw [rejected, if_neg even, if_neg low, isCoprime_eq]
      by_cases coprime : Nat.gcd m n = 1
      · obtain ⟨b, run, complete⟩ := isPrime_spec digests fits
        refine ⟨b, ?_, fun stop => ⟨by omega, by omega, coprime, ?_⟩⟩
        · rw [decide_eq_true coprime]
          exact run
        · intro prime
          rw [complete prime] at stop
          cases stop
      · refine ⟨true, ?_, fun stop => nomatch stop⟩
        rw [decide_eq_false coprime]
        rfl

theorem searchRsa_spec (digests : Digests) (m fuel : ℕ) (fits : n < 2 ^ 512) :
    ∃ found, searchRsa digests m fuel n = .ok found ∧ ∀ n' ∈ found, Accepted m n' := by
  induction fuel generalizing n with
  | zero => exact ⟨none, rfl, by simp⟩
  | succ fuel ih =>
      obtain ⟨again, run, stops⟩ := rejected_spec digests m fits
      rw [searchRsa, run]
      cases again with
      | false =>
          refine ⟨some n, rfl, ?_⟩
          intro n' h
          cases h
          exact stops rfl
      | true => exact ih (sha3_512_lt digests n)

theorem searchRsa_mono {found : ℕ} (le : fuel ≤ fuel')
    (h : searchRsa digests m fuel n = .ok (some found)) :
    searchRsa digests m fuel' n = .ok (some found) := by
  induction fuel generalizing fuel' n with
  | zero => cases h
  | succ fuel ih =>
      cases fuel' with
      | zero => exact absurd le (Nat.not_succ_le_zero fuel)
      | succ fuel' =>
          rw [searchRsa, bind_eq_ok_iff] at h ⊢
          obtain ⟨again, run, h⟩ := h
          refine ⟨again, run, ?_⟩
          cases again with
          | false => exact h
          | true => exact ih (Nat.le_of_succ_le_succ le) h

theorem getRandomRsa_spec (digests : Digests) (fuel : ℕ) (header : Vector UInt8 32) :
    ∃ found, getRandomRsa digests fuel header = .ok found ∧ ∀ p ∈ found, Accepted p.1 p.2 := by
  obtain ⟨found, run, accepted⟩ := searchRsa_spec digests
    (fromBigEndian (digests.sha2_256 header.toList).toList) fuel
    (fromBigEndian_lt_512 (digests.sha3_512 header.toList))
  refine ⟨found.map fun n => (fromBigEndian (digests.sha2_256 header.toList).toList, n), ?_, ?_⟩
  · rw [getRandomRsa, run]
    rfl
  · intro p hp
    obtain ⟨n, hn, rfl⟩ := Option.map_eq_some_iff.1 hp
    exact accepted n hn

theorem getRandomRsa_mono {p : ℕ × ℕ} (le : fuel ≤ fuel')
    (h : getRandomRsa digests fuel header = .ok (some p)) :
    getRandomRsa digests fuel' header = .ok (some p) := by
  rw [getRandomRsa, bind_eq_ok_iff] at h ⊢
  obtain ⟨found, run, h⟩ := h
  cases found with
  | none => cases h
  | some n => exact ⟨some n, searchRsa_mono le run, h⟩

/-- Euclid's loop is right on all pairs, the search never panics, and a pair it
stops at meets all the conditions of its loop. -/
theorem getRandomRsa_conditions (digests : Digests) (fuel : ℕ) (header : Vector UInt8 32) :
    (∀ a b, isCoprime a b = .ok (decide (Nat.gcd a b = 1))) ∧
    ∃ found, getRandomRsa digests fuel header = .ok found ∧
      ∀ m n, found = some (m, n) →
        n % 2 = 1 ∧ m < n ∧ Nat.gcd m n = 1 ∧ ¬ n.Prime ∧
        (1 ≤ m → ∃ a b, a < n ∧ b < n ∧ a * b = n) := by
  obtain ⟨found, run, accepted⟩ := getRandomRsa_spec digests fuel header
  refine ⟨isCoprime_eq, found, run, ?_⟩
  rintro m n rfl
  have pair := accepted (m, n) rfl
  refine ⟨pair.odd, pair.above, pair.coprime, pair.notPrime, ?_⟩
  intro pos
  have two : 2 ≤ n := Nat.lt_of_le_of_lt pos pair.above
  exact (Nat.not_prime_iff_exists_mul_eq two).1 pair.notPrime

/-- Digests of a single byte: two, and for the search eight and then nine. -/
def Digests.eightNine : Digests where
  sha2_256 _ := (Vector.replicate 32 0).set 31 2
  sha3_512 bytes := (Vector.replicate 64 0).set 63 (if bytes.length = 64 then 9 else 8)

theorem getRandomRsa_eightNine :
    getRandomRsa .eightNine 2 (Vector.replicate 32 0) = .ok (some (2, 9)) := by
  decide +kernel

/-- The search refuses eight and stops at nine. -/
theorem getRandomRsa_conditions_nine :
    isCoprime 2 8 = .ok false ∧
      getRandomRsa .eightNine 2 (Vector.replicate 32 0) = .ok (some (2, 9)) ∧
      9 % 2 = 1 ∧ 2 < 9 ∧ Nat.gcd 2 9 = 1 ∧ ¬ Nat.Prime 9 ∧
      ∃ a b, a < 9 ∧ b < 9 ∧ a * b = 9 := by
  obtain ⟨euclid, found, run, conditions⟩ :=
    getRandomRsa_conditions .eightNine 2 (Vector.replicate 32 0)
  cases getRandomRsa_eightNine.symm.trans run
  obtain ⟨odd, above, coprime, notPrime, factors⟩ := conditions 2 9 rfl
  exact ⟨euclid 2 8, getRandomRsa_eightNine, odd, above, coprime, notPrime, factors (by decide)⟩

/-- The pair found within `fuel` rounds. -/
def foundWithin (digests : Digests) (header : Vector UInt8 32) (fuel : ℕ) : Option (ℕ × ℕ) :=
  match getRandomRsa digests fuel header with
  | .ok found => found
  | .error _ => none

theorem foundWithin_eq_some_iff {p : ℕ × ℕ} :
    foundWithin digests header fuel = some p ↔
      getRandomRsa digests fuel header = .ok (some p) := by
  simp only [foundWithin]
  cases getRandomRsa digests fuel header with
  | error e => simp
  | ok found => simp

/-- The search stops for every header. -/
def Digests.Stops (digests : Digests) : Prop :=
  ∀ header, ∃ fuel, (foundWithin digests header fuel).isSome

/-- The hashing the digests make, the search being run until it stops. -/
def Digests.hashing (digests : Digests) (stops : digests.Stops) : Hashing where
  getRandomRsa header :=
    have stopped := Nat.find_spec (stops header)
    { m := ((foundWithin digests header (Nat.find (stops header))).get stopped).1
      n := ((foundWithin digests header (Nat.find (stops header))).get stopped).2
      m_lt_n := by
        obtain ⟨found, run, accepted⟩ :=
          getRandomRsa_spec digests (Nat.find (stops header)) header
        have same : found = some _ :=
          Except.ok.inj (run.symm.trans (foundWithin_eq_some_iff.1 (Option.some_get stopped).symm))
        exact (accepted _ same).above }
  sha3_512 := QPow.sha3_512 digests

/-- Its pairs are the ones the search finds, in however many rounds. -/
theorem Digests.hashing_getRandomRsa (stops : digests.Stops) {p : ℕ × ℕ}
    (h : QPow.getRandomRsa digests fuel header = .ok (some p)) :
    ((digests.hashing stops).getRandomRsa header).m = p.1 ∧
      ((digests.hashing stops).getRandomRsa header).n = p.2 := by
  have stopped := Nat.find_spec (stops header)
  have first := foundWithin_eq_some_iff.1 (Option.some_get stopped).symm
  have least : Nat.find (stops header) ≤ fuel := by
    refine Nat.find_min' _ ?_
    rw [foundWithin_eq_some_iff.2 h]
    rfl
  have same := (getRandomRsa_mono least first).symm.trans h
  cases same
  exact ⟨rfl, rfl⟩

end Resonance.QPow
