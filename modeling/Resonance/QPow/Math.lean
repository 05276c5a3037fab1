import Resonance.Foundation.MachineInt
import Resonance.Foundation.Positional

/-!
`qpow-math`: which nonces are valid for a header hash.

Numbers are `U512`. SHA3-512 and the pair at which the search of
`get_random_rsa` stops are parameters; the search goes on until the second
number is above the first, so the modulus of `mod_pow` is never the zero the
source panics on.
-/
namespace Resonance.QPow
open MachineInt Positional

structure RsaPair where
  m : ℕ
  n : ℕ
  m_lt_n : m < n

structure Hashing where
  getRandomRsa : (header : Vector UInt8 32) → RsaPair
  sha3_512 : (input : ℕ) → ℕ

/-- The square and multiply loop of `mod_pow`. -/
def modPowLoop (modulus base exp result : ℕ) : ℕ :=
  if exp = 0 then result
  else
    modPowLoop modulus (base * base % modulus) (exp / 2)
      (if exp % 2 = 1 then result * base % modulus else result)
termination_by exp

def modPow (base exponent modulus : ℕ) (_ : 0 < modulus) : ℕ :=
  modPowLoop modulus base exponent 1

def hashToGroupBigint (h : ℕ) (rsa : RsaPair) (solution : ℕ) : ℕ :=
  modPow rsa.m (saturatingAdd 512 h solution) rsa.n (Nat.zero_lt_of_lt rsa.m_lt_n)

variable (hashing : Hashing)

def hashToGroupBigintSha (h : ℕ) (rsa : RsaPair) (solution : ℕ) : ℕ :=
  hashing.sha3_512 (hashToGroupBigint h rsa solution)

def getNonceDistance (header : Vector UInt8 32) (nonce : Vector UInt8 64) : ℕ :=
  if nonce = Vector.replicate 64 0 then 0
  else
    let rsa := hashing.getRandomRsa header
    let headerInt := fromBigEndian header.toList
    let nonceInt := fromBigEndian nonce.toList
    let target := hashToGroupBigintSha hashing headerInt rsa 0
    let nonceElement := hashToGroupBigintSha hashing headerInt rsa nonceInt
    target ^^^ nonceElement

def isValidNonce (header : Vector UInt8 32) (nonce : Vector UInt8 64) (threshold : ℕ) : Bool :=
  if nonce = Vector.replicate 64 0 then false
  else decide (getNonceDistance hashing header nonce ≤ threshold)

end Resonance.QPow
