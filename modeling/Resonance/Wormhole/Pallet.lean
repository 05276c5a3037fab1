import Mathlib.Data.Finset.Insert
import Resonance.Balances.Deposits
import Resonance.Foundation.Positional

/-!
The wormhole pallet.

A proof says in its public inputs under which nullifier it withdraws, to which account
and how much. The one call checks that the nullifier is unused and that the proof
verifies, marks the nullifier and mints the amount. How proofs are decoded and verified
is the business of the proof system and a parameter; the public inputs are read field by
field, and a read beyond the last field panics.
-/
namespace Resonance
namespace Wormhole
open Storage

/-- `P` are the decoded proofs. -/
structure Config (A P : Type) where
  /-- `ProofWithPublicInputs::from_bytes` -/
  fromBytes : List UInt8 → Option P
  /-- The public inputs, each as a canonical `u64`. -/
  publicInputs : P → List UInt64
  /-- `VERIFIER_DATA.verify` -/
  verify : P → Bool
  /-- `T::AccountId::decode` -/
  decode : List UInt8 → Option A
  existentialDeposit : ℕ

structure WormholePublicInputs (A : Type) where
  /-- `[u8; 64]` -/
  nullifier : List UInt8
  exitAccount : A
  exitAmount : UInt64
  feeAmount : UInt64
  /-- `[u8; 32]` -/
  storageRoot : List UInt8
deriving DecidableEq

inductive Event
  | proofVerified (exitAmount : ℕ)
deriving DecidableEq

/-- A call fails with an error, or panics at an index out of bounds. -/
inductive Failure
  | error (e : DispatchError)
  | panic (index : ℕ)
deriving DecidableEq

instance : Coe WormholeError Failure := ⟨fun e => .error (.wormhole e)⟩

structure State (A : Type) where
  balances : BalancesState A
  usedNullifiers : Finset (List UInt8)
  events : List Event

abbrev PalletM (A : Type) := Storage Failure (State A)

section
variable {A P : Type}

def depositEvent (e : Event) : PalletM A PUnit :=
  modify fun s => { s with events := s.events ++ [e] }

def withBalances {R : Type} (x : BalancesM A R) : PalletM A R :=
  mapError .error (zoom State.balances (fun b s => { s with balances := b }) x)

/-- `fields[i]` -/
def field (fields : List UInt64) (i : ℕ) : Except Failure UInt64 :=
  match fields[i]? with
  | some x => .ok x
  | none => .error (.panic i)

/-- The little-endian bytes of `len` fields from `start` on. -/
def fieldBytes (fields : List UInt64) (start len : ℕ) : Except Failure (List UInt8) := do
  let read ← (List.range' start len).mapM (field fields)
  pure (read.flatMap fun x => (Positional.toLittleEndian 8 x.toNat).toList)

def fromFields (c : Config A P) (fields : List UInt64) :
    Except Failure (WormholePublicInputs A) := do
  if fields.length < 16 then throw (WormholeError.invalidPublicInputs : Failure)
  let nullifier ← fieldBytes fields 0 8
  let accountBytes ← fieldBytes fields 8 4
  let exitAmount ← field fields 12
  let feeAmount ← field fields 13
  let storageRoot ← fieldBytes fields 14 4
  match c.decode accountBytes with
  | some exitAccount =>
    pure {
      nullifier := nullifier
      exitAccount := exitAccount
      exitAmount := exitAmount
      feeAmount := feeAmount
      storageRoot := storageRoot }
  | none => throw (WormholeError.invalidPublicInputs : Failure)

/-- An amount is a `u64`, so its conversion to a balance never fails. -/
def verifyWormholeProof [DecidableEq A] (c : Config A P) (origin : RawOrigin A)
    (proofBytes : List UInt8) : PalletM A PUnit := do
  mapError .error (ensureNone origin)
  let proof ← okOr (c.fromBytes proofBytes) WormholeError.proofDeserializationFailed
  let publicInputs ← ofResult (fromFields c (c.publicInputs proof))
  let s ← get
  ensure (publicInputs.nullifier ∉ s.usedNullifiers) WormholeError.nullifierAlreadyUsed
  ensure (c.verify proof) WormholeError.verificationFailed
  modify fun s => { s with usedNullifiers := insert publicInputs.nullifier s.usedNullifiers }
  let exitBalance := publicInputs.exitAmount.toNat
  let imbalance ← withBalances
    (Currency.depositCreating c.existentialDeposit publicInputs.exitAccount exitBalance)
  withBalances (Currency.dropPositive imbalance)
  depositEvent (.proofVerified exitBalance)

def dispatch [DecidableEq A] (c : Config A P) (origin : RawOrigin A) (proofBytes : List UInt8) :
    PalletM A PUnit :=
  transactional (verifyWormholeProof c origin proofBytes)

end
end Wormhole
end Resonance
