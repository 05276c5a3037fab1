import Resonance.Foundation.Storage
import Mathlib.Algebra.Group.Nat.Defs
import Mathlib.Order.Lattice

/-!
The small part of FRAME every pallet here uses: fixed-width limits, dispatch
errors, origins and address lookup.

Balances are `u128`, counters and block numbers `u32`; their values are natural
numbers, and an operation that saturates or is checked in the source says so
where it is used.
-/
namespace Resonance
open Storage

def u32Max : ℕ := 2 ^ 32 - 1
def u128Max : ℕ := 2 ^ 128 - 1

inductive TokenError
  | fundsUnavailable
  | onlyProvider
  | belowMinimum
  | cannotCreate
  | unknownAsset
  | frozen
  | unsupported
  | cannotCreateHold
  | notExpendable
  | blocked
deriving DecidableEq

inductive ArithmeticError
  | underflow
  | overflow
  | divisionByZero
deriving DecidableEq

/-- `Error<T>` of the reversible-transfers pallet. -/
inductive ReversibleTransfersError
  | accountAlreadyReversible
  | accountNotReversible
  | explicitReverserCanNotBeSelf
  | pendingTxNotFound
  | notOwner
  | tooManyPendingTransactions
  | delayTooShort
  | schedulingFailed
  | cancellationFailed
  | callDecodingFailed
  | invalidCall
  | invalidSchedulerOrigin
  | invalidReverser
deriving DecidableEq

inductive SchedulerError
  | failedToSchedule
  | notFound
  | targetBlockNumberInPast
deriving DecidableEq

inductive SystemError
  | callFiltered
deriving DecidableEq

inductive UtilityError
  | tooManyCalls
deriving DecidableEq

/-- `Error<T>` of the merkle-airdrop pallet. -/
inductive MerkleAirdropError
  | airdropNotFound
  | insufficientAirdropBalance
  | alreadyClaimed
  | invalidProof
  | notAirdropCreator
deriving DecidableEq

/-- `Error<T>` of the wormhole pallet. -/
inductive WormholeError
  | invalidProof
  | proofDeserializationFailed
  | invalidVerificationKey
  | notInitialized
  | alreadyInitialized
  | verificationFailed
  | verifierNotFound
  | invalidPublicInputs
  | nullifierAlreadyUsed
deriving DecidableEq

inductive DispatchError
  | other (text : String)
  | cannotLookup
  | badOrigin
  | consumerRemaining
  | noProviders
  | tooManyConsumers
  | token (e : TokenError)
  | arithmetic (e : ArithmeticError)
  | exhausted
  | reversibleTransfers (e : ReversibleTransfersError)
  | scheduler (e : SchedulerError)
  | system (e : SystemError)
  | utility (e : UtilityError)
  | merkleAirdrop (e : MerkleAirdropError)
  | wormhole (e : WormholeError)
deriving DecidableEq

inductive InvalidTransaction
  | call
  | payment
  | future
  | stale
  | badSigner
  | custom (code : ℕ)
deriving DecidableEq

inductive UnknownTransaction
  | custom (code : ℕ)
deriving DecidableEq

inductive TransactionValidityError
  | invalid (e : InvalidTransaction)
  | unknown (e : UnknownTransaction)
deriving DecidableEq

inductive RawOrigin (A : Type)
  | root
  | signed (who : A)
  | none
deriving DecidableEq

inductive MultiAddress (A : Type)
  | id (account : A)
  | index
  | raw (bytes : List UInt8)
  | address32 (bytes : Vector UInt8 32)
  | address20 (bytes : Vector UInt8 20)
deriving DecidableEq

/-- `AccountIdLookup`: only an account id is resolved. -/
def MultiAddress.lookup {A : Type} : MultiAddress A → Option A
  | .id account => some account
  | _ => none

variable {A σ α : Type}

def ensureSigned (origin : RawOrigin A) : Storage DispatchError σ A :=
  match origin with
  | .signed who => pure who
  | _ => throw .badOrigin

def ensureRoot (origin : RawOrigin A) : Storage DispatchError σ PUnit :=
  match origin with
  | .root => pure ⟨⟩
  | _ => throw .badOrigin

def ensureNone (origin : RawOrigin A) : Storage DispatchError σ PUnit :=
  match origin with
  | .none => pure ⟨⟩
  | _ => throw .badOrigin

def lookup (address : MultiAddress A) : Storage DispatchError σ A :=
  okOr address.lookup .cannotLookup

theorem ensureSigned_bind_ok_iff {origin : RawOrigin A} {f : A → Storage DispatchError σ α}
    {s s' : σ} {a : α} :
    exec (ensureSigned origin >>= f) s = (.ok a, s') ↔
      ∃ who, origin = .signed who ∧ exec (f who) s = (.ok a, s') := by
  cases origin with
  | root => simp [ensureSigned]
  | signed who => simp [ensureSigned]
  | none => simp [ensureSigned]

theorem ensureRoot_bind_ok_iff {origin : RawOrigin A} {f : PUnit → Storage DispatchError σ α}
    {s s' : σ} {a : α} :
    exec (ensureRoot origin >>= f) s = (.ok a, s') ↔
      origin = .root ∧ exec (f ⟨⟩) s = (.ok a, s') := by
  cases origin with
  | root => simp [ensureRoot]
  | signed who => simp [ensureRoot]
  | none => simp [ensureRoot]

theorem ensureNone_bind_ok_iff {origin : RawOrigin A} {f : PUnit → Storage DispatchError σ α}
    {s s' : σ} {a : α} :
    exec (ensureNone origin >>= f) s = (.ok a, s') ↔
      origin = .none ∧ exec (f ⟨⟩) s = (.ok a, s') := by
  cases origin with
  | root => simp [ensureNone]
  | signed who => simp [ensureNone]
  | none => simp [ensureNone]

end Resonance
