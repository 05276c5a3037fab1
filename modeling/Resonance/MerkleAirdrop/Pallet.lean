import Mathlib.Data.Finset.Insert
import Resonance.Foundation.MachineInt
import Resonance.Foundation.Positional
import Resonance.Foundation.StorageMap
import Resonance.Frame.Vesting

/-!
The merkle-airdrop pallet.

All airdrops pay out of one account of the pallet's, and each keeps its own count of
what it may still pay. A claim is unsigned and proves its amount against the root of
its airdrop; the pool looks at it before a block does. Every dispatchable runs in a
storage layer of its own.
-/
namespace Resonance

def MerkleAirdropError.toCode : MerkleAirdropError → ℕ
  | .airdropNotFound => 1
  | .insufficientAirdropBalance => 2
  | .alreadyClaimed => 3
  | .invalidProof => 4
  | .notAirdropCreator => 5

namespace MerkleAirdrop
open Storage

/-- `[u8; 32]` -/
abbrev MerkleHash := Vector UInt8 32

structure AirdropMetadata (A : Type) where
  merkleRoot : MerkleHash
  creator : A
  balance : ℕ
  vestingPeriod : Option ℕ
  vestingDelay : Option ℕ
deriving DecidableEq

inductive Call (A : Type)
  | createAirdrop (merkleRoot : MerkleHash) (vestingPeriod vestingDelay : Option ℕ)
  | fundAirdrop (airdropId amount : ℕ)
  | claim (airdropId : ℕ) (recipient : A) (amount : ℕ) (merkleProof : List MerkleHash)
  | deleteAirdrop (airdropId : ℕ)
deriving DecidableEq

inductive Event (A : Type)
  | airdropCreated (airdropId : ℕ) (metadata : AirdropMetadata A)
  | airdropFunded (airdropId amount : ℕ)
  | claimed (airdropId : ℕ) (account : A) (amount : ℕ)
  | airdropDeleted (airdropId : ℕ)

structure Config (A V : Type) [DecidableEq A] where
  /-- `account_id()` -/
  accountId : A
  /-- The encoding of an account id. -/
  encode : A → Vector UInt8 32
  encode_injective : ∀ {a a'}, encode a = encode a' → a = a'
  blake2_256 : List UInt8 → MerkleHash
  /-- `BlockNumberToBalance::convert` -/
  blockNumberToBalance : ℕ → ℕ
  unsignedClaimPriority : ℕ
  existentialDeposit : ℕ
  fungible : FungibleMethods A
  laws : FungibleLaws existentialDeposit fungible
  expendable : ExpendableLaws laws
  vesting : Vesting A V
  vestingLaws : VestingLaws laws vesting

structure State (A V : Type) where
  blockNumber : ℕ
  balances : BalancesState A
  vesting : V
  airdropInfo : StorageMap ℕ (AirdropMetadata A)
  claimed : Finset (ℕ × A)
  nextAirdropId : ℕ
  events : List (Event A)

abbrev PalletM (A V : Type) := Storage DispatchError (State A V)

instance : Coe MerkleAirdropError DispatchError := ⟨.merkleAirdrop⟩

variable {A V : Type}

def depositEvent (e : Event A) : PalletM A V PUnit :=
  modify fun s => { s with events := s.events ++ [e] }

def withBalances (x : BalancesM A PUnit) : PalletM A V PUnit :=
  zoom State.balances (fun b s => { s with balances := b }) x

def withVesting (x : Storage DispatchError (BalancesState A × V) PUnit) : PalletM A V PUnit :=
  zoom (fun s => (s.balances, s.vesting)) (fun w s => { s with balances := w.1, vesting := w.2 }) x

/-- `AirdropInfo::mutate(airdrop_id, |m| m.balance = ..)` -/
def mutateBalance (airdropId : ℕ) (f : ℕ → ℕ) : PalletM A V PUnit :=
  modify fun s =>
    match s.airdropInfo.lookup airdropId with
    | some metadata =>
      { s with
        airdropInfo :=
          s.airdropInfo.insert airdropId { metadata with balance := f metadata.balance } }
    | none => s

variable [DecidableEq A] (c : Config A V)

def calculateLeafHashBlake2 (account : A) (amount : ℕ) : MerkleHash :=
  c.blake2_256 ((c.encode account).toList ++ (Positional.toLittleEndian 16 amount).toList)

def calculateParentHashBlake2 (left right : MerkleHash) : MerkleHash :=
  let combined :=
    if left.toList < right.toList then left.toList ++ right.toList
    else right.toList ++ left.toList
  c.blake2_256 combined

def verifyMerkleProof (account : A) (amount : ℕ) (merkleRoot : MerkleHash)
    (merkleProof : List MerkleHash) : Bool :=
  let leaf := calculateLeafHashBlake2 c account amount
  let computedHash := merkleProof.foldl (fun computedHash proofElement =>
    if computedHash.toList < proofElement.toList then
      calculateParentHashBlake2 c computedHash proofElement
    else calculateParentHashBlake2 c proofElement computedHash) leaf
  computedHash == merkleRoot

/-- What the recipient of a claim unlocks with each block. -/
def perBlock (metadata : AirdropMetadata A) (amount : ℕ) : Option ℕ :=
  match metadata.vestingPeriod with
  | some vestingPeriod => MachineInt.checkedDiv amount (c.blockNumberToBalance vestingPeriod)
  | none => some amount

def createAirdrop (origin : RawOrigin A) (merkleRoot : MerkleHash)
    (vestingPeriod vestingDelay : Option ℕ) : PalletM A V PUnit := do
  let who ← ensureSigned origin
  let s ← get
  let airdropId := s.nextAirdropId
  let metadata :=
    { merkleRoot := merkleRoot, creator := who, balance := 0, vestingPeriod := vestingPeriod,
      vestingDelay := vestingDelay }
  set { s with
    airdropInfo := s.airdropInfo.insert airdropId metadata
    nextAirdropId := min (airdropId + 1) u32Max }
  depositEvent (.airdropCreated airdropId metadata)

def fundAirdrop (origin : RawOrigin A) (airdropId amount : ℕ) : PalletM A V PUnit := do
  let who ← ensureSigned origin
  let s ← get
  ensure ((s.airdropInfo.lookup airdropId).isSome) MerkleAirdropError.airdropNotFound
  withBalances (Currency.transfer c.fungible who c.accountId amount .keepAlive)
  mutateBalance airdropId fun balance => min (balance + amount) u128Max
  depositEvent (.airdropFunded airdropId amount)

def claim (origin : RawOrigin A) (airdropId : ℕ) (recipient : A) (amount : ℕ)
    (merkleProof : List MerkleHash) : PalletM A V PUnit := do
  ensureNone origin
  let s ← get
  ensure ((airdropId, recipient) ∉ s.claimed) MerkleAirdropError.alreadyClaimed
  let metadata ← okOr (s.airdropInfo.lookup airdropId) MerkleAirdropError.airdropNotFound
  ensure (verifyMerkleProof c recipient amount metadata.merkleRoot merkleProof)
    MerkleAirdropError.invalidProof
  ensure (metadata.balance ≥ amount) MerkleAirdropError.insufficientAirdropBalance
  modify fun s => { s with claimed := insert (airdropId, recipient) s.claimed }
  mutateBalance airdropId fun balance => balance - amount
  let perBlock ← okOr (perBlock c metadata amount) MerkleAirdropError.insufficientAirdropBalance
  let vestingStart := min (s.blockNumber + metadata.vestingDelay.getD 0) u32Max
  withVesting (c.vesting.vestedTransfer c.accountId recipient amount perBlock vestingStart)
  depositEvent (.claimed airdropId recipient amount)

def deleteAirdrop (origin : RawOrigin A) (airdropId : ℕ) : PalletM A V PUnit := do
  let who ← ensureSigned origin
  let s ← get
  let metadata ← okOr (s.airdropInfo.lookup airdropId) MerkleAirdropError.airdropNotFound
  set { s with airdropInfo := s.airdropInfo.erase airdropId }
  ensure (metadata.creator = who) MerkleAirdropError.notAirdropCreator
  withBalances
    (Currency.transfer c.fungible c.accountId metadata.creator metadata.balance .keepAlive)
  depositEvent (.airdropDeleted airdropId)

def Call.dispatch (call : Call A) (origin : RawOrigin A) : PalletM A V PUnit :=
  transactional (match call with
    | .createAirdrop merkleRoot vestingPeriod vestingDelay =>
      MerkleAirdrop.createAirdrop origin merkleRoot vestingPeriod vestingDelay
    | .fundAirdrop airdropId amount => MerkleAirdrop.fundAirdrop c origin airdropId amount
    | .claim airdropId recipient amount merkleProof =>
      MerkleAirdrop.claim c origin airdropId recipient amount merkleProof
    | .deleteAirdrop airdropId => MerkleAirdrop.deleteAirdrop c origin airdropId)

structure ValidTransaction where
  priority : ℕ
  requires : List (List UInt8)
  provides : List (List UInt8)
  longevity : ℕ
  propagate : Bool
deriving DecidableEq

def u64Max : ℕ := 2 ^ 64 - 1

def validateUnsigned (s : State A V) :
    Call A → Except TransactionValidityError ValidTransaction
  | .claim airdropId recipient amount merkleProof =>
    match s.airdropInfo.lookup airdropId with
    | none => .error (.invalid (.custom MerkleAirdropError.airdropNotFound.toCode))
    | some metadata =>
      if (airdropId, recipient) ∈ s.claimed then
        .error (.invalid (.custom MerkleAirdropError.alreadyClaimed.toCode))
      else if ¬ verifyMerkleProof c recipient amount metadata.merkleRoot merkleProof then
        .error (.invalid (.custom MerkleAirdropError.invalidProof.toCode))
      else
        .ok {
          priority := c.unsignedClaimPriority
          requires := []
          provides := [(Positional.toLittleEndian 4 airdropId).toList ++
            (c.encode recipient).toList ++ (Positional.toLittleEndian 16 amount).toList]
          longevity := u64Max
          propagate := true }
  | _ => .error (.invalid .call)

end MerkleAirdrop
end Resonance
