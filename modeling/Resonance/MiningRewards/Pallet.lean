import Resonance.Balances.Deposits
import Resonance.Client.HeaderTree

/-!
The mining-rewards pallet.

Transaction fees arrive as imbalances: their amount is noted in `CollectedFees`, and
the imbalance is dropped, which takes it out of the total issuance. When a block is
finalised, the first pre-runtime digest of the proof-of-work engine that decodes to an
account names the miner, who is issued the block reward and all fees noted by then.
-/
namespace Resonance.MiningRewards
open Storage

structure Config (A : Type) where
  /-- `T::AccountId::decode` -/
  decode : List UInt8 → Option A
  blockReward : ℕ
  existentialDeposit : ℕ

inductive Event (A : Type)
  | minerRewarded (block : ℕ) (miner : A) (reward : ℕ)
  | feesCollected (amount total : ℕ)
deriving DecidableEq

structure State (A : Type) where
  blockNumber : ℕ
  digest : List DigestItem
  balances : BalancesState A
  collectedFees : ℕ
  events : List (Event A)

abbrev PalletM (A : Type) := Storage DispatchError (State A)

section
variable {A : Type}

def depositEvent (e : Event A) : PalletM A PUnit :=
  modify fun s => { s with events := s.events ++ [e] }

def withBalances {R : Type} (x : BalancesM A R) : PalletM A R :=
  zoom State.balances (fun b s => { s with balances := b }) x

def Config.minerOf (c : Config A) : DigestItem → Option A
  | .preRuntime engineId data => if engineId = POW_ENGINE_ID then c.decode data else none
  | _ => none

def extractMinerFromDigest (c : Config A) (logs : List DigestItem) : Option A :=
  logs.findSome? c.minerOf

def onFinalize [DecidableEq A] (c : Config A) (blockNumber : ℕ) : PalletM A PUnit := do
  let s ← get
  match extractMinerFromDigest c s.digest with
  | some miner =>
    set { s with collectedFees := 0 }
    let totalReward := min (c.blockReward + s.collectedFees) u128Max
    let rewardImbalance ← withBalances (Currency.issue totalReward)
    withBalances (Currency.resolveCreating c.existentialDeposit miner rewardImbalance)
    depositEvent (.minerRewarded blockNumber miner totalReward)
  | none => pure ⟨⟩

def collectTransactionFees (fees : ℕ) : PalletM A PUnit := do
  modify fun s => { s with collectedFees := min (s.collectedFees + fees) u128Max }
  let s ← get
  depositEvent (.feesCollected fees s.collectedFees)

/-- `TransactionFeesCollector::on_nonzero_unbalanced` -/
def onNonzeroUnbalanced (amount : ℕ) : PalletM A PUnit := do
  collectTransactionFees amount
  withBalances (Currency.dropNegative amount)

/-- `OnUnbalanced::on_unbalanced` -/
def onUnbalanced (amount : ℕ) : PalletM A PUnit :=
  if amount = 0 then pure ⟨⟩ else onNonzeroUnbalanced amount

end
end Resonance.MiningRewards
