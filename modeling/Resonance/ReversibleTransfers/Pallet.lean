import Mathlib.Logic.Function.Basic
import Resonance.Balances.Transfers
import Resonance.Frame.Scheduler

/-!
The reversible-transfers pallet.

The pallet keeps one pending entry for all identical transfers of an account and
counts them; each has a task of its own at the scheduler. Calls are kept inline:
a call that `Preimages::bound` moves into a preimage is the call `realize` gives
back. Every dispatchable runs in a storage layer of its own.
-/
namespace Resonance.ReversibleTransfers
open Storage

inductive DelayPolicy
  | explicit
  | intercept
deriving DecidableEq

structure ReversibleAccountData (A : Type) where
  explicitReverser : Option A
  delay : ℕ
  policy : DelayPolicy
deriving DecidableEq

structure PendingTransfer (A : Type) where
  who : A
  call : BalancesCall A
  amount : ℕ
  count : ℕ
deriving DecidableEq

inductive Call (A H : Type)
  | setReversibility (delay : Option ℕ) (policy : DelayPolicy) (reverser : Option A)
  | cancel (txId : H)
  | executeTransfer (txId : H)
  | scheduleTransfer (dest : MultiAddress A) (amount : ℕ)
deriving DecidableEq

inductive Event (A H : Type)
  | reversibilitySet (who : A) (data : ReversibleAccountData A)
  | transactionScheduled (who : A) (txId : H) (executeAt : ℕ)
  | transactionCancelled (who : A) (txId : H)
  | transactionExecuted (txId : H) (result : Except DispatchError PUnit)

/-- What the pallet is configured with, and what it may rely on. -/
structure Config (A H N : Type) [DecidableEq A] [DecidableEq N] where
  maxPendingPerAccount : ℕ
  maxPendingPerAccount_le : maxPendingPerAccount ≤ u32Max
  defaultDelay : ℕ
  minDelayPeriod : ℕ
  minDelayPeriod_pos : 0 < minDelayPeriod
  minDelayPeriod_le : minDelayPeriod ≤ defaultDelay
  /-- `account_id()` -/
  accountId : A
  /-- `Hashing::hash_of(&(who, call).encode())` -/
  hashOf : A → BalancesCall A → H
  hashOf_injective : ∀ {a a' call call'}, hashOf a call = hashOf a' call' → a = a' ∧ call = call'
  /-- `make_schedule_id` -/
  makeScheduleId : H → ℕ → N
  makeScheduleId_injective : ∀ {t t' k k'},
    makeScheduleId t k = makeScheduleId t' k' → t = t' ∧ k = k'
  existentialDeposit : ℕ
  fungible : FungibleMethods A
  laws : FungibleLaws existentialDeposit fungible
  scheduler : NamedScheduler N A (Call A H)

structure State (A H N : Type) where
  blockNumber : ℕ
  balances : BalancesState A
  /-- The live tasks of the scheduler. -/
  tasks : Tasks N A (Call A H)
  reversibleAccounts : A → Option (ReversibleAccountData A)
  pendingTransfers : StorageMap H (PendingTransfer A)
  accountPendingIndex : A → ℕ
  /-- The events of the block. -/
  events : List (Event A H)

abbrev PalletM (A H N : Type) := Storage DispatchError (State A H N)

instance : Coe ReversibleTransfersError DispatchError := ⟨.reversibleTransfers⟩

variable {A H N : Type}

def depositEvent (e : Event A H) : PalletM A H N PUnit :=
  modify fun s => { s with events := s.events ++ [e] }

def withBalances (x : BalancesM A PUnit) : PalletM A H N PUnit :=
  zoom State.balances (fun b s => { s with balances := b }) x

/-- A call to the scheduler whose error is replaced by one of the pallet's. -/
def withTasks (e : ReversibleTransfersError)
    (x : Storage SchedulerError (Tasks N A (Call A H)) PUnit) : PalletM A H N PUnit :=
  mapError (fun _ => e) (zoom State.tasks (fun t s => { s with tasks := t }) x)

variable [DecidableEq A] [DecidableEq H] [DecidableEq N] (c : Config A H N)

def setPendingIndex (who : A) (index : ℕ) : PalletM A H N PUnit :=
  modify fun s =>
    { s with accountPendingIndex := Function.update s.accountPendingIndex who index }

/-- `AccountPendingIndex::mutate(who, |count| *count = count.saturating_sub(1))` -/
def decrementPendingIndex (who : A) : PalletM A H N PUnit := do
  let s ← get
  setPendingIndex who (s.accountPendingIndex who - 1)

/-- One instance less of a pending transfer, the entry removed with its last. -/
def withoutInstance (m : StorageMap H (PendingTransfer A)) (txId : H)
    (pending : PendingTransfer A) : StorageMap H (PendingTransfer A) :=
  if pending.count > 1 then m.insert txId { pending with count := pending.count - 1 }
  else m.erase txId

def removeInstance (txId : H) (pending : PendingTransfer A) : PalletM A H N PUnit :=
  modify fun s => { s with pendingTransfers := withoutInstance s.pendingTransfers txId pending }

/-- The count of the entry once one more instance is pending. -/
def State.nextCount (s : State A H N) (txId : H) : ℕ :=
  match s.pendingTransfers.lookup txId with
  | some pending => min (pending.count + 1) u32Max
  | none => 1

def setReversibility (origin : RawOrigin A) (delay : Option ℕ) (policy : DelayPolicy)
    (reverser : Option A) : PalletM A H N PUnit := do
  let who ← ensureSigned origin
  let s ← get
  ensure ((s.reversibleAccounts who).isNone) ReversibleTransfersError.accountAlreadyReversible
  ensure (reverser ≠ some who) ReversibleTransfersError.explicitReverserCanNotBeSelf
  let delay := delay.getD c.defaultDelay
  ensure (delay ≥ c.minDelayPeriod) ReversibleTransfersError.delayTooShort
  let data := { explicitReverser := reverser, delay := delay, policy := policy }
  set { s with reversibleAccounts := Function.update s.reversibleAccounts who (some data) }
  depositEvent (.reversibilitySet who data)

def cancelTransfer (who : A) (txId : H) : PalletM A H N PUnit := do
  let s ← get
  let pending ← okOr (s.pendingTransfers.lookup txId) ReversibleTransfersError.pendingTxNotFound
  let data ← okOr (s.reversibleAccounts pending.who) ReversibleTransfersError.accountNotReversible
  (match data.explicitReverser with
    | some explicitReverser =>
      ensure (who = explicitReverser) ReversibleTransfersError.invalidReverser
    | none => ensure (pending.who = who) ReversibleTransfersError.notOwner)
  removeInstance txId pending
  decrementPendingIndex pending.who
  withTasks .cancellationFailed
    (c.scheduler.cancelNamed (c.makeScheduleId txId pending.count))
  (match data.explicitReverser with
    | some reverser => withBalances
      (c.fungible.transferOnHold .scheduledTransfer pending.who reverser pending.amount)
    | none => withBalances (c.fungible.release .scheduledTransfer pending.who pending.amount))
  depositEvent (.transactionCancelled who txId)

def cancel (origin : RawOrigin A) (txId : H) : PalletM A H N PUnit := do
  let who ← ensureSigned origin
  cancelTransfer c who txId

def doExecuteTransfer (txId : H) : PalletM A H N PUnit := do
  let s ← get
  let pending ← okOr (s.pendingTransfers.lookup txId) ReversibleTransfersError.pendingTxNotFound
  withBalances (c.fungible.release .scheduledTransfer pending.who pending.amount)
  let postInfo ← attempt (withBalances
    (pending.call.dispatch c.existentialDeposit c.fungible (.signed pending.who)))
  decrementPendingIndex pending.who
  removeInstance txId pending
  depositEvent (.transactionExecuted txId postInfo)
  ofResult postInfo

def executeTransfer (origin : RawOrigin A) (txId : H) : PalletM A H N PUnit := do
  let who ← ensureSigned origin
  ensure (who = c.accountId) ReversibleTransfersError.invalidSchedulerOrigin
  doExecuteTransfer c txId

def doScheduleTransfer (origin : RawOrigin A) (dest : MultiAddress A) (amount : ℕ) :
    PalletM A H N PUnit := do
  let who ← ensureSigned origin
  let s ← get
  let data ← okOr (s.reversibleAccounts who) ReversibleTransfersError.accountNotReversible
  (match data.explicitReverser with
    | some reverser => ensure (who ≠ reverser) ReversibleTransfersError.invalidReverser
    | none => pure ⟨⟩)
  let transferCall := .transferKeepAlive dest amount
  let txId := c.hashOf who transferCall
  let currentCount := s.accountPendingIndex who
  ensure (currentCount < c.maxPendingPerAccount)
    ReversibleTransfersError.tooManyPendingTransactions
  setPendingIndex who (min (currentCount + 1) u32Max)
  let dispatchTime := min (s.blockNumber + data.delay) u32Max
  let newPending :=
    { who := who, call := transferCall, amount := amount, count := s.nextCount txId }
  modify fun s => { s with pendingTransfers := s.pendingTransfers.insert txId newPending }
  withTasks .schedulingFailed
    (c.scheduler.scheduleNamed s.blockNumber (c.makeScheduleId txId newPending.count)
      { when := dispatchTime, origin := .signed c.accountId, call := .executeTransfer txId })
  withBalances (c.fungible.hold .scheduledTransfer who amount)
  depositEvent (.transactionScheduled who txId dispatchTime)

def scheduleTransfer (origin : RawOrigin A) (dest : MultiAddress A) (amount : ℕ) :
    PalletM A H N PUnit :=
  doScheduleTransfer c origin dest amount

def Call.dispatch (call : Call A H) (origin : RawOrigin A) : PalletM A H N PUnit :=
  transactional (match call with
    | .setReversibility delay policy reverser =>
      ReversibleTransfers.setReversibility c origin delay policy reverser
    | .cancel txId => ReversibleTransfers.cancel c origin txId
    | .executeTransfer txId => ReversibleTransfers.executeTransfer c origin txId
    | .scheduleTransfer dest amount =>
      ReversibleTransfers.scheduleTransfer c origin dest amount)

end Resonance.ReversibleTransfers
