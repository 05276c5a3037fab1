import Resonance.ReversibleTransfers.Pallet

/-!
What a call of the pallet leaves behind when it succeeds.

A successful scheduling adds one instance and its task; a successful
cancellation or execution settles one instance. One lemma for each operation says
under which checks it succeeds and names the state it ends in. Nothing after this
module unfolds an operation.
-/
namespace Resonance.ReversibleTransfers
open Storage
variable {A H N : Type} [DecidableEq A] [DecidableEq H] [DecidableEq N] {c : Config A H N}
  {s s' : State A H N}

namespace State

def reversibilitySet (s : State A H N) (who : A) (data : ReversibleAccountData A) :
    State A H N :=
  { s with
    reversibleAccounts := Function.update s.reversibleAccounts who (some data)
    events := s.events ++ [.reversibilitySet who data] }

/-- One more instance of `call` pending, due after `delay` blocks. -/
def scheduled (c : Config A H N) (s : State A H N) (who : A) (call : BalancesCall A)
    (amount delay : ℕ) (b : BalancesState A) : State A H N :=
  let txId := c.hashOf who call
  let dispatchTime := min (s.blockNumber + delay) u32Max
  { s with
    balances := b
    tasks := s.tasks.insert (c.makeScheduleId txId (s.nextCount txId))
      { when := dispatchTime, origin := .signed c.accountId, call := .executeTransfer txId }
    pendingTransfers := s.pendingTransfers.insert txId
      { who := who, call := call, amount := amount, count := s.nextCount txId }
    accountPendingIndex := Function.update s.accountPendingIndex who
      (min (s.accountPendingIndex who + 1) u32Max)
    events := s.events ++ [.transactionScheduled who txId dispatchTime] }

/-- One instance of `pending` cancelled or executed. -/
def settled (s : State A H N) (txId : H) (pending : PendingTransfer A)
    (tasks : Tasks N A (Call A H)) (b : BalancesState A) (e : Event A H) : State A H N :=
  { s with
    balances := b
    tasks := tasks
    pendingTransfers := withoutInstance s.pendingTransfers txId pending
    accountPendingIndex := Function.update s.accountPendingIndex pending.who
      (s.accountPendingIndex pending.who - 1)
    events := s.events ++ [e] }

end State

/-- Cancelling moves the held amount to the explicit reverser, or back to the
owner when there is none; either is the caller. -/
inductive Refunds (c : Config A H N) (caller : A) (data : ReversibleAccountData A)
    (pending : PendingTransfer A) (b b' : BalancesState A) : Prop
  | toReverser : data.explicitReverser = some caller →
      exec (c.fungible.transferOnHold .scheduledTransfer pending.who caller pending.amount) b =
        (.ok ⟨⟩, b') → Refunds c caller data pending b b'
  | toOwner : data.explicitReverser = none → pending.who = caller →
      exec (c.fungible.release .scheduledTransfer pending.who pending.amount) b =
        (.ok ⟨⟩, b') → Refunds c caller data pending b b'

omit [DecidableEq A] [DecidableEq H] [DecidableEq N] in
theorem withBalances_ok_iff {x : BalancesM A PUnit} :
    exec (withBalances x) s = (.ok ⟨⟩, s') ↔
      ∃ b, exec x s.balances = (.ok ⟨⟩, b) ∧ { s with balances := b } = s' :=
  zoom_ok_iff

omit [DecidableEq A] [DecidableEq H] [DecidableEq N] in
theorem withTasks_ok_iff {e : ReversibleTransfersError}
    {x : Storage SchedulerError (Tasks N A (Call A H)) PUnit} :
    exec (withTasks e x) s = (.ok ⟨⟩, s') ↔
      ∃ t, exec x s.tasks = (.ok ⟨⟩, t) ∧ { s with tasks := t } = s' := by
  simp only [withTasks]
  rw [mapError_ok_iff]
  exact zoom_ok_iff

omit [DecidableEq H] in
theorem setReversibility_ok {origin : RawOrigin A} {delay : Option ℕ} {policy : DelayPolicy}
    {reverser : Option A}
    (run : exec (setReversibility c origin delay policy reverser) s = (.ok ⟨⟩, s')) :
    ∃ who, origin = .signed who ∧ s.reversibleAccounts who = none ∧ reverser ≠ some who ∧
      c.minDelayPeriod ≤ delay.getD c.defaultDelay ∧
      s' = s.reversibilitySet who ⟨reverser, delay.getD c.defaultDelay, policy⟩ := by
  obtain ⟨who, signed, run⟩ := ensureSigned_bind_ok_iff.mp run
  rw [exec_get_bind] at run
  obtain ⟨fresh, run⟩ := ensure_bind_ok_iff.mp run
  obtain ⟨differ, run⟩ := ensure_bind_ok_iff.mp run
  obtain ⟨long, run⟩ := ensure_bind_ok_iff.mp run
  cases run
  exact ⟨who, signed, Option.isNone_iff_eq_none.mp fresh, differ, long, rfl⟩

theorem scheduleTransfer_ok {origin : RawOrigin A} {dest : MultiAddress A} {amount : ℕ}
    (run : exec (scheduleTransfer c origin dest amount) s = (.ok ⟨⟩, s')) :
    ∃ who data b, origin = .signed who ∧ s.reversibleAccounts who = some data ∧
      s.accountPendingIndex who < c.maxPendingPerAccount ∧
      s.tasks.lookup (c.makeScheduleId (c.hashOf who (.transferKeepAlive dest amount))
        (s.nextCount (c.hashOf who (.transferKeepAlive dest amount)))) = none ∧
      exec (c.fungible.hold .scheduledTransfer who amount) s.balances = (.ok ⟨⟩, b) ∧
      s' = s.scheduled c who (.transferKeepAlive dest amount) amount data.delay b := by
  obtain ⟨who, signed, run⟩ := ensureSigned_bind_ok_iff.mp run
  rw [exec_get_bind] at run
  obtain ⟨data, reversible, run⟩ := okOr_bind_ok_iff.mp run
  obtain ⟨_, s₁, checked, run⟩ := bind_ok_iff.mp run
  have unchanged : s₁ = s := by
    cases h : data.explicitReverser with
    | some reverser =>
        rw [h] at checked
        exact (ensure_ok_iff.mp checked).2.symm
    | none =>
        rw [h] at checked
        cases checked
        rfl
  subst unchanged
  obtain ⟨below, run⟩ := ensure_bind_ok_iff.mp run
  rw [setPendingIndex, exec_modify_bind, exec_modify_bind] at run
  obtain ⟨_, s₂, registered, run⟩ := bind_ok_iff.mp run
  obtain ⟨t, added, rfl⟩ := withTasks_ok_iff.mp registered
  obtain ⟨free, -, rfl⟩ := c.scheduler.scheduleNamed_adds added
  obtain ⟨_, s₃, holding, run⟩ := bind_ok_iff.mp run
  obtain ⟨b, held, rfl⟩ := withBalances_ok_iff.mp holding
  cases run
  exact ⟨who, data, b, signed, reversible, below, free, held, rfl⟩

theorem cancel_ok {origin : RawOrigin A} {txId : H}
    (run : exec (cancel c origin txId) s = (.ok ⟨⟩, s')) :
    ∃ who pending data b, origin = .signed who ∧
      s.pendingTransfers.lookup txId = some pending ∧
      s.reversibleAccounts pending.who = some data ∧
      (s.tasks.lookup (c.makeScheduleId txId pending.count)).isSome ∧
      Refunds c who data pending s.balances b ∧
      s' = s.settled txId pending (s.tasks.erase (c.makeScheduleId txId pending.count)) b
        (.transactionCancelled who txId) := by
  obtain ⟨who, signed, run⟩ := ensureSigned_bind_ok_iff.mp run
  simp only [cancelTransfer] at run
  rw [exec_get_bind] at run
  obtain ⟨pending, found, run⟩ := okOr_bind_ok_iff.mp run
  obtain ⟨data, reversible, run⟩ := okOr_bind_ok_iff.mp run
  obtain ⟨_, s₁, checked, run⟩ := bind_ok_iff.mp run
  rw [removeInstance, exec_modify_bind, decrementPendingIndex] at run
  obtain ⟨_, s₂, decremented, run⟩ := bind_ok_iff.mp run
  rw [exec_get_bind] at decremented
  cases decremented
  obtain ⟨_, s₃, cancelling, run⟩ := bind_ok_iff.mp run
  obtain ⟨t, cancelled, rfl⟩ := withTasks_ok_iff.mp cancelling
  obtain ⟨live, rfl⟩ := c.scheduler.cancelNamed_ok_iff.mp cancelled
  obtain ⟨_, s₄, refunded, run⟩ := bind_ok_iff.mp run
  cases run
  cases h : data.explicitReverser with
  | some reverser =>
      rw [h] at checked refunded
      obtain ⟨rfl, rfl⟩ := ensure_ok_iff.mp checked
      obtain ⟨b, moved, rfl⟩ := withBalances_ok_iff.mp refunded
      exact ⟨who, pending, data, b, signed, found, reversible, live, .toReverser h moved, rfl⟩
  | none =>
      rw [h] at checked refunded
      obtain ⟨owner, rfl⟩ := ensure_ok_iff.mp checked
      obtain ⟨b, moved, rfl⟩ := withBalances_ok_iff.mp refunded
      exact ⟨who, pending, data, b, signed, found, reversible, live, .toOwner h owner moved, rfl⟩

/-- The release and the recorded transfer both have to succeed: the outcome of the
transfer is the outcome of the call. -/
theorem executeTransfer_ok_iff {origin : RawOrigin A} {txId : H} :
    exec (executeTransfer c origin txId) s = (.ok ⟨⟩, s') ↔
      origin = .signed c.accountId ∧ ∃ pending b₁ b₂,
        s.pendingTransfers.lookup txId = some pending ∧
        exec (c.fungible.release .scheduledTransfer pending.who pending.amount) s.balances =
          (.ok ⟨⟩, b₁) ∧
        exec (pending.call.dispatch c.existentialDeposit c.fungible (.signed pending.who)) b₁ =
          (.ok ⟨⟩, b₂) ∧
        s' = s.settled txId pending s.tasks b₂ (.transactionExecuted txId (.ok ⟨⟩)) := by
  simp only [executeTransfer, doExecuteTransfer]
  simp only [ensureSigned_bind_ok_iff, ensure_bind_ok_iff, exec_get_bind, okOr_bind_ok_iff]
  constructor
  · rintro ⟨who, signed, isPallet, pending, found, run⟩
    subst isPallet
    obtain ⟨_, s₁, releasing, run⟩ := bind_ok_iff.mp run
    obtain ⟨b₁, released, rfl⟩ := withBalances_ok_iff.mp releasing
    rw [exec_attempt_bind, withBalances, exec_zoom] at run
    dsimp only at run
    rcases h : exec (pending.call.dispatch c.existentialDeposit c.fungible
      (.signed pending.who)) b₁ with ⟨outcome, b₂⟩
    rw [h] at run
    obtain ⟨_, s₂, decrementing, run⟩ := bind_ok_iff.mp run
    cases decrementing
    rw [removeInstance, exec_modify_bind, depositEvent, exec_modify_bind, ofResult_ok_iff] at run
    obtain ⟨rfl, rfl⟩ := run
    exact ⟨signed, pending, b₁, b₂, found, released, h, rfl⟩
  · rintro ⟨signed, pending, b₁, b₂, found, released, moved, settled⟩
    subst settled
    refine ⟨c.accountId, signed, rfl, pending, found, ?_⟩
    refine bind_ok_iff.mpr ⟨⟨⟩, _, withBalances_ok_iff.mpr ⟨b₁, released, rfl⟩, ?_⟩
    rw [exec_attempt_bind, withBalances, exec_zoom]
    dsimp only
    rw [moved]
    rfl

end Resonance.ReversibleTransfers
