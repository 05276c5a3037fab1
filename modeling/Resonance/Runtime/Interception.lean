import Resonance.ReversibleTransfers.Accounting
import Resonance.Runtime.ReversibleExtension

/-!
What an intercepted transfer leaves in the storage.

Scheduling checks twice before it writes anything; then it raises the pending
index, adds the entry, asks the scheduler and last takes the hold. As a
dispatchable it runs in a storage layer and a late refusal is undone. The
extension calls it without one: a refusal by the scheduler or by the hold leaves
what was written before it.
-/
namespace Resonance
namespace ReversibleTransfers
open Storage
variable {A H N : Type} [DecidableEq A] [DecidableEq H] [DecidableEq N]

namespace State
variable (c : Config A H N) (s : State A H N) (who : A) (data : ReversibleAccountData A)
  (dest : MultiAddress A) (amount : ℕ)

def RefusesAtOnce : Prop :=
  data.explicitReverser = some who ∨ c.maxPendingPerAccount ≤ s.accountPendingIndex who

def SchedulerAccepts : Prop :=
  let txId := c.hashOf who (.transferKeepAlive dest amount)
  ∃ tasks, exec (c.scheduler.scheduleNamed s.blockNumber
    (c.makeScheduleId txId (s.nextCount txId))
    { when := min (s.blockNumber + data.delay) u32Max
      origin := .signed c.accountId
      call := .executeTransfer txId }) s.tasks = (.ok ⟨⟩, tasks)

def HoldAccepts : Prop :=
  ∃ b, exec (c.fungible.hold .scheduledTransfer who amount) s.balances = (.ok ⟨⟩, b)

end State

inductive Scheduling (c : Config A H N) (s : State A H N) (who : A)
    (data : ReversibleAccountData A) (dest : MultiAddress A) (amount : ℕ) :
    Except DispatchError PUnit × State A H N → Prop
  | refused {e : DispatchError} : s.RefusesAtOnce c who data →
      Scheduling c s who data dest amount (.error e, s)
  | halfway {e : DispatchError} {s' : State A H N} : ¬ s.RefusesAtOnce c who data →
      ¬ (s.SchedulerAccepts c who data dest amount ∧ s.HoldAccepts c who amount) →
      s'.accountPendingIndex who = s.accountPendingIndex who + 1 →
      Scheduling c s who data dest amount (.error e, s')
  | scheduled {b : BalancesState A} : ¬ s.RefusesAtOnce c who data →
      s.SchedulerAccepts c who data dest amount →
      exec (c.fungible.hold .scheduledTransfer who amount) s.balances = (.ok ⟨⟩, b) →
      Scheduling c s who data dest amount
        (.ok ⟨⟩, s.scheduled c who (.transferKeepAlive dest amount) amount data.delay b)

variable {c : Config A H N} {s : State A H N} {who : A} {data : ReversibleAccountData A}
  {dest : MultiAddress A} {amount : ℕ}

section
variable {s₁ : State A H N} {f : PUnit → PalletM A H N PUnit}

theorem Scheduling.of_unscheduled (late : ¬ s.RefusesAtOnce c who data)
    (unscheduled : ¬ s.SchedulerAccepts c who data dest amount) (same : s₁.tasks = s.tasks)
    (raised : s₁.accountPendingIndex who = s.accountPendingIndex who + 1) :
    Scheduling c s who data dest amount (exec (withTasks .schedulingFailed
      (c.scheduler.scheduleNamed s.blockNumber
        (c.makeScheduleId (c.hashOf who (.transferKeepAlive dest amount))
          (s.nextCount (c.hashOf who (.transferKeepAlive dest amount))))
        { when := min (s.blockNumber + data.delay) u32Max
          origin := .signed c.accountId
          call := .executeTransfer (c.hashOf who (.transferKeepAlive dest amount)) }) >>= f)
      s₁) := by
  unfold State.SchedulerAccepts at unscheduled
  rw [exec_bind, withTasks, exec_mapError, exec_zoom, same]
  dsimp only at unscheduled
  rcases run : exec (c.scheduler.scheduleNamed _ _ _) s.tasks with ⟨e | _, tasks⟩
  · exact .halfway late (fun accepts => unscheduled accepts.1) raised
  · exact absurd ⟨tasks, run⟩ unscheduled

theorem Scheduling.of_unheld (late : ¬ s.RefusesAtOnce c who data)
    (unheld : ¬ s.HoldAccepts c who amount) (same : s₁.balances = s.balances)
    (raised : s₁.accountPendingIndex who = s.accountPendingIndex who + 1) :
    Scheduling c s who data dest amount
      (exec (withBalances (c.fungible.hold .scheduledTransfer who amount) >>= f) s₁) := by
  rw [exec_bind, withBalances, exec_zoom, same]
  rcases run : exec (c.fungible.hold .scheduledTransfer who amount) s.balances with ⟨e | _, b⟩
  · exact .halfway late (fun accepts => unheld accepts.2) raised
  · exact absurd ⟨b, run⟩ unheld

end

variable (dest amount) in
theorem scheduling (reversible : s.reversibleAccounts who = some data) :
    Scheduling c s who data dest amount
      (exec (doScheduleTransfer c (.signed who) dest amount) s) := by
  have max := c.maxPendingPerAccount_le
  simp only [doScheduleTransfer]
  simp only [ensureSigned, pure_bind, exec_get_bind, reversible, okOr]
  by_cases self : data.explicitReverser = some who
  · rw [self, exec_bind]
    simp only [ensure, ne_eq, not_true_eq_false, if_false, exec_throw]
    exact .refused (.inl self)
  rw [exec_bind_of_ok (?_ : _ = (Except.ok PUnit.unit, s))]
  swap
  · cases explicit : data.explicitReverser with
    | none => rfl
    | some reverser => exact ensure_ok_iff.mpr ⟨fun same => self (by rw [explicit, same]), rfl⟩
  by_cases full : c.maxPendingPerAccount ≤ s.accountPendingIndex who
  · rw [exec_bind]
    simp only [ensure, Nat.not_lt.mpr full, if_false, exec_throw]
    exact .refused (.inr full)
  have late : ¬ s.RefusesAtOnce c who data := not_or.mpr ⟨self, full⟩
  have raised : min (s.accountPendingIndex who + 1) u32Max = s.accountPendingIndex who + 1 := by
    omega
  rw [exec_bind_of_ok (a := ⟨⟩) (ensure_ok_iff.mpr ⟨Nat.not_le.mp full, rfl⟩), setPendingIndex,
    exec_modify_bind, exec_modify_bind]
  by_cases placed : s.SchedulerAccepts c who data dest amount
  · obtain ⟨tasks, run⟩ := placed
    rw [exec_bind_of_ok (withTasks_ok_iff.mpr ⟨tasks, ?_, rfl⟩)]
    swap
    · exact run
    obtain ⟨-, -, rfl⟩ := c.scheduler.scheduleNamed_adds run
    by_cases held : s.HoldAccepts c who amount
    · obtain ⟨b, run'⟩ := held
      rw [exec_bind_of_ok (withBalances_ok_iff.mpr ⟨b, ?_, rfl⟩)]
      · exact .scheduled late ⟨_, run⟩ run'
      · exact run'
    · refine .of_unheld late held rfl ?_
      simp [raised]
  · refine .of_unscheduled late placed rfl ?_
    simp [raised]

/-- One more instance of the transfer is pending: it is counted, it has a task of
its own, and its amount is on hold. -/
structure OneMorePending (c : Config A H N) (s : State A H N) (who : A) (dest : MultiAddress A)
    (amount : ℕ) (s' : State A H N) : Prop where
  pendingTransfers : s'.pendingTransfers =
    s.pendingTransfers.insert (c.hashOf who (.transferKeepAlive dest amount))
      { who := who
        call := .transferKeepAlive dest amount
        amount := amount
        count := countOf s.pendingTransfers (c.hashOf who (.transferKeepAlive dest amount)) + 1 }
  index : s'.accountPendingIndex =
    Function.update s.accountPendingIndex who (s.accountPendingIndex who + 1)
  tasks : ∃ name task, s.tasks.lookup name = none ∧
    task.call = .executeTransfer (c.hashOf who (.transferKeepAlive dest amount)) ∧
    s'.tasks = s.tasks.insert name task
  held : s.balances.HoldsAdd s'.balances .scheduledTransfer who amount

/-- Pending transfers, indices, tasks and holds are what they were. -/
structure Untouched (s s' : State A H N) : Prop where
  pendingTransfers : s'.pendingTransfers = s.pendingTransfers
  index : s'.accountPendingIndex = s.accountPendingIndex
  tasks : s'.tasks = s.tasks
  held : ∀ a r, s'.balances.balanceOnHold r a = s.balances.balanceOnHold r a

omit [DecidableEq A] [DecidableEq N] in
theorem nextCount_eq_min (txId : H) :
    s.nextCount txId = min (countOf s.pendingTransfers txId + 1) u32Max := by
  simp only [State.nextCount, countOf, StorageMap.weight]
  cases s.pendingTransfers.lookup txId with
  | none => rfl
  | some pending => rfl

/-- The instance that was scheduled is counted unless its counter is at its
maximum. -/
theorem oneMorePending_scheduled_iff (valid : c.laws.Valid s.balances) {b : BalancesState A}
    (late : ¬ s.RefusesAtOnce c who data)
    (placed : s.SchedulerAccepts c who data dest amount)
    (held : exec (c.fungible.hold .scheduledTransfer who amount) s.balances = (.ok ⟨⟩, b)) :
    OneMorePending c s who dest amount
        (s.scheduled c who (.transferKeepAlive dest amount) amount data.delay b) ↔
      countOf s.pendingTransfers (c.hashOf who (.transferKeepAlive dest amount)) < u32Max := by
  have max := c.maxPendingPerAccount_le
  have below : ¬ c.maxPendingPerAccount ≤ s.accountPendingIndex who := fun full => late (.inr full)
  obtain ⟨tasks, run⟩ := placed
  constructor
  · intro one
    have entry := congrArg (AList.lookup (c.hashOf who (.transferKeepAlive dest amount)))
      one.pendingTransfers
    dsimp only [State.scheduled] at entry
    rw [AList.lookup_insert, AList.lookup_insert, nextCount_eq_min] at entry
    have count := congrArg PendingTransfer.count (Option.some.inj entry)
    dsimp only at count
    omega
  · intro room
    refine ⟨?_, ?_, ?_, (c.laws.hold_moves valid held).2⟩
    · dsimp only [State.scheduled]
      rw [nextCount_eq_min, Nat.min_eq_left room]
    · dsimp only [State.scheduled]
      rw [Nat.min_eq_left (by omega)]
    · obtain ⟨free, -, -⟩ := c.scheduler.scheduleNamed_adds run
      exact ⟨_, _, free, rfl, rfl⟩

end ReversibleTransfers

open Storage ReversibleTransfers
variable {A H N O : Type} [DecidableEq A] [DecidableEq H] [DecidableEq N] {c : Config A H N}
  {s : State A H N} {who : A} {call : RuntimeCall A H O} {data : ReversibleAccountData A}
  {dest : MultiAddress A} {amount : ℕ}

theorem exec_validate_intercept (reversible : s.reversibleAccounts who = some data)
    (policy : data.policy = .intercept)
    (transfer : call.intercepted c.existentialDeposit s.balances who = some (dest, amount)) :
    exec (validate c (.signed who) call) s =
      match exec (doScheduleTransfer c (.signed who) dest amount) s with
      | (.ok _, s') => (.error (.unknown (.custom 255)), s')
      | (.error _, s') => (.error (.invalid (.custom 1)), s') := by
  have signed : exec (mapError (fun _ => TransactionValidityError.invalid .badSigner)
    (ensureSigned (.signed who))) s = (.ok who, s) := rfl
  simp only [validate]
  rw [exec_bind_of_ok signed, exec_get_bind, reversible]
  dsimp only
  rw [policy]
  dsimp only
  rw [transfer]
  dsimp only
  rw [exec_bind, exec_mapError]
  rcases exec (doScheduleTransfer c (.signed who) dest amount) s with ⟨e | _, s'⟩
  · rfl
  · rfl

/-- The transfer of a call is pending once more and the extension says so, or
nothing has changed and it says something else. -/
def AllOrNothing (c : Config A H N) (s : State A H N) (who : A) (call : RuntimeCall A H O)
    (dest : MultiAddress A) (amount : ℕ) : Prop :=
  ∃ e s', exec (validate c (.signed who) call) s = (.error e, s') ∧
    (e = .unknown (.custom 255) ∧ OneMorePending c s who dest amount s' ∨
      e ≠ .unknown (.custom 255) ∧ Untouched s s')

/-- Interception leaves nothing behind on a refusal exactly when it is refused before
the first write, or when the scheduler and the hold do not refuse. -/
theorem allOrNothing_iff (valid : c.laws.Valid s.balances)
    (reversible : s.reversibleAccounts who = some data) (policy : data.policy = .intercept)
    (transfer : call.intercepted c.existentialDeposit s.balances who = some (dest, amount)) :
    AllOrNothing c s who call dest amount ↔
      s.RefusesAtOnce c who data ∨
        s.SchedulerAccepts c who data dest amount ∧ s.HoldAccepts c who amount ∧
          countOf s.pendingTransfers (c.hashOf who (.transferKeepAlive dest amount)) < u32Max := by
  simp only [AllOrNothing]
  rw [exec_validate_intercept reversible policy transfer]
  have ends := scheduling (c := c) dest amount reversible
  generalize exec (doScheduleTransfer c (.signed who) dest amount) s = outcome at ends ⊢
  cases ends with
  | refused refuses =>
      refine iff_of_true ⟨_, _, rfl, .inr ⟨?_, rfl, rfl, rfl, fun _ _ => rfl⟩⟩ (.inl refuses)
      intro scheduled
      cases scheduled
  | halfway late fails raised =>
      refine iff_of_false ?_ ?_
      · rintro ⟨e, s', ended, result⟩
        cases ended
        cases result with
        | inl scheduled => cases scheduled.1
        | inr refused =>
            have same := congrFun refused.2.index who
            omega
      · intro condition
        cases condition with
        | inl refuses => exact late refuses
        | inr accepts => exact fails ⟨accepts.1, accepts.2.1⟩
  | scheduled late placed held =>
      have one := oneMorePending_scheduled_iff valid late placed held
      constructor
      · rintro ⟨e, s', ended, result⟩
        cases ended
        cases result with
        | inl scheduled => exact .inr ⟨placed, ⟨_, held⟩, one.mp scheduled.2⟩
        | inr refused => exact absurd rfl refused.1
      · intro condition
        cases condition with
        | inl refuses => exact absurd refuses late
        | inr accepts => exact ⟨_, _, rfl, .inl ⟨rfl, one.mpr accepts.2.2⟩⟩

section
open Mock ReversibleTransfers.Mock StateMachine

theorem allOrNothing_affordable :
    AllOrNothing config (Mock.reversible .intercept) 1
      (.balances (.transferKeepAlive (.id 2) 1000000000) : RuntimeCall ℕ TxId Empty)
      (.id 2) 1000000000 := by
  have reversible : (Mock.reversible .intercept).reversibleAccounts 1 =
    some ⟨none, 2, .intercept⟩ := rfl
  refine (allOrNothing_iff ?_ reversible rfl rfl).mpr (.inr ⟨⟨_, rfl⟩, ⟨_, rfl⟩, by decide⟩)
  exact balances_fits

/-- Twice the balance cannot be held, but the transfer is pending and has a task. -/
theorem unaffordable_left_pending :
    Reachable (chain config) (Mock.reversible .intercept) ∧
      (Mock.reversible .intercept).reversibleAccounts 1 = some ⟨none, 2, .intercept⟩ ∧
      (Mock.reversible .intercept).pendingTransfers = ∅ ∧
      (Mock.reversible .intercept).tasks = ∅ ∧
      ¬ AllOrNothing config (Mock.reversible .intercept) 1
        (.balances (.transferKeepAlive (.id 2) 20000000000000) : RuntimeCall ℕ TxId Empty)
        (.id 2) 20000000000000 ∧
      ∃ s', exec (validate config (.signed 1)
          (.balances (.transferKeepAlive (.id 2) 20000000000000) : RuntimeCall ℕ TxId Empty))
          (Mock.reversible .intercept) = (.error (.invalid (.custom 1)), s') ∧
        s'.pendingTransfers.lookup (txId 2 20000000000000) =
          some ⟨1, .transferKeepAlive (.id 2) 20000000000000, 20000000000000, 1⟩ ∧
        (s'.tasks.lookup (txId 2 20000000000000, 1)).isSome ∧
        s'.accountPendingIndex 1 = 1 ∧ s'.balances.balanceOnHold .scheduledTransfer 1 = 0 := by
  have start : Reachable (chain config) (genesis config [] balances) :=
    .start ⟨_, balances, balances_fits, fun _ => rfl, rfl⟩
  have first : Reachable (chain config) (nextBlock (genesis config [] balances)) :=
    start.next (l := .nextBlock) ⟨by decide, rfl⟩
  refine ⟨first.next (l := .extrinsic (.signed 1) (.setReversibility (some 2) .intercept none))
    ⟨by decide, rfl⟩, rfl, rfl, rfl, ?_, _, rfl, rfl, rfl, rfl, rfl⟩
  intro ⟨e, s', ended, result⟩
  cases ended
  cases result with
  | inl scheduled => cases scheduled.1
  | inr refused => cases congrFun refused.2.index 1

end
end Resonance
