import Resonance.Balances.Plain
import Resonance.Foundation.StateMachine
import Resonance.ReversibleTransfers.Outcomes

/-!
The chain around the reversible-transfers pallet.

From genesis, any account may dispatch any call of the pallet in any block, save
that nobody signs for the pallet's own account; the scheduler runs a live task
once, at its block or later, and the task is gone whatever becomes of it; blocks
advance; and balances change in any way that leaves the `ScheduledTransfer` holds
alone. `Effect` lists what one step can do. Every invariant is a case analysis of
it.
-/
namespace Resonance.ReversibleTransfers
open Storage StateMachine
variable {A H N : Type} [DecidableEq A] [DecidableEq H] [DecidableEq N]

/-- One account of `GenesisConfig::build`; a delay below the minimum is skipped. -/
def buildAccount (c : Config A H N) (accounts : A → Option (ReversibleAccountData A))
    (initial : A × ℕ) : A → Option (ReversibleAccountData A) :=
  if initial.2 ≥ c.minDelayPeriod then
    Function.update accounts initial.1
      (some { explicitReverser := none, delay := initial.2, policy := .explicit })
  else accounts

def genesisAccounts (c : Config A H N) (initial : List (A × ℕ)) :
    A → Option (ReversibleAccountData A) :=
  initial.foldl (buildAccount c) (fun _ => none)

def genesis (c : Config A H N) (initial : List (A × ℕ)) (b : BalancesState A) : State A H N where
  blockNumber := 0
  balances := b
  tasks := ∅
  reversibleAccounts := genesisAccounts c initial
  pendingTransfers := ∅
  accountPendingIndex := fun _ => 0
  events := []

inductive Label (A H N : Type)
  | extrinsic (origin : RawOrigin A) (call : Call A H)
  | runTask (name : N)
  | nextBlock
  | balances (b : BalancesState A)

/-- The scheduler takes the task out and dispatches its call. -/
def runTask (c : Config A H N) (s : State A H N) (name : N)
    (task : ScheduledTask A (Call A H)) : Except DispatchError PUnit × State A H N :=
  exec (task.call.dispatch c task.origin) { s with tasks := s.tasks.erase name }

def chain (c : Config A H N) : Machine (State A H N) (Label A H N) where
  init s := ∃ initial b, c.laws.Valid b ∧ (∀ a, b.balanceOnHold .scheduledTransfer a = 0) ∧
    s = genesis c initial b
  step s l s' := match l with
    | .extrinsic origin call =>
      origin ≠ .signed c.accountId ∧ s' = (exec (call.dispatch c origin) s).2
    | .runTask name => ∃ task, s.tasks.lookup name = some task ∧ task.when ≤ s.blockNumber ∧
      s' = (runTask c s name task).2
    | .nextBlock =>
      s.blockNumber < u32Max ∧ s' = { s with blockNumber := s.blockNumber + 1, events := [] }
    | .balances b => c.laws.Valid b ∧
      (∀ a, b.balanceOnHold .scheduledTransfer a =
        s.balances.balanceOnHold .scheduledTransfer a) ∧
      s' = { s with balances := b }

variable {c : Config A H N} {s s' : State A H N} {l : Label A H N}

/-- A live task is an execution of the transfer it is named after. -/
def State.TasksOwned (c : Config A H N) (s : State A H N) : Prop :=
  ∀ name task, s.tasks.lookup name = some task →
    task.origin = .signed c.accountId ∧
      ∃ txId k, task.call = .executeTransfer txId ∧ name = c.makeScheduleId txId k

inductive Effect (c : Config A H N) (s : State A H N) : Label A H N → State A H N → Prop
  | refused {origin : RawOrigin A} {call : Call A H} {e : DispatchError} :
      (exec (call.dispatch c origin) s).1 = .error e → Effect c s (.extrinsic origin call) s
  | reversibilitySet {who : A} {delay : Option ℕ} {policy : DelayPolicy} {reverser : Option A} :
      s.reversibleAccounts who = none → c.minDelayPeriod ≤ delay.getD c.defaultDelay →
      Effect c s (.extrinsic (.signed who) (.setReversibility delay policy reverser))
        (s.reversibilitySet who ⟨reverser, delay.getD c.defaultDelay, policy⟩)
  | scheduled {who : A} {dest : MultiAddress A} {amount : ℕ} {data : ReversibleAccountData A}
      {b : BalancesState A} :
      (exec ((Call.scheduleTransfer dest amount).dispatch c (.signed who)) s).1 = .ok ⟨⟩ →
      s.reversibleAccounts who = some data →
      s.accountPendingIndex who < c.maxPendingPerAccount →
      s.tasks.lookup (c.makeScheduleId (c.hashOf who (.transferKeepAlive dest amount))
        (s.nextCount (c.hashOf who (.transferKeepAlive dest amount)))) = none →
      exec (c.fungible.hold .scheduledTransfer who amount) s.balances = (.ok ⟨⟩, b) →
      Effect c s (.extrinsic (.signed who) (.scheduleTransfer dest amount))
        (s.scheduled c who (.transferKeepAlive dest amount) amount data.delay b)
  | cancelled {who : A} {txId : H} {pending : PendingTransfer A}
      {data : ReversibleAccountData A} {b : BalancesState A} :
      s.pendingTransfers.lookup txId = some pending →
      s.reversibleAccounts pending.who = some data →
      (s.tasks.lookup (c.makeScheduleId txId pending.count)).isSome →
      Refunds c who data pending s.balances b →
      Effect c s (.extrinsic (.signed who) (.cancel txId))
        (s.settled txId pending (s.tasks.erase (c.makeScheduleId txId pending.count)) b
          (.transactionCancelled who txId))
  | executed {name : N} {task : ScheduledTask A (Call A H)} {txId : H}
      {pending : PendingTransfer A} {b₁ b₂ : BalancesState A} :
      s.tasks.lookup name = some task → task.call = .executeTransfer txId →
      task.when ≤ s.blockNumber → (runTask c s name task).1 = .ok ⟨⟩ →
      s.pendingTransfers.lookup txId = some pending →
      exec (c.fungible.release .scheduledTransfer pending.who pending.amount) s.balances =
        (.ok ⟨⟩, b₁) →
      exec (pending.call.dispatch c.existentialDeposit c.fungible (.signed pending.who)) b₁ =
        (.ok ⟨⟩, b₂) →
      Effect c s (.runTask name) (s.settled txId pending (s.tasks.erase name) b₂
        (.transactionExecuted txId (.ok ⟨⟩)))
  | taskFailed {name : N} {task : ScheduledTask A (Call A H)} {txId : H} {e : DispatchError} :
      s.tasks.lookup name = some task → task.call = .executeTransfer txId →
      task.when ≤ s.blockNumber → (runTask c s name task).1 = .error e →
      Effect c s (.runTask name) { s with tasks := s.tasks.erase name }
  | nextBlock : s.blockNumber < u32Max →
      Effect c s .nextBlock { s with blockNumber := s.blockNumber + 1, events := [] }
  | balances {b : BalancesState A} : c.laws.Valid b →
      (∀ a, b.balanceOnHold .scheduledTransfer a =
        s.balances.balanceOnHold .scheduledTransfer a) →
      Effect c s (.balances b) { s with balances := b }

theorem extrinsic_effect {origin : RawOrigin A} {call : Call A H}
    (stranger : origin ≠ .signed c.accountId) :
    Effect c s (.extrinsic origin call) (exec (call.dispatch c origin) s).2 := by
  rcases h : exec (call.dispatch c origin) s with ⟨e | _, s'⟩
  · obtain rfl := eq_of_transactional_error h
    exact .refused (by rw [h])
  · have run := transactional_ok_iff.mp h
    cases call with
    | setReversibility delay policy reverser =>
        obtain ⟨who, rfl, fresh, -, long, rfl⟩ := setReversibility_ok run
        exact .reversibilitySet fresh long
    | cancel txId =>
        obtain ⟨who, pending, data, b, rfl, found, reversible, live, refund, rfl⟩ := cancel_ok run
        exact .cancelled found reversible live refund
    | executeTransfer txId => exact absurd (executeTransfer_ok_iff.mp run).1 stranger
    | scheduleTransfer dest amount =>
        obtain ⟨who, data, b, rfl, reversible, below, free, held, rfl⟩ := scheduleTransfer_ok run
        exact .scheduled (by rw [h]) reversible below free held

theorem runTask_effect (owned : s.TasksOwned c) {name : N} {task : ScheduledTask A (Call A H)}
    (live : s.tasks.lookup name = some task) (due : task.when ≤ s.blockNumber) :
    Effect c s (.runTask name) (runTask c s name task).2 := by
  obtain ⟨origin, txId, k, call, -⟩ := owned name task live
  rcases h : runTask c s name task with ⟨e | _, s'⟩
  · obtain rfl := eq_of_transactional_error h
    exact .taskFailed live call due (by rw [h])
  · have run := h
    simp only [runTask] at run
    rw [call] at run
    obtain ⟨-, pending, b₁, b₂, found, released, moved, rfl⟩ :=
      executeTransfer_ok_iff.mp (transactional_ok_iff.mp run)
    exact .executed live call due (by rw [h]) found released moved

theorem step_effect (owned : s.TasksOwned c) (h : (chain c).step s l s') : Effect c s l s' := by
  cases l with
  | extrinsic origin call =>
      obtain ⟨stranger, rfl⟩ := h
      exact extrinsic_effect stranger
  | runTask name =>
      obtain ⟨task, live, due, rfl⟩ := h
      exact runTask_effect owned live due
  | nextBlock =>
      obtain ⟨below, rfl⟩ := h
      exact .nextBlock below
  | balances b =>
      obtain ⟨valid, same, rfl⟩ := h
      exact .balances valid same

theorem tasksOwned_step (owned : s.TasksOwned c) (e : Effect c s l s') : s'.TasksOwned c := by
  have erased (name : N) : ∀ n task, (s.tasks.erase name).lookup n = some task →
      task.origin = .signed c.accountId ∧
        ∃ txId k, task.call = .executeTransfer txId ∧ n = c.makeScheduleId txId k := by
    intro n task h
    rw [StorageMap.lookup_erase_eq_ite] at h
    split at h
    · cases h
    · exact owned n task h
  cases e with
  | refused failed => exact owned
  | reversibilitySet fresh long => exact owned
  | scheduled ok reversible below free held =>
      intro n task h
      dsimp only [State.scheduled] at h
      rw [StorageMap.lookup_insert_eq_ite] at h
      split at h
      · cases h
        exact ⟨rfl, _, _, rfl, by assumption⟩
      · exact owned n task h
  | cancelled found reversible live refund => exact erased _
  | executed live call due ok found released moved => exact erased _
  | taskFailed live call due failed => exact erased _
  | nextBlock below => exact owned
  | balances valid same => exact owned

theorem reachable_tasksOwned (h : Reachable (chain c) s) : s.TasksOwned c := by
  refine h.invariant ?_ fun s l s' _ owned step => tasksOwned_step owned (step_effect owned step)
  intro s ⟨initial, b, _, _, start⟩ name task live
  subst start
  cases live

theorem reachable_effect (h : Reachable (chain c) s) (step : (chain c).step s l s') :
    Effect c s l s' :=
  step_effect (reachable_tasksOwned h) step

/-- No account has a delay below the minimum. -/
def LongDelays (c : Config A H N) (accounts : A → Option (ReversibleAccountData A)) : Prop :=
  ∀ a data, accounts a = some data → c.minDelayPeriod ≤ data.delay

omit [DecidableEq H] in
theorem LongDelays.update {accounts : A → Option (ReversibleAccountData A)}
    (long : LongDelays c accounts) {who : A} {data : ReversibleAccountData A}
    (enough : c.minDelayPeriod ≤ data.delay) :
    LongDelays c (Function.update accounts who (some data)) := by
  intro a data' h
  rw [Function.update_apply] at h
  split at h
  · cases h
    exact enough
  · exact long a data' h

omit [DecidableEq H] in
theorem longDelays_foldl {initial : List (A × ℕ)} :
    ∀ {accounts : A → Option (ReversibleAccountData A)}, LongDelays c accounts →
      LongDelays c (initial.foldl (buildAccount c) accounts) := by
  induction initial with
  | nil =>
      intro accounts long
      exact long
  | cons x rest ih =>
      intro accounts long
      apply ih
      simp only [buildAccount]
      split
      · exact long.update (by assumption)
      · exact long

theorem reachable_longDelays (h : Reachable (chain c) s) : LongDelays c s.reversibleAccounts := by
  refine h.invariant (I := fun s => LongDelays c s.reversibleAccounts) ?_ ?_
  · intro s ⟨initial, b, _, _, start⟩
    subst start
    exact longDelays_foldl fun a data h => by cases h
  · intro s l s' reach long step
    cases reachable_effect reach step with
    | reversibilitySet fresh enough => exact long.update enough
    | refused failed => exact long
    | scheduled ok reversible below free held => exact long
    | cancelled found reversible live refund => exact long
    | executed live call due ok found released moved => exact long
    | taskFailed live call due failed => exact long
    | nextBlock below => exact long
    | balances valid same => exact long

namespace Mock

abbrev TxId := ℕ × BalancesCall ℕ

/-- The runtime's limits, over small accounts and with pairs for hashes. -/
def config : Config ℕ TxId (TxId × ℕ) where
  maxPendingPerAccount := 10
  maxPendingPerAccount_le := by decide
  defaultDelay := 10
  minDelayPeriod := 2
  minDelayPeriod_pos := by decide
  minDelayPeriod_le := by decide
  accountId := 0
  hashOf := Prod.mk
  hashOf_injective := Prod.mk.inj
  makeScheduleId := Prod.mk
  makeScheduleId_injective := Prod.mk.inj
  existentialDeposit := 1000000000
  fungible := Plain.methods 1000000000
  laws := Plain.laws 1000000000
  scheduler := .roomy

/-- Account 1 is rich, account 2 alive. -/
def balances : BalancesState ℕ where
  account a :=
    if a = 1 then ⟨10000000000000, 0, 0⟩
    else if a = 2 then ⟨2000000000, 0, 0⟩
    else ⟨0, 0, 0⟩
  holds _ _ := 0
  totalIssuance := 10002000000000
  transferProof := ∅
  system a := ⟨0, 0, if a = 1 ∨ a = 2 then 1 else 0⟩

theorem balances_fits : balances.Fits := by
  intro a
  refine ⟨Nat.zero_le _, ?_⟩
  simp only [balances]
  split
  · decide
  · split <;> decide

abbrev MockState := State ℕ TxId (TxId × ℕ)

/-- Account 1 is reversible from genesis, with the given delay. -/
def start (delay : ℕ) : MockState := genesis config [(1, delay)] balances

def nextBlock (s : MockState) : MockState :=
  { s with blockNumber := s.blockNumber + 1, events := [] }

def schedule (dest amount : ℕ) (s : MockState) : MockState :=
  (exec ((Call.scheduleTransfer (.id dest) amount).dispatch config (.signed 1)) s).2

def txId (dest amount : ℕ) : TxId := (1, .transferKeepAlive (.id dest) amount)

def runTask (name : TxId × ℕ) (s : MockState) : MockState :=
  match s.tasks.lookup name with
  | some task => (ReversibleTransfers.runTask config s name task).2
  | none => s

section
variable {s : MockState} {τ : List (Transition MockState (Label ℕ TxId (TxId × ℕ)))}

theorem run_start (delay : ℕ) : Run (chain config) [] (start delay) :=
  .start ⟨_, balances, balances_fits, fun _ => rfl, rfl⟩

theorem run_nextBlock (run : Run (chain config) τ s) (below : s.blockNumber < u32Max) :
    Run (chain config) (τ ++ [⟨s, .nextBlock, nextBlock s⟩]) (nextBlock s) :=
  run.extend ⟨below, rfl⟩

theorem schedule_blockNumber (dest amount : ℕ) :
    (schedule dest amount s).blockNumber = s.blockNumber := by
  have effect : Effect config s (.extrinsic (.signed 1) (.scheduleTransfer (.id dest) amount))
    (schedule dest amount s) := extrinsic_effect (by decide)
  generalize schedule dest amount s = s' at effect
  cases effect with
  | refused failed => rfl
  | scheduled ok reversible below free held => rfl

theorem run_schedule (run : Run (chain config) τ s) (dest amount : ℕ) :
    Run (chain config)
      (τ ++ [⟨s, .extrinsic (.signed 1) (.scheduleTransfer (.id dest) amount),
        schedule dest amount s⟩]) (schedule dest amount s) :=
  run.extend ⟨by decide, rfl⟩

theorem run_runTask (run : Run (chain config) τ s) (name : TxId × ℕ)
    {task : ScheduledTask ℕ (Call ℕ TxId)} (live : s.tasks.lookup name = some task)
    (due : task.when ≤ s.blockNumber) :
    Run (chain config) (τ ++ [⟨s, .runTask name, runTask name s⟩]) (runTask name s) := by
  refine run.extend ⟨task, live, due, ?_⟩
  rw [runTask, live]

end
end Mock
end Resonance.ReversibleTransfers
