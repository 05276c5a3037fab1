import Resonance.ReversibleTransfers.Accounting

/-!
When an execution cleans up after itself.

The error of the recorded transfer is the error of the call, and the call's
storage layer takes the clean-up back with it while the scheduler has already
dropped the task. So an execution settles its instance exactly when the transfer
can be paid, and every one that cannot leaves an instance without a task.
-/
namespace Resonance.ReversibleTransfers
open Storage StateMachine StorageMap
variable {A H N : Type} [DecidableEq A] [DecidableEq H] [DecidableEq N]

def PendingTransfer.recipient (p : PendingTransfer A) : Option A :=
  match p.call with
  | .transferKeepAlive dest _ => dest.lookup
  | _ => none

/-- What the release and the recorded transfer ask of the balances before them. -/
structure Affordable (ed : ℕ) (b : BalancesState A) (who dest : A) (amount : ℕ) : Prop where
  issued : amount ≤ b.totalIssuance
  alive : ed ≤ (b.account who).free
  unfrozen : (b.account who).frozen + amount ≤ (b.account who).free + (b.account who).reserved
  fits : (b.account who).free + (b.account who).reserved + amount ≤ u128Max
  reaches : dest ≠ who → ed ≤ (b.account dest).free + amount ∧
    (b.account dest).free + (b.account dest).reserved + amount ≤ u128Max

/-- The recipient resolves and the amount, unless it is zero, can be paid. -/
def Payable (ed : ℕ) (b : BalancesState A) (p : PendingTransfer A) : Prop :=
  ∃ dest, p.recipient = some dest ∧ (p.amount = 0 ∨ Affordable ed b p.who dest p.amount)

variable {c : Config A H N} {s s' : State A H N} {l : Label A H N}

omit [DecidableEq H] in
theorem keepAlive_dispatch_ok_iff {b : BalancesState A} (valid : c.laws.Valid b) {who : A}
    {dest : MultiAddress A} {amount : ℕ} :
    (∃ b', exec ((BalancesCall.transferKeepAlive dest amount).dispatch c.existentialDeposit
        c.fungible (.signed who)) b = (.ok ⟨⟩, b')) ↔
      ∃ d, dest.lookup = some d ∧
        b.canWithdraw c.existentialDeposit who amount = .success ∧
        b.canDeposit c.existentialDeposit d amount .extant = .success := by
  simp only [BalancesCall.dispatch]
  simp only [transactional_ok_iff, transferKeepAlive_ok_iff, transferAndProve_ok_iff]
  have transfers (d : A) : (∃ b', exec (c.fungible.transfer who d amount .preserve) b =
      (.ok ⟨⟩, b')) ↔ b.canWithdraw c.existentialDeposit who amount = .success ∧
        b.canDeposit c.existentialDeposit d amount .extant = .success := by
    rw [c.laws.transfer_ok_iff valid]
    simp only [ne_eq, reduceCtorEq, not_false_eq_true, decide_true,
      WithdrawConsequence.intoResult_ok_iff]
  constructor
  · rintro ⟨b', source, d, signed, found, b₁, moved, proved⟩
    cases signed
    exact ⟨d, found, (transfers d).mp ⟨b₁, moved⟩⟩
  · rintro ⟨d, found, possible⟩
    obtain ⟨b₁, moved⟩ := (transfers d).mpr possible
    exact ⟨_, who, d, rfl, found, b₁, moved, rfl⟩

omit [DecidableEq A] in
/-- The checks of the release, made before it, and those of the transfer, made
after it, in terms of the balances before both. -/
theorem affordable_iff {ed : ℕ} {b b₁ : BalancesState A} {who d : A} {amount : ℕ}
    (total : (b.account who).free + (b.account who).reserved ≤ u128Max)
    (onHold : amount ≤ (b.account who).reserved)
    (issuance : b₁.totalIssuance = b.totalIssuance)
    (owner : b₁.account who = { b.account who with
      free := (b.account who).free + amount
      reserved := (b.account who).reserved - amount })
    (others : ∀ a, a ≠ who → b₁.account a = b.account a) :
    (b.canDeposit ed who amount .extant = .success ∧ b₁.canWithdraw ed who amount = .success ∧
        b₁.canDeposit ed d amount .extant = .success) ↔
      amount = 0 ∨ Affordable ed b who d amount := by
  have total₁ : (b₁.account who).free + (b₁.account who).reserved ≤ u128Max := by
    rw [owner]
    dsimp only
    omega
  rw [BalancesState.canWithdraw_success_iff total₁, BalancesState.canDeposit_extant_iff,
    BalancesState.canDeposit_extant_iff, issuance, owner]
  dsimp only
  constructor
  · intro ⟨deposit, withdraw, transfer⟩
    by_cases zero : amount = 0
    · exact .inl zero
    · have deposit := deposit.resolve_left zero
      have withdraw := withdraw.resolve_left zero
      have transfer := transfer.resolve_left zero
      refine .inr ⟨withdraw.1, by omega, by omega, by omega, ?_⟩
      intro other
      rw [others d other] at transfer
      omega
  · intro affordable
    cases affordable with
    | inl zero => exact ⟨.inl zero, .inl zero, .inl zero⟩
    | inr affordable =>
        obtain ⟨issued, alive, unfrozen, fits, reaches⟩ := affordable
        refine ⟨.inr ⟨by omega, by omega⟩, .inr ⟨issued, by omega, by omega⟩, .inr ?_⟩
        by_cases self : d = who
        · rw [self, owner]
          dsimp only
          omega
        · rw [others d self]
          have := reaches self
          omega

omit [DecidableEq H] in
theorem pays_iff {b : BalancesState A} (valid : c.laws.Valid b) {p : PendingTransfer A}
    (enough : p.amount ≤ b.balanceOnHold .scheduledTransfer p.who)
    (transfer : ∃ dest, p.call = .transferKeepAlive dest p.amount) :
    (∃ b₁ b₂, exec (c.fungible.release .scheduledTransfer p.who p.amount) b = (.ok ⟨⟩, b₁) ∧
        exec (p.call.dispatch c.existentialDeposit c.fungible (.signed p.who)) b₁ =
          (.ok ⟨⟩, b₂)) ↔
      Payable c.existentialDeposit b p := by
  obtain ⟨dest, call⟩ := transfer
  have onHold := enough.trans (c.laws.hold_le_reserved valid)
  have total := c.laws.total_le (a := p.who) valid
  simp only [Payable, PendingTransfer.recipient]
  rw [call]
  dsimp only
  constructor
  · intro ⟨b₁, b₂, released, moved⟩
    obtain ⟨room, -⟩ := (c.laws.release_ok_iff valid).mp ⟨b₁, released⟩
    obtain ⟨valid₁, -, issuance, owner, others⟩ := c.laws.release_moves valid released
    obtain ⟨d, found, possible⟩ := (keepAlive_dispatch_ok_iff valid₁).mp ⟨b₂, moved⟩
    exact ⟨d, found, (affordable_iff total onHold issuance owner others).mp ⟨room, possible⟩⟩
  · intro ⟨d, found, affordable⟩
    have room : b.canDeposit c.existentialDeposit p.who p.amount .extant = .success := by
      rw [BalancesState.canDeposit_extant_iff]
      cases affordable with
      | inl zero => exact .inl zero
      | inr affordable =>
          have := affordable.alive
          have := affordable.fits
          exact .inr ⟨by omega, by omega⟩
    obtain ⟨b₁, released⟩ := (c.laws.release_ok_iff valid).mpr ⟨room, enough⟩
    obtain ⟨valid₁, -, issuance, owner, others⟩ := c.laws.release_moves valid released
    have possible := ((affordable_iff total onHold issuance owner others).mpr affordable).2
    obtain ⟨b₂, moved⟩ := (keepAlive_dispatch_ok_iff valid₁).mpr ⟨d, found, possible⟩
    exact ⟨b₁, b₂, released, moved⟩

/-- The number of live tasks that will execute a transfer. -/
def liveTasks (tasks : Tasks N A (Call A H)) (txId : H) : ℕ :=
  total (fun _ task => if task.call = .executeTransfer txId then 1 else 0) tasks

theorem liveTasks_erase {tasks : Tasks N A (Call A H)} {name : N}
    {task : ScheduledTask A (Call A H)} {txId : H} (live : tasks.lookup name = some task)
    (call : task.call = .executeTransfer txId) (t : H) :
    liveTasks (tasks.erase name) t + (if t = txId then 1 else 0) = liveTasks tasks t := by
  have sum := total_erase (fun _ task => if task.call = .executeTransfer t then 1 else 0) tasks name
  rw [weight_of_lookup live, call] at sum
  simp only [Call.executeTransfer.injEq, eq_comm (a := txId)] at sum
  exact sum

theorem liveTasks_insert {tasks : Tasks N A (Call A H)} {name : N}
    {task : ScheduledTask A (Call A H)} {txId : H} (free : tasks.lookup name = none)
    (call : task.call = .executeTransfer txId) (t : H) :
    liveTasks (tasks.insert name task) t = liveTasks tasks t + if t = txId then 1 else 0 := by
  have sum :=
    total_insert (fun _ task => if task.call = .executeTransfer t then 1 else 0) tasks name task
  rw [weight_of_lookup_none free, call] at sum
  simp only [Call.executeTransfer.injEq, eq_comm (a := txId)] at sum
  exact sum

/-- The instances of each transfer that have no task any more. -/
def State.Stranded (s : State A H N) (lost : H → ℕ) : Prop :=
  ∀ txId, countOf s.pendingTransfers txId = liveTasks s.tasks txId + lost txId

theorem stranded_scheduled (inv : Accounting c s) {lost : H → ℕ} (stranded : s.Stranded lost)
    {who : A} {dest : MultiAddress A} {amount delay : ℕ} {b : BalancesState A}
    (below : s.accountPendingIndex who < c.maxPendingPerAccount)
    (free : s.tasks.lookup (c.makeScheduleId (c.hashOf who (.transferKeepAlive dest amount))
      (s.nextCount (c.hashOf who (.transferKeepAlive dest amount)))) = none) :
    (s.scheduled c who (.transferKeepAlive dest amount) amount delay b).Stranded lost := by
  intro t
  dsimp only [State.scheduled]
  rw [countOf_insert, liveTasks_insert free rfl]
  have old := stranded t
  split
  next same =>
    rw [same] at old ⊢
    dsimp only
    rw [inv.nextCount_eq below]
    omega
  next other => exact old

theorem stranded_settled (inv : Accounting c s) {lost : H → ℕ} (stranded : s.Stranded lost)
    {txId : H} {pending : PendingTransfer A} {name : N} {task : ScheduledTask A (Call A H)}
    {b : BalancesState A} {e : Event A H}
    (found : s.pendingTransfers.lookup txId = some pending)
    (live : s.tasks.lookup name = some task) (call : task.call = .executeTransfer txId) :
    (s.settled txId pending (s.tasks.erase name) b e).Stranded lost := by
  intro t
  have tasks := liveTasks_erase live call t
  have count := countOf_withoutInstance found (inv.entries _ _ found).counted t
  have old := stranded t
  dsimp only [State.settled]
  omega

omit [DecidableEq H] in
/-- A cancellation takes out a task of the transfer it cancels. -/
theorem call_of_named (owned : s.TasksOwned c) {txId : H} {k : ℕ}
    {task : ScheduledTask A (Call A H)}
    (live : s.tasks.lookup (c.makeScheduleId txId k) = some task) :
    task.call = .executeTransfer txId := by
  obtain ⟨-, txId', k', call, name⟩ := owned _ _ live
  rw [call, (c.makeScheduleId_injective name).1]

/-- Every task the step runs succeeds. -/
def Label.Succeeds (c : Config A H N) (s : State A H N) : Label A H N → Prop
  | .runTask name =>
    ∀ task, s.tasks.lookup name = some task →
      (ReversibleTransfers.runTask c s name task).1 = .ok ⟨⟩
  | _ => True

theorem stranded_step (owned : s.TasksOwned c) (inv : Accounting c s) {lost : H → ℕ}
    (stranded : s.Stranded lost) (e : Effect c s l s') :
    (l.Succeeds c s ∧ s'.Stranded lost) ∨
      ¬ l.Succeeds c s ∧ ∃ txId, s'.Stranded (Function.update lost txId (lost txId + 1)) := by
  cases e with
  | refused failed => exact .inl ⟨trivial, stranded⟩
  | reversibilitySet fresh long => exact .inl ⟨trivial, stranded⟩
  | scheduled ok reversible below free held =>
      exact .inl ⟨trivial, stranded_scheduled inv stranded below free⟩
  | cancelled found reversible live refund =>
      obtain ⟨task, live⟩ := Option.isSome_iff_exists.mp live
      exact .inl ⟨trivial, stranded_settled inv stranded found live (call_of_named owned live)⟩
  | executed live call due ok found released moved =>
      refine .inl ⟨?_, stranded_settled inv stranded found live call⟩
      intro task live'
      cases live.symm.trans live'
      exact ok
  | @taskFailed name task txId _ live call due failed =>
      refine .inr ⟨fun ok => ?_, txId, ?_⟩
      · rw [ok _ live] at failed
        cases failed
      · intro t
        have tasks := liveTasks_erase live call t
        have old := stranded t
        rw [Function.update_apply]
        dsimp only
        split
        next same =>
          subst same
          rw [if_pos rfl] at tasks
          omega
        next other =>
          rw [if_neg other] at tasks
          omega
  | nextBlock below => exact .inl ⟨trivial, stranded⟩
  | balances valid same => exact .inl ⟨trivial, stranded⟩

theorem reachable_stranded (h : Reachable (chain c) s) : ∃ lost, s.Stranded lost := by
  refine h.invariant (I := fun s => ∃ lost, s.Stranded lost) ?_ ?_
  · intro s ⟨initial, b, _, _, start⟩
    subst start
    exact ⟨fun _ => 0, fun _ => rfl⟩
  · intro s l s' reach ⟨lost, stranded⟩ step
    have effect := reachable_effect reach step
    cases stranded_step (reachable_tasksOwned reach) (reachable_accounting reach) stranded
      effect with
    | inl kept => exact ⟨lost, kept.2⟩
    | inr failed =>
        obtain ⟨-, _, more⟩ := failed
        exact ⟨_, more⟩

/-- A live task finds the entry of its transfer. -/
theorem exists_pending (h : Reachable (chain c) s) {name : N} {task : ScheduledTask A (Call A H)}
    {txId : H} (live : s.tasks.lookup name = some task) (call : task.call = .executeTransfer txId) :
    ∃ pending, s.pendingTransfers.lookup txId = some pending := by
  obtain ⟨lost, stranded⟩ := reachable_stranded h
  have erased := liveTasks_erase live call txId
  have count := stranded txId
  rw [if_pos rfl] at erased
  cases found : s.pendingTransfers.lookup txId with
  | none =>
      rw [countOf, weight_of_lookup_none found] at count
      omega
  | some pending => exact ⟨pending, rfl⟩

theorem Accounting.settles (inv : Accounting c s) {txId : H} {pending : PendingTransfer A}
    (found : s.pendingTransfers.lookup txId = some pending) :
    1 ≤ s.accountPendingIndex pending.who ∧
      pending.amount ≤ s.balances.balanceOnHold .scheduledTransfer pending.who := by
  have counted := (inv.entries _ _ found).counted
  have index := weight_le_total (share (fun _ => 1) pending.who) s.pendingTransfers txId
  have held := weight_le_total (share id pending.who) s.pendingTransfers txId
  rw [weight_of_lookup found, share, if_pos rfl] at index held
  rw [← inv.index] at index
  rw [← inv.held] at held
  have amount := Nat.le_mul_of_pos_right pending.amount counted
  dsimp only [id_eq] at held
  omega

/-- One instance of the transfer is gone, from the entry, the index and the hold. -/
structure CleansUp (txId : H) (pending : PendingTransfer A) (s s' : State A H N) : Prop where
  count : countOf s'.pendingTransfers txId + 1 = countOf s.pendingTransfers txId
  index : s'.accountPendingIndex pending.who + 1 = s.accountPendingIndex pending.who
  released : s'.balances.balanceOnHold .scheduledTransfer pending.who + pending.amount =
    s.balances.balanceOnHold .scheduledTransfer pending.who

theorem cleansUp_settled (inv : Accounting c s) {txId : H} {pending : PendingTransfer A}
    {tasks : Tasks N A (Call A H)} {b : BalancesState A} {e : Event A H}
    (found : s.pendingTransfers.lookup txId = some pending)
    (holds : b.HoldsAdd s.balances .scheduledTransfer pending.who pending.amount) :
    CleansUp txId pending s (s.settled txId pending tasks b e) where
  count := by
    have count := countOf_withoutInstance found (inv.entries _ _ found).counted txId
    rw [if_pos rfl] at count
    exact count
  index := by
    dsimp only [State.settled]
    rw [Function.update_self, Nat.sub_add_cancel (inv.settles found).1]
  released := holds.self.symm

section
variable {name : N} {task : ScheduledTask A (Call A H)} {txId : H} {pending : PendingTransfer A}

theorem runTask_ok_iff (h : Reachable (chain c) s) (live : s.tasks.lookup name = some task)
    (call : task.call = .executeTransfer txId)
    (found : s.pendingTransfers.lookup txId = some pending) :
    (runTask c s name task).1 = .ok ⟨⟩ ↔ Payable c.existentialDeposit s.balances pending := by
  have inv := reachable_accounting h
  have origin := (reachable_tasksOwned h name task live).1
  rw [← pays_iff inv.valid (inv.settles found).2 (inv.entries _ _ found).transfer]
  simp only [runTask]
  rw [call, origin]
  constructor
  · intro ok
    obtain ⟨-, pending', b₁, b₂, found', released, moved, -⟩ :=
      executeTransfer_ok_iff.mp (transactional_ok_iff.mp (exec_eq_of_fst ok))
    cases found.symm.trans found'
    exact ⟨b₁, b₂, released, moved⟩
  · rintro ⟨b₁, b₂, released, moved⟩
    have run := transactional_ok_iff.mpr (executeTransfer_ok_iff (c := c)
      (s := { s with tasks := s.tasks.erase name }) |>.mpr
        ⟨rfl, pending, b₁, b₂, found, released, moved, rfl⟩)
    exact congrArg Prod.fst run

/-- The scheduled execution of a transfer cleans up exactly when it can be paid. -/
theorem cleansUp_iff (h : Reachable (chain c) s) (live : s.tasks.lookup name = some task)
    (call : task.call = .executeTransfer txId)
    (found : s.pendingTransfers.lookup txId = some pending) :
    CleansUp txId pending s (runTask c s name task).2 ↔
      Payable c.existentialDeposit s.balances pending := by
  have inv := reachable_accounting h
  rw [← runTask_ok_iff h live call found]
  rcases outcome : runTask c s name task with ⟨result, s'⟩
  constructor
  · intro cleaned
    cases result with
    | ok _ => rfl
    | error e =>
        have same := eq_of_transactional_error outcome
        have count : countOf s'.pendingTransfers txId + 1 = _ := cleaned.count
        rw [same] at count
        dsimp only at count
        omega
  · intro ok
    cases ok
    simp only [runTask] at outcome
    rw [call] at outcome
    obtain ⟨-, pending', b₁, b₂, found', released, moved, settled⟩ :=
      executeTransfer_ok_iff.mp (transactional_ok_iff.mp outcome)
    cases found.symm.trans found'
    subst settled
    exact cleansUp_settled inv found (released_and_moved inv.valid released moved).2

end

/-- The step runs no task, or one whose transfer can be paid. -/
def Label.Pays (c : Config A H N) (s : State A H N) : Label A H N → Prop
  | .runTask name => ∃ task txId pending, s.tasks.lookup name = some task ∧
    task.call = .executeTransfer txId ∧ s.pendingTransfers.lookup txId = some pending ∧
    Payable c.existentialDeposit s.balances pending
  | _ => True

/-- The step runs no task, or one that cleans up. -/
def Label.CleansUp (s s' : State A H N) : Label A H N → Prop
  | .runTask name => ∃ task txId pending, s.tasks.lookup name = some task ∧
    task.call = .executeTransfer txId ∧ s.pendingTransfers.lookup txId = some pending ∧
    ReversibleTransfers.CleansUp txId pending s s'
  | _ => True

theorem succeeds_iff_pays (h : Reachable (chain c) s) (step : (chain c).step s l s') :
    l.Succeeds c s ↔ l.Pays c s := by
  cases l with
  | runTask name =>
      obtain ⟨task, live, -, -⟩ := step
      obtain ⟨-, txId, _, call, -⟩ := reachable_tasksOwned h name task live
      obtain ⟨pending, found⟩ := exists_pending h live call
      constructor
      · intro ok
        exact ⟨task, txId, pending, live, call, found,
          (runTask_ok_iff h live call found).mp (ok task live)⟩
      · intro ⟨task', txId', pending', live', call', found', payable⟩ task'' live''
        cases live'.symm.trans live''
        exact (runTask_ok_iff h live' call' found').mpr payable
  | extrinsic origin call => exact Iff.rfl
  | nextBlock => exact Iff.rfl
  | balances b => exact Iff.rfl

theorem label_cleansUp_iff (h : Reachable (chain c) s) (step : (chain c).step s l s') :
    l.CleansUp s s' ↔ l.Pays c s := by
  cases l with
  | runTask name =>
      obtain ⟨task, live, -, rfl⟩ := step
      constructor
      · intro ⟨task', txId, pending, live', call, found, cleaned⟩
        cases live.symm.trans live'
        exact ⟨task, txId, pending, live, call, found, (cleansUp_iff h live call found).mp cleaned⟩
      · intro ⟨task', txId, pending, live', call, found, payable⟩
        cases live.symm.trans live'
        exact ⟨task, txId, pending, live, call, found, (cleansUp_iff h live call found).mpr payable⟩
  | extrinsic origin call => exact Iff.rfl
  | nextBlock => exact Iff.rfl
  | balances b => exact Iff.rfl

/-- What is lost on the way is lost for good. -/
theorem stranded_of_run {τ : List (Transition (State A H N) (Label A H N))}
    (run : Run (chain c) τ s) :
    ∃ lost, s.Stranded lost ∧ ((∀ t ∈ τ, t.label.Pays c t.pre) ↔ ∀ txId, lost txId = 0) := by
  refine run.history (P := fun τ s => ∃ lost, s.Stranded lost ∧
    ((∀ t ∈ τ, t.label.Pays c t.pre) ↔ ∀ txId, lost txId = 0)) ?_ ?_
  · intro s ⟨initial, b, _, _, start⟩
    subst start
    exact ⟨fun _ => 0, fun _ => rfl, fun _ _ => rfl, fun _ _ h => by cases h⟩
  · intro τ s l s' run ⟨lost, stranded, pays⟩ step
    have reach : Reachable (chain c) s := ⟨τ, run⟩
    have ok := succeeds_iff_pays reach step
    simp only [List.mem_append, List.mem_singleton, or_imp, forall_and, forall_eq, pays]
    cases stranded_step (reachable_tasksOwned reach) (reachable_accounting reach) stranded
        (reachable_effect reach step) with
    | inl kept => exact ⟨lost, kept.2, and_iff_left (ok.mp kept.1)⟩
    | inr failed =>
        obtain ⟨failed, txId, more⟩ := failed
        refine ⟨_, more, fun h => absurd (ok.mpr h.2) failed, fun none => ?_⟩
        have := none txId
        rw [Function.update_self] at this
        omega

/-- An execution cleans up exactly when its transfer can be paid; every pending
instance has its task exactly when all executions so far could be paid; and then
the tasks back every amount on hold. -/
theorem executions_clean_up_iff {τ : List (Transition (State A H N) (Label A H N))}
    (run : Run (chain c) τ s) :
    (∀ t ∈ τ, t.label.CleansUp t.pre t.post ↔ t.label.Pays c t.pre) ∧
      ((∀ t ∈ τ, t.label.Pays c t.pre) ↔
        ∀ txId, liveTasks s.tasks txId = countOf s.pendingTransfers txId) ∧
      ((∀ t ∈ τ, t.label.Pays c t.pre) →
        ∀ a, s.balances.balanceOnHold .scheduledTransfer a =
          total (fun txId p => if p.who = a then p.amount * liveTasks s.tasks txId else 0)
            s.pendingTransfers) := by
  obtain ⟨lost, stranded, pays⟩ := stranded_of_run run
  have backed : (∀ t ∈ τ, t.label.Pays c t.pre) ↔
      ∀ txId, liveTasks s.tasks txId = countOf s.pendingTransfers txId := by
    rw [pays]
    refine forall_congr' fun txId => ?_
    have := stranded txId
    omega
  refine ⟨?_, backed, ?_⟩
  · intro t taken
    obtain ⟨reach, step⟩ := run.mem_step t taken
    exact label_cleansUp_iff reach step
  · intro paid a
    rw [(reachable_accounting ⟨τ, run⟩).held a]
    apply total_congr
    intro txId p found
    rw [share, backed.mp paid txId, countOf_of_lookup found]
    rfl

namespace Mock

/-- The transfer of half an existential deposit, on the block it is due. -/
def due (dest : ℕ) : MockState :=
  nextBlock (nextBlock (schedule dest 500000000 (nextBlock (start 2))))

theorem run_due (dest : ℕ) : ∃ τ, Run (chain config) τ (due dest) := by
  refine ⟨_, run_nextBlock (run_nextBlock (run_schedule (run_nextBlock (run_start 2) (by decide))
    dest 500000000) ?_) ?_⟩
  · rw [schedule_blockNumber]
    decide
  · change (schedule dest 500000000 (nextBlock (start 2))).blockNumber + 1 < u32Max
    rw [schedule_blockNumber]
    decide

def half (dest : ℕ) : PendingTransfer ℕ :=
  ⟨1, .transferKeepAlive (.id dest) 500000000, 500000000, 1⟩

end Mock

open Mock in
theorem executions_clean_up_paid :
    (Label.runTask (txId 2 500000000, 1)).CleansUp (due 2)
      (Mock.runTask (txId 2 500000000, 1) (due 2)) := by
  obtain ⟨τ, run⟩ := run_due 2
  have clean := (executions_clean_up_iff (run_runTask run (txId 2 500000000, 1) rfl
    (by decide))).1 _ (List.mem_append_right _ (List.mem_singleton_self _))
  refine clean.mpr ⟨_, _, half 2, rfl, rfl, rfl, 2, rfl, .inr ⟨?_, ?_, ?_, ?_, ?_⟩⟩
  · decide
  · decide
  · decide
  · decide
  · decide

open Mock in
/-- An account that does not exist cannot receive less than the existential
deposit: the execution fails, the entry and the hold stay, and nothing is left
that could release them. -/
theorem execution_strands_funds :
    (∃ τ, Run (chain config) τ (Mock.runTask (txId 3 500000000, 1) (due 3))) ∧
      (due 3).pendingTransfers.lookup (txId 3 500000000) = some (half 3) ∧
      ¬ CleansUp (txId 3 500000000) (half 3) (due 3)
        (Mock.runTask (txId 3 500000000, 1) (due 3)) ∧
      (Mock.runTask (txId 3 500000000, 1) (due 3)).balances.balanceOnHold
        .scheduledTransfer 1 = 500000000 ∧
      (Mock.runTask (txId 3 500000000, 1) (due 3)).tasks = ∅ ∧
      (exec (cancel config (.signed 1) (txId 3 500000000))
        (Mock.runTask (txId 3 500000000, 1) (due 3))).1 =
          .error (.reversibleTransfers .cancellationFailed) := by
  obtain ⟨τ, run⟩ := run_due 3
  refine ⟨⟨_, run_runTask run _ rfl (by decide)⟩, rfl, ?_, by decide, rfl, rfl⟩
  intro cleaned
  exact absurd cleaned.count (by decide)

end Resonance.ReversibleTransfers
