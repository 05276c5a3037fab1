import Resonance.ReversibleTransfers.CleanUp

/-!
The names of the live tasks.

A task is named after its transfer and the count at the time it was scheduled.
Scheduling takes the next number and cancelling gives the last one back, but
tasks run in the order of their blocks: an execution lowers the count and removes
whichever number was due. The names stay `1..count` exactly as long as every
execution is one of the last number, and succeeds.
-/
namespace Resonance.ReversibleTransfers
open Storage StateMachine StorageMap
variable {A H N : Type} [DecidableEq A] [DecidableEq H] [DecidableEq N]

/-- A live task of the transfer has this name. -/
def State.Live (s : State A H N) (txId : H) (name : N) : Prop :=
  ∃ task, s.tasks.lookup name = some task ∧ task.call = .executeTransfer txId

/-- The live tasks of a transfer are numbered from one to its count. -/
def Numbered (c : Config A H N) (s : State A H N) : Prop :=
  ∀ txId name, s.Live txId name ↔
    ∃ k, 1 ≤ k ∧ k ≤ countOf s.pendingTransfers txId ∧ name = c.makeScheduleId txId k

structure WellNamed (c : Config A H N) (s : State A H N) : Prop where
  numbered : Numbered c s
  /-- A cancellation finds the task it names. -/
  cancellable : ∀ txId pending, s.pendingTransfers.lookup txId = some pending →
    s.Live txId (c.makeScheduleId txId pending.count)
  /-- The name one more instance would get is free. -/
  schedulable : ∀ who dest amount, s.accountPendingIndex who < c.maxPendingPerAccount →
    s.tasks.lookup (c.makeScheduleId (c.hashOf who (.transferKeepAlive dest amount))
      (s.nextCount (c.hashOf who (.transferKeepAlive dest amount)))) = none

/-- The step runs no task, or the last instance of a transfer that can be paid. -/
def Label.RunsLast (c : Config A H N) (s : State A H N) : Label A H N → Prop
  | .runTask name => ∃ txId pending, s.pendingTransfers.lookup txId = some pending ∧
    name = c.makeScheduleId txId pending.count ∧
    Payable c.existentialDeposit s.balances pending
  | _ => True

variable {c : Config A H N} {s s' : State A H N} {l : Label A H N} {txId : H}
  {pending : PendingTransfer A}

theorem Numbered.wellNamed (numbered : Numbered c s) (owned : s.TasksOwned c)
    (inv : Accounting c s) : WellNamed c s where
  numbered := numbered
  cancellable txId pending found := by
    apply (numbered _ _).mpr
    refine ⟨pending.count, (inv.entries _ _ found).counted, ?_, rfl⟩
    rw [countOf_of_lookup found]
  schedulable who dest amount below := by
    cases taken : s.tasks.lookup (c.makeScheduleId (c.hashOf who (.transferKeepAlive dest amount))
      (s.nextCount (c.hashOf who (.transferKeepAlive dest amount)))) with
    | none => rfl
    | some task =>
        obtain ⟨k, -, small, name⟩ := (numbered _ _).mp ⟨task, taken, call_of_named owned taken⟩
        have same := (c.makeScheduleId_injective name).2
        rw [inv.nextCount_eq below] at same
        omega

omit [DecidableEq A] [DecidableEq H] in
theorem live_erase {name n : N} {s₁ : State A H N} (tasks : s₁.tasks = s.tasks.erase n) :
    s₁.Live txId name ↔ name ≠ n ∧ s.Live txId name := by
  simp only [State.Live]
  rw [tasks, lookup_erase_eq_ite]
  split
  next same => simp [same]
  next other => simp [other]

theorem numbered_scheduled (numbered : Numbered c s) (inv : Accounting c s) {who : A}
    {dest : MultiAddress A} {amount delay : ℕ} {b : BalancesState A}
    (below : s.accountPendingIndex who < c.maxPendingPerAccount) :
    Numbered c (s.scheduled c who (.transferKeepAlive dest amount) amount delay b) := by
  intro t name
  have old := numbered t name
  simp only [State.Live] at old ⊢
  dsimp only [State.scheduled]
  rw [countOf_insert, lookup_insert_eq_ite, inv.nextCount_eq below]
  dsimp only
  generalize c.hashOf who (.transferKeepAlive dest amount) = txId
  by_cases new : name = c.makeScheduleId txId (countOf s.pendingTransfers txId + 1)
  · rw [if_pos new]
    constructor
    · rintro ⟨task, live, call⟩
      cases live
      cases call
      exact ⟨_, Nat.le_add_left 1 _, by rw [if_pos rfl], new⟩
    · rintro ⟨k, positive, small, named⟩
      obtain ⟨rfl, rfl⟩ := c.makeScheduleId_injective (new.symm.trans named)
      exact ⟨_, rfl, rfl⟩
  · rw [if_neg new, old]
    constructor
    · rintro ⟨k, positive, small, named⟩
      refine ⟨k, positive, ?_, named⟩
      split
      next same =>
        subst same
        omega
      next other => exact small
    · rintro ⟨k, positive, small, named⟩
      refine ⟨k, positive, ?_, named⟩
      split at small
      next same =>
        subst same
        have : k ≠ countOf s.pendingTransfers t + 1 := fun last => new (last ▸ named)
        omega
      next other => exact small

/-- Settling an instance keeps the numbering exactly when its task had the last
number. -/
theorem numbered_settled_iff (numbered : Numbered c s) (inv : Accounting c s) {k : ℕ}
    {b : BalancesState A} {e : Event A H}
    (found : s.pendingTransfers.lookup txId = some pending)
    (live : s.Live txId (c.makeScheduleId txId k)) :
    Numbered c (s.settled txId pending (s.tasks.erase (c.makeScheduleId txId k)) b e) ↔
      k = pending.count := by
  have entry := inv.entries _ _ found
  have count := countOf_of_lookup found
  have counts := countOf_withoutInstance found entry.counted
  have erased (t : H) (name : N) :
      (s.settled txId pending (s.tasks.erase (c.makeScheduleId txId k)) b e).Live t name ↔
        name ≠ c.makeScheduleId txId k ∧ s.Live t name := live_erase rfl
  obtain ⟨k', positive, small, name⟩ := (numbered _ _).mp live
  obtain ⟨-, rfl⟩ := c.makeScheduleId_injective name
  constructor
  · intro numbered'
    by_contra other
    have last : s.Live txId (c.makeScheduleId txId pending.count) :=
      (numbered _ _).mpr ⟨_, entry.counted, by omega, rfl⟩
    have kept := (erased txId _).mpr
      ⟨fun same => other (c.makeScheduleId_injective same).2.symm, last⟩
    obtain ⟨k', -, small', name'⟩ := (numbered' _ _).mp kept
    obtain ⟨-, rfl⟩ := c.makeScheduleId_injective name'
    have less := counts txId
    rw [if_pos rfl] at less
    dsimp only [State.settled] at small'
    omega
  · intro last t name
    rw [erased, numbered]
    have less := counts t
    dsimp only [State.settled]
    constructor
    · rintro ⟨other, k', positive', small', named⟩
      refine ⟨k', positive', ?_, named⟩
      split at less
      next same =>
        subst same
        have : k' ≠ k := fun h => other (h ▸ named)
        omega
      next differ => omega
    · rintro ⟨k', positive', small', named⟩
      refine ⟨fun same => ?_, k', positive', by omega, named⟩
      obtain ⟨rfl, rfl⟩ := c.makeScheduleId_injective (named.symm.trans same)
      rw [if_pos rfl] at less
      omega

/-- A step from a numbered state keeps the numbering exactly when it runs no task
or the last one, and that with success. -/
theorem numbered_step_iff (h : Reachable (chain c) s) (numbered : Numbered c s)
    (step : (chain c).step s l s') : Numbered c s' ↔ l.RunsLast c s := by
  have inv := reachable_accounting h
  have owned := reachable_tasksOwned h
  cases reachable_effect h step with
  | refused failed => exact iff_of_true numbered trivial
  | reversibilitySet fresh long => exact iff_of_true numbered trivial
  | scheduled ok reversible below free held =>
      exact iff_of_true (numbered_scheduled numbered inv below) trivial
  | cancelled found reversible live refund =>
      obtain ⟨task, live⟩ := Option.isSome_iff_exists.mp live
      have named := call_of_named owned live
      exact iff_of_true ((numbered_settled_iff numbered inv found ⟨task, live, named⟩).mpr rfl)
        trivial
  | @executed name task txId pending _ _ live call due ok found released moved =>
      have payable := (runTask_ok_iff h live call found).mp ok
      obtain ⟨k, -, -, named⟩ := (numbered txId name).mp ⟨task, live, call⟩
      subst named
      rw [numbered_settled_iff numbered inv found ⟨task, live, call⟩]
      constructor
      · intro last
        exact ⟨txId, pending, found, by rw [last], payable⟩
      · intro ⟨txId', pending', found', named, _⟩
        obtain ⟨rfl, last⟩ := c.makeScheduleId_injective named
        cases found.symm.trans found'
        exact last
  | @taskFailed name task txId e live call due failed =>
      have gone : ¬ Numbered c { s with tasks := s.tasks.erase name } := by
        intro numbered'
        have still := (numbered' txId name).mpr ((numbered txId name).mp ⟨task, live, call⟩)
        exact ((live_erase (s := s) rfl).mp still).1 rfl
      refine iff_of_false gone ?_
      intro ⟨txId', pending, found, named, payable⟩
      subst named
      have call' := call_of_named owned live
      rw [(runTask_ok_iff h live call' found).mpr payable] at failed
      cases failed
  | nextBlock below => exact iff_of_true numbered trivial
  | balances valid same => exact iff_of_true numbered trivial

theorem numbered_genesis {initial : List (A × ℕ)} {b : BalancesState A} :
    Numbered c (genesis c initial b) := by
  intro txId name
  constructor
  · intro ⟨task, live, _⟩
    cases live
  · intro ⟨k, positive, small, _⟩
    have : k ≤ 0 := small
    omega

theorem numbered_of_run {τ : List (Transition (State A H N) (Label A H N))}
    (run : Run (chain c) τ s) :
    ((∀ t ∈ τ, Numbered c t.post) ↔ ∀ t ∈ τ, t.label.RunsLast c t.pre) ∧
      ((∀ t ∈ τ, t.label.RunsLast c t.pre) → Numbered c s) := by
  refine run.history (P := fun τ s =>
    ((∀ t ∈ τ, Numbered c t.post) ↔ ∀ t ∈ τ, t.label.RunsLast c t.pre) ∧
      ((∀ t ∈ τ, t.label.RunsLast c t.pre) → Numbered c s)) ?_ ?_
  · intro s ⟨initial, b, _, _, start⟩
    subst start
    refine ⟨?_, fun _ => numbered_genesis⟩
    simp
  · intro τ s l s' run ⟨same, here⟩ step
    have next (before : ∀ t ∈ τ, t.label.RunsLast c t.pre) :=
      numbered_step_iff ⟨τ, run⟩ (here before) step
    simp only [List.mem_append, List.mem_singleton, or_imp, forall_and, forall_eq, same]
    constructor
    · exact and_congr_right next
    · intro ⟨before, last⟩
      exact (next before).mpr last

/-- In every state of a run the live tasks are numbered as the counts say, every
cancellation finds its task and the next name is free, exactly when the run
executes none but last instances of transfers that can be paid. -/
theorem wellNamed_iff {τ : List (Transition (State A H N) (Label A H N))}
    (run : Run (chain c) τ s) :
    ((∀ t ∈ τ, WellNamed c t.post) ↔ ∀ t ∈ τ, t.label.RunsLast c t.pre) ∧
      ((∀ t ∈ τ, t.label.RunsLast c t.pre) → WellNamed c s) := by
  obtain ⟨same, here⟩ := numbered_of_run run
  refine ⟨?_, fun last => (here last).wellNamed (reachable_tasksOwned ⟨τ, run⟩)
    (reachable_accounting ⟨τ, run⟩)⟩
  rw [← same]
  refine forall₂_congr fun t taken => ?_
  obtain ⟨reach, step⟩ := run.mem_step t taken
  have reach' := reach.next step
  exact ⟨WellNamed.numbered, fun numbered =>
    numbered.wellNamed (reachable_tasksOwned reach') (reachable_accounting reach')⟩

namespace Mock

/-- Two identical transfers, scheduled in two blocks, when the first is due. -/
def twice : MockState :=
  nextBlock (schedule 2 500000000 (nextBlock (schedule 2 500000000 (nextBlock (start 2)))))

theorem run_twice : ∃ τ, Run (chain config) τ twice := by
  refine ⟨_, run_nextBlock (run_schedule (run_nextBlock (run_schedule (run_nextBlock
    (run_start 2) ?_) 2 500000000) ?_) 2 500000000) ?_⟩
  · decide
  · decide
  · decide

/-- The first of them has been executed. -/
def onceExecuted : MockState := runTask (Mock.txId 2 500000000, 1) twice

end Mock

open Mock in
theorem wellNamed_iff_due :
    WellNamed config (Mock.runTask (Mock.txId 2 500000000, 1) (due 2)) := by
  have run := run_runTask (run_nextBlock (run_nextBlock (run_schedule (run_nextBlock
    (run_start 2) (by decide)) 2 500000000) (by decide)) (by decide))
    (Mock.txId 2 500000000, 1) rfl (by decide)
  refine (wellNamed_iff run).2 ?_
  simp only [List.nil_append, List.mem_append, List.mem_singleton, or_imp, forall_and, forall_eq]
  refine ⟨⟨⟨⟨trivial, trivial⟩, trivial⟩, trivial⟩, Mock.txId 2 500000000, half 2, rfl, rfl, 2, rfl,
    .inr ⟨?_, ?_, ?_, ?_, ?_⟩⟩
  · decide
  · decide
  · decide
  · decide
  · decide

open Mock in
/-- The first of two identical transfers to come due leaves a count of one and a
task numbered two: the remaining instance cannot be cancelled, and no further one
scheduled. -/
theorem execution_breaks_numbering :
    (∃ τ, Run (chain config) τ onceExecuted) ∧ ¬ WellNamed config onceExecuted ∧
      countOf onceExecuted.pendingTransfers (Mock.txId 2 500000000) = 1 ∧
      onceExecuted.Live (Mock.txId 2 500000000) (Mock.txId 2 500000000, 2) ∧
      (exec (cancel config (.signed 1) (Mock.txId 2 500000000)) onceExecuted).1 =
        .error (.reversibleTransfers .cancellationFailed) ∧
      (exec (scheduleTransfer config (.signed 1) (.id 2) 500000000) onceExecuted).1 =
        .error (.reversibleTransfers .schedulingFailed) := by
  obtain ⟨τ, run⟩ := run_twice
  refine ⟨⟨_, run_runTask run _ rfl (by decide)⟩, ?_, by decide, ⟨_, rfl, rfl⟩, rfl, rfl⟩
  intro wellNamed
  obtain ⟨task, live, -⟩ := wellNamed.cancellable (Mock.txId 2 500000000) (half 2) rfl
  cases live

end Resonance.ReversibleTransfers
