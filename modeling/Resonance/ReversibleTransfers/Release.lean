import Resonance.ReversibleTransfers.CleanUp

/-!
How an amount leaves a hold.

A live task remembers the call that scheduled it, so every execution can be
traced back to a scheduling of its own: identical transfers share an entry but
not their tasks. `origin` is that trace. It sends the live tasks and the
executions so far to positions of the history, no two to the same one.
-/
namespace Resonance.ReversibleTransfers
open Storage StateMachine StorageMap
variable {A H N : Type} [DecidableEq A] [DecidableEq H] [DecidableEq N]

abbrev History (A H N : Type) := List (Transition (State A H N) (Label A H N))

/-- A successful scheduling of a transfer by `who`. -/
structure Schedules (c : Config A H N) (t : Transition (State A H N) (Label A H N)) (who : A)
    (dest : MultiAddress A) (amount : ℕ) : Prop where
  label : t.label = .extrinsic (.signed who) (.scheduleTransfer dest amount)
  ok : (exec ((Call.scheduleTransfer dest amount).dispatch c (.signed who)) t.pre).1 = .ok ⟨⟩

/-- A successful execution of a pending transfer. -/
def Executes (c : Config A H N) (t : Transition (State A H N) (Label A H N))
    (pending : PendingTransfer A) : Prop :=
  ∃ name task txId, t.label = .runTask name ∧ t.pre.tasks.lookup name = some task ∧
    task.call = .executeTransfer txId ∧ t.pre.pendingTransfers.lookup txId = some pending ∧
    (runTask c t.pre name task).1 = .ok ⟨⟩

/-- At position `i` of the history `who` scheduled the transfer `call`, whose delay
was over by block `due`; a delay that overshoots the last block number ends with
it. -/
def ScheduledAt (c : Config A H N) (τ : History A H N) (i : ℕ) (who : A) (call : BalancesCall A)
    (due : ℕ) : Prop :=
  ∃ t dest amount data, τ[i]? = some t ∧ Schedules c t who dest amount ∧
    call = .transferKeepAlive dest amount ∧ t.pre.reversibleAccounts who = some data ∧
    c.minDelayPeriod ≤ data.delay ∧ min (t.pre.blockNumber + data.delay) u32Max ≤ due

/-- The live tasks, by name, and the executions, by position. -/
def Uses (c : Config A H N) (τ : History A H N) (s : State A H N) : N ⊕ ℕ → Prop
  | .inl name => (s.tasks.lookup name).isSome
  | .inr j => ∃ t pending, τ[j]? = some t ∧ Executes c t pending

structure Origin (c : Config A H N) (τ : History A H N) (s : State A H N)
    (origin : N ⊕ ℕ → ℕ) : Prop where
  apart : ∀ u v, Uses c τ s u → Uses c τ s v → origin u = origin v → u = v
  live : ∀ name task, s.tasks.lookup name = some task → ∃ who call,
    task.call = .executeTransfer (c.hashOf who call) ∧
      ScheduledAt c τ (origin (.inl name)) who call task.when
  executed : ∀ j t pending, τ[j]? = some t → Executes c t pending → origin (.inr j) < j ∧
    ScheduledAt c τ (origin (.inr j)) pending.who pending.call t.pre.blockNumber

variable {c : Config A H N} {s s' : State A H N} {l : Label A H N} {τ : History A H N}
  {origin : N ⊕ ℕ → ℕ}

theorem ScheduledAt.snoc {i : ℕ} {who : A} {call : BalancesCall A} {due : ℕ}
    {t : Transition (State A H N) (Label A H N)} (h : ScheduledAt c τ i who call due) :
    ScheduledAt c (τ ++ [t]) i who call due := by
  obtain ⟨u, dest, amount, data, at', rest⟩ := h
  exact ⟨u, dest, amount, data, getElem?_snoc_of_some at', rest⟩

theorem ScheduledAt.lt {i : ℕ} {who : A} {call : BalancesCall A} {due : ℕ}
    (h : ScheduledAt c τ i who call due) : i < τ.length := by
  obtain ⟨u, dest, amount, data, at', rest⟩ := h
  exact (List.getElem?_eq_some_iff.mp at').1

theorem ScheduledAt.later {i : ℕ} {who : A} {call : BalancesCall A} {due due' : ℕ}
    (h : ScheduledAt c τ i who call due) (le : due ≤ due') : ScheduledAt c τ i who call due' := by
  obtain ⟨u, dest, amount, data, at', scheduled, same, reversible, long, ended⟩ := h
  exact ⟨u, dest, amount, data, at', scheduled, same, reversible, long, ended.trans le⟩

theorem Origin.lt (h : Origin c τ s origin) {u : N ⊕ ℕ} (uses : Uses c τ s u) :
    origin u < τ.length := by
  cases u with
  | inl name =>
      obtain ⟨task, live⟩ := Option.isSome_iff_exists.mp uses
      obtain ⟨who, call, -, at'⟩ := h.live name task live
      exact at'.lt
  | inr j =>
      obtain ⟨t, pending, at', executes⟩ := uses
      exact (h.executed j t pending at' executes).2.lt

theorem executes_before {t u : Transition (State A H N) (Label A H N)} {j : ℕ}
    {pending : PendingTransfer A} (idle : ∀ pending, ¬ Executes c t pending)
    (at' : (τ ++ [t])[j]? = some u) (executes : Executes c u pending) : τ[j]? = some u := by
  cases getElem?_snoc at' with
  | inl before => exact before
  | inr last =>
      obtain ⟨-, rfl⟩ := last
      exact absurd executes (idle pending)

section
variable {t : Transition (State A H N) (Label A H N)}

/-- A step that adds no task and executes none keeps the trace. -/
theorem Origin.quiet (h : Origin c τ s origin)
    (tasks : ∀ name task, s'.tasks.lookup name = some task → s.tasks.lookup name = some task)
    (idle : ∀ pending, ¬ Executes c t pending) : Origin c (τ ++ [t]) s' origin := by
  have old (u : N ⊕ ℕ) (uses : Uses c (τ ++ [t]) s' u) : Uses c τ s u := by
    cases u with
    | inl name =>
        obtain ⟨task, live⟩ := Option.isSome_iff_exists.mp uses
        exact Option.isSome_iff_exists.mpr ⟨task, tasks name task live⟩
    | inr j =>
        obtain ⟨u, pending, at', executes⟩ := uses
        exact ⟨u, pending, executes_before idle at' executes, executes⟩
  refine ⟨fun u v hu hv => h.apart u v (old u hu) (old v hv), ?_, ?_⟩
  · intro name task live
    obtain ⟨who, call, same, at'⟩ := h.live name task (tasks name task live)
    exact ⟨who, call, same, at'.snoc⟩
  · intro j u pending at' executes
    obtain ⟨earlier, at'⟩ := h.executed j u pending (executes_before idle at' executes) executes
    exact ⟨earlier, at'.snoc⟩

/-- One use more, at a position none of the uses that stay has. -/
theorem Origin.apart_update (h : Origin c τ s origin) {uses : N ⊕ ℕ → Prop} {new : N ⊕ ℕ} {i : ℕ}
    (old : ∀ u, uses u → u ≠ new → Uses c τ s u ∧ origin u ≠ i) (u v : N ⊕ ℕ) (hu : uses u)
    (hv : uses v) (same : Function.update origin new i u = Function.update origin new i v) :
    u = v := by
  rw [Function.update_apply, Function.update_apply] at same
  split at same
  next hun =>
    split at same
    next hvn => rw [hun, hvn]
    next hvn => exact absurd same.symm (old v hv hvn).2
  next hun =>
    split at same
    next hvn => exact absurd same (old u hu hun).2
    next hvn => exact h.apart u v (old u hu hun).1 (old v hv hvn).1 same

/-- A new task comes from the step that adds it. -/
theorem Origin.added (h : Origin c τ s origin) {name : N} {task : ScheduledTask A (Call A H)}
    {who : A} {call : BalancesCall A} (tasks : s'.tasks = s.tasks.insert name task)
    (idle : ∀ pending, ¬ Executes c t pending)
    (owner : task.call = .executeTransfer (c.hashOf who call))
    (here : ScheduledAt c (τ ++ [t]) τ.length who call task.when) :
    Origin c (τ ++ [t]) s' (Function.update origin (.inl name) τ.length) := by
  refine ⟨h.apart_update ?_, ?_, ?_⟩
  · intro u uses other
    have before : Uses c τ s u := by
      cases u with
      | inl n =>
          rw [Uses, tasks, AList.lookup_insert_ne fun same => other (congrArg Sum.inl same)] at uses
          exact uses
      | inr j =>
          obtain ⟨u, pending, at', executes⟩ := uses
          exact ⟨u, pending, executes_before idle at' executes, executes⟩
    exact ⟨before, Nat.ne_of_lt (h.lt before)⟩
  · intro n task' live
    rw [tasks, lookup_insert_eq_ite] at live
    split at live
    next same =>
      cases live
      subst same
      rw [Function.update_self]
      exact ⟨who, call, owner, here⟩
    next other =>
      rw [Function.update_of_ne fun same => other (Sum.inl.inj same)]
      obtain ⟨who, call, same, at'⟩ := h.live n task' live
      exact ⟨who, call, same, at'.snoc⟩
  · intro j u pending at' executes
    rw [Function.update_of_ne Sum.inr_ne_inl]
    obtain ⟨earlier, at'⟩ := h.executed j u pending (executes_before idle at' executes) executes
    exact ⟨earlier, at'.snoc⟩

/-- An execution takes over the origin of its task. -/
theorem Origin.consumed (h : Origin c τ s origin) {name : N} {task : ScheduledTask A (Call A H)}
    (tasks : s'.tasks = s.tasks.erase name) (live : s.tasks.lookup name = some task)
    (due : ∀ pending, Executes c t pending → task.when ≤ t.pre.blockNumber ∧
      task.call = .executeTransfer (c.hashOf pending.who pending.call)) :
    Origin c (τ ++ [t]) s'
      (Function.update origin (.inr τ.length) (origin (.inl name))) := by
  have used : Uses c τ s (.inl name) := Option.isSome_iff_exists.mpr ⟨task, live⟩
  refine ⟨h.apart_update ?_, ?_, ?_⟩
  · intro u uses other
    have before : Uses c τ s u ∧ u ≠ .inl name := by
      cases u with
      | inl n =>
          rw [Uses, tasks, lookup_erase_eq_ite] at uses
          split at uses
          next same => cases uses
          next differ => exact ⟨uses, fun same => differ (Sum.inl.inj same)⟩
      | inr j =>
          obtain ⟨u, pending, at', executes⟩ := uses
          cases getElem?_snoc at' with
          | inl before => exact ⟨⟨u, pending, before, executes⟩, Sum.inr_ne_inl⟩
          | inr last => exact absurd (congrArg Sum.inr last.1) other
    exact ⟨before.1, fun same => before.2 (h.apart _ _ before.1 used same)⟩
  · intro n task' live'
    rw [Function.update_of_ne Sum.inl_ne_inr]
    rw [tasks, lookup_erase_eq_ite] at live'
    split at live'
    next same => cases live'
    next differ =>
      obtain ⟨who, call, same, at'⟩ := h.live n task' live'
      exact ⟨who, call, same, at'.snoc⟩
  · intro j u pending at' executes
    cases getElem?_snoc at' with
    | inl before =>
        have earlier := (List.getElem?_eq_some_iff.mp before).1
        rw [Function.update_of_ne fun same => Nat.ne_of_lt earlier (Sum.inr.inj same)]
        obtain ⟨earlier, at'⟩ := h.executed j u pending before executes
        exact ⟨earlier, at'.snoc⟩
    | inr last =>
        obtain ⟨rfl, rfl⟩ := last
        rw [Function.update_self]
        obtain ⟨late, call⟩ := due pending executes
        obtain ⟨who, call', same, at'⟩ := h.live name task live
        obtain ⟨rfl, rfl⟩ := c.hashOf_injective (Call.executeTransfer.inj (same.symm.trans call))
        exact ⟨h.lt used, at'.snoc.later late⟩

end

omit [DecidableEq A] [DecidableEq H] in
theorem lookup_of_lookup_erase {tasks : Tasks N A (Call A H)} {n : N} (name : N)
    (task : ScheduledTask A (Call A H)) (h : (tasks.erase n).lookup name = some task) :
    tasks.lookup name = some task := by
  rw [lookup_erase_eq_ite] at h
  split at h
  · cases h
  · exact h

theorem exists_origin (run : Run (chain c) τ s) : ∃ origin, Origin c τ s origin := by
  refine run.history (P := fun τ s => ∃ origin, Origin c τ s origin) ?_ ?_
  · intro s ⟨initial, b, _, _, start⟩
    subst start
    refine ⟨fun _ => 0, ?_, ?_, ?_⟩
    · intro u v uses
      cases u with
      | inl name => cases uses
      | inr j =>
          obtain ⟨_, _, at', -⟩ := uses
          cases at'
    · intro name task live
      cases live
    · intro j t pending at'
      cases at'
  · intro τ s l s' run ⟨origin, h⟩ step
    have reach : Reachable (chain c) s := ⟨τ, run⟩
    have inv := reachable_accounting reach
    have idle (other : ∀ name, l ≠ .runTask name) (pending : PendingTransfer A) :
        ¬ Executes c ⟨s, l, s'⟩ pending := fun ⟨name, _, _, label, _⟩ => other name label
    cases reachable_effect reach step with
    | refused failed => exact ⟨origin, h.quiet (fun _ _ live => live) (idle nofun)⟩
    | reversibilitySet fresh long => exact ⟨origin, h.quiet (fun _ _ live => live) (idle nofun)⟩
    | @scheduled who dest amount data b ok reversible below free held =>
        refine ⟨_, h.added rfl (idle nofun) rfl ?_⟩
        exact ⟨_, dest, amount, data, List.getElem?_concat_length, ⟨rfl, ok⟩, rfl, reversible,
          reachable_longDelays reach _ _ reversible, Nat.le_refl _⟩
    | cancelled found reversible live refund =>
        exact ⟨origin, h.quiet lookup_of_lookup_erase (idle nofun)⟩
    | executed live call due ok found released moved =>
        refine ⟨_, h.consumed rfl live ?_⟩
        intro pending' ⟨name', task', txId', label, live', call', found', _⟩
        cases label
        cases live.symm.trans live'
        refine ⟨due, ?_⟩
        rw [call', ← (inv.entries _ _ found').key]
    | taskFailed live call due failed =>
        refine ⟨origin, h.quiet lookup_of_lookup_erase ?_⟩
        intro pending' ⟨name', task', txId', label, live', call', found', ok⟩
        cases label
        cases live.symm.trans live'
        rw [failed] at ok
        cases ok
    | nextBlock below => exact ⟨origin, h.quiet (fun _ _ live => live) (idle nofun)⟩
    | balances valid same => exact ⟨origin, h.quiet (fun _ _ live => live) (idle nofun)⟩

/-- The rules by which an amount leaves the hold of `a`. -/
inductive Leaves (c : Config A H N) (t : Transition (State A H N) (Label A H N)) (a : A) : Prop
  | executed {pending : PendingTransfer A} {dest : MultiAddress A} {d : A} :
      Executes c t pending → pending.who = a →
      pending.call = .transferKeepAlive dest pending.amount → dest.lookup = some d →
      t.post.balances.balanceOnHold .scheduledTransfer a + pending.amount =
        t.pre.balances.balanceOnHold .scheduledTransfer a →
      (t.post.balances.account d).free = (t.pre.balances.account d).free + pending.amount →
      (d ≠ a → (t.post.balances.account a).free = (t.pre.balances.account a).free) → Leaves c t a
  | returned {txId : H} {pending : PendingTransfer A} {data : ReversibleAccountData A} :
      t.label = .extrinsic (.signed a) (.cancel txId) →
      t.pre.pendingTransfers.lookup txId = some pending → pending.who = a →
      t.pre.reversibleAccounts a = some data → data.explicitReverser = none →
      t.post.balances.balanceOnHold .scheduledTransfer a + pending.amount =
        t.pre.balances.balanceOnHold .scheduledTransfer a →
      (t.post.balances.account a).free = (t.pre.balances.account a).free + pending.amount →
      Leaves c t a
  | reversed {txId : H} {pending : PendingTransfer A} {data : ReversibleAccountData A}
      {reverser : A} :
      t.label = .extrinsic (.signed reverser) (.cancel txId) →
      t.pre.pendingTransfers.lookup txId = some pending → pending.who = a →
      t.pre.reversibleAccounts a = some data → data.explicitReverser = some reverser →
      t.post.balances.balanceOnHold .scheduledTransfer a + pending.amount =
        t.pre.balances.balanceOnHold .scheduledTransfer a →
      (t.post.balances.account reverser).free =
        (t.pre.balances.account reverser).free + pending.amount →
      Leaves c t a

theorem who_of_less {b b' : BalancesState A} {who a : A} {amount : ℕ}
    (holds : b'.HoldsAdd b .scheduledTransfer who amount)
    (less : b'.balanceOnHold .scheduledTransfer a < b.balanceOnHold .scheduledTransfer a) :
    who = a ∧ b'.balanceOnHold .scheduledTransfer a + amount =
      b.balanceOnHold .scheduledTransfer a := by
  have taken := taken_of_holdsAdd holds a
  by_cases owner : a = who
  · rw [if_pos owner] at taken
    exact ⟨owner.symm, taken⟩
  · rw [if_neg owner] at taken
    omega

theorem leaves_of_less (h : Reachable (chain c) s) (step : (chain c).step s l s') {a : A}
    (less : s'.balances.balanceOnHold .scheduledTransfer a <
      s.balances.balanceOnHold .scheduledTransfer a) : Leaves c ⟨s, l, s'⟩ a := by
  have inv := reachable_accounting h
  cases reachable_effect h step with
  | refused failed => exact absurd less (Nat.lt_irrefl _)
  | reversibilitySet fresh long => exact absurd less (Nat.lt_irrefl _)
  | scheduled ok reversible below free held =>
      have holds := (c.laws.hold_moves inv.valid held).2 a .scheduledTransfer
      dsimp only [State.scheduled] at less
      omega
  | cancelled found reversible live refund =>
      obtain ⟨-, holds⟩ := refund.taken inv.valid
      obtain ⟨owner, taken⟩ := who_of_less holds less
      subst owner
      cases refund with
      | toReverser explicit moved =>
          obtain ⟨-, -, credited⟩ := c.laws.transferOnHold_moves inv.valid moved
          exact .reversed rfl found rfl reversible explicit taken credited
      | toOwner none owner released =>
          subst owner
          obtain ⟨-, -, -, credited, -⟩ := c.laws.release_moves inv.valid released
          exact .returned rfl found rfl reversible none taken (congrArg AccountData.free credited)
  | @executed name task txId pending b₁ b₂ live call due ok found released moved =>
      have holds := (released_and_moved inv.valid released moved).2
      obtain ⟨owner, taken⟩ := who_of_less holds less
      subst owner
      obtain ⟨valid₁, -, -, credited, others⟩ := c.laws.release_moves inv.valid released
      obtain ⟨dest, transfer⟩ := (inv.entries _ _ found).transfer
      rw [transfer] at moved
      obtain ⟨d, resolved, self, other⟩ := transferKeepAlive_moves c.laws valid₁ moved
      refine .executed ⟨name, task, txId, rfl, live, call, found, ok⟩ rfl transfer resolved taken
        ?_ ?_
      · by_cases same : d = pending.who
        · subst same
          dsimp only [State.settled]
          rw [self rfl, credited]
        · dsimp only [State.settled]
          rw [(other same).2, others d same]
      · intro differ
        have paid := (other differ).1
        rw [credited] at paid
        dsimp only [State.settled] at paid ⊢
        omega
  | taskFailed live call due failed => exact absurd less (Nat.lt_irrefl _)
  | nextBlock below => exact absurd less (Nat.lt_irrefl _)
  | balances valid same =>
      dsimp only at less
      rw [same a] at less
      exact absurd less (Nat.lt_irrefl _)

/-- Executions come from schedulings of their own, made by the same account, of the
same transfer, and over by then; and nothing leaves a hold but by an execution or
by a cancellation of the account itself or of its explicit reverser. -/
theorem release_of_run (run : Run (chain c) τ s) :
    (∃ origin : ℕ → ℕ,
      (∀ i j t u p q, τ[i]? = some t → Executes c t p → τ[j]? = some u → Executes c u q →
        origin i = origin j → i = j) ∧
      ∀ j t pending, τ[j]? = some t → Executes c t pending → origin j < j ∧
        ScheduledAt c τ (origin j) pending.who pending.call t.pre.blockNumber) ∧
    ∀ t ∈ τ, ∀ a, t.post.balances.balanceOnHold .scheduledTransfer a <
      t.pre.balances.balanceOnHold .scheduledTransfer a → Leaves c t a := by
  obtain ⟨origin, h⟩ := exists_origin run
  refine ⟨⟨fun j => origin (.inr j), ?_, h.executed⟩, ?_⟩
  · intro i j t u p q hi executes hj executes' same
    exact Sum.inr.inj (h.apart _ _ ⟨t, p, hi, executes⟩ ⟨u, q, hj, executes'⟩ same)
  · intro t taken a less
    obtain ⟨reach, step⟩ := run.mem_step t taken
    exact leaves_of_less reach step less

/-- Empty blocks up to any later one. -/
theorem exists_run_nextBlocks (run : Run (chain c) τ s) (quiet : s.events = []) {n : ℕ}
    (later : s.blockNumber ≤ n) (le : n ≤ u32Max) :
    ∃ τ', (∀ t ∈ τ', t.label = .nextBlock) ∧
      Run (chain c) (τ ++ τ') { s with blockNumber := n } := by
  induction n, later using Nat.le_induction with
  | base =>
      refine ⟨[], by simp, ?_⟩
      rw [List.append_nil]
      exact run
  | succ n later ih =>
      obtain ⟨τ', empty, run'⟩ := ih (Nat.le_of_succ_le le)
      refine ⟨τ' ++ [⟨{ s with blockNumber := n }, .nextBlock, { s with blockNumber := n + 1 }⟩],
        ?_, ?_⟩
      · intro t taken
        cases List.mem_append.mp taken with
        | inl before => exact empty t before
        | inr last => rw [List.mem_singleton.mp last]
      · rw [← List.append_assoc]
        refine run'.extend ⟨le, ?_⟩
        rw [← quiet]

open Mock in
theorem release_of_run_due :
    Leaves config ⟨due 2, .runTask (Mock.txId 2 500000000, 1),
      Mock.runTask (Mock.txId 2 500000000, 1) (due 2)⟩ 1 := by
  obtain ⟨τ, run⟩ := run_due 2
  exact (release_of_run (run_runTask run (Mock.txId 2 500000000, 1) rfl (by decide))).2 _
    (List.mem_append_right _ (List.mem_singleton_self _)) 1 (by decide)

namespace Mock

/-- A transfer scheduled in the first block with the longest delay there is. -/
def farAway : MockState :=
  nextBlock (schedule 2 500000000 (nextBlock (start u32Max)))

end Mock

open Mock in
/-- The longest delay is cut off at the last block number: a transfer scheduled in
block 1 is executed in block `u32Max`, which is one block short of the delay. -/
theorem execution_before_delay :
    ∃ τ s t, Run (chain config) τ s ∧ t ∈ τ ∧ Executes config t (half 2) ∧
      ∀ u ∈ τ, ∀ dest data, Schedules config u 1 dest 500000000 →
        u.pre.reversibleAccounts 1 = some data →
        t.pre.blockNumber < u.pre.blockNumber + data.delay := by
  have first : Run (chain config) _ farAway :=
    run_nextBlock (run_schedule (run_nextBlock (run_start u32Max) (by decide)) 2 500000000)
      (by decide)
  obtain ⟨τ', empty, run⟩ :=
    exists_run_nextBlocks first rfl (n := u32Max) (by decide) (Nat.le_refl _)
  have run' := run_runTask run (Mock.txId 2 500000000, 1) rfl (by decide)
  refine ⟨_, _, _, run', List.mem_append_right _ (List.mem_singleton_self _),
    ⟨(Mock.txId 2 500000000, 1), _, Mock.txId 2 500000000, rfl, rfl, rfl, rfl, rfl⟩, ?_⟩
  intro u taken dest data scheduled reversible
  have label := scheduled.label
  simp only [List.nil_append, List.mem_append, List.mem_singleton] at taken
  rcases taken with (((rfl | rfl) | rfl) | later) | rfl
  · cases label
  · cases reversible
    decide
  · cases label
  · rw [empty u later] at label
    cases label
  · cases label

end Resonance.ReversibleTransfers
