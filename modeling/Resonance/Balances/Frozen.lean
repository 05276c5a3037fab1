import Resonance.Balances.Collections

/-!
What is frozen of an account.

The account stores one amount next to the lists of its locks and freezes. It is the
largest of them, or nothing: a lock on an account that could not take it is on record
without being in force, and a dead account leaves its locks behind.
-/
namespace Resonance.Balances
open Storage StateMachine Relation KeyedList

section
variable {I : Type} {locks : List (BalanceLock I)} {freezes : List (IdAmount I)} {n : ℕ}

theorem foldl_max_le_iff {α : Type} {f : α → ℕ} {b : ℕ} {l : List α} :
    l.foldl (fun m x => max m (f x)) b ≤ n ↔ b ≤ n ∧ ∀ x ∈ l, f x ≤ n := by
  induction l generalizing b with
  | nil => simp
  | cons x l ih => rw [List.foldl_cons, ih, List.forall_mem_cons, max_le_iff, and_assoc]

theorem frozenBy_le_iff : frozenBy locks freezes ≤ n ↔
    (∀ l ∈ locks, l.amount ≤ n) ∧ ∀ x ∈ freezes, x.amount ≤ n := by
  rw [frozenBy, foldl_max_le_iff, foldl_max_le_iff]
  simp

theorem forall_lock_iff [DecidableEq I] (keyed : Keyed BalanceLock.id locks) :
    (∀ l ∈ locks, l.amount ≤ n) ↔ ∀ id, (locksOf locks id).elim 0 Prod.fst ≤ n := by
  refine ⟨fun all id => ?_, fun all l mem => ?_⟩
  · rw [locksOf]
    cases found : entry BalanceLock.id locks id with
    | none => exact Nat.zero_le n
    | some l => exact all l (mem_of_entry found)
  · have this := all l.id
    rw [locksOf, keyed.entry_of_mem mem] at this
    exact this

theorem forall_amount_iff [DecidableEq I] (keyed : Keyed IdAmount.id freezes) :
    (∀ x ∈ freezes, x.amount ≤ n) ↔ ∀ id, amountsOf freezes id ≤ n := by
  refine ⟨fun all id => ?_, fun all x mem => ?_⟩
  · rw [amountsOf]
    cases found : entry IdAmount.id freezes id with
    | none => exact Nat.zero_le n
    | some x => exact all x (mem_of_entry found)
  · have this := all x.id
    rw [amountsOf, keyed.entry_of_mem mem] at this
    exact this

end

variable {A I : Type} [DecidableEq A] {c : Config} {s s' : State A I} {who : A}

/-- What is frozen of an account is what its locks and freezes say, or nothing. -/
def InForce (s : State A I) : Prop :=
  ∀ a, (s.account a).frozen = 0 ∨ (s.account a).frozen = frozenBy (s.locks a) (s.freezes a)

theorem InForce.of_account {d : AccountData} (force : InForce s)
    (account : s'.account = Function.update s.account who d)
    (locks : ∀ a, a ≠ who → s'.locks a = s.locks a)
    (freezes : ∀ a, a ≠ who → s'.freezes a = s.freezes a)
    (here : d.frozen = 0 ∨ d.frozen = frozenBy (s'.locks who) (s'.freezes who)) : InForce s' := by
  intro a
  rw [account, Function.update_apply]
  split
  next same => exact same ▸ here
  next other =>
    rw [locks a other, freezes a other]
    exact force a

theorem AccountData.kept_frozen (ed : ℕ) (d : AccountData) :
    (d.kept ed).frozen = 0 ∨ (d.kept ed).frozen = d.frozen := by
  rw [AccountData.kept]
  split
  · exact .inl rfl
  · exact .inr rfl

/-- A write that leaves the freeze alone. -/
theorem InForce.having (sound : Sound c s) (force : InForce s) {free reserved : ℕ}
    (allowed : s.refusal c who ((s.account who).having free reserved) = none)
    (account : s'.account = (s.write c who ((s.account who).having free reserved)).account)
    (locks : s'.locks = s.locks) (freezes : s'.freezes = s.freezes) : InForce s' := by
  rw [State.write_account sound allowed] at account
  refine force.of_account account (fun a _ => by rw [locks]) (fun a _ => by rw [freezes]) ?_
  cases ((s.account who).having free reserved).kept_frozen c.existentialDeposit with
  | inl gone => exact .inl gone
  | inr same =>
      rw [same, locks, freezes]
      exact force who

/-- A freeze is refused only where nothing was frozen. -/
theorem frozen_of_refused {frozen : ℕ}
    (refused : s.refusal c who ((s.account who).freezing frozen) ≠ none) :
    (s.account who).frozen = 0 := by
  refine Classical.byContradiction fun some => refused ?_
  have consumes : (s.account who).Consumes := .inr some
  exact State.refusal_eq_none_iff.mpr
    ⟨fun not _ => absurd consumes not, fun provides not => absurd provides not⟩

theorem InForce.freezing (sound : Sound c s) (force : InForce s) {frozen : ℕ}
    (allowed : s.refusal c who ((s.account who).freezing frozen) = none)
    (account : s'.account = (s.write c who ((s.account who).freezing frozen)).account)
    (locks : ∀ a, a ≠ who → s'.locks a = s.locks a)
    (freezes : ∀ a, a ≠ who → s'.freezes a = s.freezes a)
    (now : frozen = frozenBy (s'.locks who) (s'.freezes who)) : InForce s' := by
  rw [State.write_account sound allowed] at account
  refine force.of_account account locks freezes ?_
  cases ((s.account who).freezing frozen).kept_frozen c.existentialDeposit with
  | inl gone => exact .inl gone
  | inr same => exact .inr (same.trans now)

theorem InForce.of_updateLocks (sound : Sound c s) (force : InForce s) {l : List (BalanceLock I)}
    (run : exec (updateLocks c who l) s = (.ok ⟨⟩, s')) : InForce s' := by
  rw [exec_updateLocks sound] at run
  dsimp only at run
  split at run
  next allowed =>
    cases run
    refine force.freezing sound allowed rfl (fun a other => Function.update_of_ne other _ _) ?_ ?_
    · intro a _
      exact congrFun State.write_collections.2.2.2.1 a
    · dsimp only
      rw [Function.update_self, State.write_collections.2.2.2.1]
  next refused =>
    cases run
    have none : (s.account who).frozen = 0 := frozen_of_refused refused
    exact force.of_account (Function.update_eq_self who _).symm
      (fun a other => Function.update_of_ne other _ _) (fun _ _ => rfl) (.inl none)

theorem InForce.of_updateFreezes (sound : Sound c s) (force : InForce s) {l : List (IdAmount I)}
    (run : exec (updateFreezes c who l) s = (.ok ⟨⟩, s')) : InForce s' := by
  obtain ⟨allowed, rfl⟩ := ok_of_updateFreezes sound run
  refine force.freezing sound allowed rfl ?_ (fun a other => Function.update_of_ne other _ _) ?_
  · intro a _
    exact congrFun State.write_collections.1 a
  · dsimp only
    rw [Function.update_self, State.write_collections.1]

theorem endow_frozen {l : List (A × ℕ)} (none : ∀ a, (s.account a).frozen = 0) (a : A) :
    ((s.endow c l).account a).frozen = 0 := by
  induction l generalizing s with
  | nil => exact none a
  | cons b l ih =>
      refine ih (s := (s.putRefs b.1 (c.system.incProviders (s.refs b.1))).putData b.1
        (some (.endowed b.2))) fun a => ?_
      have provided : ((s.putRefs b.1 (c.system.incProviders (s.refs b.1))).refs b.1).Stored := by
        rw [State.putRefs_refs, Function.update_self, c.system.incProviders_eq]
        exact .inl (Nat.succ_pos _)
      rw [State.putData_account fun gone => absurd provided gone, Function.update_apply]
      split
      · rfl
      · rw [State.putRefs_account]
        exact none a

section
variable [LinearOrder I]

theorem Quiet.force (sound : Sound c s) (force : InForce s) (quiet : Quiet c s s') :
    InForce s' := by
  cases quiet with
  | moved moved _ _ =>
      obtain ⟨locks, -, -, freezes⟩ := moved.collections
      obtain ⟨allowed, rfl⟩ := moved
      exact force.having sound allowed rfl locks freezes
  | lost lost =>
      obtain ⟨locks, -, -, freezes⟩ := lost.collections
      obtain ⟨-, -, -, -, allowed, rfl⟩ := lost
      exact force.having sound allowed rfl locks freezes
  | renamed _ => exact force
  | kept account _ locks _ freezes _ =>
      rw [InForce, account, locks, freezes]
      exact force

theorem Quiet.chain_force (sound : Sound c s) (force : InForce s)
    (chain : ReflTransGen (Quiet c) s s') : InForce s' := by
  induction chain with
  | refl => exact force
  | tail before last ih =>
      exact last.force (Wrote.chain_sound sound (Quiet.chain_wrote sound before)) ih

theorem force_of_run (sound : Sound c s) (order : NamedInOrder c s) (force : InForce s)
    {op : Op A I} (fits : op.Fits) {i : Imbalances} (run : exec (op.run c) s = (.ok i, s')) :
    InForce s' := by
  by_cases restricts : op.Restricts
  · rcases updates_of_run restricts run with
      ⟨-, rfl | ⟨who, l, ran⟩ | ⟨who, l, ran⟩⟩ | ⟨reason, who, amount, -, -, ran⟩
    · exact force
    · exact force.of_updateLocks sound ran
    · exact force.of_updateFreezes sound ran
    · obtain ⟨reserved, -, -, -, allowed, -, rfl⟩ := ok_of_setBalanceOnHold sound ran
      exact force.having sound allowed rfl State.write_collections.1
        State.write_collections.2.2.2.1
  · exact Quiet.chain_force sound force (quiet_of_run sound order fits restricts run)

variable {w : World A I} {τ : List (Transition (World A I) (Label A I))}

theorem InForce.of_reachable (reachable : Reachable (World.machine c) w) : InForce w.state := by
  refine reachable.invariant (I := fun w => InForce w.state) ?_ ?_
  · intro w init a
    obtain ⟨balances, built, -⟩ := init
    simp only [genesis, Option.ite_none_right_eq_some] at built
    rw [← Option.some.inj built.2]
    exact .inl (endow_frozen (fun _ => rfl) a)
  · intro w l w' before force step
    have kept := World.Kept.of_reachable before
    rcases World.step_cases kept step with
      ⟨op, rfl, fits, ⟨i, run⟩ | ⟨e, run⟩⟩ | ⟨-, account, locks, -, -, freezes⟩
    · exact force_of_run kept.sound kept.ordered force fits run
    · have failure := failure_of_run kept.sound kept.ordered run
      exact Quiet.chain_force kept.sound force (failure.quiet kept.sound).1
    · rw [InForce, account, locks, freezes]
      exact force

/-- Nothing is frozen of an account, or exactly the largest of what the calls that went
through have locked and frozen of it. -/
theorem World.frozen_largest (run : Run (World.machine c) τ w) (a : A) :
    let k := τ.foldl (Claims.replay c) .none
    (w.state.account a).frozen = 0 ∨
      ∀ n, (w.state.account a).frozen ≤ n ↔
        ∀ id, (k.locks a id).elim 0 Prod.fst ≤ n ∧ k.freezes a id ≤ n := by
  obtain ⟨collected, claims⟩ := World.collected run
  rw [← claims]
  refine (InForce.of_reachable ⟨τ, run⟩ a).imp id fun force n => ?_
  rw [force, frozenBy_le_iff, forall_lock_iff (collected.locks a).keyed,
    forall_amount_iff (collected.freezes a).keyed, ← forall_and]
  rfl

set_option maxRecDepth 10000 in
/-- Locks and freezes overlap. -/
theorem World.frozen_largest_overlap :
    let w₁ := World.endowed.called .small (.setLock 7 1 8 1)
    let w₂ := w₁.called .small (.setFreeze 9 1 12)
    8 ≤ (w₂.state.account 1).frozen := by
  intro w₁ w₂
  have run₁ : Run (World.machine .small) _ w₁ :=
    (Run.start World.initial_endowed).extend (.call trivial)
  have run : Run (World.machine .small) _ w₂ := run₁.extend (.call trivial)
  have largest := (World.frozen_largest run 1).resolve_left (by decide)
  exact Nat.le_trans (by decide) ((largest _).mp le_rfl 7).1

end
end Resonance.Balances
