import Resonance.Balances.Invariants

/-!
What stands behind holds and named reserves.

Both claim a part of the one reserved balance of an account. Nothing in the pallet
keeps the anonymous reserve apart from what is claimed; as long as the anonymous
releases leave it alone, and a beneficiary of a named reserve can take it, every claim
is backed, and a release from a named reserve releases what it was asked to.
-/
namespace Resonance.Balances
open Storage StateMachine

variable {A I : Type} [DecidableEq A] {c : Config} {s s' : State A I} {who : A}

def Backed (s : State A I) : Prop := ∀ a, s.claimed a ≤ (s.account a).reserved

@[simp] theorem AccountData.kept_reserved {ed : ℕ} {d : AccountData} :
    (d.kept ed).reserved = d.reserved := by
  rw [AccountData.kept]
  split
  next dies => exact dies.2.symm
  next => rfl

theorem Moved.reserved_eq {free reserved : ℕ} (sound : Sound c s)
    (moved : Moved c s who free reserved s') (a : A) :
    (s'.account a).reserved = if a = who then reserved else (s.account a).reserved := by
  rw [moved.account_eq sound, Function.update_apply]
  split
  · exact AccountData.kept_reserved
  · rfl

/-- A move of an account, together with its list of named reserves. -/
theorem Backed.put {free reserved : ℕ} (sound : Sound c s) (backed : Backed s)
    (moved : Moved c s who free reserved s') {l : List (ReserveData I)}
    (enough : heldBy (s.holds who) + namedTotal l ≤ reserved) : Backed (s'.putReserves who l) := by
  obtain ⟨-, reserves, holds, -⟩ := moved.collections
  intro a
  change heldBy (s'.holds a) + namedTotal (Function.update s'.reserves who l a) ≤
    (s'.account a).reserved
  rw [moved.reserved_eq sound, holds, reserves, Function.update_apply]
  split
  next same => exact same ▸ enough
  next => exact backed a

theorem State.putReserves_self : s.putReserves who (s.reserves who) = s := by
  rw [State.putReserves, Function.update_eq_self]

theorem Backed.move {free reserved : ℕ} (sound : Sound c s) (backed : Backed s)
    (moved : Moved c s who free reserved s') (enough : s.claimed who ≤ reserved) : Backed s' := by
  have put := backed.put sound moved (l := s.reserves who) enough
  rw [← moved.collections.2.1, State.putReserves_self] at put
  exact put

/-- A reserve that is lost was not claimed. -/
theorem Backed.lost {slashed beneficiary : A} {n : ℕ} (sound : Sound c s) (backed : Backed s)
    (lost : Lost c s slashed beneficiary n s')
    (spare : s.claimed slashed + n ≤ (s.account slashed).reserved) : Backed s' := by
  obtain ⟨-, reserves, holds, -⟩ := lost.collections
  obtain ⟨-, -, -, -, allowed, rfl⟩ := lost
  intro a
  rw [State.claimed, reserves, holds, State.write_account sound allowed, Function.update_apply]
  split
  next same =>
    rw [AccountData.kept_reserved, same]
    exact Nat.le_sub_of_add_le spare
  next => exact backed a

/-- A list of named reserves that claims no more. -/
theorem Backed.rename (backed : Backed s) {l : List (ReserveData I)}
    (less : namedTotal l ≤ namedTotal (s.reserves who)) : Backed (s.putReserves who l) := by
  intro a
  have here := backed a
  change heldBy (s.holds a) + namedTotal (Function.update s.reserves who l a) ≤
    (s.account a).reserved
  rw [State.claimed] at here
  rw [Function.update_apply]
  split
  next same =>
    subst same
    omega
  next => exact here

theorem Repatriated.reserved_eq {slashed beneficiary : A} {n : ℕ} {status : Status}
    (sound : Sound c s)
    (done : Repatriated c s slashed beneficiary n status s') (a : A) :
    (s'.account a).reserved =
      if a = beneficiary then (s.account beneficiary).reserved + if status = .reserved then n else 0
      else if a = slashed then (s.account slashed).reserved - n
      else (s.account a).reserved := by
  rcases done with ⟨rfl, rfl⟩ |
    ⟨-, -, s₁, free, reserved, first, second, free_le, reserved_le, into⟩
  · split
    next same => simp [same]
    next =>
      split
      next same => simp [same]
      next => rfl
  · have proper := sound.proper slashed
    have sound₁ := first.sound sound proper.free_le ((Nat.sub_le _ _).trans proper.reserved_le)
    rw [second.reserved_eq sound₁, first.reserved_eq sound]
    split
    next =>
      rcases into with ⟨rfl, -, same⟩ | ⟨rfl, -, more⟩
      · simp [same]
      · simp [more]
    next => rfl

/-- A repatriation takes from one reserve and does not lower the other; the lists may
be renamed with it. -/
theorem Backed.repatriate {slashed beneficiary : A} {n : ℕ} {status : Status}
    {l k : List (ReserveData I)} (ne : slashed ≠ beneficiary) (sound : Sound c s)
    (backed : Backed s) (done : Repatriated c s slashed beneficiary n status s')
    (less : heldBy (s.holds slashed) + namedTotal l ≤ (s.account slashed).reserved - n)
    (more : namedTotal k ≤ namedTotal (s.reserves beneficiary) +
      if status = .reserved then n else 0) :
    Backed ((s'.putReserves beneficiary k).putReserves slashed l) := by
  obtain ⟨-, reserves, holds, -⟩ := done.collections
  intro a
  change heldBy (s'.holds a) + namedTotal (Function.update (Function.update s'.reserves
    beneficiary k) slashed l a) ≤ (s'.account a).reserved
  rw [done.reserved_eq sound, holds, reserves, Function.update_apply, Function.update_apply]
  have here := backed a
  rw [State.claimed] at here
  split
  next same =>
    subst same
    rw [if_neg ne]
    exact less
  next =>
    split
    next same =>
      subst same
      omega
    next => exact here

section
variable [LinearOrder I]

theorem backed_of_updates (sound : Sound c s) (backed : Backed s) {op : Op A I}
    (restricts : op.Restricts) {i : Imbalances} (run : exec (op.run c) s = (.ok i, s')) :
    Backed s' := by
  -- a freeze leaves the reserved balance alone
  have frozen {who : A} {frozen : ℕ} {s' : State A I}
      (allowed : s.refusal c who ((s.account who).freezing frozen) = none)
      (account : s'.account = (s.write c who ((s.account who).freezing frozen)).account)
      (reserves : s'.reserves = s.reserves) (holds : s'.holds = s.holds) : Backed s' := by
    intro a
    rw [State.claimed, account, reserves, holds, State.write_account sound allowed,
      Function.update_apply]
    split
    next same =>
      rw [AccountData.kept_reserved]
      exact same ▸ backed a
    next => exact backed a
  rcases updates_of_run restricts run with
    ⟨-, rfl | ⟨who, l, ran⟩ | ⟨who, l, ran⟩⟩ | ⟨reason, who, amount, -, -, ran⟩
  · exact backed
  · rw [exec_updateLocks sound] at ran
    dsimp only at ran
    split at ran
    next allowed =>
      cases ran
      exact frozen allowed rfl State.write_collections.2.1 State.write_collections.2.2.1
    next =>
      cases ran
      exact backed
  · obtain ⟨allowed, rfl⟩ := ok_of_updateFreezes sound ran
    exact frozen allowed rfl State.write_collections.2.1 State.write_collections.2.2.1
  · obtain ⟨reserved, claims, -, -, allowed, -, rfl⟩ := ok_of_setBalanceOnHold sound ran
    intro a
    have here := backed a
    rw [State.claimed] at here
    change heldBy (Function.update s.holds who _ a) + namedTotal ((s.write c who _).reserves a) ≤
      ((s.write c who _).account a).reserved
    rw [State.write_account sound allowed, State.write_collections.2.1, Function.update_apply,
      Function.update_apply]
    split
    next same =>
      subst same
      rw [AccountData.kept_reserved, AccountData.having_reserved]
      omega
    next => exact here

/-- An operation keeps every claim backed. -/
theorem Effect.backed (sound : Sound c s) (backed : Backed s) {op : Op A I} {i : Imbalances}
    (modest : op.Modest c s) (effect : Effect c s op i s') : Backed s' := by
  cases effect with
  | issued _ => exact backed
  | @moved who _ _ _ moved _ _ _ enough =>
      exact backed.move sound moved (enough modest (backed who))
  | @forced who _ s₁ moved _ _ _ =>
      have moved : Backed s₁ := backed.move sound moved (backed who)
      exact moved
  | renamed _ renamed _ =>
      have total := renamed.total
      exact backed.rename (by omega)
  | @named _ who _ _ _ _ _ _ moved _ _ renamed _ change =>
      have here := backed who
      have total := renamed.total
      rw [State.claimed] at here
      exact backed.put sound moved (by omega)
  | @repatriated slashed beneficiary n _ _ ne _ done _ spare =>
      have left := spare modest
      rw [State.claimed] at left
      have both := backed.repatriate ne sound done (l := s.reserves slashed)
        (k := s.reserves beneficiary) (by omega) (Nat.le_add_right _ _)
      rw [← done.collections.2.1, State.putReserves_self, State.putReserves_self] at both
      exact both
  | @repatriatedNamed _ slashed _ _ _ _ _ _ _ _ ne _ le done renamed gained _ =>
      have here := backed slashed
      rw [State.claimed] at here
      have total := renamed.total
      refine backed.repatriate ne sound done (by omega) ?_
      rcases gained with ⟨rfl, rfl⟩ | ⟨rfl, gained⟩
      · exact Nat.le_add_right _ _
      · have total' := gained.total
        rw [if_pos rfl]
        omega
  | restricted restricts run => exact backed_of_updates sound backed restricts run

/-- So does one that fails. -/
theorem Failure.backed (sound : Sound c s) (backed : Backed s) {op : Op A I}
    (modest : op.Modest c s) (failure : Failure c s op s') : Backed s' := by
  cases failure with
  | kept => exact backed
  | @rewritten who _ moved => exact backed.move sound moved (backed who)
  | lost lost _ spare => exact backed.lost sound lost (spare modest)
  | unnamed _ _ immodest => exact absurd modest immodest

variable {w : World A I}

def World.Modest (c : Config) (w : World A I) : Label A I → Prop
  | .call op => op.Modest c w.state
  | _ => True

theorem Backed.of_reachable
    (reachable : Reachable ((World.machine c).restrict (World.Modest c)) w) :
    Backed w.state := by
  refine reachable.invariant (I := fun w => Backed w.state) ?_ ?_
  · intro w init a
    obtain ⟨-, reserves, holds, -⟩ := World.initial_collections init
    rw [State.claimed, reserves, holds]
    exact Nat.zero_le _
  · rintro w l w' before backed ⟨modest, step⟩
    have kept := World.Kept.of_reachable before.of_restrict
    rcases World.step_cases kept step with
      ⟨op, rfl, fits, ⟨i, run⟩ | ⟨e, run⟩⟩ | ⟨-, account, -, reserves, holds, -⟩
    · exact (effect_of_run kept.sound kept.ordered fits run).backed kept.sound backed modest
    · exact (failure_of_run kept.sound kept.ordered run).backed kept.sound backed modest
    · intro a
      rw [State.claimed, account, reserves, holds]
      exact backed a

/-- As long as the anonymous releases leave alone what is claimed, and no repatriation to a
named reserve fails half way, holds and named reserves together never exceed the reserved
balance. -/
theorem World.claims_backed (reachable : Reachable ((World.machine c).restrict (World.Modest c)) w)
    (a : A) : ((w.state.holds a).map IdAmount.amount).sum +
      ((w.state.reserves a).map ReserveData.amount).sum ≤ (w.state.account a).reserved :=
  Backed.of_reachable reachable a

set_option maxRecDepth 10000 in
theorem World.claims_backed_held :
    let w₁ := World.endowed.called .small (.reserveNamed 3 1 6)
    let w₂ := w₁.called .small (.setBalanceOnHold 4 1 5)
    5 + 6 ≤ (w₂.state.account 1).reserved := by
  intro w₁ w₂
  have reachable₁ : Reachable ((World.machine .small).restrict (World.Modest .small)) w₁ :=
    (Reachable.start World.initial_endowed).next (l := .call (.reserveNamed 3 1 6))
      ⟨trivial, .call trivial⟩
  have reachable : Reachable ((World.machine .small).restrict (World.Modest .small)) w₂ :=
    reachable₁.next (l := .call (.setBalanceOnHold 4 1 5)) ⟨trivial, .call trivial⟩
  exact Nat.le_trans (by decide) (World.claims_backed reachable 1)

/-- Then nothing remains of a release from a named reserve that the reserve has. -/
theorem World.unreserveNamed_exact
    (reachable : Reachable ((World.machine c).restrict (World.Modest c)) w) (id : I) (who : A)
    (value : ℕ) : ∃ s', exec (unreserveNamed c id who value) w.state =
        (.ok (value - w.state.reservedBalanceNamed id who), s') ∧
      s'.reservedBalanceNamed id who = w.state.reservedBalanceNamed id who - value ∧
      (∀ id' ≠ id, s'.reservedBalanceNamed id' who = w.state.reservedBalanceNamed id' who) ∧
      (s'.account who).reserved =
        (w.state.account who).reserved - min (w.state.reservedBalanceNamed id who) value := by
  have kept := World.Kept.of_reachable reachable.of_restrict
  have sorted := (kept.ordered who).1
  have backed := Backed.of_reachable reachable who
  have le : named (w.state.reserves who) id ≤ namedTotal (w.state.reserves who) := named_le_total
  rw [State.claimed] at backed
  simp only [reservedBalanceNamed_eq sorted]
  cases unreserveNamed_cases who id value kept.sound sorted with
  | inl none =>
      obtain ⟨none, run⟩ := none
      refine ⟨w.state, ?_, ?_, ?_, ?_⟩
      · rw [run]
        congr 2
        omega
      · rw [reservedBalanceNamed_eq sorted]
        omega
      · exact fun id' _ => reservedBalanceNamed_eq sorted
      · rw [none, Nat.sub_zero]
  | inr done =>
      obtain ⟨n, s₁, l, same, moved, renamed, run⟩ := done
      have all : n = min (named (w.state.reserves who) id) value := by omega
      have list : (s₁.putReserves who l).reserves who = l := Function.update_self _ _ _
      have ordered : SortedReserves ((s₁.putReserves who l).reserves who) := by
        rw [list]
        exact renamed.sorted
      refine ⟨s₁.putReserves who l, run.trans ?_, ?_, ?_, ?_⟩
      · congr 2
        omega
      · rw [reservedBalanceNamed_eq ordered, list, renamed.values, Function.update_self]
        omega
      · intro id' other
        rw [reservedBalanceNamed_eq ordered, list, renamed.values, Function.update_of_ne other]
      · rw [← all]
        rcases moved with ⟨none, rfl⟩ | moved
        · rw [none, Nat.sub_zero]
          rfl
        · refine (moved.reserved_eq kept.sound who).trans ?_
          rw [if_pos rfl]

set_option maxRecDepth 10000 in
theorem World.unreserveNamed_exact_part :
    ∃ s', exec (unreserveNamed .small 3 1 4)
        (World.endowed.called .small (.reserveNamed 3 1 6)).state = (.ok 0, s') ∧
      s'.reservedBalanceNamed 3 1 = 2 := by
  have reachable : Reachable ((World.machine .small).restrict (World.Modest .small))
      (World.endowed.called .small (.reserveNamed 3 1 6)) :=
    (Reachable.start World.initial_endowed).next (l := .call (.reserveNamed 3 1 6))
      ⟨trivial, .call trivial⟩
  obtain ⟨s', run, left, -⟩ := World.unreserveNamed_exact reachable 3 1 4
  exact ⟨s', run.trans (by rfl), left.trans (by rfl)⟩

theorem Renamed.named_eq {reserves : A → List (ReserveData I)} {l : List (ReserveData I)}
    {id id' : I} {amount : ℕ} {a : A} (renamed : Renamed c (reserves who) id' amount l)
    (other : ¬ (id' = id ∧ who = a)) :
    named (Function.update reserves who l a) id = named (reserves a) id := by
  rw [Function.update_apply]
  split
  next same =>
    rw [renamed.values, Function.update_of_ne fun here => other ⟨here.symm, same.symm⟩, same]
  next => rfl

theorem reserves_of_updates (sound : Sound c s) {op : Op A I} (restricts : op.Restricts)
    {i : Imbalances} (run : exec (op.run c) s = (.ok i, s')) : s'.reserves = s.reserves := by
  rcases updates_of_run restricts run with
    ⟨-, rfl | ⟨who, l, ran⟩ | ⟨who, l, ran⟩⟩ | ⟨reason, who, amount, -, -, ran⟩
  · rfl
  · rw [exec_updateLocks sound] at ran
    dsimp only at ran
    split at ran
    next =>
      cases ran
      exact State.write_collections.2.1
    next =>
      cases ran
      rfl
  · obtain ⟨-, rfl⟩ := ok_of_updateFreezes sound ran
    exact State.write_collections.2.1
  · obtain ⟨reserved, -, -, -, -, -, rfl⟩ := ok_of_setBalanceOnHold sound ran
    exact State.write_collections.2.1

/-- An operation that is not about a named reserve leaves it alone. -/
theorem named_of_effect (sound : Sound c s) {op : Op A I} {i : Imbalances}
    (effect : Effect c s op i s') {id : I} {a : A} (other : ¬ op.Names id a) :
    named (s'.reserves a) id = named (s.reserves a) id := by
  have apart {id' : I} {who : A} (names : op.Names id' who) : ¬ (id' = id ∧ who = a) := by
    rintro ⟨rfl, rfl⟩
    exact other names
  cases effect with
  | issued _ => rfl
  | moved moved _ _ _ _ => rw [moved.collections.2.1]
  | forced moved _ _ _ =>
      have reserves := moved.collections.2.1
      dsimp only
      rw [reserves]
  | renamed names renamed _ => exact renamed.named_eq (apart names)
  | named names moved _ _ renamed _ _ =>
      rw [← moved.collections.2.1] at renamed ⊢
      exact renamed.named_eq (apart names)
  | repatriated _ _ done _ _ => rw [done.collections.2.1]
  | @repatriatedNamed _ slashed beneficiary _ _ _ l' s₁ names names' ne _ _ done renamed gained _ =>
      have reserves := done.collections.2.1
      have list : (s₁.putReserves beneficiary l').reserves slashed = s.reserves slashed := by
        rw [← reserves]
        exact Function.update_of_ne ne _ _
      rw [← list] at renamed
      refine (renamed.named_eq (apart names)).trans ?_
      rcases gained with ⟨-, rfl⟩ | ⟨-, gained⟩
      · rw [← reserves, State.putReserves_self]
      · rw [← reserves] at gained ⊢
        exact gained.named_eq (apart names')
  | restricted restricts run => rw [reserves_of_updates sound restricts run]

/-- From any state of a run on, a named reserve stays what it is until a call is about it,
whatever happens to the balances of its account. -/
theorem World.named_isolated {τ τ₁ τ₂ : List (Transition (World A I) (Label A I))}
    {t : Transition (World A I) (Label A I)} (run : Run (World.machine c) τ w)
    (split : τ = τ₁ ++ t :: τ₂) (id : I) (a : A)
    (other : ∀ u ∈ t :: τ₂, ∀ op, u.label = .call op → ¬ op.Names id a) :
    w.state.reservedBalanceNamed id a = t.pre.state.reservedBalanceNamed id a := by
  refine run.since (G := fun u => ∀ op, u.label = .call op → ¬ op.Names id a)
    (R := fun w w' : World A I =>
      w'.state.reservedBalanceNamed id a = w.state.reservedBalanceNamed id a)
    (fun _ _ _ first second => second.trans first) ?_ split other
  intro w l w' before step other
  have kept := World.Kept.of_reachable before
  have kept' := (World.keeps_step kept step).1
  rw [reservedBalanceNamed_eq (kept.ordered a).1, reservedBalanceNamed_eq (kept'.ordered a).1]
  rcases World.step_cases kept step with
    ⟨op, rfl, fits, ⟨i, ran⟩ | ⟨e, ran⟩⟩ | ⟨-, -, -, reserves, -, -⟩
  · exact named_of_effect kept.sound (effect_of_run kept.sound kept.ordered fits ran) (other op rfl)
  · rw [((failure_of_run kept.sound kept.ordered ran).quiet kept.sound).2]
  · rw [reserves]

set_option maxRecDepth 10000 in
theorem World.named_isolated_slashed :
    let w₁ := World.endowed.called .small (.reserveNamed 3 1 6)
    (w₁.called .small (.slash 1 4)).state.reservedBalanceNamed 3 1 =
      w₁.state.reservedBalanceNamed 3 1 := by
  intro w₁
  have run₁ : Run (World.machine .small) _ w₁ :=
    (Run.start World.initial_endowed).extend (.call trivial)
  have run : Run (World.machine .small) _ (w₁.called .small (.slash 1 4)) :=
    run₁.extend (.call trivial)
  refine World.named_isolated run rfl 3 1 ?_
  rintro u mem op label
  cases List.mem_singleton.mp mem
  cases label
  exact id

end
end Resonance.Balances
