import Mathlib.Logic.Relation
import Resonance.Balances.Failures

/-!
References over runs of the balances pallet.

The pallet holds one provider reference for every account with the existential
deposit, and at least one consumer reference for every account with something reserved
or frozen; the rest belongs to other pallets. So no account loses its last provider
while somebody depends on it, and the failsafes of the pallet never run.
-/
namespace Resonance.Balances
open Storage StateMachine Relation

variable {A I : Type} [DecidableEq A] {c : Config} {s s' : State A I} {who a : A}

/-- What an operation may do to an account and leave its freeze and its holds alone. -/
inductive Quiet [LinearOrder I] (c : Config) : State A I → State A I → Prop
  | moved {s s' : State A I} {who : A} {free reserved : ℕ} : Moved c s who free reserved s' →
      free ≤ u128Max → reserved ≤ u128Max → Quiet c s s'
  | lost {s s' : State A I} {slashed beneficiary : A} {n : ℕ} :
      Lost c s slashed beneficiary n s' → Quiet c s s'
  | renamed {s : State A I} {who : A} {id : I} {amount : ℕ} {l : List (ReserveData I)} :
      Renamed c (s.reserves who) id amount l → Quiet c s (s.putReserves who l)
  | kept {s s' : State A I} : s'.account = s.account → s'.refs = s.refs → s'.locks = s.locks →
      s'.reserves = s.reserves → s'.freezes = s.freezes → s'.holds = s.holds → Quiet c s s'

/-- An account is written as it may be, or none is. -/
inductive Wrote (c : Config) : State A I → State A I → Prop
  | wrote {s s' : State A I} {who : A} {after : AccountData} : s.refusal c who after = none →
      after.Proper → s'.account = (s.write c who after).account →
      s'.refs = (s.write c who after).refs → Wrote c s s'
  | kept {s s' : State A I} : s'.account = s.account → s'.refs = s.refs → Wrote c s s'

theorem AccountData.Proper.having {d : AccountData} (proper : d.Proper) {free reserved : ℕ}
    (free_le : free ≤ u128Max) (reserved_le : reserved ≤ u128Max) :
    (d.having free reserved).Proper :=
  ⟨proper.upgraded, free_le, reserved_le⟩

theorem Moved.sound {free reserved : ℕ} (sound : Sound c s) (moved : Moved c s who free reserved s')
    (free_le : free ≤ u128Max) (reserved_le : reserved ≤ u128Max) : Sound c s' := by
  obtain ⟨allowed, rfl⟩ := moved
  exact sound.settle allowed ((sound.proper who).having free_le reserved_le)

theorem Moved.account_eq {free reserved : ℕ} (sound : Sound c s)
    (moved : Moved c s who free reserved s') :
    s'.account = Function.update s.account who
      (((s.account who).having free reserved).kept c.existentialDeposit) := by
  obtain ⟨allowed, rfl⟩ := moved
  rw [State.settle, State.lose_account, State.write_account sound allowed]

theorem Quiet.wrote [LinearOrder I] (sound : Sound c s) (quiet : Quiet c s s') : Wrote c s s' := by
  cases quiet with
  | moved moved free_le reserved_le =>
      obtain ⟨allowed, rfl⟩ := moved
      exact .wrote allowed ((sound.proper _).having free_le reserved_le) rfl rfl
  | lost lost =>
      obtain ⟨-, -, -, -, allowed, rfl⟩ := lost
      exact .wrote allowed (sound.proper _).drawn rfl rfl
  | renamed _ => exact .kept rfl rfl
  | kept account refs => exact .kept account refs

theorem Wrote.sound (sound : Sound c s) (wrote : Wrote c s s') : Sound c s' := by
  cases wrote with
  | wrote allowed proper account refs => exact (sound.write allowed proper).congr account refs
  | kept account refs => exact sound.congr account refs

theorem Wrote.chain_sound (sound : Sound c s) (chain : ReflTransGen (Wrote c) s s') :
    Sound c s' := by
  induction chain with
  | refl => exact sound
  | tail _ last ih => exact last.sound ih

theorem Quiet.chain_wrote [LinearOrder I] (sound : Sound c s)
    (chain : ReflTransGen (Quiet c) s s') : ReflTransGen (Wrote c) s s' := by
  induction chain with
  | refl => exact .refl
  | tail _ last ih => exact ih.tail (last.wrote (Wrote.chain_sound sound ih))

section
variable [LinearOrder I]

theorem Repatriated.quiet {slashed beneficiary : A} {n : ℕ} {status : Status} (sound : Sound c s)
    (done : Repatriated c s slashed beneficiary n status s') : ReflTransGen (Quiet c) s s' := by
  rcases done with ⟨-, rfl⟩ | ⟨-, -, s₁, free, reserved, first, second, free_le, reserved_le, -⟩
  · exact .refl
  · have proper := sound.proper slashed
    exact (ReflTransGen.single (Quiet.moved first proper.free_le
      ((Nat.sub_le _ _).trans proper.reserved_le))).tail (.moved second free_le reserved_le)

theorem Quiet.put {id : I} {amount : ℕ} {l : List (ReserveData I)} (same : s'.reserves = s.reserves)
    (renamed : Renamed c (s.reserves who) id amount l) : Quiet c s' (s'.putReserves who l) :=
  .renamed (same ▸ renamed)

/-- Every operation on balances is a chain of quiet writes. -/
theorem Effect.quiet {op : Op A I} {i : Imbalances} (sound : Sound c s) (quiet : ¬ op.Restricts)
    (effect : Effect c s op i s') : ReflTransGen (Quiet c) s s' := by
  cases effect with
  | issued _ => exact .single (.kept rfl rfl rfl rfl rfl rfl)
  | moved moved free_le reserved_le _ _ => exact .single (.moved moved free_le reserved_le)
  | forced moved free_le _ _ =>
      exact (ReflTransGen.single (Quiet.moved moved free_le (sound.proper _).reserved_le)).tail
        (.kept rfl rfl rfl rfl rfl rfl)
  | renamed _ renamed _ => exact .single (.renamed renamed)
  | named _ moved free_le reserved_le renamed _ _ =>
      exact (ReflTransGen.single (Quiet.moved moved free_le reserved_le)).tail
        (.put moved.collections.2.1 renamed)
  | repatriated _ _ done _ _ => exact done.quiet sound
  | @repatriatedNamed id slashed beneficiary _ _ l l' s₁ _ _ ne _ _ done renamed gained _ =>
      have reserves := done.collections.2.1
      have first : ReflTransGen (Quiet c) s (s₁.putReserves beneficiary l') := by
        rcases gained with ⟨-, rfl⟩ | ⟨-, gained⟩
        · rw [State.putReserves, ← reserves, Function.update_eq_self]
          exact done.quiet sound
        · exact (done.quiet sound).tail (.put reserves gained)
      have other : (s₁.putReserves beneficiary l').reserves slashed = s.reserves slashed := by
        rw [State.putReserves]
        dsimp only
        rw [Function.update_of_ne ne, reserves]
      exact first.tail (.renamed (other ▸ renamed))
  | restricted restricts _ => exact absurd restricts quiet

/-- So is what an operation has done that fails. -/
theorem Failure.quiet {op : Op A I} (sound : Sound c s) (failure : Failure c s op s') :
    ReflTransGen (Quiet c) s s' ∧ s'.reserves = s.reserves := by
  cases failure with
  | kept => exact ⟨.refl, rfl⟩
  | rewritten moved =>
      have proper := sound.proper
      exact ⟨.single (.moved moved (proper _).free_le (proper _).reserved_le),
        moved.collections.2.1⟩
  | lost lost _ _ => exact ⟨.single (.lost lost), lost.collections.2.1⟩
  | unnamed _ done _ => exact ⟨done.quiet sound, done.collections.2.1⟩

theorem quiet_of_run (sound : Sound c s) (order : NamedInOrder c s) {op : Op A I} (fits : op.Fits)
    (quiet : ¬ op.Restricts) {i : Imbalances} (run : exec (op.run c) s = (.ok i, s')) :
    ReflTransGen (Quiet c) s s' :=
  (effect_of_run sound order fits run).quiet sound quiet

/-- The entry of a freeze is changed or pushed, and the freezes are written. -/
theorem updates_of_entries {id : I} {f : ℕ → ℕ} {amount : ℕ} {u : PUnit}
    (run : exec (do
      let s ← get
      let freezes := s.freezes who
      let freezes ←
        if (freezes.find? fun x => x.id = id).isSome then pure (setFirst id f freezes)
        else tryPush c.maxFreezes .tooManyFreezes freezes ⟨id, amount⟩
      updateFreezes c who freezes) s = (.ok u, s')) :
    ∃ l, exec (updateFreezes c who l) s = (.ok u, s') := by
  rw [exec_get_bind] at run
  dsimp only at run
  split at run
  · rw [pure_bind] at run
    exact ⟨_, run⟩
  · simp only [tryPush, bind_assoc, pure_bind, ensure_bind_ok_iff] at run
    exact ⟨_, run.2⟩

/-- An operation on locks, freezes or holds writes the list it made, or nothing. -/
theorem updates_of_run {op : Op A I} (restricts : op.Restricts) {i : Imbalances}
    (run : exec (op.run c) s = (.ok i, s')) :
    i = .none ∧ (s' = s ∨ (∃ who l, exec (updateLocks c who l) s = (.ok ⟨⟩, s')) ∨
      ∃ who l, exec (updateFreezes c who l) s = (.ok ⟨⟩, s')) ∨
    ∃ reason who amount, op = .setBalanceOnHold reason who amount ∧
      i = .ofChange (s.balanceOnHold reason who) amount ∧
      exec (setBalanceOnHold c reason who amount) s = (.ok ⟨⟩, s') := by
  cases op with
  | setLock id who amount reasons =>
      obtain ⟨⟨⟩, ran, rfl⟩ := map_ok_iff.mp run
      simp only [setLock, removeLock] at ran
      split at ran
      · rw [exec_get_bind] at ran
        exact .inl ⟨rfl, .inr (.inl ⟨who, _, ran⟩)⟩
      · rw [exec_get_bind] at ran
        exact .inl ⟨rfl, .inr (.inl ⟨who, _, ran⟩)⟩
  | extendLock id who amount reasons =>
      obtain ⟨⟨⟩, ran, rfl⟩ := map_ok_iff.mp run
      simp only [extendLock] at ran
      split at ran
      · cases ran
        exact .inl ⟨rfl, .inl rfl⟩
      · rw [exec_get_bind] at ran
        exact .inl ⟨rfl, .inr (.inl ⟨who, _, ran⟩)⟩
  | removeLock id who =>
      obtain ⟨⟨⟩, ran, rfl⟩ := map_ok_iff.mp run
      rw [removeLock, exec_get_bind] at ran
      exact .inl ⟨rfl, .inr (.inl ⟨who, _, ran⟩)⟩
  | setFreeze id who amount =>
      obtain ⟨⟨⟩, ran, rfl⟩ := map_ok_iff.mp run
      simp only [setFreeze, thaw] at ran
      split at ran
      · rw [exec_get_bind] at ran
        exact .inl ⟨rfl, .inr (.inr ⟨who, _, ran⟩)⟩
      · exact .inl ⟨rfl, .inr (.inr ⟨who, updates_of_entries ran⟩)⟩
  | extendFreeze id who amount =>
      obtain ⟨⟨⟩, ran, rfl⟩ := map_ok_iff.mp run
      simp only [extendFreeze] at ran
      split at ran
      · cases ran
        exact .inl ⟨rfl, .inl rfl⟩
      · exact .inl ⟨rfl, .inr (.inr ⟨who, updates_of_entries ran⟩)⟩
  | thaw id who =>
      obtain ⟨⟨⟩, ran, rfl⟩ := map_ok_iff.mp run
      rw [thaw, exec_get_bind] at ran
      exact .inl ⟨rfl, .inr (.inr ⟨who, _, ran⟩)⟩
  | setBalanceOnHold reason who amount =>
      simp only [Op.run] at run
      rw [exec_get_bind] at run
      obtain ⟨⟨⟩, s₁, held, rest⟩ := bind_ok_iff.mp run
      cases rest
      exact .inr ⟨reason, who, amount, rfl, rfl, held⟩
  | _ => exact absurd restricts id

omit [LinearOrder I] in
theorem Wrote.of_updateLocks (sound : Sound c s) {l : List (BalanceLock I)}
    (run : exec (updateLocks c who l) s = (.ok ⟨⟩, s')) : Wrote c s s' := by
  rw [exec_updateLocks sound] at run
  cases run
  by_cases allowed : s.refusal c who ((s.account who).freezing (frozenBy l (s.freezes who))) = none
  · simp only [if_pos allowed]
    exact .wrote allowed (sound.proper who).freezing rfl rfl
  · simp only [if_neg allowed]
    exact .kept rfl rfl

omit [LinearOrder I] in
theorem Wrote.of_updateFreezes (sound : Sound c s) {l : List (IdAmount I)}
    (run : exec (updateFreezes c who l) s = (.ok ⟨⟩, s')) : Wrote c s s' := by
  obtain ⟨allowed, rfl⟩ := ok_of_updateFreezes sound run
  exact .wrote allowed (sound.proper who).freezing rfl rfl

theorem Wrote.of_setBalanceOnHold (sound : Sound c s) {reason : I} {amount : ℕ}
    (run : exec (setBalanceOnHold c reason who amount) s = (.ok ⟨⟩, s')) : Wrote c s s' := by
  obtain ⟨reserved, -, -, fits, allowed, -, rfl⟩ := ok_of_setBalanceOnHold sound run
  exact .wrote allowed ((sound.proper who).having (sound.proper who).free_le fits) rfl rfl

theorem wrote_of_run (sound : Sound c s) (order : NamedInOrder c s) {op : Op A I} (fits : op.Fits)
    {i : Imbalances} (run : exec (op.run c) s = (.ok i, s')) : ReflTransGen (Wrote c) s s' := by
  by_cases restricts : op.Restricts
  · rcases updates_of_run restricts run with
      ⟨-, rfl | ⟨who, l, run⟩ | ⟨who, l, run⟩⟩ | ⟨reason, who, amount, -, -, run⟩
    · exact .refl
    · exact .single (.of_updateLocks sound run)
    · exact .single (.of_updateFreezes sound run)
    · exact .single (.of_setBalanceOnHold sound run)
  · exact Quiet.chain_wrote sound (quiet_of_run sound order fits restricts run)

theorem Quiet.ordered (quiet : Quiet c s s') (order : NamedInOrder c s) : NamedInOrder c s' := by
  cases quiet with
  | moved moved _ _ =>
      rw [NamedInOrder, moved.collections.2.1]
      exact order
  | lost lost =>
      rw [NamedInOrder, lost.collections.2.1]
      exact order
  | @renamed who _ _ _ renamed =>
      intro a
      simp only [State.putReserves, Function.update_apply]
      split
      next => exact ⟨renamed.sorted, renamed.short (order who).2⟩
      next => exact order a
  | kept _ _ _ reserves _ _ =>
      rw [NamedInOrder, reserves]
      exact order

theorem Quiet.chain_ordered (chain : ReflTransGen (Quiet c) s s') (order : NamedInOrder c s) :
    NamedInOrder c s' := by
  induction chain with
  | refl => exact order
  | tail _ last ih => exact last.ordered ih

theorem ordered_of_run (sound : Sound c s) (order : NamedInOrder c s) {op : Op A I} (fits : op.Fits)
    {i : Imbalances} (run : exec (op.run c) s = (.ok i, s')) : NamedInOrder c s' := by
  by_cases restricts : op.Restricts
  · rcases updates_of_run restricts run with
      ⟨-, rfl | ⟨who, l, run⟩ | ⟨who, l, run⟩⟩ | ⟨reason, who, amount, -, -, run⟩
    · exact order
    · rw [exec_updateLocks sound] at run
      cases run
      intro a
      dsimp only
      split
      · rw [State.write_collections.2.1]
        exact order a
      · exact order a
    · obtain ⟨-, rfl⟩ := ok_of_updateFreezes sound run
      intro a
      dsimp only
      rw [State.write_collections.2.1]
      exact order a
    · obtain ⟨reserved, -, -, -, -, -, rfl⟩ := ok_of_setBalanceOnHold sound run
      intro a
      dsimp only
      rw [State.write_collections.2.1]
      exact order a
  · exact Quiet.chain_ordered (quiet_of_run sound order fits restricts run) order

end

/-- The pallet's own references: exactly the providers it needs, and at least the
consumers. -/
structure Counted (c : Config) (others : A → AccountRefs) (s : State A I) : Prop where
  providers : ∀ a, (s.refs a).providers =
    (others a).providers + if (s.account a).Provides c.existentialDeposit then 1 else 0
  consumers : ∀ a, (others a).consumers + (if (s.account a).Consumes then 1 else 0) ≤
    (s.refs a).consumers

/-- Consumer references that are nobody's. -/
def stranded (others : A → AccountRefs) (s : State A I) (a : A) : ℕ :=
  (s.refs a).consumers - ((others a).consumers + if (s.account a).Consumes then 1 else 0)

theorem AccountData.kept_provides {d : AccountData} :
    (d.kept c.existentialDeposit).Provides c.existentialDeposit ↔
      d.Provides c.existentialDeposit := by
  rw [AccountData.kept]
  split
  next dies =>
    have positive := c.existentialDeposit_pos
    exact iff_of_false (Nat.not_le_of_lt positive) (Nat.not_le_of_lt dies.1)
  next => rfl

theorem AccountData.consumes_of_kept {ed : ℕ} {d : AccountData} (consumes : (d.kept ed).Consumes) :
    d.Consumes := by
  rw [AccountData.kept] at consumes
  split at consumes
  · exact absurd consumes AccountData.not_consumes_default
  · exact consumes

/-- A write moves the references of its account with it. -/
theorem Wrote.counted {others : A → AccountRefs} (sound : Sound c s) (counted : Counted c others s)
    (wrote : Wrote c s s') :
    Counted c others s' ∧ ∀ a, stranded others s a ≤ stranded others s' a := by
  cases wrote with
  | kept account refs =>
      refine ⟨⟨?_, ?_⟩, ?_⟩
      · rw [account, refs]
        exact counted.providers
      · rw [account, refs]
        exact counted.consumers
      · intro a
        rw [stranded, stranded, account, refs]
  | @wrote who after allowed proper account refs =>
      have here := counted.providers who
      have some := counted.consumers who
      have moved := @State.moved_consumers _ _ _ c s who after
      rw [State.write_account sound allowed] at account
      rw [State.write_refs sound allowed] at refs
      have less : (if (after.kept c.existentialDeposit).Consumes then 1 else 0) ≤
          if after.Consumes then 1 else 0 := by
        split
        next consumes => rw [if_pos (AccountData.consumes_of_kept consumes)]
        next => exact Nat.zero_le _
      refine ⟨⟨?_, ?_⟩, ?_⟩
      · intro a
        rw [account, refs, Function.update_apply, Function.update_apply]
        split
        next same =>
          subst same
          simp only [AccountData.kept_provides, State.moved_providers]
          omega
        next => exact counted.providers a
      · intro a
        rw [account, refs, Function.update_apply, Function.update_apply]
        split
        next same =>
          subst same
          omega
        next => exact counted.consumers a
      · intro a
        rw [stranded, stranded, account, refs, Function.update_apply, Function.update_apply]
        by_cases same : a = who
        · subst same
          rw [if_pos rfl, if_pos rfl]
          omega
        · rw [if_neg same, if_neg same]

end Resonance.Balances
