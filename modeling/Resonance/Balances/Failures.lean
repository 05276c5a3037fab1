import Resonance.Balances.Effects

/-!
What the operations of the balances pallet leave behind when they fail.

Most of them cannot fail, or leave everything as it was. A balance that may not be
written is put back. A repatriation is not undone: it may fail after the reserve was
taken and before the beneficiary has it, or after the beneficiary has it and before it
is named.
-/
namespace Resonance.Balances
open Storage BinarySearch

variable {A I : Type} [DecidableEq A] {c : Config} {s s' : State A I} {who : A}

namespace Currency

omit [DecidableEq A] in
theorem total_burn {amount : ℕ} : Total (burn amount : BalancesM A I PositiveImbalance) :=
  .ite (.pure _) (.bind .get fun _ => .ite (.bind (.set _) fun _ => .pure _)
    (.bind (.set _) fun _ => .pure _))

omit [DecidableEq A] in
theorem total_issue {amount : ℕ} : Total (issue amount : BalancesM A I NegativeImbalance) :=
  .ite (.pure _) (.bind .get fun _ => .ite (.bind (.set _) fun _ => .pure _)
    (.bind (.set _) fun _ => .pure _))

theorem total_slash {value : ℕ} :
    Total (slash c who value : BalancesM A I (NegativeImbalance × ℕ)) :=
  .ite (.pure _) (.bind .get fun _ => .ite (.pure _)
    (.recover _ (fun _ => rfl) fun _ => rfl))

theorem total_depositCreating {value : ℕ} :
    Total (depositCreating c who value : BalancesM A I PositiveImbalance) :=
  .ite (.pure _) (.recover _ (fun _ => rfl) fun _ => rfl)

theorem total_makeFreeBalanceBe {value : ℕ} :
    Total (makeFreeBalanceBe c who value : BalancesM A I SignedImbalance) :=
  .recover _ (fun _ => rfl) fun _ => rfl

end Currency

theorem total_unreserve {value : ℕ} : Total (unreserve c who value : BalancesM A I ℕ) :=
  .ite (.pure _) (.bind .get fun _ => .ite (.pure _)
    (.recover _ (fun _ => rfl) fun _ => rfl))

theorem total_slashReserved {value : ℕ} :
    Total (slashReserved c who value : BalancesM A I (NegativeImbalance × ℕ)) :=
  .ite (.pure _) (.bind .get fun _ => .ite (.pure _)
    (.recover _ (fun _ => rfl) fun _ => rfl))

theorem total_updateLocks [DecidableEq I] {locks : List (BalanceLock I)} :
    Total (updateLocks c who locks) :=
  .bind .get fun _ => .bind (.attempt _) fun _ => .modify _

section
variable [LinearOrder I] {id : I} {value : ℕ}

theorem total_unreserveNamed : Total (unreserveNamed c id who value) := by
  refine .ite (.pure _) (.bind .get fun s => ?_)
  dsimp only
  cases search ReserveData.id (s.reserves who) id with
  | present index => exact .bind total_unreserve fun _ => .bind (.modify _) fun _ => .pure _
  | absent index => exact .pure _

theorem total_slashReservedNamed : Total (slashReservedNamed c id who value) := by
  refine .ite (.pure _) (.bind .get fun s => ?_)
  dsimp only
  cases search ReserveData.id (s.reserves who) id with
  | present index => exact .bind total_slashReserved fun _ => .bind (.modify _) fun _ => .pure _
  | absent index => exact .pure _

end

/-- The entry of a freeze is changed or pushed, and the freezes are written. -/
theorem atomic_entries [DecidableEq I] (sound : Sound c s) {id : I} {f : ℕ → ℕ} {amount : ℕ} :
    Atomic (do
      let s ← get
      let freezes := s.freezes who
      let freezes ←
        if (freezes.find? fun x => x.id = id).isSome then pure (setFirst id f freezes)
        else tryPush c.maxFreezes .tooManyFreezes freezes ⟨id, amount⟩
      updateFreezes c who freezes) s := by
  refine .bind .get fun s₁ read => ?_
  cases read
  dsimp only
  split
  · rw [pure_bind]
    exact atomic_updateFreezes sound
  · exact .bind (.bind (.ensure _ _) fun _ => .pure _) fun _ _ => atomic_updateFreezes sound

section
variable {slashed beneficiary : A}

end

inductive Failure [LinearOrder I] (c : Config) (s : State A I) (op : Op A I) : State A I → Prop
  | kept : Failure c s op s
  | rewritten {who : A} {s' : State A I} :
      Moved c s who (s.account who).free (s.account who).reserved s' → Failure c s op s'
  | lost {slashed beneficiary : A} {n : ℕ} {s' : State A I} :
      Lost c s slashed beneficiary n s' → ¬ op.Squares c s →
      (op.Modest c s → s.claimed slashed + n ≤ (s.account slashed).reserved) → Failure c s op s'
  | unnamed {slashed beneficiary : A} {n : ℕ} {s' : State A I} :
      n ≤ (s.account slashed).reserved → Repatriated c s slashed beneficiary n .reserved s' →
      ¬ op.Modest c s → Failure c s op s'

section
variable [LinearOrder I] {op : Op A I} {e : DispatchError}

theorem Failure.of_atomic {R : Type} {x : BalancesM A I R} {f : R → Imbalances}
    (atomic : Atomic x s) (run : exec (f <$> x) s = (.error e, s')) : Failure c s op s' := by
  obtain rfl : s' = s := atomic.map e s' run
  exact .kept

theorem Failure.of_total {R : Type} {x : BalancesM A I R} {f : R → Imbalances}
    (total : Total x) (run : exec (f <$> x) s = (.error e, s')) : Failure c s op s' :=
  .of_atomic (.of_total total) run

theorem failure_of_run (sound : Sound c s) (order : NamedInOrder c s)
    (run : exec (op.run c) s = (.error e, s')) : Failure c s op s' := by
  cases op with
  | burn amount => exact .of_total Currency.total_burn run
  | issue amount => exact .of_total Currency.total_issue run
  | slash who value => exact .of_total Currency.total_slash run
  | depositIntoExisting who value =>
      exact .of_atomic (Currency.depositIntoExisting_spec sound).1 run
  | depositCreating who value => exact .of_total Currency.total_depositCreating run
  | withdraw who value liveness => exact .of_atomic (Currency.withdraw_spec sound).1 run
  | makeFreeBalanceBe who value => exact .of_total Currency.total_makeFreeBalanceBe run
  | deactivate amount => exact .of_total (.modify _) run
  | reactivate amount => exact .of_total (.modify _) run
  | reserve who value => exact .of_atomic (reserve_spec sound).1 run
  | unreserve who value => exact .of_total total_unreserve run
  | slashReserved who value => exact .of_total total_slashReserved run
  | repatriateReserved slashed beneficiary value status =>
      rcases error_of_repatriateReserved sound (map_error_iff.mp run) with
        rfl | ⟨reserved, n, le, -, lost⟩
      · exact .kept
      · refine .lost lost (fun squares => lost.full (squares reserved lost.ne)) fun modest => ?_
        have spare : Spare s slashed value := modest
        have most := lost.le
        rw [Spare] at spare
        omega
  | reserveNamed id who value => exact .of_atomic (atomic_reserveNamed sound) run
  | unreserveNamed id who value => exact .of_total total_unreserveNamed run
  | slashReservedNamed id who value => exact .of_total total_slashReservedNamed run
  | repatriateReservedNamed id slashed beneficiary value status =>
      rcases error_of_repatriateReservedNamed sound order (map_error_iff.mp run) with
        rfl | ⟨ne, reserved, n, lost | ⟨full, le, done⟩⟩
      · exact .kept
      · exact .lost lost (fun squares => lost.full (squares reserved ne))
          fun modest => absurd (modest reserved ne).1 lost.full
      · exact .unnamed le done fun modest => full (modest reserved ne).2
  | setLock id who amount reasons =>
      refine .of_total (.ite ?_ ?_) run
      · exact .bind .get fun _ => total_updateLocks
      · exact .bind .get fun _ => total_updateLocks
  | extendLock id who amount reasons =>
      exact .of_total (.ite (.pure _) (.bind .get fun _ => total_updateLocks)) run
  | removeLock id who => exact .of_total (.bind .get fun _ => total_updateLocks) run
  | setFreeze id who amount =>
      refine .of_atomic ?_ run
      rw [setFreeze]
      split
      · refine .bind .get fun s₁ read => ?_
        cases read
        exact atomic_updateFreezes sound
      · exact atomic_entries sound
  | extendFreeze id who amount =>
      refine .of_atomic ?_ run
      rw [extendFreeze]
      split
      · exact .of_ok rfl
      · exact atomic_entries sound
  | thaw id who =>
      refine .of_atomic (.bind .get fun s₁ read => ?_) run
      cases read
      exact atomic_updateFreezes sound
  | setBalanceOnHold reason who amount =>
      simp only [Op.run] at run
      rw [exec_get_bind] at run
      obtain rfl : s' = s :=
        ((atomic_setBalanceOnHold sound).bind_total fun _ => .pure _) e s' run
      exact .kept
  | writeBalance who amount =>
      simp only [Op.run] at run
      rw [exec_get_bind] at run
      rcases bind_error_iff.mp run with failed | ⟨d, s₁, -, rest⟩
      · rcases error_of_writeBalance sound failed with rfl | moved
        · exact .kept
        · exact .rewritten moved
      · have total : Total (handleMaybeDust d >>= fun _ => pure
            (Imbalances.ofChange (s.account who).free amount) : BalancesM A I Imbalances) := by
          refine .bind ?_ fun _ => .pure _
          cases d with
          | none => exact .pure _
          | some dust => exact .modify _
        obtain ⟨i, s₂, ok⟩ := total s₁
        cases ok.symm.trans rest
  | forceUnreserve origin who amount => exact .of_atomic (.transactional _) run
  | upgradeAccounts origin who => exact .of_atomic (.transactional _) run
  | forceSetBalance origin who newFree => exact .of_atomic (.transactional _) run
  | forceAdjustTotalIssuance origin direction delta => exact .of_atomic (.transactional _) run

end
end Resonance.Balances
