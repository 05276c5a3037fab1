import Resonance.Balances.AccountWrites
import Resonance.Balances.ImplCurrency

/-!
The operations on balances, as moves.

A move gives one account another free and reserved balance, leaves its freeze alone
and drops the rest of an account that dies. In a sound state every operation on the
balances of an account is one move or nothing, a repatriation two; whatever the
other accounts and the collections hold stays.
-/
namespace Resonance.Balances
open Storage

variable {A I : Type} [DecidableEq A] {c : Config} {s s' : State A I} {who : A}

/-- The account with this free and reserved balance. -/
def AccountData.having (a : AccountData) (free reserved : ℕ) : AccountData :=
  { a with free := free, reserved := reserved }

@[simp] theorem AccountData.having_free {a : AccountData} {free reserved : ℕ} :
    (a.having free reserved).free = free := rfl

@[simp] theorem AccountData.having_reserved {a : AccountData} {free reserved : ℕ} :
    (a.having free reserved).reserved = reserved := rfl

@[simp] theorem AccountData.having_frozen {a : AccountData} {free reserved : ℕ} :
    (a.having free reserved).frozen = a.frozen := rfl

@[simp] theorem AccountData.having_flags {a : AccountData} {free reserved : ℕ} :
    (a.having free reserved).flags = a.flags := rfl

@[simp] theorem AccountData.having_total {a : AccountData} {free reserved : ℕ} :
    (a.having free reserved).total = free + reserved := rfl

structure Moved (c : Config) (s : State A I) (who : A) (free reserved : ℕ) (s' : State A I) :
    Prop where
  allowed : s.refusal c who ((s.account who).having free reserved) = none
  settled : s' = s.settle c who ((s.account who).having free reserved)

theorem Moved.collections {free reserved : ℕ} (moved : Moved c s who free reserved s') :
    s'.locks = s.locks ∧ s'.reserves = s.reserves ∧ s'.holds = s.holds ∧
      s'.freezes = s.freezes := by
  obtain ⟨-, rfl⟩ := moved
  obtain ⟨locks, reserves, holds, freezes, -⟩ :=
    @State.write_collections _ _ _ c s who ((s.account who).having free reserved)
  exact ⟨locks, reserves, holds, freezes⟩

/-- Free and reserved balance do not grow together nor shrink together. -/
theorem AccountData.Steady.having {ed free reserved : ℕ} {a : AccountData}
    (up : free ≤ a.free ∨ reserved ≤ a.reserved) (down : a.free ≤ free ∨ a.reserved ≤ reserved) :
    a.Steady ed (a.having free reserved) := by
  refine ⟨?_, ?_⟩
  · simp only [AccountData.Provides, AccountData.Consumes, having_free, having_reserved,
      having_frozen]
    omega
  · simp only [AccountData.Provides, AccountData.Consumes, having_free, having_reserved,
      having_frozen]
    omega

section
variable {R : Type} {f : AccountData → (isNew : Bool) → BalancesM A I (R × AccountData)}

/-- A closure that only reads fails, or its change is refused, or it is made. -/
theorem tryMutateAccountHandlingDust_cases (who : A) (sound : Sound c s)
    (reads : Keeps id (f (s.account who) (s.account who = default)))
    (steady : ∀ r after,
      exec (f (s.account who) (s.account who = default)) s = (.ok (r, after), s) →
      (s.account who).Steady c.existentialDeposit after) :
    (∃ e, exec (tryMutateAccountHandlingDust c who f) s = (.error e, s)) ∨
    ∃ r after, exec (f (s.account who) (s.account who = default)) s = (.ok (r, after), s) ∧
      s.refusal c who after = none ∧
      exec (tryMutateAccountHandlingDust c who f) s = (.ok r, s.settle c who after) := by
  have same := reads s
  rcases ran : exec (f (s.account who) (s.account who = default)) s with ⟨e | ⟨r, after⟩, s₁⟩
  · rw [ran] at same
    obtain rfl : s₁ = s := same
    exact .inl ⟨e, exec_tryMutateAccountHandlingDust_error (sound.proper who).upgraded ran⟩
  · rw [ran] at same
    obtain rfl : s₁ = s := same
    rw [exec_tryMutateAccountHandlingDust sound ran (steady r after ran)]
    cases allowed : s₁.refusal c who after with
    | some e => exact .inl ⟨e, rfl⟩
    | none => exact .inr ⟨r, after, rfl, allowed, rfl⟩

/-- What a change comes to that may fail: nothing, or what its closure asked for. -/
theorem tryMutateAccountHandlingDust_spec {P : R → State A I → Prop} (sound : Sound c s)
    (reads : Keeps id (f (s.account who) (s.account who = default)))
    (steady : ∀ r after,
      exec (f (s.account who) (s.account who = default)) s = (.ok (r, after), s) →
      (s.account who).Steady c.existentialDeposit after)
    (made : ∀ r after, exec (f (s.account who) (s.account who = default)) s = (.ok (r, after), s) →
      s.refusal c who after = none → P r (s.settle c who after)) :
    Atomic (tryMutateAccountHandlingDust c who f) s ∧
      ∀ r s', exec (tryMutateAccountHandlingDust c who f) s = (.ok r, s') → P r s' := by
  cases tryMutateAccountHandlingDust_cases who sound reads steady with
  | inl failed =>
      obtain ⟨e, failed⟩ := failed
      refine ⟨?_, ?_⟩
      · intro e s' run
        cases failed.symm.trans run
        rfl
      · intro r s' run
        cases failed.symm.trans run
  | inr ok =>
      obtain ⟨r, after, ran, allowed, ok⟩ := ok
      refine ⟨.of_ok ok, ?_⟩
      intro r' s' run
      cases ok.symm.trans run
      exact made r after ran allowed

end

namespace Currency

theorem slash_cases (who : A) (sound : Sound c s) {value : ℕ} :
    exec (slash c who value) s = (.ok (.zero, value), s) ∨
    ∃ n s', n ≤ (s.account who).free ∧
      Moved c s who ((s.account who).free - n) (s.account who).reserved s' ∧
      exec (slash c who value) s = (.ok (⟨n⟩, value - n), s') := by
  simp only [slash]
  split
  next none => exact .inl (none ▸ rfl)
  next =>
    rw [exec_get_bind]
    split
    · exact .inl rfl
    · let n := if (s.refs who).CanDecProvider then min value (s.account who).free
        else min value ((s.account who).free - c.existentialDeposit)
      have most : n ≤ (s.account who).free := by grind
      rw [exec_attempt_bind, exec_tryMutateAccountHandlingDust (r := (⟨n⟩, value - n)) sound ?_
        (.having (.inr le_rfl) (.inr le_rfl))]
      · cases allowed : s.refusal c who
            ((s.account who).having ((s.account who).free - n) (s.account who).reserved) with
        | some e => exact .inl rfl
        | none => exact .inr ⟨n, _, most, ⟨allowed, rfl⟩, rfl⟩
      · rfl

theorem depositIntoExisting_spec (sound : Sound c s) {value : ℕ} :
    Atomic (depositIntoExisting c who value) s ∧
    ∀ i s', exec (depositIntoExisting c who value) s = (.ok i, s') →
      i = .zero ∧ s' = s ∨
        i = ⟨value⟩ ∧ s.account who ≠ default ∧ (s.account who).free + value ≤ u128Max ∧
          Moved c s who ((s.account who).free + value) (s.account who).reserved s' := by
  simp only [depositIntoExisting]
  split
  · refine ⟨.of_ok rfl, fun i s' run => ?_⟩
    cases run
    exact .inl ⟨rfl, rfl⟩
  · refine tryMutateAccountHandlingDust_spec sound
      (.bind (.ensure _ _) fun _ => .bind (.ensure _ _) fun _ => .pure _) ?_ ?_
    · intro r after ran
      simp only [ensure_bind_ok_iff] at ran
      obtain ⟨-, -, ran⟩ := ran
      cases ran
      exact .having (.inr le_rfl) (.inr le_rfl)
    · intro r after ran allowed
      simp only [ensure_bind_ok_iff] at ran
      obtain ⟨existing, fits, ran⟩ := ran
      cases ran
      exact .inr ⟨rfl, by simpa using existing, fits, allowed, rfl⟩

/-- An overflow leaves the account and yields nothing. -/
theorem depositCreating_cases (who : A) (value : ℕ) (sound : Sound c s) :
    exec (depositCreating c who value) s = (.ok .zero, s) ∨
    ∃ n s', (n = 0 ∨ n = value ∧ (c.existentialDeposit ≤ value ∨ s.account who ≠ default)) ∧
      ((s.account who).free + n ≤ u128Max) ∧
      Moved c s who ((s.account who).free + n) (s.account who).reserved s' ∧
      exec (depositCreating c who value) s = (.ok ⟨n⟩, s') := by
  have free_le := (sound.proper who).free_le
  simp only [depositCreating]
  split
  · exact .inl rfl
  · rw [exec_attempt_bind]
    have cases := tryMutateAccountHandlingDust_cases (c := c) who
      (f := fun account isNew => do
        ensure (c.existentialDeposit ≤ value ∨ ¬ isNew) Error.existentialDeposit.dispatch
        if account.free + value ≤ u128Max then
          pure ((⟨value⟩ : PositiveImbalance), { account with free := account.free + value })
        else pure (.zero, account)) sound
      (.bind (.ensure _ _) fun _ => .ite (.pure _) (.pure _)) (by
        intro r after ran
        simp only [ensure_bind_ok_iff, exec_ite] at ran
        obtain ⟨-, ran⟩ := ran
        split at ran
        · cases ran
          exact .having (.inr le_rfl) (.inr le_rfl)
        · cases ran
          exact .having (.inr le_rfl) (.inr le_rfl))
    cases cases with
    | inl failed =>
        obtain ⟨e, run⟩ := failed
        rw [run]
        exact .inl rfl
    | inr made =>
        obtain ⟨r, after, ran, allowed, run⟩ := made
        rw [run]
        simp only [ensure_bind_ok_iff, exec_ite] at ran
        obtain ⟨known, ran⟩ := ran
        split at ran
        next fits =>
          cases ran
          exact .inr ⟨value, _, .inr ⟨rfl, by simpa using known⟩, fits, ⟨allowed, rfl⟩, rfl⟩
        next =>
          cases ran
          exact .inr ⟨0, _, .inl rfl, free_le, ⟨allowed, rfl⟩, rfl⟩

theorem reads_ensureCanWithdraw {amount newBalance : ℕ} :
    Keeps id (ensureCanWithdraw who amount newBalance : BalancesM A I PUnit) := by
  rw [ensureCanWithdraw]
  exact .ite (.pure _) (.bind .get fun _ => .ensure _ _)

theorem ensureCanWithdraw_bind_ok_iff {R : Type} {amount newBalance : ℕ}
    {f : PUnit → BalancesM A I R} {r : R} :
    exec (ensureCanWithdraw who amount newBalance >>= f) s = (.ok r, s') ↔
      (amount = 0 ∨ (s.account who).frozen ≤ newBalance) ∧ exec (f ⟨⟩) s = (.ok r, s') := by
  rw [ensureCanWithdraw]
  split
  next none => simp [none]
  next some => simp only [some, false_or, bind_assoc, exec_get_bind, ensure_bind_ok_iff]

theorem withdraw_spec (sound : Sound c s) {value : ℕ} {liveness : ExistenceRequirement} :
    Atomic (withdraw c who value liveness) s ∧
    ∀ i s', exec (withdraw c who value liveness) s = (.ok i, s') →
      i = .zero ∧ s' = s ∨
        i = ⟨value⟩ ∧ value ≤ (s.account who).free ∧
          (s.account who).frozen ≤ (s.account who).free - value ∧
          (liveness = .keepAlive → c.existentialDeposit ≤ (s.account who).free →
            c.existentialDeposit ≤ (s.account who).free - value) ∧
          Moved c s who ((s.account who).free - value) (s.account who).reserved s' := by
  simp only [withdraw]
  split
  · refine ⟨.of_ok rfl, fun i s' run => ?_⟩
    cases run
    exact .inl ⟨rfl, rfl⟩
  next some =>
    refine tryMutateAccountHandlingDust_spec sound
      (.bind (.ensure _ _) fun _ => .bind (.ensure _ _) fun _ =>
        .bind reads_ensureCanWithdraw fun _ => .pure _) ?_ ?_
    · intro r after ran
      simp only [ensure_bind_ok_iff, ensureCanWithdraw_bind_ok_iff] at ran
      obtain ⟨-, -, -, ran⟩ := ran
      cases ran
      exact .having (.inr le_rfl) (.inr le_rfl)
    · intro r after ran allowed
      simp only [ensure_bind_ok_iff, ensureCanWithdraw_bind_ok_iff, some, false_or] at ran
      obtain ⟨enough, alive, free, ran⟩ := ran
      cases ran
      refine .inr ⟨rfl, enough, free, ?_, allowed, rfl⟩
      intro keepAlive provides
      subst keepAlive
      have lives := alive.resolve_left (by simp)
      omega

theorem makeFreeBalanceBe_cases (who : A) (value : ℕ) (sound : Sound c s) :
    exec (makeFreeBalanceBe c who value) s = (.ok (.positive .zero), s) ∨
    ∃ s', Moved c s who value (s.account who).reserved s' ∧
      exec (makeFreeBalanceBe c who value) s =
        (.ok (if (s.account who).free ≤ value then .positive ⟨value - (s.account who).free⟩
          else .negative ⟨(s.account who).free - value⟩), s') := by
  simp only [makeFreeBalanceBe]
  rw [exec_attempt_bind]
  have cases := tryMutateAccountHandlingDust_cases (c := c) who
    (f := fun account isNew => do
      ensure (c.existentialDeposit ≤ value ∨ ¬ isNew) Error.existentialDeposit.dispatch
      pure ((if account.free ≤ value then SignedImbalance.positive ⟨value - account.free⟩
        else .negative ⟨account.free - value⟩), { account with free := value })) sound
    (.bind (.ensure _ _) fun _ => .pure _) (by
      intro r after ran
      simp only [ensure_bind_ok_iff] at ran
      obtain ⟨-, ran⟩ := ran
      cases ran
      exact .having (.inr le_rfl) (.inr le_rfl))
  cases cases with
  | inl failed =>
      obtain ⟨e, run⟩ := failed
      rw [run]
      exact .inl rfl
  | inr made =>
      obtain ⟨r, after, ran, allowed, run⟩ := made
      rw [run]
      simp only [ensure_bind_ok_iff] at ran
      obtain ⟨-, ran⟩ := ran
      cases ran
      exact .inr ⟨_, ⟨allowed, rfl⟩, rfl⟩

end Currency

theorem reserve_spec (sound : Sound c s) {value : ℕ} :
    Atomic (reserve c who value) s ∧
    ∀ u s', exec (reserve c who value) s = (.ok u, s') →
      value = 0 ∧ s' = s ∨
        value ≤ (s.account who).free ∧ (s.account who).reserved + value ≤ u128Max ∧
          (s.account who).frozen ≤ (s.account who).free - value ∧
          Moved c s who ((s.account who).free - value) ((s.account who).reserved + value) s' := by
  simp only [reserve]
  split
  next none =>
    refine ⟨.of_ok rfl, fun u s' run => ?_⟩
    cases run
    exact .inl ⟨none, rfl⟩
  next some =>
    refine tryMutateAccountHandlingDust_spec sound
      (.bind (.ensure _ _) fun _ => .bind (.ensure _ _) fun _ =>
        .bind Currency.reads_ensureCanWithdraw fun _ => .pure _) ?_ ?_
    · intro r after ran
      simp only [ensure_bind_ok_iff, Currency.ensureCanWithdraw_bind_ok_iff] at ran
      obtain ⟨-, -, -, ran⟩ := ran
      cases ran
      exact .having (.inl (Nat.sub_le _ _)) (.inr (Nat.le_add_right _ _))
    · intro r after ran allowed
      simp only [ensure_bind_ok_iff, Currency.ensureCanWithdraw_bind_ok_iff, some, false_or] at ran
      obtain ⟨enough, fits, free, ran⟩ := ran
      cases ran
      exact .inr ⟨enough, fits, free, allowed, rfl⟩

/-- Freeing a part of a reserve is never refused. -/
theorem refusal_of_release {free reserved : ℕ} (more : (s.account who).free ≤ free)
    (less : reserved ≤ (s.account who).reserved) :
    s.refusal c who ((s.account who).having free reserved) = none := by
  refine State.refusal_eq_none_iff.mpr ⟨fun not consumes => absurd ?_ not, fun provides not => ?_⟩
  · exact consumes.imp (fun some none => some (Nat.le_zero.mp (none ▸ less))) id
  · exact absurd (provides.trans more) not

/-- The account has a consumer reference for a reserve, or can take one. -/
def State.Receives (c : Config) (s : State A I) (who : A) : Prop :=
  (s.account who).Consumes ∨ (s.refs who).consumers < c.system.maxConsumers

/-- A change of another account does not count. -/
theorem State.receives_write_iff {a : A} {after : AccountData} (sound : Sound c s)
    (allowed : s.refusal c who after = none) (other : a ≠ who) :
    (s.write c who after).Receives c a ↔ s.Receives c a := by
  rw [State.Receives, State.Receives, write_account_of_ne sound allowed other,
    write_refs_of_ne sound allowed other]

/-- Nor is a reserve for an account that is there and can take a reference for it. -/
theorem refusal_of_receives (sound : Sound c s) (existing : s.account who ≠ default)
    (receives : s.Receives c who) {reserved : ℕ} :
    s.refusal c who ((s.account who).having (s.account who).free reserved) = none := by
  refine State.refusal_eq_none_iff.mpr ⟨fun not _ => ⟨?_, receives.resolve_left not⟩,
    fun provides not => absurd provides not⟩
  have alive := (sound.alive who).resolve_left existing
  refine sound.provided who (Classical.byContradiction fun short => alive ⟨?_, ?_⟩)
  · exact Nat.lt_of_not_le short
  · exact Classical.byContradiction fun reserved => not (.inl reserved)

theorem reserved_of_totalBalance (none : s.totalBalance who = 0) :
    (s.account who).reserved = 0 := by
  have positive : 0 < u128Max := by decide
  rw [State.totalBalance, AccountData.total] at none
  omega

theorem unreserve_cases (who : A) (sound : Sound c s) {value : ℕ} :
    (min (s.account who).reserved value = 0 ∧ exec (unreserve c who value) s = (.ok value, s)) ∨
    ∃ n s', n = min (s.account who).reserved value ∧
      Moved c s who (min ((s.account who).free + n) u128Max) ((s.account who).reserved - n) s' ∧
      exec (unreserve c who value) s = (.ok (value - n), s') := by
  have free_le := (sound.proper who).free_le
  simp only [unreserve]
  split
  next none => exact .inl ⟨by rw [none, Nat.min_zero], none ▸ rfl⟩
  next =>
    rw [exec_get_bind]
    split
    next none => exact .inl ⟨by rw [reserved_of_totalBalance none, Nat.zero_min], rfl⟩
    next =>
      let n := min (s.account who).reserved value
      have allowed := refusal_of_release (c := c)
        (le_min (Nat.le_add_right (s.account who).free n) free_le)
        (Nat.sub_le (s.account who).reserved n)
      refine .inr ⟨_, _, rfl, ⟨allowed, rfl⟩, ?_⟩
      rw [exec_attempt_bind, exec_mutateAccountHandlingDust sound
        (.having (.inr (Nat.sub_le _ _)) (.inl (le_min (Nat.le_add_right _ _) free_le)))]
      simp only [AccountData.having] at allowed
      rw [allowed]
      rfl

theorem slashReserved_cases (who : A) (sound : Sound c s) {value : ℕ} :
    (min value (s.account who).reserved = 0 ∧
      exec (slashReserved c who value) s = (.ok (.zero, value), s)) ∨
    ∃ n s', n = min value (s.account who).reserved ∧
      Moved c s who (s.account who).free ((s.account who).reserved - n) s' ∧
      exec (slashReserved c who value) s = (.ok (⟨n⟩, value - n), s') := by
  simp only [slashReserved]
  split
  next none => exact .inl ⟨by rw [none, Nat.zero_min], none ▸ rfl⟩
  next =>
    rw [exec_get_bind]
    split
    next none => exact .inl ⟨by rw [reserved_of_totalBalance none, Nat.min_zero], rfl⟩
    next =>
      let n := min value (s.account who).reserved
      have allowed := refusal_of_release (c := c) (Nat.le_refl (s.account who).free)
        (Nat.sub_le (s.account who).reserved n)
      refine .inr ⟨_, _, rfl, ⟨allowed, rfl⟩, ?_⟩
      rw [exec_attempt_bind, exec_mutateAccountHandlingDust sound
        (.having (.inl le_rfl) (.inl le_rfl))]
      simp only [AccountData.having] at allowed
      rw [allowed]
      rfl

theorem ok_of_writeBalance (sound : Sound c s) {amount : ℕ} {d : Option ℕ}
    (run : exec (writeBalance c who amount) s = (.ok d, s')) :
    (s.account who).free - amount ≤ s.reducibleBalance c who .expendable .force ∧
      s.refusal c who ((s.account who).having amount (s.account who).reserved) = none ∧
      s' = s.write c who ((s.account who).having amount (s.account who).reserved) ∧
      d = ((s.account who).having amount (s.account who).reserved).maybeDust
        c.existentialDeposit := by
  simp only [writeBalance] at run
  rw [exec_get_bind] at run
  obtain ⟨⟨result, d₁⟩, s₁, made, rest⟩ := bind_ok_iff.mp run
  obtain ⟨⟨⟩, enough, rest⟩ := ofResult_bind_ok_iff.mp rest
  cases rest
  obtain ⟨after, s₂, ran, allowed, rfl, rfl⟩ :=
    ok_of_tryMutateAccount (sound.proper who).upgraded (by
      intro r after s₁ ran
      dsimp only at ran
      split at ran
      · cases ran
        exact ⟨sound, rfl, .having (.inr le_rfl) (.inr le_rfl)⟩
      · cases ran
        exact ⟨sound, rfl, .having (.inl le_rfl) (.inl le_rfl)⟩) made
  dsimp only at ran
  split at ran
  next le =>
    obtain ⟨rfl, rfl⟩ :
        (s.account who).having amount (s.account who).reserved = after ∧ s = s₂ := by
      cases ran
      exact ⟨rfl, rfl⟩
    exact ⟨le, allowed, rfl, rfl⟩
  next =>
    cases ran
    cases enough

theorem Sound.no_dust (sound : Sound c s) : (s.account who).dust c.existentialDeposit = 0 := by
  rw [AccountData.dust]
  split
  next dies =>
    have gone : s.account who = default := (sound.alive who).resolve_right (not_not.mpr dies)
    rw [gone]
    rfl
  next => rfl

/-- A balance that is not written is put back. -/
theorem error_of_writeBalance (sound : Sound c s) {amount : ℕ} {e : DispatchError}
    (run : exec (writeBalance c who amount) s = (.error e, s')) :
    s' = s ∨ Moved c s who (s.account who).free (s.account who).reserved s' := by
  simp only [writeBalance] at run
  rw [exec_get_bind] at run
  -- what the closure makes of the account
  let change (account : AccountData) : Except DispatchError PUnit × AccountData :=
    if account.free - amount ≤ s.reducibleBalance c who .expendable .force then
      (.ok ⟨⟩, { account with free := amount })
    else (.error Error.insufficientBalance.dispatch, account)
  have steady : (s.account who).Steady c.existentialDeposit (change (s.account who)).2 := by
    dsimp only [change]
    split
    · exact .having (.inr le_rfl) (.inr le_rfl)
    · exact .having (.inl le_rfl) (.inl le_rfl)
  rcases bind_error_iff.mp run with failed | ⟨⟨result, d⟩, s₁, made, rest⟩
  · exact .inl (atomic_tryMutateAccount (r := (change (s.account who)).1)
      (d := (change (s.account who)).2) sound rfl steady _ _ failed)
  · rw [mutateAccount, exec_tryMutateAccount (r := (change (s.account who)).1)
      (d := (change (s.account who)).2) (sound.proper who).upgraded rfl sound rfl steady] at made
    split at made
    next allowed =>
      cases made
      dsimp only [change] at rest allowed
      split at rest
      · cases rest
      next refused =>
        rw [if_neg refused] at allowed
        cases rest
        refine .inr ⟨allowed, ?_⟩
        change s.write c who (s.account who) = s.settle c who (s.account who)
        rw [State.settle, sound.no_dust, State.lose_zero]
    · cases made

theorem State.write_lose {d : ℕ} {after : AccountData} :
    (s.lose d).write c who after = (s.write c who after).lose d := by
  simp only [State.write, State.putData]
  split
  next stored =>
    have stored' : ((s.putRefs who (s.moved c who after)).refs who).Stored := stored
    rw [if_pos stored']
    rfl
  next gone =>
    have gone' : ¬ ((s.putRefs who (s.moved c who after)).refs who).Stored := gone
    rw [if_neg gone']
    rfl

section
variable {slashed beneficiary : A}

/-- The account that pays, without what it pays. -/
def AccountData.drawn (a : AccountData) (n : ℕ) : AccountData := a.having a.free (a.reserved - n)

theorem AccountData.Proper.drawn {a : AccountData} (proper : a.Proper) {n : ℕ} :
    (a.drawn n).Proper :=
  ⟨proper.upgraded, proper.free_le, (Nat.sub_le _ _).trans proper.reserved_le⟩

/-- The write to the account that pays is made, or leaves no trace. -/
theorem drawn_cases (sound : Sound c s) {n : ℕ} {p : Prop} [Decidable p] {e : DispatchError}
    {raised : AccountData} {result : Except DispatchError (AccountData × Option ℕ)}
    (run : exec (tryMutateAccount c slashed fun fromAccount _ => do
      ensure p e
      pure (raised, { fromAccount with reserved := fromAccount.reserved - n })) s =
        (result, s')) :
    (∃ e, result = .error e ∧ s' = s) ∨
      p ∧ result = .ok (raised, ((s.account slashed).drawn n).maybeDust c.existentialDeposit) ∧
        s.refusal c slashed ((s.account slashed).drawn n) = none ∧
        s' = s.write c slashed ((s.account slashed).drawn n) := by
  have upgraded := (sound.proper slashed).upgraded
  by_cases fits : p
  · rw [exec_tryMutateAccount (r := raised) (d := (s.account slashed).drawn n) upgraded
      (by rw [ensure, if_pos fits]; rfl) sound rfl (.having (.inl le_rfl) (.inl le_rfl))] at run
    cases allowed : s.refusal c slashed ((s.account slashed).drawn n) with
    | some e =>
        rw [allowed] at run
        cases run
        exact .inl ⟨e, rfl, rfl⟩
    | none =>
        rw [allowed] at run
        cases run
        exact .inr ⟨fits, rfl, rfl, rfl⟩
  · rw [exec_tryMutateAccount_error (e := e) (t := s) upgraded
      (by rw [ensure, if_neg fits]; rfl)] at run
    cases run
    exact .inl ⟨e, rfl, rfl⟩

/-- The two writes of a repatriation, and its dust. Where the second write is refused the
first one stays, and its dust is not dropped. -/
theorem transferred_cases (sound : Sound c s) (ne : slashed ≠ beneficiary) {n : ℕ}
    {p : AccountData → Prop} [DecidablePred p] {g : AccountData → AccountData} {e : DispatchError}
    {free reserved : ℕ} {result : Except DispatchError ℕ}
    (raised : g (s.account beneficiary) = (s.account beneficiary).having free reserved)
    (up : free ≤ (s.account beneficiary).free ∨ reserved ≤ (s.account beneficiary).reserved)
    (down : (s.account beneficiary).free ≤ free ∨ (s.account beneficiary).reserved ≤ reserved)
    (run : exec (do
      let (maybeDust1, maybeDust2) ← tryMutateAccount c beneficiary fun toAccount isNew => do
        ensure (¬ isNew) Error.deadAccount.dispatch
        let (toAccount, maybeDust) ← tryMutateAccount c slashed fun fromAccount _ => do
          ensure (p toAccount) e
          pure (g toAccount, { fromAccount with reserved := fromAccount.reserved - n })
        pure (maybeDust, toAccount)
      handleMaybeDust maybeDust1
      handleMaybeDust maybeDust2
      pure n) s = (result, s')) :
    (∃ e, result = .error e ∧ (s' = s ∨ s.account beneficiary ≠ default ∧
      s.refusal c slashed ((s.account slashed).drawn n) = none ∧
      s' = s.write c slashed ((s.account slashed).drawn n) ∧
      s'.account beneficiary = s.account beneficiary ∧
      s'.refusal c beneficiary ((s'.account beneficiary).having free reserved) ≠ none)) ∨
    result = .ok n ∧ s.account beneficiary ≠ default ∧ p (s.account beneficiary) ∧ ∃ s₁,
      Moved c s slashed (s.account slashed).free ((s.account slashed).reserved - n) s₁ ∧
      Moved c s₁ beneficiary free reserved s' := by
  have upgraded := (sound.proper beneficiary).upgraded
  by_cases new : s.account beneficiary = default
  · rw [exec_bind_of_error (exec_tryMutateAccount_error (e := Error.deadAccount.dispatch) (t := s)
      upgraded (by simp [ensure, new]))] at run
    cases run
    exact .inl ⟨_, rfl, .inl rfl⟩
  · rcases drawing : exec (tryMutateAccount c slashed fun fromAccount _ => do
        ensure (p (s.account beneficiary)) e
        pure (g (s.account beneficiary),
          { fromAccount with reserved := fromAccount.reserved - n })) s with ⟨drawn, s₁⟩
    rcases drawn_cases sound drawing with ⟨e, rfl, rfl⟩ | ⟨fits, rfl, first, rfl⟩
    · rw [exec_bind_of_error (exec_tryMutateAccount_error upgraded
        ((exec_ensure_bind (by simpa using new)).trans (exec_bind_of_error drawing)))] at run
      cases run
      exact .inl ⟨_, rfl, .inl rfl⟩
    · have same : (s.write c slashed ((s.account slashed).drawn n)).account beneficiary =
          s.account beneficiary := State.write_account_of_ne sound first ne.symm
      rw [exec_bind, exec_tryMutateAccount upgraded
        ((exec_ensure_bind (by simpa using new)).trans (exec_bind_of_ok drawing))
        (sound.write first (sound.proper slashed).drawn) same
        (raised ▸ .having up down), raised, ← same] at run
      cases allowed : (s.write c slashed ((s.account slashed).drawn n)).refusal c beneficiary
          (((s.write c slashed ((s.account slashed).drawn n)).account beneficiary).having
            free reserved) with
      | some e =>
          rw [allowed] at run
          cases run
          refine .inl ⟨e, rfl, .inr ⟨new, first, rfl, same, ?_⟩⟩
          rw [allowed]
          exact Option.some_ne_none e
      | none =>
          rw [allowed] at run
          dsimp only at run
          rw [exec_bind_of_ok exec_handleMaybeDust, exec_bind_of_ok exec_handleMaybeDust] at run
          cases run
          refine .inr ⟨rfl, new, fits, _, ⟨first, rfl⟩, ⟨allowed, ?_⟩⟩
          conv_rhs => rw [State.settle, State.settle, State.write_lose]
          rfl

/-- What a repatriation of `n` between two accounts does to them. -/
def Repatriated (c : Config) (s : State A I) (slashed beneficiary : A) (n : ℕ) (status : Status)
    (s' : State A I) : Prop :=
  n = 0 ∧ s' = s ∨ slashed ≠ beneficiary ∧ s.account beneficiary ≠ default ∧ ∃ s₁ free reserved,
    Moved c s slashed (s.account slashed).free ((s.account slashed).reserved - n) s₁ ∧
    Moved c s₁ beneficiary free reserved s' ∧ free ≤ u128Max ∧ reserved ≤ u128Max ∧
    (status = .free ∧ free = (s.account beneficiary).free + n ∧
        reserved = (s.account beneficiary).reserved ∨
      status = .reserved ∧ free = (s.account beneficiary).free ∧
        reserved = (s.account beneficiary).reserved + n)

/-- What a repatriation leaves that fails half way: `n` and the dust it makes of the account
are gone, and the beneficiary, which cannot take a reference for a reserve, has nothing. -/
structure Lost (c : Config) (s : State A I) (slashed beneficiary : A) (n : ℕ) (s' : State A I) :
    Prop where
  ne : slashed ≠ beneficiary
  existing : s.account beneficiary ≠ default
  full : ¬ s.Receives c beneficiary
  le : n ≤ (s.account slashed).reserved
  allowed : s.refusal c slashed ((s.account slashed).drawn n) = none
  written : s' = s.write c slashed ((s.account slashed).drawn n)

theorem Lost.collections {n : ℕ} (lost : Lost c s slashed beneficiary n s') :
    s'.locks = s.locks ∧ s'.reserves = s.reserves ∧ s'.holds = s.holds ∧
      s'.freezes = s.freezes := by
  obtain ⟨-, -, -, -, -, rfl⟩ := lost
  obtain ⟨locks, reserves, holds, freezes, -⟩ :=
    @State.write_collections _ _ _ c s slashed ((s.account slashed).drawn n)
  exact ⟨locks, reserves, holds, freezes⟩

/-- A beneficiary that is refused its reserve cannot take a reference for it. -/
theorem Lost.of_refused (sound : Sound c s) (ne : slashed ≠ beneficiary) {n reserved : ℕ}
    (existing : s.account beneficiary ≠ default) (le : n ≤ (s.account slashed).reserved)
    (allowed : s.refusal c slashed ((s.account slashed).drawn n) = none)
    (written : s' = s.write c slashed ((s.account slashed).drawn n))
    (refused : s'.refusal c beneficiary
      ((s'.account beneficiary).having (s.account beneficiary).free reserved) ≠ none) :
    Lost c s slashed beneficiary n s' := by
  refine ⟨ne, existing, fun receives => refused ?_, le, allowed, written⟩
  subst written
  have same : (s.write c slashed ((s.account slashed).drawn n)).account beneficiary =
      s.account beneficiary := State.write_account_of_ne sound allowed ne.symm
  rw [← same]
  refine refusal_of_receives (sound.write allowed (sound.proper slashed).drawn) ?_ ?_
  · rw [same]
    exact existing
  · rwa [State.receives_write_iff sound allowed ne.symm]

/-- A repatriation is two moves, or fails before or between them; to oneself it is a
release or nothing. -/
theorem doTransferReserved_cases (sound : Sound c s) {value : ℕ} {precision : Precision}
    {fortitude : Fortitude} {status : Status} {result : Except DispatchError ℕ}
    (run : exec (doTransferReserved c slashed beneficiary value precision fortitude status) s =
      (result, s')) :
    (∃ e, result = .error e ∧ (s' = s ∨
      status = .reserved ∧ ∃ n ≤ value, n ≤ s.reducibleTotalBalanceOnHold slashed fortitude ∧
        Lost c s slashed beneficiary n s')) ∨
    ∃ n, result = .ok n ∧ n ≤ value ∧ n ≤ s.reducibleTotalBalanceOnHold slashed fortitude ∧
      ((n = 0 ∨ slashed = beneficiary) ∧ s' = s ∨
        slashed = beneficiary ∧
          Moved c s slashed (min ((s.account slashed).free + n) u128Max)
            ((s.account slashed).reserved - n) s' ∨
        slashed ≠ beneficiary ∧ Repatriated c s slashed beneficiary n status s') := by
  simp only [doTransferReserved] at run
  split at run
  · cases run
    exact .inr ⟨0, rfl, Nat.zero_le _, Nat.zero_le _, .inl ⟨.inl rfl, rfl⟩⟩
  · rw [exec_get_bind] at run
    have le : precision.actual value (s.reducibleTotalBalanceOnHold slashed fortitude) ≤ value := by
      cases precision with
      | exact => exact Nat.le_refl _
      | bestEffort => exact Nat.min_le_left _ _
    generalize precision.actual value (s.reducibleTotalBalanceOnHold slashed fortitude) = m
      at le run
    by_cases enough : m ≤ s.reducibleTotalBalanceOnHold slashed fortitude
    · rw [exec_ensure_bind enough] at run
      have reserved : m ≤ (s.account slashed).reserved := enough.trans (Nat.sub_le _ _)
      split at run
      next same =>
        cases status with
        | free =>
            cases unreserve_cases slashed sound with
            | inl kept =>
                rw [exec_bind_of_ok kept.2] at run
                cases run
                exact .inr ⟨_, rfl, (Nat.sub_le _ _).trans le, (Nat.sub_le _ _).trans enough,
                  .inl ⟨.inl (Nat.sub_self _), rfl⟩⟩
            | inr moved =>
                obtain ⟨k, s₂, rfl, moved, released⟩ := moved
                rw [exec_bind_of_ok released] at run
                cases run
                rw [Nat.min_eq_right reserved] at moved ⊢
                rw [Nat.sub_self, Nat.sub_zero]
                exact .inr ⟨m, rfl, le, enough, .inr (.inl ⟨same, moved⟩)⟩
        | reserved =>
            cases run
            exact .inr ⟨m, rfl, le, enough, .inl ⟨.inr same, rfl⟩⟩
      next ne =>
        have proper := sound.proper beneficiary
        cases status with
        | free =>
            simp only [pure_bind] at run
            rcases transferred_cases sound ne (p := fun a => a.free + m ≤ u128Max)
                (g := fun a => { a with free := a.free + m }) rfl (.inr le_rfl) (.inr le_rfl) run
              with ⟨e, failed, kept | ⟨-, -, -, same, refused⟩⟩ |
                ⟨ok, existing, fits, s₁, first, second⟩
            · exact .inl ⟨e, failed, .inl kept⟩
            · exact absurd (refusal_of_release (by rw [same]; exact Nat.le_add_right _ _)
                (by rw [same])) refused
            · exact .inr ⟨m, ok, le, enough, .inr (.inr ⟨ne, .inr ⟨ne, existing, s₁, _, _, first,
                second, fits, proper.reserved_le, .inl ⟨rfl, rfl, rfl⟩⟩⟩)⟩
        | reserved =>
            simp only [pure_bind] at run
            rcases transferred_cases sound ne (p := fun a => a.reserved + m ≤ u128Max)
                (g := fun a => { a with reserved := a.reserved + m }) rfl (.inl le_rfl)
                (.inl le_rfl)
                run with
              ⟨e, failed, kept | ⟨existing, first, written, -, refused⟩⟩ |
                ⟨ok, existing, fits, s₁, first, second⟩
            · exact .inl ⟨e, failed, .inl kept⟩
            · exact .inl ⟨e, failed, .inr ⟨rfl, m, le, enough,
                .of_refused sound ne existing reserved first written refused⟩⟩
            · exact .inr ⟨m, ok, le, enough, .inr (.inr ⟨ne, .inr ⟨ne, existing, s₁, _, _, first,
                second, proper.free_le, fits, .inr ⟨rfl, rfl, rfl⟩⟩⟩)⟩
    · rw [ensure, if_neg enough] at run
      cases run
      exact .inl ⟨_, rfl, .inl rfl⟩

theorem ok_of_repatriateReserved (sound : Sound c s) (ne : slashed ≠ beneficiary) {value left : ℕ}
    {status : Status}
    (run : exec (repatriateReserved c slashed beneficiary value status) s = (.ok left, s')) :
    ∃ n, n ≤ value ∧ n ≤ s.reducibleTotalBalanceOnHold slashed .polite ∧ left = value - n ∧
      Repatriated c s slashed beneficiary n status s' := by
  simp only [repatriateReserved] at run
  obtain ⟨n, s₁, transferred, rest⟩ := bind_ok_iff.mp run
  cases rest
  rcases doTransferReserved_cases sound transferred with
    ⟨e, failed, -⟩ | ⟨n, ok, le, polite, done⟩
  · cases failed
  · cases ok
    refine ⟨n, le, polite, rfl, ?_⟩
    rcases done with ⟨none | same, kept⟩ | ⟨same, -⟩ | ⟨-, done⟩
    · exact .inl ⟨none, kept⟩
    · exact absurd same ne
    · exact absurd same ne
    · exact done

theorem error_of_repatriateReserved (sound : Sound c s) {value : ℕ} {status : Status}
    {e : DispatchError}
    (run : exec (repatriateReserved c slashed beneficiary value status) s = (.error e, s')) :
    s' = s ∨ status = .reserved ∧ ∃ n ≤ value,
      n ≤ s.reducibleTotalBalanceOnHold slashed .polite ∧ Lost c s slashed beneficiary n s' := by
  simp only [repatriateReserved] at run
  rcases bind_error_iff.mp run with failed | ⟨n, s₁, -, rest⟩
  · rcases doTransferReserved_cases sound failed with ⟨e, -, done⟩ | ⟨n, ok, -⟩
    · exact done
    · cases ok
  · cases rest

theorem Repatriated.collections {n : ℕ} {status : Status}
    (done : Repatriated c s slashed beneficiary n status s') :
    s'.locks = s.locks ∧ s'.reserves = s.reserves ∧ s'.holds = s.holds ∧
      s'.freezes = s.freezes := by
  rcases done with ⟨-, rfl⟩ | ⟨-, -, s₁, free, reserved, first, second, -⟩
  · exact ⟨rfl, rfl, rfl, rfl⟩
  · obtain ⟨locks, reserves, holds, freezes⟩ := first.collections
    obtain ⟨locks', reserves', holds', freezes'⟩ := second.collections
    exact ⟨locks'.trans locks, reserves'.trans reserves, holds'.trans holds,
      freezes'.trans freezes⟩

end

end Resonance.Balances
