import Resonance.Balances.Deposits
import Resonance.Balances.Invariants

/-!
The pallet as its callers see it.

Where only deposits and transfers matter, the pallet is modelled by what one reads of
it: three balances of each account, two counts of its references, the holds and the
issuance. That model is a view of the whole pallet. In a sound state its references are
in order, it reads the same, and a deposit, an issuance or a dropped imbalance does to
the view what it does to the pallet.
-/
namespace Resonance.Balances
open Storage StateMachine

variable {A I : Type} [DecidableEq A] {c : Config} {s s' : State A I} {who : A}

/-- What the view takes from elsewhere: the nonces of frame_system, the transfer proofs, and
the identifiers of the reasons for a hold. -/
structure Elsewhere (A I : Type) where
  nonce : A → ℕ
  transferProof : Finset (ℕ × A × A × ℕ)
  reason : RuntimeHoldReason → I

def State.view [DecidableEq I] (s : State A I) (v : Elsewhere A I) : BalancesState A where
  account a := (s.account a).toAccountData
  holds a r := s.balanceOnHold (v.reason r) a
  totalIssuance := s.totalIssuance
  transferProof := v.transferProof
  system a := ⟨v.nonce a, (s.refs a).consumers, (s.refs a).providers⟩

/-- Both succeed: `y` does to the view what `x` does to the pallet, and returns the same. -/
def Views [DecidableEq I] (v : Elsewhere A I) {R R' : Type} (x : BalancesM A I R)
    (y : Resonance.BalancesM A R') (f : R → R') (s : State A I) : Prop :=
  ∃ r s', exec x s = (.ok r, s') ∧ exec y (s.view v) = (.ok (f r), s'.view v)

section
variable [DecidableEq I] {v : Elsewhere A I}

@[simp] theorem State.view_account {a : A} :
    (s.view v).account a = (s.account a).toAccountData := rfl

@[simp] theorem State.view_system {a : A} :
    (s.view v).system a = ⟨v.nonce a, (s.refs a).consumers, (s.refs a).providers⟩ := rfl

@[simp] theorem State.view_totalIssuance : (s.view v).totalIssuance = s.totalIssuance := rfl

theorem State.view_reducibleBalance {p : Preservation} {f : Fortitude} :
    (s.view v).reducibleBalance c.existentialDeposit who p f = s.reducibleBalance c who p f := rfl

omit [DecidableEq I] in
/-- An account without any balance is not there. -/
theorem Sound.toAccountData_eq_zero_iff (sound : Sound c s) :
    (s.account who).toAccountData = ⟨0, 0, 0⟩ ↔ s.account who = default := by
  refine ⟨fun none => ?_, fun none => by rw [none]; rfl⟩
  refine (sound.alive who).resolve_right (not_not.mpr ⟨?_, congrArg (·.reserved) none⟩)
  have free : (s.account who).free = 0 := congrArg (·.free) none
  rw [free]
  exact c.existentialDeposit_pos

theorem Sound.referenced (sound : Sound c s) : (s.view v).Referenced c.existentialDeposit := by
  refine ⟨fun a => ?_, fun a needs => ?_, fun a needs => ?_⟩
  · refine (sound.alive a).imp (fun none => sound.toAccountData_eq_zero_iff.mpr none)
      fun lives => ?_
    rw [AccountData.Dies, not_and_or, Nat.not_lt] at lives
    exact lives
  · exact needs.elim (sound.provided a) fun reserved =>
      sound.supported a (sound.consumed a (.inl reserved))
  · exact (sound.consumed a needs).ne'

omit [DecidableEq I] in
/-- The references of an account whose free balance is raised. -/
theorem moved_of_raised {free : ℕ} (more : (s.account who).free ≤ free) :
    (s.moved c who ((s.account who).having free (s.account who).reserved)).consumers =
        (s.refs who).consumers ∧
      (s.moved c who ((s.account who).having free (s.account who).reserved)).providers =
        (s.refs who).providers +
          if (s.account who).free < c.existentialDeposit ∧ c.existentialDeposit ≤ free then 1
          else 0 := by
  have same : ((s.account who).having free (s.account who).reserved).Consumes ↔
    (s.account who).Consumes := Iff.rfl
  refine ⟨?_, ?_⟩
  · rw [State.moved_consumers]
    simp only [same, Nat.add_sub_cancel]
  · rw [State.moved_providers]
    by_cases does : ((s.account who).having free (s.account who).reserved).Provides
        c.existentialDeposit
    · by_cases did : (s.account who).Provides c.existentialDeposit
      · rw [if_pos does, if_pos did, if_neg fun new => Nat.not_le_of_lt new.1 did,
          Nat.add_sub_cancel, Nat.add_zero]
      · rw [if_pos does, if_neg did, if_pos ⟨Nat.lt_of_not_le did, does⟩, Nat.sub_zero]
    · have did : ¬ (s.account who).Provides c.existentialDeposit :=
        fun did => does (Nat.le_trans did more)
      rw [if_neg does, if_neg did, if_neg fun new => does new.2, Nat.sub_zero]

/-- To raise the free balance of an account that lives is to write it. -/
theorem Sound.view_settle (sound : Sound c s) {free : ℕ} (more : (s.account who).free ≤ free)
    (alive : c.existentialDeposit ≤ free ∨ (s.account who).reserved ≠ 0) :
    (s.settle c who ((s.account who).having free (s.account who).reserved)).view v =
      (s.view v).raised c.existentialDeposit who free := by
  have lives : ¬ ((s.account who).having free (s.account who).reserved).Dies
      c.existentialDeposit := by
    rintro ⟨low, none⟩
    exact alive.elim (Nat.not_le_of_lt low) fun reserved => reserved none
  have allowed := refusal_of_release (c := c) more (Nat.le_refl (s.account who).reserved)
  have account := State.write_account sound allowed
  have refs := State.write_refs sound allowed
  obtain ⟨-, -, holds, -, issuance, -⟩ := @State.write_collections _ _ _ c s who
    ((s.account who).having free (s.account who).reserved)
  rw [AccountData.kept, if_neg lives] at account
  rw [State.settle, AccountData.dust, if_neg lives, State.lose_zero]
  refine (BalancesState.mk.injEq ..).mpr ⟨?_, ?_, issuance, rfl, ?_⟩
  · funext a
    rw [account, Function.update_apply, State.view_account, Function.update_apply]
    split
    · rfl
    · rfl
  · funext a r
    rw [State.balanceOnHold, holds]
    rfl
  · funext a
    obtain ⟨consumers, providers⟩ := moved_of_raised (c := c) more
    refine Eq.trans ?_ BalancesState.raised_system.symm
    rw [refs, Function.update_apply]
    by_cases same : a = who
    · subst same
      rw [if_pos rfl, consumers, providers]
      simp only [true_and, State.view_account, State.view_system]
      split
      · rfl
      · rfl
    · rw [if_neg same, if_neg fun both => same both.1]
      rfl

theorem Sound.view_settle_self (sound : Sound c s) (existing : s.account who ≠ default) :
    (s.settle c who (s.account who)).view v = s.view v := by
  have lives := (sound.alive who).resolve_left existing
  have alive : c.existentialDeposit ≤ (s.account who).free ∨ (s.account who).reserved ≠ 0 := by
    rw [AccountData.Dies, not_and_or, Nat.not_lt] at lives
    exact lives
  exact (sound.view_settle le_rfl alive).trans BalancesState.raised_self

/-- A deposit credits the view of an account as it credits the account. -/
theorem Currency.views_depositCreating (sound : Sound c s) {value : ℕ} (fits : value ≤ u128Max) :
    Views v (depositCreating c who value)
      (Resonance.Currency.depositCreating c.existentialDeposit who value) Imbalance.amount s := by
  rw [Views, Resonance.Currency.exec_depositCreating sound.referenced fits]
  have proper := sound.proper who
  simp only [depositCreating]
  split
  next zero =>
    refine ⟨.zero, s, rfl, ?_⟩
    subst zero
    split
    · exact congrArg _ BalancesState.raised_self
    · rfl
  next =>
    rw [exec_attempt_bind]
    by_cases known : c.existentialDeposit ≤ value ∨ s.account who ≠ default
    · by_cases room : (s.account who).free + value ≤ u128Max
      · have credits : (s.view v).Credits c.existentialDeposit who value :=
          ⟨known.imp_right fun existing none => existing (sound.toAccountData_eq_zero_iff.mp none),
            room⟩
        have alive := credits.alive sound.referenced
        have more : (s.account who).free ≤ (s.account who).free + value := Nat.le_add_right _ _
        rw [if_pos credits, exec_tryMutateAccountHandlingDust (r := ⟨value⟩)
          (d := (s.account who).having ((s.account who).free + value) (s.account who).reserved)
          sound (by simp_all [ensure]; rfl) (.having (.inr le_rfl) (.inr le_rfl)),
          refusal_of_release more le_rfl]
        exact ⟨_, _, rfl, by rw [sound.view_settle more alive]; rfl⟩
      · have existing : s.account who ≠ default := by
          intro none
          rw [none] at room
          exact room ((Nat.zero_add value).le.trans fits)
        rw [if_neg fun credits => room credits.2, exec_tryMutateAccountHandlingDust (r := .zero)
          (d := s.account who) sound (by simp_all [ensure])
          (.having (.inl le_rfl) (.inl le_rfl))]
        have allowed : s.refusal c who (s.account who) = none := refusal_of_release le_rfl le_rfl
        rw [allowed]
        exact ⟨_, _, rfl, by rw [sound.view_settle_self existing]; rfl⟩
    · rw [exec_tryMutateAccountHandlingDust_error (t := s) (e := Error.existentialDeposit.dispatch)
        proper.upgraded (by rw [ensure, if_neg (by simpa using known)]; rfl)]
      refine ⟨.zero, s, rfl, if_neg fun credits => known ?_⟩
      exact credits.1.imp_right fun existing none =>
        existing (sound.toAccountData_eq_zero_iff.mpr none)

theorem Currency.views_issue {amount : ℕ} :
    Views v (issue amount) (Resonance.Currency.issue amount) Imbalance.amount s := by
  simp only [issue, Resonance.Currency.issue, Views]
  split
  · exact ⟨.zero, s, rfl, rfl⟩
  · rw [exec_get_bind, exec_get_bind, State.view_totalIssuance]
    split
    · exact ⟨_, _, rfl, rfl⟩
    · exact ⟨_, _, rfl, rfl⟩

theorem views_dropPositive {i : PositiveImbalance} :
    Views v i.drop (Resonance.Currency.dropPositive i.amount) id s := by
  simp only [PositiveImbalance.drop, Resonance.Currency.dropPositive, Views]
  by_cases none : i.amount = 0
  · rw [if_neg (not_not.mpr none), if_pos none]
    exact ⟨_, _, rfl, rfl⟩
  · rw [if_pos none, if_neg none]
    exact ⟨_, _, rfl, rfl⟩

theorem views_dropNegative {i : NegativeImbalance} :
    Views v i.drop (Resonance.Currency.dropNegative i.amount) id s := by
  simp only [NegativeImbalance.drop, Resonance.Currency.dropNegative, Views]
  by_cases none : i.amount = 0
  · rw [if_neg (not_not.mpr none), if_pos none]
    exact ⟨_, _, rfl, rfl⟩
  · rw [if_pos none, if_neg none]
    exact ⟨_, _, rfl, rfl⟩

theorem State.view_putRefs {r : AccountRefs} :
    (s.putRefs who r).view v = { s.view v with
      system := Function.update (s.view v).system who
        ⟨v.nonce who, r.consumers, r.providers⟩ } := by
  refine (BalancesState.mk.injEq ..).mpr ⟨rfl, rfl, rfl, rfl, ?_⟩
  funext a
  rw [State.putRefs_refs, Function.update_apply, Function.update_apply]
  split
  next same => rw [same]
  next => rfl

/-- The counts of the view are those of frame_system. -/
theorem views_incProviders : Views v (incProviders c who)
    (modify (BalancesState.incProviders who)) id s := by
  refine ⟨⟨⟩, _, exec_incProviders, ?_⟩
  rw [exec_modify, State.view_putRefs]
  rfl

theorem views_incConsumers (provided : 0 < (s.refs who).providers)
    (room : (s.refs who).consumers < c.system.maxConsumers) :
    Views v (incConsumers c who) (BalancesState.incConsumers who) id s := by
  have admitted : refusedConsumer c false true (s.refs who) = none :=
    refusedConsumer_eq_none_iff.mpr fun _ _ => ⟨provided, room⟩
  refine ⟨⟨⟩, s.putRefs who (movedConsumers false true (s.refs who)), ?_, ?_⟩
  · rw [exec_incConsumers, admitted]
  · rw [BalancesState.incConsumers, exec_get_bind]
    refine (exec_ensure_bind provided).trans ?_
    rw [State.view_putRefs]
    rfl

end

section
variable [LinearOrder I] {w : World A I}

/-- In every state a run reaches, the references of the view are in order, it reads the same,
and what its model computes is what the pallet computes. -/
theorem World.views (reachable : Reachable (World.machine c) w) (v : Elsewhere A I) (who : A) :
    (w.state.view v).Referenced c.existentialDeposit ∧
      (∀ p f, (w.state.view v).reducibleBalance c.existentialDeposit who p f =
        w.state.reducibleBalance c who p f) ∧
      (∀ value ≤ u128Max, Views v (Currency.depositCreating c who value)
        (Resonance.Currency.depositCreating c.existentialDeposit who value) Imbalance.amount
        w.state) ∧
      (∀ amount, Views v (Currency.issue amount) (Resonance.Currency.issue amount)
        Imbalance.amount w.state) ∧
      (∀ i : PositiveImbalance, Views v i.drop (Resonance.Currency.dropPositive i.amount) id
        w.state) ∧
      (∀ i : NegativeImbalance, Views v i.drop (Resonance.Currency.dropNegative i.amount) id
        w.state) ∧
      Views v (incProviders c who) (modify (BalancesState.incProviders who)) id w.state ∧
      (0 < (w.state.refs who).providers → (w.state.refs who).consumers < c.system.maxConsumers →
        Views v (incConsumers c who) (BalancesState.incConsumers who) id w.state) := by
  have sound := (World.Kept.of_reachable reachable).sound
  exact ⟨sound.referenced, fun _ _ => State.view_reducibleBalance,
    fun _ fits => Currency.views_depositCreating sound fits, fun _ => Currency.views_issue,
    fun _ => views_dropPositive, fun _ => views_dropNegative, views_incProviders,
    views_incConsumers⟩

theorem World.views_locked :
    let w₁ := World.endowed.called .small (.setLock 7 1 8 1)
    let v : Elsewhere ℕ ℕ := ⟨fun _ => 0, ∅, fun _ => 0⟩
    Views v (Currency.depositCreating .small 1 6) (Resonance.Currency.depositCreating 5 1 6)
      Imbalance.amount w₁.state := by
  intro w₁ v
  have reachable : Reachable (World.machine .small) w₁ :=
    (Reachable.start World.initial_endowed).next (l := .call (.setLock 7 1 8 1)) (.call trivial)
  exact (World.views reachable v 1).2.2.1 6 (by decide)

end
end Resonance.Balances
