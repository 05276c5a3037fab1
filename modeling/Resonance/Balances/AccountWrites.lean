import Resonance.Balances.AccountStore

/-!
What a write to an account comes to.

In a sound state, where the references are in order and every account is from after
the upgrade, `try_mutate_account` either refuses a change and leaves everything as it
was, or makes it: the account gets its new data, loses what is below the existential
deposit, and its references follow.
-/
namespace Resonance.Balances
open Storage

variable {A I : Type} [DecidableEq A] {c : Config} {s : State A I} {who a : A}

@[simp] theorem State.putRefs_refs {r : AccountRefs} :
    (s.putRefs who r).refs = Function.update s.refs who r := rfl

@[simp] theorem State.putRefs_putRefs {r r' : AccountRefs} :
    (s.putRefs who r).putRefs who r' = s.putRefs who r' := by
  simp [State.putRefs]

@[simp] theorem State.putRefs_self : s.putRefs who (s.refs who) = s := by
  simp [State.putRefs]

/-- The consumers after the account consumed (`q`) and now does (`v`). -/
def movedConsumers (q v : Bool) (r : AccountRefs) : AccountRefs :=
  { r with consumers := r.consumers + v.toNat - q.toNat }

def movedProviders (p u : Bool) (r : AccountRefs) : AccountRefs :=
  { r with providers := r.providers + u.toNat - p.toNat }

def refusedConsumer (c : Config) (q v : Bool) (r : AccountRefs) : Option DispatchError :=
  if !q && v then
    if r.providers = 0 then some .noProviders
    else if r.consumers < c.system.maxConsumers then none
    else some .tooManyConsumers
  else none

@[simp] theorem movedConsumers_self {q : Bool} {r : AccountRefs} : movedConsumers q q r = r := by
  simp [movedConsumers]

@[simp] theorem movedProviders_self {p : Bool} {r : AccountRefs} : movedProviders p p r = r := by
  simp [movedProviders]

theorem exec_incConsumers :
    exec (incConsumers c who) s =
      match refusedConsumer c false true (s.refs who) with
      | none => (.ok ⟨⟩, s.putRefs who (movedConsumers false true (s.refs who)))
      | some e => (.error e, s) := by
  simp only [incConsumers, refusedConsumer, exec_get_bind, c.system.incConsumers_eq, Bool.not_false,
    Bool.and_self, if_true]
  split
  · rfl
  · split
    · rfl
    · rfl

theorem exec_decConsumers (h : 0 < (s.refs who).consumers) :
    exec (decConsumers c who) s =
      (.ok ⟨⟩, s.putRefs who (movedConsumers true false (s.refs who))) := by
  rw [decConsumers, exec_modify, c.system.decConsumers_eq _ h]
  rfl

theorem exec_incProviders :
    exec (incProviders c who) s =
      (.ok ⟨⟩, s.putRefs who (movedProviders false true (s.refs who))) := by
  rw [incProviders, exec_modify, c.system.incProviders_eq]
  rfl

theorem exec_decProviders (h : 0 < (s.refs who).providers) :
    exec (decProviders c who) s =
      if (s.refs who).CanDecProvider then
        (.ok ⟨⟩, s.putRefs who (movedProviders true false (s.refs who)))
      else (.error .consumerRemaining, s) := by
  simp only [decProviders, exec_get_bind, c.system.decProviders_eq _ h]
  split
  · rfl
  · rfl

theorem exec_updateConsumers {q v : Bool} (consumed : q → 0 < (s.refs who).consumers) :
    exec (updateConsumers c who q v) s =
      match refusedConsumer c q v (s.refs who) with
      | none => (.ok ⟨⟩, s.putRefs who (movedConsumers q v (s.refs who)))
      | some e => (.error e, s) := by
  cases q with
  | false =>
      cases v with
      | false => simp [updateConsumers, refusedConsumer]
      | true =>
          simp only [updateConsumers, Bool.false_and, Bool.not_false, Bool.and_self,
            Bool.false_eq_true, if_false, if_true, Bool.true_and, exec_bind, exec_incConsumers]
          cases refusedConsumer c false true (s.refs who) with
          | none => simp [movedConsumers]
          | some e => rfl
  | true =>
      have some := consumed rfl
      cases v with
      | false => simp [updateConsumers, exec_bind, exec_decConsumers some, refusedConsumer]
      | true => simp [updateConsumers, refusedConsumer, some.ne']

/-- The provider goes, or the consumers go back to what they were. -/
theorem exec_releaseProvider {q v : Bool} {r : AccountRefs}
    (now : s.refs who = movedConsumers q v r) (kept : ¬ (q ∧ ¬ v)) (provided : 0 < r.providers) :
    exec (releaseProvider c who q v) s =
      if (movedConsumers q v r).CanDecProvider then
        (.ok ⟨⟩, s.putRefs who (movedProviders true false (movedConsumers q v r)))
      else (.error .consumerRemaining, s.putRefs who r) := by
  have provided' : 0 < (s.refs who).providers := by
    rw [now]
    exact provided
  simp only [releaseProvider]
  rw [exec_attempt_bind, exec_decProviders provided', now]
  by_cases free : (movedConsumers q v r).CanDecProvider
  · rw [if_pos free, if_pos free]
    rfl
  · rw [if_neg free, if_neg free]
    cases q with
    | false =>
        cases v with
        | false =>
            have same : s.putRefs who r = s := by
              rw [← movedConsumers_self (q := false) (r := r), ← now, State.putRefs_self]
            simp [same]
        | true =>
            have some : 0 < (s.refs who).consumers := by
              rw [now]
              exact Nat.succ_pos _
            simp [exec_bind, exec_decConsumers some, now, movedConsumers]
    | true =>
        cases v with
        | false => exact absurd ⟨rfl, Bool.false_ne_true⟩ kept
        | true =>
            have same : s.putRefs who r = s := by
              rw [← movedConsumers_self (q := true) (r := r), ← now, State.putRefs_self]
            simp [same]

/-- Why the references do not follow a change. -/
def refusedReferences (c : Config) (p q u v : Bool) (r : AccountRefs) : Option DispatchError :=
  match refusedConsumer c q v r with
  | some e => some e
  | none =>
    if p && !u && ¬ (movedConsumers q v r).CanDecProvider then some .consumerRemaining else none

def movedReferences (p q u v : Bool) (r : AccountRefs) : AccountRefs :=
  movedProviders p u (movedConsumers q v r)

theorem refusedConsumer_eq_none_iff {q v : Bool} {r : AccountRefs} :
    refusedConsumer c q v r = none ↔
      (¬ q → v → 0 < r.providers ∧ r.consumers < c.system.maxConsumers) := by
  cases q with
  | true => simp [refusedConsumer]
  | false =>
      cases v with
      | false => simp [refusedConsumer]
      | true =>
          by_cases none : r.providers = 0
          · simp [refusedConsumer, none]
          · simp [refusedConsumer, none, Nat.pos_of_ne_zero none]

theorem refusedReferences_eq_none_iff {p q u v : Bool} {r : AccountRefs} :
    refusedReferences c p q u v r = none ↔ refusedConsumer c q v r = none ∧
      (p → ¬ u → (movedConsumers q v r).CanDecProvider) := by
  simp only [refusedReferences]
  cases refusedConsumer c q v r with
  | some e => simp
  | none => simp

/-- On references in order, where no provider is gained together with a consumer nor
lost together with one, either all references follow or none does. -/
theorem exec_updateReferences {p q u v : Bool} (provided : p → 0 < (s.refs who).providers)
    (consumed : q → 0 < (s.refs who).consumers) (start : ¬ (¬ p ∧ u ∧ ¬ q ∧ v))
    (stop : ¬ (p ∧ ¬ u ∧ q ∧ ¬ v)) :
    exec (updateReferences c who p q u v) s =
      match refusedReferences c p q u v (s.refs who) with
      | none => (.ok ⟨⟩, s.putRefs who (movedReferences p q u v (s.refs who)))
      | some e => (.error e, s) := by
  have consumers := exec_updateConsumers (c := c) (s := s) (v := v) consumed
  cases p with
  | false =>
      cases u with
      | false =>
          simp only [updateReferences, Bool.not_false, Bool.and_false, Bool.false_eq_true, if_false,
            exec_bind, exec_pure, consumers, refusedReferences, Bool.false_and, movedReferences,
            movedProviders_self]
          cases refusedConsumer c q v (s.refs who) with
          | none => rfl
          | some e => rfl
      | true =>
          have settled : refusedConsumer c q v = fun _ => none := by
            funext r
            refine if_neg ?_
            simpa using start
          have raised : exec (updateConsumers c who q v)
              (s.putRefs who (movedProviders false true (s.refs who))) = _ :=
            exec_updateConsumers (by simpa [movedProviders] using consumed)
          simp only [settled] at raised
          simp only [updateReferences, Bool.not_false, Bool.and_self, if_true, exec_bind, raised,
            exec_incProviders, refusedReferences, settled, Bool.false_and, Bool.false_eq_true,
            if_false, exec_pure, State.putRefs_putRefs, State.putRefs_refs, Function.update_self]
          rfl
  | true =>
      cases u with
      | false =>
          simp only [updateReferences, Bool.not_true, Bool.false_eq_true, if_false,
            exec_bind, consumers, refusedReferences, Bool.not_false, Bool.and_self, if_true,
            Bool.true_and]
          cases refusedConsumer c q v (s.refs who) with
          | some e => rfl
          | none =>
              have released : exec (releaseProvider c who q v)
                  (s.putRefs who (movedConsumers q v (s.refs who))) = _ :=
                exec_releaseProvider (r := s.refs who) (by simp) (by simpa using stop)
                  (provided rfl)
              simp only [released, State.putRefs_putRefs, State.putRefs_self]
              by_cases free : (movedConsumers q v (s.refs who)).CanDecProvider
              · simp [free, movedReferences]
              · simp [free]
      | true =>
          simp only [updateReferences, Bool.not_true, Bool.false_and, Bool.false_eq_true, if_false,
            exec_bind, exec_pure, consumers, refusedReferences, Bool.and_false, movedReferences,
            movedProviders_self]
          cases refusedConsumer c q v (s.refs who) with
          | none => rfl
          | some e => rfl

/-- After the upgrade, with balances of the balance type. -/
structure AccountData.Proper (a : AccountData) : Prop where
  upgraded : a.flags.isNewLogic
  free_le : a.free ≤ u128Max
  reserved_le : a.reserved ≤ u128Max

theorem AccountData.Proper.of_default : (default : AccountData).Proper :=
  ⟨by decide, Nat.zero_le _, Nat.zero_le _⟩

/-- References are in order, and no account is kept that should have died. -/
structure Sound (c : Config) (s : State A I) : Prop where
  proper : ∀ a, (s.account a).Proper
  alive : ∀ a, s.account a = default ∨ ¬ (s.account a).Dies c.existentialDeposit
  provided : ∀ a, (s.account a).Provides c.existentialDeposit → 0 < (s.refs a).providers
  consumed : ∀ a, (s.account a).Consumes → 0 < (s.refs a).consumers
  supported : ∀ a, 0 < (s.refs a).consumers → 0 < (s.refs a).providers

/-- No provider is gained together with a consumer nor lost together with one. -/
structure AccountData.Steady (ed : ℕ) (before after : AccountData) : Prop where
  start : ¬ (¬ before.Provides ed ∧ after.Provides ed ∧ ¬ before.Consumes ∧ after.Consumes)
  stop : ¬ (before.Provides ed ∧ ¬ after.Provides ed ∧ before.Consumes ∧ ¬ after.Consumes)

namespace State

def refusal (c : Config) (s : State A I) (who : A) (after : AccountData) : Option DispatchError :=
  refusedReferences c ((s.account who).Provides c.existentialDeposit) (s.account who).Consumes
    (after.Provides c.existentialDeposit) after.Consumes (s.refs who)

def moved (c : Config) (s : State A I) (who : A) (after : AccountData) : AccountRefs :=
  movedReferences ((s.account who).Provides c.existentialDeposit) (s.account who).Consumes
    (after.Provides c.existentialDeposit) after.Consumes (s.refs who)

/-- The account as changed, or without it if it dies. -/
def write (c : Config) (s : State A I) (who : A) (after : AccountData) : State A I :=
  (s.putRefs who (s.moved c who after)).putData who
    (if after.Dies c.existentialDeposit then none else some after)

end State

def AccountData.maybeDust (ed : ℕ) (a : AccountData) : Option ℕ :=
  if a.Dies ed then if a.free = 0 then none else some a.free else none

theorem AccountData.not_consumes_default : ¬ (default : AccountData).Consumes := by decide

theorem exec_ensureUpgraded (upgraded : (s.account who).flags.isNewLogic) :
    exec (ensureUpgraded c who) s = (.ok false, s) := by
  simp only [ensureUpgraded, exec_get_bind, if_pos upgraded, exec_pure]

section
variable {R : Type} {f : AccountData → (isNew : Bool) → BalancesM A I (R × AccountData)}

theorem exec_tryMutateAccount_error {t : State A I} {e : DispatchError}
    (upgraded : (s.account who).flags.isNewLogic)
    (failed : exec (f (s.account who) (s.account who = default)) s = (.error e, t)) :
    exec (tryMutateAccount c who f) s = (.error e, t) := by
  simp only [tryMutateAccount, tryMutateExists]
  rw [exec_bind_of_ok (exec_ensureUpgraded upgraded), exec_get_bind]
  refine exec_bind_of_error (exec_bind_of_error ?_)
  split
  · simp_all
  · simp_all

/-- What a change of an account comes to. The closure may change other accounts. -/
theorem exec_tryMutateAccount {r : R} {d : AccountData} {s₁ : State A I}
    (upgraded : (s.account who).flags.isNewLogic)
    (ran : exec (f (s.account who) (s.account who = default)) s = (.ok (r, d), s₁))
    (sound : Sound c s₁) (same : s₁.account who = s.account who)
    (steady : (s.account who).Steady c.existentialDeposit d) :
    exec (tryMutateAccount c who f) s =
      match s₁.refusal c who d with
      | none => (.ok (r, d.maybeDust c.existentialDeposit), s₁.write c who d)
      | some e => (.error e, s₁) := by
  have references := exec_updateReferences (c := c) (s := s₁)
    (p := (s₁.account who).Provides c.existentialDeposit) (q := (s₁.account who).Consumes)
    (u := d.Provides c.existentialDeposit) (v := d.Consumes)
    (by simpa using sound.provided who) (by simpa using sound.consumed who)
    (by simpa [same] using steady.start) (by simpa [same] using steady.stop)
  have isNew : (if s.account who = default then none else some (s.account who)).isNone =
      decide (s.account who = default) := by
    split
    · simp_all
    · simp_all
  have account : (if s.account who = default then none else some (s.account who)).getD default =
      s.account who := by
    split
    · simp_all
    · rfl
  have didConsume : (!decide (s.account who = default) && decide (s.account who).Consumes) =
      decide (s.account who).Consumes := by
    by_cases new : s.account who = default
    · simp [new, AccountData.not_consumes_default]
    · simp [new]
  simp only [tryMutateAccount, tryMutateExists]
  rw [exec_bind_of_ok (exec_ensureUpgraded upgraded), exec_get_bind]
  simp only [isNew, account, didConsume]
  rw [exec_bind, exec_bind_of_ok ran, ← same, exec_bind, references]
  simp only [State.refusal]
  cases refusedReferences c ((s₁.account who).Provides c.existentialDeposit)
      (s₁.account who).Consumes (d.Provides c.existentialDeposit) d.Consumes
      (s₁.refs who) with
  | some e => rfl
  | none =>
      simp only [exec_ite, exec_pure, State.write, State.moved, AccountData.maybeDust]
      by_cases dies : d.Dies c.existentialDeposit
      · have dies' : d.free < c.existentialDeposit ∧ d.reserved = 0 := dies
        simp only [dies, dies', and_self, if_true]
        rfl
      · have dies' : ¬ (d.free < c.existentialDeposit ∧ d.reserved = 0) := dies
        simp only [dies, dies', if_false]
        rfl

/-- A change of one account alone is made or not. -/
theorem atomic_tryMutateAccount {r : R} {d : AccountData} (sound : Sound c s)
    (ran : exec (f (s.account who) (s.account who = default)) s = (.ok (r, d), s))
    (steady : (s.account who).Steady c.existentialDeposit d) :
    Atomic (tryMutateAccount c who f) s := by
  intro e s' failed
  rw [exec_tryMutateAccount (sound.proper who).upgraded ran sound rfl steady] at failed
  cases allowed : s.refusal c who d with
  | none =>
      rw [allowed] at failed
      cases failed
  | some e =>
      rw [allowed] at failed
      cases failed
      rfl

theorem ok_of_tryMutateAccount {s' : State A I} {r : R} {maybeDust : Option ℕ}
    (upgraded : (s.account who).flags.isNewLogic)
    (ran : ∀ r d s₁, exec (f (s.account who) (s.account who = default)) s =
      (.ok (r, d), s₁) → Sound c s₁ ∧ s₁.account who = s.account who ∧
        (s.account who).Steady c.existentialDeposit d)
    (run : exec (tryMutateAccount c who f) s = (.ok (r, maybeDust), s')) :
    ∃ d s₁, exec (f (s.account who) (s.account who = default)) s = (.ok (r, d), s₁) ∧
      s₁.refusal c who d = none ∧ s' = s₁.write c who d ∧
      maybeDust = d.maybeDust c.existentialDeposit := by
  rcases closure : exec (f (s.account who) (s.account who = default)) s with ⟨e | ⟨r₁, d⟩, s₁⟩
  · rw [exec_tryMutateAccount_error upgraded closure] at run
    cases run
  · obtain ⟨sound, same, steady⟩ := ran r₁ d s₁ closure
    rw [exec_tryMutateAccount upgraded closure sound same steady] at run
    cases allowed : s₁.refusal c who d with
    | some e =>
        rw [allowed] at run
        cases run
    | none =>
        rw [allowed] at run
        cases run
        exact ⟨d, s₁, rfl, allowed, rfl, rfl⟩

end

namespace State
variable {d : AccountData}

theorem refusal_eq_none_iff :
    s.refusal c who d = none ↔
      (¬ (s.account who).Consumes → d.Consumes →
        0 < (s.refs who).providers ∧ (s.refs who).consumers < c.system.maxConsumers) ∧
      ((s.account who).Provides c.existentialDeposit → ¬ d.Provides c.existentialDeposit →
        (s.moved c who d).consumers = 0 ∨ 1 < (s.refs who).providers) := by
  rw [refusal, refusedReferences_eq_none_iff, refusedConsumer_eq_none_iff]
  simp only [decide_eq_true_eq]
  rfl

theorem toNat_decide (p : Prop) [Decidable p] : (decide p).toNat = if p then 1 else 0 :=
  Bool.cond_decide p 1 0

theorem moved_providers : (s.moved c who d).providers = (s.refs who).providers +
    (if d.Provides c.existentialDeposit then 1 else 0) -
      (if (s.account who).Provides c.existentialDeposit then 1 else 0) := by
  simp [moved, movedReferences, movedProviders, movedConsumers, toNat_decide]

theorem moved_consumers : (s.moved c who d).consumers = (s.refs who).consumers +
    (if d.Consumes then 1 else 0) - (if (s.account who).Consumes then 1 else 0) := by
  simp [moved, movedReferences, movedProviders, movedConsumers, toNat_decide]

theorem moved_provided (sound : Sound c s) (provides : d.Provides c.existentialDeposit) :
    0 < (s.moved c who d).providers := by
  rw [moved_providers, if_pos provides]
  split
  next did =>
    have := sound.provided who did
    omega
  next => omega

theorem moved_consumed (sound : Sound c s) (consumes : d.Consumes) :
    0 < (s.moved c who d).consumers := by
  rw [moved_consumers, if_pos consumes]
  split
  next did =>
    have := sound.consumed who did
    omega
  next => omega

/-- A consumer keeps a provider. -/
theorem moved_supported (sound : Sound c s) (allowed : s.refusal c who after = none)
    (consumes : 0 < (s.moved c who after).consumers) :
    0 < (s.moved c who after).providers := by
  obtain ⟨start, stop⟩ := refusal_eq_none_iff.mp allowed
  by_cases provides : after.Provides c.existentialDeposit
  · exact moved_provided sound provides
  · have supported := sound.supported who
    have counted := @moved_consumers _ _ _ c s who after
    rw [moved_providers, if_neg provides]
    split
    next did =>
      have := stop did provides
      omega
    next =>
      by_cases did : (s.account who).Consumes
      · have := supported (sound.consumed who did)
        omega
      · by_cases does : after.Consumes
        · have := (start did does).1
          omega
        · rw [if_neg did, if_neg does] at counted
          have := supported (by omega)
          omega

@[simp] theorem putRefs_account {r : AccountRefs} : (s.putRefs who r).account = s.account := rfl

theorem putData_account {d : Option AccountData} (lost : ¬ (s.refs who).Stored → d = none) :
    (s.putData who d).account = Function.update s.account who (d.getD default) := by
  funext x
  rw [Function.update_apply, putData]
  split
  · simp only [account, StorageMap.lookup_insert_eq_ite]
    split
    · rfl
    · rfl
  next removed =>
    rw [lost removed]
    simp only [account, StorageMap.lookup_erase_eq_ite]
    split
    · rfl
    · rfl

theorem weight_eq :
    StorageMap.weight (fun _ => AccountData.total) s.data who = (s.account who).total := by
  simp only [StorageMap.weight, account]
  cases s.data.lookup who with
  | none => rfl
  | some a => rfl

theorem account_le_balances : (s.account who).total ≤ s.balances := by
  rw [← weight_eq]
  exact StorageMap.weight_le_total (fun _ => AccountData.total) s.data who

theorem putData_balances {d : Option AccountData} (lost : ¬ (s.refs who).Stored → d = none) :
    (s.putData who d).balances + (s.account who).total =
      s.balances + (d.getD default).total := by
  rw [← weight_eq, putData]
  split
  · exact StorageMap.total_insert _ _ _ _
  next removed =>
    rw [lost removed]
    exact StorageMap.total_erase _ _ _

/-- A change that the references follow leaves the account stored if it lives. -/
theorem stored_of_lives (sound : Sound c s) (allowed : s.refusal c who after = none)
    (lives : ¬ after.Dies c.existentialDeposit) : (s.moved c who after).Stored := by
  by_cases provides : after.Provides c.existentialDeposit
  · exact .inl (moved_provided sound provides)
  · have reserved : after.reserved ≠ 0 := fun none => lives ⟨Nat.lt_of_not_le provides, none⟩
    exact .inl (moved_supported sound allowed (moved_consumed sound (.inl reserved)))

theorem write_account (sound : Sound c s) (allowed : s.refusal c who after = none) :
    (s.write c who after).account =
      Function.update s.account who (after.kept c.existentialDeposit) := by
  rw [write, putData_account]
  · rw [putRefs_account, AccountData.kept]
    split
    · rfl
    · rfl
  · intro removed
    rw [putRefs_refs, Function.update_self] at removed
    exact if_pos (not_not.mp fun lives => removed (stored_of_lives sound allowed lives))

theorem write_balances (sound : Sound c s) (allowed : s.refusal c who after = none) :
    (s.write c who after).balances + (s.account who).total =
      s.balances + (after.kept c.existentialDeposit).total := by
  have lost : ¬ ((s.putRefs who (s.moved c who after)).refs who).Stored →
      (if after.Dies c.existentialDeposit then none else some after) = none := by
    intro removed
    rw [putRefs_refs, Function.update_self] at removed
    exact if_pos (not_not.mp fun lives => removed (stored_of_lives sound allowed lives))
  have moved := putData_balances lost
  rw [write]
  refine moved.trans ?_
  rw [AccountData.kept]
  split
  · rfl
  · rfl

/-- An account that is removed has no references left. -/
theorem write_refs (sound : Sound c s) (allowed : s.refusal c who after = none) :
    (s.write c who after).refs = Function.update s.refs who (s.moved c who after) := by
  rw [write, putData, putRefs_refs, Function.update_self]
  split
  · rfl
  next removed =>
    have none : s.moved c who after = default := by
      have supported := moved_supported sound allowed
      simp only [AccountRefs.Stored, not_or, Nat.not_lt, Nat.le_zero] at removed
      have free : (s.moved c who after).consumers = 0 := by omega
      rcases h : s.moved c who after with ⟨consumers, providers, sufficients⟩
      rw [h] at removed free
      cases removed.1
      cases removed.2
      cases free
      rfl
    simp [none]

theorem write_account_of_ne (sound : Sound c s) (allowed : s.refusal c who after = none)
    (other : a ≠ who) : (s.write c who after).account a = s.account a := by
  rw [write_account sound allowed, Function.update_of_ne other]

theorem write_refs_of_ne (sound : Sound c s) (allowed : s.refusal c who after = none)
    (other : a ≠ who) : (s.write c who after).refs a = s.refs a := by
  rw [write_refs sound allowed, Function.update_of_ne other]

theorem write_collections : (s.write c who after).locks = s.locks ∧
    (s.write c who after).reserves = s.reserves ∧ (s.write c who after).holds = s.holds ∧
    (s.write c who after).freezes = s.freezes ∧
    (s.write c who after).totalIssuance = s.totalIssuance ∧
    (s.write c who after).inactiveIssuance = s.inactiveIssuance := by
  simp only [write, putData]
  split
  · simp [putRefs]
  · simp [putRefs]

/-- Balance that is gone for good. -/
def lose (s : State A I) (dust : ℕ) : State A I :=
  { s with totalIssuance := s.totalIssuance - dust }

@[simp] theorem lose_account {d : ℕ} : (s.lose d).account = s.account := rfl

omit [DecidableEq A] in
@[simp] theorem lose_refs {d : ℕ} : (s.lose d).refs = s.refs := rfl

omit [DecidableEq A] in
@[simp] theorem lose_balances {d : ℕ} : (s.lose d).balances = s.balances := rfl

omit [DecidableEq A] in
@[simp] theorem lose_zero : s.lose 0 = s := rfl

/-- The account as changed, its dust dropped. -/
def settle (c : Config) (s : State A I) (who : A) (after : AccountData) : State A I :=
  (s.write c who after).lose (after.dust c.existentialDeposit)

end State

omit [DecidableEq A] in
theorem exec_handleMaybeDust {after : AccountData} {ed : ℕ} :
    exec (handleMaybeDust (after.maybeDust ed)) s = (.ok ⟨⟩, s.lose (after.dust ed)) := by
  simp only [AccountData.maybeDust, AccountData.dust]
  split
  · by_cases none : after.free = 0
    · simp only [none, if_true]
      rfl
    · simp only [none, if_false]
      rfl
  · rfl

section
variable {R : Type} {f : AccountData → (isNew : Bool) → BalancesM A I (R × AccountData)}

theorem exec_tryMutateAccountHandlingDust_error {t : State A I} {e : DispatchError}
    (upgraded : (s.account who).flags.isNewLogic)
    (failed : exec (f (s.account who) (s.account who = default)) s = (.error e, t)) :
    exec (tryMutateAccountHandlingDust c who f) s = (.error e, t) := by
  simp only [tryMutateAccountHandlingDust]
  rw [exec_bind_of_error (exec_tryMutateAccount_error upgraded failed)]

theorem exec_tryMutateAccountHandlingDust {r : R} {d : AccountData} (sound : Sound c s)
    (ran : exec (f (s.account who) (s.account who = default)) s = (.ok (r, d), s))
    (steady : (s.account who).Steady c.existentialDeposit d) :
    exec (tryMutateAccountHandlingDust c who f) s =
      match s.refusal c who d with
      | none => (.ok r, s.settle c who d)
      | some e => (.error e, s) := by
  have ran := exec_tryMutateAccount (sound.proper who).upgraded ran sound rfl steady
  simp only [tryMutateAccountHandlingDust]
  rw [exec_bind, ran]
  cases s.refusal c who d with
  | some e => rfl
  | none =>
      dsimp only
      rw [exec_bind_of_ok exec_handleMaybeDust]
      rfl

end

theorem exec_mutateAccountHandlingDust {R : Type} {f : AccountData → R × AccountData}
    (sound : Sound c s)
    (steady : (s.account who).Steady c.existentialDeposit (f (s.account who)).2) :
    exec (mutateAccountHandlingDust c who f) s =
      match s.refusal c who (f (s.account who)).2 with
      | none => (.ok (f (s.account who)).1, s.settle c who (f (s.account who)).2)
      | some e => (.error e, s) :=
  exec_tryMutateAccountHandlingDust (r := (f (s.account who)).1) (f := fun a _ => pure (f a)) sound
    rfl steady

/-- Soundness is about the accounts and their references. -/
theorem Sound.congr {s' : State A I} (sound : Sound c s) (account : s'.account = s.account)
    (refs : s'.refs = s.refs) : Sound c s' := by
  refine ⟨?_, ?_, ?_, ?_, ?_⟩
  · rw [account]
    exact sound.proper
  · rw [account]
    exact sound.alive
  · rw [account, refs]
    exact sound.provided
  · rw [account, refs]
    exact sound.consumed
  · rw [refs]
    exact sound.supported

theorem Sound.write {after : AccountData} (sound : Sound c s)
    (allowed : s.refusal c who after = none) (proper : after.Proper) :
    Sound c (s.write c who after) := by
  have account := State.write_account sound allowed
  have refs := State.write_refs sound allowed
  refine ⟨?_, ?_, ?_, ?_, ?_⟩
  · intro a
    rw [account, Function.update_apply, AccountData.kept]
    split
    · split
      · exact .of_default
      · exact proper
    · exact sound.proper a
  · intro a
    rw [account, Function.update_apply, AccountData.kept]
    split
    · split
      · exact .inl rfl
      next lives => exact .inr lives
    · exact sound.alive a
  · intro a provides
    rw [account, Function.update_apply, AccountData.kept] at provides
    rw [refs, Function.update_apply]
    split at provides
    next same =>
      rw [if_pos same]
      split at provides
      · exact absurd provides (Nat.not_le_of_lt c.existentialDeposit_pos)
      · exact State.moved_provided sound provides
    next other =>
      rw [if_neg other]
      exact sound.provided a provides
  · intro a consumes
    rw [account, Function.update_apply, AccountData.kept] at consumes
    rw [refs, Function.update_apply]
    split at consumes
    next same =>
      rw [if_pos same]
      split at consumes
      · exact absurd consumes AccountData.not_consumes_default
      · exact State.moved_consumed sound consumes
    next other =>
      rw [if_neg other]
      exact sound.consumed a consumes
  · intro a
    rw [refs, Function.update_apply]
    split
    · exact State.moved_supported sound allowed
    · exact sound.supported a

theorem Sound.settle {after : AccountData} (sound : Sound c s)
    (allowed : s.refusal c who after = none) (proper : after.Proper) :
    Sound c (s.settle c who after) :=
  (sound.write allowed proper).congr rfl rfl

end Resonance.Balances
