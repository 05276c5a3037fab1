import Resonance.Balances.Transfers

/-!
Deposits out of nothing, and the imbalances that stand for them.

A positive imbalance is balance credited and not yet issued, a negative one balance
issued and not yet credited. Dropping either one squares the total issuance. A deposit
goes through `try_mutate_account`, which counts references and removes what is below
the existential deposit; on accounts whose references are in order it credits the
whole amount or nothing.
-/
namespace Resonance
open Storage
variable {A : Type} [DecidableEq A]

namespace BalancesState

/-- `frame_system::Pallet::inc_providers` -/
def incProviders (who : A) (b : BalancesState A) : BalancesState A :=
  let info := b.system who
  { b with system := Function.update b.system who { info with providers := info.providers + 1 } }

/-- `frame_system::Pallet::inc_consumers`, below the limit on consumers. -/
def incConsumers (who : A) : BalancesM A PUnit := do
  let b ← get
  let info := b.system who
  ensure (info.providers > 0) .noProviders
  set { b with
    system := Function.update b.system who { info with consumers := info.consumers + 1 } }

/-- The write of `AccountStore::try_mutate_exists`: no data without a provider. -/
def putAccount (who : A) (data : AccountData) (b : BalancesState A) : BalancesState A :=
  if (b.system who).providers > 0 then
    { b with account := Function.update b.account who data }
  else
    { b with
      account := Function.update b.account who ⟨0, 0, 0⟩
      system := Function.update b.system who ⟨0, 0, 0⟩ }

/-- The account with another free balance, and with a provider if that keeps it alive. -/
def raised (ed : ℕ) (who : A) (free : ℕ) (b : BalancesState A) : BalancesState A :=
  let account := b.account who
  { b with
    account := Function.update b.account who { account with free := free }
    system :=
      if account.free < ed ∧ ed ≤ free then (incProviders who b).system else b.system }

/-- Only accounts with a balance have data, and whatever needs a reference has one. -/
structure Referenced (ed : ℕ) (b : BalancesState A) : Prop where
  alive : ∀ a, b.account a = ⟨0, 0, 0⟩ ∨ ed ≤ (b.account a).free ∨ (b.account a).reserved ≠ 0
  provided : ∀ a, ed ≤ (b.account a).free ∨ (b.account a).reserved ≠ 0 → (b.system a).providers > 0
  consumed : ∀ a, (b.account a).reserved ≠ 0 ∨ (b.account a).frozen ≠ 0 →
    (b.system a).consumers ≠ 0

end BalancesState

section
variable (ed : ℕ)
open BalancesState

/-- `try_mutate_account`, for closures that raise the free balance or leave it. Besides the
result it returns the dust. -/
def tryMutateFree {R : Type} (who : A)
    (f : (free : ℕ) → (isNew : Bool) → Except DispatchError (R × ℕ)) :
    BalancesM A (R × Option ℕ) := do
  let b ← get
  let account := b.account who
  let isNew : Bool := account = ⟨0, 0, 0⟩
  let didProvide : Bool := account.free ≥ ed
  let (result, free) ← ofResult (f account.free isNew)
  let doesProvide : Bool := free ≥ ed
  let doesConsume : Bool := account.reserved ≠ 0 ∨ account.frozen ≠ 0
  if !didProvide && doesProvide then modify (incProviders who)
  let b ← get
  if doesConsume ∧ (b.system who).consumers = 0 then incConsumers who
  if free < ed ∧ account.reserved = 0 then
    modify (putAccount who ⟨0, 0, 0⟩)
    pure (result, if free = 0 then none else some free)
  else
    modify (putAccount who { account with free := free })
    pure (result, none)

/-- Dust is dropped as a negative imbalance. -/
def tryMutateFreeHandlingDust {R : Type} (who : A)
    (f : (free : ℕ) → (isNew : Bool) → Except DispatchError (R × ℕ)) : BalancesM A R := do
  let (result, maybeDust) ← tryMutateFree ed who f
  match maybeDust with
  | some dust => modify fun b => { b with totalIssuance := b.totalIssuance - dust }
  | none => pure ⟨⟩
  pure result

namespace Currency

/-- The closure of `deposit_creating`: the imbalance, and the new free balance. -/
def creditFree (value free : ℕ) (isNew : Bool) : Except DispatchError (ℕ × ℕ) :=
  if value ≥ ed ∨ ¬ isNew then
    if free + value ≤ u128Max then .ok (value, free + value) else .ok (0, free)
  else .error (.other "ExistentialDeposit")

def depositCreating (who : A) (value : ℕ) : BalancesM A ℕ :=
  if value = 0 then pure 0
  else do
    let deposited ← attempt (tryMutateFreeHandlingDust ed who (creditFree ed value))
    match deposited with
    | .ok imbalance => pure imbalance
    | .error _ => pure 0

end Currency
end

section
variable {ed : ℕ} {b : BalancesState A} {who : A}
open BalancesState

theorem BalancesState.raised_account {free : ℕ} {a : A} :
    (b.raised ed who free).account a =
      if a = who then { b.account who with free := free } else b.account a := by
  simp [raised, Function.update_apply]

theorem BalancesState.raised_system {free : ℕ} {a : A} :
    (b.raised ed who free).system a =
      if a = who ∧ (b.account who).free < ed ∧ ed ≤ free then
        { b.system who with providers := (b.system who).providers + 1 }
      else b.system a := by
  dsimp only [raised]
  split
  next provides =>
    simp only [provides, and_true]
    simp [incProviders, Function.update_apply]
  next keeps => rw [if_neg fun both => keeps both.2]

@[simp] theorem BalancesState.raised_totalIssuance {free : ℕ} :
    (b.raised ed who free).totalIssuance = b.totalIssuance := rfl

theorem BalancesState.raised_self : b.raised ed who (b.account who).free = b := by
  have same : ¬ ((b.account who).free < ed ∧ ed ≤ (b.account who).free) := by omega
  simp [raised, same]

/-- On accounts whose references are in order, a closure that leaves the account alive
just replaces its free balance. -/
theorem exec_tryMutateFree {R : Type}
    {f : (free : ℕ) → (isNew : Bool) → Except DispatchError (R × ℕ)} {result : R} {free : ℕ}
    (ref : b.Referenced ed)
    (ok : f (b.account who).free (b.account who = ⟨0, 0, 0⟩) = .ok (result, free))
    (alive : ed ≤ free ∨ (b.account who).reserved ≠ 0) :
    exec (tryMutateFree ed who f) b = (.ok (result, none), b.raised ed who free) := by
  have stays : ¬ (free < ed ∧ (b.account who).reserved = 0) := by omega
  have counted : ¬ (((b.account who).reserved ≠ 0 ∨ (b.account who).frozen ≠ 0) ∧
      (b.system who).consumers = 0) :=
    fun unused => ref.consumed who unused.1 unused.2
  unfold tryMutateFree
  rw [exec_get_bind]
  dsimp only
  rw [ok, exec_bind_of_ok (show exec (ofResult (Except.ok (result, free))) b =
    (.ok (result, free), b) from rfl), exec_ite]
  simp only [Bool.and_eq_true, Bool.not_eq_true', decide_eq_true_eq, decide_eq_false_iff_not, stays,
    if_false]
  split
  next provides =>
    have same : ((incProviders who b).system who).consumers = (b.system who).consumers := by
      simp [incProviders]
    rw [exec_modify_bind, exec_get_bind, if_neg (same ▸ counted), exec_modify_bind, putAccount,
      if_pos]
    · rw [raised, if_pos ⟨Nat.lt_of_not_le provides.1, provides.2⟩]
      rfl
    · simp [incProviders]
  next keeps =>
    have provided : (b.system who).providers > 0 := by
      refine ref.provided who (alive.imp_left fun does => ?_)
      exact Classical.byContradiction fun did => keeps ⟨did, does⟩
    have provider : ¬ ((b.account who).free < ed ∧ ed ≤ free) :=
      fun new => keeps ⟨Nat.not_le_of_lt new.1, new.2⟩
    rw [exec_get_bind, if_neg counted, exec_modify_bind, putAccount, if_pos provided, raised,
      if_neg provider]
    rfl

theorem exec_tryMutateFreeHandlingDust {R : Type}
    {f : (free : ℕ) → (isNew : Bool) → Except DispatchError (R × ℕ)} {result : R} {free : ℕ}
    (ref : b.Referenced ed)
    (ok : f (b.account who).free (b.account who = ⟨0, 0, 0⟩) = .ok (result, free))
    (alive : ed ≤ free ∨ (b.account who).reserved ≠ 0) :
    exec (tryMutateFreeHandlingDust ed who f) b = (.ok result, b.raised ed who free) := by
  simp only [tryMutateFreeHandlingDust]
  rw [exec_bind_of_ok (exec_tryMutateFree ref ok alive)]
  rfl

theorem exec_tryMutateFreeHandlingDust_error {R : Type}
    {f : (free : ℕ) → (isNew : Bool) → Except DispatchError (R × ℕ)} {e : DispatchError}
    (refused : f (b.account who).free (b.account who = ⟨0, 0, 0⟩) = .error e) :
    exec (tryMutateFreeHandlingDust ed who f) b = (.error e, b) := by
  have failed : exec (tryMutateFree ed who f) b = (.error e, b) := by
    unfold tryMutateFree
    rw [exec_get_bind]
    dsimp only
    rw [refused]
    rfl
  simp only [tryMutateFreeHandlingDust]
  rw [exec_bind_of_error failed]

/-- The account exists or the value creates it, and the sum fits the balance type. -/
def BalancesState.Credits (ed : ℕ) (b : BalancesState A) (who : A) (value : ℕ) : Prop :=
  (ed ≤ value ∨ b.account who ≠ ⟨0, 0, 0⟩) ∧ (b.account who).free + value ≤ u128Max

instance {value : ℕ} : Decidable (b.Credits ed who value) := inferInstanceAs (Decidable (_ ∧ _))

omit [DecidableEq A] in
theorem BalancesState.Credits.alive {value : ℕ} (credits : b.Credits ed who value)
    (ref : b.Referenced ed) : ed ≤ (b.account who).free + value ∨ (b.account who).reserved ≠ 0 := by
  cases credits.1 with
  | inl enough => exact .inl (enough.trans (Nat.le_add_left _ _))
  | inr existing =>
      have alive := (ref.alive who).resolve_left existing
      exact alive.imp_left fun le => le.trans (Nat.le_add_right _ _)

/-- A deposit credits the whole value or nothing. -/
theorem Currency.exec_depositCreating {value : ℕ} (ref : b.Referenced ed) (fits : value ≤ u128Max) :
    exec (Currency.depositCreating ed who value) b =
      if b.Credits ed who value then
        (.ok value, b.raised ed who ((b.account who).free + value))
      else (.ok 0, b) := by
  simp only [depositCreating]
  split
  next zero =>
    subst zero
    rw [Nat.add_zero, raised_self, ite_self]
    rfl
  next =>
    rw [exec_attempt_bind]
    by_cases known : ed ≤ value ∨ b.account who ≠ ⟨0, 0, 0⟩
    · by_cases room : (b.account who).free + value ≤ u128Max
      · have ok : creditFree ed value (b.account who).free (b.account who = ⟨0, 0, 0⟩) =
          .ok (value, (b.account who).free + value) := by simp [creditFree, known, room]
        have credits : b.Credits ed who value := ⟨known, room⟩
        rw [if_pos credits, exec_tryMutateFreeHandlingDust ref ok (credits.alive ref)]
        rfl
      · have ok : creditFree ed value (b.account who).free (b.account who = ⟨0, 0, 0⟩) =
          .ok (0, (b.account who).free) := by simp [creditFree, known, room]
        have existing : b.account who ≠ ⟨0, 0, 0⟩ := by
          intro none
          rw [none, Nat.zero_add] at room
          exact room fits
        have alive := (ref.alive who).resolve_left existing
        rw [if_neg fun credits => room credits.2, exec_tryMutateFreeHandlingDust ref ok alive,
          raised_self]
        rfl
    · have refused : creditFree ed value (b.account who).free (b.account who = ⟨0, 0, 0⟩) =
        .error (.other "ExistentialDeposit") := by simp_all [creditFree]
      rw [if_neg fun credits => known credits.1, exec_tryMutateFreeHandlingDust_error refused]
      rfl

/-- References are in order where one account exists, with one provider. -/
theorem BalancesState.Referenced.of_single {free : ℕ} (positive : 0 < ed) (enough : ed ≤ free)
    (account : b.account = fun a => if a = who then ⟨free, 0, 0⟩ else ⟨0, 0, 0⟩)
    (system : b.system = fun a => if a = who then ⟨0, 0, 1⟩ else ⟨0, 0, 0⟩) :
    b.Referenced ed := by
  refine ⟨?_, ?_, ?_⟩
  · intro a
    rw [account]
    dsimp only
    split
    · exact .inr (.inl enough)
    · exact .inl rfl
  · intro a needs
    rw [account] at needs
    rw [system]
    dsimp only at needs ⊢
    split
    next => exact Nat.one_pos
    next other =>
      rw [if_neg other] at needs
      exact needs.elim (fun does => absurd does (Nat.not_le_of_lt positive)) (absurd rfl)
  · intro a needs
    rw [account] at needs
    dsimp only at needs
    split at needs
    · exact needs.elim (absurd rfl) (absurd rfl)
    · exact needs.elim (absurd rfl) (absurd rfl)

theorem BalancesState.Referenced.raised (ref : b.Referenced ed) {free : ℕ}
    (alive : ed ≤ free ∨ (b.account who).reserved ≠ 0) : (b.raised ed who free).Referenced ed := by
  refine ⟨?_, ?_, ?_⟩
  · intro a
    rw [raised_account]
    split
    · exact .inr alive
    · exact ref.alive a
  · intro a needs
    rw [raised_account] at needs
    rw [raised_system]
    split
    next => exact Nat.succ_pos _
    next old =>
      refine ref.provided a ?_
      split at needs
      next same =>
        subst same
        refine needs.imp_left fun does => ?_
        exact Nat.le_of_not_lt fun new => old ⟨rfl, new, does⟩
      next => exact needs
  · intro a needs
    rw [raised_account] at needs
    have counted : (b.system a).consumers ≠ 0 := by
      refine ref.consumed a ?_
      split at needs
      next same => exact same ▸ needs
      next => exact needs
    rw [raised_system]
    split
    next new => exact new.1 ▸ counted
    next => exact counted

end

namespace Currency

/-- The negative imbalance is what was issued. -/
def issue (amount : ℕ) : BalancesM A ℕ :=
  if amount = 0 then pure 0
  else do
    let b ← get
    if b.totalIssuance + amount ≤ u128Max then
      set { b with totalIssuance := b.totalIssuance + amount }
      pure amount
    else
      set { b with totalIssuance := u128Max }
      pure (u128Max - b.totalIssuance)

def dropPositive (amount : ℕ) : BalancesM A PUnit :=
  if amount = 0 then pure ⟨⟩
  else modify fun b => { b with totalIssuance := min (b.totalIssuance + amount) u128Max }

def dropNegative (amount : ℕ) : BalancesM A PUnit :=
  if amount = 0 then pure ⟨⟩
  else modify fun b => { b with totalIssuance := b.totalIssuance - amount }

/-- What is left of the offset of a negative imbalance by a positive one is dropped. -/
def dropOffset (negative positive : ℕ) : BalancesM A PUnit :=
  if negative > positive then dropNegative (negative - positive)
  else if negative < positive then dropPositive (positive - negative)
  else pure ⟨⟩

def resolveCreating (ed : ℕ) (who : A) (value : ℕ) : BalancesM A PUnit := do
  let deposited ← depositCreating ed who value
  dropOffset value deposited

section
variable {ed : ℕ} {b : BalancesState A}

omit [DecidableEq A] in
theorem exec_issue {amount : ℕ} (fits : b.totalIssuance + amount ≤ u128Max) :
    exec (issue amount) b =
      (.ok amount, { b with totalIssuance := b.totalIssuance + amount }) := by
  simp only [issue]
  split
  next zero =>
    subst zero
    rfl
  next =>
    rw [exec_get_bind, if_pos fits]
    rfl

omit [DecidableEq A] in
theorem exec_dropNegative (amount : ℕ) :
    exec (dropNegative amount) b =
      (.ok ⟨⟩, { b with totalIssuance := b.totalIssuance - amount }) := by
  simp only [dropNegative]
  split
  next zero =>
    subst zero
    rfl
  next => rfl

omit [DecidableEq A] in
theorem exec_dropPositive (amount : ℕ) :
    ∃ totalIssuance, exec (dropPositive amount) b =
      (.ok ⟨⟩, { b with totalIssuance := totalIssuance }) := by
  simp only [dropPositive]
  split
  · exact ⟨b.totalIssuance, rfl⟩
  · exact ⟨_, rfl⟩

theorem exec_resolveCreating {who : A} {value : ℕ} (ref : b.Referenced ed)
    (credits : b.Credits ed who value) :
    exec (resolveCreating ed who value) b =
      (.ok ⟨⟩, b.raised ed who ((b.account who).free + value)) := by
  have fits : value ≤ u128Max := (Nat.le_add_left _ _).trans credits.2
  simp only [resolveCreating]
  rw [exec_bind_of_ok ((exec_depositCreating ref fits).trans (if_pos credits)), dropOffset,
    if_neg (Nat.lt_irrefl value), if_neg (Nat.lt_irrefl value)]
  rfl

end
end Currency
end Resonance
