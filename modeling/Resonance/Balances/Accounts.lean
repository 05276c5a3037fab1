import Mathlib.Data.Finset.Insert
import Resonance.Frame.Primitives

/-!
The state of the balances pallet and what it lets one read of it.

An account's data is what `T::AccountStore::get` returns, zero for an account
that does not exist; the flag bits of the reference-counting migration are left
out. Providers, consumers and the nonce are frame_system's and are only read
here.
-/
namespace Resonance

inductive RuntimeHoldReason
  /-- `ReversibleTransfers(HoldReason::ScheduledTransfer)` -/
  | scheduledTransfer
  | preimage
deriving DecidableEq

inductive Preservation
  | expendable
  | protect
  | preserve
deriving DecidableEq

inductive Fortitude
  | polite
  | force
deriving DecidableEq

inductive Provenance
  | minted
  | extant
deriving DecidableEq

inductive DepositConsequence
  | success
  | overflow
  | belowMinimum
deriving DecidableEq

inductive WithdrawConsequence
  | success
  | reducedToZero (result : ℕ)
  | underflow
  | balanceLow
  | frozen
  | wouldDie
deriving DecidableEq

structure AccountData where
  free : ℕ
  reserved : ℕ
  frozen : ℕ
deriving DecidableEq

structure AccountInfo where
  nonce : ℕ
  consumers : ℕ
  providers : ℕ
deriving DecidableEq

structure BalancesState (A : Type) where
  account : A → AccountData
  /-- `Holds`: the amount under each reason, zero where there is no entry. -/
  holds : A → RuntimeHoldReason → ℕ
  totalIssuance : ℕ
  /-- The keys of `TransferProof`: nonce, sender, recipient, amount. -/
  transferProof : Finset (ℕ × A × A × ℕ)
  system : A → AccountInfo

namespace BalancesState
variable {A : Type} (b : BalancesState A)

/-- `frame_system::Pallet::can_dec_provider` -/
def canDecProvider (who : A) : Prop := (b.system who).consumers = 0 ∨ (b.system who).providers > 1

instance (who : A) : Decidable (b.canDecProvider who) := inferInstanceAs (Decidable (_ ∨ _))

def balanceOnHold (reason : RuntimeHoldReason) (who : A) : ℕ := b.holds who reason

def reducibleBalance (ed : ℕ) (who : A) (preservation : Preservation) (fortitude : Fortitude) : ℕ :=
  let a := b.account who
  -- the frozen balance applies to the total, so what is on hold counts against it
  let untouchable := if fortitude = .polite then a.frozen - a.reserved else 0
  let untouchable :=
    if preservation = .preserve ∨
        (preservation = .protect ∧ a.free ≠ 0 ∧ (b.system who).providers = 1) ∨
        (preservation = .expendable ∧ a.free ≠ 0 ∧ ¬ b.canDecProvider who) then
      max untouchable ed
    else untouchable
  a.free - untouchable

def canDeposit (ed : ℕ) (who : A) (amount : ℕ) (provenance : Provenance) : DepositConsequence :=
  if amount = 0 then .success
  else if provenance = .minted ∧ b.totalIssuance + amount > u128Max then .overflow
  else
    let newFree := (b.account who).free + amount
    if newFree > u128Max then .overflow
    else if newFree < ed then .belowMinimum
    else if (b.account who).reserved + newFree > u128Max then .overflow
    else .success

def canWithdraw (ed : ℕ) (who : A) (amount : ℕ) : WithdrawConsequence :=
  if amount = 0 then .success
  else if b.totalIssuance < amount then .underflow
  else if (b.account who).free < amount then .balanceLow
  else
    let newFreeBalance := (b.account who).free - amount
    let liquid := b.reducibleBalance ed who .expendable .polite
    if amount > liquid then .frozen
    else if newFreeBalance < ed ∧ ¬ b.canDecProvider who then .wouldDie
    else
      let newTotalBalance := min (newFreeBalance + (b.account who).reserved) u128Max
      if newTotalBalance < (b.account who).frozen then .frozen
      else if newFreeBalance < ed then .reducedToZero newFreeBalance
      else .success

/-- `store_transfer_proof` -/
def storeTransferProof [DecidableEq A] (source dest : A) (value : ℕ) : BalancesState A :=
  if source ≠ dest then
    { b with transferProof :=
        insert ((b.system source).nonce, source, dest, value) b.transferProof }
  else b

variable {b}

theorem canDeposit_extant_iff {ed : ℕ} {who : A} {amount : ℕ} :
    b.canDeposit ed who amount .extant = .success ↔
      amount = 0 ∨ (ed ≤ (b.account who).free + amount ∧
        (b.account who).reserved + ((b.account who).free + amount) ≤ u128Max) := by
  simp only [canDeposit]
  split
  · simp_all
  · simp only [reduceCtorEq, false_and, if_false]
    grind

/-- As long as the existential deposit is left, only the freeze limits what a
polite withdrawal may take. -/
theorem le_reducibleBalance_iff {ed : ℕ} {who : A} {amount : ℕ} (positive : 0 < amount)
    (alive : ed + amount ≤ (b.account who).free) :
    amount ≤ b.reducibleBalance ed who .expendable .polite ↔
      (b.account who).frozen + amount ≤ (b.account who).free + (b.account who).reserved := by
  simp only [reducibleBalance, reduceCtorEq, false_and, false_or, true_and, if_true]
  split
  · omega
  · omega

/-- A withdrawal that keeps the account alive. -/
theorem canWithdraw_success_iff {ed : ℕ} {who : A} {amount : ℕ}
    (fits : (b.account who).free + (b.account who).reserved ≤ u128Max) :
    b.canWithdraw ed who amount = .success ↔
      amount = 0 ∨ (amount ≤ b.totalIssuance ∧ ed + amount ≤ (b.account who).free ∧
        (b.account who).frozen + amount ≤ (b.account who).free + (b.account who).reserved) := by
  have liquid (positive : 0 < amount) (alive : ed + amount ≤ (b.account who).free) :=
    le_reducibleBalance_iff positive alive
  simp only [canWithdraw]
  grind

end BalancesState
end Resonance
