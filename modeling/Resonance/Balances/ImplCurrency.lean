import Resonance.Balances.Currency
import Resonance.Balances.ImplFungible
import Resonance.Foundation.BinarySearch

/-!
The currency traits of the balances pallet: imbalances, transfers out of and into
nothing, reserves, named reserves and locks.

An imbalance is a token for balance that exists without being issued, or is issued
without existing; dropping it squares the total issuance. A named reserve is an
entry of a list sorted by identifier next to the anonymous reserve that backs it.
-/
namespace Resonance.Balances
open Storage BinarySearch

/-- Which side of the books an imbalance is missing on. -/
inductive Side
  | positive
  | negative
deriving DecidableEq

def Side.opposite : Side → Side
  | .positive => .negative
  | .negative => .positive

structure Imbalance (side : Side) where
  amount : ℕ
deriving DecidableEq

abbrev PositiveImbalance := Imbalance .positive

abbrev NegativeImbalance := Imbalance .negative

inductive SameOrOther (side : Side)
  | none
  | same (imbalance : Imbalance side)
  | other (imbalance : Imbalance side.opposite)

inductive SignedImbalance
  | positive (imbalance : PositiveImbalance)
  | negative (imbalance : NegativeImbalance)

namespace Imbalance
variable {side : Side}

def zero : Imbalance side := ⟨0⟩

def split (i : Imbalance side) (amount : ℕ) : Imbalance side × Imbalance side :=
  let first := min i.amount amount
  (⟨first⟩, ⟨i.amount - first⟩)

def merge (i other : Imbalance side) : Imbalance side := ⟨min (i.amount + other.amount) u128Max⟩

def offset (i : Imbalance side) (other : Imbalance side.opposite) : SameOrOther side :=
  if i.amount > other.amount then .same ⟨i.amount - other.amount⟩
  else if i.amount < other.amount then .other ⟨other.amount - i.amount⟩
  else .none

end Imbalance

section
variable {A I : Type}

/-- `Drop` -/
def PositiveImbalance.drop (i : PositiveImbalance) : BalancesM A I PUnit :=
  if i.amount ≠ 0 then
    modify fun s => { s with totalIssuance := min (s.totalIssuance + i.amount) u128Max }
  else pure ⟨⟩

def NegativeImbalance.drop (i : NegativeImbalance) : BalancesM A I PUnit :=
  if i.amount ≠ 0 then modify fun s => { s with totalIssuance := s.totalIssuance - i.amount }
  else pure ⟨⟩

variable [DecidableEq A] (c : Config)

namespace Currency

def burn (amount : ℕ) : BalancesM A I PositiveImbalance :=
  if amount = 0 then pure .zero
  else do
    let s ← get
    if amount ≤ s.totalIssuance then
      set { s with totalIssuance := s.totalIssuance - amount }
      pure ⟨amount⟩
    else
      set { s with totalIssuance := 0 }
      pure ⟨s.totalIssuance⟩

def issue (amount : ℕ) : BalancesM A I NegativeImbalance :=
  if amount = 0 then pure .zero
  else do
    let s ← get
    if s.totalIssuance + amount ≤ u128Max then
      set { s with totalIssuance := s.totalIssuance + amount }
      pure ⟨amount⟩
    else
      set { s with totalIssuance := u128Max }
      pure ⟨u128Max - s.totalIssuance⟩

def ensureCanWithdraw (who : A) (amount newBalance : ℕ) : BalancesM A I PUnit :=
  if amount = 0 then pure ⟨⟩
  else do
    let s ← get
    ensure ((s.account who).frozen ≤ newBalance) Error.liquidityRestrictions.dispatch

def slash (who : A) (value : ℕ) : BalancesM A I (NegativeImbalance × ℕ) :=
  if value = 0 then pure (.zero, 0)
  else do
    let s ← get
    if s.totalBalance who = 0 then pure (.zero, value)
    else do
      let slashed ← attempt <| tryMutateAccountHandlingDust c who fun account _ => do
        let s ← get
        let actual :=
          if (s.refs who).CanDecProvider then min value account.free
          else min value (account.free - c.existentialDeposit)
        pure ((⟨actual⟩, value - actual), { account with free := account.free - actual })
      match slashed with
      | .ok result => pure result
      | .error _ => pure (.zero, value)

def depositIntoExisting (who : A) (value : ℕ) : BalancesM A I PositiveImbalance :=
  if value = 0 then pure .zero
  else tryMutateAccountHandlingDust c who fun account isNew => do
    ensure (¬ isNew) Error.deadAccount.dispatch
    ensure (account.free + value ≤ u128Max) (.arithmetic .overflow)
    pure (⟨value⟩, { account with free := account.free + value })

def depositCreating (who : A) (value : ℕ) : BalancesM A I PositiveImbalance :=
  if value = 0 then pure .zero
  else do
    let deposited ← attempt <| tryMutateAccountHandlingDust c who fun account isNew => do
      ensure (c.existentialDeposit ≤ value ∨ ¬ isNew) Error.existentialDeposit.dispatch
      if account.free + value ≤ u128Max then
        pure (⟨value⟩, { account with free := account.free + value })
      else pure (.zero, account)
    match deposited with
    | .ok imbalance => pure imbalance
    | .error _ => pure .zero

def withdraw (who : A) (value : ℕ) (liveness : ExistenceRequirement) :
    BalancesM A I NegativeImbalance :=
  if value = 0 then pure .zero
  else tryMutateAccountHandlingDust c who fun account _ => do
    ensure (value ≤ account.free) Error.insufficientBalance.dispatch
    let newFreeAccount := account.free - value
    let wouldBeDead : Prop := newFreeAccount < c.existentialDeposit
    let wouldKill : Prop := wouldBeDead ∧ c.existentialDeposit ≤ account.free
    have : Decidable wouldKill := inferInstanceAs (Decidable (_ ∧ _))
    ensure (liveness = .allowDeath ∨ ¬ wouldKill) Error.expendability.dispatch
    ensureCanWithdraw who value newFreeAccount
    pure (⟨value⟩, { account with free := newFreeAccount })

def makeFreeBalanceBe (who : A) (value : ℕ) : BalancesM A I SignedImbalance := do
  let made ← attempt <| tryMutateAccountHandlingDust c who fun account isNew => do
    ensure (c.existentialDeposit ≤ value ∨ ¬ isNew) Error.existentialDeposit.dispatch
    let imbalance : SignedImbalance :=
      if account.free ≤ value then .positive ⟨value - account.free⟩
      else .negative ⟨account.free - value⟩
    pure (imbalance, { account with free := value })
  match made with
  | .ok imbalance => pure imbalance
  | .error _ => pure (.positive .zero)

end Currency

/-- `BalanceStatus` -/
inductive Status
  | free
  | reserved
deriving DecidableEq

def reserve (who : A) (value : ℕ) : BalancesM A I PUnit :=
  if value = 0 then pure ⟨⟩
  else tryMutateAccountHandlingDust c who fun account _ => do
    ensure (value ≤ account.free) Error.insufficientBalance.dispatch
    ensure (account.reserved + value ≤ u128Max) (.arithmetic .overflow)
    Currency.ensureCanWithdraw who value (account.free - value)
    pure (⟨⟩, { account with free := account.free - value, reserved := account.reserved + value })

def unreserve (who : A) (value : ℕ) : BalancesM A I ℕ :=
  if value = 0 then pure 0
  else do
    let s ← get
    if s.totalBalance who = 0 then pure value
    else do
      let unreserved ← attempt <| mutateAccountHandlingDust c who fun account =>
        let actual := min account.reserved value
        (actual, { account with
          reserved := account.reserved - actual
          free := min (account.free + actual) u128Max })
      match unreserved with
      | .ok actual => pure (value - actual)
      | .error _ => pure value

def slashReserved (who : A) (value : ℕ) : BalancesM A I (NegativeImbalance × ℕ) :=
  if value = 0 then pure (.zero, 0)
  else do
    let s ← get
    if s.totalBalance who = 0 then pure (.zero, value)
    else do
      let slashed ← attempt <| mutateAccountHandlingDust c who fun account =>
        let actual := min value account.reserved
        ((⟨actual⟩, value - actual), { account with reserved := account.reserved - actual })
      match slashed with
      | .ok result => pure result
      | .error _ => pure (.zero, value)

/-- `actual` of `do_transfer_reserved`. -/
def Precision.actual (value maximum : ℕ) : Precision → ℕ
  | .bestEffort => min value maximum
  | .exact => value

/-- The changed account of the beneficiary is handed out of the inner closure. -/
def doTransferReserved (slashed beneficiary : A) (value : ℕ) (precision : Precision)
    (fortitude : Fortitude) (status : Status) : BalancesM A I ℕ :=
  if value = 0 then pure 0
  else do
    let s ← get
    let maximum := s.reducibleTotalBalanceOnHold slashed fortitude
    let actual := precision.actual value maximum
    ensure (actual ≤ maximum) (.token .fundsUnavailable)
    if slashed = beneficiary then
      match status with
      | .free => do
        let left ← unreserve c slashed actual
        pure (actual - left)
      | .reserved => pure actual
    else do
      let (maybeDust1, maybeDust2) ← tryMutateAccount c beneficiary fun toAccount isNew => do
        ensure (¬ isNew) Error.deadAccount.dispatch
        let (toAccount, maybeDust) ← tryMutateAccount c slashed fun fromAccount _ => do
          let toAccount ← match status with
            | .free => do
              ensure (toAccount.free + actual ≤ u128Max) (.arithmetic .overflow)
              pure { toAccount with free := toAccount.free + actual }
            | .reserved => do
              ensure (toAccount.reserved + actual ≤ u128Max) (.arithmetic .overflow)
              pure { toAccount with reserved := toAccount.reserved + actual }
          pure (toAccount, { fromAccount with reserved := fromAccount.reserved - actual })
        pure (maybeDust, toAccount)
      handleMaybeDust maybeDust1
      handleMaybeDust maybeDust2
      pure actual

def repatriateReserved (slashed beneficiary : A) (value : ℕ) (status : Status) :
    BalancesM A I ℕ := do
  let actual ← doTransferReserved c slashed beneficiary value .bestEffort .polite status
  pure (value - actual)

section
variable [LinearOrder I]

def State.putReserves (s : State A I) (who : A) (reserves : List (ReserveData I)) : State A I :=
  { s with reserves := Function.update s.reserves who reserves }

def State.reservedBalanceNamed (s : State A I) (id : I) (who : A) : ℕ :=
  match search ReserveData.id (s.reserves who) id with
  | .present index => ((s.reserves who)[index]?).elim 0 ReserveData.amount
  | .absent _ => 0

/-- `reserves[index].amount` -/
def amountAt (reserves : List (ReserveData I)) (index : ℕ) : ℕ :=
  (reserves[index]?).elim 0 ReserveData.amount

def setAmount (reserves : List (ReserveData I)) (index amount : ℕ) : List (ReserveData I) :=
  reserves.modify index fun r => { r with amount := amount }

def reserveNamed (id : I) (who : A) (value : ℕ) : BalancesM A I PUnit :=
  if value = 0 then pure ⟨⟩
  else do
    let s ← get
    let reserves := s.reserves who
    let reserves ← match search ReserveData.id reserves id with
      | .present index => do
        ensure (amountAt reserves index + value ≤ u128Max) (.arithmetic .overflow)
        pure (setAmount reserves index (amountAt reserves index + value))
      | .absent index => do
        ensure (reserves.length < c.maxReserves) Error.tooManyReserves.dispatch
        pure (reserves.insertIdx index ⟨id, value⟩)
    reserve c who value
    modify fun s => s.putReserves who reserves

def unreserveNamed (id : I) (who : A) (value : ℕ) : BalancesM A I ℕ :=
  if value = 0 then pure 0
  else do
    let s ← get
    let reserves := s.reserves who
    match search ReserveData.id reserves id with
    | .present index => do
      let toChange := min (amountAt reserves index) value
      let remain ← unreserve c who toChange
      let actual := toChange - remain
      let reserves := setAmount reserves index (amountAt reserves index - actual)
      -- the last one is removed together with its collection
      let reserves := if amountAt reserves index = 0 then reserves.eraseIdx index else reserves
      modify fun s => s.putReserves who reserves
      pure (value - actual)
    | .absent _ => pure value

/-- A named reserve that is slashed to nothing stays in the list. -/
def slashReservedNamed (id : I) (who : A) (value : ℕ) : BalancesM A I (NegativeImbalance × ℕ) :=
  if value = 0 then pure (.zero, 0)
  else do
    let s ← get
    let reserves := s.reserves who
    match search ReserveData.id reserves id with
    | .present index => do
      let toChange := min (amountAt reserves index) value
      let (imb, remain) ← slashReserved c who toChange
      let actual := toChange - remain
      let reserves := setAmount reserves index (amountAt reserves index - actual)
      modify fun s => s.putReserves who reserves
      pure (imb, value - actual)
    | .absent _ => pure (.zero, value)

/-- `Reserves::try_mutate` of the beneficiary. -/
def repatriateUnder (id : I) (slashed beneficiary : A) (toChange : ℕ) : BalancesM A I ℕ := do
  let s ← get
  let reserves := s.reserves beneficiary
  match search ReserveData.id reserves id with
  | .present index => do
    let remain ← repatriateReserved c slashed beneficiary toChange .reserved
    let actual := toChange - remain
    let reserves := setAmount reserves index (min (amountAt reserves index + actual) u128Max)
    modify fun s => s.putReserves beneficiary reserves
    pure actual
  | .absent index => do
    let remain ← repatriateReserved c slashed beneficiary toChange .reserved
    let actual := toChange - remain
    ensure (reserves.length < c.maxReserves) Error.tooManyReserves.dispatch
    modify fun s => s.putReserves beneficiary (reserves.insertIdx index ⟨id, actual⟩)
    pure actual

def repatriateReservedNamed (id : I) (slashed beneficiary : A) (value : ℕ) (status : Status) :
    BalancesM A I ℕ :=
  if value = 0 then pure 0
  else if slashed = beneficiary then
    match status with
    | .free => unreserveNamed c id slashed value
    | .reserved => do
      let s ← get
      pure (value - s.reservedBalanceNamed id slashed)
  else do
    let s ← get
    let reserves := s.reserves slashed
    match search ReserveData.id reserves id with
    | .present index => do
      let toChange := min (amountAt reserves index) value
      let actual ←
        if status = .reserved then repatriateUnder c id slashed beneficiary toChange
        else do
          let remain ← repatriateReserved c slashed beneficiary toChange status
          pure (toChange - remain)
      let reserves := setAmount reserves index (amountAt reserves index - actual)
      modify fun s => s.putReserves slashed reserves
      pure (value - actual)
    | .absent _ => pure value

end

/-- The bits of `WithdrawReasons`. -/
abbrev WithdrawReasons := BitVec 5

def TRANSACTION_PAYMENT : WithdrawReasons := 0b00001#5

def Reasons.ofWithdraw (r : WithdrawReasons) : Reasons :=
  if r = TRANSACTION_PAYMENT then .fee
  else if r &&& TRANSACTION_PAYMENT = TRANSACTION_PAYMENT then .all
  else .misc

/-- `BitOr` -/
def Reasons.or (a b : Reasons) : Reasons := if a = b then a else .all

section
variable [DecidableEq I]

/-- The locks are written even if the account could not be. -/
def updateLocks (who : A) (locks : List (BalanceLock I)) : BalancesM A I PUnit := do
  let s ← get
  let _ ← attempt <| mutateAccount c who fun b =>
    (PUnit.unit, { b with frozen := frozenBy locks (s.freezes who) })
  modify fun s => { s with locks := Function.update s.locks who locks }

/-- The `filter_map` over the locks: the first lock of the identifier takes the new
one, what is left of it comes last. -/
def placeLock (id : I) (combine : BalanceLock I → BalanceLock I → BalanceLock I) :
    Option (BalanceLock I) → List (BalanceLock I) → List (BalanceLock I)
  | newLock, [] => newLock.toList
  | newLock, l :: ls =>
    if l.id = id then
      match newLock with
      | some nl => combine l nl :: placeLock id combine none ls
      | none => placeLock id combine none ls
    else l :: placeLock id combine newLock ls

def removeLock (id : I) (who : A) : BalancesM A I PUnit := do
  let s ← get
  updateLocks c who ((s.locks who).filter fun l => l.id ≠ id)

def setLock (id : I) (who : A) (amount : ℕ) (reasons : WithdrawReasons) : BalancesM A I PUnit :=
  if reasons = 0 ∨ amount = 0 then removeLock c id who
  else do
    let s ← get
    let newLock : BalanceLock I := ⟨id, amount, .ofWithdraw reasons⟩
    updateLocks c who (placeLock id (fun _ nl => nl) (some newLock) (s.locks who))

def extendLock (id : I) (who : A) (amount : ℕ) (reasons : WithdrawReasons) : BalancesM A I PUnit :=
  if amount = 0 ∨ reasons = 0 then pure ⟨⟩
  else do
    let s ← get
    let newLock : BalanceLock I := ⟨id, amount, .ofWithdraw reasons⟩
    updateLocks c who (placeLock id
      (fun l nl => ⟨l.id, max l.amount nl.amount, l.reasons.or nl.reasons⟩) (some newLock)
      (s.locks who))

def State.balanceLocked (s : State A I) (id : I) (who : A) : ℕ :=
  ((s.locks who).filter fun l => l.id = id).foldl (fun acc l => acc + l.amount) 0

end
end
end Resonance.Balances
