import Resonance.Balances.AccountStore

/-!
The fungible traits of the balances pallet, as far as the pallet implements them
itself: what one may read of an account, unchecked writes, holds and freezes.

A freeze applies to the total of an account, and what counts is the largest lock or
freeze. Holds are entries of their own next to the reserved balance that backs them.
-/
namespace Resonance.Balances
open Storage

/-- `Error<T, I>` -/
inductive Error
  | vestingBalance
  | liquidityRestrictions
  | insufficientBalance
  | existentialDeposit
  | expendability
  | existingVestingSchedule
  | deadAccount
  | tooManyReserves
  | tooManyHolds
  | tooManyFreezes
  | issuanceDeactivated
  | deltaZero
deriving DecidableEq

def Error.name : Error → String
  | .vestingBalance => "VestingBalance"
  | .liquidityRestrictions => "LiquidityRestrictions"
  | .insufficientBalance => "InsufficientBalance"
  | .existentialDeposit => "ExistentialDeposit"
  | .expendability => "Expendability"
  | .existingVestingSchedule => "ExistingVestingSchedule"
  | .deadAccount => "DeadAccount"
  | .tooManyReserves => "TooManyReserves"
  | .tooManyHolds => "TooManyHolds"
  | .tooManyFreezes => "TooManyFreezes"
  | .issuanceDeactivated => "IssuanceDeactivated"
  | .deltaZero => "DeltaZero"

def Error.dispatch (e : Error) : DispatchError := .other e.name

inductive Precision
  | exact
  | bestEffort
deriving DecidableEq

section
variable {A I : Type} [DecidableEq A]

def State.totalBalance (s : State A I) (who : A) : ℕ := min (s.account who).total u128Max

def State.reducibleBalance (c : Config) (s : State A I) (who : A) (preservation : Preservation)
    (fortitude : Fortitude) : ℕ :=
  let a := s.account who
  let untouchable := if fortitude = .polite then a.frozen - a.reserved else 0
  let untouchable :=
    if preservation = .preserve ∨
        (preservation = .protect ∧ a.free ≠ 0 ∧ (s.refs who).providers = 1) ∨
        (preservation = .expendable ∧ a.free ≠ 0 ∧ ¬ (s.refs who).CanDecProvider) then
      max untouchable c.existentialDeposit
    else untouchable
  a.free - untouchable

def State.reducibleTotalBalanceOnHold (s : State A I) (who : A) (fortitude : Fortitude) : ℕ :=
  let a := s.account who
  let unavailable := if fortitude = .force then 0 else a.frozen - a.free
  a.reserved - unavailable

variable (c : Config)

/-- `Unbalanced::write_balance`: the dust is the caller's to handle. -/
def writeBalance (who : A) (amount : ℕ) : BalancesM A I (Option ℕ) := do
  let s ← get
  let maxReduction := s.reducibleBalance c who .expendable .force
  let (result, maybeDust) ← mutateAccount c who fun account =>
    let reduction := account.free - amount
    if reduction ≤ maxReduction then (Except.ok ⟨⟩, { account with free := amount })
    else (Except.error Error.insufficientBalance.dispatch, account)
  let _ ← ofResult (α := PUnit) result
  pure maybeDust

def deactivate (amount : ℕ) : BalancesM A I PUnit :=
  modify fun s =>
    { s with inactiveIssuance := min (min (s.inactiveIssuance + amount) u128Max) s.totalIssuance }

def reactivate (amount : ℕ) : BalancesM A I PUnit :=
  modify fun s => { s with inactiveIssuance := s.inactiveIssuance - amount }

variable [DecidableEq I]

def State.balanceOnHold (s : State A I) (reason : I) (who : A) : ℕ :=
  ((s.holds who).find? fun x => x.id = reason).elim 0 IdAmount.amount

/-- `iter_mut().find(..)`: the first entry of the identifier is changed. -/
def setFirst (id : I) (f : ℕ → ℕ) : List (IdAmount I) → List (IdAmount I)
  | [] => []
  | x :: xs => if x.id = id then { x with amount := f x.amount } :: xs else x :: setFirst id f xs

/-- `try_push` of a bounded vector. -/
def tryPush (bound : ℕ) (e : Error) (xs : List (IdAmount I)) (x : IdAmount I) :
    BalancesM A I (List (IdAmount I)) := do
  ensure (xs.length < bound) e.dispatch
  pure (xs ++ [x])

def setBalanceOnHold (reason : I) (who : A) (amount : ℕ) : BalancesM A I PUnit := do
  let s ← get
  let newAccount := s.account who
  let holds := s.holds who
  let (holds, delta, increase) ← match holds.find? fun x => x.id = reason with
    | some item =>
      let changed := setFirst reason (fun _ => amount) holds
      pure (changed.filter fun x => x.amount ≠ 0,
        max item.amount amount - min item.amount amount, decide (item.amount < amount))
    | none =>
      if amount ≠ 0 then do
        let pushed ← tryPush c.maxHolds .tooManyHolds holds ⟨reason, amount⟩
        pure (pushed, amount, true)
      else pure (holds, amount, true)
  let reserved ←
    if increase then do
      ensure (newAccount.reserved + delta ≤ u128Max) (.arithmetic .overflow)
      pure (newAccount.reserved + delta)
    else do
      ensure (delta ≤ newAccount.reserved) (.arithmetic .underflow)
      pure (newAccount.reserved - delta)
  let _ ← tryMutateAccount c who fun _ _ =>
    pure (PUnit.unit, { newAccount with reserved := reserved })
  modify fun s => { s with holds := Function.update s.holds who holds }

def State.balanceFrozen (s : State A I) (id : I) (who : A) : ℕ :=
  ((s.freezes who).find? fun x => x.id = id).elim 0 IdAmount.amount

/-- The loops over the locks and the freezes. -/
def frozenBy (locks : List (BalanceLock I)) (freezes : List (IdAmount I)) : ℕ :=
  let frozen := locks.foldl (fun frozen l => max frozen l.amount) 0
  freezes.foldl (fun frozen l => max frozen l.amount) frozen

/-- An empty collection is removed, which reads the same. -/
def updateFreezes (who : A) (freezes : List (IdAmount I)) : BalancesM A I PUnit := do
  let s ← get
  let _ ← mutateAccount c who fun b =>
    (PUnit.unit, { b with frozen := frozenBy (s.locks who) freezes })
  modify fun s => { s with freezes := Function.update s.freezes who freezes }

def thaw (id : I) (who : A) : BalancesM A I PUnit := do
  let s ← get
  updateFreezes c who ((s.freezes who).filter fun l => l.id ≠ id)

def setFreeze (id : I) (who : A) (amount : ℕ) : BalancesM A I PUnit :=
  if amount = 0 then thaw c id who
  else do
    let s ← get
    let freezes := s.freezes who
    let freezes ←
      if (freezes.find? fun x => x.id = id).isSome then
        pure (setFirst id (fun _ => amount) freezes)
      else tryPush c.maxFreezes .tooManyFreezes freezes ⟨id, amount⟩
    updateFreezes c who freezes

def extendFreeze (id : I) (who : A) (amount : ℕ) : BalancesM A I PUnit :=
  if amount = 0 then pure ⟨⟩
  else do
    let s ← get
    let freezes := s.freezes who
    let freezes ←
      if (freezes.find? fun x => x.id = id).isSome then
        pure (setFirst id (fun old => max old amount) freezes)
      else tryPush c.maxFreezes .tooManyFreezes freezes ⟨id, amount⟩
    updateFreezes c who freezes

end
end Resonance.Balances
