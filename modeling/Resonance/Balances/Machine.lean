import Mathlib.Data.Multiset.AddSub
import Resonance.Foundation.StateMachine
import Resonance.Balances.Dispatchables
import Resonance.Balances.Freezing
import Resonance.Balances.NamedReserves

/-!
The balances pallet over whole runs.

From a genesis, any operation of the pallet is called on any account. Only its
dispatchables run in a storage layer of their own: what a function of a trait has
written when it fails stays, for its caller may go on. What an operation returns as
imbalances is outstanding until it is dropped, split, merged or offset. Other pallets
hold references to the same accounts; they give back only what they took.
-/
namespace Resonance.Balances
open Storage StateMachine

inductive Op (A I : Type)
  | burn (amount : ℕ)
  | issue (amount : ℕ)
  | slash (who : A) (value : ℕ)
  | depositIntoExisting (who : A) (value : ℕ)
  | depositCreating (who : A) (value : ℕ)
  | withdraw (who : A) (value : ℕ) (liveness : ExistenceRequirement)
  | makeFreeBalanceBe (who : A) (value : ℕ)
  | deactivate (amount : ℕ)
  | reactivate (amount : ℕ)
  | reserve (who : A) (value : ℕ)
  | unreserve (who : A) (value : ℕ)
  | slashReserved (who : A) (value : ℕ)
  | repatriateReserved (slashed beneficiary : A) (value : ℕ) (status : Status)
  | reserveNamed (id : I) (who : A) (value : ℕ)
  | unreserveNamed (id : I) (who : A) (value : ℕ)
  | slashReservedNamed (id : I) (who : A) (value : ℕ)
  | repatriateReservedNamed (id : I) (slashed beneficiary : A) (value : ℕ) (status : Status)
  | setLock (id : I) (who : A) (amount : ℕ) (reasons : WithdrawReasons)
  | extendLock (id : I) (who : A) (amount : ℕ) (reasons : WithdrawReasons)
  | removeLock (id : I) (who : A)
  | setFreeze (id : I) (who : A) (amount : ℕ)
  | extendFreeze (id : I) (who : A) (amount : ℕ)
  | thaw (id : I) (who : A)
  | setBalanceOnHold (reason : I) (who : A) (amount : ℕ)
  | writeBalance (who : A) (amount : ℕ)
  | forceUnreserve (origin : RawOrigin A) (who : MultiAddress A) (amount : ℕ)
  | upgradeAccounts (origin : RawOrigin A) (who : List A)
  | forceSetBalance (origin : RawOrigin A) (who : MultiAddress A) (newFree : ℕ)
  | forceAdjustTotalIssuance (origin : RawOrigin A) (direction : AdjustmentDirection) (delta : ℕ)

/-- What an operation hands to its caller: `positive` is balance that was not issued
for it, `negative` is issued balance that is nobody's. -/
structure Imbalances where
  positive : PositiveImbalance
  negative : NegativeImbalance
deriving DecidableEq

namespace Imbalances

def none : Imbalances := ⟨.zero, .zero⟩

def ofPositive (i : PositiveImbalance) : Imbalances := ⟨i, .zero⟩

def ofNegative (i : NegativeImbalance) : Imbalances := ⟨.zero, i⟩

def ofSigned : SignedImbalance → Imbalances
  | .positive i => ofPositive i
  | .negative i => ofNegative i

/-- What the caller of an unchecked write has to make good. -/
def ofChange (before after : ℕ) : Imbalances := ⟨⟨after - before⟩, ⟨before - after⟩⟩

end Imbalances

section
variable {A I : Type} [DecidableEq A] [LinearOrder I] (c : Config)

/-- The operation in the pallet, and the imbalances it yields. -/
def Op.run : Op A I → BalancesM A I Imbalances
  | .burn amount => .ofPositive <$> Currency.burn amount
  | .issue amount => .ofNegative <$> Currency.issue amount
  | .slash who value => (fun r => .ofNegative r.1) <$> Currency.slash c who value
  | .depositIntoExisting who value =>
    .ofPositive <$> Currency.depositIntoExisting c who value
  | .depositCreating who value => .ofPositive <$> Currency.depositCreating c who value
  | .withdraw who value liveness => .ofNegative <$> Currency.withdraw c who value liveness
  | .makeFreeBalanceBe who value => .ofSigned <$> Currency.makeFreeBalanceBe c who value
  | .deactivate amount => (fun _ => .none) <$> Balances.deactivate amount
  | .reactivate amount => (fun _ => .none) <$> Balances.reactivate amount
  | .reserve who value => (fun _ => .none) <$> Balances.reserve c who value
  | .unreserve who value => (fun _ => .none) <$> Balances.unreserve c who value
  | .slashReserved who value => (fun r => .ofNegative r.1) <$> Balances.slashReserved c who value
  | .repatriateReserved slashed beneficiary value status =>
    (fun _ => .none) <$> Balances.repatriateReserved c slashed beneficiary value status
  | .reserveNamed id who value => (fun _ => .none) <$> Balances.reserveNamed c id who value
  | .unreserveNamed id who value => (fun _ => .none) <$> Balances.unreserveNamed c id who value
  | .slashReservedNamed id who value =>
    (fun r => .ofNegative r.1) <$> Balances.slashReservedNamed c id who value
  | .repatriateReservedNamed id slashed beneficiary value status =>
    (fun _ => .none) <$> Balances.repatriateReservedNamed c id slashed beneficiary value status
  | .setLock id who amount reasons =>
    (fun _ => .none) <$> Balances.setLock c id who amount reasons
  | .extendLock id who amount reasons =>
    (fun _ => .none) <$> Balances.extendLock c id who amount reasons
  | .removeLock id who => (fun _ => .none) <$> Balances.removeLock c id who
  | .setFreeze id who amount => (fun _ => .none) <$> Balances.setFreeze c id who amount
  | .extendFreeze id who amount => (fun _ => .none) <$> Balances.extendFreeze c id who amount
  | .thaw id who => (fun _ => .none) <$> Balances.thaw c id who
  | .setBalanceOnHold reason who amount => do
    let s ← get
    Balances.setBalanceOnHold c reason who amount
    pure (.ofChange (s.balanceOnHold reason who) amount)
  | .writeBalance who amount => do
    let s ← get
    let maybeDust ← Balances.writeBalance c who amount
    handleMaybeDust maybeDust
    pure (.ofChange (s.account who).free amount)
  | .forceUnreserve origin who amount =>
    (fun _ => .none) <$> transactional (Balances.forceUnreserve c origin who amount)
  | .upgradeAccounts origin who =>
    (fun _ => .none) <$> transactional (Balances.upgradeAccounts c origin who)
  | .forceSetBalance origin who newFree =>
    (fun _ => .none) <$> transactional (Balances.forceSetBalance c origin who newFree)
  | .forceAdjustTotalIssuance origin direction delta =>
    (fun _ => .none) <$> transactional (Balances.forceAdjustTotalIssuance origin direction delta)

end

/-- The amounts that are written as they are belong to the balance type. -/
def Op.Fits {A I : Type} : Op A I → Prop
  | .makeFreeBalanceBe _ value => value ≤ u128Max
  | .writeBalance _ amount => amount ≤ u128Max
  | .forceSetBalance _ _ newFree => newFree ≤ u128Max
  | _ => True

/-- `positive` and `negative` are the imbalances outstanding, `others` the references
that other pallets hold. -/
structure World (A I : Type) where
  state : State A I
  positive : Multiset PositiveImbalance
  negative : Multiset NegativeImbalance
  others : A → AccountRefs

/-- What other pallets do with an account. -/
inductive Reference
  | incProviders
  | decProviders
  | incConsumers
  | decConsumers
deriving DecidableEq

inductive Label (A I : Type)
  | call (op : Op A I)
  | dropPositive (i : PositiveImbalance)
  | dropNegative (i : NegativeImbalance)
  | splitPositive (i : PositiveImbalance) (amount : ℕ)
  | splitNegative (i : NegativeImbalance) (amount : ℕ)
  | mergePositive (i j : PositiveImbalance)
  | mergeNegative (i j : NegativeImbalance)
  | offset (i : PositiveImbalance) (j : NegativeImbalance)
  | reference (who : A) (r : Reference)

section
variable {A I : Type} [DecidableEq A] [LinearOrder I] (c : Config)

namespace World

def called (w : World A I) (op : Op A I) : World A I :=
  match exec (op.run c) w.state with
  | (.ok i, s) => { w with
      state := s, positive := i.positive ::ₘ w.positive, negative := i.negative ::ₘ w.negative }
  | (.error _, s) => { w with state := s }

def offset (w : World A I) (i : PositiveImbalance) (j : NegativeImbalance) : World A I :=
  let w := { w with positive := w.positive.erase i, negative := w.negative.erase j }
  match i.offset j with
  | .none => w
  | .same i => { w with positive := i ::ₘ w.positive }
  | .other j => { w with negative := j ::ₘ w.negative }

def putOthers (w : World A I) (who : A) (r : AccountRefs) : World A I :=
  { w with others := Function.update w.others who r }

/-- A reference of another pallet, where frame_system admits it. An account whose
last reference goes is removed. -/
def referenced (w : World A I) (who : A) : Reference → World A I
  | .incProviders =>
    let r := w.others who
    let w := w.putOthers who { r with providers := r.providers + 1 }
    { w with state := (exec (incProviders c who) w.state).2 }
  | .decProviders =>
    match exec (decProviders c who) w.state with
    | (.ok _, s) =>
      let r := w.others who
      let w := w.putOthers who { r with providers := r.providers - 1 }
      { w with state := if (s.refs who).Stored then s else s.putData who none }
    | (.error _, _) => w
  | .incConsumers =>
    match exec (incConsumers c who) w.state with
    | (.ok _, s) =>
      let r := w.others who
      let w := w.putOthers who { r with consumers := r.consumers + 1 }
      { w with state := s }
    | (.error _, _) => w
  | .decConsumers =>
    let r := w.others who
    let w := w.putOthers who { r with consumers := r.consumers - 1 }
    { w with state := (exec (decConsumers c who) w.state).2 }

/-- An imbalance is used once, and another pallet gives back what it holds. -/
inductive Step (w : World A I) : Label A I → World A I → Prop
  | call {op : Op A I} : op.Fits → Step w (.call op) (w.called c op)
  | dropPositive {i : PositiveImbalance} : i ∈ w.positive → Step w (.dropPositive i)
      { w with state := (exec i.drop w.state).2, positive := w.positive.erase i }
  | dropNegative {i : NegativeImbalance} : i ∈ w.negative → Step w (.dropNegative i)
      { w with state := (exec i.drop w.state).2, negative := w.negative.erase i }
  | splitPositive {i : PositiveImbalance} {amount : ℕ} : i ∈ w.positive →
      Step w (.splitPositive i amount) { w with
        positive := (i.split amount).1 ::ₘ (i.split amount).2 ::ₘ w.positive.erase i }
  | splitNegative {i : NegativeImbalance} {amount : ℕ} : i ∈ w.negative →
      Step w (.splitNegative i amount) { w with
        negative := (i.split amount).1 ::ₘ (i.split amount).2 ::ₘ w.negative.erase i }
  | mergePositive {i j : PositiveImbalance} : i ∈ w.positive → j ∈ w.positive.erase i →
      Step w (.mergePositive i j) { w with
        positive := i.merge j ::ₘ (w.positive.erase i).erase j }
  | mergeNegative {i j : NegativeImbalance} : i ∈ w.negative → j ∈ w.negative.erase i →
      Step w (.mergeNegative i j) { w with
        negative := i.merge j ::ₘ (w.negative.erase i).erase j }
  | offset {i : PositiveImbalance} {j : NegativeImbalance} : i ∈ w.positive → j ∈ w.negative →
      Step w (.offset i j) (w.offset i j)
  | incProviders {who : A} : Step w (.reference who .incProviders)
      (w.referenced c who .incProviders)
  | decProviders {who : A} : 0 < (w.others who).providers →
      Step w (.reference who .decProviders) (w.referenced c who .decProviders)
  | incConsumers {who : A} : Step w (.reference who .incConsumers)
      (w.referenced c who .incConsumers)
  | decConsumers {who : A} : 0 < (w.others who).consumers →
      Step w (.reference who .decConsumers) (w.referenced c who .decConsumers)

def Initial (w : World A I) : Prop :=
  ∃ balances, genesis c balances = some w.state ∧ w.positive = 0 ∧ w.negative = 0 ∧
    w.others = fun _ => default

def machine : Machine (World A I) (Label A I) where
  init := Initial c
  step w l w' := Step c w l w'

end World
end

/-- A small configuration, and a world with two accounts. -/
def Config.small : Config := ⟨5, 2, 1, 2, .plain 16, by decide⟩

def World.endowed : World ℕ ℕ :=
  ⟨(genesis .small [(1, 20), (2, 30)]).getD .empty, 0, 0, fun _ => default⟩

theorem World.initial_endowed : World.Initial .small World.endowed :=
  ⟨[(1, 20), (2, 30)], rfl, rfl, rfl, rfl⟩

end Resonance.Balances
