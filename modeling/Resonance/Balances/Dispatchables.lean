import Resonance.Balances.ImplCurrency

/-!
The calls of the balances pallet that move no balance between accounts, and its
genesis.

`force_set_balance` squares the total issuance itself; `force_adjust_total_issuance`
changes it without any balance. The upgrade of accounts to the new reference counting
is free for the caller if nine in ten accounts needed it.
-/
namespace Resonance.Balances
open Storage

variable {A I : Type} [DecidableEq A] (c : Config)

inductive AdjustmentDirection
  | increase
  | decrease
deriving DecidableEq

inductive Pays
  | yes
  | no
deriving DecidableEq

def forceUnreserve (origin : RawOrigin A) (who : MultiAddress A) (amount : ℕ) :
    BalancesM A I PUnit := do
  ensureRoot origin
  let who ← lookup who
  let _ ← unreserve c who amount

/-- The accounts upgraded, one after the other. -/
def upgradeAll : List A → BalancesM A I ℕ
  | [] => pure 0
  | i :: who => do
    let upgraded ← ensureUpgraded c i
    let count ← upgradeAll who
    pure (if upgraded then count + 1 else count)

/-- The proportion of the upgraded is compared with ninety percent, rounded down. -/
def upgradeAccounts (origin : RawOrigin A) (who : List A) : BalancesM A I Pays := do
  let _ ← ensureSigned origin
  if who.isEmpty then pure .yes
  else do
    let upgradeCount ← upgradeAll c who
    pure (if upgradeCount * 10 ^ 9 / who.length ≥ 900000000 then .no else .yes)

def forceSetBalance (origin : RawOrigin A) (who : MultiAddress A) (newFree : ℕ) :
    BalancesM A I PUnit := do
  ensureRoot origin
  let who ← lookup who
  let newFree := if newFree < c.existentialDeposit then 0 else newFree
  let oldFree ← mutateAccountHandlingDust c who fun account =>
    (account.free, { account with free := newFree })
  if newFree > oldFree then PositiveImbalance.drop ⟨newFree - oldFree⟩
  else if newFree < oldFree then NegativeImbalance.drop ⟨oldFree - newFree⟩
  else pure ⟨⟩

def forceAdjustTotalIssuance (origin : RawOrigin A) (direction : AdjustmentDirection) (delta : ℕ) :
    BalancesM A I PUnit := do
  ensureRoot origin
  ensure (0 < delta) Error.deltaZero.dispatch
  let s ← get
  let new := match direction with
    | .increase => min (s.totalIssuance + delta) u128Max
    | .decrease => s.totalIssuance - delta
  ensure (s.inactiveIssuance ≤ new) Error.issuanceDeactivated.dispatch
  set { s with totalIssuance := new }

def State.empty : State A I where
  refs _ := default
  data := ∅
  totalIssuance := 0
  inactiveIssuance := 0
  locks _ := []
  reserves _ := []
  holds _ := []
  freezes _ := []

/-- The loop of `build` over the endowed accounts. -/
def State.endow (s : State A I) : List (A × ℕ) → State A I
  | [] => s
  | (who, free) :: rest =>
    let s := s.putRefs who (c.system.incProviders (s.refs who))
    let s := s.putData who (some ⟨⟨free, 0, 0⟩, IS_NEW_LOGIC⟩)
    s.endow rest

/-- `GenesisConfig::build`; a failed assertion builds nothing. -/
def genesis (balances : List (A × ℕ)) : Option (State A I) :=
  let total := (balances.map Prod.snd).sum
  if total ≤ u128Max ∧ (∀ b ∈ balances, c.existentialDeposit ≤ b.2) ∧
      (balances.map Prod.fst).Nodup then
    some { (State.empty.endow c balances) with totalIssuance := total }
  else none

end Resonance.Balances
