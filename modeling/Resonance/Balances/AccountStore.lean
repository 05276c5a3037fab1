import Resonance.Balances.Accounts
import Resonance.Foundation.StorageMap
import Resonance.Frame.System

/-!
The accounts of the balances pallet as frame_system stores them, and the one
function that writes them.

Every operation of the pallet changes an account through `try_mutate_account`. It
hands a closure the stored data, moves the provider and consumer references that
the change calls for, and drops what is left of an account below the existential
deposit. An account is only stored as long as somebody provides for it.
-/
namespace Resonance.Balances
open Storage

abbrev ExtraFlags := BitVec 128

def IS_NEW_LOGIC : BitVec 128 := 0x80000000000000000000000000000000#128

def ExtraFlags.setNewLogic (f : ExtraFlags) : ExtraFlags := f ||| IS_NEW_LOGIC

def ExtraFlags.isNewLogic (f : ExtraFlags) : Prop := f &&& IS_NEW_LOGIC = IS_NEW_LOGIC

instance (f : ExtraFlags) : Decidable f.isNewLogic := inferInstanceAs (Decidable (_ = _))

structure AccountData extends Resonance.AccountData where
  flags : ExtraFlags
deriving DecidableEq

instance : Inhabited AccountData := ⟨⟨⟨0, 0, 0⟩, IS_NEW_LOGIC⟩⟩

inductive Reasons
  | fee
  | misc
  | all
deriving DecidableEq

structure BalanceLock (I : Type) where
  id : I
  amount : ℕ
  reasons : Reasons
deriving DecidableEq

structure ReserveData (I : Type) where
  id : I
  amount : ℕ
deriving DecidableEq

structure IdAmount (I : Type) where
  id : I
  amount : ℕ
deriving DecidableEq

structure Config where
  existentialDeposit : ℕ
  maxReserves : ℕ
  maxFreezes : ℕ
  /-- `VariantCountOf<T::RuntimeHoldReason>` -/
  maxHolds : ℕ
  system : RefCounting
  /-- Asserted by `integrity_test`. -/
  existentialDeposit_pos : 0 < existentialDeposit

/-- The four kinds of identifiers are kept in collections of their own, so one
type serves them all. -/
structure State (A I : Type) where
  refs : A → AccountRefs
  data : StorageMap A AccountData
  totalIssuance : ℕ
  inactiveIssuance : ℕ
  locks : A → List (BalanceLock I)
  reserves : A → List (ReserveData I)
  holds : A → List (IdAmount I)
  freezes : A → List (IdAmount I)

abbrev BalancesM (A I : Type) := Storage DispatchError (State A I)

namespace AccountData

def total (a : AccountData) : ℕ := a.free + a.reserved

def Provides (ed : ℕ) (a : AccountData) : Prop := ed ≤ a.free

def Consumes (a : AccountData) : Prop := a.reserved ≠ 0 ∨ a.frozen ≠ 0

/-- Too little is left for the account to be stored. -/
def Dies (ed : ℕ) (a : AccountData) : Prop := a.free < ed ∧ a.reserved = 0

instance (ed : ℕ) (a : AccountData) : Decidable (a.Provides ed) :=
  inferInstanceAs (Decidable (_ ≤ _))

instance (a : AccountData) : Decidable a.Consumes := inferInstanceAs (Decidable (_ ∨ _))

instance (ed : ℕ) (a : AccountData) : Decidable (a.Dies ed) := inferInstanceAs (Decidable (_ ∧ _))

/-- What is stored of an account. -/
def kept (ed : ℕ) (a : AccountData) : AccountData := if a.Dies ed then default else a

/-- What is lost of it. -/
def dust (ed : ℕ) (a : AccountData) : ℕ := if a.Dies ed then a.free else 0

end AccountData

section
variable {A I : Type} [DecidableEq A]

/-- `T::AccountStore::get` -/
def State.account (s : State A I) (who : A) : AccountData := (s.data.lookup who).getD default

/-- All balances there are. -/
def State.balances (s : State A I) : ℕ := StorageMap.total (fun _ => AccountData.total) s.data

def State.putRefs (s : State A I) (who : A) (r : AccountRefs) : State A I :=
  { s with refs := Function.update s.refs who r }

/-- The end of `StoredMap::try_mutate_exists`: an account without references is removed. -/
def State.putData (s : State A I) (who : A) (a : Option AccountData) : State A I :=
  if (s.refs who).Stored then { s with data := s.data.insert who (a.getD default) }
  else { s.putRefs who default with data := s.data.erase who }

variable (c : Config)

def incProviders (who : A) : BalancesM A I PUnit :=
  modify fun s => s.putRefs who (c.system.incProviders (s.refs who))

def decConsumers (who : A) : BalancesM A I PUnit :=
  modify fun s => s.putRefs who (c.system.decConsumers (s.refs who))

def incConsumers (who : A) : BalancesM A I PUnit := do
  let s ← get
  let r ← ofResult (c.system.incConsumers (s.refs who))
  set (s.putRefs who r)

def decProviders (who : A) : BalancesM A I PUnit := do
  let s ← get
  let r ← ofResult (c.system.decProviders (s.refs who))
  set (s.putRefs who r)

/-- `StoredMap::try_mutate_exists` of frame_system. -/
def tryMutateExists {R : Type} (who : A)
    (f : Option AccountData → BalancesM A I (R × Option AccountData)) : BalancesM A I R := do
  let s ← get
  let account := s.account who
  let (result, maybeAccount) ← f (if account = default then none else some account)
  modify fun s => s.putData who maybeAccount
  pure result

def ensureUpgraded (who : A) : BalancesM A I Bool := do
  let s ← get
  let a := s.account who
  if a.flags.isNewLogic then pure false
  else
    let a := { a with flags := a.flags.setNewLogic }
    let a ←
      if a.reserved ≠ 0 ∧ a.frozen = 0 then do
        let a ←
          if (s.refs who).providers = 0 then do
            incProviders c who
            pure { a with free := max a.free c.existentialDeposit }
          else pure a
        -- without a limit, and a failure is only logged
        let s ← get
        match c.system.incConsumersWithoutLimit (s.refs who) with
        | .ok r => set (s.putRefs who r)
        | .error _ => pure ⟨⟩
        pure a
      else pure a
    tryMutateExists who fun _ => pure (⟨⟩, some a)
    pure true

def updateConsumers (who : A) (didConsume doesConsume : Bool) : BalancesM A I PUnit := do
  if didConsume && !doesConsume then decConsumers c who
  if !didConsume && doesConsume then incConsumers c who
  let s ← get
  -- a failsafe of the source
  if doesConsume && (s.refs who).consumers = 0 then incConsumers c who

/-- A failure takes the change of the consumers back as far as possible. -/
def releaseProvider (who : A) (didConsume doesConsume : Bool) : BalancesM A I PUnit := do
  let released ← attempt (decProviders c who)
  match released with
  | .ok _ => pure ⟨⟩
  | .error e =>
    if didConsume && !doesConsume then
      let _ ← attempt (incConsumers c who)
    if !didConsume && doesConsume then decConsumers c who
    throw e

/-- The references follow a change of the account. -/
def updateReferences (who : A) (didProvide didConsume doesProvide doesConsume : Bool) :
    BalancesM A I PUnit := do
  if !didProvide && doesProvide then incProviders c who
  updateConsumers c who didConsume doesConsume
  if didProvide && !doesProvide then releaseProvider c who didConsume doesConsume

def tryMutateAccount {R : Type} (who : A)
    (f : AccountData → (isNew : Bool) → BalancesM A I (R × AccountData)) :
    BalancesM A I (R × Option ℕ) := do
  let _ ← ensureUpgraded c who
  tryMutateExists who fun maybeAccount => do
    let isNew := maybeAccount.isNone
    let account := maybeAccount.getD default
    let didProvide : Bool := account.Provides c.existentialDeposit
    let didConsume : Bool := !isNew && account.Consumes
    let (result, account) ← f account isNew
    let doesProvide : Bool := account.Provides c.existentialDeposit
    let doesConsume : Bool := account.Consumes
    updateReferences c who didProvide didConsume doesProvide doesConsume
    if account.free < c.existentialDeposit ∧ account.reserved = 0 then
      pure ((result, if account.free = 0 then none else some account.free), none)
    else pure ((result, none), some account)

/-- Dust is dropped as a credit. -/
def handleRawDust (dust : ℕ) : BalancesM A I PUnit :=
  modify fun s => { s with totalIssuance := s.totalIssuance - dust }

def handleMaybeDust (maybeDust : Option ℕ) : BalancesM A I PUnit :=
  match maybeDust with
  | some dust => handleRawDust dust
  | none => pure ⟨⟩

def tryMutateAccountHandlingDust {R : Type} (who : A)
    (f : AccountData → (isNew : Bool) → BalancesM A I (R × AccountData)) : BalancesM A I R := do
  let (r, maybeDust) ← tryMutateAccount c who f
  handleMaybeDust maybeDust
  pure r

def mutateAccount {R : Type} (who : A) (f : AccountData → R × AccountData) :
    BalancesM A I (R × Option ℕ) :=
  tryMutateAccount c who fun a _ => pure (f a)

def mutateAccountHandlingDust {R : Type} (who : A) (f : AccountData → R × AccountData) :
    BalancesM A I R := do
  let (r, maybeDust) ← mutateAccount c who f
  handleMaybeDust maybeDust
  pure r

end
end Resonance.Balances
