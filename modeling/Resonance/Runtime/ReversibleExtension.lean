import Resonance.ReversibleTransfers.Steps
import Resonance.Runtime.Calls

/-!
The transaction extension for reversible accounts.

`validate` refuses a transfer signed by a reversible account, after scheduling it
if the account's policy is to intercept. It looks at the signed call and not into
it: a transfer inside a batch is dispatched without delay.
-/
namespace Resonance
open Storage
variable {A H N O : Type}

/-- `matches!(call, transfer_keep_alive | transfer_allow_death | transfer_all)` -/
def RuntimeCall.isTransfer : RuntimeCall A H O → Bool
  | .balances call => call.isTransfer
  | _ => false

/-- The transfer that the extension schedules in place of a call. -/
def RuntimeCall.intercepted (ed : ℕ) (b : BalancesState A) (who : A) :
    RuntimeCall A H O → Option (MultiAddress A × ℕ)
  | .balances (.transferKeepAlive dest value) => some (dest, value)
  | .balances (.transferAllowDeath dest value) => some (dest, value)
  | .balances (.transferAll dest keepAlive) =>
    some (dest, b.reducibleBalance ed who (if keepAlive then .preserve else .expendable) .polite)
  | _ => none

variable [DecidableEq A] [DecidableEq H] [DecidableEq N]

def validate (c : ReversibleTransfers.Config A H N) (origin : RawOrigin A)
    (call : RuntimeCall A H O) :
    Storage TransactionValidityError (ReversibleTransfers.State A H N) (RawOrigin A) := do
  let who ← mapError (fun _ => TransactionValidityError.invalid .badSigner) (ensureSigned origin)
  let s ← get
  match s.reversibleAccounts who with
  | some data =>
    match data.policy with
    | .explicit => if call.isTransfer then throw (.invalid (.custom 0)) else pure origin
    | .intercept =>
      match call.intercepted c.existentialDeposit s.balances who with
      | some (dest, amount) => do
        mapError (fun _ => TransactionValidityError.invalid (.custom 1))
          (ReversibleTransfers.doScheduleTransfer c origin dest amount)
        throw (.unknown (.custom 255))
      | none => pure origin
  | none => pure origin

/-- The extension lets the call pass, and dispatching it executes a transfer out of
the account that signed it. -/
def Bypasses (r : Runtime A H N O) (who : A) (call : RuntimeCall A H O)
    (s : ReversibleTransfers.State A H N) : Prop :=
  ∃ origin s', exec (validate r.config (.signed who) call) s = (.ok origin, s') ∧
    RuntimeState.Executed who (exec (dispatch r call { caller := origin }) ⟨s', []⟩).2

variable {c : ReversibleTransfers.Config A H N} {r : Runtime A H N O}
  {s : ReversibleTransfers.State A H N} {who : A} {call : RuntimeCall A H O}
  {data : ReversibleTransfers.ReversibleAccountData A}

omit [DecidableEq A] [DecidableEq H] [DecidableEq N] in
theorem intercepted_eq_none_iff {ed : ℕ} {b : BalancesState A} :
    call.intercepted ed b who = none ↔ call.isTransfer = false := by
  cases call with
  | balances call => cases call <;> simp [RuntimeCall.intercepted, RuntimeCall.isTransfer,
      BalancesCall.isTransfer]
  | reversibleTransfers call => simp [RuntimeCall.intercepted, RuntimeCall.isTransfer]
  | batch kind calls => simp [RuntimeCall.intercepted, RuntimeCall.isTransfer]
  | wrapped wrapper call => simp [RuntimeCall.intercepted, RuntimeCall.isTransfer]
  | other call => simp [RuntimeCall.intercepted, RuntimeCall.isTransfer]

/-- Whatever the policy, a reversible account passes exactly with a call that is
not itself a transfer, and the storage stays as it is. -/
theorem validate_ok_iff (reversible : s.reversibleAccounts who = some data) {origin : RawOrigin A}
    {s' : ReversibleTransfers.State A H N} :
    exec (validate c (.signed who) call) s = (.ok origin, s') ↔
      call.isTransfer = false ∧ origin = .signed who ∧ s' = s := by
  have signed : exec (mapError (fun _ => TransactionValidityError.invalid .badSigner)
    (ensureSigned (.signed who))) s = (.ok who, s) := rfl
  simp only [validate]
  rw [exec_bind, signed]
  dsimp only
  rw [exec_get_bind, reversible]
  dsimp only
  cases data.policy with
  | explicit =>
      cases call.isTransfer with
      | true => simp
      | false => simp [eq_comm]
  | intercept =>
      dsimp only
      cases h : call.intercepted c.existentialDeposit s.balances who with
      | none =>
          rw [intercepted_eq_none_iff.mp h]
          simp [eq_comm]
      | some transfer =>
          have is : call.isTransfer ≠ false := fun no => by
            rw [intercepted_eq_none_iff.mpr no] at h
            cases h
          refine iff_of_false ?_ fun pass => is pass.1
          intro run
          obtain ⟨_, _, -, thrown⟩ := bind_ok_iff.mp run
          cases thrown

/-- A transfer of a reversible account is executed at once only if it is not the signed
call itself but lies inside it, under an origin that may make it. -/
theorem not_bypasses_of_not_sends (reversible : s.reversibleAccounts who = some data)
    (h : call.isTransfer = true ∨ ¬ Sends r who call { caller := .signed who }) :
    ¬ Bypasses r who call s := by
  intro ⟨origin, s', pass, executed⟩
  obtain ⟨indirect, rfl, rfl⟩ := (validate_ok_iff reversible).mp pass
  cases h with
  | inl direct =>
      rw [indirect] at direct
      cases direct
  | inr harmless =>
      cases executed_dispatch executed with
      | inl before =>
          obtain ⟨t, mem, -⟩ := before
          cases mem
      | inr sends => exact harmless sends

/-- Every transfer the account can pay bypasses the delay at the head of a batch that
keeps going, whatever comes after it. -/
theorem bypasses_of_opensWith (reversible : s.reversibleAccounts who = some data)
    {transfer : BalancesCall A} (opens : OpensWith r transfer call)
    (indirect : call.isTransfer = false) (sends : transfer.isTransfer = true)
    (payable : (exec (transfer.dispatch r.config.existentialDeposit r.config.fungible
      (.signed who)) s.balances).1 = .ok ⟨⟩) : Bypasses r who call s := by
  refine ⟨.signed who, s, (validate_ok_iff reversible).mpr ⟨indirect, rfl, rfl⟩, ?_⟩
  exact (executed_of_opensWith (s := ⟨s, []⟩) opens rfl sends payable).2

namespace Mock
open ReversibleTransfers.Mock

def callRuntime : Runtime ℕ TxId (TxId × ℕ) Empty where
  config := config
  batchedCallsLimit := 100
  innerOrigin wrapper _ o :=
    match wrapper, o.caller with
    | .asDerivative index, .signed who =>
      .ok { o with caller := .signed (1000 * (who + 1) + index) }
    | .dispatchAs origin, .root => .ok { caller := origin }
    | .withWeight, .root => .ok o
    | .sudo, .signed 9 => .ok { caller := .root }
    | .sudoUncheckedWeight, .signed 9 => .ok { caller := .root }
    | .sudoAs (.id who), .signed 9 => .ok { caller := .signed who }
    | _, _ => .error .badOrigin
  failsWithCall wrapper :=
    match wrapper with
    | .asDerivative _ => true
    | .withWeight => true
    | _ => false
  dispatchOther call _ := nomatch call

def reversible (policy : ReversibleTransfers.DelayPolicy) : MockState :=
  (exec ((ReversibleTransfers.Call.setReversibility (some 2) policy none).dispatch config
    (.signed 1)) (nextBlock (ReversibleTransfers.genesis config [] balances))).2

def batched : RuntimeCall ℕ TxId Empty :=
  .batch .batchAll [.batch .batch [.balances (.transferKeepAlive (.id 2) 1000000000)]]

/-- A batch in which account 1 has a transfer of its own scheduled and sends nothing. -/
def scheduling : RuntimeCall ℕ TxId Empty :=
  .batch .batchAll [.reversibleTransfers (.scheduleTransfer (.id 2) 1000000000)]

end Mock

open Mock in
theorem not_bypasses_scheduling :
    ¬ Bypasses callRuntime 1 scheduling (Mock.reversible .explicit) := by
  have reversible : (Mock.reversible .explicit).reversibleAccounts 1 =
    some ⟨none, 2, .explicit⟩ := rfl
  refine not_bypasses_of_not_sends reversible (.inr ?_)
  rintro ⟨-, -, sends | sends⟩
  · exact sends
  · exact sends

open Mock in
/-- Under either policy the batched transfer arrives in the block it was signed in. -/
theorem batch_bypasses_delay :
    (Mock.reversible .explicit).reversibleAccounts 1 = some ⟨none, 2, .explicit⟩ ∧
      Bypasses callRuntime 1 batched (Mock.reversible .explicit) ∧
      ((exec (dispatch callRuntime batched ⟨.signed 1, false⟩)
        ⟨Mock.reversible .explicit, []⟩).2.pallets.balances.account 2).free = 3000000000 ∧
      (Mock.reversible .intercept).reversibleAccounts 1 = some ⟨none, 2, .intercept⟩ ∧
      Bypasses callRuntime 1 batched (Mock.reversible .intercept) ∧
      ((exec (dispatch callRuntime batched ⟨.signed 1, false⟩)
        ⟨Mock.reversible .intercept, []⟩).2.pallets.balances.account 2).free = 3000000000 := by
  refine ⟨rfl, ⟨_, _, rfl, ?_⟩, by decide, rfl, ⟨_, _, rfl, ?_⟩, by decide⟩
  · exact ⟨(.signed 1, .transferKeepAlive (.id 2) 1000000000), List.mem_singleton_self _, rfl, rfl⟩
  · exact ⟨(.signed 1, .transferKeepAlive (.id 2) 1000000000), List.mem_singleton_self _, rfl, rfl⟩

end Resonance
