import Resonance.Balances.Accounts

/-!
The transfers of the balances pallet, over the methods frame_support provides.

`transfer`, `hold`, `release` and `transfer_on_hold` are default methods of
frame_support's fungible traits; they are parameters here, and what is documented
of them is stated as laws over the states of a running chain: when they succeed,
and what they move. Each of the pallet's own transfer calls is a check of the
origin, a lookup, `transfer`, and the proof of the transfer.
-/
namespace Resonance
open Storage

abbrev BalancesM (A : Type) := Storage DispatchError (BalancesState A)

def WithdrawConsequence.intoResult (c : WithdrawConsequence) (keepNonzero : Bool) :
    Except DispatchError ℕ :=
  match c with
  | .success => .ok 0
  | .reducedToZero result => if keepNonzero then .error (.token .notExpendable) else .ok result
  | .underflow => .error (.arithmetic .underflow)
  | .balanceLow => .error (.token .fundsUnavailable)
  | .frozen => .error (.token .frozen)
  | .wouldDie => .error (.token .onlyProvider)

/-- What keeps the sender alive must succeed without a remainder. -/
theorem WithdrawConsequence.intoResult_ok_iff {c : WithdrawConsequence} :
    (∃ extra, c.intoResult true = .ok extra) ↔ c = .success := by
  cases c with
  | success => simp [intoResult]
  | reducedToZero result => simp [intoResult]
  | underflow => simp [intoResult]
  | balanceLow => simp [intoResult]
  | frozen => simp [intoResult]
  | wouldDie => simp [intoResult]

structure FungibleMethods (A : Type) where
  transfer : (source dest : A) → (amount : ℕ) → Preservation → BalancesM A PUnit
  hold : RuntimeHoldReason → A → (amount : ℕ) → BalancesM A PUnit
  /-- With `Precision::Exact`. -/
  release : RuntimeHoldReason → A → (amount : ℕ) → BalancesM A PUnit
  /-- With `Precision::Exact`, `Restriction::Free` and `Fortitude::Polite`. -/
  transferOnHold : RuntimeHoldReason → (source dest : A) → (amount : ℕ) → BalancesM A PUnit

variable {A : Type} [DecidableEq A]

/-- The amounts on hold after adding to or taking from one of them. -/
def BalancesState.HoldsAdd (b b' : BalancesState A) (reason : RuntimeHoldReason) (who : A)
    (amount : ℕ) : Prop :=
  ∀ a r, b'.balanceOnHold r a =
    b.balanceOnHold r a + if a = who ∧ r = reason then amount else 0

/-- What is documented of the provided methods, the existential deposit being
`ed`. `Valid` are the states of a running chain. -/
structure FungibleLaws (ed : ℕ) (m : FungibleMethods A) where
  Valid : BalancesState A → Prop
  hold_le_reserved : ∀ {b} {r : RuntimeHoldReason} {a : A}, Valid b →
    b.balanceOnHold r a ≤ (b.account a).reserved
  total_le : ∀ {b} {a : A}, Valid b → (b.account a).free + (b.account a).reserved ≤ u128Max
  valid_storeTransferProof : ∀ {b} {source dest : A} {value : ℕ}, Valid b →
    Valid (b.storeTransferProof source dest value)
  transfer_ok_iff : ∀ {b} {source dest : A} {amount : ℕ} {p : Preservation}, Valid b →
    ((∃ b', exec (m.transfer source dest amount p) b = (.ok ⟨⟩, b')) ↔
      (∃ extra, (b.canWithdraw ed source amount).intoResult (p ≠ .expendable) = .ok extra) ∧
        b.canDeposit ed dest amount .extant = .success)
  transfer_keeps : ∀ {b b'} {source dest : A} {amount : ℕ} {p : Preservation}, Valid b →
    exec (m.transfer source dest amount p) b = (.ok ⟨⟩, b') →
      Valid b' ∧ ∀ a r, b'.balanceOnHold r a = b.balanceOnHold r a
  transfer_moves : ∀ {b b'} {source dest : A} {amount : ℕ}, Valid b → source ≠ dest →
    exec (m.transfer source dest amount .preserve) b = (.ok ⟨⟩, b') →
      (b'.account source).free + amount = (b.account source).free ∧
        (b'.account dest).free = (b.account dest).free + amount
  transfer_self : ∀ {b b'} {who : A} {amount : ℕ} {p : Preservation}, Valid b →
    exec (m.transfer who who amount p) b = (.ok ⟨⟩, b') → b' = b
  hold_moves : ∀ {b b'} {r : RuntimeHoldReason} {who : A} {amount : ℕ}, Valid b →
    exec (m.hold r who amount) b = (.ok ⟨⟩, b') → Valid b' ∧ b.HoldsAdd b' r who amount
  release_ok_iff : ∀ {b} {r : RuntimeHoldReason} {who : A} {amount : ℕ}, Valid b →
    ((∃ b', exec (m.release r who amount) b = (.ok ⟨⟩, b')) ↔
      b.canDeposit ed who amount .extant = .success ∧ amount ≤ b.balanceOnHold r who)
  release_moves : ∀ {b b'} {r : RuntimeHoldReason} {who : A} {amount : ℕ}, Valid b →
    exec (m.release r who amount) b = (.ok ⟨⟩, b') →
      Valid b' ∧ b'.HoldsAdd b r who amount ∧ b'.totalIssuance = b.totalIssuance ∧
        b'.account who = { b.account who with
          free := (b.account who).free + amount
          reserved := (b.account who).reserved - amount } ∧
        ∀ a, a ≠ who → b'.account a = b.account a
  transferOnHold_moves : ∀ {b b'} {r : RuntimeHoldReason} {source dest : A} {amount : ℕ}, Valid b →
    exec (m.transferOnHold r source dest amount) b = (.ok ⟨⟩, b') →
      Valid b' ∧ b'.HoldsAdd b r source amount ∧
        (b'.account dest).free = (b.account dest).free + amount

inductive BalancesCall (A : Type)
  | transferAllowDeath (dest : MultiAddress A) (value : ℕ)
  | forceTransfer (source dest : MultiAddress A) (value : ℕ)
  | transferKeepAlive (dest : MultiAddress A) (value : ℕ)
  | transferAll (dest : MultiAddress A) (keepAlive : Bool)
deriving DecidableEq

section
variable (ed : ℕ) (m : FungibleMethods A)

/-- `transfer` and the proof of it. -/
def transferAndProve (source dest : A) (value : ℕ) (preservation : Preservation) :
    BalancesM A PUnit := do
  m.transfer source dest value preservation
  modify fun b => b.storeTransferProof source dest value

def transferAllowDeath (origin : RawOrigin A) (dest : MultiAddress A) (value : ℕ) :
    BalancesM A PUnit := do
  let source ← ensureSigned origin
  let dest ← lookup dest
  transferAndProve m source dest value .expendable

def forceTransfer (origin : RawOrigin A) (source dest : MultiAddress A) (value : ℕ) :
    BalancesM A PUnit := do
  ensureRoot origin
  let source ← lookup source
  let dest ← lookup dest
  transferAndProve m source dest value .expendable

def transferKeepAlive (origin : RawOrigin A) (dest : MultiAddress A) (value : ℕ) :
    BalancesM A PUnit := do
  let source ← ensureSigned origin
  let dest ← lookup dest
  transferAndProve m source dest value .preserve

def transferAll (origin : RawOrigin A) (dest : MultiAddress A) (keepAlive : Bool) :
    BalancesM A PUnit := do
  let transactor ← ensureSigned origin
  let keepAlive := if keepAlive then .preserve else .expendable
  let b ← get
  let reducibleBalance := b.reducibleBalance ed transactor keepAlive .polite
  let dest ← lookup dest
  transferAndProve m transactor dest reducibleBalance keepAlive

/-- Dispatching a transfer call, in its own storage layer. -/
def BalancesCall.dispatch (call : BalancesCall A) (origin : RawOrigin A) : BalancesM A PUnit :=
  transactional (match call with
    | .transferAllowDeath dest value => Resonance.transferAllowDeath m origin dest value
    | .forceTransfer source dest value => Resonance.forceTransfer m origin source dest value
    | .transferKeepAlive dest value => Resonance.transferKeepAlive m origin dest value
    | .transferAll dest keepAlive => Resonance.transferAll ed m origin dest keepAlive)

end

section
variable {ed : ℕ} {m : FungibleMethods A} {b b' : BalancesState A}

omit [DecidableEq A] in
theorem BalancesState.HoldsAdd.self {b b' : BalancesState A} [DecidableEq A]
    {reason : RuntimeHoldReason} {who : A} {amount : ℕ} (h : b.HoldsAdd b' reason who amount) :
    b'.balanceOnHold reason who = b.balanceOnHold reason who + amount := by
  rw [h who reason, if_pos ⟨rfl, rfl⟩]

@[simp] theorem BalancesState.storeTransferProof_account {source dest : A} {value : ℕ} :
    (b.storeTransferProof source dest value).account = b.account := by
  simp only [storeTransferProof]
  split <;> rfl

@[simp] theorem BalancesState.storeTransferProof_balanceOnHold {source dest a : A} {value : ℕ}
    {r : RuntimeHoldReason} :
    (b.storeTransferProof source dest value).balanceOnHold r a = b.balanceOnHold r a := by
  simp only [storeTransferProof]
  split <;> rfl

theorem transferAndProve_ok_iff {source dest : A} {value : ℕ} {p : Preservation} :
    exec (transferAndProve m source dest value p) b = (.ok ⟨⟩, b') ↔
      ∃ b₁, exec (m.transfer source dest value p) b = (.ok ⟨⟩, b₁) ∧
        b₁.storeTransferProof source dest value = b' := by
  simp only [transferAndProve]
  rw [bind_ok_iff]
  constructor
  · intro ⟨_, b₁, moved, proved⟩
    rw [exec_modify] at proved
    exact ⟨b₁, moved, (Prod.mk.inj proved).2⟩
  · intro ⟨b₁, moved, proved⟩
    refine ⟨⟨⟩, b₁, moved, ?_⟩
    rw [exec_modify, proved]

theorem transferKeepAlive_ok_iff {origin : RawOrigin A} {dest : MultiAddress A} {value : ℕ} :
    exec (transferKeepAlive m origin dest value) b = (.ok ⟨⟩, b') ↔
      ∃ source d, origin = .signed source ∧ dest.lookup = some d ∧
        exec (transferAndProve m source d value .preserve) b = (.ok ⟨⟩, b') := by
  simp only [transferKeepAlive, lookup]
  rw [ensureSigned_bind_ok_iff]
  simp only [okOr_bind_ok_iff]
  constructor
  · intro ⟨source, signed, d, found, run⟩
    exact ⟨source, d, signed, found, run⟩
  · intro ⟨source, d, signed, found, run⟩
    exact ⟨source, signed, d, found, run⟩

theorem transferAndProve_keeps (laws : FungibleLaws ed m) (valid : laws.Valid b) {source dest : A}
    {value : ℕ} {p : Preservation}
    (run : exec (transferAndProve m source dest value p) b = (.ok ⟨⟩, b')) :
    laws.Valid b' ∧ ∀ a r, b'.balanceOnHold r a = b.balanceOnHold r a := by
  obtain ⟨b₁, moved, rfl⟩ := transferAndProve_ok_iff.mp run
  obtain ⟨valid₁, kept⟩ := laws.transfer_keeps valid moved
  refine ⟨laws.valid_storeTransferProof valid₁, ?_⟩
  intro a r
  rw [BalancesState.storeTransferProof_balanceOnHold, kept a r]

/-- A successful transfer call moves nothing into or out of a hold. -/
theorem BalancesCall.dispatch_keeps (laws : FungibleLaws ed m) (valid : laws.Valid b)
    {call : BalancesCall A} {origin : RawOrigin A}
    (run : exec (call.dispatch ed m origin) b = (.ok ⟨⟩, b')) :
    laws.Valid b' ∧ ∀ a r, b'.balanceOnHold r a = b.balanceOnHold r a := by
  simp only [dispatch] at run
  rw [transactional_ok_iff] at run
  cases call with
  | transferAllowDeath dest value =>
      obtain ⟨source, -, run⟩ := ensureSigned_bind_ok_iff.mp run
      obtain ⟨d, -, run⟩ := okOr_bind_ok_iff.mp run
      exact transferAndProve_keeps laws valid run
  | forceTransfer source dest value =>
      obtain ⟨-, run⟩ := ensureRoot_bind_ok_iff.mp run
      obtain ⟨s, -, run⟩ := okOr_bind_ok_iff.mp run
      obtain ⟨d, -, run⟩ := okOr_bind_ok_iff.mp run
      exact transferAndProve_keeps laws valid run
  | transferKeepAlive dest value =>
      obtain ⟨source, d, -, -, run⟩ := transferKeepAlive_ok_iff.mp run
      exact transferAndProve_keeps laws valid run
  | transferAll dest keepAlive =>
      obtain ⟨source, -, run⟩ := ensureSigned_bind_ok_iff.mp run
      dsimp only at run
      rw [exec_get_bind] at run
      obtain ⟨d, -, run⟩ := okOr_bind_ok_iff.mp run
      exact transferAndProve_keeps laws valid run

/-- Where the amount of a transfer that keeps the sender alive goes. -/
theorem transferKeepAlive_moves (laws : FungibleLaws ed m) (valid : laws.Valid b) {who : A}
    {dest : MultiAddress A} {value : ℕ}
    (run : exec ((BalancesCall.transferKeepAlive dest value).dispatch ed m (.signed who)) b =
      (.ok ⟨⟩, b')) :
    ∃ d, dest.lookup = some d ∧ (d = who → b'.account = b.account) ∧
      (d ≠ who → (b'.account who).free + value = (b.account who).free ∧
        (b'.account d).free = (b.account d).free + value) := by
  simp only [BalancesCall.dispatch] at run
  obtain ⟨source, d, signed, found, run⟩ :=
    transferKeepAlive_ok_iff.mp (transactional_ok_iff.mp run)
  cases signed
  obtain ⟨b₁, moved, rfl⟩ := transferAndProve_ok_iff.mp run
  rw [BalancesState.storeTransferProof_account]
  refine ⟨d, found, ?_, fun differ => laws.transfer_moves valid (Ne.symm differ) moved⟩
  intro self
  subst self
  rw [laws.transfer_self valid moved]

end
end Resonance
