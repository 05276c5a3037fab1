import Mathlib.Logic.Function.Basic
import Resonance.Balances.Transfers

/-!
The provided methods on accounts without reference counting.

Each method checks what frame_support checks and then moves the amounts in one
step; an account that may die and keeps less than the existential deposit loses
the rest as dust. It meets the laws, so they have a model, and examples run on
it.
-/
namespace Resonance
open Storage
variable {A : Type} [DecidableEq A]

namespace BalancesState

def setAccount (b : BalancesState A) (who : A) (x : AccountData) : BalancesState A :=
  { b with account := Function.update b.account who x }

def setHold (b : BalancesState A) (reason : RuntimeHoldReason) (who : A) (amount : ℕ) :
    BalancesState A :=
  { b with holds := Function.update b.holds who (Function.update (b.holds who) reason amount) }

variable {b : BalancesState A} {who a : A} {x : AccountData} {r reason : RuntimeHoldReason}
  {amount : ℕ}

@[simp] theorem setAccount_account :
    (b.setAccount who x).account a = if a = who then x else b.account a := by
  simp [setAccount, Function.update_apply]

@[simp] theorem setAccount_balanceOnHold :
    (b.setAccount who x).balanceOnHold r a = b.balanceOnHold r a := rfl

@[simp] theorem setAccount_totalIssuance :
    (b.setAccount who x).totalIssuance = b.totalIssuance := rfl

@[simp] theorem setHold_account : (b.setHold reason who amount).account = b.account := rfl

@[simp] theorem setHold_totalIssuance :
    (b.setHold reason who amount).totalIssuance = b.totalIssuance := rfl

@[simp] theorem setHold_balanceOnHold :
    (b.setHold reason who amount).balanceOnHold r a =
      if a = who ∧ r = reason then amount else b.balanceOnHold r a := by
  simp only [balanceOnHold, setHold]
  by_cases ha : a = who
  · subst ha
    simp [Function.update_apply]
  · simp [ha]

/-- All amounts on hold are reserved, and the total fits the balance type. -/
def Fits (b : BalancesState A) : Prop :=
  ∀ a, b.balanceOnHold .scheduledTransfer a + b.balanceOnHold .preimage a ≤
      (b.account a).reserved ∧
    (b.account a).free + (b.account a).reserved ≤ u128Max

end BalancesState

namespace Plain
variable (ed : ℕ)

def dust (b : BalancesState A) (source : A) (amount : ℕ) (preservation : Preservation) : ℕ :=
  let left := (b.account source).free - amount
  if preservation = .expendable ∧ left < ed ∧ (b.account source).reserved = 0 then left else 0

def move (b : BalancesState A) (source dest : A) (amount : ℕ) (preservation : Preservation) :
    BalancesState A :=
  if source = dest then b
  else
    let dust := dust ed b source amount preservation
    let b := b.setAccount source
      { b.account source with free := (b.account source).free - amount - dust }
    let b := b.setAccount dest { b.account dest with free := (b.account dest).free + amount }
    { b with totalIssuance := b.totalIssuance - dust }

def transfer (source dest : A) (amount : ℕ) (preservation : Preservation) : BalancesM A PUnit := do
  let b ← get
  let _ ← ofResult ((b.canWithdraw ed source amount).intoResult (preservation ≠ .expendable))
  ensure (b.canDeposit ed dest amount .extant = .success) (.token .cannotCreate)
  set (move ed b source dest amount preservation)

def hold (reason : RuntimeHoldReason) (who : A) (amount : ℕ) : BalancesM A PUnit := do
  let b ← get
  ensure ((b.system who).providers ≠ 0) (.token .cannotCreateHold)
  ensure (amount ≤ b.reducibleBalance ed who .protect .force) (.token .fundsUnavailable)
  let a := b.account who
  let b := b.setAccount who { a with free := a.free - amount, reserved := a.reserved + amount }
  set (b.setHold reason who (b.balanceOnHold reason who + amount))

def release (reason : RuntimeHoldReason) (who : A) (amount : ℕ) : BalancesM A PUnit := do
  let b ← get
  ensure (b.canDeposit ed who amount .extant = .success) (.token .cannotCreate)
  ensure (amount ≤ b.balanceOnHold reason who) (.token .fundsUnavailable)
  let a := b.account who
  let b := b.setAccount who { a with free := a.free + amount, reserved := a.reserved - amount }
  set (b.setHold reason who (b.balanceOnHold reason who - amount))

def transferOnHold (reason : RuntimeHoldReason) (source dest : A) (amount : ℕ) :
    BalancesM A PUnit := do
  let b ← get
  let a := b.account source
  ensure (amount ≤ a.reserved - (a.frozen - a.free)) (.token .frozen)
  ensure (amount ≤ b.balanceOnHold reason source) (.token .fundsUnavailable)
  ensure (b.canDeposit ed dest amount .extant = .success) (.token .cannotCreate)
  let b := b.setAccount source { a with reserved := a.reserved - amount }
  let b := b.setHold reason source (b.balanceOnHold reason source - amount)
  set (b.setAccount dest { b.account dest with free := (b.account dest).free + amount })

def methods : FungibleMethods A where
  transfer := transfer ed
  hold := hold ed
  release := release ed
  transferOnHold := transferOnHold ed

variable {ed}

omit [DecidableEq A] in
theorem reducibleBalance_le {b : BalancesState A} {who : A} {p : Preservation} {f : Fortitude} :
    b.reducibleBalance ed who p f ≤ (b.account who).free :=
  Nat.sub_le _ _

theorem hold_moves {b b' : BalancesState A} {r : RuntimeHoldReason} {who : A} {amount : ℕ}
    (fits : b.Fits) (run : exec (hold ed r who amount) b = (.ok ⟨⟩, b')) :
    b'.Fits ∧ b.HoldsAdd b' r who amount := by
  simp only [hold] at run
  rw [exec_get_bind] at run
  obtain ⟨-, run⟩ := ensure_bind_ok_iff.mp run
  obtain ⟨enough, run⟩ := ensure_bind_ok_iff.mp run
  have le := enough.trans reducibleBalance_le
  cases run
  constructor
  · intro a
    have := fits a
    by_cases ha : a = who
    · subst ha
      cases r <;> simp <;> omega
    · simpa [ha] using this
  · intro a r'
    by_cases ha : a = who ∧ r' = r
    · obtain ⟨rfl, rfl⟩ := ha
      simp
    · simp [ha]

omit [DecidableEq A] in
theorem intoResult_ok_le {b : BalancesState A} {who : A} {amount extra : ℕ} {keep : Bool}
    (ok : (b.canWithdraw ed who amount).intoResult keep = .ok extra) :
    amount ≤ (b.account who).free := by
  simp only [BalancesState.canWithdraw] at ok
  split at ok
  · omega
  · split at ok
    · cases ok
    · split at ok
      · cases ok
      · omega

omit [DecidableEq A] in
theorem canDeposit_success_le {b : BalancesState A} {who : A} {amount : ℕ}
    (fits : (b.account who).free + (b.account who).reserved ≤ u128Max)
    (ok : b.canDeposit ed who amount .extant = .success) :
    (b.account who).free + amount + (b.account who).reserved ≤ u128Max := by
  cases BalancesState.canDeposit_extant_iff.mp ok with
  | inl zero => omega
  | inr h => omega

theorem transfer_ok_iff {b b' : BalancesState A} {source dest : A} {amount : ℕ}
    {p : Preservation} :
    exec (transfer ed source dest amount p) b = (.ok ⟨⟩, b') ↔
      (∃ extra, (b.canWithdraw ed source amount).intoResult (p ≠ .expendable) = .ok extra) ∧
        b.canDeposit ed dest amount .extant = .success ∧
        move ed b source dest amount p = b' := by
  simp only [transfer]
  simp only [exec_get_bind, ofResult_bind_ok_iff, ensure_bind_ok_iff, exec_set, Prod.mk.injEq,
    true_and, exists_and_right]

theorem move_account {b : BalancesState A} {source dest a : A} {amount : ℕ} {p : Preservation}
    (differ : source ≠ dest) :
    (move ed b source dest amount p).account a =
      if a = dest then { b.account dest with free := (b.account dest).free + amount }
      else if a = source then
        { b.account source with
          free := (b.account source).free - amount - dust ed b source amount p }
      else b.account a := by
  simp [move, differ, BalancesState.setAccount, Function.update_apply, differ.symm]

theorem move_balanceOnHold {b : BalancesState A} {source dest a : A} {amount : ℕ}
    {p : Preservation} {r : RuntimeHoldReason} :
    (move ed b source dest amount p).balanceOnHold r a = b.balanceOnHold r a := by
  simp only [move]
  split <;> rfl

theorem transfer_keeps {b b' : BalancesState A} {source dest : A} {amount : ℕ} {p : Preservation}
    (fits : b.Fits) (run : exec (transfer ed source dest amount p) b = (.ok ⟨⟩, b')) :
    b'.Fits ∧ ∀ a r, b'.balanceOnHold r a = b.balanceOnHold r a := by
  obtain ⟨⟨extra, withdrawn⟩, deposited, rfl⟩ := transfer_ok_iff.mp run
  refine ⟨?_, fun a r => move_balanceOnHold⟩
  by_cases same : source = dest
  · rw [move, if_pos same]
    exact fits
  · intro a
    have enough := intoResult_ok_le withdrawn
    have room := canDeposit_success_le (fits dest).2 deposited
    have old := fits a
    rw [move_balanceOnHold, move_balanceOnHold, move_account same]
    by_cases hd : a = dest
    · subst hd
      simpa using ⟨old.1, room⟩
    · by_cases hs : a = source
      · subst hs
        simp only [hd, if_true, if_false]
        omega
      · simpa [hd, hs] using old

theorem transfer_moves {b b' : BalancesState A} {source dest : A} {amount : ℕ}
    (differ : source ≠ dest)
    (run : exec (transfer ed source dest amount .preserve) b = (.ok ⟨⟩, b')) :
    (b'.account source).free + amount = (b.account source).free ∧
      (b'.account dest).free = (b.account dest).free + amount := by
  obtain ⟨⟨extra, withdrawn⟩, -, rfl⟩ := transfer_ok_iff.mp run
  have enough := intoResult_ok_le withdrawn
  have noDust : dust ed b source amount .preserve = 0 := by simp [dust]
  rw [move_account differ, move_account differ, if_neg differ, if_pos rfl, if_pos rfl, noDust]
  dsimp only
  omega

theorem release_ok_iff {b : BalancesState A} {r : RuntimeHoldReason} {who : A} {amount : ℕ} :
    (∃ b', exec (release ed r who amount) b = (.ok ⟨⟩, b')) ↔
      b.canDeposit ed who amount .extant = .success ∧ amount ≤ b.balanceOnHold r who := by
  simp only [release]
  simp [ensure_bind_ok_iff]

/-- Taking an amount out of a hold while the totals stay within their bound. -/
theorem fits_take {b b' : BalancesState A} {r : RuntimeHoldReason} {who : A} {amount : ℕ}
    (fits : b.Fits) (enough : amount ≤ b.balanceOnHold r who)
    (holds : ∀ a r', b'.balanceOnHold r' a =
      if a = who ∧ r' = r then b.balanceOnHold r who - amount else b.balanceOnHold r' a)
    (reserved : ∀ a, (b.account a).reserved ≤
      (b'.account a).reserved + if a = who then amount else 0)
    (total : ∀ a, (b'.account a).free + (b'.account a).reserved ≤ u128Max) :
    b'.Fits ∧ b'.HoldsAdd b r who amount := by
  constructor
  · intro a
    refine ⟨?_, total a⟩
    have old := (fits a).1
    have left := reserved a
    rw [holds, holds]
    by_cases ha : a = who
    · subst ha
      cases r <;> simp at * <;> omega
    · simp only [ha, false_and, if_false] at *
      omega
  · intro a r'
    rw [holds]
    by_cases ha : a = who ∧ r' = r
    · obtain ⟨rfl, rfl⟩ := ha
      simp only [and_self, if_true]
      omega
    · simp [ha]

theorem release_moves {b b' : BalancesState A} {r : RuntimeHoldReason} {who : A} {amount : ℕ}
    (fits : b.Fits) (run : exec (release ed r who amount) b = (.ok ⟨⟩, b')) :
    b'.Fits ∧ b'.HoldsAdd b r who amount ∧ b'.totalIssuance = b.totalIssuance ∧
      b'.account who = { b.account who with
        free := (b.account who).free + amount
        reserved := (b.account who).reserved - amount } ∧
      ∀ a, a ≠ who → b'.account a = b.account a := by
  simp only [release] at run
  rw [exec_get_bind] at run
  obtain ⟨room, run⟩ := ensure_bind_ok_iff.mp run
  obtain ⟨enough, run⟩ := ensure_bind_ok_iff.mp run
  cases run
  refine and_assoc.mp ⟨fits_take fits enough ?_ ?_ ?_, rfl, by simp, fun a ha => by simp [ha]⟩
  · intro a r'
    simp
  · intro a
    by_cases ha : a = who
    · subst ha
      simp
      omega
    · simp [ha]
  · intro a
    by_cases ha : a = who
    · subst ha
      have := canDeposit_success_le (fits a).2 room
      have := (fits a).1
      simp
      omega
    · simpa [ha] using (fits a).2

theorem transferOnHold_moves {b b' : BalancesState A} {r : RuntimeHoldReason} {source dest : A}
    {amount : ℕ} (fits : b.Fits)
    (run : exec (transferOnHold ed r source dest amount) b = (.ok ⟨⟩, b')) :
    b'.Fits ∧ b'.HoldsAdd b r source amount ∧
      (b'.account dest).free = (b.account dest).free + amount := by
  simp only [transferOnHold] at run
  rw [exec_get_bind] at run
  obtain ⟨-, run⟩ := ensure_bind_ok_iff.mp run
  obtain ⟨enough, run⟩ := ensure_bind_ok_iff.mp run
  obtain ⟨room, run⟩ := ensure_bind_ok_iff.mp run
  cases run
  refine and_assoc.mp ⟨fits_take fits enough ?_ ?_ ?_, ?_⟩
  · intro a r'
    simp
  · intro a
    by_cases hs : a = source
    · subst hs
      by_cases hd : a = dest
      · subst hd
        simp
        omega
      · simp [hd]
        omega
    · by_cases hd : a = dest
      · subst hd
        simp [hs]
      · simp [hs, hd]
  · intro a
    have old := (fits a).2
    by_cases hd : a = dest
    · subst hd
      have := canDeposit_success_le (fits a).2 room
      by_cases hs : a = source
      · subst hs
        simp
        omega
      · simp [hs]
        omega
    · by_cases hs : a = source
      · subst hs
        simp [hd]
        omega
      · simpa [hs, hd] using old
  · by_cases hs : dest = source
    · subst hs
      simp
    · simp [hs]

def laws (ed : ℕ) : FungibleLaws ed (methods (A := A) ed) where
  Valid := BalancesState.Fits
  hold_le_reserved {b r a} fits := by
    have := (fits a).1
    cases r <;> omega
  total_le {b a} fits := (fits a).2
  valid_storeTransferProof {b source dest value} fits := by
    intro a
    simpa using fits a
  transfer_ok_iff {b source dest amount p} fits := by
    simp only [methods, transfer_ok_iff]
    simp
  transfer_keeps fits run := transfer_keeps fits run
  transfer_moves _ differ run := transfer_moves differ run
  transfer_self _ run := by
    obtain ⟨-, -, rfl⟩ := transfer_ok_iff.mp run
    exact if_pos rfl
  hold_moves fits run := hold_moves fits run
  release_ok_iff _ := release_ok_iff
  release_moves fits run := release_moves fits run
  transferOnHold_moves fits run := transferOnHold_moves fits run

end Plain
end Resonance
