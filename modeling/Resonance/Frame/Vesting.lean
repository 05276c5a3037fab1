import Resonance.Balances.Currency

/-!
Transfers that arrive locked.

The vesting pallet belongs to FRAME; what a pallet relies on is a structure with its
laws. `vested_transfer` refuses an amount below the minimum, a schedule that locks or
releases nothing and a target with too many schedules, and otherwise makes a
transfer that may kill its sender. The lock it then puts on the target freezes
balance and moves none.
-/
namespace Resonance
open Storage
variable {A V : Type}

/-- `V` are the vesting schedules of all accounts. -/
structure Vesting (A V : Type) where
  minVestedTransfer : ℕ
  vestedTransfer : (source target : A) → (locked perBlock startingBlock : ℕ) →
    Storage DispatchError (BalancesState A × V) PUnit

variable [DecidableEq A]

structure VestingLaws {ed : ℕ} {m : FungibleMethods A} (laws : FungibleLaws ed m)
    (v : Vesting A V) where
  /-- The account has fewer schedules than `MAX_VESTING_SCHEDULES`. -/
  CanAdd : V → A → Prop
  ok_iff : ∀ {b schedules} {source target : A} {locked perBlock startingBlock : ℕ},
    laws.Valid b →
    ((∃ w, exec (v.vestedTransfer source target locked perBlock startingBlock) (b, schedules) =
        (.ok ⟨⟩, w)) ↔
      v.minVestedTransfer ≤ locked ∧ 0 < locked ∧ 0 < perBlock ∧ CanAdd schedules target ∧
        ∃ b', exec (Currency.transfer m source target locked .allowDeath) b = (.ok ⟨⟩, b'))
  moves : ∀ {b schedules b' schedules'} {source target : A} {locked perBlock startingBlock : ℕ},
    laws.Valid b →
    exec (v.vestedTransfer source target locked perBlock startingBlock) (b, schedules) =
        (.ok ⟨⟩, (b', schedules')) →
      laws.Valid b' ∧ ∃ b₁,
        exec (Currency.transfer m source target locked .allowDeath) b = (.ok ⟨⟩, b₁) ∧
        ∀ a, (b'.account a).free = (b₁.account a).free ∧
          (b'.account a).reserved = (b₁.account a).reserved

namespace Plain

/-- Vesting that counts schedules and freezes what it locks. -/
def vesting (ed minimum : ℕ) : Vesting A (A → ℕ) where
  minVestedTransfer := minimum
  vestedTransfer source target locked perBlock _ := do
    ensure (minimum ≤ locked) (.other "AmountLow")
    ensure (0 < locked ∧ 0 < perBlock) (.other "InvalidScheduleParams")
    let (_, schedules) ← get
    ensure (schedules target < 28) (.other "AtMaxVestingSchedules")
    zoom Prod.fst (fun b w => (b, w.2))
      (Currency.transfer (methods ed) source target locked .allowDeath)
    modify fun (b, schedules) =>
      (b.setAccount target
          { b.account target with frozen := max (b.account target).frozen locked },
        Function.update schedules target (schedules target + 1))

def vestingLaws (ed minimum : ℕ) : VestingLaws (laws (A := A) ed) (vesting ed minimum) where
  CanAdd schedules a := schedules a < 28
  ok_iff {b schedules source target locked perBlock startingBlock} valid := by
    simp only [vesting, ensure_bind_ok_iff, exec_get_bind, exists_and_left]
    constructor
    · intro ⟨enough, ⟨locks, pays⟩, room, w, run⟩
      obtain ⟨_, w₁, zoomed, -⟩ := bind_ok_iff.mp run
      obtain ⟨b', moved, -⟩ := zoom_ok_iff.mp zoomed
      exact ⟨enough, locks, pays, room, b', moved⟩
    · intro ⟨enough, locks, pays, room, b', moved⟩
      refine ⟨enough, ⟨locks, pays⟩, room, ?_⟩
      rw [exec_bind_of_ok (zoom_ok_iff.mpr ⟨b', moved, rfl⟩)]
      exact ⟨_, rfl⟩
  moves {b schedules b' schedules' source target locked perBlock startingBlock} valid run := by
    simp only [vesting, ensure_bind_ok_iff, exec_get_bind] at run
    obtain ⟨-, -, -, run⟩ := run
    obtain ⟨_, w₁, zoomed, frozen⟩ := bind_ok_iff.mp run
    obtain ⟨b₁, moved, rfl⟩ := zoom_ok_iff.mp zoomed
    rw [exec_modify] at frozen
    obtain ⟨rfl, -⟩ := Prod.mk.inj (Prod.mk.inj frozen).2
    have same (a : A) : ((b₁.setAccount target { b₁.account target with
        frozen := max (b₁.account target).frozen locked }).account a).free =
          (b₁.account a).free ∧
        ((b₁.setAccount target { b₁.account target with
          frozen := max (b₁.account target).frozen locked }).account a).reserved =
          (b₁.account a).reserved := by
      rw [BalancesState.setAccount_account]
      split
      next self => exact ⟨congrArg (fun x => (b₁.account x).free) self.symm,
        congrArg (fun x => (b₁.account x).reserved) self.symm⟩
      next => exact ⟨rfl, rfl⟩
    have valid₁ : (laws ed).Valid b₁ := Currency.transfer_valid valid moved
    refine ⟨?_, b₁, moved, same⟩
    intro a
    have fits := valid₁ a
    dsimp only
    rw [(same a).1, (same a).2, BalancesState.setAccount_balanceOnHold,
      BalancesState.setAccount_balanceOnHold]
    exact fits

end Plain
end Resonance
