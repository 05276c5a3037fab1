import Resonance.Foundation.Remainders
import Resonance.MerkleAirdrop.Steps

/-!
The schedule a claim vests under.

What unlocks with a block is the amount divided by the vesting period, rounded
down. Never too much is unlocked, then, but what the division drops is still
locked when the period is over, and may take as long again; the period is kept
exactly by the amounts it divides.
-/
namespace Resonance
open Scaling

/-- The parameters of a `vested_transfer`. -/
structure VestingSchedule where
  locked : ℕ
  perBlock : ℕ
  startingBlock : ℕ
deriving DecidableEq

namespace VestingSchedule

/-- What a schedule still locks at a block. -/
def lockedAt (x : VestingSchedule) (block : ℕ) : ℕ :=
  x.locked - x.perBlock * (block - x.startingBlock)

def unlockedAt (x : VestingSchedule) (block : ℕ) : ℕ := x.locked - x.lockedAt block

/-- From `start` on the schedule unlocks no faster than evenly over the period,
and after the period it locks nothing. -/
structure VestsOver (x : VestingSchedule) (amount start period : ℕ) : Prop where
  ends : ∀ block ≤ u32Max, start + period ≤ block → x.lockedAt block = 0
  even : ∀ block ≤ u32Max, start ≤ block → block ≤ start + period →
    x.unlockedAt block * period ≤ amount * (block - start)

variable {amount start period block : ℕ}

/-- The schedule of an amount that unlocks evenly, rounded down. -/
def even (amount start period : ℕ) : VestingSchedule := ⟨amount, amount / period, start⟩

theorem lockedAt_even :
    (even amount start period).lockedAt block = amount - scale amount period (block - start) :=
  rfl

theorem unlockedAt_even_mul_le :
    (even amount start period).unlockedAt block * period ≤ amount * (block - start) := by
  have unlocked : (even amount start period).unlockedAt block ≤
      scale amount period (block - start) := by
    rw [unlockedAt, lockedAt_even]
    change amount - _ ≤ _
    omega
  exact (Nat.mul_le_mul_right _ unlocked).trans (scale_mul_unit_le _ _ _)

theorem lockedAt_even_period :
    (even amount start period).lockedAt (start + period) = 0 ↔ period ∣ amount := by
  rw [lockedAt_even, Nat.add_sub_cancel_left, Nat.sub_eq_zero_iff_le, self_le_scale_unit_iff]

theorem lockedAt_even_mono {later : ℕ} (le : block ≤ later) :
    (even amount start period).lockedAt later ≤ (even amount start period).lockedAt block := by
  rw [lockedAt_even, lockedAt_even]
  exact Nat.sub_le_sub_left (scale_mono _ _ (Nat.sub_le_sub_right le start)) amount

/-- An amount of at least one unit a block is all unlocked after twice the
period. -/
theorem lockedAt_even_twice (pos : 0 < period) (enough : period ≤ amount) :
    (even amount start period).lockedAt (start + 2 * period) = 0 := by
  have quotient : 1 ≤ amount / period := Nat.div_pos enough pos
  have below : amount < (amount / period + 1) * period := by
    rw [Nat.mul_comm]
    exact Nat.lt_mul_div_succ amount pos
  have twice : (amount / period + 1) * period ≤ amount / period * (2 * period) := by
    rw [← Nat.mul_assoc]
    exact Nat.mul_le_mul_right _ (by omega)
  rw [lockedAt_even, Nat.add_sub_cancel_left, scale]
  omega

/-- Vesting over the period is vesting an amount the period divides, unless no
block is left for the end. -/
theorem vestsOver_even_iff :
    (even amount (min start u32Max) period).VestsOver amount start period ↔
      period ∣ amount ∨ u32Max < start + period := by
  constructor
  · intro h
    rcases Nat.lt_or_ge u32Max (start + period) with beyond | left
    · exact .inr beyond
    · have ended := h.ends (start + period) left le_rfl
      rw [Nat.min_eq_left (by omega), lockedAt_even_period] at ended
      exact .inl ended
  · intro h
    refine ⟨?_, ?_⟩
    · intro block exists_ late
      rcases h with divides | beyond
      · rw [Nat.min_eq_left (by omega)]
        have ended : (even amount start period).lockedAt (start + period) = 0 :=
          lockedAt_even_period.2 divides
        exact Nat.le_zero.1 ((lockedAt_even_mono late).trans ended.le)
      · omega
    · intro block exists_ early _
      rw [Nat.min_eq_left (by omega)]
      exact unlockedAt_even_mul_le

end VestingSchedule

namespace MerkleAirdrop
open Storage VestingSchedule
variable {A V : Type} [DecidableEq A] {c : Config A V} {s s' : State A V}

/-- The schedule a claim of an airdrop passes to `vested_transfer`. -/
def claimSchedule (c : Config A V) (s : State A V) (metadata : AirdropMetadata A) (amount : ℕ) :
    Option VestingSchedule :=
  (perBlock c metadata amount).map fun perBlock =>
    ⟨amount, perBlock, min (s.blockNumber + metadata.vestingDelay.getD 0) u32Max⟩

/-- The `vested_transfer` of a schedule out of the pallet's account. -/
def vest (c : Config A V) (recipient : A) (x : VestingSchedule) :
    Storage DispatchError (BalancesState A × V) PUnit :=
  c.vesting.vestedTransfer c.accountId recipient x.locked x.perBlock x.startingBlock

theorem claimSchedule_even {metadata : AirdropMetadata A} {period : ℕ} (amount : ℕ)
    (vests : metadata.vestingPeriod = some period) (pos : 1 ≤ period)
    (convert : c.blockNumberToBalance period = period) :
    claimSchedule c s metadata amount =
      some (.even amount (min (s.blockNumber + metadata.vestingDelay.getD 0) u32Max) period) := by
  have some : period ≠ 0 := Nat.ne_of_gt pos
  simp only [claimSchedule, perBlock, vests, convert, MachineInt.checkedDiv, if_neg some]
  rfl

/-- The schedule a successful claim creates keeps to the vesting period exactly
if the period divides the amount, or ends after the last block there is. -/
theorem claim_vestsOver_iff {origin : RawOrigin A} {airdropId amount period : ℕ} {recipient : A}
    {merkleProof : List MerkleHash} {metadata : AirdropMetadata A}
    (live : s.airdropInfo.lookup airdropId = some metadata)
    (vests : metadata.vestingPeriod = some period) (pos : 1 ≤ period)
    (convert : c.blockNumberToBalance period = period)
    (run : exec (claim c origin airdropId recipient amount merkleProof) s = (.ok ⟨⟩, s')) :
    ∃ schedule, claimSchedule c s metadata amount = some schedule ∧
      exec (vest c recipient schedule) (s.balances, s.vesting) =
        (.ok ⟨⟩, (s'.balances, s'.vesting)) ∧
      (schedule.VestsOver amount (s.blockNumber + metadata.vestingDelay.getD 0) period ↔
        period ∣ amount ∨ u32Max < s.blockNumber + metadata.vestingDelay.getD 0 + period) := by
  obtain ⟨-, -, metadata', p, w, live', -, -, unlocks, moved, rfl⟩ := claim_ok_iff.mp run
  cases live.symm.trans live'
  have schedule := claimSchedule_even (s := s) amount vests pos convert
  refine ⟨_, schedule, ?_, vestsOver_even_iff⟩
  have parts : p = amount / period := by
    rw [claimSchedule, unlocks] at schedule
    exact congrArg VestingSchedule.perBlock (Option.some.inj schedule)
  subst parts
  exact moved

namespace Mock

/-- An airdrop of both leaves with a vesting period of three blocks and a delay
of ten. -/
def threeBlocks : List (RawOrigin AccountId × Call AccountId) :=
  [(.signed (account 3), .createAirdrop rootHash (some 3) (some 10)),
    (.signed (account 3), .fundAirdrop 0 3000000000000)]

def threeBlocksInfo : AirdropMetadata AccountId :=
  ⟨rootHash, account 3, 3000000000000, some 3, some 10⟩

/-- The state after account 1 has claimed from it. -/
def claimedThree : MockState :=
  (exec (claim config .none 0 (account 1) 1000000000000 [leafHash2])
    (after 1000000000 threeBlocks)).2

theorem claim_three : exec (claim config .none 0 (account 1) 1000000000000 [leafHash2])
    (after 1000000000 threeBlocks) = (.ok ⟨⟩, claimedThree) :=
  exec_eq_of_fst (by decide +kernel)

theorem threeBlocks_info :
    (after 1000000000 threeBlocks).airdropInfo.lookup 0 = some threeBlocksInfo := by
  decide +kernel

end Mock

open Mock in
/-- A third of the amount is no whole number: one unit is still locked in block
14, when the three blocks from block 11 on are over. -/
theorem not_vestsOver_three :
    exec (claim config .none 0 (account 1) 1000000000000 [leafHash2])
      (after 1000000000 threeBlocks) = (.ok ⟨⟩, claimedThree) ∧
    claimSchedule config (after 1000000000 threeBlocks) threeBlocksInfo 1000000000000 =
      some ⟨1000000000000, 333333333333, 11⟩ ∧
    lockedAt ⟨1000000000000, 333333333333, 11⟩ 14 = 1 ∧
    ¬ VestsOver ⟨1000000000000, 333333333333, 11⟩ 1000000000000 11 3 := by
  refine ⟨claim_three, by decide +kernel, by decide, ?_⟩
  intro h
  exact absurd (h.ends 14 (by decide) (by decide)) (by decide)

open Mock in
theorem claim_vestsOver_iff_three : ∃ schedule,
    claimSchedule config (after 1000000000 threeBlocks) threeBlocksInfo 1000000000000 =
      some schedule ∧
    exec (vest config (account 1) schedule)
      ((after 1000000000 threeBlocks).balances, (after 1000000000 threeBlocks).vesting) =
        (.ok ⟨⟩, (claimedThree.balances, claimedThree.vesting)) ∧
    (schedule.VestsOver 1000000000000 ((after 1000000000 threeBlocks).blockNumber + 10) 3 ↔
      3 ∣ 1000000000000 ∨ u32Max < (after 1000000000 threeBlocks).blockNumber + 10 + 3) :=
  claim_vestsOver_iff threeBlocks_info rfl (by decide) rfl claim_three

end MerkleAirdrop
end Resonance
