import Resonance.MerkleAirdrop.Accounting
import Resonance.MerkleAirdrop.Solvency

/-!
What a creator gets back.

Deleting an airdrop pays its balance out of the pallet's account and insists that the
account stays alive. So the account must hold the existential deposit on top of that
balance, and the last airdrop of an account that was only ever funded cannot be
deleted before it is claimed to the last unit.
-/
namespace Resonance.MerkleAirdrop
open Storage StateMachine
variable {A V : Type} [DecidableEq A] {c : Config A V} {s s' : State A V} {id : ℕ}
  {metadata : AirdropMetadata A}

/-- Deleting the airdrop succeeds, pays its creator what it holds and removes it. -/
def Recovers (c : Config A V) (s : State A V) (id : ℕ) (metadata : AirdropMetadata A) : Prop :=
  ∃ s', exec ((Call.deleteAirdrop id).dispatch c (.signed metadata.creator)) s = (.ok ⟨⟩, s') ∧
    (s'.balances.account metadata.creator).free =
      (s.balances.account metadata.creator).free + metadata.balance ∧
    (s'.balances.account c.accountId).free + metadata.balance =
      (s.balances.account c.accountId).free ∧
    s'.airdropInfo = s.airdropInfo.erase id

/-- The pallet's account can pay the amount and stay alive, and the creator's can take it. -/
structure Refundable (c : Config A V) (b : BalancesState A) (creator : A) (amount : ℕ) :
    Prop where
  alive : c.existentialDeposit + amount ≤ (b.account c.accountId).free
  issued : amount ≤ b.totalIssuance
  unfrozen : (b.account c.accountId).frozen + amount ≤
    (b.account c.accountId).free + (b.account c.accountId).reserved
  receives : c.existentialDeposit ≤ (b.account creator).free + amount
  fits : (b.account creator).reserved + ((b.account creator).free + amount) ≤ u128Max

theorem creator_ne_accountId (reach : Reachable (airdrops c) s)
    (live : s.airdropInfo.lookup id = some metadata) : metadata.creator ≠ c.accountId := by
  obtain ⟨τ, run⟩ := reach
  obtain ⟨t, mem, merkleRoot, vestingPeriod, vestingDelay, label, -⟩ :=
    createdBy_creator run id metadata live
  obtain ⟨-, step⟩ := run.mem_step t mem
  rw [label] at step
  exact fun same => step.1 (by rw [same])

theorem refund_ok_iff {b : BalancesState A} {creator : A} {amount : ℕ} (valid : c.laws.Valid b)
    (stranger : creator ≠ c.accountId) (positive : 0 < amount) :
    (∃ b', exec (Currency.transfer c.fungible c.accountId creator amount .keepAlive) b =
        (.ok ⟨⟩, b')) ↔ Refundable c b creator amount := by
  rw [Currency.transfer_ok_iff valid]
  simp only [ExistenceRequirement.preservation, ne_eq, reduceCtorEq, not_false_eq_true,
    decide_true, WithdrawConsequence.intoResult_ok_iff]
  rw [BalancesState.canWithdraw_success_iff (c.laws.total_le valid),
    BalancesState.canDeposit_extant_iff]
  have apart : c.accountId ≠ creator := Ne.symm stranger
  simp only [positive.ne', apart, false_or]
  exact ⟨fun ⟨⟨issued, alive, unfrozen⟩, receives, fits⟩ =>
      ⟨alive, issued, unfrozen, receives, fits⟩,
    fun ok => ⟨⟨ok.issued, ok.alive, ok.unfrozen⟩, ok.receives, ok.fits⟩⟩

/-- The creator recovers an airdrop exactly if the pallet's account can pay it and stay
alive, and the creator's can take it. -/
theorem recovers_iff (reach : Reachable (airdrops c) s)
    (live : s.airdropInfo.lookup id = some metadata) (positive : 0 < metadata.balance) :
    Recovers c s id metadata ↔ Refundable c s.balances metadata.creator metadata.balance := by
  have valid := valid_of_reachable reach
  have stranger := creator_ne_accountId reach live
  rw [← refund_ok_iff valid stranger positive]
  constructor
  · intro ⟨s', run, _⟩
    obtain ⟨metadata', b, live', -, moved, -⟩ :=
      deleteAirdrop_ok_iff.mp (transactional_ok_iff.mp run)
    cases live.symm.trans live'
    exact ⟨b, moved⟩
  · intro ⟨b, moved⟩
    obtain ⟨paid, received⟩ := Currency.transfer_keepAlive valid (Ne.symm stranger) moved
    exact ⟨s.deleted id b, transactional_ok_iff.mpr
      (deleteAirdrop_ok_iff.mpr ⟨metadata, b, live, rfl, moved, rfl⟩), received, paid, rfl⟩

open Mock in
theorem recovers_above_deposit :
    Recovers config (after 1000000000 createAndFund) 0
      ⟨rootHash, account 3, 3000000000000, none, none⟩ := by
  have reach : Reachable (airdrops config) (after 1000000000 createAndFund) :=
    ⟨_, run_extrinsics 1000000000 (by decide) createAndFund (by decide)⟩
  refine (recovers_iff reach (by decide +kernel) (by decide)).mpr ⟨?_, ?_, ?_, ?_, ?_⟩
  · decide +kernel
  · decide +kernel
  · decide +kernel
  · decide +kernel
  · decide +kernel

open Mock in
/-- The only airdrop of an account that held nothing cannot be deleted. -/
theorem not_recovers_last :
    Run (airdrops config) (trace next (start 0) (labels createAndFund)) (after 0 createAndFund) ∧
      (after 0 createAndFund).airdropInfo.lookup 0 =
        some ⟨rootHash, account 3, 3000000000000, none, none⟩ ∧
      Solvent config (after 0 createAndFund) ∧
      config.existentialDeposit ≤ ((after 0 createAndFund).balances.account (account 3)).free ∧
      (exec ((Call.deleteAirdrop 0).dispatch config (.signed (account 3)))
        (after 0 createAndFund)).1 = .error (.token .notExpendable) ∧
      ¬ Recovers config (after 0 createAndFund) 0
        ⟨rootHash, account 3, 3000000000000, none, none⟩ := by
  have refused : (exec ((Call.deleteAirdrop 0).dispatch config (.signed (account 3)))
    (after 0 createAndFund)).1 = .error (.token .notExpendable) := by decide +kernel
  refine ⟨run_extrinsics 0 (by decide) createAndFund (by decide), ?_, ?_, ?_, refused, ?_⟩
  · decide +kernel
  · simp only [Solvent]
    decide +kernel
  · decide +kernel
  · intro ⟨s', run, _⟩
    rw [run] at refused
    cases refused

end Resonance.MerkleAirdrop
