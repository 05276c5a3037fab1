import Resonance.MerkleAirdrop.Steps

/-!
What the transaction pool asks of a claim, and what the dispatch asks.

The pool checks that the airdrop is live, that the recipient has not claimed from it
and that the proof leads to its root. The dispatch checks these and then more: the
airdrop's balance, and everything a vested transfer may fail for. A claim costs no
fee, so the difference is what the pool lets in for free.
-/
namespace Resonance.MerkleAirdrop
open Storage StateMachine
variable {A V : Type} [DecidableEq A] {c : Config A V} {s s' : State A V}

/-- The claim is one of an eligible recipient who has not claimed. -/
def Proves (c : Config A V) (s : State A V) (airdropId : ℕ) (recipient : A) (amount : ℕ)
    (merkleProof : List MerkleHash) (metadata : AirdropMetadata A) : Prop :=
  (airdropId, recipient) ∉ s.claimed ∧ s.airdropInfo.lookup airdropId = some metadata ∧
    verifyMerkleProof c recipient amount metadata.merkleRoot merkleProof = true

/-- The airdrop and the pallet's account can pay the amount, and it can be locked. -/
structure Payable (c : Config A V) (s : State A V) (metadata : AirdropMetadata A) (recipient : A)
    (amount : ℕ) : Prop where
  enough : amount ≤ metadata.balance
  unlocks : ∃ p, perBlock c metadata amount = some p ∧ 0 < p
  minimum : c.vesting.minVestedTransfer ≤ amount
  positive : 0 < amount
  room : c.vestingLaws.CanAdd s.vesting recipient
  pays : c.accountId = recipient ∨
    ((∃ extra, (s.balances.canWithdraw c.existentialDeposit c.accountId amount).intoResult false =
        .ok extra) ∧
      s.balances.canDeposit c.existentialDeposit recipient amount .extant = .success)

section
variable {airdropId amount : ℕ} {recipient : A} {merkleProof : List MerkleHash}

theorem validateUnsigned_ok_iff :
    (∃ v, validateUnsigned c s (.claim airdropId recipient amount merkleProof) = .ok v) ↔
      ∃ metadata, Proves c s airdropId recipient amount merkleProof metadata := by
  unfold validateUnsigned Proves
  dsimp only
  cases live : s.airdropInfo.lookup airdropId with
  | none => simp
  | some metadata =>
      dsimp only
      split
      next claimed => simp [claimed]
      next fresh =>
        split
        next refuted => simpa [fresh] using refuted
        next proved => simpa [fresh] using proved

theorem claim_dispatch_ok_iff (valid : c.laws.Valid s.balances) {origin : RawOrigin A} :
    (∃ s', exec ((Call.claim airdropId recipient amount merkleProof).dispatch c origin) s =
        (.ok ⟨⟩, s')) ↔
      origin = .none ∧ ∃ metadata, Proves c s airdropId recipient amount merkleProof metadata ∧
        Payable c s metadata recipient amount := by
  simp only [Call.dispatch]
  simp only [transactional_ok_iff, claim_ok_iff]
  constructor
  · intro ⟨s', unsigned, fresh, metadata, p, w, live, proved, enough, unlocks, moved, _⟩
    obtain ⟨minimum, positive, pays, room, transfers⟩ :=
      (c.vestingLaws.ok_iff valid).mp ⟨w, moved⟩
    exact ⟨unsigned, metadata, ⟨fresh, live, proved⟩, enough, ⟨p, unlocks, pays⟩, minimum, positive,
      room, ((Currency.transfer_ok_iff valid).mp transfers).resolve_left positive.ne'⟩
  · intro ⟨unsigned, metadata, ⟨fresh, live, proved⟩, payable⟩
    obtain ⟨p, unlocks, pays⟩ := payable.unlocks
    obtain ⟨w, moved⟩ := (c.vestingLaws.ok_iff valid).mpr
      ⟨payable.minimum, payable.positive, pays, payable.room,
        (Currency.transfer_ok_iff valid).mpr (.inr payable.pays)⟩
    exact ⟨_, unsigned, fresh, metadata, p, w, live, proved, payable.enough, unlocks, moved, rfl⟩

/-- The pool admits a claim that the dispatch refuses where the proof is good and the
amount cannot be paid or locked, and nowhere else. -/
theorem pool_agrees_iff (reach : Reachable (airdrops c) s) :
    ((∃ v, validateUnsigned c s (.claim airdropId recipient amount merkleProof) = .ok v) ↔
        ∃ s', exec ((Call.claim airdropId recipient amount merkleProof).dispatch c .none) s =
          (.ok ⟨⟩, s')) ↔
      ∀ metadata, Proves c s airdropId recipient amount merkleProof metadata →
        Payable c s metadata recipient amount := by
  rw [validateUnsigned_ok_iff, claim_dispatch_ok_iff (valid_of_reachable reach)]
  constructor
  · intro agrees metadata proves
    obtain ⟨-, metadata', proves', payable⟩ := agrees.mp ⟨metadata, proves⟩
    cases proves.2.1.symm.trans proves'.2.1
    exact payable
  · intro payable
    exact ⟨fun ⟨metadata, proves⟩ => ⟨rfl, metadata, proves, payable metadata proves⟩,
      fun ⟨_, metadata, proves, _⟩ => ⟨metadata, proves⟩⟩

end

namespace Mock

/-- Account 3 creates an airdrop of both leaves. -/
def createOnly : List (RawOrigin AccountId × Call AccountId) :=
  [(.signed (account 3), .createAirdrop rootHash none none)]

/-- It funds the airdrop too. -/
def createAndFund : List (RawOrigin AccountId × Call AccountId) :=
  createOnly ++ [(.signed (account 3), .fundAirdrop 0 3000000000000)]

end Mock

open Mock in
theorem pool_agrees_funded :
    ∃ s', exec ((Call.claim 0 (account 1) 1000000000000 [leafHash2]).dispatch config .none)
      (after 0 createAndFund) = (.ok ⟨⟩, s') := by
  have reach : Reachable (airdrops config) (after 0 createAndFund) :=
    ⟨_, run_extrinsics 0 (by decide) createAndFund (by decide)⟩
  have live : (after 0 createAndFund).airdropInfo.lookup 0 =
    some ⟨rootHash, account 3, 3000000000000, none, none⟩ := by decide +kernel
  have payable (metadata : AirdropMetadata AccountId)
      (proves : Proves config (after 0 createAndFund) 0 (account 1) 1000000000000 [leafHash2]
        metadata) : Payable config (after 0 createAndFund) metadata (account 1) 1000000000000 := by
    cases live.symm.trans proves.2.1
    have room : (after 0 createAndFund).vesting (account 1) < 28 := by decide +kernel
    exact ⟨by decide, ⟨_, rfl, by decide⟩, by decide, by decide, room,
      .inr ⟨⟨0, by decide +kernel⟩, by decide +kernel⟩⟩
  have accepted : ∃ v, validateUnsigned config (after 0 createAndFund)
      (.claim 0 (account 1) 1000000000000 [leafHash2]) = .ok v := by
    refine validateUnsigned_ok_iff.mpr ⟨_, ?_, live, ?_⟩
    · decide +kernel
    · decide +kernel
  exact ((pool_agrees_iff reach).mpr payable).mp accepted

open Mock in
/-- The pool admits a claim from an airdrop that nobody funded; the dispatch refuses it. -/
theorem pool_admits_unfunded :
    Reachable (airdrops config) (after 0 createOnly) ∧
      (∃ v, validateUnsigned config (after 0 createOnly)
        (.claim 0 (account 1) 1000000000000 [leafHash2]) = .ok v) ∧
      exec ((Call.claim 0 (account 1) 1000000000000 [leafHash2]).dispatch config .none)
          (after 0 createOnly) =
        (.error (.merkleAirdrop .insufficientAirdropBalance), after 0 createOnly) := by
  refine ⟨⟨_, run_extrinsics 0 (by decide) createOnly (by decide)⟩, ?_, ?_⟩
  · refine validateUnsigned_ok_iff.mpr ⟨⟨rootHash, account 3, 0, none, none⟩, ?_, ?_, ?_⟩
    · decide +kernel
    · decide +kernel
    · decide +kernel
  · have refused : (exec ((Call.claim 0 (account 1) 1000000000000 [leafHash2]).dispatch config
      .none) (after 0 createOnly)).1 = .error (.merkleAirdrop .insufficientAirdropBalance) := by
      decide +kernel
    exact Prod.ext refused (eq_of_transactional_error (Prod.ext refused rfl))

end Resonance.MerkleAirdrop
