import Mathlib.Data.Finset.Basic
import Resonance.Foundation.StateMachine
import Resonance.MerkleAirdrop.MerkleProofs

/-!
The chain around the merkle-airdrop pallet.

Any account but the pallet's own signs any call, in any order; blocks advance; and
balances and vesting schedules change in any way that takes nothing from the pallet's
account. One lemma for each call says when it succeeds and names the state it ends
in, and `Effect` lists what one step can do.
-/
namespace Resonance.MerkleAirdrop
open Storage StateMachine
variable {A V : Type} [DecidableEq A] {c : Config A V} {s s' : State A V}

namespace State

def created (s : State A V) (who : A) (merkleRoot : MerkleHash)
    (vestingPeriod vestingDelay : Option ℕ) : State A V :=
  let metadata :=
    { merkleRoot := merkleRoot, creator := who, balance := 0, vestingPeriod := vestingPeriod,
      vestingDelay := vestingDelay }
  { s with
    airdropInfo := s.airdropInfo.insert s.nextAirdropId metadata
    nextAirdropId := min (s.nextAirdropId + 1) u32Max
    events := s.events ++ [.airdropCreated s.nextAirdropId metadata] }

def funded (s : State A V) (airdropId amount : ℕ) (metadata : AirdropMetadata A)
    (b : BalancesState A) : State A V :=
  { s with
    balances := b
    airdropInfo := s.airdropInfo.insert airdropId
      { metadata with balance := min (metadata.balance + amount) u128Max }
    events := s.events ++ [.airdropFunded airdropId amount] }

def paid (s : State A V) (airdropId : ℕ) (recipient : A) (amount : ℕ)
    (metadata : AirdropMetadata A) (b : BalancesState A) (v : V) : State A V :=
  { s with
    balances := b
    vesting := v
    airdropInfo := s.airdropInfo.insert airdropId
      { metadata with balance := metadata.balance - amount }
    claimed := insert (airdropId, recipient) s.claimed
    events := s.events ++ [.claimed airdropId recipient amount] }

def deleted (s : State A V) (airdropId : ℕ) (b : BalancesState A) : State A V :=
  { s with
    balances := b
    airdropInfo := s.airdropInfo.erase airdropId
    events := s.events ++ [.airdropDeleted airdropId] }

end State

omit [DecidableEq A] in
theorem createAirdrop_ok {origin : RawOrigin A} {merkleRoot : MerkleHash}
    {vestingPeriod vestingDelay : Option ℕ}
    (run : exec (createAirdrop origin merkleRoot vestingPeriod vestingDelay) s = (.ok ⟨⟩, s')) :
    ∃ who, origin = .signed who ∧ s' = s.created who merkleRoot vestingPeriod vestingDelay := by
  obtain ⟨who, signed, run⟩ := ensureSigned_bind_ok_iff.mp run
  rw [exec_get_bind] at run
  cases run
  exact ⟨who, signed, rfl⟩

omit [DecidableEq A] in
theorem withBalances_ok_iff {x : BalancesM A PUnit} :
    exec (withBalances x) s = (.ok ⟨⟩, s') ↔
      ∃ b, exec x s.balances = (.ok ⟨⟩, b) ∧ { s with balances := b } = s' :=
  zoom_ok_iff

omit [DecidableEq A] in
theorem withVesting_ok_iff {x : Storage DispatchError (BalancesState A × V) PUnit} :
    exec (withVesting x) s = (.ok ⟨⟩, s') ↔
      ∃ w, exec x (s.balances, s.vesting) = (.ok ⟨⟩, w) ∧
        { s with balances := w.1, vesting := w.2 } = s' :=
  zoom_ok_iff

theorem fundAirdrop_ok {origin : RawOrigin A} {airdropId amount : ℕ}
    (run : exec (fundAirdrop c origin airdropId amount) s = (.ok ⟨⟩, s')) :
    ∃ who metadata b, origin = .signed who ∧ s.airdropInfo.lookup airdropId = some metadata ∧
      exec (Currency.transfer c.fungible who c.accountId amount .keepAlive) s.balances =
        (.ok ⟨⟩, b) ∧ s' = s.funded airdropId amount metadata b := by
  obtain ⟨who, signed, run⟩ := ensureSigned_bind_ok_iff.mp run
  rw [exec_get_bind] at run
  obtain ⟨live, run⟩ := ensure_bind_ok_iff.mp run
  obtain ⟨metadata, live⟩ := Option.isSome_iff_exists.mp live
  obtain ⟨_, s₁, moving, run⟩ := bind_ok_iff.mp run
  obtain ⟨b, moved, rfl⟩ := withBalances_ok_iff.mp moving
  rw [mutateBalance, exec_modify_bind] at run
  dsimp only at run
  rw [live] at run
  cases run
  exact ⟨who, metadata, b, signed, live, moved, rfl⟩

theorem claim_ok_iff {origin : RawOrigin A} {airdropId amount : ℕ} {recipient : A}
    {merkleProof : List MerkleHash} :
    exec (claim c origin airdropId recipient amount merkleProof) s = (.ok ⟨⟩, s') ↔
      origin = .none ∧ (airdropId, recipient) ∉ s.claimed ∧ ∃ metadata p w,
        s.airdropInfo.lookup airdropId = some metadata ∧
        verifyMerkleProof c recipient amount metadata.merkleRoot merkleProof = true ∧
        amount ≤ metadata.balance ∧ perBlock c metadata amount = some p ∧
        exec (c.vesting.vestedTransfer c.accountId recipient amount p
          (min (s.blockNumber + metadata.vestingDelay.getD 0) u32Max)) (s.balances, s.vesting) =
            (.ok ⟨⟩, w) ∧
        s' = s.paid airdropId recipient amount metadata w.1 w.2 := by
  simp only [claim]
  rw [ensureNone_bind_ok_iff, exec_get_bind, ensure_bind_ok_iff, okOr_bind_ok_iff]
  refine and_congr_right fun _ => and_congr_right fun _ => ?_
  constructor
  · intro ⟨metadata, live, run⟩
    obtain ⟨proved, run⟩ := ensure_bind_ok_iff.mp run
    obtain ⟨enough, run⟩ := ensure_bind_ok_iff.mp run
    rw [exec_modify_bind, mutateBalance, exec_modify_bind] at run
    dsimp only at run
    rw [live, okOr_bind_ok_iff] at run
    obtain ⟨p, unlocks, run⟩ := run
    obtain ⟨_, s₁, vesting, run⟩ := bind_ok_iff.mp run
    obtain ⟨w, moved, rfl⟩ := withVesting_ok_iff.mp vesting
    cases run
    exact ⟨metadata, p, w, live, proved, enough, unlocks, moved, rfl⟩
  · intro ⟨metadata, p, w, live, proved, enough, unlocks, moved, paid⟩
    subst paid
    refine ⟨metadata, live, ensure_bind_ok_iff.mpr ⟨proved, ensure_bind_ok_iff.mpr ⟨enough, ?_⟩⟩⟩
    rw [exec_modify_bind, mutateBalance, exec_modify_bind]
    dsimp only
    rw [live, okOr_bind_ok_iff]
    exact ⟨p, unlocks, bind_ok_iff.mpr ⟨⟨⟩, _, withVesting_ok_iff.mpr ⟨w, moved, rfl⟩, rfl⟩⟩

theorem deleteAirdrop_ok_iff {origin : RawOrigin A} {airdropId : ℕ} :
    exec (deleteAirdrop c origin airdropId) s = (.ok ⟨⟩, s') ↔
      ∃ metadata b, s.airdropInfo.lookup airdropId = some metadata ∧
        origin = .signed metadata.creator ∧
        exec (Currency.transfer c.fungible c.accountId metadata.creator metadata.balance .keepAlive)
          s.balances = (.ok ⟨⟩, b) ∧ s' = s.deleted airdropId b := by
  simp only [deleteAirdrop]
  simp only [ensureSigned_bind_ok_iff, exec_get_bind, okOr_bind_ok_iff]
  constructor
  · intro ⟨who, signed, metadata, live, run⟩
    obtain ⟨_, s₁, taken, run⟩ := bind_ok_iff.mp run
    cases taken
    obtain ⟨rfl, paying⟩ := ensure_bind_ok_iff.mp run
    obtain ⟨_, s₂, moving, ended⟩ := bind_ok_iff.mp paying
    obtain ⟨b, moved, rfl⟩ := withBalances_ok_iff.mp moving
    cases ended
    exact ⟨metadata, b, live, signed, moved, rfl⟩
  · intro ⟨metadata, b, live, signed, moved, deleted⟩
    subst deleted
    refine ⟨metadata.creator, signed, metadata, live, ?_⟩
    refine bind_ok_iff.mpr ⟨⟨⟩, _, exec_set _ _, ensure_bind_ok_iff.mpr ⟨rfl, ?_⟩⟩
    exact bind_ok_iff.mpr ⟨⟨⟩, _, withBalances_ok_iff.mpr ⟨b, moved, rfl⟩, rfl⟩

inductive Label (A V : Type)
  | extrinsic (origin : RawOrigin A) (call : Call A)
  | nextBlock
  | outside (b : BalancesState A) (v : V)

def airdrops (c : Config A V) : Machine (State A V) (Label A V) where
  init s := c.laws.Valid s.balances ∧ s.airdropInfo = ∅ ∧ s.claimed = ∅ ∧ s.nextAirdropId = 0
  step s l s' := match l with
    | .extrinsic origin call =>
      origin ≠ .signed c.accountId ∧ s' = (exec (call.dispatch c origin) s).2
    | .nextBlock => s' = { s with blockNumber := s.blockNumber + 1, events := [] }
    | .outside b v => c.laws.Valid b ∧
      (s.balances.account c.accountId).free ≤ (b.account c.accountId).free ∧
      s' = { s with balances := b, vesting := v }

/-- The call that was dispatched in a transition and succeeded. -/
def succeeded (c : Config A V) (t : Transition (State A V) (Label A V)) : Option (Call A) :=
  match t.label with
  | .extrinsic origin call =>
    match (exec (call.dispatch c origin) t.pre).1 with
    | .ok _ => some call
    | .error _ => none
  | _ => none

theorem succeeded_eq_some_iff {origin : RawOrigin A} {call call' : Call A} :
    succeeded c ⟨s, .extrinsic origin call, s'⟩ = some call' ↔
      call = call' ∧ ∃ s'', exec (call.dispatch c origin) s = (.ok ⟨⟩, s'') := by
  unfold succeeded
  dsimp only
  rcases exec (call.dispatch c origin) s with ⟨e | _, s''⟩
  · simp
  · simp

/-- What one step does, the call that succeeded in it included. -/
inductive Effect (c : Config A V) (s : State A V) :
    Label A V → Option (Call A) → State A V → Prop
  | refused {origin : RawOrigin A} {call : Call A} : Effect c s (.extrinsic origin call) none s
  | created {who : A} {merkleRoot : MerkleHash} {vestingPeriod vestingDelay : Option ℕ} :
      who ≠ c.accountId →
      Effect c s (.extrinsic (.signed who) (.createAirdrop merkleRoot vestingPeriod vestingDelay))
        (some (.createAirdrop merkleRoot vestingPeriod vestingDelay))
        (s.created who merkleRoot vestingPeriod vestingDelay)
  | funded {who : A} {airdropId amount : ℕ} {metadata : AirdropMetadata A}
      {b : BalancesState A} : who ≠ c.accountId →
      s.airdropInfo.lookup airdropId = some metadata →
      exec (Currency.transfer c.fungible who c.accountId amount .keepAlive) s.balances =
        (.ok ⟨⟩, b) →
      Effect c s (.extrinsic (.signed who) (.fundAirdrop airdropId amount))
        (some (.fundAirdrop airdropId amount)) (s.funded airdropId amount metadata b)
  | claimed {airdropId amount p start : ℕ} {recipient : A} {merkleProof : List MerkleHash}
      {metadata : AirdropMetadata A} {w : BalancesState A × V} :
      (airdropId, recipient) ∉ s.claimed → s.airdropInfo.lookup airdropId = some metadata →
      amount ≤ metadata.balance →
      exec (c.vesting.vestedTransfer c.accountId recipient amount p start)
        (s.balances, s.vesting) = (.ok ⟨⟩, w) →
      Effect c s (.extrinsic .none (.claim airdropId recipient amount merkleProof))
        (some (.claim airdropId recipient amount merkleProof))
        (s.paid airdropId recipient amount metadata w.1 w.2)
  | deleted {airdropId : ℕ} {metadata : AirdropMetadata A} {b : BalancesState A} :
      metadata.creator ≠ c.accountId → s.airdropInfo.lookup airdropId = some metadata →
      exec (Currency.transfer c.fungible c.accountId metadata.creator metadata.balance .keepAlive)
        s.balances = (.ok ⟨⟩, b) →
      Effect c s (.extrinsic (.signed metadata.creator) (.deleteAirdrop airdropId))
        (some (.deleteAirdrop airdropId)) (s.deleted airdropId b)
  | nextBlock : Effect c s .nextBlock none { s with blockNumber := s.blockNumber + 1, events := [] }
  | outside {b : BalancesState A} {v : V} : c.laws.Valid b →
      (s.balances.account c.accountId).free ≤ (b.account c.accountId).free →
      Effect c s (.outside b v) none { s with balances := b, vesting := v }

theorem step_effect {l : Label A V} (step : (airdrops c).step s l s') :
    Effect c s l (succeeded c ⟨s, l, s'⟩) s' := by
  cases l with
  | extrinsic origin call =>
      obtain ⟨stranger, rfl⟩ := step
      unfold succeeded
      dsimp only
      rcases h : exec (call.dispatch c origin) s with ⟨e | _, s'⟩
      · obtain rfl := eq_of_transactional_error h
        exact .refused
      · have run := transactional_ok_iff.mp h
        cases call with
        | createAirdrop merkleRoot vestingPeriod vestingDelay =>
            obtain ⟨who, rfl, rfl⟩ := createAirdrop_ok run
            exact .created fun same => stranger (by rw [same])
        | fundAirdrop airdropId amount =>
            obtain ⟨who, metadata, b, rfl, live, moved, rfl⟩ := fundAirdrop_ok run
            exact .funded (fun same => stranger (by rw [same])) live moved
        | claim airdropId recipient amount merkleProof =>
            obtain ⟨rfl, fresh, metadata, p, w, live, -, enough, -, moved, rfl⟩ :=
              claim_ok_iff.mp run
            exact .claimed fresh live enough moved
        | deleteAirdrop airdropId =>
            obtain ⟨metadata, b, live, rfl, moved, rfl⟩ := deleteAirdrop_ok_iff.mp run
            exact .deleted (fun same => stranger (by rw [same])) live moved
  | nextBlock =>
      obtain rfl := step
      exact .nextBlock
  | outside b v =>
      obtain ⟨valid, incoming, rfl⟩ := step
      exact .outside valid incoming

theorem Effect.valid {l : Label A V} {o : Option (Call A)} (effect : Effect c s l o s')
    (valid : c.laws.Valid s.balances) : c.laws.Valid s'.balances := by
  cases effect with
  | refused => exact valid
  | created stranger => exact valid
  | funded stranger live moved => exact Currency.transfer_valid valid moved
  | claimed fresh live enough moved => exact (c.vestingLaws.moves valid moved).1
  | deleted stranger live moved => exact Currency.transfer_valid valid moved
  | nextBlock => exact valid
  | outside valid' incoming => exact valid'

theorem valid_of_reachable (reach : Reachable (airdrops c) s) : c.laws.Valid s.balances := by
  refine reach.invariant (I := fun s => c.laws.Valid s.balances) ?_ ?_
  · exact fun s start => start.1
  · exact fun s l s' _ valid step => (step_effect step).valid valid

namespace Mock

abbrev MockState := State AccountId (AccountId → ℕ)
abbrev MockLabel := Label AccountId (AccountId → ℕ)

/-- Account 3 is rich, and the pallet's account holds what is given. -/
def balances (pallet : ℕ) : BalancesState AccountId where
  account a :=
    if a = account 3 then ⟨10000000000000, 0, 0⟩
    else if a = palletAccount then ⟨pallet, 0, 0⟩
    else ⟨0, 0, 0⟩
  holds _ _ := 0
  totalIssuance := 10000000000000 + pallet
  transferProof := ∅
  system _ := ⟨0, 0, 1⟩

theorem balances_fits {pallet : ℕ} (fits : pallet ≤ u128Max) : (balances pallet).Fits := by
  intro a
  refine ⟨Nat.zero_le _, ?_⟩
  dsimp only [balances]
  have rich : 10000000000000 ≤ u128Max := by decide
  split
  · exact rich
  · split
    · exact fits
    · exact Nat.zero_le _

def start (pallet : ℕ) : MockState :=
  { blockNumber := 1
    balances := balances pallet
    vesting := fun _ => 0
    airdropInfo := ∅
    claimed := ∅
    nextAirdropId := 0
    events := [] }

def next (s : MockState) : MockLabel → MockState
  | .extrinsic origin call => (exec (call.dispatch config origin) s).2
  | _ => s

/-- The labels of extrinsics, one after another. -/
def labels (calls : List (RawOrigin AccountId × Call AccountId)) : List MockLabel :=
  calls.map fun x => .extrinsic x.1 x.2

/-- The state after the extrinsics, the pallet's account holding `pallet` before. -/
def after (pallet : ℕ) (calls : List (RawOrigin AccountId × Call AccountId)) : MockState :=
  (labels calls).foldl next (start pallet)

theorem run_extrinsics (pallet : ℕ) (fits : pallet ≤ u128Max)
    (calls : List (RawOrigin AccountId × Call AccountId))
    (strangers : ∀ x ∈ calls, x.1 ≠ .signed palletAccount) :
    Run (airdrops config) (trace next (start pallet) (labels calls)) (after pallet calls) := by
  have begin : Run (airdrops config) [] (start pallet) :=
    .start ⟨balances_fits fits, rfl, rfl, rfl⟩
  refine begin.execute ?_
  rintro ⟨s, l, s'⟩ mem
  obtain ⟨x, listed, rfl⟩ := List.mem_map.mp (label_of_mem_trace _ mem)
  exact ⟨strangers x listed, rfl⟩

end Mock
end Resonance.MerkleAirdrop
