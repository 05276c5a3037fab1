import Resonance.MerkleAirdrop.UnsignedClaims

/-!
Whether the pallet's account holds what its airdrops are owed.

Funding and deletion keep the account alive and move what they book. A claim may
empty it: a rest below the existential deposit is destroyed, and whatever other
airdrops were owed goes with it. Every other step keeps the account solvent, so a
run is solvent all along exactly if none of its claims does that.
-/
namespace Resonance.MerkleAirdrop
open Storage StateMachine
variable {A V : Type} [DecidableEq A] {c : Config A V} {s s' : State A V}

omit [DecidableEq A] in
def owed (s : State A V) : ℕ := StorageMap.total (fun _ metadata => metadata.balance) s.airdropInfo

def Solvent (c : Config A V) (s : State A V) : Prop :=
  owed s ≤ (s.balances.account c.accountId).free

/-- A claim leaves the pallet's account alive, or owing nothing. -/
def SparesRest (c : Config A V) (s : State A V) : Label A V → Prop
  | .extrinsic .none (.claim airdropId recipient amount merkleProof) =>
    ∀ metadata, Proves c s airdropId recipient amount merkleProof metadata →
      Payable c s metadata recipient amount → c.accountId ≠ recipient →
      c.existentialDeposit + amount ≤ (s.balances.account c.accountId).free ∨
        (s.balances.account c.accountId).reserved ≠ 0 ∨ owed s ≤ amount
  | _ => True

omit [DecidableEq A] in
theorem owed_created {who : A} {merkleRoot : MerkleHash} {vestingPeriod vestingDelay : Option ℕ} :
    owed (s.created who merkleRoot vestingPeriod vestingDelay) ≤ owed s := by
  have books := StorageMap.total_insert (fun _ metadata => metadata.balance) s.airdropInfo
    s.nextAirdropId (⟨merkleRoot, who, 0, vestingPeriod, vestingDelay⟩ : AirdropMetadata A)
  dsimp only [owed, State.created] at books ⊢
  omega

section
variable {airdropId amount : ℕ} {metadata : AirdropMetadata A} {b : BalancesState A}

omit [DecidableEq A] in
theorem balance_le_owed (live : s.airdropInfo.lookup airdropId = some metadata) :
    metadata.balance ≤ owed s := by
  have books := StorageMap.total_erase (fun _ metadata => metadata.balance) s.airdropInfo airdropId
  rw [StorageMap.weight, live] at books
  exact (Nat.le_add_left _ _).trans books.le

omit [DecidableEq A] in
theorem owed_insert (live : s.airdropInfo.lookup airdropId = some metadata)
    (new : AirdropMetadata A) :
    StorageMap.total (fun _ metadata => metadata.balance) (s.airdropInfo.insert airdropId new) +
      metadata.balance = owed s + new.balance := by
  have books := StorageMap.total_insert (fun _ metadata => metadata.balance) s.airdropInfo
    airdropId new
  rwa [StorageMap.weight, live] at books

omit [DecidableEq A] in
theorem owed_funded (live : s.airdropInfo.lookup airdropId = some metadata) :
    owed (s.funded airdropId amount metadata b) ≤ owed s + amount := by
  have books := owed_insert live
    { metadata with balance := min (metadata.balance + amount) u128Max }
  dsimp only [owed, State.funded] at books ⊢
  omega

theorem owed_paid {recipient : A} {v : V} (live : s.airdropInfo.lookup airdropId = some metadata)
    (enough : amount ≤ metadata.balance) :
    owed (s.paid airdropId recipient amount metadata b v) + amount = owed s := by
  have books := owed_insert live { metadata with balance := metadata.balance - amount }
  have share := balance_le_owed live
  dsimp only [owed, State.paid] at books share ⊢
  omega

omit [DecidableEq A] in
theorem owed_deleted (live : s.airdropInfo.lookup airdropId = some metadata) :
    owed (s.deleted airdropId b) + metadata.balance = owed s := by
  have books := StorageMap.total_erase (fun _ metadata => metadata.balance) s.airdropInfo airdropId
  rwa [StorageMap.weight, live] at books

/-- What a payment out of the pallet's account does to its solvency. -/
theorem solvent_paid_iff {recipient : A} {w : BalancesState A × V} {p start : ℕ}
    (valid : c.laws.Valid s.balances) (solvent : Solvent c s)
    (live : s.airdropInfo.lookup airdropId = some metadata) (enough : amount ≤ metadata.balance)
    (moved : exec (c.vesting.vestedTransfer c.accountId recipient amount p start)
      (s.balances, s.vesting) = (.ok ⟨⟩, w)) :
    Solvent c (s.paid airdropId recipient amount metadata w.1 w.2) ↔
      (c.accountId ≠ recipient →
        c.existentialDeposit + amount ≤ (s.balances.account c.accountId).free ∨
          (s.balances.account c.accountId).reserved ≠ 0 ∨ owed s ≤ amount) := by
  have books : owed (s.paid airdropId recipient amount metadata w.1 w.2) + amount = owed s :=
    owed_paid live enough
  obtain ⟨-, positive, -⟩ := (c.vestingLaws.ok_iff valid).mp ⟨w, moved⟩
  obtain ⟨-, b₁, transferred, same⟩ := c.vestingLaws.moves valid moved
  have free := (same c.accountId).1
  simp only [Solvent] at solvent ⊢
  have paid : (s.paid airdropId recipient amount metadata w.1 w.2).balances = w.1 := rfl
  rw [paid, free]
  by_cases self : c.accountId = recipient
  · subst self
    obtain rfl := Currency.transfer_self transferred
    refine ⟨fun _ differ => absurd rfl differ, fun _ => ?_⟩
    omega
  · obtain ⟨le, rest, -⟩ :=
      Currency.transfer_allowDeath c.expendable valid self positive transferred
    rw [rest, AccountData.rest]
    simp only [ne_eq, self, not_false_eq_true, forall_const]
    split
    · omega
    · omega

end

theorem solvent_of_init (h : (airdrops c).init s) : Solvent c s := by
  obtain ⟨-, empty, -⟩ := h
  simp only [Solvent, owed]
  rw [empty]
  exact Nat.zero_le _

/-- Only a claim can end the account's solvency. -/
theorem solvent_other {l : Label A V} (valid : c.laws.Valid s.balances) (solvent : Solvent c s)
    (step : (airdrops c).step s l s')
    (other : ∀ airdropId recipient amount merkleProof,
      succeeded c ⟨s, l, s'⟩ ≠ some (.claim airdropId recipient amount merkleProof)) :
    Solvent c s' := by
  have effect := step_effect step
  generalize succeeded c ⟨s, l, s'⟩ = o at effect other
  cases effect with
  | refused => exact solvent
  | created stranger => exact owed_created.trans solvent
  | @funded who id amount metadata b stranger live moved =>
      obtain ⟨-, received⟩ := Currency.transfer_keepAlive valid stranger moved
      have books : owed (s.funded id amount metadata b) ≤ owed s + amount := owed_funded live
      exact books.trans ((Nat.add_le_add_right solvent amount).trans_eq received.symm)
  | claimed fresh live enough moved => exact absurd rfl (other _ _ _ _)
  | @deleted id metadata b stranger live moved =>
      obtain ⟨paid, -⟩ := Currency.transfer_keepAlive valid (Ne.symm stranger) moved
      have books : owed (s.deleted id b) + metadata.balance = owed s := owed_deleted live
      simp only [Solvent] at solvent ⊢
      dsimp only [State.deleted] at books ⊢
      omega
  | nextBlock => exact solvent
  | outside valid' incoming => exact solvent.trans incoming

theorem solvent_step_iff {l : Label A V} (reach : Reachable (airdrops c) s) (solvent : Solvent c s)
    (step : (airdrops c).step s l s') : Solvent c s' ↔ SparesRest c s l := by
  have valid := valid_of_reachable reach
  by_cases pays : ∃ airdropId recipient amount merkleProof,
    succeeded c ⟨s, l, s'⟩ = some (.claim airdropId recipient amount merkleProof)
  · obtain ⟨airdropId, recipient, amount, merkleProof, done⟩ := pays
    have effect := step_effect step
    rw [done] at effect
    cases effect with
    | @claimed _ _ _ _ _ _ metadata w fresh live enough moved =>
        obtain ⟨-, ran⟩ := succeeded_eq_some_iff.mp done
        obtain ⟨-, metadata', proves, payable⟩ := (claim_dispatch_ok_iff valid).mp ran
        cases live.symm.trans proves.2.1
        refine (solvent_paid_iff valid solvent live enough moved).trans ?_
        exact ⟨fun spares _ _ _ => spares, fun spares => spares metadata proves payable⟩
  · refine iff_of_true (solvent_other valid solvent step ?_) ?_
    · exact fun airdropId recipient amount merkleProof done =>
        pays ⟨airdropId, recipient, amount, merkleProof, done⟩
    · simp only [SparesRest]
      split
      next airdropId recipient amount merkleProof =>
        intro metadata proves payable
        have ran := (claim_dispatch_ok_iff valid).mpr ⟨rfl, metadata, proves, payable⟩
        exact absurd ⟨airdropId, recipient, amount, merkleProof,
          succeeded_eq_some_iff.mpr ⟨rfl, ran⟩⟩ pays
      next => trivial

/-- The pallet's account holds what the airdrops are owed, all along a run, exactly if no
claim of the run destroys a rest of it while something is owed. -/
theorem solvent_iff {τ : List (Transition (State A V) (Label A V))} (run : Run (airdrops c) τ s) :
    (∀ t ∈ τ, Solvent c t.post) ↔ ∀ t ∈ τ, SparesRest c t.pre t.label :=
  run.forall_post_iff (fun _ => solvent_of_init) fun _ _ _ => solvent_step_iff

namespace Mock

/-- Account 1 claims from the funded airdrop. -/
def createFundClaim : List (RawOrigin AccountId × Call AccountId) :=
  createAndFund ++ [(.none, .claim 0 (account 1) 1000000000000 [leafHash2])]

/-- Two airdrops are funded, one with less than the existential deposit, and the other is
claimed in full. -/
def claimBesideSmall : List (RawOrigin AccountId × Call AccountId) :=
  [(.signed (account 3), .createAirdrop rootHash none none),
    (.signed (account 3), .createAirdrop rootHash none none),
    (.signed (account 3), .fundAirdrop 0 1000000000000),
    (.signed (account 3), .fundAirdrop 1 500000000),
    (.none, .claim 0 (account 1) 1000000000000 [leafHash2])]

end Mock

open Mock in
theorem solvent_createFundClaim :
    ∃ τ, Run (airdrops config) τ (after 0 createFundClaim) ∧
      owed (after 0 createFundClaim) = 2000000000000 ∧ ∀ t ∈ τ, Solvent config t.post := by
  have run := run_extrinsics 0 (by decide) createFundClaim (by decide)
  refine ⟨_, run, by decide +kernel, (solvent_iff run).mpr ?_⟩
  refine List.forall_mem_cons.mpr ⟨trivial, List.forall_mem_cons.mpr ⟨trivial,
    List.forall_mem_cons.mpr ⟨?_, List.forall_mem_nil _⟩⟩⟩
  exact fun _ _ _ _ => .inl (by decide +kernel)

open Mock in
/-- What the small airdrop is owed is destroyed with the rest of the account. -/
theorem not_solvent_claimBesideSmall :
    Run (airdrops config) (trace next (start 0) (labels claimBesideSmall))
        (after 0 claimBesideSmall) ∧
      owed (after 0 claimBesideSmall) = 500000000 ∧
      ((after 0 claimBesideSmall).balances.account palletAccount).free = 0 ∧
      ¬ Solvent config (after 0 claimBesideSmall) := by
  have due : owed (after 0 claimBesideSmall) = 500000000 := by decide +kernel
  have empty : ((after 0 claimBesideSmall).balances.account palletAccount).free = 0 := by
    decide +kernel
  refine ⟨run_extrinsics 0 (by decide) claimBesideSmall (by decide), due, empty, fun solvent => ?_⟩
  have covered : owed (after 0 claimBesideSmall) ≤
    ((after 0 claimBesideSmall).balances.account palletAccount).free := solvent
  omega

end Resonance.MerkleAirdrop
