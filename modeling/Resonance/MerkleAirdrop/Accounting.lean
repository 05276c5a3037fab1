import Mathlib.Data.List.Nodup
import Mathlib.Data.List.Range
import Resonance.MerkleAirdrop.Steps

/-!
What the airdrops owe, over whole runs.

A run is summed up by the calls that succeeded in it and the ids it gave out. Ids are
given out in order, a deleted airdrop never comes back under its id, and as long as no
balance saturates, what is stored for an airdrop is what was funded less what was
claimed.
-/
namespace Resonance.MerkleAirdrop
open Storage StateMachine
variable {A V : Type} [DecidableEq A] {c : Config A V} {s s' : State A V}

namespace Call

def fundingOf (airdropId : ℕ) : Call A → ℕ
  | .fundAirdrop id amount => if id = airdropId then amount else 0
  | _ => 0

def claimOf (airdropId : ℕ) : Call A → ℕ
  | .claim id _ amount _ => if id = airdropId then amount else 0
  | _ => 0

def isClaimBy (airdropId : ℕ) (recipient : A) : Call A → Bool
  | .claim id account _ _ => id = airdropId ∧ account = recipient
  | _ => false

/-- The call pays into, pays out of or deletes the airdrop. -/
def Concerns (airdropId : ℕ) : Call A → Prop
  | .createAirdrop .. => False
  | .fundAirdrop id _ => id = airdropId
  | .claim id _ _ _ => id = airdropId
  | .deleteAirdrop id => id = airdropId

end Call

omit [DecidableEq A] in
def fundings (airdropId : ℕ) (calls : List (Call A)) : ℕ :=
  (calls.map (Call.fundingOf airdropId)).sum

omit [DecidableEq A] in
def claims (airdropId : ℕ) (calls : List (Call A)) : ℕ :=
  (calls.map (Call.claimOf airdropId)).sum

/-- The calls that succeeded, in order. -/
def history (c : Config A V) (τ : List (Transition (State A V) (Label A V))) : List (Call A) :=
  τ.flatMap fun t => (succeeded c t).toList

/-- The id that a call gives out, `n` being the next one. -/
def newIds (n : ℕ) : Option (Call A) → List ℕ
  | some (.createAirdrop ..) => [n]
  | _ => []

def createdIds (c : Config A V) (τ : List (Transition (State A V) (Label A V))) : List ℕ :=
  τ.flatMap fun t => newIds t.pre.nextAirdropId (succeeded c t)

/-- The balance of a funded airdrop fits its type. -/
def FundingFits (c : Config A V) (t : Transition (State A V) (Label A V)) : Prop :=
  ∀ airdropId amount metadata, succeeded c t = some (.fundAirdrop airdropId amount) →
    t.pre.airdropInfo.lookup airdropId = some metadata → metadata.balance + amount ≤ u128Max

/-- The books after a run, given the ids it gave out and the calls that succeeded. -/
structure Ledger (ids : List ℕ) (calls : List (Call A)) (s : State A V) : Prop where
  ids : ids = List.range s.nextAirdropId
  known : ∀ call ∈ calls, ∀ id, call.Concerns id → id < s.nextAirdropId
  live : ∀ id metadata, s.airdropInfo.lookup id = some metadata → id < s.nextAirdropId
  dead : ∀ id, .deleteAirdrop id ∈ calls → s.airdropInfo.lookup id = none
  claimed : ∀ id recipient, (∃ call ∈ calls, call.isClaimBy id recipient = true) ↔
    (id, recipient) ∈ s.claimed
  once : ∀ id recipient, calls.countP (Call.isClaimBy id recipient) ≤ 1
  balance : ∀ id metadata, s.airdropInfo.lookup id = some metadata →
    metadata.balance + claims id calls = fundings id calls

section
variable {calls : List (Call A)} {call : Call A} {id : ℕ}

omit [DecidableEq A] in
@[simp] theorem fundings_snoc :
    fundings id (calls ++ [call]) = fundings id calls + call.fundingOf id := by
  simp [fundings]

omit [DecidableEq A] in
@[simp] theorem claims_snoc :
    claims id (calls ++ [call]) = claims id calls + call.claimOf id := by
  simp [claims]

omit [DecidableEq A] in
theorem fundings_eq_zero (unknown : ∀ call ∈ calls, ¬ call.Concerns id) :
    fundings id calls = 0 := by
  refine List.sum_eq_zero fun n mem => ?_
  obtain ⟨call, known, rfl⟩ := List.mem_map.mp mem
  cases call with
  | fundAirdrop i amount => exact if_neg (unknown _ known)
  | createAirdrop root period delay => rfl
  | claim i recipient amount proof => rfl
  | deleteAirdrop i => rfl

omit [DecidableEq A] in
theorem claims_eq_zero (unknown : ∀ call ∈ calls, ¬ call.Concerns id) : claims id calls = 0 := by
  refine List.sum_eq_zero fun n mem => ?_
  obtain ⟨call, known, rfl⟩ := List.mem_map.mp mem
  cases call with
  | claim i recipient amount proof => exact if_neg (unknown _ known)
  | createAirdrop root period delay => rfl
  | fundAirdrop i amount => rfl
  | deleteAirdrop i => rfl

end

namespace Ledger
variable {ids : List ℕ} {calls : List (Call A)} {id : ℕ} {metadata : AirdropMetadata A}
  {b : BalancesState A}

theorem unknown (inv : Ledger ids calls s) : ∀ call ∈ calls, ¬ call.Concerns s.nextAirdropId :=
  fun call mem concerns => Nat.lt_irrefl _ (inv.known call mem _ concerns)

/-- Of a live airdrop nothing was deleted. -/
theorem not_deleted (inv : Ledger ids calls s) (live : s.airdropInfo.lookup id = some metadata) :
    .deleteAirdrop id ∉ calls := by
  intro mem
  cases (inv.dead id mem).symm.trans live

theorem known_snoc (inv : Ledger ids calls s) {call : Call A}
    (last : ∀ i, call.Concerns i → i < s.nextAirdropId) :
    ∀ call' ∈ calls ++ [call], ∀ i, call'.Concerns i → i < s.nextAirdropId := by
  intro call' mem i concerns
  rw [List.mem_append, List.mem_singleton] at mem
  cases mem with
  | inl before => exact inv.known call' before i concerns
  | inr same => exact last i (same ▸ concerns)

/-- Only what is stored for a live airdrop is replaced. -/
theorem live_insert (inv : Ledger ids calls s) (live : s.airdropInfo.lookup id = some metadata)
    (new : AirdropMetadata A) : ∀ i m, (s.airdropInfo.insert id new).lookup i = some m →
      i < s.nextAirdropId := by
  intro i m found
  rw [StorageMap.lookup_insert_eq_ite] at found
  split at found
  next same =>
    rw [same]
    exact inv.live id metadata live
  next => exact inv.live i m found

theorem dead_insert (inv : Ledger ids calls s) (live : s.airdropInfo.lookup id = some metadata)
    (new : AirdropMetadata A) {call : Call A} (other : ∀ i, .deleteAirdrop i ≠ call) :
    ∀ i, .deleteAirdrop i ∈ calls ++ [call] → (s.airdropInfo.insert id new).lookup i = none := by
  intro i mem
  rw [List.mem_append, List.mem_singleton] at mem
  have before := mem.resolve_right (other i)
  have apart : i ≠ id := fun same => inv.not_deleted live (same ▸ before)
  rw [StorageMap.lookup_insert_eq_ite, if_neg apart, inv.dead i before]

theorem claimed_snoc (inv : Ledger ids calls s) {call : Call A}
    (other : ∀ i recipient, call.isClaimBy i recipient = false) :
    ∀ i recipient, (∃ call' ∈ calls ++ [call], call'.isClaimBy i recipient = true) ↔
      (i, recipient) ∈ s.claimed := by
  intro i recipient
  rw [← inv.claimed i recipient]
  simp [other]

theorem once_snoc (inv : Ledger ids calls s) {call : Call A}
    (other : ∀ i recipient, call.isClaimBy i recipient = false) :
    ∀ i recipient, (calls ++ [call]).countP (Call.isClaimBy i recipient) ≤ 1 := by
  intro i recipient
  rw [List.countP_append, List.countP_singleton, other, if_neg Bool.false_ne_true]
  exact inv.once i recipient

/-- A call that moves what it says in one airdrop, and nothing in the others, keeps the
balances in step with the calls. -/
theorem balance_insert (inv : Ledger ids calls s) (live : s.airdropInfo.lookup id = some metadata)
    {new : AirdropMetadata A} {call : Call A}
    (moved : new.balance + call.claimOf id = metadata.balance + call.fundingOf id)
    (still : ∀ i, i ≠ id → call.claimOf i = 0 ∧ call.fundingOf i = 0) :
    ∀ i m, (s.airdropInfo.insert id new).lookup i = some m →
      m.balance + claims i (calls ++ [call]) = fundings i (calls ++ [call]) := by
  intro i m found
  rw [StorageMap.lookup_insert_eq_ite] at found
  rw [claims_snoc, fundings_snoc]
  split at found
  next same =>
    subst same
    cases found
    have books := inv.balance i metadata live
    omega
  next other =>
    have books := inv.balance i m found
    obtain ⟨unclaimed, unfunded⟩ := still i other
    omega

theorem created (inv : Ledger ids calls s) (few : s.nextAirdropId < u32Max) (who : A)
    (merkleRoot : MerkleHash) (vestingPeriod vestingDelay : Option ℕ) :
    Ledger (ids ++ [s.nextAirdropId])
      (calls ++ [.createAirdrop merkleRoot vestingPeriod vestingDelay])
      (s.created who merkleRoot vestingPeriod vestingDelay) := by
  have next : min (s.nextAirdropId + 1) u32Max = s.nextAirdropId + 1 := by omega
  refine ⟨?_, ?_, ?_, ?_, ?_, ?_, ?_⟩
  · dsimp only [State.created]
    rw [next, List.range_succ, ← inv.ids]
  · intro call mem id concerns
    dsimp only [State.created]
    rw [List.mem_append, List.mem_singleton] at mem
    cases mem with
    | inl before =>
        have := inv.known call before id concerns
        omega
    | inr last =>
        subst last
        cases concerns
  · intro id metadata live
    dsimp only [State.created] at live ⊢
    rw [StorageMap.lookup_insert_eq_ite] at live
    split at live
    · omega
    · have := inv.live id metadata live
      omega
  · intro id mem
    rw [List.mem_append, List.mem_singleton] at mem
    have before := mem.resolve_right nofun
    have old := inv.known _ before id rfl
    dsimp only [State.created]
    rw [StorageMap.lookup_insert_eq_ite, if_neg (by omega), inv.dead id before]
  · exact inv.claimed_snoc fun _ _ => rfl
  · exact inv.once_snoc fun _ _ => rfl
  · intro id metadata live
    dsimp only [State.created] at live
    rw [StorageMap.lookup_insert_eq_ite] at live
    rw [claims_snoc, fundings_snoc]
    split at live
    next new =>
      cases live
      rw [new, claims_eq_zero inv.unknown, fundings_eq_zero inv.unknown]
      rfl
    next => exact inv.balance id metadata live

theorem funded (inv : Ledger ids calls s) (live : s.airdropInfo.lookup id = some metadata)
    {amount : ℕ} (fits : metadata.balance + amount ≤ u128Max) :
    Ledger ids (calls ++ [.fundAirdrop id amount]) (s.funded id amount metadata b) := by
  refine ⟨inv.ids, ?_, ?_, ?_, ?_, ?_, ?_⟩
  · refine inv.known_snoc fun i concerns => ?_
    cases concerns
    exact inv.live id metadata live
  · exact inv.live_insert live _
  · exact inv.dead_insert live _ nofun
  · exact inv.claimed_snoc fun _ _ => rfl
  · exact inv.once_snoc fun _ _ => rfl
  · refine inv.balance_insert live ?_ fun i other => ⟨rfl, if_neg (Ne.symm other)⟩
    simp only [Call.claimOf, Call.fundingOf, if_true]
    omega

theorem claimPaid (inv : Ledger ids calls s) {recipient : A} {amount : ℕ} {v : V}
    {merkleProof : List MerkleHash} (fresh : (id, recipient) ∉ s.claimed)
    (live : s.airdropInfo.lookup id = some metadata) (enough : amount ≤ metadata.balance) :
    Ledger ids (calls ++ [.claim id recipient amount merkleProof])
      (s.paid id recipient amount metadata b v) := by
  refine ⟨inv.ids, ?_, ?_, ?_, ?_, ?_, ?_⟩
  · refine inv.known_snoc fun i concerns => ?_
    cases concerns
    exact inv.live id metadata live
  · exact inv.live_insert live _
  · exact inv.dead_insert live _ nofun
  · intro i account
    dsimp only [State.paid]
    rw [Finset.mem_insert, ← inv.claimed i account, Prod.mk.injEq]
    constructor
    · intro ⟨call, mem, claims⟩
      rw [List.mem_append, List.mem_singleton] at mem
      cases mem with
      | inl before => exact .inr ⟨call, before, claims⟩
      | inr last =>
          subst last
          obtain ⟨rfl, rfl⟩ := of_decide_eq_true claims
          exact .inl ⟨rfl, rfl⟩
    · intro claims
      cases claims with
      | inl new =>
          obtain ⟨rfl, rfl⟩ := new
          exact ⟨_, List.mem_append_right _ (List.mem_singleton_self _), decide_eq_true ⟨rfl, rfl⟩⟩
      | inr before =>
          obtain ⟨call, mem, claims⟩ := before
          exact ⟨call, List.mem_append_left _ mem, claims⟩
  · intro i account
    rw [List.countP_append, List.countP_singleton]
    split
    next same =>
      obtain ⟨rfl, rfl⟩ := of_decide_eq_true same
      have none : calls.countP (Call.isClaimBy id recipient) = 0 :=
        List.countP_eq_zero.mpr fun call mem claims =>
          fresh ((inv.claimed id recipient).mp ⟨call, mem, claims⟩)
      omega
    next => exact inv.once i account
  · refine inv.balance_insert live ?_ fun i other => ⟨if_neg (Ne.symm other), rfl⟩
    simp only [Call.claimOf, Call.fundingOf, if_true]
    omega

theorem deleted (inv : Ledger ids calls s) (live : s.airdropInfo.lookup id = some metadata) :
    Ledger ids (calls ++ [.deleteAirdrop id]) (s.deleted id b) := by
  refine ⟨inv.ids, ?_, ?_, ?_, ?_, ?_, ?_⟩
  · refine inv.known_snoc fun i concerns => ?_
    cases concerns
    exact inv.live id metadata live
  · intro i m found
    dsimp only [State.deleted] at found
    rw [StorageMap.lookup_erase_eq_ite] at found
    split at found
    · cases found
    · exact inv.live i m found
  · intro i mem
    dsimp only [State.deleted]
    rw [StorageMap.lookup_erase_eq_ite]
    split
    next => rfl
    next other =>
      rw [List.mem_append, List.mem_singleton] at mem
      exact inv.dead i (mem.resolve_right fun same => other (by cases same; rfl))
  · exact inv.claimed_snoc fun _ _ => rfl
  · exact inv.once_snoc fun _ _ => rfl
  · intro i m found
    dsimp only [State.deleted] at found
    rw [StorageMap.lookup_erase_eq_ite] at found
    rw [claims_snoc, fundings_snoc]
    split at found
    · cases found
    · exact inv.balance i m found

end Ledger

theorem history_snoc (τ : List (Transition (State A V) (Label A V)))
    (t : Transition (State A V) (Label A V)) :
    history c (τ ++ [t]) = history c τ ++ (succeeded c t).toList := by
  simp [history]

theorem createdIds_snoc (τ : List (Transition (State A V) (Label A V)))
    (t : Transition (State A V) (Label A V)) :
    createdIds c (τ ++ [t]) = createdIds c τ ++ newIds t.pre.nextAirdropId (succeeded c t) := by
  simp [createdIds]

theorem ledger_of_run {τ : List (Transition (State A V) (Label A V))}
    (run : Run (airdrops c) τ s) (fits : ∀ t ∈ τ, FundingFits c t)
    (few : (createdIds c τ).length < u32Max) : Ledger (createdIds c τ) (history c τ) s := by
  revert few
  refine run.guarded_history
    (P := fun τ s => (createdIds c τ).length < u32Max → Ledger (createdIds c τ) (history c τ) s)
    ?_ ?_ fits
  · intro s ⟨_, empty, unclaimed, first⟩ _
    refine ⟨?_, nofun, ?_, nofun, ?_, fun _ _ => Nat.zero_le _, ?_⟩
    · rw [first]
      rfl
    · rw [empty]
      exact nofun
    · rw [unclaimed]
      exact fun _ _ => ⟨nofun, nofun⟩
    · rw [empty]
      exact nofun
  · intro τ s l s' ih fits step few
    have effect := step_effect step
    simp only [FundingFits] at fits
    rw [createdIds_snoc] at few
    rw [history_snoc, createdIds_snoc]
    rw [List.length_append] at few
    have inv := ih (by omega)
    generalize succeeded c ⟨s, l, s'⟩ = o at effect fits few ⊢
    cases effect with
    | created stranger =>
        refine inv.created ?_ _ _ _ _
        have count := congrArg List.length inv.ids
        rw [List.length_range] at count
        simp only [newIds, List.length_singleton] at few
        omega
    | funded stranger live moved =>
        simp only [newIds, List.append_nil]
        exact inv.funded live (fits _ _ _ rfl live)
    | claimed fresh live enough moved =>
        simp only [newIds, List.append_nil]
        exact inv.claimPaid fresh live enough
    | deleted stranger live moved =>
        simp only [newIds, List.append_nil]
        exact inv.deleted live
    | refused =>
        simp only [newIds, Option.toList_none, List.append_nil]
        exact inv
    | nextBlock =>
        simp only [newIds, Option.toList_none, List.append_nil]
        exact ⟨inv.ids, inv.known, inv.live, inv.dead, inv.claimed, inv.once, inv.balance⟩
    | outside valid incoming =>
        simp only [newIds, Option.toList_none, List.append_nil]
        exact ⟨inv.ids, inv.known, inv.live, inv.dead, inv.claimed, inv.once, inv.balance⟩

theorem Effect.live {l : Label A V} {call : Call A} {id : ℕ}
    (effect : Effect c s l (some call) s') (concerns : call.Concerns id) :
    ∃ metadata, s.airdropInfo.lookup id = some metadata := by
  cases effect with
  | created stranger => cases concerns
  | funded stranger live moved =>
      cases concerns
      exact ⟨_, live⟩
  | claimed fresh live enough moved =>
      cases concerns
      exact ⟨_, live⟩
  | deleted stranger live moved =>
      cases concerns
      exact ⟨_, live⟩

theorem ledger_upTo {τ τ₁ τ₂ : List (Transition (State A V) (Label A V))}
    {t : Transition (State A V) (Label A V)} (run : Run (airdrops c) τ s)
    (fits : ∀ t ∈ τ, FundingFits c t) (few : (createdIds c τ).length < u32Max)
    (split : τ = τ₁ ++ t :: τ₂) :
    Ledger (createdIds c τ₁) (history c τ₁) t.pre ∧
      Effect c t.pre t.label (succeeded c t) t.post := by
  obtain ⟨run₁, step⟩ := run.upTo split
  subst split
  refine ⟨ledger_of_run run₁ (fun u mem => fits u (List.mem_append_left _ mem)) ?_,
    step_effect step⟩
  simp only [createdIds] at few ⊢
  rw [List.flatMap_append, List.length_append] at few
  omega

/-- No successful call after a deletion concerns the airdrop. -/
theorem not_concerns_after {τ τ₁ τ₂ : List (Transition (State A V) (Label A V))}
    {t : Transition (State A V) (Label A V)} {id : ℕ} (run : Run (airdrops c) τ s)
    (fits : ∀ t ∈ τ, FundingFits c t) (few : (createdIds c τ).length < u32Max)
    (split : τ = τ₁ ++ t :: τ₂) (deletes : succeeded c t = some (.deleteAirdrop id)) :
    ∀ call ∈ history c τ₂, ¬ call.Concerns id := by
  intro call mem concerns
  obtain ⟨u, later, done⟩ := List.mem_flatMap.mp mem
  rw [Option.mem_toList] at done
  obtain ⟨τ₃, τ₄, rfl⟩ := List.append_of_mem later
  have split' : τ = (τ₁ ++ t :: τ₃) ++ u :: τ₄ := by simp [split]
  obtain ⟨inv, effect⟩ := ledger_upTo run fits few split'
  rw [done] at effect
  obtain ⟨metadata, live⟩ := effect.live concerns
  refine inv.not_deleted live (List.mem_flatMap.mpr ⟨t, by simp, ?_⟩)
  rw [deletes]
  exact List.mem_singleton_self _

/-- The id was given out to the account. -/
def CreatedBy (c : Config A V) (τ : List (Transition (State A V) (Label A V))) (id : ℕ) (who : A) :
    Prop :=
  ∃ t ∈ τ, ∃ merkleRoot vestingPeriod vestingDelay,
    t.label = .extrinsic (.signed who) (.createAirdrop merkleRoot vestingPeriod vestingDelay) ∧
    succeeded c t = some (.createAirdrop merkleRoot vestingPeriod vestingDelay) ∧
    t.pre.nextAirdropId = id

theorem CreatedBy.snoc {τ : List (Transition (State A V) (Label A V))} {id : ℕ} {who : A}
    (h : CreatedBy c τ id who) (t : Transition (State A V) (Label A V)) :
    CreatedBy c (τ ++ [t]) id who := by
  obtain ⟨u, mem, created⟩ := h
  exact ⟨u, List.mem_append_left _ mem, created⟩

/-- A live airdrop belongs to the account that created it. -/
theorem createdBy_creator {τ : List (Transition (State A V) (Label A V))}
    (run : Run (airdrops c) τ s) : ∀ id metadata, s.airdropInfo.lookup id = some metadata →
      CreatedBy c τ id metadata.creator := by
  refine run.history (P := fun τ s => ∀ id metadata, s.airdropInfo.lookup id = some metadata →
    CreatedBy c τ id metadata.creator) ?_ ?_
  · intro s ⟨_, empty, _⟩
    rw [empty]
    exact nofun
  · intro τ s l s' _ ih step
    have effect := step_effect step
    have replaced {id : ℕ} {metadata new : AirdropMetadata A}
        (live : s.airdropInfo.lookup id = some metadata) (same : new.creator = metadata.creator)
        (i : ℕ) (m : AirdropMetadata A)
        (found : (s.airdropInfo.insert id new).lookup i = some m) :
        CreatedBy c (τ ++ [⟨s, l, s'⟩]) i m.creator := by
      rw [StorageMap.lookup_insert_eq_ite] at found
      split at found
      next here =>
        cases found
        rw [here, same]
        exact (ih id metadata live).snoc _
      next => exact (ih i m found).snoc _
    generalize done : succeeded c ⟨s, l, s'⟩ = o at effect
    cases effect with
    | @created who merkleRoot vestingPeriod vestingDelay stranger =>
        intro id metadata live
        dsimp only [State.created] at live
        rw [StorageMap.lookup_insert_eq_ite] at live
        split at live
        next new =>
          cases live
          exact ⟨_, List.mem_append_right _ (List.mem_singleton_self _), merkleRoot, vestingPeriod,
            vestingDelay, rfl, done, new.symm⟩
        next => exact (ih id metadata live).snoc _
    | funded stranger live moved => exact replaced live rfl
    | claimed fresh live enough moved => exact replaced live rfl
    | deleted stranger live moved =>
        intro id metadata found
        dsimp only [State.deleted] at found
        rw [StorageMap.lookup_erase_eq_ite] at found
        split at found
        · cases found
        · exact (ih id metadata found).snoc _
    | refused => exact fun id metadata live => (ih id metadata live).snoc _
    | nextBlock => exact fun id metadata live => (ih id metadata live).snoc _
    | outside valid incoming => exact fun id metadata live => (ih id metadata live).snoc _

/-- A deletion, after the run `τ`, pays the creator what was funded and not claimed. -/
def PaysRemainder (c : Config A V) (τ : List (Transition (State A V) (Label A V)))
    (t : Transition (State A V) (Label A V)) (id : ℕ) : Prop :=
  ∃ metadata, t.pre.airdropInfo.lookup id = some metadata ∧
    t.label = .extrinsic (.signed metadata.creator) (.deleteAirdrop id) ∧
    CreatedBy c τ id metadata.creator ∧
    metadata.balance + claims id (history c τ) = fundings id (history c τ) ∧
    (t.post.balances.account metadata.creator).free =
      (t.pre.balances.account metadata.creator).free + metadata.balance ∧
    (t.post.balances.account c.accountId).free + metadata.balance =
      (t.pre.balances.account c.accountId).free

theorem paysRemainder {τ τ₁ τ₂ : List (Transition (State A V) (Label A V))}
    {t : Transition (State A V) (Label A V)} {id : ℕ} (run : Run (airdrops c) τ s)
    (fits : ∀ t ∈ τ, FundingFits c t) (few : (createdIds c τ).length < u32Max)
    (split : τ = τ₁ ++ t :: τ₂) (deletes : succeeded c t = some (.deleteAirdrop id)) :
    PaysRemainder c τ₁ t id := by
  obtain ⟨inv, effect⟩ := ledger_upTo run fits few split
  have run₁ := (run.upTo split).1
  have valid := valid_of_reachable ⟨_, run₁⟩
  obtain ⟨pre, label, post⟩ := t
  dsimp only at inv effect run₁ valid
  rw [deletes] at effect
  cases effect with
  | @deleted _ metadata b stranger live moved =>
      obtain ⟨payed, received⟩ := Currency.transfer_keepAlive valid (Ne.symm stranger) moved
      exact ⟨metadata, live, rfl, createdBy_creator run₁ id metadata live,
        inv.balance id metadata live, received, payed⟩

/-- The books of all airdrops, over every run: no id is given out twice, nobody claims
twice from one airdrop, the stored balances are the fundings less the claims, and a
deletion pays out that remainder and ends the airdrop. -/
theorem books_balance {τ : List (Transition (State A V) (Label A V))}
    (run : Run (airdrops c) τ s) (few : (createdIds c τ).length < u32Max)
    (fits : ∀ t ∈ τ, FundingFits c t) :
    (createdIds c τ).Nodup ∧
      (∀ id recipient, (history c τ).countP (Call.isClaimBy id recipient) ≤ 1) ∧
      (∀ id metadata, s.airdropInfo.lookup id = some metadata →
        metadata.balance + claims id (history c τ) = fundings id (history c τ)) ∧
      ∀ τ₁ t τ₂ id, τ = τ₁ ++ t :: τ₂ → succeeded c t = some (.deleteAirdrop id) →
        PaysRemainder c τ₁ t id ∧ ∀ call ∈ history c τ₂, ¬ call.Concerns id := by
  have inv := ledger_of_run run fits few
  refine ⟨?_, inv.once, inv.balance, ?_⟩
  · rw [inv.ids]
    exact List.nodup_range
  · intro τ₁ t τ₂ id split deletes
    exact ⟨paysRemainder run fits few split deletes, not_concerns_after run fits few split deletes⟩

theorem FundingFits.of_ne {origin : RawOrigin A} {call : Call A}
    (other : ∀ id amount, call ≠ .fundAirdrop id amount) :
    FundingFits c ⟨s, .extrinsic origin call, s'⟩ :=
  fun id amount _ done => absurd (succeeded_eq_some_iff.mp done).1 (other id amount)

namespace Mock

/-- Account 3 funds an airdrop of both leaves, and account 1 claims from it. -/
def fundClaim : List (RawOrigin AccountId × Call AccountId) :=
  [(.signed (account 3), .createAirdrop rootHash none none),
    (.signed (account 3), .fundAirdrop 0 3000000000000),
    (.none, .claim 0 (account 1) 1000000000000 [leafHash2])]

/-- The rest goes back. -/
def fundClaimDelete : List (RawOrigin AccountId × Call AccountId) :=
  fundClaim ++ [(.signed (account 3), .deleteAirdrop 0)]

/-- The calls one after another, the pallet's account holding the existential deposit. -/
def steps (calls : List (RawOrigin AccountId × Call AccountId)) :
    List (Transition MockState MockLabel) :=
  trace next (start 1000000000) (labels calls)

theorem fundClaimDelete_fits : ∀ t ∈ steps fundClaimDelete, FundingFits config t := by
  refine List.forall_mem_cons.mpr ⟨.of_ne nofun, List.forall_mem_cons.mpr ⟨?_,
    List.forall_mem_cons.mpr ⟨.of_ne nofun, List.forall_mem_cons.mpr ⟨.of_ne nofun,
      List.forall_mem_nil _⟩⟩⟩⟩
  intro id amount metadata done live
  cases (succeeded_eq_some_iff.mp done).1
  have empty : metadata.balance = 0 := by
    have created : (next (start 1000000000) (.extrinsic (.signed (account 3))
        (.createAirdrop rootHash none none))).airdropInfo.lookup 0 =
        some ⟨rootHash, account 3, 0, none, none⟩ := by decide +kernel
    cases created.symm.trans live
    rfl
  rw [empty]
  decide

end Mock

open Mock in
/-- Two thirds of the funding are left after the claim, and go back to account 3. -/
theorem books_balance_fundClaimDelete :
    (fundings 0 (history config (steps fundClaim)) = 3000000000000 ∧
      claims 0 (history config (steps fundClaim)) = 1000000000000) ∧
    (∃ metadata, (after 1000000000 fundClaim).airdropInfo.lookup 0 = some metadata ∧
      metadata.balance + claims 0 (history config (steps fundClaim)) =
        fundings 0 (history config (steps fundClaim))) ∧
    (createdIds config (steps fundClaimDelete)).Nodup ∧
    (∀ id recipient, (history config (steps fundClaimDelete)).countP
      (Call.isClaimBy id recipient) ≤ 1) ∧
    PaysRemainder config (steps fundClaim)
      ⟨after 1000000000 fundClaim, .extrinsic (.signed (account 3)) (.deleteAirdrop 0),
        after 1000000000 fundClaimDelete⟩ 0 := by
  have claimed := run_extrinsics 1000000000 (by decide) fundClaim (by decide)
  have deleted := run_extrinsics 1000000000 (by decide) fundClaimDelete (by decide)
  have claimed_fits : ∀ t ∈ steps fundClaim, FundingFits config t :=
    fun t ht => fundClaimDelete_fits t (List.mem_append_left [_] ht)
  obtain ⟨-, -, balance, -⟩ := books_balance claimed (by decide +kernel) claimed_fits
  obtain ⟨ids, once, -, pays⟩ := books_balance deleted (by decide +kernel) fundClaimDelete_fits
  refine ⟨⟨by decide +kernel, by decide +kernel⟩, ?_, ids, once, ?_⟩
  · have live : (after 1000000000 fundClaim).airdropInfo.lookup 0 =
        some ⟨rootHash, account 3, 2000000000000, none, none⟩ := by decide +kernel
    exact ⟨_, live, balance 0 _ live⟩
  · refine (pays _ _ [] 0 ?_ (by decide +kernel)).1
    rfl

end Resonance.MerkleAirdrop
