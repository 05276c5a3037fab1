import Resonance.Foundation.StateMachine
import Resonance.MiningRewards.Pallet

/-!
Where fees go, over whole runs.

Fees leave the total issuance when they are collected and come back when a block with
a miner is finalised, so issuance and collected fees together grow by the block reward
alone. `Books` follows each fee: it is carried along until the next finalised block
that names a miner, and then credited there with all others carried.
-/
namespace Resonance.MiningRewards
open Storage StateMachine
variable {A : Type} [DecidableEq A] {c : Config A} {s s' : State A}

inductive Label (A : Type)
  | newBlock (logs : List DigestItem)
  | unbalanced (amount : ℕ)
  | finalize
  | outside (b : BalancesState A)

/-- An imbalance of withdrawn balance is part of the total issuance until it is dropped;
everything else that happens to balances leaves the issuance alone. -/
def miningRewards (c : Config A) : Machine (State A) (Label A) where
  init s := s.balances.Referenced c.existentialDeposit ∧ s.collectedFees = 0
  step s l s' := match l with
    | .newBlock logs =>
      s' = { s with blockNumber := s.blockNumber + 1, digest := logs, events := [] }
    | .unbalanced amount =>
      amount ≤ s.balances.totalIssuance ∧ s' = (exec (onUnbalanced amount) s).2
    | .finalize => s' = (exec (onFinalize c s.blockNumber) s).2
    | .outside b => b.Referenced c.existentialDeposit ∧
      b.totalIssuance = s.balances.totalIssuance ∧ s' = { s with balances := b }

/-- Neither the issuance nor a balance overflows with the next payment. -/
structure NoOverflow (c : Config A) (s : State A) : Prop where
  issuance : s.balances.totalIssuance + (c.blockReward + s.collectedFees) ≤ u128Max
  free : ∀ a, (s.balances.account a).free + (c.blockReward + s.collectedFees) ≤ u128Max

/-- What is minted for good in a step. -/
def minted (c : Config A) (t : Transition (State A) (Label A)) : ℕ :=
  match t.label with
  | .finalize => if (extractMinerFromDigest c t.pre.digest).isSome then c.blockReward else 0
  | _ => 0

structure Books (A : Type) where
  /-- The finalised blocks with a miner, and the fees credited in each. -/
  credited : List (A × List ℕ)
  carried : List ℕ

def Books.next (c : Config A) (k : Books A) (t : Transition (State A) (Label A)) : Books A :=
  match t.label with
  | .unbalanced amount => { k with carried := k.carried ++ [amount] }
  | .finalize =>
    match extractMinerFromDigest c t.pre.digest with
    | some miner => ⟨k.credited ++ [(miner, k.carried)], []⟩
    | none => k
  | _ => k

def books (c : Config A) (τ : List (Transition (State A) (Label A))) : Books A :=
  τ.foldl (Books.next c) ⟨[], []⟩

/-- The fees that a step collects. -/
def feesOf : Label A → List ℕ
  | .unbalanced amount => [amount]
  | _ => []

def fees (τ : List (Transition (State A) (Label A))) : List ℕ := τ.flatMap fun t => feesOf t.label

omit [DecidableEq A] in
theorem books_snoc (τ : List (Transition (State A) (Label A)))
    (t : Transition (State A) (Label A)) :
    books c (τ ++ [t]) = (books c τ).next c t := by
  rw [books, List.foldl_append]
  rfl

omit [DecidableEq A] in
/-- Each fee is credited once or still carried, in the order of collection. -/
theorem credited_append_carried (τ : List (Transition (State A) (Label A))) :
    (books c τ).credited.flatMap Prod.snd ++ (books c τ).carried = fees τ := by
  induction τ using List.reverseRecOn with
  | nil => rfl
  | append_singleton τ t ih =>
      have last : fees (τ ++ [t]) = fees τ ++ feesOf t.label := by simp [fees]
      rw [last, ← ih, books_snoc, Books.next]
      cases t.label with
      | unbalanced amount => exact (List.append_assoc _ _ _).symm
      | finalize =>
          dsimp only [feesOf]
          split
          · simp
          · simp
      | newBlock logs => simp [feesOf]
      | outside b => simp [feesOf]

omit [DecidableEq A] in
theorem exec_withBalances {R : Type} {x : BalancesM A R} {r : R} (s : State A) {b : BalancesState A}
    (h : exec x s.balances = (.ok r, b)) :
    exec (withBalances x) s = (.ok r, { s with balances := b }) := by
  rw [withBalances, exec_zoom, h]

omit [DecidableEq A] in
theorem exec_onUnbalanced {amount : ℕ} (fits : s.collectedFees + amount ≤ u128Max) :
    ∃ events, (exec (onUnbalanced amount) s).2 =
      { s with
        collectedFees := s.collectedFees + amount
        balances := { s.balances with totalIssuance := s.balances.totalIssuance - amount }
        events := events } := by
  simp only [onUnbalanced]
  split
  next zero =>
    subst zero
    exact ⟨s.events, rfl⟩
  next =>
    have total : min (s.collectedFees + amount) u128Max = s.collectedFees + amount :=
      min_eq_left fits
    simp only [onNonzeroUnbalanced, collectTransactionFees, depositEvent]
    simp only [bind_assoc, exec_modify_bind, exec_get_bind]
    rw [total, exec_withBalances _ (Currency.exec_dropNegative amount)]
    exact ⟨_, rfl⟩

theorem exec_onFinalize_miner {n : ℕ} {miner : A} (ref : s.balances.Referenced c.existentialDeposit)
    (alive : c.existentialDeposit ≤ c.blockReward) (fits : NoOverflow c s)
    (found : extractMinerFromDigest c s.digest = some miner) :
    ∃ events, (exec (onFinalize c n) s).2 =
      { s with
        collectedFees := 0
        balances := {
          s.balances.raised c.existentialDeposit miner
            ((s.balances.account miner).free + (c.blockReward + s.collectedFees)) with
          totalIssuance := s.balances.totalIssuance + (c.blockReward + s.collectedFees) }
        events := events } := by
  have total : min (c.blockReward + s.collectedFees) u128Max = c.blockReward + s.collectedFees :=
    min_eq_left ((Nat.le_add_left _ _).trans fits.issuance)
  have issued := Currency.exec_issue fits.issuance
  have ref₁ : BalancesState.Referenced c.existentialDeposit { s.balances with
      totalIssuance := s.balances.totalIssuance + (c.blockReward + s.collectedFees) } :=
    ⟨ref.alive, ref.provided, ref.consumed⟩
  have resolved := Currency.exec_resolveCreating ref₁
    ⟨.inl (alive.trans (Nat.le_add_right _ s.collectedFees)), fits.free miner⟩
  unfold onFinalize
  rw [exec_get_bind]
  dsimp only
  rw [found]
  dsimp only
  rw [exec_bind_of_ok (exec_set s _), total,
    exec_bind_of_ok (exec_withBalances { s with collectedFees := 0 } issued),
    exec_bind_of_ok (exec_withBalances _ resolved)]
  exact ⟨_, rfl⟩

theorem exec_onFinalize_none {n : ℕ} (found : extractMinerFromDigest c s.digest = none) :
    exec (onFinalize c n) s = (.ok ⟨⟩, s) := by
  unfold onFinalize
  rw [exec_get_bind]
  dsimp only
  rw [found]
  rfl

/-- Issuance and collected fees grow by what is minted. -/
def Conserves (c : Config A) (t : Transition (State A) (Label A)) : Prop :=
  t.post.balances.totalIssuance + t.post.collectedFees =
    t.pre.balances.totalIssuance + t.pre.collectedFees + minted c t

/-- A finalised block pays the block reward and all fees carried to the miner it names, and
nobody else; without a miner it pays nothing and the fees stay. -/
def Pays (c : Config A) (carried : List ℕ) (t : Transition (State A) (Label A)) : Prop :=
  match extractMinerFromDigest c t.pre.digest with
  | some miner =>
    (t.post.balances.account miner).free =
        (t.pre.balances.account miner).free + (c.blockReward + carried.sum) ∧
      (∀ a, a ≠ miner → t.post.balances.account a = t.pre.balances.account a) ∧
      t.post.collectedFees = 0
  | none => t.post.balances = t.pre.balances ∧ t.post.collectedFees = carried.sum

theorem finalize_spec (ref : s.balances.Referenced c.existentialDeposit)
    (alive : c.existentialDeposit ≤ c.blockReward) (fits : NoOverflow c s) {k : Books A}
    (noted : s.collectedFees = k.carried.sum)
    (step : (miningRewards c).step s .finalize s') :
    s'.balances.Referenced c.existentialDeposit ∧
      s'.collectedFees = (k.next c ⟨s, .finalize, s'⟩).carried.sum ∧
      Conserves c ⟨s, .finalize, s'⟩ ∧ Pays c k.carried ⟨s, .finalize, s'⟩ := by
  obtain rfl := step
  unfold Conserves Pays minted Books.next
  dsimp only
  cases found : extractMinerFromDigest c s.digest with
  | none =>
      rw [exec_onFinalize_none found]
      exact ⟨ref, noted, rfl, rfl, noted⟩
  | some miner =>
      obtain ⟨events, ran⟩ := exec_onFinalize_miner (n := s.blockNumber) ref alive fits found
      have raised : (s.balances.raised c.existentialDeposit miner
          ((s.balances.account miner).free + (c.blockReward + s.collectedFees))).Referenced
          c.existentialDeposit := ref.raised (.inl (by omega))
      rw [ran, ← noted]
      dsimp only
      refine ⟨⟨raised.alive, raised.provided, raised.consumed⟩, rfl, ?_, ?_, ?_, rfl⟩
      · simp only [Option.isSome_some, if_true]
        omega
      · rw [BalancesState.raised_account, if_pos rfl]
      · intro a other
        rw [BalancesState.raised_account, if_neg other]

theorem step_spec {l : Label A} (ref : s.balances.Referenced c.existentialDeposit)
    (alive : c.existentialDeposit ≤ c.blockReward) (fits : NoOverflow c s) {k : Books A}
    (noted : s.collectedFees = k.carried.sum) (step : (miningRewards c).step s l s') :
    s'.balances.Referenced c.existentialDeposit ∧
      s'.collectedFees = (k.next c ⟨s, l, s'⟩).carried.sum ∧ Conserves c ⟨s, l, s'⟩ := by
  cases l with
  | newBlock logs =>
      obtain rfl := step
      exact ⟨ref, noted, rfl⟩
  | unbalanced amount =>
      obtain ⟨withdrawn, rfl⟩ := step
      have issuance := fits.issuance
      have room : s.collectedFees + amount ≤ u128Max := by omega
      obtain ⟨events, ran⟩ := exec_onUnbalanced room
      unfold Conserves minted Books.next
      dsimp only
      rw [ran]
      refine ⟨⟨ref.alive, ref.provided, ref.consumed⟩, ?_, ?_⟩
      · rw [List.sum_append, List.sum_singleton, ← noted]
      · dsimp only
        omega
  | finalize =>
      obtain ⟨ref', noted', conserves, -⟩ := finalize_spec ref alive fits noted step
      exact ⟨ref', noted', conserves⟩
  | outside b =>
      obtain ⟨ref', same, rfl⟩ := step
      refine ⟨ref', noted, ?_⟩
      unfold Conserves minted
      dsimp only
      rw [same, Nat.add_zero]

theorem noted_of_run (alive : c.existentialDeposit ≤ c.blockReward)
    {τ : List (Transition (State A) (Label A))} (run : Run (miningRewards c) τ s)
    (fits : ∀ t ∈ τ, NoOverflow c t.pre) :
    s.balances.Referenced c.existentialDeposit ∧ s.collectedFees = (books c τ).carried.sum ∧
      ∀ t ∈ τ, Conserves c t := by
  refine run.guarded_history (G := fun t => NoOverflow c t.pre)
    (P := fun τ s => s.balances.Referenced c.existentialDeposit ∧
      s.collectedFees = (books c τ).carried.sum ∧ ∀ t ∈ τ, Conserves c t) ?_ ?_ fits
  · exact fun s start => ⟨start.1, start.2, List.forall_mem_nil _⟩
  · rintro τ s l s' ⟨ref, noted, earlier⟩ fits step
    obtain ⟨ref', noted', conserves⟩ := step_spec ref alive fits noted step
    rw [books_snoc]
    exact ⟨ref', noted', forall_mem_snoc earlier conserves⟩

/-- Mining rewards conserve value, over every run: each step mints the block reward for a
block with a miner and nothing else, each fee collected is credited in one block or still
carried, and a finalised block pays its miner the reward and all fees carried. -/
theorem rewards_conserve (alive : c.existentialDeposit ≤ c.blockReward)
    {τ : List (Transition (State A) (Label A))} (run : Run (miningRewards c) τ s)
    (fits : ∀ t ∈ τ, NoOverflow c t.pre) :
    (∀ t ∈ τ, Conserves c t) ∧
      (books c τ).credited.flatMap Prod.snd ++ (books c τ).carried = fees τ ∧
      s.collectedFees = (books c τ).carried.sum ∧
      ∀ τ₁ t τ₂, τ = τ₁ ++ t :: τ₂ → t.label = .finalize → Pays c (books c τ₁).carried t := by
  obtain ⟨-, noted, conserves⟩ := noted_of_run alive run fits
  refine ⟨conserves, credited_append_carried τ, noted, ?_⟩
  intro τ₁ t τ₂ split label
  obtain ⟨run₁, step⟩ := run.upTo split
  subst split
  have fits₁ : ∀ u ∈ τ₁, NoOverflow c u.pre := fun u mem => fits u (List.mem_append_left _ mem)
  obtain ⟨ref, noted₁, -⟩ := noted_of_run alive run₁ fits₁
  have room := fits t (List.mem_append_right _ List.mem_cons_self)
  obtain ⟨pre, l, post⟩ := t
  obtain rfl := label
  exact (finalize_spec ref alive room noted₁ step).2.2.2

namespace Mock

abbrev AccountId := Vector UInt8 32

/-- Account 1 is rich, nobody else has anything. -/
def balances : BalancesState AccountId where
  account a := if a = Vector.replicate 32 1 then ⟨10000000000000, 0, 0⟩ else ⟨0, 0, 0⟩
  holds _ _ := 0
  totalIssuance := 10000000000000
  transferProof := ∅
  system a := if a = Vector.replicate 32 1 then ⟨0, 0, 1⟩ else ⟨0, 0, 0⟩

/-- An account id is decoded from the first 32 bytes. -/
def decode (data : List UInt8) : Option AccountId :=
  if h : (data.take 32).length = 32 then some ⟨(data.take 32).toArray, h⟩ else none

/-- The runtime's reward and existential deposit. -/
def config : Config AccountId := ⟨decode, 1000000000000, 1000000000⟩

def minerLog : DigestItem := .preRuntime POW_ENGINE_ID (List.replicate 32 2)

def start : State AccountId := ⟨0, [], balances, 0, []⟩

def newBlock (logs : List DigestItem) (s : State AccountId) : State AccountId :=
  { s with blockNumber := s.blockNumber + 1, digest := logs, events := [] }

def collect (amount : ℕ) (s : State AccountId) : State AccountId := (exec (onUnbalanced amount) s).2

def finalize (s : State AccountId) : State AccountId := (exec (onFinalize config s.blockNumber) s).2

/-- A block without a miner, in which a fee of 1000 is collected. -/
def first : State AccountId := finalize (collect 1000 (newBlock [] start))

theorem noOverflow {s : State AccountId} (account : s.balances.account = balances.account)
    (issuance : s.balances.totalIssuance + (config.blockReward + s.collectedFees) ≤ u128Max)
    (free : 10000000000000 + (config.blockReward + s.collectedFees) ≤ u128Max) :
    NoOverflow config s := by
  refine ⟨issuance, fun a => ?_⟩
  rw [account]
  dsimp only [balances]
  split
  · exact free
  · exact (Nat.add_le_add_right (Nat.zero_le _) _).trans free

theorem balances_referenced : balances.Referenced config.existentialDeposit :=
  .of_single (by decide) (by decide) rfl rfl

section
variable {s : State AccountId} {τ : List (Transition (State AccountId) (Label AccountId))}

theorem run_start : Run (miningRewards config) [] start := .start ⟨balances_referenced, rfl⟩

theorem run_newBlock (run : Run (miningRewards config) τ s) (logs : List DigestItem) :
    Run (miningRewards config) (τ ++ [⟨s, .newBlock logs, newBlock logs s⟩]) (newBlock logs s) :=
  run.extend rfl

theorem run_collect (run : Run (miningRewards config) τ s) {amount : ℕ}
    (withdrawn : amount ≤ s.balances.totalIssuance) :
    Run (miningRewards config) (τ ++ [⟨s, .unbalanced amount, collect amount s⟩])
      (collect amount s) :=
  run.extend ⟨withdrawn, rfl⟩

theorem run_finalize (run : Run (miningRewards config) τ s) :
    Run (miningRewards config) (τ ++ [⟨s, .finalize, finalize s⟩]) (finalize s) :=
  run.extend rfl

end
end Mock

open Mock in
theorem rewards_conserve_carried :
    ∃ τ, Run (miningRewards config) τ (finalize (newBlock [minerLog] first)) ∧ fees τ = [1000] ∧
      (books config τ).credited = [(Vector.replicate 32 2, [1000])] ∧
      Pays config [1000]
        ⟨newBlock [minerLog] first, .finalize, finalize (newBlock [minerLog] first)⟩ := by
  have collected := run_collect (run_newBlock run_start []) (by decide : 1000 ≤ 10000000000000)
  have run := run_finalize (run_newBlock (run_finalize collected) [minerLog])
  have unpaid (s : State AccountId) (account : s.balances.account = balances.account)
      (issuance : s.balances.totalIssuance ≤ 10000000000000) (few : s.collectedFees ≤ 1000) :
      NoOverflow config s := by
    refine noOverflow account (le_trans ?_ (by decide : 11000000001000 ≤ u128Max))
      (le_trans ?_ (by decide : 11000000001000 ≤ u128Max))
    · dsimp only [config]
      omega
    · dsimp only [config]
      omega
  obtain ⟨-, -, -, pays⟩ := rewards_conserve (by decide) run
    (forall_mem_snoc (forall_mem_snoc (forall_mem_snoc (forall_mem_snoc (forall_mem_snoc
      (List.forall_mem_nil _) (unpaid _ rfl (by decide) (by decide)))
      (unpaid _ rfl (by decide) (by decide))) (unpaid _ rfl (by decide) (by decide)))
      (unpaid _ rfl (by decide +kernel) (by decide +kernel)))
      (unpaid _ rfl (by decide +kernel) (by decide +kernel)))
  refine ⟨_, run, rfl, ?_, pays _ _ [] rfl rfl⟩
  decide +kernel

end Resonance.MiningRewards
