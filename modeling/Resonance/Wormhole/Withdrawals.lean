import Resonance.Foundation.StateMachine
import Resonance.Wormhole.Pallet

/-!
What withdrawals pay, over whole runs.

A nullifier is marked when its proof is accepted and never unmarked, so no proof is
accepted under it again. The deposit is made in a separate step whose result is
thrown away: where the exit account does not exist and the amount does not create it,
the nullifier is spent and nothing is paid.
-/
namespace Resonance.Wormhole
open Storage StateMachine
variable {A P : Type} [DecidableEq A] {c : Config A P} {s s' : State A}

inductive Label (A : Type)
  | extrinsic (origin : RawOrigin A) (proofBytes : List UInt8)
  | outside (b : BalancesState A)

def wormhole (c : Config A P) : Machine (State A) (Label A) where
  init s := s.balances.Referenced c.existentialDeposit ∧ s.usedNullifiers = ∅
  step s l s' := match l with
    | .extrinsic origin proofBytes => s' = (exec (dispatch c origin proofBytes) s).2
    | .outside b => b.Referenced c.existentialDeposit ∧ s' = { s with balances := b }

/-- The checks of the call pass, and the proof has these public inputs. -/
def Accepts (c : Config A P) (s : State A) (proofBytes : List UInt8)
    (inputs : WormholePublicInputs A) : Prop :=
  ∃ proof, c.fromBytes proofBytes = some proof ∧ fromFields c (c.publicInputs proof) = .ok inputs ∧
    inputs.nullifier ∉ s.usedNullifiers ∧ c.verify proof = true

/-- The amount is zero, or the exit account can be credited with it. -/
def Creditable (c : Config A P) (b : BalancesState A) (inputs : WormholePublicInputs A) : Prop :=
  inputs.exitAmount = 0 ∨
    b.Credits c.existentialDeposit inputs.exitAccount inputs.exitAmount.toNat

/-- The state after the withdrawal, in terms of the balances after it. -/
def State.withdrawn (s : State A) (inputs : WormholePublicInputs A) (b : BalancesState A) :
    State A :=
  { s with
    balances := b
    usedNullifiers := insert inputs.nullifier s.usedNullifiers
    events := s.events ++ [.proofVerified inputs.exitAmount.toNat] }

omit [DecidableEq A] in
theorem withBalances_bind_ok_iff {R R' : Type} {x : BalancesM A R} {f : R → PalletM A R'} {r : R'} :
    exec (withBalances x >>= f) s = (.ok r, s') ↔
      ∃ a b, exec x s.balances = (.ok a, b) ∧
        exec (f a) { s with balances := b } = (.ok r, s') := by
  rw [bind_ok_iff]
  simp only [withBalances]
  simp only [mapError_ok_iff, zoom_ok_iff]
  constructor
  · intro ⟨a, s₁, ⟨b, ran, rest⟩, run⟩
    exact ⟨a, b, ran, rest ▸ run⟩
  · intro ⟨a, b, ran, run⟩
    exact ⟨a, _, ⟨b, ran, rfl⟩, run⟩

theorem verifyWormholeProof_ok_iff {origin : RawOrigin A} {proofBytes : List UInt8} :
    exec (verifyWormholeProof c origin proofBytes) s = (.ok ⟨⟩, s') ↔
      origin = .none ∧ ∃ inputs, Accepts c s proofBytes inputs ∧ ∃ imbalance b₁ b,
        exec (Currency.depositCreating c.existentialDeposit inputs.exitAccount
          inputs.exitAmount.toNat) s.balances = (.ok imbalance, b₁) ∧
        exec (Currency.dropPositive imbalance) b₁ = (.ok ⟨⟩, b) ∧ s' = s.withdrawn inputs b := by
  have unsigned {f : PUnit → PalletM A PUnit} :
      exec (mapError .error (ensureNone origin) >>= f) s = (.ok ⟨⟩, s') ↔
        origin = .none ∧ exec (f ⟨⟩) s = (.ok ⟨⟩, s') := by
    cases origin with
    | none => exact ⟨fun run => ⟨rfl, run⟩, And.right⟩
    | root => exact ⟨nofun, nofun⟩
    | signed who => exact ⟨nofun, nofun⟩
  simp only [verifyWormholeProof, Accepts]
  rw [unsigned]
  simp only [okOr_bind_ok_iff, ofResult_bind_ok_iff, exec_get_bind, ensure_bind_ok_iff,
    exec_modify_bind, withBalances_bind_ok_iff]
  refine and_congr_right fun _ => ?_
  constructor
  · rintro ⟨proof, decoded, inputs, read, fresh, verified, imbalance, b₁, credited, _, b, dropped,
      run⟩
    cases run
    exact ⟨inputs, ⟨proof, decoded, read, fresh, verified⟩, imbalance, b₁, b, credited, dropped,
      rfl⟩
  · rintro ⟨inputs, ⟨proof, decoded, read, fresh, verified⟩, imbalance, b₁, b, credited, dropped,
      run⟩
    subst run
    exact ⟨proof, decoded, inputs, read, fresh, verified, imbalance, b₁, credited, ⟨⟩, b, dropped,
      rfl⟩

section
variable {b b₁ b₂ : BalancesState A} {inputs : WormholePublicInputs A}

omit [DecidableEq A] in
theorem exitAmount_le (inputs : WormholePublicInputs A) : inputs.exitAmount.toNat ≤ u128Max :=
  (Nat.le_of_lt inputs.exitAmount.toNat_lt).trans (by decide)

theorem deposit_spec {imbalance : ℕ} (ref : b.Referenced c.existentialDeposit)
    (credited : exec (Currency.depositCreating c.existentialDeposit inputs.exitAccount
      inputs.exitAmount.toNat) b = (.ok imbalance, b₁))
    (dropped : exec (Currency.dropPositive imbalance) b₁ = (.ok ⟨⟩, b₂)) :
    b₂.Referenced c.existentialDeposit ∧
      ((b₂.account inputs.exitAccount).free =
        (b.account inputs.exitAccount).free + inputs.exitAmount.toNat ↔ Creditable c b inputs) := by
  obtain ⟨totalIssuance, only⟩ := Currency.exec_dropPositive imbalance (b := b₁)
  cases dropped.symm.trans only
  rw [Currency.exec_depositCreating ref (exitAmount_le inputs)] at credited
  split at credited
  next credits =>
    cases credited
    have raised := ref.raised (credits.alive ref)
    refine ⟨⟨raised.alive, raised.provided, raised.consumed⟩, iff_of_true ?_ (.inr credits)⟩
    dsimp only
    rw [BalancesState.raised_account, if_pos rfl]
  next lost =>
    cases credited
    refine ⟨⟨ref.alive, ref.provided, ref.consumed⟩, ?_⟩
    have zero : inputs.exitAmount = 0 ↔ inputs.exitAmount.toNat = 0 := by
      rw [← UInt64.toNat_inj, UInt64.toNat_zero]
    rw [Creditable, or_iff_left lost, zero]
    dsimp only
    omega

theorem deposit_exists (ref : b.Referenced c.existentialDeposit) :
    ∃ imbalance b₁ b₂, exec (Currency.depositCreating c.existentialDeposit inputs.exitAccount
        inputs.exitAmount.toNat) b = (.ok imbalance, b₁) ∧
      exec (Currency.dropPositive imbalance) b₁ = (.ok ⟨⟩, b₂) := by
  rw [Currency.exec_depositCreating ref (exitAmount_le inputs)]
  split
  · obtain ⟨totalIssuance, dropped⟩ := Currency.exec_dropPositive inputs.exitAmount.toNat
    exact ⟨_, _, _, rfl, dropped⟩
  · obtain ⟨totalIssuance, dropped⟩ := Currency.exec_dropPositive 0
    exact ⟨_, _, _, rfl, dropped⟩

end

theorem dispatch_ok_iff {origin : RawOrigin A} {proofBytes : List UInt8}
    (ref : s.balances.Referenced c.existentialDeposit) :
    (∃ s', exec (dispatch c origin proofBytes) s = (.ok ⟨⟩, s')) ↔
      origin = .none ∧ ∃ inputs, Accepts c s proofBytes inputs := by
  simp only [dispatch]
  simp only [transactional_ok_iff, verifyWormholeProof_ok_iff]
  constructor
  · intro ⟨s', unsigned, inputs, accepts, _⟩
    exact ⟨unsigned, inputs, accepts⟩
  · intro ⟨unsigned, inputs, accepts⟩
    obtain ⟨imbalance, b₁, b₂, credited, dropped⟩ := deposit_exists ref
    exact ⟨_, unsigned, inputs, accepts, imbalance, b₁, b₂, credited, dropped, rfl⟩

/-- The public inputs that are read off the bytes of a proof. -/
def inputsOf (c : Config A P) (proofBytes : List UInt8) : Option (WormholePublicInputs A) :=
  (c.fromBytes proofBytes).bind fun proof => (fromFields c (c.publicInputs proof)).toOption

/-- The public inputs of the proof that was accepted in a transition. -/
def accepted (c : Config A P) (t : Transition (State A) (Label A)) :
    Option (WormholePublicInputs A) :=
  match t.label with
  | .extrinsic origin proofBytes =>
    match (exec (dispatch c origin proofBytes) t.pre).1 with
    | .ok _ => inputsOf c proofBytes
    | .error _ => none
  | .outside _ => none

omit [DecidableEq A] in
theorem inputsOf_eq {proofBytes : List UInt8} {inputs : WormholePublicInputs A}
    (accepts : Accepts c s proofBytes inputs) : inputsOf c proofBytes = some inputs := by
  obtain ⟨proof, decoded, read, -⟩ := accepts
  rw [inputsOf, decoded, Option.bind_some, read]
  rfl

/-- What one step does, the proof accepted in it included. -/
inductive Effect (c : Config A P) (s : State A) :
    Label A → Option (WormholePublicInputs A) → State A → Prop
  | refused {origin : RawOrigin A} {proofBytes : List UInt8} :
      (origin = .none → ∀ inputs, ¬ Accepts c s proofBytes inputs) →
      Effect c s (.extrinsic origin proofBytes) none s
  | withdrawn {proofBytes : List UInt8} {inputs : WormholePublicInputs A} {b : BalancesState A} :
      Accepts c s proofBytes inputs → b.Referenced c.existentialDeposit →
      ((b.account inputs.exitAccount).free =
        (s.balances.account inputs.exitAccount).free + inputs.exitAmount.toNat ↔
          Creditable c s.balances inputs) →
      Effect c s (.extrinsic .none proofBytes) (some inputs) (s.withdrawn inputs b)
  | outside {b : BalancesState A} : b.Referenced c.existentialDeposit →
      Effect c s (.outside b) none { s with balances := b }

theorem step_effect {l : Label A} (ref : s.balances.Referenced c.existentialDeposit)
    (step : (wormhole c).step s l s') : Effect c s l (accepted c ⟨s, l, s'⟩) s' := by
  cases l with
  | extrinsic origin proofBytes =>
      obtain rfl := step
      unfold accepted
      dsimp only
      rcases h : exec (dispatch c origin proofBytes) s with ⟨e | _, s'⟩
      · obtain rfl := eq_of_transactional_error h
        refine .refused fun unsigned inputs accepts => ?_
        obtain ⟨s', ran⟩ := (dispatch_ok_iff ref).mpr ⟨unsigned, inputs, accepts⟩
        cases h.symm.trans ran
      · obtain ⟨rfl, inputs, accepts, imbalance, b₁, b, credited, dropped, rfl⟩ :=
          verifyWormholeProof_ok_iff.mp (transactional_ok_iff.mp h)
        obtain ⟨ref', paid⟩ := deposit_spec ref credited dropped
        dsimp only
        rw [inputsOf_eq accepts]
        exact .withdrawn accepts ref' paid
  | outside b =>
      obtain ⟨ref', rfl⟩ := step
      exact .outside ref'

/-- The nullifiers of the proofs that were accepted, in order. -/
def nullifiers (c : Config A P) (τ : List (Transition (State A) (Label A))) : List (List UInt8) :=
  τ.flatMap fun t => ((accepted c t).map WormholePublicInputs.nullifier).toList

theorem nullifiers_snoc (τ : List (Transition (State A) (Label A)))
    (t : Transition (State A) (Label A)) :
    nullifiers c (τ ++ [t]) =
      nullifiers c τ ++ ((accepted c t).map WormholePublicInputs.nullifier).toList := by
  simp [nullifiers]

/-- Accepted nullifiers are used, and none was accepted twice. -/
theorem nullifiers_of_run {τ : List (Transition (State A) (Label A))} (run : Run (wormhole c) τ s) :
    s.balances.Referenced c.existentialDeposit ∧ (∀ n ∈ nullifiers c τ, n ∈ s.usedNullifiers) ∧
      (nullifiers c τ).Nodup := by
  refine run.history (P := fun τ s => s.balances.Referenced c.existentialDeposit ∧
    (∀ n ∈ nullifiers c τ, n ∈ s.usedNullifiers) ∧ (nullifiers c τ).Nodup) ?_ ?_
  · exact fun s start => ⟨start.1, List.forall_mem_nil _, List.nodup_nil⟩
  · intro τ s l s' _ ⟨ref, used, distinct⟩ step
    have effect := step_effect ref step
    rw [nullifiers_snoc]
    generalize accepted c ⟨s, l, s'⟩ = o at effect
    cases effect with
    | refused => simpa using ⟨ref, used, distinct⟩
    | outside ref' => simpa using ⟨ref', used, distinct⟩
    | @withdrawn proofBytes inputs b accepts ref' paid =>
        obtain ⟨proof, -, -, fresh, -⟩ := accepts
        have new : inputs.nullifier ∉ nullifiers c τ := fun mem => fresh (used _ mem)
        refine ⟨ref', ?_, ?_⟩
        · intro n mem
          refine Finset.mem_insert.mpr ?_
          rw [List.mem_append] at mem
          exact mem.symm.imp (fun last => List.mem_singleton.mp last) (used n)
        · rw [Option.map_some, Option.toList_some]
          refine List.nodup_append.mpr ⟨distinct, List.nodup_singleton _, ?_⟩
          intro a ha b hb same
          rw [List.mem_singleton.mp hb] at same
          exact new (same ▸ ha)

/-- Withdrawals are paid exactly once. -/
structure PaysOnce (c : Config A P) (τ : List (Transition (State A) (Label A))) : Prop where
  once : (nullifiers c τ).Nodup
  paid : ∀ t ∈ τ, ∀ inputs, accepted c t = some inputs →
    (t.post.balances.account inputs.exitAccount).free =
      (t.pre.balances.account inputs.exitAccount).free + inputs.exitAmount.toNat
  unchanged : ∀ t ∈ τ, ∀ origin proofBytes failure, t.label = .extrinsic origin proofBytes →
    (exec (dispatch c origin proofBytes) t.pre).1 = .error failure → t.post = t.pre

/-- The exit account of an accepted proof can be credited with the exit amount. -/
def Covered (c : Config A P) (s : State A) : Label A → Prop
  | .extrinsic .none proofBytes =>
    ∀ inputs, Accepts c s proofBytes inputs → Creditable c s.balances inputs
  | _ => True

theorem paid_iff {l : Label A} (ref : s.balances.Referenced c.existentialDeposit)
    (step : (wormhole c).step s l s') :
    (∀ inputs, accepted c ⟨s, l, s'⟩ = some inputs →
      (s'.balances.account inputs.exitAccount).free =
        (s.balances.account inputs.exitAccount).free + inputs.exitAmount.toNat) ↔
      Covered c s l := by
  have effect := step_effect ref step
  generalize accepted c ⟨s, l, s'⟩ = o at effect
  cases effect with
  | refused rejects =>
      refine iff_of_true nofun ?_
      simp only [Covered]
      split
      next proofBytes same =>
        cases same
        exact fun inputs accepts => absurd accepts (rejects rfl inputs)
      next => trivial
  | outside ref' => exact iff_of_true nofun trivial
  | @withdrawn proofBytes inputs b accepts ref' paid =>
      constructor
      · intro pays inputs' accepts'
        cases (inputsOf_eq accepts).symm.trans (inputsOf_eq accepts')
        exact paid.mp (pays inputs rfl)
      · intro covered inputs' same
        cases same
        exact paid.mpr (covered inputs accepts)

/-- Withdrawals are paid exactly once in the runs in which every accepted proof has an
exit account that can be credited, and in no others. -/
theorem paysOnce_iff {τ : List (Transition (State A) (Label A))} (run : Run (wormhole c) τ s) :
    PaysOnce c τ ↔ ∀ t ∈ τ, Covered c t.pre t.label := by
  have ref (t) (mem : t ∈ τ) : t.pre.balances.Referenced c.existentialDeposit := by
    obtain ⟨τ', run'⟩ := (run.mem_step t mem).1
    exact (nullifiers_of_run run').1
  have iff (t) (mem : t ∈ τ) := paid_iff (ref t mem) (run.mem_step t mem).2
  constructor
  · exact fun once t mem => (iff t mem).mp (once.paid t mem)
  · intro covered
    refine ⟨(nullifiers_of_run run).2.2, fun t mem => (iff t mem).mpr (covered t mem), ?_⟩
    intro t mem origin proofBytes failure label failed
    obtain ⟨-, step⟩ := run.mem_step t mem
    rw [label] at step
    exact step.trans (eq_of_transactional_error (exec_eq_of_fst failed))

namespace Mock

/-- The accounts are the first bytes of their ids, proofs are their own public inputs, and
all of them verify. -/
def config : Config ℕ (List UInt64) where
  fromBytes bytes := some (bytes.map fun byte => byte.toUInt64)
  publicInputs := id
  verify _ := true
  decode bytes := bytes.head?.map UInt8.toNat
  existentialDeposit := 100

/-- Account 1 exists, nobody else does. -/
def balances : BalancesState ℕ where
  account a := if a = 1 then ⟨1000, 0, 0⟩ else ⟨0, 0, 0⟩
  holds _ _ := 0
  totalIssuance := 1000
  transferProof := ∅
  system a := if a = 1 then ⟨0, 0, 1⟩ else ⟨0, 0, 0⟩

theorem balances_referenced : balances.Referenced config.existentialDeposit :=
  .of_single (by decide) (by decide) rfl rfl

def start : State ℕ := ⟨balances, ∅, []⟩

/-- The nullifier is 7 and seven zeros, the fee and the storage root are zero. -/
def proof (exitAccount exitAmount : UInt8) : List UInt8 :=
  [7, 0, 0, 0, 0, 0, 0, 0, exitAccount, 0, 0, 0, exitAmount, 0, 0, 0, 0, 0]

def inputs (exitAccount exitAmount : UInt8) : WormholePublicInputs ℕ where
  nullifier := 7 :: List.replicate 63 0
  exitAccount := exitAccount.toNat
  exitAmount := exitAmount.toUInt64
  feeAmount := 0
  storageRoot := List.replicate 32 0

def withdraw (proofBytes : List UInt8) (s : State ℕ) : State ℕ :=
  (exec (dispatch config .none proofBytes) s).2

theorem run_withdraw {s : State ℕ} {τ : List (Transition (State ℕ) (Label ℕ))}
    (run : Run (wormhole config) τ s) (proofBytes : List UInt8) :
    Run (wormhole config) (τ ++ [⟨s, .extrinsic .none proofBytes, withdraw proofBytes s⟩])
      (withdraw proofBytes s) :=
  run.extend rfl

theorem run_start : Run (wormhole config) [] start := .start ⟨balances_referenced, rfl⟩

end Mock

open Wormhole.Mock in
theorem paysOnce_existing :
    PaysOnce config [⟨start, .extrinsic .none (proof 1 50), withdraw (proof 1 50) start⟩] := by
  have run := run_withdraw run_start (proof 1 50)
  refine (paysOnce_iff run).mpr (forall_mem_snoc (List.forall_mem_nil _) ?_)
  intro inputs accepts
  have read : inputsOf config (proof 1 50) = some (Mock.inputs 1 50) := by decide +kernel
  cases (inputsOf_eq accepts).symm.trans read
  exact .inr (by decide +kernel)

open Wormhole.Mock in
/-- The exit account does not exist and the amount is below the existential deposit: the
nullifier is used and nothing is paid. -/
theorem not_paysOnce_new :
    Run (wormhole config) [⟨start, .extrinsic .none (proof 2 50), withdraw (proof 2 50) start⟩]
        (withdraw (proof 2 50) start) ∧
      accepted config ⟨start, .extrinsic .none (proof 2 50), withdraw (proof 2 50) start⟩ =
        some (inputs 2 50) ∧
      (inputs 2 50).nullifier ∈ (withdraw (proof 2 50) start).usedNullifiers ∧
      ((withdraw (proof 2 50) start).balances.account 2).free = 0 ∧
      ¬ PaysOnce config [⟨start, .extrinsic .none (proof 2 50), withdraw (proof 2 50) start⟩] := by
  have done : accepted config ⟨start, .extrinsic .none (proof 2 50), withdraw (proof 2 50) start⟩ =
    some (inputs 2 50) := by decide +kernel
  have unpaid : ((withdraw (proof 2 50) start).balances.account 2).free = 0 := by decide +kernel
  refine ⟨run_withdraw run_start (proof 2 50), done, by decide +kernel, unpaid, fun once => ?_⟩
  have paid := once.paid _ (List.mem_singleton_self _) _ done
  cases unpaid.symm.trans paid

end Resonance.Wormhole
