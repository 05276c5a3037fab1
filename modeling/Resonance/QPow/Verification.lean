import Resonance.QPow.Threshold

/-!
Import checks and historical checks of a nonce agree.

Importing block `n` uses the running threshold left by block `n - 1`; the
historical check reads the entry block `n` filed. They are the same number:
only the first block can still be reset by `on_idle`, to the value it starts
from, and an entry is filed under the number of its own block. The one
exception is a configuration for which the largest distance overflows to zero.
-/
namespace Resonance.QPow
open Storage MachineInt StateMachine

variable {cfg : Config} {s s' : State} {τ : List (Transition Chain ExecutedBlock)} {c c' : Chain}

/-- The entries a run has filed: each under the number of its block, with the
threshold in force in it, and none of them lost. -/
structure FiledHistory (cfg : Config) (τ : List (Transition Chain ExecutedBlock)) (c : Chain) :
    Prop where
  keys : ∀ k v, c.state.blockDistanceThresholds.lookup k = some v → k ≤ c.number
  kept : ∀ t ∈ τ, ∀ k v, t.pre.state.blockDistanceThresholds.lookup k = some v →
    c.state.blockDistanceThresholds.lookup k = some v
  filed : ∀ t ∈ τ, c.state.blockDistanceThresholds.lookup t.label.number =
    some (t.label.before cfg t.pre.state).currentDistanceThreshold

theorem before_blockDistanceThresholds {block : ExecutedBlock} :
    (block.before cfg s).blockDistanceThresholds = s.blockDistanceThresholds := by
  simp only [ExecutedBlock.before]
  split
  · exact idled_blockDistanceThresholds
  · rfl

theorem FiledHistory.step {block : ExecutedBlock} (history : FiledHistory cfg τ c)
    (step : (chain cfg).step c block c') : FiledHistory cfg (τ ++ [⟨c, block, c'⟩]) c' := by
  obtain ⟨number, number', run⟩ := step
  have thresholds := (onFinalize_ok (executeBlock_ok_iff.1 run)).thresholds
  rw [before_blockDistanceThresholds] at thresholds
  have lookup : ∀ k, c'.state.blockDistanceThresholds.lookup k =
      if k = block.number then some (block.before cfg c.state).currentDistanceThreshold
      else c.state.blockDistanceThresholds.lookup k := by
    intro k
    rw [thresholds, StorageMap.lookup_insert_eq_ite]
  have old : ∀ k v, c.state.blockDistanceThresholds.lookup k = some v →
      c'.state.blockDistanceThresholds.lookup k = some v := by
    intro k v h
    have below := history.keys k v h
    rw [lookup, if_neg (by omega), h]
  refine ⟨?_, ?_, ?_⟩
  · intro k v h
    rw [lookup] at h
    split at h
    · omega
    · exact (history.keys k v h).trans (by omega)
  · exact forall_mem_snoc (fun t earlier k v h => old k v (history.kept t earlier k v h)) old
  · refine forall_mem_snoc (fun t earlier => old _ _ (history.filed t earlier)) ?_
    rw [lookup, if_pos rfl]

theorem FiledHistory.of_run (run : Run (chain cfg) τ c) : FiledHistory cfg τ c := by
  refine run.history (P := FiledHistory cfg) ?_ ?_
  · rintro c rfl
    refine ⟨?_, (fun t ht => nomatch ht), (fun t ht => nomatch ht)⟩
    intro k v h
    change ((∅ : StorageMap ℕ ℕ).insert 0 _).lookup k = some v at h
    rw [StorageMap.lookup_insert_eq_ite] at h
    split at h
    · omega
    · cases h
  · intro τ c block c' _ history step
    exact history.step step

/-- After the first block with a positive timestamp `on_idle` has nothing to do. -/
def Started (cfg : Config) (c : Chain) : Prop :=
  c = ⟨0, genesis cfg⟩ ∨ c.state.lastBlockTime ≠ 0

theorem Started.before_threshold (started : Started cfg c) (block : ExecutedBlock) :
    (block.before cfg c.state).currentDistanceThreshold = c.state.currentDistanceThreshold := by
  simp only [ExecutedBlock.before]
  split
  · cases started with
    | inl start => rw [start]; rfl
    | inr later => rw [idled_of_ne_zero later]
  · rfl

theorem started_of_run (run : Run (chain cfg) τ c) (positive : ∀ t ∈ τ, 0 < t.label.now) :
    ∀ t ∈ τ, Started cfg t.pre := by
  refine (run.guarded_steps (I := Started cfg) ?_ ?_ positive).2
  · rintro c rfl
    exact .inl rfl
  · intro c block c' started now step
    have time := (onFinalize_ok (executeBlock_ok_iff.1 step.2.2)).time
    refine ⟨.inr ?_, started⟩
    rw [time]
    exact now.ne'

/-- From 512 bits on the initial threshold is zero, and no block is finalised. -/
theorem no_blocks_of_run (large : 512 ≤ cfg.initialDistanceThresholdExponent)
    (run : Run (chain cfg) τ c) : τ = [] := by
  have zero : getInitialDistanceThreshold cfg = 0 := shl_one_eq_zero large
  refine (run.history (P := fun τ c => τ = [] ∧ c = ⟨0, genesis cfg⟩) ?_ ?_).1
  · rintro c rfl
    exact ⟨rfl, rfl⟩
  · rintro τ c block c' - ⟨-, rfl⟩ step
    obtain ⟨w, difficulty, -⟩ := (onFinalize_ok (executeBlock_ok_iff.1 step.2.2)).work
    have started : Started cfg ⟨0, genesis cfg⟩ := .inl rfl
    have threshold := started.before_threshold block
    change _ = getInitialDistanceThreshold cfg at threshold
    rw [zero] at threshold
    rw [getDifficulty, getDistanceThreshold, if_pos threshold, zero, div_eq_ok_iff] at difficulty
    exact absurd rfl difficulty.1

/-- Entries are never changed, and unless the largest distance overflows the
check made on importing a block agrees with every later historical check. -/
theorem verification_agrees_of_run (hashing : Hashing) (run : Run (chain cfg) τ c)
    (positive : ∀ t ∈ τ, 0 < t.label.now) :
    (∀ t ∈ τ, ∀ k v, t.pre.state.blockDistanceThresholds.lookup k = some v →
      c.state.blockDistanceThresholds.lookup k = some v) ∧
    (cfg.initialDistanceThresholdExponent ≠ 510 → cfg.initialDistanceThresholdExponent ≠ 511 →
      ∀ t ∈ τ, ∀ header nonce,
        (exec (verifyForImport hashing cfg header nonce) t.pre.state).1 =
          .ok (verifyHistoricalBlock hashing c.state header nonce t.label.number)) := by
  have history := FiledHistory.of_run run
  refine ⟨history.kept, ?_⟩
  intro ne510 ne511 t ht header nonce
  rcases Nat.lt_or_ge cfg.initialDistanceThresholdExponent 512 with small | large
  · have fits : cfg.Fits := by
      simp only [Config.Fits]
      omega
    obtain ⟨σ, earlier⟩ := reachable_hooks_of_chain (run.mem_step t ht).1
    have pos : t.pre.state.currentDistanceThreshold ≠ 0 :=
      Nat.ne_of_gt (WorkHistory.of_run fits earlier).range.1
    have filed := history.filed t ht
    rw [(started_of_run run positive t ht).before_threshold] at filed
    have read : getDistanceThresholdAtBlock c.state t.label.number =
        t.pre.state.currentDistanceThreshold := by
      rw [getDistanceThresholdAtBlock, valueAt, filed, Option.getD_some]
    rw [exec_verifyForImport, verifyHistoricalBlock, getDistanceThreshold, read]
    simp only [if_neg pos]
  · rw [no_blocks_of_run large run] at ht
    cases ht

namespace Mock

/-- Every nonce but zero is at distance zero. -/
def hashing : Hashing where
  getRandomRsa _ := ⟨1, 2, by decide⟩
  sha3_512 _ := 0

/-- The mock configuration with the least exponent that is too large. -/
def overflowing : Config := { config with initialDistanceThresholdExponent := 510 }

end Mock

open Mock

/-- The third block is checked against a threshold that the second has corrected,
and still passes or fails the same after four more blocks. -/
theorem verification_agrees_of_run_third : ∃ t ∈ sevenBlocks, t.label.number = 3 ∧
    t.pre.state.currentDistanceThreshold ≠ getInitialDistanceThreshold config ∧
    ∀ header nonce, (exec (verifyForImport hashing config header nonce) t.pre.state).1 =
      .ok (verifyHistoricalBlock hashing seventh.state header nonce t.label.number) := by
  have third : sevenBlocks[2] ∈ sevenBlocks := List.getElem_mem _
  refine ⟨_, third, rfl, by decide +kernel, ?_⟩
  exact (verification_agrees_of_run hashing sevenBlocks_run (by decide)).2 (by decide) (by decide)
    _ third

theorem import_check_disagrees : ∃ τ c, Run (chain overflowing) τ c ∧
    (∀ t ∈ τ, 0 < t.label.now) ∧ ∃ t ∈ τ, ∃ header nonce,
      (exec (verifyForImport hashing overflowing header nonce) t.pre.state).1 = .ok true ∧
        verifyHistoricalBlock hashing c.state header nonce t.label.number = false := by
  have run : Run (chain overflowing) _ _ :=
    run_executed [blockAt 1 1000, blockAt 2 2000, blockAt 3 3000] (by decide +kernel)
  refine ⟨_, _, run, by decide, _, List.mem_append_right [_, _] (List.mem_singleton_self _),
    Vector.replicate 32 1, Vector.replicate 64 1, ?_, ?_⟩
  · decide +kernel
  · decide +kernel

end Resonance.QPow
