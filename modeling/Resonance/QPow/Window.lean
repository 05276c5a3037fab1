import Mathlib.Data.List.GetD
import Resonance.Foundation.RingBuffer
import Resonance.QPow.Blocks

/-!
The window of block times.

Every block but the first records the time since the block before it. After
any run the ring holds the successive differences of the timestamps, so its
sum telescopes to the time the window spans, whatever the threshold did in the
meantime.
-/
namespace Resonance.QPow
open Storage MachineInt StateMachine RingBuffer Differences

variable {cfg : Config} {s s' : State} {τ : List (Transition Chain ExecutedBlock)} {c c' : Chain}

/-- The timestamps of a run's blocks, first block first. -/
def timestamps (τ : List (Transition Chain ExecutedBlock)) : List ℕ :=
  τ.map fun t => t.label.now

/-- The timestamp of block `n`, counted from one. -/
def timestamp (τ : List (Transition Chain ExecutedBlock)) (n : ℕ) : ℕ :=
  (timestamps τ).getD (n - 1) 0

@[simp] theorem timestamps_snoc (t : Transition Chain ExecutedBlock) :
    timestamps (τ ++ [t]) = timestamps τ ++ [t.label.now] := by
  simp [timestamps]

/-- What a run with positive timestamps leaves in the window. -/
structure WindowHistory (cfg : Config) (τ : List (Transition Chain ExecutedBlock)) (c : Chain) :
    Prop where
  number : c.number = τ.length
  positive : τ ≠ [] → c.state.lastBlockTime ≠ 0
  time : ∀ now ∈ (timestamps τ).getLast?, c.state.lastBlockTime = now
  ring : Holds cfg.blockTimeHistorySize c.state.ring (differences (timestamps τ))

theorem before_ring {block : ExecutedBlock} : (block.before cfg s).ring = s.ring := by
  simp only [ExecutedBlock.before]
  split
  · exact idled_ring
  · rfl

theorem before_of_ne_zero {block : ExecutedBlock} (h : s.lastBlockTime ≠ 0) :
    block.before cfg s = s := by
  simp only [ExecutedBlock.before]
  split
  · exact idled_of_ne_zero h
  · rfl

theorem ring_durationRecorded_first {block : Block} (first : block.number = 1) :
    (s.durationRecorded cfg block).ring = s.ring := by
  rw [State.durationRecorded, if_neg (by omega)]

theorem ring_durationRecorded {block : Block} (later : 1 < block.number)
    (index : s.historyIndex < cfg.blockTimeHistorySize) :
    (s.durationRecorded cfg block).ring =
      s.ring.push cfg.blockTimeHistorySize (block.now - s.lastBlockTime) := by
  rw [State.durationRecorded, if_pos later, ring_recorded]
  · rfl
  · exact index

theorem WindowHistory.step {block : ExecutedBlock} (history : WindowHistory cfg τ c)
    (positive : 0 < block.now) (step : (chain cfg).step c block c') :
    WindowHistory cfg (τ ++ [⟨c, block, c'⟩]) c' := by
  obtain ⟨number, number', run⟩ := step
  have finalised := onFinalize_ok (executeBlock_ok_iff.1 run)
  have count : c'.number = (τ ++ [(⟨c, block, c'⟩ : Transition Chain ExecutedBlock)]).length := by
    rw [number', number, history.number, List.length_append, List.length_singleton]
  refine ⟨count, ?_, ?_, ?_⟩
  · rw [finalised.time]
    exact fun _ => positive.ne'
  · rw [finalised.time, timestamps_snoc, List.getLast?_concat]
    intro now h
    exact Option.some.inj h
  · rw [finalised.ring, timestamps_snoc]
    cases τ using List.reverseRecOn with
    | nil =>
        rw [ring_durationRecorded_first (by rw [number, history.number]; rfl), before_ring]
        exact history.ring
    | append_singleton τ t =>
        have nonzero := history.positive (by simp)
        have last : c.state.lastBlockTime = t.label.now := history.time _ (by simp)
        have later : 1 < block.number := by
          rw [number, history.number, List.length_append, List.length_singleton]
          omega
        have index := history.ring.index_lt (Nat.pos_of_ne_zero (finalised.history later))
        rw [before_of_ne_zero nonzero, ring_durationRecorded later index, last, timestamps_snoc,
          differences_snoc, ← timestamps_snoc]
        exact history.ring.push _

theorem WindowHistory.of_run (run : Run (chain cfg) τ c) (positive : ∀ t ∈ τ, 0 < t.label.now) :
    WindowHistory cfg τ c := by
  refine run.guarded_history (P := WindowHistory cfg) ?_ ?_ positive
  · rintro c rfl
    exact ⟨rfl, fun h => absurd rfl h, by simp [timestamps], Holds.empty rfl rfl⟩
  · exact fun _ _ _ _ history now step => history.step now step

theorem timestamp_lt (τ : List (Transition Chain ExecutedBlock)) (n : ℕ) :
    timestamp τ n < 2 ^ 64 := by
  simp only [timestamp, timestamps]
  rw [List.getD_eq_getElem?_getD, List.getElem?_map]
  cases τ[n - 1]? with
  | none => exact Nat.two_pow_pos 64
  | some t => exact t.label.now_lt

/-- The window of a nondecreasing run telescopes. -/
theorem WindowHistory.window_sum (history : WindowHistory cfg τ c) (some : τ ≠ [])
    (nondecreasing : (timestamps τ).Pairwise (· ≤ ·)) :
    c.state.ring.contents.sum = timestamp τ c.number -
      timestamp τ (c.number - min (c.number - 1) cfg.blockTimeHistorySize) := by
  have length : (timestamps τ).length = c.number := by
    rw [timestamps, List.length_map, history.number]
  have pos : 0 < c.number := by
    rw [history.number]
    exact List.length_pos_iff.2 some
  have start : c.number - 1 - cfg.blockTimeHistorySize < (timestamps τ).length := by omega
  rw [history.ring.contents_perm.sum_eq, window, length_differences, length,
    sum_drop_differences nondecreasing start, List.getLast_eq_getElem]
  have first : c.number - min (c.number - 1) cfg.blockTimeHistorySize - 1 =
      c.number - 1 - cfg.blockTimeHistorySize := by omega
  rw [timestamp, timestamp, first, List.getD_eq_getElem _ _ (by omega),
    List.getD_eq_getElem _ _ start]
  simp only [length]

/-- After block `n ≥ 2` the window spans the last `k` block times, where `k` is
the smaller of `n - 1` and the history size. -/
theorem blockTimeSum_of_run (run : Run (chain cfg) τ c) (positive : ∀ t ∈ τ, 0 < t.label.now)
    (nondecreasing : (timestamps τ).Pairwise (· ≤ ·)) (size : 1 ≤ cfg.blockTimeHistorySize)
    (two : 2 ≤ c.number) :
    getBlockTimeSum cfg c.state = timestamp τ c.number -
        timestamp τ (c.number - min (c.number - 1) cfg.blockTimeHistorySize) ∧
      c.state.historyIndex < cfg.blockTimeHistorySize ∧
      c.state.historySize = min (c.number - 1) cfg.blockTimeHistorySize := by
  have history := WindowHistory.of_run run positive
  have length : (differences (timestamps τ)).length = c.number - 1 := by
    rw [length_differences, timestamps, List.length_map, history.number]
  have recorded : c.state.historySize = min (c.number - 1) cfg.blockTimeHistorySize := by
    rw [← length]
    exact history.ring.size_eq
  have some : τ ≠ [] := by
    rintro rfl
    rw [history.number] at two
    exact absurd two (by decide)
  have sum := history.window_sum some nondecreasing
  have fits := timestamp_lt τ c.number
  refine ⟨?_, history.ring.index_lt size, recorded⟩
  rw [getBlockTimeSum_eq (by omega), sum, min_eq_left]
  exact (Nat.sub_le _ _).trans (le_maxValue_iff.2 fits)

open Mock

/-- After seven blocks a window of five block times starts at the second block. -/
theorem blockTimeSum_of_run_wraps : config.blockTimeHistorySize < seventh.number - 1 ∧
    getBlockTimeSum config seventh.state = timestamp sevenBlocks 7 - timestamp sevenBlocks 2 ∧
    seventh.state.historyIndex < 5 ∧ seventh.state.historySize = 5 := by
  refine ⟨by decide, ?_⟩
  exact blockTimeSum_of_run sevenBlocks_run (by decide) (by decide) (by decide) (by decide)

end Resonance.QPow
