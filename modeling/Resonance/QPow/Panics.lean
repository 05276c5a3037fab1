import Resonance.QPow.Threshold

/-!
When the finalisation of a block panics.

With a sound configuration everything `on_finalize` computes succeeds in every
state the hooks reach, except the percentage it logs after a correction. That
one divides by the threshold before the correction, shifted right by ten bits:
a correction below 1024 panics, and a threshold that low never recovers.
-/
namespace Resonance.QPow
open Storage MachineInt FixedU128 StateMachine

/-- A percentage for a clamp, and nothing to divide by zero. -/
structure Config.Sound (cfg : Config) : Prop where
  fits : cfg.Fits
  clamp_le : cfg.difficultyAdjustPercentClamp ≤ 100
  target_pos : 0 < cfg.targetBlockTime
  history_pos : 0 < cfg.blockTimeHistorySize

variable {cfg : Config} {block : Block} {s s' : State}

private theorem change_ok_iff {larger smaller a : ℕ} {positive : Bool} (h : smaller ≤ larger) :
    (∃ p, (do
      let absDiff ← sub larger smaller
      let change ← div (saturatingMul 512 absDiff 100) a
      return (change, positive)) = Except.ok p) ↔ a ≠ 0 := by
  simp only [bind_eq_ok_iff, sub_eq_ok_iff, div_eq_ok_iff]
  constructor
  · rintro ⟨p, d, -, q, ⟨pos, -⟩, -⟩
    exact pos
  · intro pos
    exact ⟨_, _, ⟨h, rfl⟩, _, ⟨pos, rfl⟩, rfl⟩

theorem percentageChange_ok_iff {a b : ℕ} : (∃ p, percentageChange a b = .ok p) ↔ 1024 ≤ a := by
  have shifted : shr a 10 ≠ 0 ↔ 1024 ≤ a := by
    simp only [shr]
    omega
  rw [← shifted]
  dsimp only [percentageChange]
  by_cases h : shr a 10 > shr b 10
  · rw [if_pos h]
    exact change_ok_iff h.le
  · rw [if_neg h]
    exact change_ok_iff (Nat.le_of_not_lt h)

theorem getBlockTimeSum_le (cfg : Config) (s : State) : getBlockTimeSum cfg s ≤ maxValue 64 := by
  by_cases recorded : s.historySize = 0
  · rw [getBlockTimeSum, if_pos recorded]
    exact le_maxValue_iff.2 cfg.target_lt
  · rw [getBlockTimeSum_eq recorded]
    exact min_le_right _ _

/-- A `u64` over a positive one fits `FixedU128`. -/
theorem fromRational_u64 (r : Rounding) {a b : ℕ} (ha : a ≤ maxValue 64) (hb : 0 < b) :
    ∃ q, fromRational r a b = .ok q :=
  ⟨_, fromRational_eq r hb ((Nat.mul_le_mul_left DIV ha).trans (by decide +kernel))⟩

theorem calculateDistanceThreshold_ok {threshold observed target : ℕ}
    (small : observed ≤ maxValue 64) (pos : 0 < target) :
    ∃ new, calculateDistanceThreshold cfg threshold observed target = .ok new := by
  have clampSmall : cfg.difficultyAdjustPercentClamp ≤ maxValue 64 :=
    le_maxValue_iff.2 (cfg.clamp_lt.trans (by decide))
  obtain ⟨clamp, hclamp⟩ := fromRational_u64 cfg.rounding clampSmall (b := 100) (by decide)
  obtain ⟨quotient, hquotient⟩ := fromRational_u64 cfg.rounding small pos
  have one := fromRational_self cfg.rounding Nat.one_pos
  simp only [calculateDistanceThreshold, bind_eq_ok_iff]
  exact ⟨_, clamp, hclamp, DIV, one, quotient, hquotient, rfl⟩

theorem Config.Sound.nextDistanceThreshold_ok (sound : cfg.Sound) (threshold : ℕ)
    (recorded : 0 < s.historySize) : ∃ new, nextDistanceThreshold cfg threshold s = .ok new :=
  calculateDistanceThreshold_ok (getBlockTimeSum_le cfg s)
    (saturatingMul_pos (by decide) sound.target_pos recorded)

theorem Config.Sound.correctDistanceThreshold_ok_iff (sound : cfg.Sound)
    (recorded : 0 < s.historySize) :
    (∃ s', exec (correctDistanceThreshold cfg s.currentDistanceThreshold) s = (.ok ⟨⟩, s')) ↔
      1024 ≤ s.currentDistanceThreshold := by
  obtain ⟨new, next⟩ := sound.nextDistanceThreshold_ok s.currentDistanceThreshold recorded
  simp only [QPow.correctDistanceThreshold_ok_iff, if_pos recorded]
  constructor
  · rintro ⟨_, _, -, change, -⟩
    exact percentageChange_ok_iff.1 change
  · intro large
    exact ⟨_, new, next, percentageChange_ok_iff.2 large, rfl⟩

theorem Config.Sound.recorded_booked (sound : cfg.Sound) {work : ℕ} (later : 1 < block.number) :
    0 < (s.booked cfg block work).historySize := by
  have pos := sound.history_pos
  have size : (s.booked cfg block work).ring.size = (s.durationRecorded cfg block).ring.size :=
    congrArg RingBuffer.size booked_ring
  change (s.booked cfg block work).historySize = _ at size
  rw [size, State.durationRecorded, if_pos later]
  change 0 < if s.historySize < cfg.blockTimeHistorySize then saturatingAdd 32 s.historySize 1
    else cfg.blockTimeHistorySize
  split
  · exact lt_min (Nat.succ_pos _) (by decide)
  · exact pos

/-- The facts about a reachable state on which finalising a block depends. -/
structure Finalisable (cfg : Config) (c : Chain) : Prop where
  range : InRange cfg c.state.currentDistanceThreshold
  totalWork_le : c.state.totalWork ≤ maxValue 512
  period_le : c.state.blocksInPeriod ≤ c.number

theorem Finalisable.of_reachable (sound : cfg.Sound) {c : Chain} (h : Reachable (hooks cfg) c) :
    Finalisable cfg c := by
  obtain ⟨τ, run⟩ := h
  have history := WorkHistory.of_run sound.fits run
  refine ⟨history.range, ?_, ?_⟩
  · rw [history.total]
    exact min_le_right _ _
  · refine Reachable.invariant (I := fun c => c.state.blocksInPeriod ≤ c.number) ?_ ?_ ⟨τ, run⟩
    · rintro c rfl
      exact le_rfl
    · intro c hook c' _ ih step
      cases hook with
      | onIdle block =>
          obtain ⟨-, number, run⟩ := step
          rw [exec_onIdle] at run
          have state : c'.state = c.state.idled cfg block := (congrArg Prod.snd run).symm
          rw [state, number, idled_blocksInPeriod]
          exact ih
      | onFinalize block =>
          obtain ⟨number, number', run⟩ := step
          rw [(onFinalize_ok run).period, number', number]
          split
          · exact Nat.zero_le _
          · exact (min_le_left _ _).trans (Nat.succ_le_succ ih)

/-- In a reachable state the next block can be finalised exactly when no
correction is due or the current threshold is at least 1024. -/
theorem onFinalize_succeeds_iff (sound : cfg.Sound) (period : 0 < cfg.adjustmentPeriod) {c : Chain}
    (h : Reachable (hooks cfg) c) (next : block.number = c.number + 1) :
    (∃ s', exec (onFinalize cfg block) c.state = (.ok ⟨⟩, s')) ↔
      c.state.blocksInPeriod < cfg.adjustmentPeriod ∨
        1024 ≤ c.state.currentDistanceThreshold := by
  obtain ⟨range, totalWork_le, period_le⟩ := Finalisable.of_reachable sound h
  have grows : ∀ work, c.state.totalWork ≤ saturatingAdd 512 c.state.totalWork work :=
    fun work => le_min (Nat.le_add_right _ _) totalWork_le
  simp only [onFinalize_ok_iff]
  by_cases due : cfg.adjustmentPeriod ≤ c.state.blocksInPeriod
  · have later : 1 < block.number := by omega
    simp only [if_pos due]
    constructor
    · rintro ⟨_, work, -, -, -, s₁, corrected, -⟩
      rw [← booked_currentDistanceThreshold] at corrected
      have large := (sound.correctDistanceThreshold_ok_iff (sound.recorded_booked later)).1
        ⟨s₁, corrected⟩
      rw [booked_currentDistanceThreshold] at large
      exact .inr large
    · rintro (early | large)
      · omega
      · rw [← @booked_currentDistanceThreshold cfg block] at large
        obtain ⟨s₁, corrected⟩ :=
          (sound.correctDistanceThreshold_ok_iff (sound.recorded_booked later)).2 large
        rw [booked_currentDistanceThreshold] at corrected
        exact ⟨_, _, getDifficulty_of_inRange range, grows _, fun _ => sound.history_pos.ne',
          s₁, corrected, rfl⟩
  · simp only [if_neg due]
    constructor
    · intro _
      exact .inl (Nat.lt_of_not_le due)
    · intro _
      exact ⟨_, _, getDifficulty_of_inRange range, grows _, fun _ => sound.history_pos.ne', rfl⟩

namespace Mock

/-- The largest clamp: one fast block takes the threshold down to one. -/
def sharpClamp : Config where
  initialDistanceThresholdExponent := 509
  difficultyAdjustPercentClamp := 100
  targetBlockTime := 1000
  adjustmentPeriod := 1
  blockTimeHistorySize := 5
  clamp_lt := by decide
  target_lt := config.target_lt
  period_lt := config.period_lt
  history_lt := config.history_lt
  rounding := .nearestPrefDown

theorem sharpClamp_sound : sharpClamp.Sound :=
  ⟨Nat.le_refl 509, by decide, by decide, by decide⟩

/-- Three blocks at one timestamp. -/
def fastBlocks : List ExecutedBlock := [blockAt 1 1, blockAt 2 1, blockAt 3 1]

theorem fastBlocks_reachable :
    Reachable (hooks sharpClamp) (fastBlocks.foldl (execute sharpClamp) (start sharpClamp)) :=
  reachable_hooks_of_chain ⟨_, run_executed fastBlocks (by decide +kernel)⟩

end Mock

/-- The eighth block corrects the threshold. -/
theorem onFinalize_succeeds_iff_eighth : ¬ Mock.seventh.state.blocksInPeriod < 1 ∧
    ∃ s', exec (onFinalize Mock.config (Mock.next Mock.seventh 11500).toBlock)
      Mock.seventh.state = (.ok ⟨⟩, s') := by
  have sound : Mock.config.Sound := ⟨Mock.config_fits, by decide, by decide, by decide⟩
  have reachable := reachable_hooks_of_chain ⟨_, Mock.sevenBlocks_run⟩
  have large : 1024 ≤ Mock.seventh.state.currentDistanceThreshold := by decide +kernel
  refine ⟨by decide +kernel, ?_⟩
  exact (onFinalize_succeeds_iff sound (by decide) reachable rfl).2 (.inr large)

/-- After three fast blocks the fourth cannot be finalised. -/
theorem onFinalize_panics : ∃ c, Mock.sharpClamp.Sound ∧ 0 < Mock.sharpClamp.adjustmentPeriod ∧
    Reachable (hooks Mock.sharpClamp) c ∧
    (exec (onFinalize Mock.sharpClamp (Mock.next c 1).toBlock) c.state).1 =
      .error .divisionByZero :=
  ⟨_, Mock.sharpClamp_sound, by decide, Mock.fastBlocks_reachable, by decide +kernel⟩

end Resonance.QPow
