import Mathlib.Algebra.Order.Field.Rat
import Mathlib.Tactic.Linarith
import Resonance.Foundation.Remainders
import Resonance.QPow.Threshold

/-!
How far one adjustment moves the threshold, and in which direction.

The observed block time over the target is rounded to a fixed-point ratio and
clamped; the threshold is divided by the scale before it is multiplied by that
ratio. The result stays within the clamp of the threshold, up to the one unit
the division can drop. Its direction is right for a threshold of at least the
square of the scale; below that, what the division drops can outweigh the
adjustment.
-/
namespace Resonance.QPow
open Storage MachineInt FixedU128 Scaling

variable {cfg : Config} {threshold observed observed' target new : ℕ}

/-- The clamp, in units of 10^-18. -/
def clampUnits (cfg : Config) : ℕ := cfg.difficultyAdjustPercentClamp * 10 ^ 16

/-- The observed block time over the target, rounded, at most one plus the
clamp and at least one minus it. -/
def blockTimeRatio (cfg : Config) (observed target : ℕ) : ℕ :=
  max (min (cfg.rounding.divide (DIV * observed) target) (DIV + clampUnits cfg))
    (DIV - clampUnits cfg)

theorem clampUnits_le (cfg : Config) : clampUnits cfg ≤ 255 * 10 ^ 16 := by
  have := cfg.clamp_lt
  simp only [clampUnits]
  omega

theorem fromRational_clamp (cfg : Config) :
    fromRational cfg.rounding cfg.difficultyAdjustPercentClamp 100 = .ok (clampUnits cfg) := by
  have units : DIV * cfg.difficultyAdjustPercentClamp = clampUnits cfg * 100 := by
    simp only [clampUnits, DIV]
    omega
  have small := clampUnits_le cfg
  have fits : 255 * 10 ^ 16 * 100 ≤ maxValue 128 := by decide
  rw [fromRational_eq cfg.rounding (by decide) (by omega), units,
    cfg.rounding.divide_mul _ (by decide)]

/-- Nothing panics, and the ratio is the clamped one. -/
theorem calculateDistanceThreshold_eq (cfg : Config) (threshold : ℕ) (small : observed < 2 ^ 64)
    (pos : 0 < target) :
    calculateDistanceThreshold cfg threshold observed target =
      .ok (adjustedDistanceThreshold cfg threshold DIV (blockTimeRatio cfg observed target)) := by
  have fits : DIV * 2 ^ 64 ≤ maxValue 128 := by decide
  have ratio := fromRational_eq cfg.rounding pos ((Nat.mul_le_mul_left DIV small.le).trans fits)
  have room : DIV + 255 * 10 ^ 16 ≤ maxValue 128 := by decide
  have above : saturatingAdd 128 DIV (clampUnits cfg) = DIV + clampUnits cfg :=
    saturatingAdd_eq ((Nat.add_le_add_left (clampUnits_le cfg) DIV).trans room)
  simp only [calculateDistanceThreshold, fromRational_clamp, fromRational_self _ Nat.one_pos,
    ratio, bind, Except.bind, pure, Except.pure, above, blockTimeRatio]

theorem blockTimeRatio_mono (cfg : Config) (target : ℕ) (h : observed ≤ observed') :
    blockTimeRatio cfg observed target ≤ blockTimeRatio cfg observed' target := by
  have rounded := cfg.rounding.mono target (Nat.mul_le_mul_left DIV h)
  exact max_le_max_right _ (min_le_min_right _ rounded)

theorem blockTimeRatio_self (cfg : Config) (pos : 0 < target) :
    blockTimeRatio cfg target target = DIV := by
  have exact : cfg.rounding.divide (DIV * target) target = DIV := cfg.rounding.divide_mul DIV pos
  rw [blockTimeRatio, exact]
  omega

theorem le_blockTimeRatio (cfg : Config) (observed target : ℕ) :
    DIV - clampUnits cfg ≤ blockTimeRatio cfg observed target :=
  le_max_right _ _

theorem blockTimeRatio_le (cfg : Config) (observed target : ℕ) :
    blockTimeRatio cfg observed target ≤ DIV + clampUnits cfg := by
  simp only [blockTimeRatio]
  omega

/-- No threshold is in range where the largest distance overflows. -/
theorem InRange.fits (range : InRange cfg threshold) : cfg.Fits := by
  by_contra large
  have shifted : 512 ≤ cfg.initialDistanceThresholdExponent + 2 :=
    Nat.add_le_add_right (Nat.lt_of_not_le large) 2
  have largest : getMaxDistance cfg = 0 := by
    rw [getMaxDistance, getInitialDistanceThreshold, shl_shl, shl_one_eq_zero shifted]
  have some := range.1.trans range.2
  rw [largest] at some
  exact absurd some (by decide)

theorem getMaxDistance_le (cfg : Config) : getMaxDistance cfg ≤ maxValue 512 :=
  shl_le_maxValue _ _ _

theorem adjustedDistanceThreshold_one (range : InRange cfg threshold) :
    adjustedDistanceThreshold cfg threshold DIV DIV = threshold := by
  have least := range.1
  have largest := range.2
  simp only [adjustedDistanceThreshold, if_true]
  rw [if_neg (by omega), if_neg (by omega)]

private theorem kept_in_range {least scaled most top : ℕ} (order : least ≤ most)
    (fits : most ≤ top) :
    (if min scaled top < least then least
      else if min scaled top > most then most
      else min scaled top) = max least (min scaled most) := by
  split
  · omega
  · split
    · omega
    · omega

/-- Away from the ratio one the threshold is scaled and kept in range. -/
theorem adjustedDistanceThreshold_of_ne {ratio : ℕ} (range : InRange cfg threshold)
    (h : ratio ≠ DIV) :
    adjustedDistanceThreshold cfg threshold DIV ratio =
      max 1 (min (scale threshold DIV ratio) (getMaxDistance cfg)) := by
  have pos : 1 ≤ getMaxDistance cfg := range.1.trans range.2
  have divided : checkedDiv threshold FIXED_U128_SCALE = some (threshold / DIV) :=
    if_neg (by decide)
  rw [adjustedDistanceThreshold, if_neg h, divided]
  exact kept_in_range pos (getMaxDistance_le cfg)

theorem adjustedDistanceThreshold_le (range : InRange cfg threshold) (ratio : ℕ) :
    adjustedDistanceThreshold cfg threshold DIV ratio ≤
      max threshold (scale threshold DIV ratio) := by
  by_cases h : ratio = DIV
  · rw [h, adjustedDistanceThreshold_one range]
    exact le_max_left _ _
  · rw [adjustedDistanceThreshold_of_ne range h]
    exact max_le_max range.1 (min_le_left _ _)

theorem le_adjustedDistanceThreshold (range : InRange cfg threshold) (ratio : ℕ) :
    min threshold (scale threshold DIV ratio) ≤
      adjustedDistanceThreshold cfg threshold DIV ratio := by
  by_cases h : ratio = DIV
  · rw [h, adjustedDistanceThreshold_one range]
    exact min_le_left _ _
  · rw [adjustedDistanceThreshold_of_ne range h, min_comm]
    exact (min_le_min_left _ range.2).trans (le_max_right _ _)

/-- The new threshold is at most one plus the clamp times the old one. -/
theorem adjusted_mul_le (range : InRange cfg threshold) (observed target : ℕ) :
    adjustedDistanceThreshold cfg threshold DIV (blockTimeRatio cfg observed target) * DIV ≤
      threshold * (DIV + clampUnits cfg) := by
  have ratio := blockTimeRatio_le cfg observed target
  have old : threshold * DIV ≤ threshold * (DIV + clampUnits cfg) :=
    Nat.mul_le_mul_left _ (Nat.le_add_right _ _)
  rcases le_max_iff.1 (adjustedDistanceThreshold_le range _) with kept | kept
  · exact (Nat.mul_le_mul_right _ kept).trans old
  · exact (Nat.mul_le_mul_right _ kept).trans
      ((scale_mul_unit_le _ _ _).trans (Nat.mul_le_mul_left _ ratio))

/-- Short of one dropped unit, it is at least one minus the clamp times the old
one. -/
theorem mul_le_adjusted (range : InRange cfg threshold) (observed target : ℕ) :
    threshold * (DIV - clampUnits cfg) ≤
      adjustedDistanceThreshold cfg threshold DIV (blockTimeRatio cfg observed target) * DIV +
        DIV * (DIV - clampUnits cfg) := by
  have scaled := scale_mono threshold DIV (le_blockTimeRatio cfg observed target)
  have lower := (min_le_min_left threshold scaled).trans (le_adjustedDistanceThreshold range _)
  have old : threshold * (DIV - clampUnits cfg) ≤ threshold * DIV :=
    Nat.mul_le_mul_left _ (Nat.sub_le _ _)
  have lost : threshold * (DIV - clampUnits cfg) ≤
      scale threshold DIV (DIV - clampUnits cfg) * DIV + DIV * (DIV - clampUnits cfg) :=
    mul_le_scale_mul_unit (by decide)
  rcases min_le_iff.1 lower with kept | kept
  · exact (old.trans (Nat.mul_le_mul_right _ kept)).trans (Nat.le_add_right _ _)
  · exact lost.trans (Nat.add_le_add_right (Nat.mul_le_mul_right _ kept) _)

theorem cast_clampUnits (cfg : Config) :
    (clampUnits cfg : ℚ) = cfg.difficultyAdjustPercentClamp / 100 * 10 ^ 18 := by
  rw [clampUnits]
  push_cast
  ring

theorem cast_DIV : (DIV : ℚ) = 10 ^ 18 := by
  norm_num [DIV]

/-- One adjustment never leaves the range, and moves the threshold by at most
the clamp, short of the one unit the division drops. -/
theorem calculateDistanceThreshold_bounded (clamp : cfg.difficultyAdjustPercentClamp ≤ 100)
    (range : InRange cfg threshold) (small : observed < 2 ^ 64) (pos : 0 < target) :
    ∃ new, calculateDistanceThreshold cfg threshold observed target = .ok new ∧
      1 ≤ new ∧ new ≤ getMaxDistance cfg ∧
      (1 - (cfg.difficultyAdjustPercentClamp : ℚ) / 100) * ((threshold : ℚ) - 10 ^ 18) ≤ new ∧
      (new : ℚ) ≤ (1 + (cfg.difficultyAdjustPercentClamp : ℚ) / 100) * threshold := by
  have inRange := range.fits.inRange_adjusted DIV (blockTimeRatio cfg observed target) range
  have upper := adjusted_mul_le range observed target
  have lower := mul_le_adjusted range observed target
  have fits : clampUnits cfg ≤ DIV := by
    simp only [clampUnits, DIV]
    omega
  refine ⟨_, calculateDistanceThreshold_eq cfg threshold small pos, inRange.1, inRange.2, ?_, ?_⟩
  all_goals generalize adjustedDistanceThreshold cfg threshold DIV _ = new at *
  · rw [← Nat.cast_le (α := ℚ)] at lower
    push_cast [Nat.cast_sub fits] at lower
    rw [cast_clampUnits, cast_DIV] at lower
    linarith
  · rw [← Nat.cast_le (α := ℚ)] at upper
    push_cast at upper
    rw [cast_clampUnits, cast_DIV] at upper
    linarith

theorem calculateDistanceThreshold_bounded_late :
    ∃ new, calculateDistanceThreshold Mock.config (3 * 10 ^ 18) (2 ^ 64 - 1) 1000 = .ok new ∧
      1 ≤ new ∧ new ≤ getMaxDistance Mock.config ∧
      (1 - ((10 : ℕ) : ℚ) / 100) * (((3 * 10 ^ 18 : ℕ) : ℚ) - 10 ^ 18) ≤ new ∧
      (new : ℚ) ≤ (1 + ((10 : ℕ) : ℚ) / 100) * ((3 * 10 ^ 18 : ℕ) : ℚ) :=
  calculateDistanceThreshold_bounded (by decide)
    ⟨by decide, by decide +kernel⟩ (by decide) (by decide)

/-- The new threshold moves with the observed block time, and in the direction
in which that time differs from the target. -/
structure MonotoneAndSigned (cfg : Config) (threshold target : ℕ) : Prop where
  total : ∀ observed < 2 ^ 64, ∃ new,
    calculateDistanceThreshold cfg threshold observed target = .ok new
  mono : ∀ observed observed' new new', observed ≤ observed' → observed' < 2 ^ 64 →
    calculateDistanceThreshold cfg threshold observed target = .ok new →
    calculateDistanceThreshold cfg threshold observed' target = .ok new' → new ≤ new'
  slower : ∀ observed new, target < observed → observed < 2 ^ 64 →
    calculateDistanceThreshold cfg threshold observed target = .ok new → threshold ≤ new
  faster : ∀ observed new, observed < target → observed < 2 ^ 64 →
    calculateDistanceThreshold cfg threshold observed target = .ok new → new ≤ threshold
  equal : calculateDistanceThreshold cfg threshold target target = .ok threshold

/-- How far the observed block time over the target lies above one, rounded and
clamped. -/
def ratioExcess (cfg : Config) (observed target : ℕ) : ℕ :=
  min (cfg.rounding.divide (DIV * observed) target - DIV) (clampUnits cfg)

theorem blockTimeRatio_sub (cfg : Config) (observed target : ℕ) :
    blockTimeRatio cfg observed target - DIV = ratioExcess cfg observed target := by
  simp only [blockTimeRatio, ratioExcess]
  omega

theorem DIV_lt_blockTimeRatio_iff :
    DIV < blockTimeRatio cfg observed target ↔ 0 < ratioExcess cfg observed target := by
  rw [← blockTimeRatio_sub]
  exact Nat.sub_pos_iff_lt.symm

theorem lt_of_ratioExcess_pos (pos : 0 < target) (h : 0 < ratioExcess cfg observed target) :
    target < observed := by
  by_contra early
  have ratio := blockTimeRatio_mono cfg target (Nat.le_of_not_lt early)
  rw [blockTimeRatio_self cfg pos] at ratio
  exact absurd (DIV_lt_blockTimeRatio_iff.2 h) (Nat.not_lt.2 ratio)

theorem adjusted_le_self {ratio : ℕ} (range : InRange cfg threshold) (h : ratio ≤ DIV) :
    adjustedDistanceThreshold cfg threshold DIV ratio ≤ threshold := by
  have scaled := scale_le_self (n := threshold) h
  exact (adjustedDistanceThreshold_le range ratio).trans (max_le le_rfl scaled)

theorem self_le_adjusted_iff {ratio : ℕ} (range : InRange cfg threshold) (h : DIV < ratio) :
    threshold ≤ adjustedDistanceThreshold cfg threshold DIV ratio ↔
      threshold = 1 ∨ threshold % DIV ≤ threshold / DIV * (ratio - DIV) := by
  have least : 1 ≤ threshold := range.1
  rw [adjustedDistanceThreshold_of_ne range h.ne', le_max_iff, le_min_iff,
    and_iff_left range.2, self_le_scale_iff h.le, Nat.le_one_iff_eq_zero_or_eq_one]
  omega

theorem adjusted_mono {ratio ratio' : ℕ} (range : InRange cfg threshold) (h : ratio ≤ ratio')
    (kept : DIV < ratio' → threshold ≤ adjustedDistanceThreshold cfg threshold DIV ratio') :
    adjustedDistanceThreshold cfg threshold DIV ratio ≤
      adjustedDistanceThreshold cfg threshold DIV ratio' := by
  rcases Nat.lt_or_ge DIV ratio' with above | below
  · rcases Nat.lt_or_ge DIV ratio with up | down
    · rw [adjustedDistanceThreshold_of_ne range above.ne',
        adjustedDistanceThreshold_of_ne range up.ne']
      exact max_le_max_left _ (min_le_min_right _ (scale_mono _ _ h))
    · exact (adjusted_le_self range down).trans (kept above)
  · by_cases one : ratio' = DIV
    · rw [one, adjustedDistanceThreshold_one range]
      exact adjusted_le_self range (h.trans below)
    · have strict := Nat.lt_of_le_of_ne below one
      rw [adjustedDistanceThreshold_of_ne range one,
        adjustedDistanceThreshold_of_ne range (h.trans_lt strict).ne]
      exact max_le_max_left _ (min_le_min_right _ (scale_mono _ _ h))

/-- Only a ratio above one can move the threshold the wrong way. -/
theorem MonotoneAndSigned.of_kept (range : InRange cfg threshold) (pos : 0 < target)
    (small : target < 2 ^ 64)
    (kept : ∀ observed < 2 ^ 64, 0 < ratioExcess cfg observed target →
      threshold ≤ adjustedDistanceThreshold cfg threshold DIV
        (blockTimeRatio cfg observed target)) :
    MonotoneAndSigned cfg threshold target where
  total observed fits := ⟨_, calculateDistanceThreshold_eq cfg threshold fits pos⟩
  mono := by
    intro observed observed' new new' le fits h h'
    rw [calculateDistanceThreshold_eq cfg threshold (le.trans_lt fits) pos] at h
    rw [calculateDistanceThreshold_eq cfg threshold fits pos] at h'
    cases h
    cases h'
    refine adjusted_mono range (blockTimeRatio_mono cfg target le) ?_
    intro above
    exact kept observed' fits (DIV_lt_blockTimeRatio_iff.1 above)
  slower := by
    intro observed new late fits h
    rw [calculateDistanceThreshold_eq cfg threshold fits pos] at h
    cases h
    have ratio := blockTimeRatio_mono cfg target late.le
    rw [blockTimeRatio_self cfg pos] at ratio
    rcases Nat.lt_or_eq_of_le ratio with above | one
    · exact kept observed fits (DIV_lt_blockTimeRatio_iff.1 above)
    · rw [← one, adjustedDistanceThreshold_one range]
  faster := by
    intro observed new early fits h
    rw [calculateDistanceThreshold_eq cfg threshold fits pos] at h
    cases h
    have ratio := blockTimeRatio_mono cfg target early.le
    rw [blockTimeRatio_self cfg pos] at ratio
    exact adjusted_le_self range ratio
  equal := by
    rw [calculateDistanceThreshold_eq cfg threshold small pos, blockTimeRatio_self cfg pos,
      adjustedDistanceThreshold_one range]

/-- From the square of the scale on, nothing the division drops matters. -/
theorem MonotoneAndSigned.of_large (range : InRange cfg threshold) (pos : 0 < target)
    (small : target < 2 ^ 64) (large : DIV * DIV ≤ threshold) :
    MonotoneAndSigned cfg threshold target := by
  refine .of_kept range pos small ?_
  intro observed _ excess
  have above := DIV_lt_blockTimeRatio_iff.2 excess
  have scaled := self_le_scale_of_large (by decide) large above
  exact (le_min le_rfl scaled).trans (le_adjustedDistanceThreshold range _)

/-- The adjustment goes the right way exactly where, for every observed block
time over the target, what the division by the scale drops is at most what the
ratio adds. -/
theorem monotoneAndSigned_iff (range : InRange cfg threshold) (pos : 0 < target)
    (small : target < 2 ^ 64) :
    MonotoneAndSigned cfg threshold target ↔
      threshold = 1 ∨ ∀ observed < 2 ^ 64, 0 < ratioExcess cfg observed target →
        threshold % DIV ≤ threshold / DIV * ratioExcess cfg observed target := by
  have law (observed : ℕ) (excess : 0 < ratioExcess cfg observed target) :=
    self_le_adjusted_iff range (DIV_lt_blockTimeRatio_iff.2 excess)
  simp only [blockTimeRatio_sub] at law
  constructor
  · intro h
    refine or_iff_not_imp_left.2 ?_
    intro more observed fits excess
    have kept := h.slower observed _ (lt_of_ratioExcess_pos pos excess) fits
      (calculateDistanceThreshold_eq cfg threshold fits pos)
    exact ((law observed excess).1 kept).resolve_left more
  · intro h
    refine .of_kept range pos small ?_
    intro observed fits excess
    exact (law observed excess).2 (h.imp_right fun made => made observed fits excess)

/-- Blocks a tenth slower than the target nearly halve this threshold. -/
theorem not_monotoneAndSigned : InRange Mock.config (2 * 10 ^ 18 - 1) ∧
    calculateDistanceThreshold Mock.config (2 * 10 ^ 18 - 1) 1100 1000 = .ok (11 * 10 ^ 17) ∧
    ¬ MonotoneAndSigned Mock.config (2 * 10 ^ 18 - 1) 1000 := by
  have new : calculateDistanceThreshold Mock.config (2 * 10 ^ 18 - 1) 1100 1000 =
      .ok (11 * 10 ^ 17) := by decide +kernel
  refine ⟨⟨by decide, by decide +kernel⟩, new, ?_⟩
  intro h
  have grown := h.slower 1100 _ (by decide) (by decide) new
  exact absurd grown (by decide)

/-- A threshold of whole units loses nothing. -/
theorem monotoneAndSigned_three : MonotoneAndSigned Mock.config (3 * 10 ^ 18) 1000 :=
  (monotoneAndSigned_iff ⟨by decide, by decide +kernel⟩ (by decide) (by decide)).2
    (.inr fun _ _ _ => Nat.zero_le _)

end Resonance.QPow
