import Resonance.Foundation.Remainders
import Resonance.QPow.Window

/-!
How often the threshold is recomputed.

The number of blocks in the period is compared with `AdjustmentPeriod` as it
was before the block, and only then counted up. A period therefore takes one
block more than the constant says: the threshold is recomputed in the blocks
whose number is a multiple of `AdjustmentPeriod + 1`, and with a period of one
in every second block.
-/
namespace Resonance.QPow
open Storage MachineInt StateMachine Multiples

variable {cfg : Config} {block : Block} {s s' : State}
  {τ : List (Transition Chain ExecutedBlock)} {c c' : Chain}

def Event.isAdjustment : Event → Bool
  | .proofSubmitted _ => false
  | .distanceThresholdAdjusted _ _ _ => true

/-- How many times an adjusted threshold has been announced. -/
def adjustments (s : State) : ℕ := s.events.countP Event.isAdjustment

/-- The block announces an adjusted threshold. -/
def Recomputes (t : Transition Chain ExecutedBlock) : Prop :=
  adjustments t.pre.state < adjustments t.post.state

instance (t : Transition Chain ExecutedBlock) : Decidable (Recomputes t) :=
  inferInstanceAs (Decidable (_ < _))

/-- The numbers of the blocks in which the threshold was recomputed. -/
def recomputations (τ : List (Transition Chain ExecutedBlock)) : List ℕ :=
  (τ.filter Recomputes).map fun t => t.label.number

theorem recomputations_snoc (t : Transition Chain ExecutedBlock) :
    recomputations (τ ++ [t]) =
      if Recomputes t then recomputations τ ++ [t.label.number] else recomputations τ := by
  by_cases h : Recomputes t
  · simp [recomputations, h]
  · simp [recomputations, h]

theorem adjustments_booked (cfg : Config) (block : Block) (work : ℕ) (s : State) :
    adjustments (s.booked cfg block work) = adjustments s := by
  simp only [State.booked, State.durationRecorded]
  split <;> rfl

theorem adjustments_corrected (cfg : Config) (new : ℕ) (s : State) :
    adjustments (s.corrected cfg new) = adjustments s + 1 := by
  simp [adjustments, State.corrected, Event.isAdjustment]

theorem adjustments_before (cfg : Config) (block : ExecutedBlock) (s : State) :
    adjustments (block.before cfg s) = adjustments s := by
  simp only [ExecutedBlock.before, State.idled]
  split
  · split <;> rfl
  · rfl

theorem blocksInPeriod_before (cfg : Config) (block : ExecutedBlock) (s : State) :
    (block.before cfg s).blocksInPeriod = s.blocksInPeriod := by
  simp only [ExecutedBlock.before]
  split
  · exact idled_blocksInPeriod
  · rfl

/-- A correction is announced, and nothing else is. -/
theorem adjustments_onFinalize (run : exec (onFinalize cfg block) s = (.ok ⟨⟩, s')) :
    adjustments s < adjustments s' ↔ Corrects cfg s s' := by
  obtain ⟨work, -, -, ending⟩ := ending_of_ok run
  have booked := adjustments_booked cfg block work s
  cases ending with
  | corrects new due recorded next =>
      have announced := adjustments_corrected cfg new (s.booked cfg block work)
      have grown : adjustments s < adjustments ((s.booked cfg block work).corrected cfg new) := by
        omega
      exact iff_of_true grown ⟨due, recorded⟩
  | closes due unrecorded =>
      exact iff_of_false (Nat.not_lt.2 booked.le) fun corrects => unrecorded corrects.2
  | continues early =>
      exact iff_of_false (Nat.not_lt.2 booked.le) fun corrects => early corrects.1

/-- From the second block on block times have been recorded. -/
theorem Finalised.historySize_pos (h : Finalised cfg block s s') (later : 1 < block.number) :
    0 < s'.historySize := by
  have size := congrArg RingBuffer.size h.ring
  have some := h.history later
  rw [State.durationRecorded, if_pos later] at size
  simp only [State.ring, State.recorded, saturatingAdd, maxValue] at size
  rw [size]
  split
  · omega
  · omega

/-- What a run has recomputed, and how far it is into the next period. -/
structure CadenceHistory (cfg : Config) (τ : List (Transition Chain ExecutedBlock)) (c : Chain) :
    Prop where
  number : c.number = τ.length
  counter : c.state.blocksInPeriod = τ.length % (cfg.adjustmentPeriod + 1)
  recomputed : recomputations τ = multiples (cfg.adjustmentPeriod + 1) τ.length

theorem CadenceHistory.step (period : 1 ≤ cfg.adjustmentPeriod) {block : ExecutedBlock}
    (history : CadenceHistory cfg τ c) (step : (chain cfg).step c block c') :
    CadenceHistory cfg (τ ++ [⟨c, block, c'⟩]) c' := by
  obtain ⟨number, number', run⟩ := step
  rw [executeBlock_ok_iff] at run
  have finalised := onFinalize_ok run
  have counter := finalised.period
  have announced := adjustments_onFinalize run
  rw [blocksInPeriod_before, history.counter] at counter
  rw [adjustments_before, Corrects, blocksInPeriod_before, history.counter,
    last_le_mod_iff] at announced
  have recomputes : Recomputes ⟨c, block, c'⟩ ↔ cfg.adjustmentPeriod + 1 ∣ τ.length + 1 := by
    refine announced.trans (and_iff_left_of_imp ?_)
    intro due
    have late := Nat.le_of_dvd (Nat.succ_pos _) due
    have number := history.number
    exact finalised.historySize_pos (by omega)
  refine ⟨?_, ?_, ?_⟩
  · rw [number', number, history.number, List.length_append, List.length_singleton]
  · have small := cfg.period_lt
    rw [counter, List.length_append, List.length_singleton, succ_mod_succ]
    split
    · rfl
    · exact saturatingAdd_eq (le_maxValue_iff.2 (by omega))
  · rw [recomputations_snoc, List.length_append, List.length_singleton, history.recomputed]
    dsimp only
    rw [number, history.number]
    by_cases due : cfg.adjustmentPeriod + 1 ∣ τ.length + 1
    · rw [if_pos (recomputes.2 due), multiples_succ_of_dvd due]
    · rw [if_neg fun h => due (recomputes.1 h), multiples_succ_of_not_dvd due]

theorem CadenceHistory.of_run (period : 1 ≤ cfg.adjustmentPeriod) (run : Run (chain cfg) τ c) :
    CadenceHistory cfg τ c := by
  refine run.history (P := CadenceHistory cfg) ?_ ?_
  · rintro c rfl
    exact ⟨rfl, rfl, multiples_zero.symm⟩
  · exact fun _ _ _ _ _ history step => history.step period step

/-- Successive recomputations are a period apart. -/
def PeriodApart (cfg : Config) (τ : List (Transition Chain ExecutedBlock)) : Prop :=
  (recomputations τ).IsChain fun earlier later => later = earlier + cfg.adjustmentPeriod

/-- Once block times are recorded, any period of successive blocks recomputes the
threshold exactly once. -/
def OncePerPeriod (cfg : Config) (τ : List (Transition Chain ExecutedBlock)) : Prop :=
  ∀ before period after, τ = before ++ period ++ after →
    period.length = cfg.adjustmentPeriod → (∀ t ∈ period, 0 < t.post.state.historySize) →
    period.countP Recomputes = 1

theorem periodApart_iff (period : 1 ≤ cfg.adjustmentPeriod) (run : Run (chain cfg) τ c) :
    PeriodApart cfg τ ↔ τ.length < 2 * (cfg.adjustmentPeriod + 1) := by
  rw [PeriodApart, (CadenceHistory.of_run period run).recomputed,
    isChain_multiples_iff (Nat.succ_pos _)]
  exact or_iff_right (Nat.ne_of_lt (Nat.lt_succ_self _))

/-- Block times are recorded in every block but the first. -/
theorem historySize_pos_iff (period : 1 ≤ cfg.adjustmentPeriod) {block : ExecutedBlock}
    (run : Run (chain cfg) τ c) (step : (chain cfg).step c block c') :
    0 < c'.state.historySize ↔ τ ≠ [] := by
  have history := CadenceHistory.of_run period run
  obtain ⟨number, -, executed⟩ := step
  have finalised := onFinalize_ok (executeBlock_ok_iff.1 executed)
  constructor
  · rintro recorded rfl
    obtain rfl : c = ⟨0, genesis cfg⟩ := run.init
    have size := congrArg RingBuffer.size finalised.ring
    rw [ring_durationRecorded_first (by exact number), before_ring] at size
    exact absurd size recorded.ne'
  · intro later
    have some := List.length_pos_iff.2 later
    have count := history.number
    exact finalised.historySize_pos (by omega)

theorem countP_recomputes (τ : List (Transition Chain ExecutedBlock)) :
    τ.countP Recomputes = (recomputations τ).length := by
  rw [recomputations, List.length_map, List.countP_eq_length_filter]

/-- A period of blocks recomputes the threshold once, unless it comes right after a
recomputation or starts with the first block. -/
theorem countP_period (period : 1 ≤ cfg.adjustmentPeriod) (run : Run (chain cfg) τ c)
    {before blocks after : List (Transition Chain ExecutedBlock)}
    (split : τ = before ++ blocks ++ after) (length : blocks.length = cfg.adjustmentPeriod) :
    blocks.countP Recomputes = if cfg.adjustmentPeriod + 1 ∣ before.length then 0 else 1 := by
  obtain ⟨_, upTo⟩ := run.before split
  obtain ⟨_, start⟩ := upTo.before rfl
  have whole : before.countP Recomputes + blocks.countP Recomputes = _ :=
    (List.countP_append ..).symm.trans (countP_recomputes (before ++ blocks))
  rw [(CadenceHistory.of_run period upTo).recomputed, List.length_append, length,
    length_multiples_add, countP_recomputes before,
    (CadenceHistory.of_run period start).recomputed] at whole
  exact Nat.add_left_cancel whole

theorem recorded_of_later (period : 1 ≤ cfg.adjustmentPeriod) (run : Run (chain cfg) τ c)
    {before blocks after : List (Transition Chain ExecutedBlock)}
    (split : τ = before ++ blocks ++ after) (later : before ≠ []) :
    ∀ t ∈ blocks, 0 < t.post.state.historySize := by
  intro t mem
  obtain ⟨earlier, rest, rfl⟩ := List.append_of_mem mem
  have place : τ = (before ++ earlier) ++ t :: (rest ++ after) := by
    rw [split]
    simp
  obtain ⟨start, step⟩ := run.upTo place
  exact (historySize_pos_iff period start step).2 fun none =>
    later (List.append_eq_nil_iff.1 none).1

theorem oncePerPeriod_iff (period : 1 ≤ cfg.adjustmentPeriod) (run : Run (chain cfg) τ c) :
    OncePerPeriod cfg τ ↔ τ.length ≤ 2 * cfg.adjustmentPeriod := by
  constructor
  · intro once
    by_contra long
    -- the period right after block `AdjustmentPeriod + 1`
    have split : τ = τ.take (cfg.adjustmentPeriod + 1) ++
        (τ.drop (cfg.adjustmentPeriod + 1)).take cfg.adjustmentPeriod ++
        (τ.drop (cfg.adjustmentPeriod + 1)).drop cfg.adjustmentPeriod := by
      rw [List.append_assoc, List.take_append_drop, List.take_append_drop]
    have start : (τ.take (cfg.adjustmentPeriod + 1)).length = cfg.adjustmentPeriod + 1 := by
      rw [List.length_take]
      omega
    have length : ((τ.drop (cfg.adjustmentPeriod + 1)).take cfg.adjustmentPeriod).length =
        cfg.adjustmentPeriod := by
      rw [List.length_take, List.length_drop]
      omega
    have later : τ.take (cfg.adjustmentPeriod + 1) ≠ [] := List.ne_nil_of_length_pos (by omega)
    have one := once _ _ _ split length (recorded_of_later period run split later)
    rw [countP_period period run split length, if_pos (by rw [start])] at one
    exact absurd one (by decide)
  · intro short before blocks after split length recorded
    rw [countP_period period run split length, if_neg]
    intro divides
    have total := congrArg List.length split
    simp only [List.length_append] at total
    have none : before.length = 0 := Nat.eq_zero_of_dvd_of_lt divides (by omega)
    obtain rfl := List.length_eq_zero_iff.1 none
    cases blocks with
    | nil =>
        rw [List.length_nil] at length
        omega
    | cons t blocks =>
        have first : τ = [] ++ t :: (blocks ++ after) := split
        obtain ⟨start, step⟩ := run.upTo first
        exact (historySize_pos_iff period start step).1 (recorded t List.mem_cons_self) rfl

/-- Both readings of the cadence fail in every run that gets past `2 * AdjustmentPeriod`
blocks, and hold in every shorter one. -/
theorem recomputed_once_per_period_iff (period : 1 ≤ cfg.adjustmentPeriod)
    (run : Run (chain cfg) τ c) :
    OncePerPeriod cfg τ ∧ PeriodApart cfg τ ↔ τ.length ≤ 2 * cfg.adjustmentPeriod := by
  rw [oncePerPeriod_iff period run, periodApart_iff period run]
  omega

namespace Mock

/-- As many blocks as two periods of the mock chain have. -/
def twoBlocks : List (Transition Chain ExecutedBlock) :=
  trace (execute config) (start config) [blockAt 1 1000, blockAt 2 2500]

theorem twoBlocks_run : Run (chain config) twoBlocks
    ([blockAt 1 1000, blockAt 2 2500].foldl (execute config) (start config)) :=
  run_executed [blockAt 1 1000, blockAt 2 2500] (by decide +kernel)

end Mock

open Mock

/-- With a period of one the threshold is recomputed in every second block. -/
theorem not_recomputed_once_per_period :
    Run (chain config) sevenBlocks seventh ∧
      config.adjustmentPeriod = 1 ∧ recomputations sevenBlocks = [2, 4, 6] ∧
      ¬ OncePerPeriod config sevenBlocks ∧ ¬ PeriodApart config sevenBlocks := by
  have period : 1 ≤ config.adjustmentPeriod := by decide
  refine ⟨sevenBlocks_run, rfl, (CadenceHistory.of_run period sevenBlocks_run).recomputed, ?_, ?_⟩
  · rw [oncePerPeriod_iff period sevenBlocks_run]
    decide
  · rw [periodApart_iff period sevenBlocks_run]
    decide

theorem recomputed_once_per_period_two :
    twoBlocks.length = 2 ∧ OncePerPeriod config twoBlocks ∧ PeriodApart config twoBlocks :=
  ⟨rfl, (recomputed_once_per_period_iff (by decide) twoBlocks_run).2 (by decide)⟩

end Resonance.QPow
