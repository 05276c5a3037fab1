import Resonance.Foundation.OrderStatistics
import Resonance.QPow.Blocks

/-!
The median of the recorded block times.

`get_median_block_time` sorts the slots in use and reads the middle of them.
What it returns is told by counting in the last block times recorded, without
sorting and without the ring: the entry of middle rank, or half the sum of the
two. That holds after any sequence of `record_block_time` on an empty history,
wherever the ring has wrapped to.
-/
namespace Resonance.QPow
open Storage MachineInt RingBuffer OrderStatistics
open scoped List

variable {cfg : Config} {s : State} {times times' written : List ℕ} {m m' : ℕ}

/-- The middle of the times, once sorted; both indices are in bounds. -/
def medianTime (times : List ℕ) (some : 0 < times.length) : ℕ :=
  have below : times.length / 2 - 1 < times.length := by omega
  have middle : times.length / 2 < times.length := by omega
  if times.length % 2 = 0 then
    saturatingAdd 64 times[times.length / 2 - 1] times[times.length / 2] / 2
  else times[times.length / 2]

def getMedianBlockTime (cfg : Config) (s : State) : ℕ :=
  if recorded : s.historySize = 0 then cfg.targetBlockTime
  else
    medianTime ((List.range s.historySize).map (valueAt s.blockTimeHistory)).mergeSort
      (by simpa using Nat.pos_of_ne_zero recorded)

/-- The entry of middle rank; half the sum of the two of them, saturated, where
the count is even. -/
def IsMedian (times : List ℕ) (m : ℕ) : Prop :=
  if times.length % 2 = 0 then
    ∃ a b, HasRank (times.length / 2 - 1) times a ∧ HasRank (times.length / 2) times b ∧
      m = saturatingAdd 64 a b / 2
  else HasRank (times.length / 2) times m

theorem IsMedian.unique (h : IsMedian times m) (h' : IsMedian times m') : m = m' := by
  simp only [IsMedian] at h h'
  split at h
  · rename_i even
    rw [if_pos even] at h'
    obtain ⟨a, b, lower, upper, rfl⟩ := h
    obtain ⟨a', b', lower', upper', rfl⟩ := h'
    rw [lower.unique lower', upper.unique upper']
  · rename_i odd
    rw [if_neg odd] at h'
    exact h.unique h'

theorem IsMedian.of_perm (h : IsMedian times m) (perm : times ~ times') : IsMedian times' m := by
  simp only [IsMedian] at h ⊢
  rw [perm.length_eq] at h
  split
  · rename_i even
    rw [if_pos even] at h
    obtain ⟨a, b, lower, upper, rfl⟩ := h
    exact ⟨a, b, lower.of_perm perm, upper.of_perm perm, rfl⟩
  · rename_i odd
    rw [if_neg odd] at h
    exact h.of_perm perm

theorem isMedian_medianTime (times : List ℕ) (some : 0 < times.mergeSort.length) :
    IsMedian times (medianTime times.mergeSort some) := by
  have length : times.mergeSort.length = times.length := List.length_mergeSort times
  dsimp only [IsMedian, medianTime]
  rw [← length]
  split
  · exact ⟨_, _, hasRank_mergeSort times _, hasRank_mergeSort times _, rfl⟩
  · exact hasRank_mergeSort times _

/-- The slots in use have the median that is returned. -/
theorem isMedian_contents (cfg : Config) (recorded : s.historySize ≠ 0) :
    IsMedian s.ring.contents (getMedianBlockTime cfg s) := by
  rw [getMedianBlockTime, dif_neg recorded]
  exact isMedian_medianTime _ _

/-- Recording block times one after the other fills the ring with them. -/
theorem exec_records (times : List ℕ) (size : 1 ≤ cfg.blockTimeHistorySize)
    (holds : Holds cfg.blockTimeHistorySize s.ring written) :
    ∃ s', exec (forM times (recordBlockTime cfg)) s = (.ok ⟨⟩, s') ∧
      Holds cfg.blockTimeHistorySize s'.ring (written ++ times) := by
  induction times generalizing s written with
  | nil => exact ⟨s, rfl, by simpa using holds⟩
  | cons time times ih =>
      have first : exec (recordBlockTime cfg time) s = (.ok ⟨⟩, s.recorded cfg time) :=
        recordBlockTime_ok_iff.2 ⟨Nat.ne_of_gt size, rfl⟩
      have pushed : Holds cfg.blockTimeHistorySize (s.recorded cfg time).ring
          (written ++ [time]) := by
        rw [ring_recorded time (holds.index_lt size)]
        exact holds.push time
      obtain ⟨s', rest, filled⟩ := ih pushed
      refine ⟨s', ?_, ?_⟩
      · rw [List.forM_cons, exec_bind_of_ok first]
        exact rest
      · simpa using filled

/-- After `n` block times on an empty history the median is that of the last
`min n size` of them. -/
theorem medianBlockTime_of_records (index : s.historyIndex = 0) (empty : s.historySize = 0)
    (size : 1 ≤ cfg.blockTimeHistorySize) (some : 1 ≤ times.length) :
    ∃ s', exec (forM times (recordBlockTime cfg)) s = (.ok ⟨⟩, s') ∧
      ∀ m, getMedianBlockTime cfg s' = m ↔
        IsMedian (times.drop (times.length - min times.length cfg.blockTimeHistorySize)) m := by
  have start : Holds cfg.blockTimeHistorySize s.ring [] := .empty index empty
  obtain ⟨s', run, holds⟩ := exec_records times size start
  rw [List.nil_append] at holds
  have recorded : s'.historySize ≠ 0 := by
    have count : s'.historySize = min times.length cfg.blockTimeHistorySize := holds.size_eq
    omega
  have last : window cfg.blockTimeHistorySize times =
      times.drop (times.length - min times.length cfg.blockTimeHistorySize) := by
    rw [window]
    congr 1
    omega
  have median := (isMedian_contents cfg recorded).of_perm holds.contents_perm
  rw [last] at median
  refine ⟨s', run, fun m => ?_⟩
  constructor
  · rintro rfl
    exact median
  · exact median.unique

theorem medianBlockTime_of_records_wrapped :
    ∃ s', exec (forM [9, 2, 7, 4, 8, 1, 6] (recordBlockTime Mock.config)) (genesis Mock.config) =
        (.ok ⟨⟩, s') ∧
      ∀ m, getMedianBlockTime Mock.config s' = m ↔ IsMedian [7, 4, 8, 1, 6] m :=
  medianBlockTime_of_records rfl rfl (by decide) (by decide)

end Resonance.QPow
