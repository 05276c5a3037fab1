import Resonance.Foundation.RingBuffer
import Resonance.Foundation.StateMachine
import Resonance.QPow.Pallet

/-!
What a finalisation of the QPoW pallet does, and the runs of its hooks.

`onFinalize_ok` says what a successful `on_finalize` leaves behind, item by
item; every invariant is read off it. Two machines run the hooks: in `hooks`
`on_idle` and `on_finalize` are steps of their own, in `chain` a step is a
whole block, which may have had no weight left for `on_idle`.
-/
namespace Resonance.QPow
open Storage MachineInt StateMachine

variable {cfg : Config} {block : Block} {s s' : State}

/-- The block times recorded, as a ring. -/
def State.ring (s : State) : RingBuffer ℕ where
  slots := valueAt s.blockTimeHistory
  index := s.historyIndex
  size := s.historySize

theorem valueAt_insert (m : StorageMap ℕ ℕ) (k k' v : ℕ) :
    valueAt (m.insert k v) k' = if k' = k then v else valueAt m k' := by
  simp only [valueAt]
  rw [StorageMap.lookup_insert_eq_ite]
  split <;> rfl

theorem valueAt_insert_eq_update (m : StorageMap ℕ ℕ) (k v : ℕ) :
    valueAt (m.insert k v) = Function.update (valueAt m) k v := by
  funext k'
  rw [valueAt_insert, Function.update_apply]

/-- The sum saturates at most once. -/
theorem getBlockTimeSum_eq (recorded : s.historySize ≠ 0) :
    getBlockTimeSum cfg s = min s.ring.contents.sum (maxValue 64) := by
  have sum := foldl_saturatingAdd 64 0 s.ring.contents
  rw [Nat.zero_min, Nat.zero_add, RingBuffer.contents, List.foldl_map] at sum
  rw [getBlockTimeSum, if_neg recorded, RingBuffer.contents]
  exact sum

/-- The storage after `record_block_time`. -/
def State.recorded (cfg : Config) (blockTime : ℕ) (s : State) : State :=
  { s with
    blockTimeHistory := s.blockTimeHistory.insert s.historyIndex blockTime
    historyIndex := saturatingAdd 32 s.historyIndex 1 % cfg.blockTimeHistorySize
    historySize :=
      if s.historySize < cfg.blockTimeHistorySize then saturatingAdd 32 s.historySize 1
      else cfg.blockTimeHistorySize }

theorem recordBlockTime_ok_iff {blockTime : ℕ} :
    exec (recordBlockTime cfg blockTime) s = (.ok ⟨⟩, s') ↔
      cfg.blockTimeHistorySize ≠ 0 ∧ s.recorded cfg blockTime = s' := by
  simp only [recordBlockTime, exec_get_bind, exec_modify_bind, ofResult_bind_ok_iff, rem_eq_ok_iff,
    exec_modify, Prod.mk.injEq, true_and]
  constructor
  · rintro ⟨index, ⟨pos, rfl⟩, rfl⟩
    exact ⟨pos, rfl⟩
  · rintro ⟨pos, rfl⟩
    exact ⟨_, ⟨pos, rfl⟩, rfl⟩

theorem ring_recorded (blockTime : ℕ) (index : s.historyIndex < cfg.blockTimeHistorySize) :
    (s.recorded cfg blockTime).ring = s.ring.push cfg.blockTimeHistorySize blockTime := by
  have bound := cfg.history_lt
  have next : saturatingAdd 32 s.historyIndex 1 = s.historyIndex + 1 :=
    saturatingAdd_eq (le_maxValue_iff.2 (by omega))
  have size : (if s.historySize < cfg.blockTimeHistorySize then saturatingAdd 32 s.historySize 1
      else cfg.blockTimeHistorySize) =
      if s.historySize < cfg.blockTimeHistorySize then s.historySize + 1
      else cfg.blockTimeHistorySize := by
    split
    · exact saturatingAdd_eq (le_maxValue_iff.2 (by omega))
    · rfl
  simp only [State.ring, State.recorded, RingBuffer.push, next, size, valueAt_insert_eq_update]
  rfl

/-- The storage once a block's duration has been recorded. -/
def State.durationRecorded (cfg : Config) (block : Block) (s : State) : State :=
  if block.number > 1 then
    State.recorded cfg (block.now - s.lastBlockTime)
      { s with lastBlockDuration := block.now - s.lastBlockTime }
  else s

theorem recordDuration_ok_iff :
    exec (recordDuration cfg block s.lastBlockTime) s = (.ok ⟨⟩, s') ↔
      (1 < block.number → cfg.blockTimeHistorySize ≠ 0) ∧ s.durationRecorded cfg block = s' := by
  simp only [recordDuration, State.durationRecorded]
  by_cases later : block.number > 1
  · simp only [later, ↓reduceIte, exec_modify_bind, recordBlockTime_ok_iff, true_imp_iff]
  · simp [later]

theorem recordDuration_bind_ok_iff {f : PUnit → Storage Panic State PUnit} :
    exec (recordDuration cfg block s.lastBlockTime >>= f) s = (.ok ⟨⟩, s') ↔
      (1 < block.number → cfg.blockTimeHistorySize ≠ 0) ∧
        exec (f ⟨⟩) (s.durationRecorded cfg block) = (.ok ⟨⟩, s') := by
  rw [bind_ok_iff]
  constructor
  · rintro ⟨_, s₁, recorded, run⟩
    obtain ⟨size, rfl⟩ := recordDuration_ok_iff.1 recorded
    exact ⟨size, run⟩
  · rintro ⟨size, run⟩
    exact ⟨⟨⟩, _, recordDuration_ok_iff.2 ⟨size, rfl⟩, run⟩

/-- The storage after the bookkeeping every block makes. -/
def State.booked (cfg : Config) (block : Block) (work : ℕ) (s : State) : State :=
  { State.durationRecorded cfg block
      { s with
        blockDistanceThresholds :=
          s.blockDistanceThresholds.insert block.number s.currentDistanceThreshold
        totalWork := saturatingAdd 512 s.totalWork work
        blocksInPeriod := saturatingAdd 32 s.blocksInPeriod 1 } with
    lastBlockTime := block.now }

/-- The storage after a correction of the threshold. -/
def State.corrected (cfg : Config) (newDistanceThreshold : ℕ) (s : State) : State :=
  { s with
    currentDistanceThreshold := newDistanceThreshold
    events := s.events ++
      [.distanceThresholdAdjusted s.currentDistanceThreshold newDistanceThreshold
        (getBlockTimeSum cfg s)] }

/-- The threshold the recorded block times make of the current one. -/
def nextDistanceThreshold (cfg : Config) (currentDistanceThreshold : ℕ) (s : State) :
    Except Panic ℕ :=
  calculateDistanceThreshold cfg currentDistanceThreshold (getBlockTimeSum cfg s)
    (saturatingMul 64 cfg.targetBlockTime s.historySize)

theorem correctDistanceThreshold_ok_iff :
    exec (correctDistanceThreshold cfg s.currentDistanceThreshold) s = (.ok ⟨⟩, s') ↔
      if 0 < s.historySize then
        ∃ new, nextDistanceThreshold cfg s.currentDistanceThreshold s = .ok new ∧
          (∃ p, percentageChange s.currentDistanceThreshold new = .ok p) ∧
          s.corrected cfg new = s'
      else s = s' := by
  simp only [correctDistanceThreshold, exec_get_bind, exec_ite]
  by_cases recorded : 0 < s.historySize
  · simp only [recorded, ↓reduceIte, ofResult_bind_ok_iff, exec_modify_bind, exec_pure,
      Prod.mk.injEq, true_and, nextDistanceThreshold, State.corrected]
    constructor
    · rintro ⟨new, calculated, p, change, rfl⟩
      exact ⟨new, calculated, ⟨p, change⟩, rfl⟩
    · rintro ⟨new, calculated, ⟨p, change⟩, rfl⟩
      exact ⟨new, calculated, p, change, rfl⟩
  · simp [recorded]

theorem closePeriod_ok_iff {blocks threshold : ℕ} (time : s.lastBlockTime = block.now) :
    exec (closePeriod cfg block blocks threshold) s = (.ok ⟨⟩, s') ↔
      if cfg.adjustmentPeriod ≤ blocks then
        ∃ s₁, exec (correctDistanceThreshold cfg threshold) s = (.ok ⟨⟩, s₁) ∧
          { s₁ with blocksInPeriod := 0, lastBlockTime := block.now } = s'
      else s = s' := by
  have same : { s with lastBlockTime := block.now } = s := by
    rw [← time]
  simp only [closePeriod]
  by_cases due : cfg.adjustmentPeriod ≤ blocks
  · rw [if_pos due, if_pos due, bind_ok_iff]
    constructor
    · rintro ⟨_, s₁, corrected, closed⟩
      exact ⟨s₁, corrected, congrArg Prod.snd closed⟩
    · rintro ⟨s₁, corrected, rfl⟩
      exact ⟨⟨⟩, s₁, corrected, rfl⟩
  · rw [if_neg due, if_neg due]
    split
    · simp [same]
    · simp

theorem onFinalize_ok_iff :
    exec (onFinalize cfg block) s = (.ok ⟨⟩, s') ↔
      ∃ work, getDifficulty cfg s = .ok work ∧
        s.totalWork ≤ saturatingAdd 512 s.totalWork work ∧
        (1 < block.number → cfg.blockTimeHistorySize ≠ 0) ∧
        if cfg.adjustmentPeriod ≤ s.blocksInPeriod then
          ∃ s₁, exec (correctDistanceThreshold cfg s.currentDistanceThreshold)
              (s.booked cfg block work) = (.ok ⟨⟩, s₁) ∧
            { s₁ with blocksInPeriod := 0, lastBlockTime := block.now } = s'
        else s.booked cfg block work = s' := by
  simp only [onFinalize, adjustDistanceThreshold, exec_get_bind, exec_modify_bind,
    ofResult_bind_ok_iff, sub_eq_ok_iff]
  refine exists_congr fun work => and_congr_right fun _ => ?_
  rw [show s.lastBlockTime = State.lastBlockTime
      { s with
        blockDistanceThresholds :=
          s.blockDistanceThresholds.insert block.number s.currentDistanceThreshold
        totalWork := saturatingAdd 512 s.totalWork work
        blocksInPeriod := saturatingAdd 32 s.blocksInPeriod 1 } from rfl,
    recordDuration_bind_ok_iff, exec_modify_bind, closePeriod_ok_iff rfl]
  simp [State.booked]

/-- A correction of the threshold is made in this block. -/
def Corrects (cfg : Config) (s s' : State) : Prop :=
  cfg.adjustmentPeriod ≤ s.blocksInPeriod ∧ 0 < s'.historySize

instance : Decidable (Corrects cfg s s') := inferInstanceAs (Decidable (_ ∧ _))

/-- What a successful `on_finalize` does. -/
structure Finalised (cfg : Config) (block : Block) (s s' : State) : Prop where
  work : ∃ w, getDifficulty cfg s = .ok w ∧ s'.totalWork = saturatingAdd 512 s.totalWork w
  thresholds : s'.blockDistanceThresholds =
    s.blockDistanceThresholds.insert block.number s.currentDistanceThreshold
  time : s'.lastBlockTime = block.now
  history : 1 < block.number → cfg.blockTimeHistorySize ≠ 0
  ring : s'.ring = (s.durationRecorded cfg block).ring
  period : s'.blocksInPeriod =
    if cfg.adjustmentPeriod ≤ s.blocksInPeriod then 0 else saturatingAdd 32 s.blocksInPeriod 1
  threshold : if Corrects cfg s s' then
      nextDistanceThreshold cfg s.currentDistanceThreshold s' = .ok s'.currentDistanceThreshold
    else s'.currentDistanceThreshold = s.currentDistanceThreshold

section
variable {work : ℕ}

theorem booked_ring : (s.booked cfg block work).ring = (s.durationRecorded cfg block).ring := by
  simp only [State.booked, State.durationRecorded]
  split <;> rfl

@[simp] theorem booked_blockDistanceThresholds :
    (s.booked cfg block work).blockDistanceThresholds =
      s.blockDistanceThresholds.insert block.number s.currentDistanceThreshold := by
  simp only [State.booked, State.durationRecorded]
  split <;> rfl

@[simp] theorem booked_currentDistanceThreshold :
    (s.booked cfg block work).currentDistanceThreshold = s.currentDistanceThreshold := by
  simp only [State.booked, State.durationRecorded]
  split <;> rfl

@[simp] theorem booked_totalWork :
    (s.booked cfg block work).totalWork = saturatingAdd 512 s.totalWork work := by
  simp only [State.booked, State.durationRecorded]
  split <;> rfl

@[simp] theorem booked_blocksInPeriod :
    (s.booked cfg block work).blocksInPeriod = saturatingAdd 32 s.blocksInPeriod 1 := by
  simp only [State.booked, State.durationRecorded]
  split <;> rfl

end

/-- How a block ends once it is booked: a period that is over is closed, and the
threshold corrected if block times are recorded. -/
inductive Ending (cfg : Config) (block : Block) (s booked : State) : State → Prop
  | corrects (new : ℕ) : cfg.adjustmentPeriod ≤ s.blocksInPeriod → 0 < booked.historySize →
      nextDistanceThreshold cfg s.currentDistanceThreshold booked = .ok new →
      Ending cfg block s booked
        { booked.corrected cfg new with blocksInPeriod := 0, lastBlockTime := block.now }
  | closes : cfg.adjustmentPeriod ≤ s.blocksInPeriod → ¬ 0 < booked.historySize →
      Ending cfg block s booked { booked with blocksInPeriod := 0, lastBlockTime := block.now }
  | continues : ¬ cfg.adjustmentPeriod ≤ s.blocksInPeriod → Ending cfg block s booked booked

theorem ending_of_ok (run : exec (onFinalize cfg block) s = (.ok ⟨⟩, s')) :
    ∃ work, getDifficulty cfg s = .ok work ∧
      (1 < block.number → cfg.blockTimeHistorySize ≠ 0) ∧
      Ending cfg block s (s.booked cfg block work) s' := by
  obtain ⟨work, difficulty, -, history, run⟩ := onFinalize_ok_iff.1 run
  refine ⟨work, difficulty, history, ?_⟩
  by_cases due : cfg.adjustmentPeriod ≤ s.blocksInPeriod
  · rw [if_pos due] at run
    obtain ⟨s₁, corrected, rfl⟩ := run
    rw [← booked_currentDistanceThreshold, correctDistanceThreshold_ok_iff] at corrected
    by_cases recorded : 0 < (s.booked cfg block work).historySize
    · rw [if_pos recorded] at corrected
      obtain ⟨new, next, -, rfl⟩ := corrected
      rw [booked_currentDistanceThreshold] at next
      exact .corrects new due recorded next
    · rw [if_neg recorded] at corrected
      subst corrected
      exact .closes due recorded
  · rw [if_neg due] at run
    subst run
    exact .continues due

theorem onFinalize_ok (run : exec (onFinalize cfg block) s = (.ok ⟨⟩, s')) :
    Finalised cfg block s s' := by
  obtain ⟨work, difficulty, history, ending⟩ := ending_of_ok run
  cases ending with
  | corrects new due recorded next =>
      refine ⟨⟨work, difficulty, booked_totalWork⟩, booked_blockDistanceThresholds, rfl, history,
        booked_ring, (if_pos due).symm, ?_⟩
      rw [if_pos ⟨due, recorded⟩]
      exact next
  | closes due unrecorded =>
      refine ⟨⟨work, difficulty, booked_totalWork⟩, booked_blockDistanceThresholds, rfl, history,
        booked_ring, (if_pos due).symm, ?_⟩
      rw [if_neg fun corrects => unrecorded corrects.2]
      exact booked_currentDistanceThreshold
  | continues early =>
      refine ⟨⟨work, difficulty, booked_totalWork⟩, booked_blockDistanceThresholds, rfl, history,
        booked_ring, ?_, ?_⟩
      · rw [if_neg early, booked_blocksInPeriod]
      · rw [if_neg fun corrects => early corrects.1]
        exact booked_currentDistanceThreshold

/-- The storage after `on_idle`. -/
def State.idled (cfg : Config) (block : Block) (s : State) : State :=
  if s.lastBlockTime = 0 then
    { s with
      lastBlockTime := block.now
      currentDistanceThreshold := getInitialDistanceThreshold cfg }
  else s

@[simp] theorem exec_onIdle : exec (onIdle cfg block) s = (.ok ⟨⟩, s.idled cfg block) := by
  simp only [onIdle, State.idled]
  split <;> rename_i h <;> simp [h]

theorem idled_of_ne_zero (h : s.lastBlockTime ≠ 0) : s.idled cfg block = s := if_neg h

@[simp] theorem idled_ring : (s.idled cfg block).ring = s.ring := by
  simp only [State.idled]
  split <;> rfl

@[simp] theorem idled_totalWork : (s.idled cfg block).totalWork = s.totalWork := by
  simp only [State.idled]
  split <;> rfl

@[simp] theorem idled_blocksInPeriod : (s.idled cfg block).blocksInPeriod = s.blocksInPeriod := by
  simp only [State.idled]
  split <;> rfl

@[simp] theorem idled_blockDistanceThresholds :
    (s.idled cfg block).blockDistanceThresholds = s.blockDistanceThresholds := by
  simp only [State.idled]
  split <;> rfl

/-- A storage and the number of the last finalised block. -/
structure Chain where
  number : ℕ
  state : State

inductive Hook
  | onIdle (block : Block)
  | onFinalize (block : Block)

/-- The hooks, called in any order for the block after the last finalised one. -/
def hooks (cfg : Config) : Machine Chain Hook where
  init c := c = ⟨0, genesis cfg⟩
  step c hook c' :=
    match hook with
    | .onIdle block =>
        block.number = c.number + 1 ∧ c'.number = c.number ∧
          exec (onIdle cfg block) c.state = (.ok ⟨⟩, c'.state)
    | .onFinalize block =>
        block.number = c.number + 1 ∧ c'.number = block.number ∧
          exec (onFinalize cfg block) c.state = (.ok ⟨⟩, c'.state)

structure ExecutedBlock extends Block where
  /-- The block leaves weight for `on_idle`. -/
  idle : Bool

def executeBlock (cfg : Config) (block : ExecutedBlock) : Storage Panic State PUnit := do
  (if block.idle then onIdle cfg block.toBlock else pure ⟨⟩)
  onFinalize cfg block.toBlock

/-- The storage at the end of a block, before it is finalised. -/
def ExecutedBlock.before (cfg : Config) (block : ExecutedBlock) (s : State) : State :=
  if block.idle then s.idled cfg block.toBlock else s

theorem executeBlock_ok_iff {block : ExecutedBlock} :
    exec (executeBlock cfg block) s = (.ok ⟨⟩, s') ↔
      exec (onFinalize cfg block.toBlock) (block.before cfg s) = (.ok ⟨⟩, s') := by
  simp only [executeBlock, ExecutedBlock.before]
  rw [exec_bind]
  cases block.idle with
  | true => simp
  | false => rfl

/-- Consecutive blocks from genesis. -/
def chain (cfg : Config) : Machine Chain ExecutedBlock where
  init c := c = ⟨0, genesis cfg⟩
  step c block c' :=
    block.number = c.number + 1 ∧ c'.number = block.number ∧
      exec (executeBlock cfg block) c.state = (.ok ⟨⟩, c'.state)

/-- A block is at most two hook calls. -/
theorem reachable_hooks_of_chain {c : Chain} (h : Reachable (chain cfg) c) :
    Reachable (hooks cfg) c := by
  refine h.invariant ?_ ?_
  · intro c init
    exact Reachable.start init
  · intro c block c' _ ih step
    obtain ⟨number, number', run⟩ := step
    rw [executeBlock_ok_iff] at run
    have before : Reachable (hooks cfg) ⟨c.number, block.before cfg c.state⟩ := by
      simp only [ExecutedBlock.before]
      split
      · exact ih.next (l := .onIdle block.toBlock) ⟨number, rfl, exec_onIdle⟩
      · exact ih
    exact before.next (l := .onFinalize block.toBlock) ⟨number, number', run⟩

namespace Mock

/-- The configuration of the pallet's own mock runtime. -/
def config : Config where
  initialDistanceThresholdExponent := 508
  difficultyAdjustPercentClamp := 10
  targetBlockTime := 1000
  adjustmentPeriod := 1
  blockTimeHistorySize := 5
  clamp_lt := by decide
  target_lt := by decide
  period_lt := by decide
  history_lt := by decide
  rounding := .nearestPrefDown

instance neZero_two_pow_64 : NeZero (2 ^ 64) := ⟨by decide⟩

/-- A block with a timestamp and no weight left for `on_idle`. -/
def blockAt (number : ℕ) (now : Fin (2 ^ 64)) : ExecutedBlock where
  number := number
  now := now
  now_lt := now.isLt
  idle := false

def next (c : Chain) (now : Fin (2 ^ 64)) : ExecutedBlock := blockAt (c.number + 1) now

def execute (cfg : Config) (c : Chain) (block : ExecutedBlock) : Chain :=
  ⟨block.number, (exec (executeBlock cfg block) c.state).2⟩

/-- The block is the next one, and its execution succeeds. -/
def Executes (cfg : Config) (c : Chain) (block : ExecutedBlock) : Prop :=
  block.number = c.number + 1 ∧ (exec (executeBlock cfg block) c.state).1 = .ok ⟨⟩

instance {c : Chain} {block : ExecutedBlock} : Decidable (Executes cfg c block) :=
  inferInstanceAs (Decidable (_ ∧ _))

theorem step_execute {c : Chain} {block : ExecutedBlock} (executes : Executes cfg c block) :
    (chain cfg).step c block (execute cfg c block) :=
  ⟨executes.1, rfl, exec_eq_of_fst executes.2⟩

def start (cfg : Config) : Chain := ⟨0, genesis cfg⟩

theorem run_executed (blocks : List ExecutedBlock)
    (executes : ∀ t ∈ trace (execute cfg) (start cfg) blocks, Executes cfg t.pre t.label) :
    Run (chain cfg) (trace (execute cfg) (start cfg) blocks)
      (blocks.foldl (execute cfg) (start cfg)) := by
  have start : Run (chain cfg) [] (start cfg) := .start rfl
  exact start.execute fun t ht => step_execute (executes t ht)

/-- Blocks one and a half seconds apart, on a target of one second. -/
def slowBlocks : List ExecutedBlock :=
  [blockAt 1 1000, blockAt 2 2500, blockAt 3 4000, blockAt 4 5500, blockAt 5 7000,
    blockAt 6 8500, blockAt 7 10000]

/-- Seven blocks; the second, the fourth and the sixth correct the threshold. -/
def sevenBlocks : List (Transition Chain ExecutedBlock) :=
  trace (execute config) (start config) slowBlocks

def seventh : Chain := slowBlocks.foldl (execute config) (start config)

theorem sevenBlocks_run : Run (chain config) sevenBlocks seventh :=
  run_executed slowBlocks (by decide +kernel)

end Mock

end Resonance.QPow
