import Resonance.Foundation.Storage
import Resonance.Foundation.StorageMap
import Resonance.Frame.FixedU128
import Resonance.QPow.Math

/-!
The QPoW pallet: its storage, its hooks and its reads.

A hook either ends with a new storage or with the panic that stops the block.
The numbers a storage item holds are below the bound of its type in the source
(`U512`, `u64`, `u32`); each operation on them is the source's own. A block
brings its number and the timestamp set in it, a `u64`, on which
`saturated_into` is the identity. Values that are only logged are computed
where computing them can panic.
-/
namespace Resonance.QPow
open Storage MachineInt FixedU128

structure Config where
  initialDistanceThresholdExponent : ℕ
  difficultyAdjustPercentClamp : ℕ
  targetBlockTime : ℕ
  adjustmentPeriod : ℕ
  blockTimeHistorySize : ℕ
  clamp_lt : difficultyAdjustPercentClamp < 2 ^ 8
  target_lt : targetBlockTime < 2 ^ 64
  period_lt : adjustmentPeriod < 2 ^ 32
  history_lt : blockTimeHistorySize < 2 ^ 32
  /-- How `FixedU128::from_rational` rounds. -/
  rounding : Rounding

inductive Event
  | proofSubmitted (nonce : Vector UInt8 64)
  | distanceThresholdAdjusted (oldDistanceThreshold newDistanceThreshold observedBlockTime : ℕ)
deriving DecidableEq

structure State where
  blockDistanceThresholds : StorageMap ℕ ℕ
  latestNonce : Option (Vector UInt8 64)
  lastBlockTime : ℕ
  lastBlockDuration : ℕ
  currentDistanceThreshold : ℕ
  totalWork : ℕ
  blocksInPeriod : ℕ
  blockTimeHistory : StorageMap ℕ ℕ
  historyIndex : ℕ
  historySize : ℕ
  /-- The events deposited so far, oldest first. -/
  events : List Event

/-- The block a hook runs in: its number and the timestamp set in it. -/
structure Block where
  number : ℕ
  now : ℕ
  now_lt : now < 2 ^ 64

def FIXED_U128_SCALE : ℕ := 10 ^ 18

/-- A map read with `ValueQuery`. -/
def valueAt (m : StorageMap ℕ ℕ) (k : ℕ) : ℕ := (m.lookup k).getD 0

section
variable (cfg : Config)

def getInitialDistanceThreshold : ℕ := shl 512 1 cfg.initialDistanceThresholdExponent

/-- `GenesisConfig::build`, over empty storage. -/
def genesis : State where
  blockDistanceThresholds := (∅ : StorageMap ℕ ℕ).insert 0 (getInitialDistanceThreshold cfg)
  latestNonce := some (Vector.replicate 64 0)
  lastBlockTime := 0
  lastBlockDuration := 0
  currentDistanceThreshold := getInitialDistanceThreshold cfg
  totalWork := 1
  blocksInPeriod := 0
  blockTimeHistory := ∅
  historyIndex := 0
  historySize := 0
  events := []

def getMinDistance : ℕ := 1

def getMaxDistance : ℕ := shl 512 (getInitialDistanceThreshold cfg) 2

def getDistanceThreshold (s : State) : ℕ :=
  if s.currentDistanceThreshold = 0 then getInitialDistanceThreshold cfg
  else s.currentDistanceThreshold

def getDifficulty (s : State) : Except Panic ℕ :=
  div (getMaxDistance cfg) (getDistanceThreshold cfg s)

def getDistanceThresholdAtBlock (s : State) (blockNumber : ℕ) : ℕ :=
  valueAt s.blockDistanceThresholds blockNumber

def getBlockTimeSum (s : State) : ℕ :=
  if s.historySize = 0 then cfg.targetBlockTime
  else (List.range s.historySize).foldl
    (fun sum i => saturatingAdd 64 sum (valueAt s.blockTimeHistory i)) 0

def onIdle (block : Block) : Storage Panic State PUnit := do
  let s ← get
  if s.lastBlockTime = 0 then
    set { s with
      lastBlockTime := block.now
      currentDistanceThreshold := getInitialDistanceThreshold cfg }
  else pure ⟨⟩

def recordBlockTime (blockTime : ℕ) : Storage Panic State PUnit := do
  let s ← get
  modify fun s =>
    { s with blockTimeHistory := s.blockTimeHistory.insert s.historyIndex blockTime }
  let index ← ofResult (rem (saturatingAdd 32 s.historyIndex 1) cfg.blockTimeHistorySize)
  let newSize :=
    if s.historySize < cfg.blockTimeHistorySize then saturatingAdd 32 s.historySize 1
    else cfg.blockTimeHistorySize
  modify fun s => { s with historyIndex := index, historySize := newSize }

def percentageChange (bigA bigB : ℕ) : Except Panic (ℕ × Bool) := do
  let a := shr bigA 10
  let b := shr bigB 10
  let (larger, smaller) := if a > b then (a, b) else (b, a)
  let absDiff ← sub larger smaller
  let change ← div (saturatingMul 512 absDiff 100) a
  return (change, decide (b ≥ a))

/-- The current threshold times a clamped ratio, kept between the least and the
largest distance. -/
def adjustedDistanceThreshold (currentDistanceThreshold one ratio : ℕ) : ℕ :=
  let adjusted :=
    if ratio = one then some currentDistanceThreshold
    else (checkedDiv currentDistanceThreshold FIXED_U128_SCALE).map (saturatingMul 512 · ratio)
  match adjusted with
  | none => currentDistanceThreshold
  | some adjusted =>
      if adjusted < getMinDistance then getMinDistance
      else if adjusted > getMaxDistance cfg then getMaxDistance cfg
      else adjusted

def calculateDistanceThreshold (currentDistanceThreshold observedBlockTime targetBlockTime : ℕ) :
    Except Panic ℕ := do
  let clamp ← fromRational cfg.rounding cfg.difficultyAdjustPercentClamp 100
  let one ← fromRational cfg.rounding 1 1
  let observed ← fromRational cfg.rounding observedBlockTime targetBlockTime
  let ratio := max (min observed (saturatingAdd 128 one clamp)) (one - clamp)
  return adjustedDistanceThreshold cfg currentDistanceThreshold one ratio

/-- The duration of a block past the first one, and its record. -/
def recordDuration (block : Block) (lastTime : ℕ) : Storage Panic State PUnit :=
  if block.number > 1 then do
    modify fun s => { s with lastBlockDuration := block.now - lastTime }
    recordBlockTime cfg (block.now - lastTime)
  else pure ⟨⟩

/-- The correction of the threshold, once block times have been recorded. -/
def correctDistanceThreshold (currentDistanceThreshold : ℕ) : Storage Panic State PUnit := do
  let s ← get
  if s.historySize > 0 then
    let observedBlockTime := getBlockTimeSum cfg s
    let targetTime := saturatingMul 64 cfg.targetBlockTime s.historySize
    let newDistanceThreshold ← ofResult
      (calculateDistanceThreshold cfg currentDistanceThreshold observedBlockTime targetTime)
    modify fun s =>
      { s with
        currentDistanceThreshold := newDistanceThreshold
        events := s.events ++
          [.distanceThresholdAdjusted currentDistanceThreshold newDistanceThreshold
            observedBlockTime] }
    let _ ← ofResult (percentageChange currentDistanceThreshold newDistanceThreshold)
  else pure ⟨⟩

/-- The end of a period, and the first block of one. -/
def closePeriod (block : Block) (blocks currentDistanceThreshold : ℕ) :
    Storage Panic State PUnit :=
  if blocks ≥ cfg.adjustmentPeriod then do
    correctDistanceThreshold cfg currentDistanceThreshold
    modify fun s => { s with blocksInPeriod := 0, lastBlockTime := block.now }
  else if blocks = 0 then
    modify fun s => { s with lastBlockTime := block.now }
  else pure ⟨⟩

def adjustDistanceThreshold (block : Block) : Storage Panic State PUnit := do
  let s ← get
  let blocks := s.blocksInPeriod
  let currentDistanceThreshold := s.currentDistanceThreshold
  modify fun s =>
    { s with blockDistanceThresholds :=
        s.blockDistanceThresholds.insert block.number currentDistanceThreshold }
  let currentWork ← ofResult (getDifficulty cfg s)
  let newTotalWork := saturatingAdd 512 s.totalWork currentWork
  modify fun s => { s with totalWork := newTotalWork }
  let _ ← ofResult (sub newTotalWork s.totalWork)
  modify fun s => { s with blocksInPeriod := saturatingAdd 32 blocks 1 }
  recordDuration cfg block s.lastBlockTime
  modify fun s => { s with lastBlockTime := block.now }
  closePeriod cfg block blocks currentDistanceThreshold

def onFinalize (block : Block) : Storage Panic State PUnit :=
  adjustDistanceThreshold cfg block

end

variable (hashing : Hashing) (cfg : Config)

def verifyForImport (header : Vector UInt8 32) (nonce : Vector UInt8 64) :
    Storage Panic State Bool := do
  let s ← get
  let valid := isValidNonce hashing header nonce (getDistanceThreshold cfg s)
  (if valid then set { s with latestNonce := some nonce } else pure ⟨⟩)
  return valid

theorem exec_verifyForImport (s : State) (header : Vector UInt8 32) (nonce : Vector UInt8 64) :
    (exec (verifyForImport hashing cfg header nonce) s).1 =
      .ok (isValidNonce hashing header nonce (getDistanceThreshold cfg s)) := by
  simp only [verifyForImport]
  rw [exec_get_bind]
  cases h : isValidNonce hashing header nonce (getDistanceThreshold cfg s) with
  | true => simp
  | false => simp

def submitNonce (header : Vector UInt8 32) (nonce : Vector UInt8 64) :
    Storage Panic State Bool := do
  let s ← get
  let valid := isValidNonce hashing header nonce (getDistanceThreshold cfg s)
  (if valid then
    set { s with latestNonce := some nonce, events := s.events ++ [Event.proofSubmitted nonce] }
  else pure ⟨⟩)
  return valid

def verifyHistoricalBlock (s : State) (header : Vector UInt8 32) (nonce : Vector UInt8 64)
    (blockNumber : ℕ) : Bool :=
  let blockDistanceThreshold := getDistanceThresholdAtBlock s blockNumber
  if blockDistanceThreshold = 0 then false
  else isValidNonce hashing header nonce blockDistanceThreshold

end Resonance.QPow
