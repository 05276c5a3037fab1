import Resonance.ExternalMiner.Handlers
import Resonance.Foundation.StateMachine
import Resonance.Foundation.Storage

/-!
The external miner's search: its loop over the jobs between requests.

One round visits every job once, in the order the map happens to give, and moves
a running job by at most one nonce. What it does to a job depends on that job
alone, so an invariant of one job is kept by rounds and requests in any order.
Beside each job stands the list of the nonces handed to `is_valid_nonce` for it,
which the source does not keep. A panic in a round ends the loop for good; the
jobs stay as they were left.
-/
namespace Resonance.ExternalMiner
open Storage MachineInt StateMachine

/-- `+= 1` on a `u64`: a panic or a wrap, as the build profile has it. -/
def incrementCount (overflowChecks : Bool) (count : ℕ) : Except Panic ℕ :=
  if overflowChecks then add 64 count 1 else .ok ((count + 1) % 2 ^ 64)

section
variable (hashing : QPow.Hashing) (overflowChecks : Bool)

/-- `is_valid_nonce` on a nonce of a job. -/
def MiningJob.accepts (job : MiningJob) (nonce : ℕ) : Bool :=
  QPow.isValidNonce hashing job.headerHash (Positional.toBigEndian 64 nonce) job.distanceThreshold

/-- The end of the range, or the check of the current nonce. -/
def checkNonce : Storage Panic MiningJob (Option ℕ) := do
  let job ← get
  if job.currentNonce > job.nonceEnd then do
    modify fun job => { job with status := .failed }
    return none
  else do
    let count ← ofResult (incrementCount overflowChecks job.hashCount)
    modify fun job => { job with hashCount := count }
    (if job.accepts hashing job.currentNonce then
      modify fun job => { job with status := .completed }
    else if job.currentNonce = job.nonceEnd then
      modify fun job => { job with status := .failed }
    else pure ⟨⟩)
    return some job.currentNonce

/-- One round of the loop on one job: the nonce tried, if one is. -/
def mineJob : Storage Panic MiningJob (Option ℕ) := do
  let job ← get
  if job.status = .running then do
    (if job.hashCount > 0 then do
      let nonce ← ofResult (add 512 job.currentNonce 1)
      modify fun job => { job with currentNonce := nonce }
    else pure ⟨⟩)
    checkNonce hashing overflowChecks
  else return none

structure Miner where
  jobs : Jobs
  /-- The nonces tried for the job now under an id, oldest first. -/
  tried : String → List ℕ
  /-- The loop has panicked. -/
  stopped : Bool

def Miner.put (m : Miner) (jobId : String) (job : MiningJob) (tried : List ℕ) : Miner :=
  { m with
    jobs := Function.update m.jobs jobId (some job)
    tried := Function.update m.tried jobId (m.tried jobId ++ tried) }

/-- One round, over the jobs in the order the map gives them. -/
def mineJobs : (order : List String) → Miner → Miner
  | [], m => m
  | jobId :: order, m =>
      match m.jobs jobId with
      | none => mineJobs order m
      | some job =>
          match exec (mineJob hashing overflowChecks) job with
          | (.ok tried, job) => mineJobs order (m.put jobId job tried.toList)
          | (.error _, job) => { m.put jobId job [] with stopped := true }

end

inductive Event
  | mine (request : MiningRequest)
  | result (jobId : String)
  | cancel (jobId : String)
  | round (order : List String)

/-- The miner service: requests and rounds of the loop in any order. -/
def miner (c : Codecs) (hashing : QPow.Hashing) (overflowChecks : Bool) : Machine Miner Event where
  init m := m = ⟨fun _ => none, fun _ => [], false⟩
  step m event m' :=
    match event with
    | .mine request =>
        match handleMineRequest c request m.jobs with
        | .ok (_, jobs) =>
            m' = { m with
              jobs := jobs
              tried :=
                if (m.jobs request.jobId).isSome then m.tried
                else Function.update m.tried request.jobId [] }
        | .error _ => m' = m
    | .result _ => m' = m
    | .cancel jobId => m' = { m with jobs := (handleCancelRequest jobId m.jobs).2 }
    | .round order =>
        m.stopped = false ∧ order.Nodup ∧ (∀ jobId, jobId ∈ order ↔ (m.jobs jobId).isSome) ∧
          m' = mineJobs hashing overflowChecks order m

section
variable {hashing : QPow.Hashing} {overflowChecks : Bool} {job : MiningJob} {tried : List ℕ}

/-- The status of a running job once it has tried a nonce. -/
def MiningJob.statusAfter (hashing : QPow.Hashing) (job : MiningJob) (nonce : ℕ) : JobStatus :=
  if job.accepts hashing nonce then .completed
  else if nonce = job.nonceEnd then .failed
  else .running

/-- A running job once it has tried a nonce. -/
def MiningJob.advanced (hashing : QPow.Hashing) (job : MiningJob) (nonce : ℕ) : MiningJob :=
  { job with
    currentNonce := nonce
    hashCount := job.hashCount + 1
    status := job.statusAfter hashing nonce }

section
variable (hashing) (job) (nonce : ℕ)

@[simp] theorem MiningJob.advanced_nonceStart :
    (job.advanced hashing nonce).nonceStart = job.nonceStart := rfl

@[simp] theorem MiningJob.advanced_nonceEnd :
    (job.advanced hashing nonce).nonceEnd = job.nonceEnd := rfl

@[simp] theorem MiningJob.advanced_currentNonce :
    (job.advanced hashing nonce).currentNonce = nonce := rfl

@[simp] theorem MiningJob.advanced_hashCount :
    (job.advanced hashing nonce).hashCount = job.hashCount + 1 := rfl

@[simp] theorem MiningJob.advanced_status :
    (job.advanced hashing nonce).status = job.statusAfter hashing nonce := by
  rw [MiningJob.advanced]

@[simp] theorem MiningJob.advanced_accepts :
    (job.advanced hashing nonce).accepts hashing = job.accepts hashing := rfl

end

theorem MiningJob.statusAfter_eq_running_iff {nonce : ℕ} :
    job.statusAfter hashing nonce = .running ↔
      job.accepts hashing nonce = false ∧ nonce ≠ job.nonceEnd := by
  simp only [MiningJob.statusAfter]
  split
  · simp [*]
  · split <;> simp_all

theorem MiningJob.statusAfter_eq_completed_iff {nonce : ℕ} :
    job.statusAfter hashing nonce = .completed ↔ job.accepts hashing nonce = true := by
  simp only [MiningJob.statusAfter]
  split
  · simp [*]
  · split <;> simp_all

theorem MiningJob.statusAfter_eq_failed_iff {nonce : ℕ} :
    job.statusAfter hashing nonce = .failed ↔
      job.accepts hashing nonce = false ∧ nonce = job.nonceEnd := by
  simp only [MiningJob.statusAfter]
  split
  · simp [*]
  · split <;> simp_all

/-- What the nonces tried say about a job. -/
structure Tracks (hashing : QPow.Hashing) (tried : List ℕ) (job : MiningJob) : Prop where
  range : job.nonceStart ≤ job.nonceEnd
  bound : job.nonceEnd ≤ maxValue 512
  tried_eq : tried = List.range' job.nonceStart job.hashCount
  fresh : job.hashCount = 0 → job.currentNonce = job.nonceStart ∧ job.status = .running
  last : 0 < job.hashCount → job.currentNonce + 1 = job.nonceStart + job.hashCount ∧
    job.currentNonce ≤ job.nonceEnd
  running : job.status = .running → (0 < job.hashCount → job.currentNonce < job.nonceEnd) ∧
    ∀ n ∈ tried, job.accepts hashing n = false
  completed : job.status = .completed → job.accepts hashing job.currentNonce = true ∧
    ∀ n ∈ tried, n < job.currentNonce → job.accepts hashing n = false
  failed : job.status = .failed → job.currentNonce = job.nonceEnd ∧
    ∀ n ∈ tried, job.accepts hashing n = false

theorem incrementCount_eq {count : ℕ} (room : count + 1 < 2 ^ 64) :
    incrementCount overflowChecks count = .ok (count + 1) := by
  simp only [incrementCount]
  split
  · rw [add_eq_ok_iff]
    exact ⟨le_maxValue_iff.2 room, rfl⟩
  · rw [Nat.mod_eq_of_lt room]

theorem exec_mineJob_of_ne_running (idle : job.status ≠ .running) :
    exec (mineJob hashing overflowChecks) job = (.ok none, job) := by
  simp only [mineJob]
  rw [exec_get_bind, if_neg idle]
  rfl

theorem exec_checkNonce (running : job.status = .running)
    (inside : job.currentNonce ≤ job.nonceEnd) (room : job.hashCount + 1 < 2 ^ 64) :
    exec (checkNonce hashing overflowChecks) job =
      (.ok (some job.currentNonce), job.advanced hashing job.currentNonce) := by
  have inside' : ¬ job.currentNonce > job.nonceEnd := by omega
  simp only [checkNonce]
  rw [exec_get_bind, if_neg inside', incrementCount_eq room]
  simp only [MiningJob.advanced, MiningJob.statusAfter]
  by_cases valid : job.accepts hashing job.currentNonce
  · simp [ofResult, valid]
  · by_cases stop : job.currentNonce = job.nonceEnd
    · rw [stop] at valid
      simp [ofResult, valid, stop]
    · simp [ofResult, valid, stop, running]

/-- A running job tries the nonce after those it has tried. -/
theorem Tracks.exec_mineJob (tracks : Tracks hashing tried job) (running : job.status = .running)
    (room : job.hashCount + 1 < 2 ^ 64) :
    exec (mineJob hashing overflowChecks) job =
      (.ok (some (job.nonceStart + job.hashCount)),
        job.advanced hashing (job.nonceStart + job.hashCount)) ∧
      job.nonceStart + job.hashCount ≤ job.nonceEnd := by
  have bound := tracks.bound
  simp only [mineJob]
  rw [exec_get_bind, if_pos running]
  by_cases started : job.hashCount > 0
  · obtain ⟨next, -⟩ := tracks.last started
    have below := (tracks.running running).1 started
    have added : add 512 job.currentNonce 1 = .ok (job.nonceStart + job.hashCount) :=
      add_eq_ok_iff.2 ⟨by omega, by omega⟩
    have inside : job.nonceStart + job.hashCount ≤ job.nonceEnd := by omega
    have checked : exec (checkNonce hashing overflowChecks)
        { job with currentNonce := job.nonceStart + job.hashCount } =
        (.ok (some (job.nonceStart + job.hashCount)),
          job.advanced hashing (job.nonceStart + job.hashCount)) :=
      exec_checkNonce running inside room
    refine ⟨?_, inside⟩
    rw [if_pos started, added, bind_assoc]
    exact checked
  · have zero : job.hashCount = 0 := by omega
    have nonce := (tracks.fresh zero).1
    have inside : job.currentNonce ≤ job.nonceEnd := nonce ▸ tracks.range
    rw [if_neg started, pure_bind, zero, Nat.add_zero, ← nonce]
    exact ⟨exec_checkNonce running inside room, inside⟩

theorem Tracks.new {headerHash : Vector UInt8 32} {distanceThreshold nonceStart nonceEnd : ℕ}
    (range : nonceStart ≤ nonceEnd) (bound : nonceEnd ≤ maxValue 512) :
    Tracks hashing [] (.new headerHash distanceThreshold nonceStart nonceEnd) where
  range := range
  bound := bound
  tried_eq := rfl
  fresh _ := ⟨rfl, rfl⟩
  last h := absurd h (lt_irrefl 0)
  running _ := ⟨fun h => absurd h (lt_irrefl 0), fun _ hn => nomatch hn⟩
  completed h := nomatch h
  failed h := nomatch h

/-- Trying one more nonce keeps a running job tracked. -/
theorem Tracks.advanced (tracks : Tracks hashing tried job) (running : job.status = .running)
    (inside : job.nonceStart + job.hashCount ≤ job.nonceEnd) :
    Tracks hashing (tried ++ [job.nonceStart + job.hashCount])
      (job.advanced hashing (job.nonceStart + job.hashCount)) := by
  obtain ⟨-, refused⟩ := tracks.running running
  have all_refused (invalid : job.accepts hashing (job.nonceStart + job.hashCount) = false) :
      ∀ n ∈ tried ++ [job.nonceStart + job.hashCount], job.accepts hashing n = false := by
    intro n hn
    rw [List.mem_append, List.mem_singleton] at hn
    cases hn with
    | inl earlier => exact refused n earlier
    | inr last =>
        rw [last]
        exact invalid
  constructor <;> simp only [MiningJob.advanced_nonceStart, MiningJob.advanced_nonceEnd,
    MiningJob.advanced_currentNonce, MiningJob.advanced_hashCount, MiningJob.advanced_status,
    MiningJob.advanced_accepts]
  case range => exact tracks.range
  case bound => exact tracks.bound
  case tried_eq => rw [List.range'_concat, ← tracks.tried_eq, Nat.one_mul]
  case fresh => exact fun h => absurd h (Nat.succ_ne_zero _)
  case last => exact fun _ => ⟨Nat.add_assoc _ _ _, inside⟩
  case running =>
    intro still
    obtain ⟨invalid, notEnd⟩ := MiningJob.statusAfter_eq_running_iff.1 still
    exact ⟨fun _ => lt_of_le_of_ne inside notEnd, all_refused invalid⟩
  case completed =>
    intro done
    refine ⟨MiningJob.statusAfter_eq_completed_iff.1 done, ?_⟩
    intro n hn below
    rw [List.mem_append, List.mem_singleton] at hn
    cases hn with
    | inl earlier => exact refused n earlier
    | inr last => exact absurd last (Nat.ne_of_lt below)
  case failed =>
    intro exhausted
    obtain ⟨invalid, stop⟩ := MiningJob.statusAfter_eq_failed_iff.1 exhausted
    exact ⟨stop, all_refused invalid⟩

end

end Resonance.ExternalMiner
