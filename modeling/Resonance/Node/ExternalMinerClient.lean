import Resonance.ExternalMiner.Handlers

/-!
The node's side of the external miner protocol.

The request body it posts and what it makes of the answers. The transport is left
out: a body arrives as it was sent, and failures to send or to parse one are not
modelled. Encoder and decoder agree: the miner reads the numbers the node wrote,
and the node reads the nonce the miner wrote.
-/
namespace Resonance.ExternalMiner
open MachineInt

variable (c : Codecs)

/-- The body `submit_mining_job` posts. -/
def submitMiningJob (jobId : String) (miningHash : Vector UInt8 32)
    (distanceThreshold nonceStart nonceEnd : ℕ) : MiningRequest where
  jobId := jobId
  miningHash := c.hexEncode miningHash.toList
  distanceThreshold := c.toDec distanceThreshold
  nonceStart := c.lowerHexPadded nonceStart
  nonceEnd := c.lowerHexPadded nonceEnd

/-- The form `{:?}`. -/
def ApiResponseStatus.debug : ApiResponseStatus → String
  | .accepted => "Accepted"
  | .running => "Running"
  | .completed => "Completed"
  | .failed => "Failed"
  | .cancelled => "Cancelled"
  | .notFound => "NotFound"
  | .error => "Error"

/-- What `submit_mining_job` makes of the miner's answer. -/
def submitMiningJobResult (result : MiningResponse) : Except String PUnit :=
  if result.status ≠ .accepted then
    .error ("Mining job was not accepted: " ++ result.status.debug)
  else .ok ⟨⟩

/-- `copy_from_slice` into the nonce of a seal. -/
def copyFromSlice64 (bytes : List UInt8) : Option (Vector UInt8 64) :=
  if h : bytes.toArray.size = 64 then some ⟨bytes.toArray, h⟩ else none

/-- What `check_mining_result` makes of the miner's answer: the nonce of a seal,
nothing yet, or an error. -/
def checkMiningResult (result : MiningResult) : Except String (Option (Vector UInt8 64)) :=
  match result.status with
  | .completed =>
      match result.work with
      | some workHex =>
          match c.hexDecode workHex with
          | .error e => .error ("Failed to decode work hex '" ++ workHex ++ "': " ++ e)
          | .ok nonceBytes =>
              match copyFromSlice64 nonceBytes with
              | some nonce => .ok (some nonce)
              | none =>
                  .error ("Invalid decoded work length: " ++ toString nonceBytes.length ++
                    " bytes (expected 64)")
      | none => .error "Missing 'work' field in completed mining result"
  | .running => .ok none
  | .notFound => .error "Mining job not found"
  | .failed => .error "Mining job failed (miner reported)"
  | .cancelled => .error "Mining job was cancelled (miner reported)"
  | .error => .error "Miner reported an unspecified error"
  | .accepted => .error "Unexpected 'Accepted' status received from result endpoint"

variable {c} {jobId : String} {miningHash : Vector UInt8 32}
  {distanceThreshold nonceStart nonceEnd : ℕ} {jobs : Jobs} {job : MiningJob}

theorem validateMiningRequest_submitMiningJob (named : jobId ≠ "")
    (threshold : distanceThreshold ≤ maxValue 512) (range : nonceStart ≤ nonceEnd)
    (bound : nonceEnd ≤ maxValue 512) :
    validateMiningRequest c
      (submitMiningJob c jobId miningHash distanceThreshold nonceStart nonceEnd) =
        .ok (.ok ⟨⟩) := by
  have start := range.trans bound
  simp [validateMiningRequest, submitMiningJob, named, c.hexEncode_len, c.hexDecode_hexEncode,
    c.fromDecStr_toDec _ threshold, c.lowerHexPadded_len _ start, c.lowerHexPadded_len _ bound,
    c.fromStrRadix16_lowerHexPadded _ start, c.fromStrRadix16_lowerHexPadded _ bound, unwrap,
    Except.toOption, range, pure, Except.pure, bind, Except.bind]

theorem tryInto32_toList (v : Vector UInt8 32) : tryInto32 v.toList = some v := by
  have size : v.toList.toArray.size = 32 := by simp
  rw [tryInto32, dif_pos size, Option.some.injEq]
  apply Vector.toList_inj.1
  simp

theorem copyFromSlice64_toList (v : Vector UInt8 64) : copyFromSlice64 v.toList = some v := by
  have size : v.toList.toArray.size = 64 := by simp
  rw [copyFromSlice64, dif_pos size, Option.some.injEq]
  apply Vector.toList_inj.1
  simp

theorem requestedJob_submitMiningJob (threshold : distanceThreshold ≤ maxValue 512)
    (range : nonceStart ≤ nonceEnd) (bound : nonceEnd ≤ maxValue 512) :
    requestedJob c (submitMiningJob c jobId miningHash distanceThreshold nonceStart nonceEnd) =
      .ok (.new miningHash distanceThreshold nonceStart nonceEnd) := by
  have start := range.trans bound
  simp [requestedJob, submitMiningJob, c.hexDecode_hexEncode, tryInto32_toList,
    c.fromDecStr_toDec _ threshold, c.fromStrRadix16_lowerHexPadded _ start,
    c.fromStrRadix16_lowerHexPadded _ bound, unwrap, Except.toOption, pure, Except.pure, bind,
    Except.bind]

/-- The miner makes of the node's request the job the node means. -/
theorem handleMineRequest_submitMiningJob (named : jobId ≠ "")
    (threshold : distanceThreshold ≤ maxValue 512) (range : nonceStart ≤ nonceEnd)
    (bound : nonceEnd ≤ maxValue 512) :
    handleMineRequest c
        (submitMiningJob c jobId miningHash distanceThreshold nonceStart nonceEnd) jobs =
      .ok (if (jobs jobId).isSome then
          ((.conflict, ⟨.error, jobId, some "Job already exists"⟩), jobs)
        else ((.ok, ⟨.accepted, jobId, none⟩), Function.update jobs jobId
          (some (.new miningHash distanceThreshold nonceStart nonceEnd)))) := by
  have id : (submitMiningJob c jobId miningHash distanceThreshold nonceStart nonceEnd).jobId =
      jobId := rfl
  simp only [handleMineRequest, validateMiningRequest_submitMiningJob named threshold range bound,
    requestedJob_submitMiningJob threshold range bound, bind, Except.bind, id]
  by_cases used : (jobs jobId).isSome
  · simp only [addJob, used, ↓reduceIte]
    rfl
  · simp only [addJob, used, Bool.false_eq_true, ↓reduceIte]
    rfl

/-- The node takes its job as submitted exactly when the miner has stored it. -/
theorem submitMiningJobResult_handleMineRequest {reply : StatusCode × MiningResponse} {jobs' : Jobs}
    (named : jobId ≠ "") (threshold : distanceThreshold ≤ maxValue 512)
    (range : nonceStart ≤ nonceEnd) (bound : nonceEnd ≤ maxValue 512)
    (handled : handleMineRequest c
      (submitMiningJob c jobId miningHash distanceThreshold nonceStart nonceEnd) jobs =
        .ok (reply, jobs')) :
    submitMiningJobResult reply.2 = .ok ⟨⟩ ↔ jobs jobId = none := by
  rw [handleMineRequest_submitMiningJob named threshold range bound] at handled
  cases stored : jobs jobId with
  | none =>
      rw [stored] at handled
      cases handled
      simp [submitMiningJobResult]
  | some job =>
      rw [stored] at handled
      cases handled
      simp [submitMiningJobResult]

theorem checkMiningResult_handleResultRequest (stored : jobs jobId = some job)
    (completed : job.status = .completed) :
    checkMiningResult c (handleResultRequest c jobId jobs).2 =
      .ok (some (Positional.toBigEndian 64 job.currentNonce)) := by
  simp only [handleResultRequest, getJob, stored, completed, JobStatus.toApi, checkMiningResult,
    ↓reduceIte, c.hexDecode_hexEncode, copyFromSlice64_toList]

end Resonance.ExternalMiner
