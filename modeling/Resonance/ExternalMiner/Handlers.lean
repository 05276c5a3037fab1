import Resonance.Foundation.Positional
import Resonance.QPow.Math

/-!
The external miner's jobs and its HTTP handlers.

A handler gets the decoded body or path of a request and the jobs, and answers
with a status code, a body and the jobs it leaves behind; the requests take turns
on the mutex around the jobs. An `unwrap` or `expect` that fails is an error of
its own, apart from every answer. The texts numbers and bytes are written in come
from two libraries, which are parameters with the laws their documentation
gives. Times are left out.
-/
namespace Resonance.ExternalMiner
open MachineInt

/-- `hex` and the text forms of `U512`. -/
structure Codecs where
  /-- `hex::encode` -/
  hexEncode : List UInt8 → String
  /-- `hex::decode`, or the text of its error. -/
  hexDecode : String → Except String (List UInt8)
  /-- `to_string` -/
  toDec : ℕ → String
  fromDecStr : String → Option ℕ
  /-- The form `{:x}`. -/
  lowerHex : ℕ → String
  /-- The form `{:0128x}`. -/
  lowerHexPadded : ℕ → String
  /-- `from_str_radix(_, 16)` -/
  fromStrRadix16 : String → Option ℕ
  hexDecode_hexEncode : ∀ bytes, hexDecode (hexEncode bytes) = .ok bytes
  hexEncode_len : ∀ bytes, (hexEncode bytes).utf8ByteSize = 2 * bytes.length
  fromDecStr_toDec : ∀ n ≤ maxValue 512, fromDecStr (toDec n) = some n
  fromStrRadix16_lowerHexPadded : ∀ n ≤ maxValue 512, fromStrRadix16 (lowerHexPadded n) = some n
  lowerHexPadded_len : ∀ n ≤ maxValue 512, (lowerHexPadded n).utf8ByteSize = 128
  fromDecStr_le : ∀ text n, fromDecStr text = some n → n ≤ maxValue 512
  fromStrRadix16_le : ∀ text n, fromStrRadix16 text = some n → n ≤ maxValue 512

section
open Numerals Positional

/-- A number of a text, if a `U512` holds it. -/
def readU512 (b : ℕ) (text : String) : Option ℕ :=
  (read b text).filter fun n => decide (n ≤ maxValue 512)

theorem readU512_eq_some_iff {b n : ℕ} {text : String} :
    readU512 b text = some n ↔ read b text = some n ∧ n ≤ maxValue 512 := by
  rw [readU512, Option.filter_eq_some_iff, decide_eq_true_iff]

/-- The two libraries on the texts they write themselves. -/
def Codecs.numerals : Codecs where
  hexEncode bytes := write 16 (2 * bytes.length) (fromBigEndian bytes)
  hexDecode text :=
    match read 16 text with
    | some n => .ok (toBigEndian (text.toList.length / 2) n).toList
    | none => .error "Invalid character"
  toDec := writeShort 10
  fromDecStr := readU512 10
  lowerHex := writeShort 16
  lowerHexPadded := write 16 128
  fromStrRadix16 := readU512 16
  hexDecode_hexEncode bytes := by
    have fits : fromBigEndian bytes < 16 ^ (2 * bytes.length) := by
      rw [Nat.pow_mul]
      exact fromBigEndian_lt bytes
    rw [read_write (by decide) le_rfl, Nat.mod_eq_of_lt fits, length_write,
      Nat.mul_div_cancel_left _ Nat.two_pos]
    exact congrArg Except.ok (toList_toBigEndian_fromBigEndian bytes)
  hexEncode_len bytes := utf8ByteSize_write (by decide) le_rfl _ _
  fromDecStr_toDec n h :=
    readU512_eq_some_iff.2 ⟨read_writeShort (by decide) (by decide) n, h⟩
  fromStrRadix16_lowerHexPadded n h := by
    refine readU512_eq_some_iff.2 ⟨?_, h⟩
    have fits : n < 16 ^ 128 := lt_pow_of_le_maxValue (k := 4) h
    rw [read_write (by decide) le_rfl, Nat.mod_eq_of_lt fits]
  lowerHexPadded_len n _ := utf8ByteSize_write (by decide) le_rfl _ _
  fromDecStr_le _ _ h := (readU512_eq_some_iff.1 h).2
  fromStrRadix16_le _ _ h := (readU512_eq_some_iff.1 h).2

end

inductive ApiResponseStatus
  | accepted
  | running
  | completed
  | failed
  | cancelled
  | notFound
  | error
deriving DecidableEq

structure MiningRequest where
  jobId : String
  miningHash : String
  distanceThreshold : String
  nonceStart : String
  nonceEnd : String
deriving DecidableEq

structure MiningResponse where
  status : ApiResponseStatus
  jobId : String
  message : Option String
deriving DecidableEq

structure MiningResult where
  status : ApiResponseStatus
  jobId : String
  nonce : Option String
  work : Option String
  hashCount : ℕ
deriving DecidableEq

inductive StatusCode
  | ok
  | badRequest
  | notFound
  | conflict
deriving DecidableEq

inductive JobStatus
  | running
  | completed
  | failed
deriving DecidableEq

structure MiningJob where
  headerHash : Vector UInt8 32
  distanceThreshold : ℕ
  nonceStart : ℕ
  nonceEnd : ℕ
  currentNonce : ℕ
  status : JobStatus
  hashCount : ℕ
deriving DecidableEq

/-- `MiningJob::new` -/
def MiningJob.new (headerHash : Vector UInt8 32) (distanceThreshold nonceStart nonceEnd : ℕ) :
    MiningJob where
  headerHash := headerHash
  distanceThreshold := distanceThreshold
  nonceStart := nonceStart
  nonceEnd := nonceEnd
  currentNonce := nonceStart
  status := .running
  hashCount := 0

/-- The map behind the mutex of `MiningState`. -/
abbrev Jobs := String → Option MiningJob

def addJob (jobs : Jobs) (jobId : String) (job : MiningJob) : Except String Jobs :=
  if (jobs jobId).isSome then .error "Job already exists"
  else .ok (Function.update jobs jobId (some job))

def getJob (jobs : Jobs) (jobId : String) : Option MiningJob := jobs jobId

def removeJob (jobs : Jobs) (jobId : String) : Option MiningJob × Jobs :=
  (jobs jobId, Function.update jobs jobId none)

/-- An `unwrap` or `expect` of a value that is not there. -/
inductive UnwrapFailed
  | unwrapFailed
deriving DecidableEq

def unwrap {α : Type} : Option α → Except UnwrapFailed α
  | some a => .ok a
  | none => .error .unwrapFailed

variable (c : Codecs)

/-- `Err` is a value of the outer result: the request is refused. -/
def validateMiningRequest (request : MiningRequest) : Except UnwrapFailed (Except String PUnit) :=
  if request.jobId = "" then return .error "Job ID cannot be empty"
  else if request.miningHash.utf8ByteSize ≠ 64 ∨
      (c.hexDecode request.miningHash).toOption = none then
    return .error "Invalid mining_hash (must be 64 hex characters)"
  else if c.fromDecStr request.distanceThreshold = none then
    return .error "Invalid distance_threshold (must be a valid U512)"
  else if request.nonceStart.utf8ByteSize ≠ 128 ∨ c.fromStrRadix16 request.nonceStart = none then
    return .error "Invalid nonce_start (must be 128 hex characters)"
  else if request.nonceEnd.utf8ByteSize ≠ 128 ∨ c.fromStrRadix16 request.nonceEnd = none then
    return .error "Invalid nonce_end (must be 128 hex characters)"
  else do
    let nonceStart ← unwrap (c.fromStrRadix16 request.nonceStart)
    let nonceEnd ← unwrap (c.fromStrRadix16 request.nonceEnd)
    if nonceStart > nonceEnd then return .error "nonce_start cannot be greater than nonce_end"
    else return .ok ⟨⟩

/-- `try_into` from a vector of bytes. -/
def tryInto32 (bytes : List UInt8) : Option (Vector UInt8 32) :=
  if h : bytes.toArray.size = 32 then some ⟨bytes.toArray, h⟩ else none

/-- The job made of a validated request. -/
def requestedJob (request : MiningRequest) : Except UnwrapFailed MiningJob := do
  let bytes ← unwrap (c.hexDecode request.miningHash).toOption
  let headerHash ← unwrap (tryInto32 bytes)
  let distanceThreshold ← unwrap (c.fromDecStr request.distanceThreshold)
  let nonceStart ← unwrap (c.fromStrRadix16 request.nonceStart)
  let nonceEnd ← unwrap (c.fromStrRadix16 request.nonceEnd)
  return .new headerHash distanceThreshold nonceStart nonceEnd

def handleMineRequest (request : MiningRequest) (jobs : Jobs) :
    Except UnwrapFailed ((StatusCode × MiningResponse) × Jobs) := do
  match ← validateMiningRequest c request with
  | .error e => return ((.badRequest, ⟨.error, request.jobId, some e⟩), jobs)
  | .ok _ =>
      let job ← requestedJob c request
      match addJob jobs request.jobId job with
      | .ok jobs => return ((.ok, ⟨.accepted, request.jobId, none⟩), jobs)
      | .error e => return ((.conflict, ⟨.error, request.jobId, some e⟩), jobs)

def JobStatus.toApi : JobStatus → ApiResponseStatus
  | .running => .running
  | .completed => .completed
  | .failed => .failed

def handleResultRequest (jobId : String) (jobs : Jobs) : StatusCode × MiningResult :=
  match getJob jobs jobId with
  | some job =>
      let workHex :=
        if job.status = .completed then
          some (c.hexEncode (Positional.toBigEndian 64 job.currentNonce).toList)
        else none
      (.ok, ⟨job.status.toApi, jobId, some (c.lowerHex job.currentNonce), workHex, job.hashCount⟩)
  | none => (.notFound, ⟨.notFound, jobId, none, none, 0⟩)

def handleCancelRequest (jobId : String) (jobs : Jobs) : (StatusCode × MiningResponse) × Jobs :=
  match removeJob jobs jobId with
  | (some _, jobs) => ((.ok, ⟨.cancelled, jobId, none⟩), jobs)
  | (none, jobs) => ((.notFound, ⟨.notFound, jobId, none⟩), jobs)

section
variable {c} {request : MiningRequest} {jobs jobs' : Jobs} {job : MiningJob}

theorem unwrap_eq_ok_iff {α : Type} {o : Option α} {a : α} : unwrap o = .ok a ↔ o = some a := by
  cases o <;> simp [unwrap]

/-- What a request that passes has been checked for. -/
theorem validateMiningRequest_ok {u : PUnit}
    (passed : validateMiningRequest c request = .ok (.ok u)) :
    ∃ nonceStart nonceEnd, c.fromStrRadix16 request.nonceStart = some nonceStart ∧
      c.fromStrRadix16 request.nonceEnd = some nonceEnd ∧ nonceStart ≤ nonceEnd := by
  simp only [validateMiningRequest] at passed
  split at passed
  · cases passed
  split at passed
  · cases passed
  split at passed
  · cases passed
  split at passed
  · cases passed
  split at passed
  · cases passed
  simp only [bind_eq_ok_iff, unwrap_eq_ok_iff] at passed
  obtain ⟨nonceStart, start, nonceEnd, stop, passed⟩ := passed
  split at passed
  · cases passed
  · exact ⟨nonceStart, nonceEnd, start, stop, by omega⟩

theorem requestedJob_ok (made : requestedJob c request = .ok job) :
    ∃ headerHash distanceThreshold nonceStart nonceEnd,
      c.fromStrRadix16 request.nonceStart = some nonceStart ∧
      c.fromStrRadix16 request.nonceEnd = some nonceEnd ∧
      job = .new headerHash distanceThreshold nonceStart nonceEnd := by
  simp only [requestedJob, bind_eq_ok_iff, unwrap_eq_ok_iff] at made
  obtain ⟨-, -, headerHash, -, distanceThreshold, -, nonceStart, start, nonceEnd, stop, made⟩ :=
    made
  cases made
  exact ⟨headerHash, distanceThreshold, nonceStart, nonceEnd, start, stop, rfl⟩

theorem addJob_eq_ok_iff {jobId : String} :
    addJob jobs jobId job = .ok jobs' ↔
      jobs jobId = none ∧ Function.update jobs jobId (some job) = jobs' := by
  simp only [addJob]
  cases jobs jobId <;> simp

/-- A mine request changes nothing, or adds a new job under a free id. -/
theorem handleMineRequest_cases {reply : StatusCode × MiningResponse}
    (handled : handleMineRequest c request jobs = .ok (reply, jobs')) :
    jobs' = jobs ∨ jobs request.jobId = none ∧
      ∃ headerHash distanceThreshold nonceStart nonceEnd, nonceStart ≤ nonceEnd ∧
        nonceEnd ≤ maxValue 512 ∧
        requestedJob c request = .ok (.new headerHash distanceThreshold nonceStart nonceEnd) ∧
        jobs' = Function.update jobs request.jobId
          (some (.new headerHash distanceThreshold nonceStart nonceEnd)) := by
  simp only [handleMineRequest, bind_eq_ok_iff] at handled
  obtain ⟨verdict, validated, handled⟩ := handled
  cases verdict with
  | error e =>
      cases handled
      exact .inl rfl
  | ok u =>
      simp only [bind_eq_ok_iff] at handled
      obtain ⟨job, made, handled⟩ := handled
      obtain ⟨nonceStart, nonceEnd, start, stop, range⟩ := validateMiningRequest_ok validated
      obtain ⟨headerHash, threshold, nonceStart', nonceEnd', start', stop', rfl⟩ :=
        requestedJob_ok made
      rw [start] at start'
      cases start'
      rw [stop] at stop'
      cases stop'
      cases added : addJob jobs request.jobId (.new headerHash threshold nonceStart nonceEnd) with
      | error e =>
          rw [added] at handled
          cases handled
          exact .inl rfl
      | ok jobs'' =>
          rw [added] at handled
          cases handled
          obtain ⟨free, rfl⟩ := addJob_eq_ok_iff.1 added
          exact .inr ⟨free, headerHash, threshold, nonceStart, nonceEnd, range,
            c.fromStrRadix16_le _ _ stop, made, rfl⟩

end

end Resonance.ExternalMiner
