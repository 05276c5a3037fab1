import Resonance.ExternalMiner.Interleavings

/-!
The node and the external miner together.

A job the miner makes of the node's request stays under its id, with the same
task, until it is cancelled, and while it is there a completed search answers with
a nonce of its range that passes for it. This does not need the bound on the number of
nonces tried: it is kept by every outcome of a visit, also a panic and a hash count
that wraps.
-/
namespace Resonance.ExternalMiner
open Storage MachineInt StateMachine

/-- What a completed job answers for. -/
structure Answers (hashing : QPow.Hashing) (job : MiningJob) : Prop where
  start : job.nonceStart ≤ job.currentNonce
  completed : job.status = .completed →
    job.currentNonce ≤ job.nonceEnd ∧ job.accepts hashing job.currentNonce = true

section
variable {c : Codecs} {hashing : QPow.Hashing} {overflowChecks : Bool} {job : MiningJob}
  {m m' : Miner} {order : List String} {jobId : String} {event : Event}

theorem keeps_checkNonce : Keeps MiningJob.task (checkNonce hashing overflowChecks) := by
  refine Keeps.get.bind fun job => Keeps.ite ?_ ?_
  · refine Keeps.bind (Keeps.modify ?_) fun _ => Keeps.pure _
    exact fun _ => rfl
  · refine Keeps.bind (Keeps.ofResult _) fun count => Keeps.bind (Keeps.modify ?_) fun _ =>
      Keeps.bind (Keeps.ite (Keeps.modify ?_) (Keeps.ite (Keeps.modify ?_) (Keeps.pure _))) fun _ =>
        Keeps.pure _
    all_goals exact fun _ => rfl

/-- A visit leaves the task of a job alone, whatever comes of it. -/
theorem keeps_mineJob : Keeps MiningJob.task (mineJob hashing overflowChecks) := by
  refine Keeps.get.bind fun job => Keeps.ite ?_ (Keeps.pure _)
  refine Keeps.bind (Keeps.ite ?_ (Keeps.pure _)) fun _ => keeps_checkNonce
  refine Keeps.bind (Keeps.ofResult _) fun nonce => Keeps.modify ?_
  exact fun _ => rfl

theorem Answers.checkNonce (start : job.nonceStart ≤ job.currentNonce)
    (running : job.status = .running) :
    Answers hashing (exec (checkNonce hashing overflowChecks) job).2 := by
  have unfinished {job : MiningJob} (start : job.nonceStart ≤ job.currentNonce)
      (status : job.status ≠ .completed) : Answers hashing job :=
    ⟨start, fun done => absurd done status⟩
  simp only [ExternalMiner.checkNonce]
  rw [exec_get_bind]
  split
  · exact unfinished start (by simp)
  · rename_i inside
    cases counted : incrementCount overflowChecks job.hashCount with
    | error e => exact unfinished start (by simp [ofResult, running])
    | ok count =>
        by_cases valid : job.accepts hashing job.currentNonce
        · simp only [ofResult, pure_bind, exec_modify_bind, if_pos valid]
          exact ⟨start, fun _ => ⟨Nat.le_of_not_lt inside, valid⟩⟩
        · by_cases stop : job.currentNonce = job.nonceEnd
          · simp only [ofResult, pure_bind, exec_modify_bind, if_neg valid, if_pos stop]
            exact unfinished start (by simp)
          · simp only [ofResult, pure_bind, exec_modify_bind, if_neg valid, if_neg stop]
            exact unfinished start (by simp [running])

theorem Answers.mineJob (answers : Answers hashing job) :
    Answers hashing (exec (mineJob hashing overflowChecks) job).2 := by
  have start := answers.start
  simp only [ExternalMiner.mineJob]
  rw [exec_get_bind]
  split
  · rename_i running
    split
    · cases added : add 512 job.currentNonce 1 with
      | error e => exact answers
      | ok nonce =>
          obtain ⟨-, rfl⟩ := add_eq_ok_iff.1 added
          exact .checkNonce (Nat.le_add_right_of_le start) running
    · exact .checkNonce start running
  · exact answers

theorem mineJobs_kept (stored : m.jobs jobId = some job) :
    ∃ job', (mineJobs hashing overflowChecks order m).jobs jobId = some job' ∧
      job'.task = job.task := by
  induction order generalizing m job with
  | nil => exact ⟨job, stored, rfl⟩
  | cons a order ih =>
      have put {job₁ : MiningJob} (tried : List ℕ) (visited : m.jobs a = some job₁) :
          ∃ job', (m.put a (exec (mineJob hashing overflowChecks) job₁).2 tried).jobs jobId =
            some job' ∧ job'.task = job.task := by
        by_cases same : jobId = a
        · subst same
          cases visited.symm.trans stored
          exact ⟨_, Miner.put_jobs_self.1, keeps_mineJob job⟩
        · exact ⟨job, (Miner.put_jobs_of_ne same).1.trans stored, rfl⟩
      simp only [mineJobs]
      split
      · exact ih stored
      · rename_i job₁ visited
        split
        · rename_i tried job₁' run
          obtain ⟨job', now, task⟩ := put tried.toList visited
          rw [run] at now
          obtain ⟨job'', later, task'⟩ := ih now
          exact ⟨job'', later, task'.trans task⟩
        · rename_i job₁' run
          obtain ⟨job', now, task⟩ := put [] visited
          rw [run] at now
          exact ⟨job', now, task⟩

/-- Only a cancel request takes a job away, and nothing changes its task. -/
theorem kept_of_step (step : (miner c hashing overflowChecks).step m event m')
    (stored : m.jobs jobId = some job) (noCancel : event ≠ .cancel jobId) :
    ∃ job', m'.jobs jobId = some job' ∧ job'.task = job.task := by
  cases event with
  | mine request =>
      obtain rfl | ⟨free, -, others, -⟩ := mine_cases step
      · exact ⟨job, stored, rfl⟩
      · have ne : jobId ≠ request.jobId := by
          rintro rfl
          cases free.symm.trans stored
        exact ⟨job, (others jobId ne).1.trans stored, rfl⟩
  | result asked =>
      obtain rfl : m' = m := step
      exact ⟨job, stored, rfl⟩
  | cancel asked =>
      obtain rfl := step_cancel step
      have ne : jobId ≠ asked := by
        rintro rfl
        exact noCancel rfl
      exact ⟨job, (Function.update_of_ne ne _ _).trans stored, rfl⟩
  | round order =>
      obtain ⟨-, -, -, rfl⟩ := step
      exact mineJobs_kept stored

theorem answers_of_step (step : (miner c hashing overflowChecks).step m event m')
    (answers : ∀ jobId job, m.jobs jobId = some job → Answers hashing job) :
    ∀ jobId job, m'.jobs jobId = some job → Answers hashing job := by
  cases event with
  | mine request =>
      obtain rfl | ⟨free, -, others, own⟩ := mine_cases step
      · exact answers
      · intro jobId job stored
        by_cases same : jobId = request.jobId
        · subst same
          obtain empty | ⟨hash, threshold, first, last, -, -, -, new, -⟩ := own
          · cases empty.symm.trans stored
          · cases new.symm.trans stored
            exact ⟨le_rfl, (nomatch ·)⟩
        · exact answers jobId job ((others jobId same).1 ▸ stored)
  | result asked =>
      obtain rfl : m' = m := step
      exact answers
  | cancel asked =>
      obtain rfl := step_cancel step
      intro jobId job stored
      by_cases same : jobId = asked
      · subst same
        cases (Function.update_self jobId none m.jobs).symm.trans stored
      · exact answers jobId job ((Function.update_of_ne same _ _).symm.trans stored)
  | round order =>
      obtain ⟨-, -, -, rfl⟩ := step
      exact mineJobs_forall (fun _ => Answers.mineJob) answers

variable {τ : List (Transition Miner Event)}

theorem answers_of_run (run : Run (miner c hashing overflowChecks) τ m) :
    ∀ jobId job, m.jobs jobId = some job → Answers hashing job := by
  refine run.history (P := fun _ m => ∀ jobId job, m.jobs jobId = some job → Answers hashing job)
    ?_ fun _ _ _ _ _ answers step => answers_of_step step answers
  rintro m rfl jobId job stored
  cases stored

/-- A job stays under its id, with its task, until a request cancels it. -/
theorem kept_of_run (run : Run (miner c hashing overflowChecks) τ m) {i : ℕ}
    {t : Transition Miner Event} (taken : τ[i]? = some t) (stored : t.post.jobs jobId = some job)
    (noCancel : ∀ j u, i < j → τ[j]? = some u → u.label ≠ .cancel jobId) :
    ∃ job', m.jobs jobId = some job' ∧ job'.task = job.task := by
  refine run.history (P := fun τ m => ∀ i t, τ[i]? = some t → t.post.jobs jobId = some job →
    (∀ j u, i < j → τ[j]? = some u → u.label ≠ .cancel jobId) →
    ∃ job', m.jobs jobId = some job' ∧ job'.task = job.task) ?_ ?_ i t taken stored noCancel
  · intro m _ i t taken
    cases taken
  · intro τ m event m' _ ih step i t taken stored noCancel
    cases getElem?_snoc taken with
    | inl earlier =>
        obtain ⟨job', before, task⟩ := ih i t earlier stored fun j u later taken =>
          noCancel j u later (getElem?_snoc_of_some taken)
        have inside : i < τ.length := (List.getElem?_eq_some_iff.mp earlier).1
        have label : event ≠ .cancel jobId := noCancel τ.length _ inside List.getElem?_concat_length
        obtain ⟨job'', after, task'⟩ := kept_of_step step before label
        exact ⟨job'', after, task'.trans task⟩
    | inr last =>
        obtain ⟨-, rfl⟩ := last
        exact ⟨job, stored, rfl⟩

/-- The miner makes of the node's request the job the node means, and the node
makes of the answer to a completed job a nonce of the range that is valid for the
hash and the threshold it asked about. -/
theorem protocol_agrees (miningHash : Vector UInt8 32) {distanceThreshold nonceStart nonceEnd : ℕ}
    (named : jobId ≠ "") (threshold : distanceThreshold ≤ maxValue 512)
    (range : nonceStart ≤ nonceEnd) (bound : nonceEnd ≤ maxValue 512)
    (run : Run (miner c hashing overflowChecks) τ m) :
    validateMiningRequest c
      (submitMiningJob c jobId miningHash distanceThreshold nonceStart nonceEnd) =
        .ok (.ok ⟨⟩) ∧
    (∀ jobs, handleMineRequest c
        (submitMiningJob c jobId miningHash distanceThreshold nonceStart nonceEnd) jobs =
      .ok (if (jobs jobId).isSome then
          ((.conflict, ⟨.error, jobId, some "Job already exists"⟩), jobs)
        else ((.ok, ⟨.accepted, jobId, none⟩), Function.update jobs jobId
          (some (.new miningHash distanceThreshold nonceStart nonceEnd))))) ∧
    ∀ (i : ℕ) (t : Transition Miner Event), τ[i]? = some t →
      t.label =
        .mine (submitMiningJob c jobId miningHash distanceThreshold nonceStart nonceEnd) →
      t.pre.jobs jobId = none →
      (∀ (j : ℕ) (u : Transition Miner Event), i < j → τ[j]? = some u →
        u.label ≠ .cancel jobId) →
      ∃ job, m.jobs jobId = some job ∧
        job.task = (miningHash, distanceThreshold, nonceStart, nonceEnd) ∧
        (job.status = .completed → ∃ nonce : Vector UInt8 64,
          checkMiningResult c (handleResultRequest c jobId m.jobs).2 = .ok (some nonce) ∧
          nonceStart ≤ Positional.fromBigEndian nonce.toList ∧
          Positional.fromBigEndian nonce.toList ≤ nonceEnd ∧
          QPow.isValidNonce hashing miningHash nonce distanceThreshold = true) := by
  have handled (jobs : Jobs) := @handleMineRequest_submitMiningJob c jobId miningHash
    distanceThreshold nonceStart nonceEnd jobs named threshold range bound
  refine ⟨validateMiningRequest_submitMiningJob named threshold range bound, handled, ?_⟩
  rintro i ⟨pre, event, post⟩ taken label free noCancel
  dsimp only at label free
  subst label
  have accepted := handled pre.jobs
  rw [free] at accepted
  have step := (run.mem_step _ (List.mem_of_getElem? taken)).2
  rw [step_mine_iff accepted free] at step
  subst step
  obtain ⟨job, stored, task⟩ := kept_of_run run taken (Function.update_self ..) noCancel
  refine ⟨job, stored, task, fun completed => ⟨_,
    checkMiningResult_handleResultRequest stored completed, ?_⟩⟩
  obtain ⟨start, finished⟩ := answers_of_run run jobId job stored
  obtain ⟨inside, valid⟩ := finished completed
  cases task
  have fits : job.currentNonce < 256 ^ 64 :=
    lt_pow_of_le_maxValue (k := 8) (inside.trans bound)
  rw [Positional.fromBigEndian_toBigEndian, Nat.mod_eq_of_lt fits]
  exact ⟨start, inside, valid⟩

end

namespace Mock

theorem exec_mineJob_job :
    exec (mineJob lenient true) job = (.ok (some 1), job.advanced lenient 1) := by
  have bound : 2 ≤ maxValue 512 := le_maxValue_of_lt (k := 2) (by decide) (by decide)
  have tracks : Tracks lenient [] job := .new (by decide) bound
  exact (tracks.exec_mineJob rfl (by decide)).1

theorem visited_jobs : visited.jobs "job" = some (job.advanced lenient 1) := by
  have fine : ∀ jobId ∈ ["job"], ∀ job, requested.jobs jobId = some job →
      ∃ nonce job', exec (mineJob lenient true) job = (.ok nonce, job') := by
    intro jobId mem job' stored
    obtain rfl := List.mem_singleton.1 mem
    cases stored.symm.trans requested_jobs
    exact ⟨_, _, exec_mineJob_job⟩
  exact ((mineJobs_of_ok lenient true (by simp) fine).2 "job" (by simp) job _ _ requested_jobs
    exec_mineJob_job).1

end Mock

open Mock

theorem protocol_agrees_round : ∃ nonce : Vector UInt8 64,
    checkMiningResult .numerals (handleResultRequest .numerals "job" visited.jobs).2 =
      .ok (some nonce) ∧
    1 ≤ Positional.fromBigEndian nonce.toList ∧ Positional.fromBigEndian nonce.toList ≤ 2 ∧
    QPow.isValidNonce lenient (Vector.replicate 32 0) nonce 5 = true := by
  have five : 5 ≤ maxValue 512 := le_maxValue_of_lt (k := 3) (by decide) (by decide)
  have two : 2 ≤ maxValue 512 := le_maxValue_of_lt (k := 2) (by decide) (by decide)
  have named : "job" ≠ "" := by decide
  have range : 1 ≤ 2 := by decide
  have agrees :=
    (protocol_agrees (Vector.replicate 32 0) named five range two visited_run).2.2
  have noCancel : ∀ (j : ℕ) (u : Transition Miner Event), 0 < j →
      ([⟨idle, .mine request, requested⟩] ++ [⟨requested, .round ["job"], visited⟩])[j]? = some u →
      u.label ≠ .cancel "job" := by
    intro j u _ taken
    have mem := List.mem_of_getElem? taken
    rw [List.mem_append, List.mem_singleton, List.mem_singleton] at mem
    obtain rfl | rfl := mem
    · exact (nomatch ·)
    · exact (nomatch ·)
  obtain ⟨job', stored, -, answers⟩ :=
    agrees 0 ⟨idle, .mine request, requested⟩ rfl rfl rfl noCancel
  have completed : job'.status = .completed := by
    rw [visited_jobs] at stored
    rw [← Option.some.inj stored, MiningJob.advanced_status]
    exact MiningJob.statusAfter_eq_completed_iff.2 accepts_one
  exact answers completed

end Resonance.ExternalMiner
