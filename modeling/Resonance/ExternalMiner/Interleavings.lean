import Resonance.ExternalMiner.Search
import Resonance.Node.ExternalMinerClient

/-!
Requests and rounds of the external miner in any order.

A round is one visit to each stored job, so what holds of a job after a visit
holds after a round, whatever the order of the map. Requests reach the job under
their own id and no other. From the two, every job of a run has tried the
nonces of its range from the first on without a gap, and its status is the one
those nonces call for. The counting of hashes is a `u64`, so the runs are those in
which no job tries its `2 ^ 64`th nonce.
-/
namespace Resonance.ExternalMiner
open Storage MachineInt StateMachine

/-- What a job is to search, which no step changes. -/
def MiningJob.task (job : MiningJob) : Vector UInt8 32 × ℕ × ℕ × ℕ :=
  (job.headerHash, job.distanceThreshold, job.nonceStart, job.nonceEnd)

section
variable {hashing : QPow.Hashing} {overflowChecks : Bool} {order : List String} {m : Miner}
  {jobId : String}

theorem Miner.put_jobs_of_ne {a : String} {job : MiningJob} {tried : List ℕ} (ne : jobId ≠ a) :
    (m.put a job tried).jobs jobId = m.jobs jobId ∧
      (m.put a job tried).tried jobId = m.tried jobId :=
  ⟨Function.update_of_ne ne _ _, Function.update_of_ne ne _ _⟩

theorem Miner.put_jobs_self {job : MiningJob} {tried : List ℕ} :
    (m.put jobId job tried).jobs jobId = some job ∧
      (m.put jobId job tried).tried jobId = m.tried jobId ++ tried :=
  ⟨Function.update_self .., Function.update_self ..⟩

variable (hashing overflowChecks) in
theorem mineJobs_of_notMem (absent : jobId ∉ order) :
    (mineJobs hashing overflowChecks order m).jobs jobId = m.jobs jobId ∧
      (mineJobs hashing overflowChecks order m).tried jobId = m.tried jobId := by
  induction order generalizing m with
  | nil => exact ⟨rfl, rfl⟩
  | cons a order ih =>
      rw [List.mem_cons, not_or] at absent
      obtain ⟨ne, absent⟩ := absent
      simp only [mineJobs]
      split
      · exact ih absent
      · split
        · obtain ⟨jobs, tried⟩ := ih (m := m.put a _ _) absent
          exact ⟨jobs.trans (Miner.put_jobs_of_ne ne).1, tried.trans (Miner.put_jobs_of_ne ne).2⟩
        · exact Miner.put_jobs_of_ne ne

/-- What a visit keeps of a job, a round keeps of every job, also one that ends
in a panic. -/
theorem mineJobs_forall {P : MiningJob → Prop}
    (visit : ∀ job, P job → P (exec (mineJob hashing overflowChecks) job).2)
    (holds : ∀ jobId job, m.jobs jobId = some job → P job) :
    ∀ jobId job, (mineJobs hashing overflowChecks order m).jobs jobId = some job → P job := by
  have put {m : Miner} {a : String} {job : MiningJob} {tried : List ℕ} (now : P job)
      (holds : ∀ jobId job, m.jobs jobId = some job → P job) :
      ∀ jobId job', (m.put a job tried).jobs jobId = some job' → P job' := by
    intro jobId job' stored
    by_cases same : jobId = a
    · rw [same, Miner.put_jobs_self.1] at stored
      cases stored
      exact now
    · rw [(Miner.put_jobs_of_ne same).1] at stored
      exact holds jobId job' stored
  induction order generalizing m with
  | nil => exact holds
  | cons a order ih =>
      simp only [mineJobs]
      split
      · exact ih holds
      · rename_i job stored
        have now := visit job (holds a job stored)
        split
        · rename_i tried job' run
          rw [run] at now
          exact ih (put now holds)
        · rename_i job' run
          rw [run] at now
          exact @put m a job' [] now holds

variable (hashing overflowChecks) in
/-- A round in which no job panics visits each job of the order once. -/
theorem mineJobs_of_ok (nodup : order.Nodup)
    (fine : ∀ jobId ∈ order, ∀ job, m.jobs jobId = some job →
      ∃ nonce job', exec (mineJob hashing overflowChecks) job = (.ok nonce, job')) :
    (mineJobs hashing overflowChecks order m).stopped = m.stopped ∧
      ∀ jobId ∈ order, ∀ job nonce job', m.jobs jobId = some job →
        exec (mineJob hashing overflowChecks) job = (.ok nonce, job') →
        (mineJobs hashing overflowChecks order m).jobs jobId = some job' ∧
        (mineJobs hashing overflowChecks order m).tried jobId =
          m.tried jobId ++ nonce.toList := by
  induction order generalizing m with
  | nil => exact ⟨rfl, fun _ absent => absurd absent List.not_mem_nil⟩
  | cons a order ih =>
      obtain ⟨absent, nodup⟩ := List.nodup_cons.1 nodup
      have ne {id : String} (mem : id ∈ order) : id ≠ a := fun same => absent (same ▸ mem)
      simp only [mineJobs]
      split
      · rename_i empty
        obtain ⟨stopped, rest⟩ := ih nodup fun id mem => fine id (List.mem_cons_of_mem _ mem)
        refine ⟨stopped, fun id mem job nonce job' stored => ?_⟩
        cases List.mem_cons.1 mem with
        | inl same =>
            rw [same, empty] at stored
            cases stored
        | inr mem => exact rest id mem job nonce job' stored
      · rename_i job stored
        obtain ⟨nonce, job', run⟩ := fine a List.mem_cons_self job stored
        rw [run]
        have others := @Miner.put_jobs_of_ne m
        obtain ⟨stopped, rest⟩ := ih (m := m.put a job' nonce.toList) nodup
          fun id mem job₁ stored₁ =>
            fine id (List.mem_cons_of_mem _ mem) job₁ ((others (ne mem)).1 ▸ stored₁)
        refine ⟨stopped, fun id mem job₁ nonce₁ job₁' stored₁ run₁ => ?_⟩
        cases List.mem_cons.1 mem with
        | inl same =>
            rw [same, stored] at stored₁
            cases stored₁
            cases run.symm.trans run₁
            obtain ⟨jobs, tried⟩ := mineJobs_of_notMem hashing overflowChecks
              (m := m.put a job' nonce.toList) absent
            rw [same]
            exact ⟨jobs.trans Miner.put_jobs_self.1, tried.trans Miner.put_jobs_self.2⟩
        | inr mem =>
            obtain ⟨jobs, tried⟩ := rest id mem job₁ nonce₁ job₁'
              ((others (ne mem)).1.trans stored₁) run₁
            exact ⟨jobs, tried.trans (congrArg (· ++ _) (others (ne mem)).2)⟩

end

/-- The job a request is about. -/
def Event.jobId : Event → Option String
  | .mine request => some request.jobId
  | .result jobId => some jobId
  | .cancel jobId => some jobId
  | .round _ => none

/-- A round in which no job tries its `2 ^ 64`th nonce. -/
def Bounded (t : Transition Miner Event) : Prop :=
  ∀ order, t.label = .round order → ∀ jobId job, t.pre.jobs jobId = some job →
    job.status = .running → (t.pre.tried jobId).length + 1 < 2 ^ 64

/-- How far the search of a job has come, and the status that goes with it. -/
structure Searched (hashing : QPow.Hashing) (tried : List ℕ) (job : MiningJob) : Prop where
  in_order : tried = List.range' job.nonceStart tried.length
  inside : ∀ n ∈ tried, job.nonceStart ≤ n ∧ n ≤ job.nonceEnd
  counted : job.hashCount = tried.length
  fresh : tried = [] → job.status = .running
  completed : tried ≠ [] → (job.status = .completed ↔
    IsLeast {n | job.nonceStart ≤ n ∧ n ≤ job.nonceEnd ∧ job.accepts hashing n = true}
      job.currentNonce)
  failed : job.status = .failed ↔ ∀ n, job.nonceStart ≤ n → n ≤ job.nonceEnd →
    n ∈ tried ∧ job.accepts hashing n = false

/-- What one step may do to the jobs. -/
structure Isolated (c : Codecs) (hashing : QPow.Hashing) (overflowChecks : Bool)
    (t : Transition Miner Event) : Prop where
  /-- A free id gets the job requested, or stays free. -/
  accepted : ∀ request, t.label = .mine request → t.pre.jobs request.jobId = none →
    t.post.jobs request.jobId = none ∨ ∃ job, requestedJob c request = .ok job ∧
      t.post.jobs request.jobId = some job ∧ t.post.tried request.jobId = []
  duplicate : ∀ request, t.label = .mine request → (t.pre.jobs request.jobId).isSome →
    t.post = t.pre
  result : ∀ jobId, t.label = .result jobId → t.post = t.pre
  cancelled : ∀ jobId, t.label = .cancel jobId → t.post.jobs jobId = none
  others : ∀ asked, t.label.jobId = some asked → ∀ jobId ≠ asked,
    t.post.jobs jobId = t.pre.jobs jobId ∧ t.post.tried jobId = t.pre.tried jobId
  /-- A round gives a running job its next nonce, and looks at nothing else for it. -/
  round : ∀ order, t.label = .round order → ∀ jobId,
    (t.pre.jobs jobId = none → t.post.jobs jobId = none) ∧
    ∀ job, t.pre.jobs jobId = some job → ∃ nonce job',
      exec (mineJob hashing overflowChecks) job = (.ok nonce, job') ∧
      nonce = (if job.status = .running then
        some (job.nonceStart + (t.pre.tried jobId).length) else none) ∧
      t.post.jobs jobId = some job' ∧
      t.post.tried jobId = t.pre.tried jobId ++ nonce.toList
  task : ∀ jobId job job', t.pre.jobs jobId = some job → t.post.jobs jobId = some job' →
    job'.task = job.task
  settled : ∀ jobId job job', t.pre.jobs jobId = some job → job.status ≠ .running →
    t.post.jobs jobId = some job' → job' = job

section
variable {c : Codecs} {hashing : QPow.Hashing} {overflowChecks : Bool} {tried : List ℕ}
  {job : MiningJob} {m m' : Miner} {τ : List (Transition Miner Event)}

theorem Tracks.length_eq (tracks : Tracks hashing tried job) : tried.length = job.hashCount := by
  rw [tracks.tried_eq, List.length_range']

theorem Tracks.mem_iff (tracks : Tracks hashing tried job) {n : ℕ} :
    n ∈ tried ↔ job.nonceStart ≤ n ∧ n < job.nonceStart + job.hashCount := by
  rw [tracks.tried_eq, List.mem_range'_1]

theorem Tracks.started (tracks : Tracks hashing tried job) (status : job.status ≠ .running) :
    0 < job.hashCount := by
  by_contra zero
  exact status (tracks.fresh (Nat.eq_zero_of_not_pos zero)).2

theorem Tracks.current_mem (tracks : Tracks hashing tried job) (pos : 0 < job.hashCount) :
    job.currentNonce ∈ tried := by
  obtain ⟨next, -⟩ := tracks.last pos
  exact tracks.mem_iff.2 (by omega)

theorem Tracks.completed_iff (tracks : Tracks hashing tried job) (pos : 0 < job.hashCount) :
    job.status = .completed ↔
      IsLeast {n | job.nonceStart ≤ n ∧ n ≤ job.nonceEnd ∧ job.accepts hashing n = true}
        job.currentNonce := by
  obtain ⟨next, inside⟩ := tracks.last pos
  have current := tracks.current_mem pos
  constructor
  · intro done
    obtain ⟨valid, refused⟩ := tracks.completed done
    refine ⟨⟨by omega, inside, valid⟩, ?_⟩
    rintro n ⟨above, -, valid'⟩
    by_contra below
    have mem : n ∈ tried := tracks.mem_iff.2 (by omega)
    rw [refused n mem (by omega)] at valid'
    cases valid'
  · rintro ⟨⟨-, -, valid⟩, -⟩
    cases status : job.status with
    | completed => rfl
    | running =>
        rw [(tracks.running status).2 _ current] at valid
        cases valid
    | failed =>
        rw [(tracks.failed status).2 _ current] at valid
        cases valid

theorem Tracks.failed_iff (tracks : Tracks hashing tried job) :
    job.status = .failed ↔ ∀ n, job.nonceStart ≤ n → n ≤ job.nonceEnd →
      n ∈ tried ∧ job.accepts hashing n = false := by
  constructor
  · intro exhausted n above below
    obtain ⟨stop, refused⟩ := tracks.failed exhausted
    obtain ⟨next, -⟩ := tracks.last (tracks.started (by rw [exhausted]; decide))
    have mem : n ∈ tried := tracks.mem_iff.2 (by omega)
    exact ⟨mem, refused n mem⟩
  · intro all
    have last := tracks.mem_iff.1 (all job.nonceEnd tracks.range le_rfl).1
    have pos : 0 < job.hashCount := by omega
    obtain ⟨next, inside⟩ := tracks.last pos
    cases status : job.status with
    | failed => rfl
    | running =>
        have := (tracks.running status).1 pos
        omega
    | completed =>
        have invalid := (all job.currentNonce (by omega) inside).2
        rw [(tracks.completed status).1] at invalid
        cases invalid

theorem Tracks.searched (tracks : Tracks hashing tried job) : Searched hashing tried job where
  in_order := by
    rw [tracks.length_eq]
    exact tracks.tried_eq
  inside := by
    intro n mem
    obtain ⟨above, below⟩ := tracks.mem_iff.1 mem
    obtain ⟨next, inside⟩ := tracks.last (by omega)
    exact ⟨above, by omega⟩
  counted := tracks.length_eq.symm
  fresh none := by
    have length := tracks.length_eq
    rw [none, List.length_nil] at length
    exact (tracks.fresh length.symm).2
  completed some := tracks.completed_iff (tracks.length_eq ▸ List.length_pos_of_ne_nil some)
  failed := tracks.failed_iff

variable (overflowChecks) in
theorem Tracks.visit (tracks : Tracks hashing tried job)
    (room : job.status = .running → tried.length + 1 < 2 ^ 64) :
    ∃ nonce job', exec (mineJob hashing overflowChecks) job = (.ok nonce, job') ∧
      nonce = (if job.status = .running then some (job.nonceStart + tried.length) else none) ∧
      Tracks hashing (tried ++ nonce.toList) job' ∧ job'.task = job.task ∧
      (job.status ≠ .running → job' = job) := by
  by_cases running : job.status = .running
  · rw [if_pos running, tracks.length_eq]
    obtain ⟨visited, inside⟩ := tracks.exec_mineJob running
      (tracks.length_eq ▸ room running)
    exact ⟨_, _, visited, rfl, tracks.advanced running inside, rfl, fun idle => absurd running idle⟩
  · rw [if_neg running]
    refine ⟨_, _, exec_mineJob_of_ne_running running, rfl, ?_, rfl, fun _ => rfl⟩
    rw [Option.toList_none, List.append_nil]
    exact tracks

/-- Every job is tracked by its tried nonces, and the loop is alive. -/
structure Searching (hashing : QPow.Hashing) (m : Miner) : Prop where
  jobs : ∀ jobId job, m.jobs jobId = some job → Tracks hashing (m.tried jobId) job
  live : m.stopped = false

theorem mine_cases {request : MiningRequest}
    (step : (miner c hashing overflowChecks).step m (.mine request) m') :
    m' = m ∨ m.jobs request.jobId = none ∧ m'.stopped = m.stopped ∧
      (∀ jobId ≠ request.jobId, m'.jobs jobId = m.jobs jobId ∧ m'.tried jobId = m.tried jobId) ∧
      (m'.jobs request.jobId = none ∨ ∃ headerHash distanceThreshold nonceStart nonceEnd,
        nonceStart ≤ nonceEnd ∧ nonceEnd ≤ maxValue 512 ∧
        requestedJob c request = .ok (.new headerHash distanceThreshold nonceStart nonceEnd) ∧
        m'.jobs request.jobId =
          some (.new headerHash distanceThreshold nonceStart nonceEnd) ∧
        m'.tried request.jobId = []) := by
  simp only [miner] at step
  split at step
  · rename_i reply jobs handled
    by_cases used : (m.jobs request.jobId).isSome
    · rw [if_pos used] at step
      cases handleMineRequest_cases handled with
      | inl same =>
          rw [same] at step
          exact .inl step
      | inr new =>
          rw [new.1] at used
          cases used
    · have free : m.jobs request.jobId = none := Option.not_isSome_iff_eq_none.1 used
      rw [if_neg used] at step
      subst step
      refine .inr ⟨free, rfl, ?_, ?_⟩
      · intro jobId ne
        refine ⟨?_, Function.update_of_ne ne _ _⟩
        obtain rfl | ⟨-, _, _, _, _, -, -, -, rfl⟩ := handleMineRequest_cases handled
        · rfl
        · exact Function.update_of_ne ne _ _
      · obtain rfl | ⟨-, hash, threshold, first, last, range, bound, made, rfl⟩ :=
          handleMineRequest_cases handled
        · exact .inl free
        · exact .inr ⟨hash, threshold, first, last, range, bound, made,
            Function.update_self .., Function.update_self ..⟩
  · exact .inl step

theorem step_mine_iff {request : MiningRequest} {reply : StatusCode × MiningResponse} {jobs : Jobs}
    (handled : handleMineRequest c request m.jobs = .ok (reply, jobs))
    (free : m.jobs request.jobId = none) :
    (miner c hashing overflowChecks).step m (.mine request) m' ↔
      m' = ⟨jobs, Function.update m.tried request.jobId [], m.stopped⟩ := by
  simp only [miner, handled, free, Option.isSome_none, Bool.false_eq_true, ↓reduceIte]

theorem step_cancel {jobId : String}
    (step : (miner c hashing overflowChecks).step m (.cancel jobId) m') :
    m' = { m with jobs := Function.update m.jobs jobId none } := by
  rw [show m' = _ from step, handleCancelRequest, removeJob]
  cases m.jobs jobId <;> rfl

/-- A step that leaves the miner as it was. -/
theorem Isolated.refl {event : Event}
    (noCancel : ∀ jobId, event = .cancel jobId → m.jobs jobId = none)
    (noRound : ∀ order, event ≠ .round order) :
    Isolated c hashing overflowChecks ⟨m, event, m⟩ where
  accepted _ _ free := .inl free
  duplicate _ _ _ := rfl
  result _ _ := rfl
  cancelled := noCancel
  others _ _ _ _ := ⟨rfl, rfl⟩
  round order label := absurd label (noRound order)
  task _ _ _ before after := by cases before.symm.trans after; rfl
  settled _ _ _ before _ after := by cases before.symm.trans after; rfl

theorem Searching.mine {request : MiningRequest} (searching : Searching hashing m)
    (step : (miner c hashing overflowChecks).step m (.mine request) m') :
    Searching hashing m' ∧ Isolated c hashing overflowChecks ⟨m, .mine request, m'⟩ := by
  obtain rfl | ⟨free, stopped, others, own⟩ := mine_cases step
  · exact ⟨searching, .refl (fun _ label => (nomatch label)) (fun _ label => (nomatch label))⟩
  · have kept {jobId : String} {job : MiningJob} (stored : m.jobs jobId = some job) :
        m'.jobs jobId = some job := by
      have ne : jobId ≠ request.jobId := by
        rintro rfl
        cases free.symm.trans stored
      rw [(others jobId ne).1, stored]
    refine ⟨⟨?_, stopped.trans searching.live⟩, ?_, ?_, fun _ label => (nomatch label),
      fun _ label => (nomatch label), ?_, fun _ label => (nomatch label), ?_, ?_⟩
    · intro jobId job stored
      by_cases same : jobId = request.jobId
      · subst same
        obtain empty | ⟨hash, threshold, first, last, range, bound, -, new, fresh⟩ := own
        · cases empty.symm.trans stored
        · cases new.symm.trans stored
          rw [fresh]
          exact .new range bound
      · rw [(others jobId same).2]
        exact searching.jobs jobId job ((others jobId same).1 ▸ stored)
    · intro request' label _
      cases label
      obtain empty | ⟨hash, threshold, first, last, -, -, made, new, fresh⟩ := own
      · exact .inl empty
      · exact .inr ⟨_, made, new, fresh⟩
    · intro request' label used
      cases label
      rw [free] at used
      cases used
    · intro asked label jobId ne
      cases label
      exact others jobId ne
    · intro jobId job job' before after
      cases (kept before).symm.trans after
      rfl
    · intro jobId job job' before _ after
      cases (kept before).symm.trans after
      rfl

theorem Searching.cancel {jobId : String} (searching : Searching hashing m)
    (step : (miner c hashing overflowChecks).step m (.cancel jobId) m') :
    Searching hashing m' ∧ Isolated c hashing overflowChecks ⟨m, .cancel jobId, m'⟩ := by
  obtain rfl := step_cancel step
  have removed : Function.update m.jobs jobId none jobId = none := Function.update_self ..
  have others {id : String} (ne : id ≠ jobId) :
      Function.update m.jobs jobId none id = m.jobs id := Function.update_of_ne ne _ _
  have kept {id : String} {job : MiningJob}
      (stored : Function.update m.jobs jobId none id = some job) : m.jobs id = some job := by
    have ne : id ≠ jobId := by
      rintro rfl
      cases removed.symm.trans stored
    rw [← others ne, stored]
  refine ⟨⟨fun id job stored => searching.jobs id job (kept stored), searching.live⟩,
    fun _ label => (nomatch label), fun _ label => (nomatch label),
    fun _ label => (nomatch label), ?_, ?_, fun _ label => (nomatch label), ?_, ?_⟩
  · intro id label
    cases label
    exact removed
  · intro asked label id ne
    cases label
    exact ⟨others ne, rfl⟩
  · intro id job job' before after
    cases before.symm.trans (kept after)
    rfl
  · intro id job job' before _ after
    cases before.symm.trans (kept after)
    rfl

theorem Searching.round {order : List String} (searching : Searching hashing m)
    (step : (miner c hashing overflowChecks).step m (.round order) m')
    (bounded : Bounded ⟨m, .round order, m'⟩) :
    Searching hashing m' ∧ Isolated c hashing overflowChecks ⟨m, .round order, m'⟩ := by
  obtain ⟨-, nodup, covers, after⟩ := step
  have visit (jobId : String) (job : MiningJob) (stored : m.jobs jobId = some job) :=
    (searching.jobs jobId job stored).visit overflowChecks
      (bounded order rfl jobId job stored)
  obtain ⟨stopped, visited⟩ := mineJobs_of_ok hashing overflowChecks nodup
    fun jobId _ job stored =>
      let ⟨nonce, job', run, _⟩ := visit jobId job stored
      ⟨nonce, job', run⟩
  rw [← after] at stopped visited
  have free {jobId : String} (empty : m.jobs jobId = none) : m'.jobs jobId = none := by
    have absent : jobId ∉ order := by
      rw [covers, empty]
      exact Bool.false_ne_true
    rw [after, (mineJobs_of_notMem hashing overflowChecks absent).1, empty]
  have moved (jobId : String) (job : MiningJob) (stored : m.jobs jobId = some job) :
      ∃ nonce job', exec (mineJob hashing overflowChecks) job = (.ok nonce, job') ∧
        nonce = (if job.status = .running then
          some (job.nonceStart + (m.tried jobId).length) else none) ∧
        Tracks hashing (m'.tried jobId) job' ∧ job'.task = job.task ∧
        (job.status ≠ .running → job' = job) ∧ m'.jobs jobId = some job' ∧
        m'.tried jobId = m.tried jobId ++ nonce.toList := by
    obtain ⟨nonce, job', run, next, tracks, task, settled⟩ := visit jobId job stored
    have mem : jobId ∈ order := (covers jobId).2 (stored ▸ rfl)
    obtain ⟨now, tried⟩ := visited jobId mem job nonce job' stored run
    exact ⟨nonce, job', run, next, tried ▸ tracks, task, settled, now, tried⟩
  refine ⟨⟨?_, stopped.trans searching.live⟩, fun _ label => (nomatch label),
    fun _ label => (nomatch label), fun _ label => (nomatch label), fun _ label => (nomatch label),
    fun _ label => (nomatch label), ?_, ?_, ?_⟩
  · intro jobId job' now
    cases stored : m.jobs jobId with
    | none => cases (free stored).symm.trans now
    | some job =>
        obtain ⟨_, _, -, -, tracks, -, -, now', -⟩ := moved jobId job stored
        cases now'.symm.trans now
        exact tracks
  · intro order' _ jobId
    refine ⟨free, fun job stored => ?_⟩
    obtain ⟨nonce, job', run, next, -, -, -, now, tried⟩ := moved jobId job stored
    exact ⟨nonce, job', run, next, now, tried⟩
  · intro jobId job job' before now
    obtain ⟨_, _, -, -, -, task, -, now', -⟩ := moved jobId job before
    cases now'.symm.trans now
    exact task
  · intro jobId job job' before idle now
    obtain ⟨_, _, -, -, -, -, settled, now', -⟩ := moved jobId job before
    cases now'.symm.trans now
    exact settled idle

theorem Searching.step {event : Event} (searching : Searching hashing m)
    (step : (miner c hashing overflowChecks).step m event m')
    (bounded : Bounded ⟨m, event, m'⟩) :
    Searching hashing m' ∧ Isolated c hashing overflowChecks ⟨m, event, m'⟩ := by
  cases event with
  | mine request => exact searching.mine step
  | result jobId =>
      obtain rfl : m' = m := step
      exact ⟨searching, .refl (fun _ label => (nomatch label)) (fun _ label => (nomatch label))⟩
  | cancel jobId => exact searching.cancel step
  | round order => exact searching.round step bounded

/-- In whatever order requests and rounds come, every job has searched its range
without a gap, and each step moves the jobs one by one. -/
theorem search_of_run (run : Run (miner c hashing overflowChecks) τ m)
    (bounded : ∀ t ∈ τ, Bounded t) :
    m.stopped = false ∧
      (∀ jobId job, m.jobs jobId = some job → Searched hashing (m.tried jobId) job) ∧
      ∀ t ∈ τ, Isolated c hashing overflowChecks t := by
  have start : ∀ m, (miner c hashing overflowChecks).init m → Searching hashing m := by
    rintro m rfl
    exact ⟨fun _ _ stored => (nomatch stored), rfl⟩
  obtain ⟨searching, isolated⟩ := run.guarded_steps start
    (fun _ _ _ searching bounded step => searching.step step bounded) bounded
  exact ⟨searching.live, fun jobId job stored => (searching.jobs jobId job stored).searched,
    isolated⟩

end

namespace Mock

/-- Every nonce but zero has distance zero. -/
def lenient : QPow.Hashing := ⟨fun _ => ⟨2, 3, by decide⟩, fun _ => 0⟩

def request : MiningRequest :=
  submitMiningJob .numerals "job" (Vector.replicate 32 0) 5 1 2

def idle : Miner := ⟨fun _ => none, fun _ => [], false⟩

def job : MiningJob := .new (Vector.replicate 32 0) 5 1 2

/-- The job of the request is stored, and has tried nothing. -/
def requested : Miner :=
  ⟨Function.update idle.jobs "job" (some job), Function.update idle.tried request.jobId [],
    idle.stopped⟩

theorem handleMineRequest_request : handleMineRequest .numerals request idle.jobs =
    .ok ((.ok, ⟨.accepted, "job", none⟩), Function.update idle.jobs "job" (some job)) := by
  have five : 5 ≤ maxValue 512 := le_maxValue_of_lt (k := 3) (by decide) (by decide)
  have two : 2 ≤ maxValue 512 := le_maxValue_of_lt (k := 3) (by decide) (by decide)
  have free : idle.jobs "job" = none := rfl
  rw [request, handleMineRequest_submitMiningJob (by decide) five (by decide) two, free]
  rfl

theorem requested_run :
    Run (miner .numerals lenient true) [⟨idle, .mine request, requested⟩] requested := by
  have start : Run (miner .numerals lenient true) [] idle := .start rfl
  have free : idle.jobs request.jobId = none := rfl
  refine start.extend ?_
  rw [step_mine_iff handleMineRequest_request free]
  rfl

theorem requested_bounded : Bounded ⟨idle, .mine request, requested⟩ :=
  fun _ label => (nomatch label)

theorem requested_jobs : requested.jobs "job" = some job := by
  simp only [requested, Function.update_self]

theorem accepts_one : job.accepts lenient 1 = true := by
  have notZero : Positional.toBigEndian 64 1 ≠ Vector.replicate 64 0 := by decide
  rw [MiningJob.accepts, QPow.isValidNonce, if_neg notZero, QPow.getNonceDistance, if_neg notZero]
  simp [QPow.hashToGroupBigintSha, lenient]

/-- A round has visited the job. -/
def visited : Miner := mineJobs lenient true ["job"] requested

theorem visited_run : Run (miner .numerals lenient true)
    ([⟨idle, .mine request, requested⟩] ++ [⟨requested, .round ["job"], visited⟩]) visited := by
  refine requested_run.extend ⟨rfl, by simp, fun jobId => ?_, rfl⟩
  rw [List.mem_singleton, requested]
  by_cases same : jobId = "job"
  · simp only [same, Function.update_self, Option.isSome_some]
  · simp only [same, Function.update_of_ne same, idle, Option.isSome_none, Bool.false_eq_true]

theorem visited_bounded : ∀ t ∈ [(⟨idle, .mine request, requested⟩ : Transition Miner Event)] ++
    [⟨requested, .round ["job"], visited⟩], Bounded t := by
  rw [List.forall_mem_append, List.forall_mem_singleton, List.forall_mem_singleton]
  refine ⟨requested_bounded, fun _ _ jobId _ _ _ => ?_⟩
  have none_tried : requested.tried jobId = [] := by
    simp only [requested, idle, Function.update_apply, ite_self]
  rw [none_tried]
  decide

end Mock

open Mock

theorem search_of_run_round : visited.stopped = false ∧
    (∀ jobId job, visited.jobs jobId = some job →
      Searched lenient (visited.tried jobId) job) ∧
    ∀ t ∈ [(⟨idle, .mine request, requested⟩ : Transition Miner Event)] ++
      [⟨requested, .round ["job"], visited⟩], Isolated .numerals lenient true t :=
  search_of_run visited_run visited_bounded

/-- A job is not completed before its first nonce is tried, valid or not. -/
theorem requested_not_completed : ∃ τ m job, Run (miner .numerals lenient true) τ m ∧
    (∀ t ∈ τ, Bounded t) ∧ m.jobs "job" = some job ∧
    IsLeast {n | job.nonceStart ≤ n ∧ n ≤ job.nonceEnd ∧ job.accepts lenient n = true}
      job.currentNonce ∧ job.status ≠ .completed := by
  refine ⟨_, _, job, requested_run, List.forall_mem_singleton.2 requested_bounded, requested_jobs,
    ⟨?_, ?_⟩, ?_⟩
  · exact ⟨le_rfl, by decide, accepts_one⟩
  · exact fun n inside => inside.1
  · exact (nomatch ·)

end Resonance.ExternalMiner
