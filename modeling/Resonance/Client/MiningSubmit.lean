import Resonance.Client.MiningWorker

/-!
Concurrent calls of `MiningHandle::submit`, beside the task that makes builds.

A call reads the metadata of the current build, verifies its seal against them
and then takes whatever build is current by then. Builds are numbered in the
order they are put in. No build is taken twice, and a call whose seal does not
pass takes none; but the build taken is the one the seal was verified for only if
none is put in between.
-/
namespace Resonance.Submitting
open StateMachine
variable {H : Type}

inductive Submission (H : Type)
  | called (innerSeal : Seal)
  | verifying (innerSeal : Seal) (metadata : MiningMetadata H)
  | taking (innerSeal : Seal) (metadata : MiningMetadata H)
  /-- The block made of a numbered build is with the block import. -/
  | importing (number : ℕ) (build : MiningBuild H) (importBlock : BlockImportParams H)
  | returned (answer : Bool)
  | panicked

structure State (H : Type) where
  worker : MiningWorker (ℕ × MiningBuild H)
  builds : ℕ
  submissions : ℕ → Option (Submission H)

inductive Action (H : Type)
  /-- The first half of `on_build`, or of `on_major_syncing` if there is no build. -/
  | swapBuild (value : Option (MiningBuild H))
  | incrementVersion
  | submit (id : ℕ) (innerSeal : Seal)
  | readMetadata (id : ℕ)
  | verify (id : ℕ)
  | takeBuild (id : ℕ)
  | importBlock (id : ℕ) (accepted : Bool)

/-- The block `submit` hands to the block import: the proposal with the seal. -/
def importParams (build : MiningBuild H) (innerSeal : Seal) : BlockImportParams H where
  header := build.header
  postDigests := [.seal POW_ENGINE_ID innerSeal]
  body := some build.body
  skipExecutionChecks := false
  intermediate := some (some build.metadata.difficulty)
  auxiliary := []
  forkChoice := none
  postHash := none

variable (api : QPoWApi H)

/-- `algorithm.verify` on a seal and the metadata of a build. -/
def verifySeal (metadata : MiningMetadata H) (innerSeal : Seal) : Except (PowError H) Bool :=
  (QPowAlgorithm api).verify metadata.bestHash metadata.preHash metadata.preRuntime innerSeal
    metadata.difficulty

def afterVerify (metadata : MiningMetadata H) (innerSeal : Seal) : Submission H :=
  match verifySeal api metadata innerSeal with
  | .ok true => .taking innerSeal metadata
  | .ok false => .returned false
  | .error (.panic _) => .panicked
  | .error _ => .returned false

def State.put (s : State H) (id : ℕ) (submission : Submission H) : State H :=
  { s with submissions := Function.update s.submissions id (some submission) }

def next (s : State H) : Action H → Option (State H)
  | .swapBuild value =>
      (s.worker.swap (value.map fun build => (s.builds, build))).map fun worker =>
        { s with worker := worker, builds := s.builds + 1 }
  | .incrementVersion => s.worker.incrementVersion.map fun worker => { s with worker := worker }
  | .submit id innerSeal =>
      match s.submissions id with
      | none => some (s.put id (.called innerSeal))
      | some _ => none
  | .readMetadata id =>
      match s.submissions id, s.worker.read with
      | some (.called innerSeal), some (some (_, build)) =>
          some (s.put id (.verifying innerSeal build.metadata))
      | some (.called _), some none => some (s.put id (.returned false))
      | _, _ => none
  | .verify id =>
      match s.submissions id with
      | some (.verifying innerSeal metadata) => some (s.put id (afterVerify api metadata innerSeal))
      | _ => none
  | .takeBuild id =>
      match s.submissions id, s.worker.takeBuild with
      | some (.taking innerSeal _), some (some (number, build), worker) =>
          some (State.put { s with worker := worker } id
            (.importing number build (importParams build innerSeal)))
      | some (.taking _ _), some (none, worker) =>
          some (State.put { s with worker := worker } id (.returned false))
      | _, _ => none
  | .importBlock id accepted =>
      match s.submissions id with
      | some (.importing _ _ _) => some (s.put id (.returned accepted))
      | _ => none

def submitting : Machine (State H) (Action H) where
  init s := s = ⟨.new, 0, fun _ => none⟩
  step s a s' := next api s a = some s'

inductive Effect (s s' : State H) : Action H → Prop
  | swaps (value : Option (MiningBuild H)) :
      s'.worker.build = value.map (fun build => (s.builds, build)) → s'.builds = s.builds + 1 →
      s'.submissions = s.submissions → Effect s s' (.swapBuild value)
  | keepsBuild (a : Action H) : s'.worker.build = s.worker.build → s'.builds = s.builds →
      (∀ id innerSeal m, s'.submissions id = some (.taking innerSeal m) →
        s.submissions id = some (.taking innerSeal m) ∨
          verifySeal api m innerSeal = .ok true) →
      (∀ id n b block, s'.submissions id = some (.importing n b block) →
        s.submissions id = some (.importing n b block)) →
      (∀ id n, a = .takeBuild id → s.worker.build ≠ some n) → Effect s s' a
  | takes (id : ℕ) (innerSeal : Seal) (m : MiningMetadata H) (n : ℕ) (b : MiningBuild H) :
      s.submissions id = some (.taking innerSeal m) → s.worker.build = some (n, b) →
      s'.worker.build = none → s'.builds = s.builds →
      s'.submissions = Function.update s.submissions id
        (some (.importing n b (importParams b innerSeal))) → Effect s s' (.takeBuild id)

section
variable {api} {s s' : State H} {a : Action H}

theorem Effect.put {worker : MiningWorker (ℕ × MiningBuild H)} {id : ℕ} {p : Submission H}
    (build : worker.build = s.worker.build)
    (taking : ∀ innerSeal m, p = .taking innerSeal m → verifySeal api m innerSeal = .ok true)
    (importing : ∀ n b block, p ≠ .importing n b block)
    (missed : ∀ id n, a = .takeBuild id → s.worker.build ≠ some n) :
    Effect api s (State.put { s with worker := worker } id p) a := by
  refine .keepsBuild a build rfl ?_ ?_ missed
  · intro k innerSeal m h
    change Function.update _ _ _ _ = _ at h
    rw [Function.update_apply] at h
    split at h
    · exact .inr (taking _ _ (Option.some.inj h))
    · exact .inl h
  · intro k n b block h
    change Function.update _ _ _ _ = _ at h
    rw [Function.update_apply] at h
    split at h
    · exact absurd (Option.some.inj h) (importing n b block)
    · exact h

def Submission.Waits : Submission H → Prop
  | .taking _ _ | .importing _ _ _ => False
  | _ => True

theorem Effect.waits {id : ℕ} {p : Submission H} (waits : p.Waits)
    (other : ∀ id, a ≠ .takeBuild id) : Effect api s (State.put s id p) a := by
  refine .put rfl ?_ ?_ fun id _ same => absurd same (other id)
  · rintro innerSeal m rfl
    exact waits.elim
  · rintro n b block rfl
    exact waits.elim

theorem afterVerify_taking {metadata m : MiningMetadata H} {innerSeal innerSeal' : Seal}
    (h : afterVerify api metadata innerSeal = .taking innerSeal' m) :
    verifySeal api m innerSeal' = .ok true := by
  simp only [afterVerify] at h
  split at h
  · rename_i valid
    cases h
    exact valid
  · cases h
  · cases h
  · cases h

theorem afterVerify_ne_importing {metadata : MiningMetadata H} {innerSeal : Seal} {n : ℕ}
    {b : MiningBuild H} {block : BlockImportParams H} :
    afterVerify api metadata innerSeal ≠ .importing n b block := by
  simp only [afterVerify]
  split <;> exact fun h => nomatch h

theorem effect_of_next (step : next api s a = some s') : Effect api s s' a := by
  cases a with
  | swapBuild value =>
      obtain ⟨worker, swapped, rfl⟩ := Option.map_eq_some_iff.1 step
      obtain ⟨-, rfl⟩ := MiningWorker.swap_eq_some_iff.1 swapped
      exact .swaps value rfl rfl rfl
  | incrementVersion =>
      obtain ⟨worker, bumped, rfl⟩ := Option.map_eq_some_iff.1 step
      obtain ⟨-, rfl⟩ := MiningWorker.incrementVersion_eq_some_iff.1 bumped
      exact .keepsBuild _ rfl rfl (fun _ _ _ h => .inl h) (fun _ _ _ _ h => h)
        (fun _ _ h => nomatch h)
  | submit id innerSeal =>
      dsimp only [next] at step
      split at step
      · obtain rfl := Option.some.inj step
        exact .waits trivial (fun _ h => nomatch h)
      · cases step
  | readMetadata id =>
      dsimp only [next] at step
      split at step
      · obtain rfl := Option.some.inj step
        exact .waits trivial (fun _ h => nomatch h)
      · obtain rfl := Option.some.inj step
        exact .waits trivial (fun _ h => nomatch h)
      · cases step
  | verify id =>
      dsimp only [next] at step
      split at step
      · obtain rfl := Option.some.inj step
        exact .put rfl (fun _ _ h => afterVerify_taking h) (fun _ _ _ => afterVerify_ne_importing)
          (fun _ _ h => nomatch h)
      · cases step
  | takeBuild id =>
      dsimp only [next] at step
      split at step
      · rename_i innerSeal m n b worker taking taken
        obtain rfl := Option.some.inj step
        obtain ⟨-, build, empty, -⟩ := MiningWorker.takeBuild_eq_some_iff.1 taken
        exact .takes id innerSeal m n b taking build empty rfl rfl
      · rename_i innerSeal m worker taking taken
        obtain rfl := Option.some.inj step
        obtain ⟨-, build, empty, -⟩ := MiningWorker.takeBuild_eq_some_iff.1 taken
        refine .put (empty.trans build.symm) (fun _ _ h => nomatch h) (fun _ _ _ h => nomatch h) ?_
        intro _ n _ some
        rw [build] at some
        cases some
      · cases step
  | importBlock id accepted =>
      dsimp only [next] at step
      split at step
      · obtain rfl := Option.some.inj step
        exact .waits trivial (fun _ h => nomatch h)
      · cases step

end

/-- A call takes the numbered build. -/
def Consumes (t : Transition (State H) (Action H)) (n : ℕ) : Prop :=
  ∃ id b, t.label = .takeBuild id ∧ t.pre.worker.build = some (n, b)

/-- A call that takes a build has verified its seal on the metadata of that build. -/
def TakesOwn (t : Transition (State H) (Action H)) : Prop :=
  ∀ id innerSeal m n b, t.label = .takeBuild id →
    t.pre.submissions id = some (.taking innerSeal m) → t.pre.worker.build = some (n, b) →
    b.metadata = m

/-- No build is put in between a call's reading of the metadata and its taking of the
build. -/
def Uninterrupted (τ : List (Transition (State H) (Action H))) : Prop :=
  ∀ τ₁ t τ₂ u τ₃ id, τ = τ₁ ++ t :: τ₂ ++ u :: τ₃ →
    t.label = .readMetadata id → u.label = .takeBuild id →
    ∀ v ∈ τ₂, ∀ build, v.label ≠ .swapBuild (some build)

/-- The metadata a call has read and not used up. -/
def Submission.snapshot : Submission H → Option (MiningMetadata H)
  | .verifying _ metadata => some metadata
  | .taking _ metadata => some metadata
  | _ => none

/-- No build is taken by two steps of a run. -/
def ConsumedOnce (τ : List (Transition (State H) (Action H))) : Prop :=
  ∀ (i j : ℕ) t u n, τ[i]? = some t → τ[j]? = some u → Consumes t n → Consumes u n → i = j

/-- The build of a state is gone after the step because the worker has changed
it, or a call has taken it whose seal passed on the metadata it read. -/
def RemovedBy (t : Transition (State H) (Action H)) : Prop :=
  (∃ value, t.label = .swapBuild value) ∨
    ∃ id innerSeal m, t.label = .takeBuild id ∧
      t.pre.submissions id = some (.taking innerSeal m) ∧ verifySeal api m innerSeal = .ok true

variable {api} {s s' : State H} {a : Action H} {τ : List (Transition (State H) (Action H))}

structure SubmitHistory (api : QPoWApi H) (τ : List (Transition (State H) (Action H)))
    (s : State H) : Prop where
  verified : ∀ id innerSeal m, s.submissions id = some (.taking innerSeal m) →
    verifySeal api m innerSeal = .ok true
  current : ∀ n b, s.worker.build = some (n, b) → n < s.builds ∧ ∀ t ∈ τ, ¬ Consumes t n
  consumed : ∀ t ∈ τ, ∀ n, Consumes t n → n < s.builds
  once : ConsumedOnce τ
  removed : ∀ t ∈ τ, t.pre.worker.build ≠ none → t.post.worker.build ≠ t.pre.worker.build →
    RemovedBy api t
  attached : (∀ t ∈ τ, TakesOwn t) → ∀ id n b block,
    s.submissions id = some (.importing n b block) → ∃ innerSeal,
      block = importParams b innerSeal ∧ verifySeal api b.metadata innerSeal = .ok true

theorem ConsumedOnce.snoc {t : Transition (State H) (Action H)} (once : ConsumedOnce τ)
    (fresh : ∀ n, Consumes t n → ∀ u ∈ τ, ¬ Consumes u n) : ConsumedOnce (τ ++ [t]) := by
  intro i j u v n hi hj takesU takesV
  rcases getElem?_snoc hi with oldU | ⟨rfl, rfl⟩
  · rcases getElem?_snoc hj with oldV | ⟨rfl, rfl⟩
    · exact once i j u v n oldU oldV takesU takesV
    · exact absurd takesU (fresh n takesV u (List.mem_of_getElem? oldU))
  · rcases getElem?_snoc hj with oldV | ⟨rfl, rfl⟩
    · exact absurd takesV (fresh n takesU v (List.mem_of_getElem? oldV))
    · rfl

theorem SubmitHistory.step (history : SubmitHistory api τ s) (step : next api s a = some s') :
    SubmitHistory api (τ ++ [⟨s, a, s'⟩]) s' := by
  have own_before : (∀ t ∈ τ ++ [⟨s, a, s'⟩], TakesOwn t) → ∀ t ∈ τ, TakesOwn t :=
    fun own t ht => own t (List.mem_append_left _ ht)
  cases effect_of_next step with
  | swaps value build builds submissions =>
      have no_take : ∀ n, ¬ Consumes (⟨s, .swapBuild value, s'⟩ : Transition _ _) n := by
        rintro n ⟨id, b, label, -⟩
        cases label
      have below : ∀ t ∈ τ ++ [⟨s, .swapBuild value, s'⟩], ∀ n, Consumes t n → n < s.builds :=
        forall_mem_snoc history.consumed fun n takes => absurd takes (no_take n)
      refine ⟨?_, ?_, ?_, history.once.snoc fun n takes => absurd takes (no_take n),
        forall_mem_snoc history.removed fun _ _ => .inl ⟨value, rfl⟩, ?_⟩
      · rw [submissions]
        exact history.verified
      · intro n b current
        rw [build] at current
        obtain ⟨b', -, same⟩ := Option.map_eq_some_iff.1 current
        cases same
        exact ⟨by omega, fun t ht takes => absurd (below t ht _ takes) (by omega)⟩
      · intro t ht n takes
        have := below t ht n takes
        omega
      · intro own
        rw [submissions]
        exact history.attached (own_before own)
  | keepsBuild a build builds taking importing missed =>
      have no_take : ∀ n, ¬ Consumes (⟨s, a, s'⟩ : Transition _ _) n := by
        rintro n ⟨id, b, label, current⟩
        exact missed id _ label current
      refine ⟨?_, ?_, ?_, history.once.snoc fun n takes => absurd takes (no_take n),
        forall_mem_snoc history.removed fun _ changed => absurd build changed, ?_⟩
      · intro id innerSeal m phase
        cases taking id innerSeal m phase with
        | inl before => exact history.verified id innerSeal m before
        | inr passed => exact passed
      · intro n b current
        rw [build] at current
        obtain ⟨below, free⟩ := history.current n b current
        rw [builds]
        exact ⟨below, forall_mem_snoc free (no_take n)⟩
      · rw [builds]
        exact forall_mem_snoc history.consumed fun n takes => absurd takes (no_take n)
      · intro own id n b block phase
        exact history.attached (own_before own) id n b block (importing id n b block phase)
  | takes id innerSeal m n b pre current empty builds submissions =>
      obtain ⟨below, free⟩ := history.current n b current
      have takes_n : ∀ k, Consumes (⟨s, .takeBuild id, s'⟩ : Transition _ _) k → k = n := by
        rintro k ⟨id', b', -, current'⟩
        rw [current] at current'
        cases current'
        rfl
      have passed := history.verified id innerSeal m pre
      refine ⟨?_, ?_, ?_, history.once.snoc ?_,
        forall_mem_snoc history.removed fun _ _ => .inr ⟨id, innerSeal, m, rfl, pre, passed⟩, ?_⟩
      · intro id' innerSeal' m' phase
        rw [submissions, Function.update_apply] at phase
        split at phase
        · cases phase
        · exact history.verified id' innerSeal' m' phase
      · intro k b' some
        rw [empty] at some
        cases some
      · rw [builds]
        refine forall_mem_snoc history.consumed ?_
        intro k takes
        rw [takes_n k takes]
        exact below
      · intro k takes
        rw [takes_n k takes]
        exact free
      · intro own id' k b' block phase
        rw [submissions, Function.update_apply] at phase
        split at phase
        · cases phase
          obtain rfl := own ⟨s, .takeBuild id, s'⟩ (by simp) id innerSeal m n b rfl pre current
          exact ⟨innerSeal, rfl, passed⟩
        · exact history.attached (own_before own) id' k b' block phase

theorem SubmitHistory.of_run (run : Run (submitting api) τ s) : SubmitHistory api τ s := by
  refine run.history (P := SubmitHistory api) ?_ ?_
  · rintro s rfl
    exact ⟨(fun _ _ _ h => nomatch h), (fun _ _ h => nomatch h), (fun t ht => nomatch ht),
      (fun i j t u n h => nomatch h), (fun t ht => nomatch ht), fun _ _ _ _ _ h => nomatch h⟩
  · intro τ s a s' _ history step
    exact history.step step

/-- A call has the metadata it had before, or reads those of the current build. -/
theorem snapshot_of_next (step : next api s a = some s') {id : ℕ} {p : Submission H}
    {m : MiningMetadata H} (phase : s'.submissions id = some p) (snapshot : p.snapshot = some m) :
    (∃ q, s.submissions id = some q ∧ q.snapshot = some m) ∨
      a = .readMetadata id ∧ s'.worker.build = s.worker.build ∧
        ∃ n b, s.worker.build = some (n, b) ∧ b.metadata = m := by
  have put {k : ℕ} {worker : MiningWorker (ℕ × MiningBuild H)} {q : Submission H}
      (none : q.snapshot = none)
      (phase : (State.put { s with worker := worker } k q).submissions id = some p) :
      ∃ q, s.submissions id = some q ∧ q.snapshot = some m := by
    change Function.update _ _ _ _ = _ at phase
    rw [Function.update_apply] at phase
    split at phase
    · rw [← Option.some.inj phase, none] at snapshot
      cases snapshot
    · exact ⟨p, phase, snapshot⟩
  cases a with
  | swapBuild value =>
      obtain ⟨worker, swapped, rfl⟩ := Option.map_eq_some_iff.1 step
      exact .inl ⟨p, phase, snapshot⟩
  | incrementVersion =>
      obtain ⟨worker, bumped, rfl⟩ := Option.map_eq_some_iff.1 step
      exact .inl ⟨p, phase, snapshot⟩
  | submit k innerSeal =>
      dsimp only [next] at step
      split at step
      · obtain rfl := Option.some.inj step
        exact .inl (put rfl phase)
      · cases step
  | readMetadata k =>
      dsimp only [next] at step
      split at step
      · rename_i innerSeal n b called build
        obtain rfl := Option.some.inj step
        change Function.update _ _ _ _ = _ at phase
        rw [Function.update_apply] at phase
        split at phase
        · rename_i same
          rw [← Option.some.inj phase] at snapshot
          obtain ⟨-, current⟩ := MiningWorker.read_eq_some_iff.1 build
          exact .inr ⟨by rw [same], rfl, n, b, current, Option.some.inj snapshot⟩
        · exact .inl ⟨p, phase, snapshot⟩
      · obtain rfl := Option.some.inj step
        exact .inl (put rfl phase)
      · cases step
  | verify k =>
      dsimp only [next] at step
      split at step
      · rename_i innerSeal metadata verifying
        obtain rfl := Option.some.inj step
        change Function.update _ _ _ _ = _ at phase
        rw [Function.update_apply] at phase
        split at phase
        · rename_i same
          subst same
          refine .inl ⟨_, verifying, ?_⟩
          rw [← Option.some.inj phase, afterVerify] at snapshot
          split at snapshot
          · exact snapshot
          · cases snapshot
          · cases snapshot
          · cases snapshot
        · exact .inl ⟨p, phase, snapshot⟩
      · cases step
  | takeBuild k =>
      dsimp only [next] at step
      split at step
      · obtain rfl := Option.some.inj step
        exact .inl (put rfl phase)
      · obtain rfl := Option.some.inj step
        exact .inl (put rfl phase)
      · cases step
  | importBlock k accepted =>
      dsimp only [next] at step
      split at step
      · obtain rfl := Option.some.inj step
        exact .inl (put rfl phase)
      · cases step

/-- The call has read these metadata, and the build that is there now has them unless one
was put in since. -/
def ReadSince (τ : List (Transition (State H) (Action H))) (s : State H) (id : ℕ)
    (m : MiningMetadata H) : Prop :=
  ∃ τ₁ t τ₂, τ = τ₁ ++ t :: τ₂ ∧ t.label = .readMetadata id ∧
    ((∀ v ∈ τ₂, ∀ build, v.label ≠ .swapBuild (some build)) →
      ∀ n b, s.worker.build = some (n, b) → b.metadata = m)

theorem ReadSince.step {id : ℕ} {m : MiningMetadata H} (read : ReadSince τ s id m)
    (step : next api s a = some s') : ReadSince (τ ++ [⟨s, a, s'⟩]) s' id m := by
  obtain ⟨τ₁, t, τ₂, split, label, current⟩ := read
  refine ⟨τ₁, t, τ₂ ++ [⟨s, a, s'⟩], by simp [split], label, ?_⟩
  intro quiet n b build'
  have before := current fun v mem => quiet v (List.mem_append_left _ mem)
  cases effect_of_next step with
  | swaps value build _ _ =>
      rw [build] at build'
      obtain ⟨b', rfl, -⟩ := Option.map_eq_some_iff.1 build'
      have last := List.mem_append_right τ₂ (List.mem_singleton_self
        (⟨s, .swapBuild (some b'), s'⟩ : Transition (State H) (Action H)))
      exact absurd rfl (quiet _ last b')
  | keepsBuild a build _ _ _ _ =>
      rw [build] at build'
      exact before n b build'
  | takes _ _ _ _ _ _ _ empty _ _ =>
      rw [empty] at build'
      cases build'

theorem readSince_of_run (run : Run (submitting api) τ s) : ∀ id p m,
    s.submissions id = some p → p.snapshot = some m → ReadSince τ s id m := by
  refine run.history (P := fun τ s => ∀ id p m,
    s.submissions id = some p → p.snapshot = some m → ReadSince τ s id m) ?_ ?_
  · rintro s rfl id p m phase
    cases phase
  · intro τ s a s' _ read step id p m phase snapshot
    cases snapshot_of_next step phase snapshot with
    | inl before =>
        obtain ⟨q, phase, snapshot⟩ := before
        exact (read id q m phase snapshot).step step
    | inr now =>
        obtain ⟨rfl, same, n, b, current, rfl⟩ := now
        refine ⟨τ, _, [], rfl, rfl, ?_⟩
        intro _ n' b' build
        rw [same, current] at build
        cases build
        rfl

/-- Where no build is put in between, a call takes the build whose metadata it has read. -/
theorem takesOwn_of_run (run : Run (submitting api) τ s) (uninterrupted : Uninterrupted τ) :
    ∀ t ∈ τ, TakesOwn t := by
  intro u mem id innerSeal m n b label phase current
  obtain ⟨τ₀, τ₃, rfl⟩ := List.append_of_mem mem
  obtain ⟨before, -⟩ := run.upTo rfl
  obtain ⟨τ₁, t, τ₂, rfl, read, same⟩ := readSince_of_run before id _ m phase rfl
  exact same (uninterrupted τ₁ t τ₂ u τ₃ id rfl read label) n b current

/-- Builds that are all put in before a call reads interrupt none. -/
theorem uninterrupted_of_append {τ₁ τ₂ : List (Transition (State H) (Action H))}
    (unread : ∀ t ∈ τ₁, ∀ id, t.label ≠ .readMetadata id)
    (quiet : ∀ t ∈ τ₂, ∀ build, t.label ≠ .swapBuild (some build)) :
    Uninterrupted (τ₁ ++ τ₂) := by
  intro ρ₁ t ρ₂ u ρ₃ id split read _ v mem
  rw [List.append_assoc, List.append_eq_append_iff] at split
  cases split with
  | inl after =>
      obtain ⟨rest, -, rfl⟩ := after
      exact quiet v (by simp [mem])
  | inr within =>
      obtain ⟨rest, rfl, both⟩ := within
      cases rest with
      | nil =>
          rw [List.nil_append] at both
          exact quiet v (by simp [← both, mem])
      | cons t' rest =>
          obtain rfl := (List.cons.inj both).1
          exact absurd read (unread t (by simp) id)

/-- No build is taken twice, and none by a call whose seal has not passed on the
metadata it read. If no build is put in while a call is between the two, each block
handed to the import is the build with a seal that passes on it, and only such a seal
removes a build. -/
theorem submissions_of_run (run : Run (submitting api) τ s) :
    ConsumedOnce τ ∧
    (∀ t ∈ τ, t.pre.worker.build ≠ none → t.post.worker.build ≠ t.pre.worker.build →
      RemovedBy api t) ∧
    (Uninterrupted τ →
      (∀ id n b block, s.submissions id = some (.importing n b block) → ∃ innerSeal,
        block = importParams b innerSeal ∧ verifySeal api b.metadata innerSeal = .ok true) ∧
      ∀ t ∈ τ, ∀ id innerSeal m n b, t.label = .takeBuild id →
        t.pre.submissions id = some (.taking innerSeal m) → t.pre.worker.build = some (n, b) →
        verifySeal api b.metadata innerSeal = .ok true) := by
  have history := SubmitHistory.of_run run
  refine ⟨history.once, history.removed, ?_⟩
  intro uninterrupted
  have own := takesOwn_of_run run uninterrupted
  refine ⟨history.attached own, ?_⟩
  intro t ht id innerSeal m n b label phase current
  obtain ⟨earlier, before⟩ := (run.mem_step t ht).1
  obtain rfl := own t ht id innerSeal m n b label phase current
  exact (SubmitHistory.of_run before).verified id innerSeal _ phase

namespace Mock

def accepting (preHash : ℕ) : QPoWApi ℕ :=
  ⟨fun _ => some 4, fun _ h _ => some (decide (h = preHash))⟩

def build (preHash : ℕ) : MiningBuild ℕ :=
  ⟨⟨1, preHash, none, 4⟩, ⟨1, 1, preHash, 0, []⟩, []⟩

def nonce : Seal := List.replicate 64 1

def state (version : ℕ) (current : Option (ℕ × MiningBuild ℕ)) (locked : Bool) (builds : ℕ) :
    State ℕ := ⟨⟨version, current, locked⟩, builds, fun _ => none⟩

/-- The first build is current, and call 0 has verified its seal on it. -/
def verified : State ℕ :=
  ((state 1 (some (0, build 10)) false 1).put 0 (.called nonce)
    |>.put 0 (.verifying nonce (build 10).metadata)).put 0 (.taking nonce (build 10).metadata)

theorem verified_run : ∃ τ₁ τ₂, Run (submitting (accepting 10)) (τ₁ ++ τ₂) verified ∧
    (∀ t ∈ τ₁, ∀ id, t.label ≠ .readMetadata id) ∧
    ∀ t ∈ τ₂, ∀ build, t.label ≠ .swapBuild (some build) := by
  have start : Run (submitting (accepting 10)) [] (state 0 none false 0) := .start rfl
  have swapped : Run (submitting (accepting 10)) _ (state 0 (some (0, build 10)) true 1) :=
    start.extend (l := .swapBuild (some (build 10))) (by rfl)
  have bumped : Run (submitting (accepting 10)) _ (state 1 (some (0, build 10)) false 1) :=
    swapped.extend (l := .incrementVersion) (by rfl)
  have called := bumped.extend (l := .submit 0 nonce) (by rfl)
  have read := called.extend (l := .readMetadata 0) (by rfl)
  have passed : Run (submitting (accepting 10)) _ verified := read.extend (l := .verify 0) (by rfl)
  rw [List.append_assoc] at passed
  refine ⟨_, _, passed, ?_, ?_⟩
  · simp
  · simp

def attachedOwn : State ℕ :=
  State.put { verified with worker := ⟨2, none, false⟩ } 0
    (.importing 0 (build 10) (importParams (build 10) nonce))

/-- The second build has replaced the first one. -/
def replaced : State ℕ := { verified with worker := ⟨2, some (1, build 20), false⟩, builds := 2 }

/-- Call 0 takes the second build with the seal of the first. -/
def attachedOther : State ℕ :=
  State.put { replaced with worker := ⟨3, none, false⟩ } 0
    (.importing 1 (build 20) (importParams (build 20) nonce))

end Mock

open Mock

theorem submissions_of_run_own : ∃ innerSeal,
    importParams (build 10) nonce = importParams (build 10) innerSeal ∧
      verifySeal (accepting 10) (build 10).metadata innerSeal = .ok true := by
  obtain ⟨τ₁, τ₂, run, unread, quiet⟩ := verified_run
  have taken : Run (submitting (accepting 10)) _ attachedOwn :=
    run.extend (l := .takeBuild 0) (by rfl)
  rw [List.append_assoc] at taken
  have attached : attachedOwn.submissions 0 =
      some (.importing 0 (build 10) (importParams (build 10) nonce)) := by
    simp [attachedOwn, State.put]
  have uninterrupted := uninterrupted_of_append unread
    (forall_mem_snoc (t := ⟨verified, .takeBuild 0, attachedOwn⟩) quiet (by simp))
  exact ((submissions_of_run taken).2.2 uninterrupted).1 0 0 _ _ attached

/-- A seal verified on the first build is attached to the second one, on which it
is not valid, and the second build is gone. -/
theorem stale_seal_attached : ∃ τ, Run (submitting (accepting 10)) τ attachedOther ∧
    attachedOther.submissions 0 =
      some (.importing 1 (build 20) (importParams (build 20) nonce)) ∧
    verifySeal (accepting 10) (build 20).metadata nonce = .ok false ∧
    replaced.worker.build = some (1, build 20) ∧ attachedOther.worker.build = none := by
  obtain ⟨τ₁, τ₂, run, -, -⟩ := verified_run
  have swapped : Run (submitting (accepting 10)) _
      { verified with worker := ⟨1, some (1, build 20), true⟩, builds := 2 } :=
    run.extend (l := .swapBuild (some (build 20))) (by rfl)
  have bumped : Run (submitting (accepting 10)) _ replaced :=
    swapped.extend (l := .incrementVersion) (by rfl)
  have taken : Run (submitting (accepting 10)) _ attachedOther :=
    bumped.extend (l := .takeBuild 0) (by rfl)
  refine ⟨_, taken, ?_, by decide, rfl, rfl⟩
  simp [attachedOther, State.put]

end Resonance.Submitting
