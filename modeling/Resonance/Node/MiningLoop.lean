import Resonance.Client.MiningWorker
import Resonance.Foundation.MachineInt
import Resonance.Foundation.Positional

/-!
The node's mining loop beside the task that makes builds.

One iteration reads the metadata, reads the version, searches (by itself or
through an external miner) and reads the version again before it submits what it
found. A version read after the metadata vouches for them only if the build has
not been changed in between; and a version read while a call holds the mutex
says nothing about the build that call has put in. Outside these two windows the
check is right, until the version wraps around to the one the loop holds.
-/
namespace Resonance.Mining
open MachineInt StateMachine
variable {H : Type}

inductive Phase (H : Type)
  | idle
  | read (metadata : MiningMetadata H)
  | cancelling (metadata : MiningMetadata H) (version : ℕ)
  | fetching (metadata : MiningMetadata H) (version : ℕ)
  | submittingJob (metadata : MiningMetadata H) (version distanceThreshold : ℕ)
  | polling (metadata : MiningMetadata H) (version : ℕ) (jobId : String)
  | rechecking (metadata : MiningMetadata H) (version : ℕ) (jobId : String)
  | searching (metadata : MiningMetadata H) (version : ℕ)
  | found (metadata : MiningMetadata H) (version : ℕ) (innerSeal : Seal)
  | submitting (metadata : MiningMetadata H) (innerSeal : Seal)
  | panicked
deriving DecidableEq

structure State (H : Type) where
  worker : MiningWorker (MiningBuild H)
  phase : Phase H
  nonce : ℕ
  currentJobId : Option String

inductive Action (H : Type)
  /-- The first half of `on_build`, or of `on_major_syncing` if there is no build. -/
  | swapBuild (value : Option (MiningBuild H))
  | incrementVersion
  | readMetadata
  | readVersion
  | cancelMiningJob (ok : Bool)
  | getDistanceThreshold (answer : Option ℕ)
  | submitMiningJob (jobId : String) (ok : Bool)
  | checkMiningResult (answer : Except PUnit (Option Seal))
  | rereadMetadata
  | tryNonce (valid : Bool)
  | checkVersion
  /-- `submit`: whether it took the build, and its answer. -/
  | submit (took accepted : Bool)

/-- `nonce += 1`, after which the loop starts over. -/
def State.nextNonce (s : State H) : State H :=
  match add 512 s.nonce 1 with
  | .ok nonce => { s with nonce := nonce, phase := .idle }
  | .error _ => { s with phase := .panicked }

def metadata (build : Option (MiningBuild H)) : Option (MiningMetadata H) :=
  build.map MiningBuild.metadata

def Phase.held : Phase H → Option (MiningMetadata H × ℕ)
  | .cancelling m v | .fetching m v | .submittingJob m v _ | .polling m v _ | .rechecking m v _
  | .searching m v | .found m v _ => some (m, v)
  | _ => none

theorem held_nextNonce {s : State H} : s.nextNonce.phase.held = none := by
  unfold State.nextNonce
  split <;> rfl

variable [DecidableEq H]

/-- One step, of either task; the loop mines by itself unless `external`. -/
def next (external : Bool) (s : State H) : Action H → Option (State H)
  | .swapBuild value => (s.worker.swap value).map fun worker => { s with worker := worker }
  | .incrementVersion => s.worker.incrementVersion.map fun worker => { s with worker := worker }
  | .readMetadata =>
      match s.phase, s.worker.read.map metadata with
      | .idle, some (some m) => some { s with phase := .read m }
      | .idle, some none => some s
      | _, _ => none
  | .readVersion =>
      match s.phase with
      | .read m =>
          some { s with phase :=
            if external then
              if s.currentJobId.isSome then .cancelling m s.worker.version
              else .fetching m s.worker.version
            else .searching m s.worker.version }
      | _ => none
  | .cancelMiningJob _ =>
      match s.phase with
      | .cancelling m v => some { s with phase := .fetching m v }
      | _ => none
  | .getDistanceThreshold answer =>
      match s.phase, answer with
      | .fetching m v, some threshold => some { s with phase := .submittingJob m v threshold }
      | .fetching _ _, none => some { s with phase := .idle }
      | _, _ => none
  | .submitMiningJob jobId ok =>
      match s.phase with
      | .submittingJob m v _ =>
          some { s with
            currentJobId := some jobId
            phase := if ok then .polling m v jobId else .idle }
      | _ => none
  | .checkMiningResult answer =>
      match s.phase, answer with
      | .polling m v _, .ok (some innerSeal) => some { s with phase := .found m v innerSeal }
      | .polling m v jobId, .ok none => some { s with phase := .rechecking m v jobId }
      | .polling _ _ _, .error _ => some { s with phase := .idle }
      | _, _ => none
  | .rereadMetadata =>
      match s.phase, s.worker.read.map metadata with
      | .rechecking m v jobId, some current =>
          some { s with phase :=
            if (current.map fun c => decide (c.bestHash ≠ m.bestHash)).getD false then .idle
            else .polling m v jobId }
      | _, _ => none
  | .tryNonce valid =>
      match s.phase with
      | .searching m v =>
          if valid then
            some { s with
              phase := .found m v (Positional.toBigEndian 64 s.nonce).toList }
          else some s.nextNonce
      | _ => none
  | .checkVersion =>
      match s.phase with
      | .found m v innerSeal =>
          some { s with phase := if s.worker.version = v then .submitting m innerSeal else .idle }
      | _ => none
  | .submit took accepted =>
      match s.phase with
      | .submitting _ _ =>
          match took with
          | true =>
              match s.worker.takeBuild with
              | some (some _, worker) =>
                  some (if accepted then { s with worker := worker, nonce := 0, phase := .idle }
                    else State.nextNonce { s with worker := worker })
              | _ => none
          | false => if accepted then none else some s.nextNonce
      | _ => none

def mining (H : Type) [DecidableEq H] (external : Bool) : Machine (State H) (Action H) where
  init s := s = ⟨.new, .idle, 0, none⟩
  step s a s' := next external s a = some s'


variable {external : Bool} {s s' : State H} {a : Action H}
  {τ : List (Transition (State H) (Action H))}

/-- Outside the two windows, and with no version coming back: the version is
read while the build is the one whose metadata were, or while that build is on
its way out; it is read again while no call holds the mutex; and it is never
bumped to the version held. -/
def Undisturbed (t : Transition (State H) (Action H)) : Prop :=
  match t.label with
  | .readVersion => ∀ m, t.pre.phase = .read m → t.pre.worker.locked = false →
      metadata t.pre.worker.build = some m
  | .checkVersion => t.pre.worker.locked = false
  | .incrementVersion => ∀ m v, t.pre.phase.held = some (m, v) →
      (t.pre.worker.version + 1) % 2 ^ 64 ≠ v
  | _ => True

/-- While the version is the one held and no call holds the mutex, the metadata
held are those of the current build. -/
def Vouched (s : State H) : Prop :=
  ∀ m v, s.phase.held = some (m, v) → s.worker.version = v → s.worker.locked = false →
    metadata s.worker.build = some m

inductive Effect (s s' : State H) : Action H → Prop
  | swaps (value : Option (MiningBuild H)) : s'.phase = s.phase → s'.worker.locked = true →
      Effect s s' (.swapBuild value)
  | bumps : s'.phase = s.phase → s'.worker.version = (s.worker.version + 1) % 2 ^ 64 →
      Effect s s' .incrementVersion
  | arms (m : MiningMetadata H) : s.phase = .read m → s'.worker = s.worker →
      s'.phase.held = some (m, s.worker.version) → Effect s s' .readVersion
  | keeps (a : Action H) : s'.worker = s.worker → s'.phase.held = s.phase.held → Effect s s' a
  | drops (a : Action H) : s'.phase.held = none → Effect s s' a

omit [DecidableEq H] in
theorem Effect.moves {p : Phase H} (worker : s'.worker = s.worker) (phase : s.phase = p)
    (held : s'.phase.held = p.held) : Effect s s' a := by
  subst phase
  exact .keeps a worker held

theorem effect_of_next (step : next external s a = some s') : Effect s s' a := by
  cases a with
  | swapBuild value =>
      obtain ⟨worker, swapped, rfl⟩ := Option.map_eq_some_iff.1 step
      obtain ⟨-, rfl⟩ := MiningWorker.swap_eq_some_iff.1 swapped
      exact .swaps value rfl rfl
  | incrementVersion =>
      obtain ⟨worker, bumped, rfl⟩ := Option.map_eq_some_iff.1 step
      obtain ⟨-, rfl⟩ := MiningWorker.incrementVersion_eq_some_iff.1 bumped
      exact .bumps rfl rfl
  | readMetadata =>
      dsimp only [next] at step
      split at step
      · cases step
        exact .drops _ rfl
      · cases step
        exact .keeps _ rfl rfl
      · cases step
  | readVersion =>
      dsimp only [next] at step
      split at step
      · rename_i m reading
        cases step
        refine .arms m reading rfl ?_
        cases external <;> cases s.currentJobId <;> rfl
      · cases step
  | cancelMiningJob ok =>
      dsimp only [next] at step
      split at step
      · rename_i phase
        cases step
        exact .moves rfl phase rfl
      · cases step
  | getDistanceThreshold answer =>
      dsimp only [next] at step
      split at step
      · rename_i phase
        cases step
        exact .moves rfl phase rfl
      · cases step
        exact .drops _ rfl
      · cases step
  | submitMiningJob jobId ok =>
      dsimp only [next] at step
      split at step
      · rename_i phase
        cases step
        cases ok with
        | false => exact .drops _ rfl
        | true => exact .moves rfl phase rfl
      · cases step
  | checkMiningResult answer =>
      dsimp only [next] at step
      split at step
      · rename_i phase
        cases step
        exact .moves rfl phase rfl
      · rename_i phase
        cases step
        exact .moves rfl phase rfl
      · cases step
        exact .drops _ rfl
      · cases step
  | rereadMetadata =>
      dsimp only [next] at step
      split at step
      · rename_i phase _
        cases step
        split
        · exact .drops _ rfl
        · exact .moves rfl phase rfl
      · cases step
  | tryNonce valid =>
      dsimp only [next] at step
      split at step
      · rename_i phase
        split at step
        · cases step
          exact .moves rfl phase rfl
        · obtain rfl := Option.some.inj step
          exact .drops _ held_nextNonce
      · cases step
  | checkVersion =>
      dsimp only [next] at step
      split at step
      · cases step
        refine .drops _ ?_
        dsimp only
        split <;> rfl
      · cases step
  | submit took accepted =>
      dsimp only [next] at step
      split at step
      · split at step
        · split at step
          · obtain rfl := Option.some.inj step
            refine .drops _ ?_
            cases accepted with
            | true => rfl
            | false =>
                rw [if_neg Bool.false_ne_true]
                exact held_nextNonce
          · cases step
        · split at step
          · cases step
          · obtain rfl := Option.some.inj step
            exact .drops _ held_nextNonce
      · cases step

theorem Vouched.step (vouched : Vouched s) (undisturbed : Undisturbed ⟨s, a, s'⟩)
    (step : next external s a = some s') : Vouched s' := by
  intro m v held version unlocked
  cases effect_of_next step with
  | swaps value phase locked =>
      rw [locked] at unlocked
      cases unlocked
  | bumps phase bumped =>
      rw [phase] at held
      rw [bumped] at version
      exact absurd version (undisturbed m v held)
  | arms m' reading worker armed =>
      rw [armed] at held
      cases held
      rw [worker] at unlocked ⊢
      exact undisturbed m reading unlocked
  | keeps a worker same =>
      rw [same] at held
      rw [worker] at version unlocked ⊢
      exact vouched m v held version unlocked
  | drops a none =>
      rw [none] at held
      cases held

def CheckPasses (t : Transition (State H) (Action H)) (m : MiningMetadata H) : Prop :=
  t.label = .checkVersion ∧ ∃ v innerSeal, t.pre.phase = .found m v innerSeal ∧
    t.pre.worker.version = v

/-- In an undisturbed run a nonce that passes the check was searched on the
metadata of the current build. -/
theorem checked_metadata_of_run (run : Run (mining H external) τ s)
    (undisturbed : ∀ t ∈ τ, Undisturbed t) :
    ∀ t ∈ τ, ∀ m, CheckPasses t m → metadata t.pre.worker.build = some m := by
  refine (run.guarded_steps (I := Vouched) ?_ ?_ undisturbed).2
  · rintro s rfl m v held
    cases held
  · intro s a s' vouched guard step
    refine ⟨vouched.step guard step, ?_⟩
    rintro m ⟨label, v, innerSeal, found, version⟩
    dsimp only at label found version ⊢
    subst label
    exact vouched m v (by rw [found]; rfl) version guard

namespace Mock

def build (preHash : ℕ) : MiningBuild ℕ :=
  ⟨⟨1, preHash, none, 4⟩, ⟨1, 1, preHash, 0, []⟩, []⟩

def state (version : ℕ) (current : Option (MiningBuild ℕ)) (locked : Bool) (phase : Phase ℕ) :
    State ℕ := ⟨⟨version, current, locked⟩, phase, 0, none⟩

def zeroSeal : Seal := (Positional.toBigEndian 64 0).toList

def held (preHash : ℕ) : MiningMetadata ℕ := (build preHash).metadata

def firstBuild : List (Transition (State ℕ) (Action ℕ)) :=
  [⟨state 0 none false .idle, .swapBuild (some (build 10)), state 0 (some (build 10)) true .idle⟩,
    ⟨state 0 (some (build 10)) true .idle, .incrementVersion,
      state 1 (some (build 10)) false .idle⟩,
    ⟨state 1 (some (build 10)) false .idle, .readMetadata,
      state 1 (some (build 10)) false (.read (held 10))⟩]

theorem firstBuild_run :
    Run (mining ℕ false) firstBuild (state 1 (some (build 10)) false (.read (held 10))) := by
  have start : Run (mining ℕ false) [] (state 0 none false .idle) := .start rfl
  have swapped : Run (mining ℕ false) _ (state 0 (some (build 10)) true .idle) :=
    start.extend (l := .swapBuild (some (build 10))) (by rfl)
  have bumped : Run (mining ℕ false) _ (state 1 (some (build 10)) false .idle) :=
    swapped.extend (l := .incrementVersion) (by rfl)
  exact bumped.extend (by rfl)

/-- A nonce found on the first build, the build staying what it is. -/
def minedFirst : List (Transition (State ℕ) (Action ℕ)) :=
  firstBuild ++
    [⟨state 1 (some (build 10)) false (.read (held 10)), .readVersion,
      state 1 (some (build 10)) false (.searching (held 10) 1)⟩] ++
    [⟨state 1 (some (build 10)) false (.searching (held 10) 1), .tryNonce true,
      state 1 (some (build 10)) false (.found (held 10) 1 zeroSeal)⟩] ++
    [⟨state 1 (some (build 10)) false (.found (held 10) 1 zeroSeal), .checkVersion,
      state 1 (some (build 10)) false (.submitting (held 10) zeroSeal)⟩]

theorem minedFirst_run : Run (mining ℕ false) minedFirst
    (state 1 (some (build 10)) false (.submitting (held 10) zeroSeal)) :=
  ((firstBuild_run.extend (by rfl)).extend (by rfl)).extend (by rfl)

theorem minedFirst_undisturbed : ∀ t ∈ minedFirst, Undisturbed t := by
  simp [minedFirst, firstBuild, Undisturbed, state, metadata, held, Phase.held]

/-- The second build replaces the first one between the two reads. -/
def minedSecond : List (Transition (State ℕ) (Action ℕ)) :=
  firstBuild ++
    [⟨state 1 (some (build 10)) false (.read (held 10)), .swapBuild (some (build 20)),
      state 1 (some (build 20)) true (.read (held 10))⟩] ++
    [⟨state 1 (some (build 20)) true (.read (held 10)), .incrementVersion,
      state 2 (some (build 20)) false (.read (held 10))⟩] ++
    [⟨state 2 (some (build 20)) false (.read (held 10)), .readVersion,
      state 2 (some (build 20)) false (.searching (held 10) 2)⟩] ++
    [⟨state 2 (some (build 20)) false (.searching (held 10) 2), .tryNonce true,
      state 2 (some (build 20)) false (.found (held 10) 2 zeroSeal)⟩] ++
    [⟨state 2 (some (build 20)) false (.found (held 10) 2 zeroSeal), .checkVersion,
      state 2 (some (build 20)) false (.submitting (held 10) zeroSeal)⟩]

theorem minedSecond_run : Run (mining ℕ false) minedSecond
    (state 2 (some (build 20)) false (.submitting (held 10) zeroSeal)) :=
  ((((firstBuild_run.extend (by rfl)).extend (by rfl)).extend (by rfl)).extend
    (by rfl)).extend (by rfl)

end Mock

open Mock

theorem checked_metadata_of_run_first :
    metadata (some (build 10)) = some (held 10) := by
  have passes : CheckPasses ⟨state 1 (some (build 10)) false (.found (held 10) 1 zeroSeal),
      .checkVersion, state 1 (some (build 10)) false (.submitting (held 10) zeroSeal)⟩ (held 10) :=
    ⟨rfl, 1, zeroSeal, rfl, rfl⟩
  exact checked_metadata_of_run minedFirst_run minedFirst_undisturbed _ (by simp [minedFirst]) _
    passes

/-- A nonce searched on the first build passes the check of the second one. -/
theorem stale_check_passes : ∃ t ∈ minedSecond, CheckPasses t (held 10) ∧
    metadata t.pre.worker.build = some (held 20) ∧ held 10 ≠ held 20 ∧
    Run (mining ℕ false) minedSecond
      (state 2 (some (build 20)) false (.submitting (held 10) zeroSeal)) := by
  refine ⟨⟨state 2 (some (build 20)) false (.found (held 10) 2 zeroSeal), .checkVersion,
    state 2 (some (build 20)) false (.submitting (held 10) zeroSeal)⟩, by simp [minedSecond],
    ⟨rfl, 2, zeroSeal, rfl, rfl⟩, rfl, by decide, minedSecond_run⟩

end Resonance.Mining
