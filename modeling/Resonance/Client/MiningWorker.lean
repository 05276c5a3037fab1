import Resonance.Client.PowImport
import Resonance.Foundation.StateMachine

/-!
The state the clones of a `MiningHandle` share.

The build sits behind a mutex. `on_build` and `on_major_syncing` take it, change
the build, bump the version and let go of it, and `submit` does the same when it
takes the build. `metadata` takes the mutex too, `version` does not: it can see
the old version of a build that has already been changed.
-/
namespace Resonance
variable {H B : Type}

structure MiningMetadata (H : Type) where
  bestHash : H
  preHash : H
  preRuntime : Option (List UInt8)
  difficulty : ℕ
deriving DecidableEq

structure MiningBuild (H : Type) where
  metadata : MiningMetadata H
  header : Header H
  body : List (List UInt8)
deriving DecidableEq

structure MiningWorker (B : Type) where
  version : ℕ
  build : Option B
  /-- A call holds the mutex, has changed the build and not yet the version. -/
  locked : Bool
deriving DecidableEq

def MiningWorker.new : MiningWorker B := ⟨0, none, false⟩

/-- The first half of `on_build` and `on_major_syncing`: mutex and build. -/
def MiningWorker.swap (worker : MiningWorker B) (value : Option B) : Option (MiningWorker B) :=
  if worker.locked then none else some { worker with build := value, locked := true }

/-- The second half: version and mutex. The version is a `usize` and wraps. -/
def MiningWorker.incrementVersion (worker : MiningWorker B) : Option (MiningWorker B) :=
  if worker.locked then
    some { worker with version := (worker.version + 1) % 2 ^ 64, locked := false }
  else none

/-- `submit` taking the build out, in one critical section. -/
def MiningWorker.takeBuild (worker : MiningWorker B) : Option (Option B × MiningWorker B) :=
  if worker.locked then none
  else match worker.build with
    | none => some (none, worker)
    | some build =>
        some (some build, { worker with version := (worker.version + 1) % 2 ^ 64, build := none })

/-- What a call that waits for the mutex reads; `none` while it waits. -/
def MiningWorker.read (worker : MiningWorker B) : Option (Option B) :=
  if worker.locked then none else some worker.build

theorem MiningWorker.read_eq_some_iff {worker : MiningWorker B} {value : Option B} :
    worker.read = some value ↔ worker.locked = false ∧ worker.build = value := by
  simp only [read]
  cases worker.locked <;> simp

theorem MiningWorker.swap_eq_some_iff {worker worker' : MiningWorker B} {value : Option B} :
    worker.swap value = some worker' ↔ worker.locked = false ∧
      { worker with build := value, locked := true } = worker' := by
  simp only [swap]
  cases worker.locked <;> simp

theorem MiningWorker.incrementVersion_eq_some_iff {worker worker' : MiningWorker B} :
    worker.incrementVersion = some worker' ↔ worker.locked = true ∧
      { worker with version := (worker.version + 1) % 2 ^ 64, locked := false } = worker' := by
  simp only [incrementVersion]
  cases worker.locked <;> simp

theorem MiningWorker.takeBuild_eq_some_iff {worker worker' : MiningWorker B} {taken : Option B} :
    worker.takeBuild = some (taken, worker') ↔ worker.locked = false ∧ worker.build = taken ∧
      worker'.build = none ∧ worker'.locked = false ∧
      worker'.version = if taken.isSome then (worker.version + 1) % 2 ^ 64 else worker.version := by
  obtain ⟨version, build, locked⟩ := worker
  obtain ⟨version', build', locked'⟩ := worker'
  simp only [takeBuild]
  cases locked with
  | true => simp
  | false =>
      cases build with
      | none =>
          cases taken with
          | none => simp; grind
          | some b => simp
      | some b =>
          cases taken with
          | none => simp
          | some b' => simp; grind

end Resonance
