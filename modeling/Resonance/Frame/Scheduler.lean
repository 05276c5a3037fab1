import Resonance.Foundation.StorageMap
import Resonance.Frame.Primitives

/-!
The named tasks of the scheduler.

The scheduler belongs to FRAME; what a pallet relies on is a structure with its
laws. `schedule_named` refuses a name that is in use and a block that is not
ahead, and may refuse for reasons of its own; when it succeeds it adds that one
task. `cancel_named` fails on an unknown name and on nothing else. A live task is
an entry of a map keyed by the name.
-/
namespace Resonance
open Storage

structure ScheduledTask (A C : Type) where
  /-- `DispatchTime::At` -/
  when : ℕ
  origin : RawOrigin A
  call : C
deriving DecidableEq

abbrev Tasks (N A C : Type) := StorageMap N (ScheduledTask A C)

structure NamedScheduler (N A C : Type) [DecidableEq N] where
  scheduleNamed : (now : ℕ) → N → ScheduledTask A C → Storage SchedulerError (Tasks N A C) PUnit
  cancelNamed : N → Storage SchedulerError (Tasks N A C) PUnit
  scheduleNamed_adds : ∀ {now name task tasks tasks'},
    exec (scheduleNamed now name task) tasks = (.ok ⟨⟩, tasks') →
      tasks.lookup name = none ∧ now < task.when ∧ tasks' = tasks.insert name task
  cancelNamed_ok_iff : ∀ {name tasks tasks'},
    exec (cancelNamed name) tasks = (.ok ⟨⟩, tasks') ↔
      (tasks.lookup name).isSome ∧ tasks.erase name = tasks'

namespace NamedScheduler
variable {N A C : Type} [DecidableEq N]

/-- The scheduler whose agendas never fill up. -/
def roomy : NamedScheduler N A C where
  scheduleNamed now name task := do
    let tasks ← get
    ensure ((tasks.lookup name).isNone) .failedToSchedule
    ensure (now < task.when) .targetBlockNumberInPast
    set (tasks.insert name task)
  cancelNamed name := do
    let tasks ← get
    ensure ((tasks.lookup name).isSome) .notFound
    set (tasks.erase name)
  scheduleNamed_adds {now name task tasks tasks'} run := by
    rw [exec_get_bind] at run
    obtain ⟨free, run⟩ := ensure_bind_ok_iff.mp run
    obtain ⟨ahead, run⟩ := ensure_bind_ok_iff.mp run
    rw [exec_set] at run
    exact ⟨Option.isNone_iff_eq_none.mp free, ahead, (Prod.mk.inj run).2.symm⟩
  cancelNamed_ok_iff {name tasks tasks'} := by
    rw [exec_get_bind, ensure_bind_ok_iff, exec_set]
    simp

end NamedScheduler
end Resonance
