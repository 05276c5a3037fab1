import Mathlib.Data.Nat.Notation
/-!
`while` loops over a state.

A loop is its guard and its body. It is run for a number of rounds it may take,
and gives nothing if the guard still holds after them. An invariant of the body
holds at the exit; a bound on the rounds left, which every round lowers by one,
makes the loop exit. No lemma here depends on how the bound is found.
-/
namespace WhileLoops

structure Loop (σ : Type) where
  guard : σ → Bool
  body : σ → σ

namespace Loop
variable {σ : Type}

/-- The state at the exit, if it is reached in at most `rounds` rounds. -/
def within (l : Loop σ) : (rounds : ℕ) → σ → Option σ
  | 0, s => if l.guard s then none else some s
  | rounds + 1, s => if l.guard s then l.within rounds (l.body s) else some s

variable {l : Loop σ} {rounds : ℕ} {s s' : σ}

theorem within_of_not_guard (h : l.guard s = false) : l.within rounds s = some s := by
  cases rounds with
  | zero => simp [within, h]
  | succ rounds => simp [within, h]

theorem within_zero_of_guard (h : l.guard s = true) : l.within 0 s = none := by
  simp [within, h]

theorem within_succ_of_guard (h : l.guard s = true) :
    l.within (rounds + 1) s = l.within rounds (l.body s) := by
  simp [within, h]

/-- What the body preserves while the guard holds, holds at the exit. -/
theorem within_invariant (inv : σ → Prop)
    (preserved : ∀ s, l.guard s → inv s → inv (l.body s)) (start : inv s)
    (exit : l.within rounds s = some s') : inv s' := by
  induction rounds generalizing s with
  | zero =>
      cases guard : l.guard s with
      | true => simp [within_zero_of_guard guard] at exit
      | false =>
          rw [within_of_not_guard guard] at exit
          cases exit
          exact start
  | succ rounds ih =>
      cases guard : l.guard s with
      | true =>
          rw [within_succ_of_guard guard] at exit
          exact ih (preserved s guard start) exit
      | false =>
          rw [within_of_not_guard guard] at exit
          cases exit
          exact start

/-- A bound on the rounds left that every round lowers is enough rounds, and the
guard fails at the exit. -/
theorem within_exits (bound : ℕ → σ → Prop) (done : ∀ s, bound 0 s → l.guard s = false)
    (lowered : ∀ k s, l.guard s → bound (k + 1) s → bound k (l.body s))
    (enough : bound rounds s) : ∃ s', l.within rounds s = some s' ∧ l.guard s' = false := by
  induction rounds generalizing s with
  | zero => exact ⟨s, within_of_not_guard (done s enough), done s enough⟩
  | succ rounds ih =>
      cases guard : l.guard s with
      | true =>
          rw [within_succ_of_guard guard]
          exact ih (lowered rounds s guard enough)
      | false => exact ⟨s, within_of_not_guard guard, guard⟩

/-- A function that a round leaves unchanged has its first value at the exit. -/
theorem within_unroll {α : Type} (f : σ → α) (unroll : ∀ s, l.guard s → f (l.body s) = f s)
    (exit : l.within rounds s = some s') : f s' = f s := by
  refine within_invariant (fun t => f t = f s) ?_ rfl exit
  intro t guard same
  rw [unroll t guard, same]

end Loop
end WhileLoops
