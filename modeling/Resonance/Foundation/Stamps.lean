import Mathlib.Data.List.Nodup

/-!
Marks stamped with a counter.

A history is a list of ticks, resets and marks. A tick advances the counter, a reset
takes it back to zero, and a mark is stamped with what the counter shows. Stamped marks
are distinct exactly if equal marks are made when the counter shows different values.
Marks of several owners, each with a counter of their own, are distinct exactly if each
owner's are.
-/
namespace Stamps
universe u v
variable {A : Type u} {M : Type v}

inductive Entry (M : Type v)
  | tick
  | reset
  | mark (m : M)

/-- The counter after a history. -/
def advance (n : ℕ) : List (Entry M) → ℕ
  | [] => n
  | .tick :: es => advance (n + 1) es
  | .reset :: es => advance 0 es
  | .mark _ :: es => advance n es

/-- The marks of a history, each with the counter. -/
def stamp (n : ℕ) : List (Entry M) → List (ℕ × M)
  | [] => []
  | .tick :: es => stamp (n + 1) es
  | .reset :: es => stamp 0 es
  | .mark m :: es => (n, m) :: stamp n es

/-- Equal marks are made when the counter shows different values. -/
def Spaced (n : ℕ) (es : List (Entry M)) : Prop :=
  ∀ p q r m, es = p ++ .mark m :: q ++ .mark m :: r → advance n p ≠ advance n (p ++ .mark m :: q)

variable {n k : ℕ} {es es' : List (Entry M)} {m : M}

theorem advance_append : advance n (es ++ es') = advance (advance n es) es' := by
  induction es generalizing n with
  | nil => rfl
  | cons e es ih =>
      cases e with
      | tick => exact ih
      | reset => exact ih
      | mark m => exact ih

theorem stamp_append : stamp n (es ++ es') = stamp n es ++ stamp (advance n es) es' := by
  induction es generalizing n with
  | nil => rfl
  | cons e es ih =>
      cases e with
      | tick => exact ih
      | reset => exact ih
      | mark m => exact congrArg (List.cons _) ih

@[simp] theorem advance_marks (ms : List M) : advance n (ms.map .mark) = n := by
  induction ms with
  | nil => rfl
  | cons m ms ih => exact ih

@[simp] theorem stamp_marks (ms : List M) : stamp n (ms.map .mark) = ms.map fun m => (n, m) := by
  induction ms with
  | nil => rfl
  | cons m ms ih => exact congrArg (List.cons _) ih

/-- Where a stamped mark comes from. -/
theorem stamp_eq_append {before after : List (ℕ × M)}
    (h : stamp n es = before ++ (k, m) :: after) :
    ∃ p q, es = p ++ .mark m :: q ∧ stamp n p = before ∧ advance n p = k ∧ stamp k q = after := by
  induction es generalizing n before with
  | nil =>
      rw [stamp] at h
      simp at h
  | cons e es ih =>
      cases e with
      | tick =>
          obtain ⟨p, q, rfl, earlier, counter, later⟩ := ih h
          exact ⟨.tick :: p, q, rfl, earlier, counter, later⟩
      | reset =>
          obtain ⟨p, q, rfl, earlier, counter, later⟩ := ih h
          exact ⟨.reset :: p, q, rfl, earlier, counter, later⟩
      | mark m' =>
          cases before with
          | nil =>
              obtain ⟨first, rest⟩ := List.cons.inj h
              obtain ⟨rfl, rfl⟩ := Prod.mk.inj first
              exact ⟨[], es, rfl, rfl, rfl, rest⟩
          | cons x before =>
              obtain ⟨rfl, rest⟩ := List.cons.inj h
              obtain ⟨p, q, rfl, earlier, counter, later⟩ := ih rest
              exact ⟨.mark m' :: p, q, rfl, congrArg (List.cons _) earlier, counter, later⟩

theorem Spaced.tail {e : Entry M} (spaced : Spaced n (e :: es)) : Spaced (advance n [e]) es := by
  rintro p q r m rfl
  rw [← advance_append, ← advance_append]
  exact spaced (e :: p) q r m rfl

theorem nodup_stamp_iff : (stamp n es).Nodup ↔ Spaced n es := by
  constructor
  · rintro distinct p q r m rfl same
    rw [stamp_append, stamp_append, advance_append, stamp, stamp, List.append_assoc] at distinct
    have tail := (List.nodup_append.mp distinct).2.1
    refine (List.nodup_cons.mp tail).1 (List.mem_append_right _ ?_)
    rw [advance_append] at same
    rw [← same]
    exact List.mem_cons_self
  · intro spaced
    induction es generalizing n with
    | nil => exact List.nodup_nil
    | cons e es ih =>
        have rest := ih spaced.tail
        cases e with
        | tick => exact rest
        | reset => exact rest
        | mark m =>
            refine List.nodup_cons.mpr ⟨fun again => ?_, rest⟩
            obtain ⟨before, after, split⟩ := List.append_of_mem again
            obtain ⟨p, q, rfl, -, same, -⟩ := stamp_eq_append split
            exact spaced [] p q m rfl same.symm

instance [DecidableEq M] : Decidable (Spaced n es) := decidable_of_iff _ nodup_stamp_iff

/-- A history without marks. -/
theorem spaced_of_unmarked (unmarked : ∀ m, .mark m ∉ es) : Spaced n es := by
  rintro p q r m rfl
  exact absurd (by simp) (unmarked m)

section
variable [DecidableEq A]

/-- The stamped marks of one owner. -/
def ofOwner (a : A) (ks : List (ℕ × A × M)) : List (ℕ × M) :=
  (ks.filter fun k => k.2.1 = a).map fun k => (k.1, k.2.2)

theorem ofOwner_append (a : A) (ks ks' : List (ℕ × A × M)) :
    ofOwner a (ks ++ ks') = ofOwner a ks ++ ofOwner a ks' := by
  simp [ofOwner]

theorem mem_ofOwner_iff {a : A} {ks : List (ℕ × A × M)} :
    (k, m) ∈ ofOwner a ks ↔ (k, a, m) ∈ ks := by
  simp only [ofOwner, List.mem_map, List.mem_filter, decide_eq_true_eq, Prod.mk.injEq]
  constructor
  · rintro ⟨⟨k', a', m'⟩, ⟨mem, rfl⟩, rfl, rfl⟩
    exact mem
  · intro mem
    exact ⟨(k, a, m), ⟨mem, rfl⟩, rfl, rfl⟩

theorem nodup_iff_forall_ofOwner {ks : List (ℕ × A × M)} :
    ks.Nodup ↔ ∀ a, (ofOwner a ks).Nodup := by
  induction ks with
  | nil => exact iff_of_true List.nodup_nil fun _ => List.nodup_nil
  | cons k ks ih =>
      obtain ⟨k, a, m⟩ := k
      have own : ofOwner a ((k, a, m) :: ks) = (k, m) :: ofOwner a ks := by
        simp [ofOwner]
      have other {b : A} (differ : a ≠ b) : ofOwner b ((k, a, m) :: ks) = ofOwner b ks := by
        simp [ofOwner, differ]
      rw [List.nodup_cons, ih]
      constructor
      · intro ⟨fresh, rest⟩ b
        by_cases same : a = b
        · subst same
          rw [own]
          exact List.nodup_cons.mpr ⟨fun again => fresh (mem_ofOwner_iff.mp again), rest a⟩
        · rw [other same]
          exact rest b
      · intro all
        have here := all a
        rw [own] at here
        obtain ⟨fresh, rest⟩ := List.nodup_cons.mp here
        refine ⟨fun again => fresh (mem_ofOwner_iff.mpr again), fun b => ?_⟩
        by_cases same : a = b
        · subst same
          exact rest
        · rw [← other same]
          exact all b

end
end Stamps
