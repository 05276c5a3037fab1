import Mathlib.Data.List.AList
import Mathlib.Algebra.BigOperators.Group.List.Basic
import Mathlib.Algebra.GroupWithZero.Nat
import Mathlib.Algebra.Order.BigOperators.Group.List

/-!
Finite maps and sums over their entries.

The maps are Mathlib's association lists. `total` adds up a weight over the
entries; writing or removing one key changes it by the weights of that key
alone, which is what every accounting argument over a map needs.
-/
universe u v

abbrev StorageMap (K : Type u) (V : Type v) := AList fun _ : K => V

namespace StorageMap
variable {K : Type u} {V : Type v} [DecidableEq K]

def total (f : K → V → ℕ) (m : StorageMap K V) : ℕ :=
  (m.entries.map fun e => f e.1 e.2).sum

/-- The weight of one key, zero when it is absent. -/
def weight (f : K → V → ℕ) (m : StorageMap K V) (k : K) : ℕ :=
  match m.lookup k with
  | some v => f k v
  | none => 0

theorem lookup_insert_eq_ite (m : StorageMap K V) (k k' : K) (v : V) :
    (m.insert k v).lookup k' = if k' = k then some v else m.lookup k' := by
  split
  next h => rw [h, AList.lookup_insert]
  next h => exact AList.lookup_insert_ne h

theorem lookup_erase_eq_ite (m : StorageMap K V) (k k' : K) :
    (m.erase k).lookup k' = if k' = k then none else m.lookup k' := by
  split
  next h => rw [h, AList.lookup_erase]
  next h => exact AList.lookup_erase_ne h

private theorem sum_kerase (f : K → V → ℕ) (k : K) (l : List (Sigma fun _ : K => V)) :
    ((l.kerase k).map fun e => f e.1 e.2).sum +
        (match l.dlookup k with | some v => f k v | none => 0) =
      (l.map fun e => f e.1 e.2).sum := by
  induction l with
  | nil => simp
  | cons e l ih =>
      obtain ⟨k', v⟩ := e
      by_cases h : k = k'
      · subst h
        simp [List.kerase_cons_eq, Nat.add_comm]
      · rw [List.kerase_cons_ne (by simpa using h), List.dlookup_cons_ne _ _ (by simpa using h)]
        simp only [List.map_cons, List.sum_cons]
        omega

theorem total_erase (f : K → V → ℕ) (m : StorageMap K V) (k : K) :
    total f (m.erase k) + weight f m k = total f m :=
  sum_kerase f k m.entries

theorem total_insert (f : K → V → ℕ) (m : StorageMap K V) (k : K) (v : V) :
    total f (m.insert k v) + weight f m k = total f m + f k v := by
  have h := total_erase f m k
  have hi : total f (m.insert k v) = f k v + total f (m.erase k) := by
    have rest : (m.erase k).entries = m.entries.kerase k := rfl
    simp [total, AList.entries_insert, rest]
  omega

theorem weight_of_lookup {f : K → V → ℕ} {m : StorageMap K V} {k : K} {v : V}
    (h : m.lookup k = some v) : weight f m k = f k v := by
  simp [weight, h]

theorem weight_of_lookup_none {f : K → V → ℕ} {m : StorageMap K V} {k : K}
    (h : m.lookup k = none) : weight f m k = 0 := by
  simp [weight, h]

theorem total_congr {f g : K → V → ℕ} {m : StorageMap K V}
    (h : ∀ k v, m.lookup k = some v → f k v = g k v) : total f m = total g m := by
  simp only [total]
  congr 1
  apply List.map_congr_left
  intro e he
  exact h e.1 e.2 (AList.mem_lookup_iff.mpr he)

theorem weight_le_total (f : K → V → ℕ) (m : StorageMap K V) (k : K) :
    weight f m k ≤ total f m := by
  have h := total_erase f m k
  omega

end StorageMap
