import Mathlib.Data.List.Sort

/-!
Order statistics of a list.

The entry of rank `k` is told by counting: at most `k` entries are below it,
and more than `k` are not above it. Counting does not see the order of the
list, so a rearrangement has the same ranks, and two entries of one rank are
equal. Where the list is sorted the entry of rank `k` stands at place `k`.
-/
namespace OrderStatistics
open scoped List
universe u
variable {α : Type u} [LinearOrder α] {l l' : List α} {k : ℕ} {a b : α}

/-- `a` is the entry of rank `k`, the smallest having rank zero. -/
structure HasRank (k : ℕ) (l : List α) (a : α) : Prop where
  below : l.countP (fun x => x < a) ≤ k
  upTo : k < l.countP (fun x => x ≤ a)

theorem HasRank.of_perm (h : HasRank k l a) (perm : l ~ l') : HasRank k l' a where
  below := by
    rw [← perm.countP_eq]
    exact h.below
  upTo := by
    rw [← perm.countP_eq]
    exact h.upTo

private theorem HasRank.not_lt (h : HasRank k l a) (h' : HasRank k l b) : ¬ a < b := by
  intro lt
  have fewer : l.countP (fun x => x ≤ a) ≤ l.countP (fun x => x < b) := by
    refine List.countP_mono_left ?_
    intro x _ upTo
    rw [decide_eq_true_iff] at upTo ⊢
    exact lt_of_le_of_lt upTo lt
  have below := h'.below
  have upTo := h.upTo
  omega

theorem HasRank.unique (h : HasRank k l a) (h' : HasRank k l b) : a = b := by
  rcases lt_trichotomy a b with lt | eq | gt
  · exact absurd lt (h.not_lt h')
  · exact eq
  · exact absurd gt (h'.not_lt h)

theorem hasRank_getElem (sorted : l.SortedLE) (hk : k < l.length) :
    HasRank k l l[k] where
  below := by
    have none : (l.drop k).countP (fun x => x < l[k]) = 0 := by
      rw [List.countP_eq_zero]
      intro x hx
      obtain ⟨i, hi, rfl⟩ := List.getElem_of_mem hx
      rw [List.getElem_drop, decide_eq_true_iff, not_lt]
      exact sorted.getElem_le_getElem_of_le (Nat.le_add_right k i)
    calc l.countP (fun x => x < l[k])
        = (l.take k).countP (fun x => x < l[k]) + (l.drop k).countP (fun x => x < l[k]) := by
          rw [← List.countP_append, List.take_append_drop]
      _ ≤ (l.take k).length := by
          rw [none, Nat.add_zero]
          exact List.countP_le_length
      _ ≤ k := List.length_take_le k l
  upTo := by
    have all : (l.take (k + 1)).countP (fun x => x ≤ l[k]) = (l.take (k + 1)).length := by
      rw [List.countP_eq_length]
      intro x hx
      obtain ⟨i, hi, rfl⟩ := List.getElem_of_mem hx
      rw [List.length_take] at hi
      rw [List.getElem_take, decide_eq_true_iff]
      exact sorted.getElem_le_getElem_of_le (by omega)
    have more : (l.take (k + 1)).countP (fun x => x ≤ l[k]) ≤ l.countP (fun x => x ≤ l[k]) :=
      (List.take_sublist _ _).countP_le
    rw [all, List.length_take, Nat.min_eq_left hk] at more
    exact more

/-- Sorting puts the entry of rank `k` at place `k`. -/
theorem hasRank_mergeSort (l : List α) (hk : k < l.mergeSort.length) :
    HasRank k l l.mergeSort[k] := by
  exact (hasRank_getElem List.sortedLE_mergeSort hk).of_perm (List.mergeSort_perm l _)

end OrderStatistics
