import Mathlib.Algebra.BigOperators.Group.List.Basic
import Mathlib.Algebra.BigOperators.Group.Multiset.Basic
import Mathlib.Algebra.Order.Ring.Nat
import Mathlib.Data.List.DropRight
import Mathlib.Order.Interval.Finset.Nat

/-!
Ring buffers of a fixed capacity, and series of differences.

A ring writes at its index and moves the index on, wrapping at the capacity.
What it means is the list of everything written so far: the slots hold its last
`capacity` entries, the index is its length modulo the capacity. The slots in
use are then a rearrangement of the window, the tail of that list.

What is written may be the differences of a series. Those of a nondecreasing one
telescope: from any position on they add up to the last entry less the entry at
that position.
-/
universe u

structure RingBuffer (α : Type u) where
  slots : ℕ → α
  index : ℕ
  size : ℕ

namespace RingBuffer
open scoped List
variable {α : Type u} {cap : ℕ} {r : RingBuffer α} {written : List α}

def push (cap : ℕ) (x : α) (r : RingBuffer α) : RingBuffer α where
  slots := Function.update r.slots r.index x
  index := (r.index + 1) % cap
  size := if r.size < cap then r.size + 1 else cap

/-- The slots in use, in the order of their indices. -/
def contents (r : RingBuffer α) : List α := (List.range r.size).map r.slots

/-- The last `cap` entries of a list. -/
def window (cap : ℕ) (written : List α) : List α := written.drop (written.length - cap)

/-- The ring after the entries of a list were written to an empty one. -/
structure Holds (cap : ℕ) (r : RingBuffer α) (written : List α) : Prop where
  index_eq : r.index = written.length % cap
  size_eq : r.size = min written.length cap
  slot_eq : ∀ i, written.length ≤ i + cap → ∀ x, written[i]? = some x → r.slots (i % cap) = x

theorem length_window (cap : ℕ) (written : List α) :
    (window cap written).length = min written.length cap := by
  simp only [window]
  rw [List.length_drop]
  omega

theorem Holds.empty {r : RingBuffer α} (index : r.index = 0) (size : r.size = 0) :
    Holds cap r [] where
  index_eq := by simp [index]
  size_eq := by simp [size]
  slot_eq := by simp

theorem Holds.index_lt (h : Holds cap r written) (pos : 0 < cap) : r.index < cap := by
  rw [h.index_eq]
  exact Nat.mod_lt _ pos

/-- Two entries of the window never share a slot. -/
private theorem mod_ne {n i : ℕ} (recent : n + 1 ≤ i + cap) (hi : i < n) : i % cap ≠ n % cap := by
  intro same
  have gap : (n - i) % cap = 0 := Nat.sub_mod_eq_zero_of_mod_eq same.symm
  rw [Nat.mod_eq_of_lt (by omega)] at gap
  omega

theorem Holds.push (h : Holds cap r written) (x : α) :
    Holds cap (push cap x r) (written ++ [x]) where
  index_eq := by
    simp [RingBuffer.push, h.index_eq]
  size_eq := by
    simp only [RingBuffer.push, h.size_eq, List.length_append, List.length_singleton]
    split <;> omega
  slot_eq := by
    intro i recent y hy
    rw [List.length_append, List.length_singleton] at recent
    rcases Nat.lt_trichotomy i written.length with old | rfl | beyond
    · rw [List.getElem?_append_left old] at hy
      simp only [RingBuffer.push, h.index_eq]
      rw [Function.update_of_ne (mod_ne recent old)]
      exact h.slot_eq i (by omega) y hy
    · rw [List.getElem?_concat_length] at hy
      simp only [RingBuffer.push, h.index_eq, Function.update_self]
      exact Option.some.inj hy
    · rw [List.getElem?_eq_none (by simpa using Nat.succ_le_of_lt beyond)] at hy
      cases hy

/-- The window, read slot by slot from its oldest entry on. -/
private theorem Holds.window_eq (h : Holds cap r written) (full : cap ≤ written.length) :
    window cap written =
      (List.range' (written.length - cap) cap).map fun i => r.slots (i % cap) := by
  refine List.ext_getElem ?_ ?_
  · rw [length_window, List.length_map, List.length_range']
    exact min_eq_right full
  · intro i hi hi'
    simp only [window, List.getElem_drop, List.getElem_map, List.getElem_range', one_mul]
    exact (h.slot_eq _ (by omega) _ (List.getElem?_eq_getElem _)).symm

private theorem Holds.contents_eq (h : Holds cap r written) (fits : written.length < cap) :
    r.contents = window cap written := by
  have all : window cap written = written := by
    rw [window, Nat.sub_eq_zero_of_le fits.le, List.drop_zero]
  rw [all]
  refine List.ext_getElem ?_ ?_
  · simp [contents, h.size_eq, fits.le]
  · intro i hi hi'
    simp only [contents, List.getElem_map, List.getElem_range]
    have slot := h.slot_eq i (by omega) _ (List.getElem?_eq_getElem hi')
    rwa [Nat.mod_eq_of_lt (hi'.trans fits)] at slot

/-- The slots in use hold the window. -/
theorem Holds.contents_perm (h : Holds cap r written) : r.contents ~ window cap written := by
  rcases Nat.lt_or_ge written.length cap with fits | full
  · rw [h.contents_eq fits]
  · have size : r.size = cap := by
      rw [h.size_eq]
      exact min_eq_right full
    have wrapped : (List.range' (written.length - cap) cap).map (· % cap) ~ List.range cap := by
      have ico := Nat.multiset_Ico_map_mod (written.length - cap) cap
      rw [Multiset.Ico, Nat.Ico_eq_range', Nat.add_sub_cancel_left] at ico
      exact Multiset.coe_eq_coe.1 ico
    rw [h.window_eq full, contents, size]
    have read := wrapped.map r.slots
    rw [List.map_map] at read
    exact read.symm

end RingBuffer

namespace Differences

def differences : List ℕ → List ℕ
  | a :: b :: l => (b - a) :: differences (b :: l)
  | _ => []

@[simp] theorem length_differences (l : List ℕ) : (differences l).length = l.length - 1 := by
  induction l with
  | nil => rfl
  | cons a l ih =>
      cases l with
      | nil => rfl
      | cons b l => simpa [differences] using ih

theorem differences_snoc (l : List ℕ) (a b : ℕ) :
    differences (l ++ [a] ++ [b]) = differences (l ++ [a]) ++ [b - a] := by
  induction l with
  | nil => rfl
  | cons c l ih =>
      cases l with
      | nil => rfl
      | cons d l => simpa [differences] using ih

theorem drop_differences (l : List ℕ) (n : ℕ) :
    (differences l).drop n = differences (l.drop n) := by
  induction n generalizing l with
  | zero => rfl
  | succ n ih =>
      match l with
      | [] => rfl
      | [a] => simp [differences]
      | a :: b :: l => exact ih (b :: l)

theorem sum_differences {a : ℕ} {l : List ℕ} (sorted : (a :: l).Pairwise (· ≤ ·)) :
    (differences (a :: l)).sum + a = (a :: l).getLast (List.cons_ne_nil a l) := by
  induction l generalizing a with
  | nil => simp [differences]
  | cons b l ih =>
      rw [List.pairwise_cons] at sorted
      have step := sorted.1 b List.mem_cons_self
      have rest := ih sorted.2
      rw [differences, List.sum_cons, List.getLast_cons (List.cons_ne_nil b l), ← rest]
      omega

/-- The differences from a position on telescope. -/
theorem sum_drop_differences {l : List ℕ} (sorted : l.Pairwise (· ≤ ·)) {n : ℕ}
    (h : n < l.length) :
    ((differences l).drop n).sum = l.getLast (List.ne_nil_of_length_pos (by omega)) - l[n] := by
  have rest := sorted.sublist (List.drop_sublist n l)
  rw [List.drop_eq_getElem_cons h] at rest
  have sum := sum_differences rest
  rw [drop_differences, List.drop_eq_getElem_cons h]
  have last : (l[n] :: l.drop (n + 1)).getLast (List.cons_ne_nil _ _) =
      l.getLast (List.ne_nil_of_length_pos (by omega)) := by
    simp only [← List.drop_eq_getElem_cons h]
    exact List.getLast_drop _
  omega

end Differences
