import Mathlib.Order.Lattice
import Mathlib.Data.List.Basic

/-!
Keeping the best element of a list seen so far.

The fold replaces its accumulator only by an eligible element with a strictly
larger key, so it ends in the first element of the largest eligible key. Which
element that is depends on the order of the list; its key does not.
-/
namespace FirstMaximum
universe u v
variable {α : Type u} {β : Type v} [LinearOrder β]

def better (key : α → β) (eligible : α → Prop) [DecidablePred eligible] (b x : α) : α :=
  if eligible x ∧ key b < key x then x else b

variable (key : α → β) (eligible : α → Prop) [DecidablePred eligible]

theorem better_congr {eligible' : α → Prop} [DecidablePred eligible']
    (h : ∀ x, eligible x ↔ eligible' x) : better key eligible = better key eligible' := by
  funext b x
  simp only [better, h]

/-- Either nothing eligible beats the start, or the result is the first
element of the largest eligible key. -/
theorem foldl_better (l : List α) (b : α) :
    (l.foldl (better key eligible) b = b ∧ ∀ x ∈ l, eligible x → key x ≤ key b) ∨
    ∃ l₁ l₂, l = l₁ ++ l.foldl (better key eligible) b :: l₂ ∧
      eligible (l.foldl (better key eligible) b) ∧
      key b < key (l.foldl (better key eligible) b) ∧
      (∀ x ∈ l₁, eligible x → key x < key (l.foldl (better key eligible) b)) ∧
      (∀ x ∈ l₂, eligible x → key x ≤ key (l.foldl (better key eligible) b)) := by
  induction l generalizing b with
  | nil => exact .inl ⟨rfl, by simp⟩
  | cons y l ih =>
      rw [List.foldl_cons]
      by_cases hy : eligible y ∧ key b < key y
      · rw [show better key eligible b y = y from if_pos hy]
        rcases ih y with ⟨hr, hmax⟩ | ⟨l₁, l₂, hl, hadm, hlt, h₁, h₂⟩
        · rw [hr]
          exact .inr ⟨[], l, rfl, hy.1, hy.2, by simp, hmax⟩
        · refine .inr ⟨y :: l₁, l₂, congrArg (y :: ·) hl, hadm, hy.2.trans hlt, ?_, h₂⟩
          intro x hx hax
          rcases List.mem_cons.mp hx with rfl | hx
          · exact hlt
          · exact h₁ x hx hax
      · have keep : better key eligible b y = b := if_neg hy
        have hyb : eligible y → key y ≤ key b := fun ha => not_lt.mp fun hlt => hy ⟨ha, hlt⟩
        rw [keep]
        rcases ih b with ⟨hr, hmax⟩ | ⟨l₁, l₂, hl, hadm, hlt, h₁, h₂⟩
        · refine .inl ⟨hr, ?_⟩
          intro x hx hax
          rcases List.mem_cons.mp hx with rfl | hx
          · exact hyb hax
          · exact hmax x hx hax
        · refine .inr ⟨y :: l₁, l₂, congrArg (y :: ·) hl, hadm, hlt, ?_, h₂⟩
          intro x hx hax
          rcases List.mem_cons.mp hx with rfl | hx
          · exact (hyb hax).trans_lt hlt
          · exact h₁ x hx hax

theorem foldl_better_mem (l : List α) (b : α) :
    l.foldl (better key eligible) b = b ∨
      (l.foldl (better key eligible) b ∈ l ∧ eligible (l.foldl (better key eligible) b)) := by
  rcases foldl_better key eligible l b with ⟨hr, -⟩ | ⟨l₁, l₂, hl, hadm, -⟩
  · exact .inl hr
  · refine .inr ⟨?_, hadm⟩
    have listed : l.foldl (better key eligible) b ∈ l₁ ++ l.foldl (better key eligible) b :: l₂ :=
      List.mem_append_cons_self
    rwa [← hl] at listed

theorem le_foldl_better (l : List α) (b : α) : key b ≤ key (l.foldl (better key eligible) b) := by
  rcases foldl_better key eligible l b with ⟨hr, -⟩ | ⟨-, -, -, -, hlt, -⟩
  · rw [hr]
  · exact hlt.le

theorem mem_le_foldl_better (l : List α) (b : α) {x : α} (hx : x ∈ l) (ha : eligible x) :
    key x ≤ key (l.foldl (better key eligible) b) := by
  rcases foldl_better key eligible l b with ⟨hr, hmax⟩ | ⟨l₁, l₂, hl, -, -, h₁, h₂⟩
  · rw [hr]
    exact hmax x hx ha
  · rw [hl] at hx
    rcases List.mem_append.mp hx with hx | hx
    · exact (h₁ x hx ha).le
    · rcases List.mem_cons.mp hx with rfl | hx
      · exact le_rfl
      · exact h₂ x hx ha

/-- The largest key does not depend on how the list is ordered. -/
theorem key_foldl_better_congr {l k : List α} (b : α) (h : ∀ x, x ∈ l ↔ x ∈ k) :
    key (l.foldl (better key eligible) b) = key (k.foldl (better key eligible) b) := by
  have half : ∀ {l k : List α}, (∀ x, x ∈ l → x ∈ k) →
      key (l.foldl (better key eligible) b) ≤ key (k.foldl (better key eligible) b) := by
    intro l k h
    rcases foldl_better_mem key eligible l b with hr | ⟨hmem, hadm⟩
    · rw [hr]
      exact le_foldl_better key eligible k b
    · exact mem_le_foldl_better key eligible k b (h _ hmem) hadm
  exact le_antisymm (half fun x => (h x).mp) (half fun x => (h x).mpr)

/-- Two equal keys: the one listed first wins. -/
theorem foldl_better_first [DecidableEq α] (l : List α) (b : α) {x : α}
    (hx : x ∈ l) (ha : eligible x) (hb : key b < key x)
    (hk : key x = key (l.foldl (better key eligible) b)) :
    l.idxOf (l.foldl (better key eligible) b) ≤ l.idxOf x := by
  rcases foldl_better key eligible l b with ⟨hr, -⟩ | ⟨l₁, l₂, hl, -, -, h₁, -⟩
  · rw [hr] at hk
    exact absurd hk hb.ne'
  · generalize l.foldl (better key eligible) b = r at *
    have hxl : x ∉ l₁ := fun h => (h₁ x h ha).ne hk
    subst hl
    rw [List.idxOf_append, List.idxOf_append, if_neg hxl]
    split
    · have := List.idxOf_lt_length_of_mem (by assumption : r ∈ l₁)
      omega
    · simp

end FirstMaximum
