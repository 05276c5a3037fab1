import Mathlib.Order.Nat

/-!
Parent links along which a number drops by one.

This is all the shape a block tree has for an algorithm that walks it
backwards. Ancestry includes the node itself; a meet is a highest common
ancestor. The last lemmas are the three moves of such a walk: replacing one
side, or both at once, by the parent keeps the meet as long as the side that
moves is not itself a common ancestor.
-/
namespace ParentTree
universe u
variable {α : Type u}

structure Links (α : Type u) where
  parent : α → Option α
  number : α → ℕ
  number_parent : ∀ {a p : α}, parent a = some p → number a = number p + 1

/-- `Ancestor a b`: going down from `b` by parents, `a` is met. -/
inductive Links.Ancestor (T : Links α) (a : α) : α → Prop
  | refl : Ancestor T a a
  | child {b p : α} : T.parent b = some p → Ancestor T a p → Ancestor T a b

namespace Links.Ancestor
variable {T : Links α} {a b c d : α}

theorem trans (h : T.Ancestor a b) (k : T.Ancestor b c) : T.Ancestor a c := by
  induction k with
  | refl => exact h
  | child hp _ ih => exact .child hp ih

theorem number_le (h : T.Ancestor a b) : T.number a ≤ T.number b := by
  induction h with
  | refl => exact Nat.le_refl _
  | child hp _ ih => have := T.number_parent hp; omega

theorem eq_of_number_le (h : T.Ancestor a b) (hn : T.number b ≤ T.number a) : a = b := by
  cases h with
  | refl => rfl
  | child hp h => have := T.number_parent hp; have := h.number_le; omega

/-- A proper ancestor is an ancestor of the parent. -/
theorem of_ne {p : α} (h : T.Ancestor a b) (hne : a ≠ b) (hp : T.parent b = some p) :
    T.Ancestor a p := by
  cases h with
  | refl => exact absurd rfl hne
  | child hq h =>
      rw [hp] at hq
      cases hq
      exact h

/-- Two ancestors of one node: the lower one is an ancestor of the higher. -/
theorem comparable (h : T.Ancestor a c) (k : T.Ancestor b c)
    (hn : T.number a ≤ T.number b) : T.Ancestor a b := by
  induction k with
  | refl => exact h
  | child hp k ih =>
      apply ih
      apply h.of_ne _ hp
      rintro rfl
      have := T.number_parent hp
      have := k.number_le
      omega

end Links.Ancestor

/-- `c` is the highest node that is an ancestor of both `a` and `b`. -/
structure Links.Meet (T : Links α) (c a b : α) : Prop where
  left : T.Ancestor c a
  right : T.Ancestor c b
  highest : ∀ d, T.Ancestor d a → T.Ancestor d b → T.number d ≤ T.number c

namespace Links.Meet
variable {T : Links α} {a b c d p q r : α}

theorem above (h : T.Meet c a b) (hl : T.Ancestor d a) (hr : T.Ancestor d b) :
    T.Ancestor d c :=
  hl.comparable h.left (h.highest d hl hr)

theorem unique (h : T.Meet c a b) (k : T.Meet d a b) : c = d :=
  (k.above h.left h.right).eq_of_number_le (h.highest d k.left k.right)

theorem symm (h : T.Meet c a b) : T.Meet c b a :=
  ⟨h.right, h.left, fun d hb ha => h.highest d ha hb⟩

theorem of_ancestor (h : T.Ancestor a b) : T.Meet a a b :=
  ⟨.refl, h, fun _ hd _ => hd.number_le⟩

/-- The left side may move to its parent unless it is an ancestor of the
right side. -/
theorem child_left (h : T.Meet c p b) (hp : T.parent a = some p)
    (hab : ¬ T.Ancestor a b) : T.Meet c a b := by
  refine ⟨.child hp h.left, h.right, ?_⟩
  intro d hda hdb
  apply h.highest d _ hdb
  apply hda.of_ne _ hp
  rintro rfl
  exact hab hdb

theorem child_right (h : T.Meet c a q) (hq : T.parent b = some q)
    (hba : ¬ T.Ancestor b a) : T.Meet c a b :=
  (h.symm.child_left hq hba).symm

/-- Both sides may move together while they differ at equal numbers. -/
theorem child_both (h : T.Meet c p q) (hp : T.parent a = some p) (hq : T.parent b = some q)
    (hn : T.number a = T.number b) (hne : a ≠ b) : T.Meet c a b := by
  refine ⟨.child hp h.left, .child hq h.right, ?_⟩
  intro d hda hdb
  have differs : d ≠ a ∧ d ≠ b := by
    constructor
    · rintro rfl
      exact hne (hdb.eq_of_number_le hn.ge)
    · rintro rfl
      exact hne (hda.eq_of_number_le hn.le).symm
  exact h.highest d (hda.of_ne differs.1 hp) (hdb.of_ne differs.2 hq)

/-- Nodes over one root have a meet. -/
theorem exists_of_root (ha : T.Ancestor r a) (hb : T.Ancestor r b) :
    ∃ c, T.Meet c a b := by
  induction ha with
  | refl => exact ⟨r, .of_ancestor hb⟩
  | @child a p hp h ih =>
      by_cases hab : T.Ancestor a b
      · exact ⟨a, .of_ancestor hab⟩
      · obtain ⟨c, hc⟩ := ih
        exact ⟨c, hc.child_left hp hab⟩

/-- Moving the left node within reach: if `b` branches off from `a` above the
point where `x` does, then `x` branches off from `b` where it did from `a`. -/
theorem of_higher_branch {x : α} (hx : T.Meet c a x) (hb : T.Meet d a b)
    (hn : T.number c < T.number d) : T.Meet c b x := by
  have hcd : T.Ancestor c d := hx.left.comparable hb.left hn.le
  refine ⟨hcd.trans hb.right, hx.right, ?_⟩
  intro e heb hex
  by_contra hce
  rcases Nat.le_total (T.number e) (T.number d) with hed | hde
  · have hea : T.Ancestor e a := (heb.comparable hb.right hed).trans hb.left
    exact hce (hx.highest e hea hex)
  · have hdx : T.Ancestor d x := (hb.right.comparable heb hde).trans hex
    have := hx.highest d hb.left hdx
    omega

end Links.Meet
end ParentTree
