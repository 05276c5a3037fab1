import Mathlib.Data.List.Pairwise
import Mathlib.Algebra.Order.Ring.Nat
import Resonance.Foundation.KeyedList

/-!
Searching a list sorted by a key, and the finite map such a list is.

The search keeps a first index and the length of the stretch the key may be in; a
comparison in the middle keeps one half. On a strictly sorted list its result cuts
the list in two at the key. Replacing, inserting and removing an entry at the cut
then change the map at this key alone.
-/
universe u v
namespace BinarySearch
open KeyedList (entry)
variable {α : Type u} {β : Type v} [LinearOrder β]

inductive Found
  | present (index : ℕ)
  | absent (index : ℕ)
deriving DecidableEq

section
variable (key : α → β) (l : List α) (b : β)

/-- The index left over when the stretch from `base` has shrunk to one element. -/
def narrow : (fuel base size : ℕ) → ℕ
  | 0, base, _ => base
  | fuel + 1, base, size =>
    if 1 < size then
      let half := size / 2
      let mid := base + half
      let base := if (l[mid]?).any (fun a => b < key a) then base else mid
      narrow fuel base (size - half)
    else base

/-- `binary_search_by_key` of slices: the index of the key, or the index to insert it at. -/
def search : Found :=
  let base := narrow key l b l.length 0 l.length
  match l[base]? with
  | none => .absent 0
  | some a =>
    if key a = b then .present base else if key a < b then .absent (base + 1) else .absent base

/-- The list in the order of its keys, no key twice. -/
def SortedBy : Prop := l.Pairwise fun x y => key x < key y

/-- The list up to the key and after it. -/
inductive Cut : Found → Prop
  | present {i : ℕ} {p q : List α} {a : α} : l = p ++ a :: q → p.length = i → key a = b →
      (∀ x ∈ p, key x < b) → (∀ x ∈ q, b < key x) →
      Cut (.present i)
  | absent {i : ℕ} {p q : List α} : l = p ++ q → p.length = i →
      (∀ x ∈ p, key x < b) → (∀ x ∈ q, b < key x) → Cut (.absent i)

end

section
variable {key : α → β} {l : List α} {b : β}

theorem SortedBy.lt (sorted : SortedBy key l) {i j : ℕ} {x y : α} (hx : l[i]? = some x)
    (hy : l[j]? = some y) (lt : i < j) : key x < key y := by
  obtain ⟨hi, rfl⟩ := List.getElem?_eq_some_iff.mp hx
  obtain ⟨hj, rfl⟩ := List.getElem?_eq_some_iff.mp hy
  exact List.pairwise_iff_getElem.mp sorted i j hi hj lt

/-- What the loop knows of a stretch: beyond it is more than the key, and where it
starts, unless that is the front, is not. -/
structure Stretch (key : α → β) (l : List α) (b : β) (base size : ℕ) : Prop where
  nonempty : 0 < size
  inside : base + size ≤ l.length
  beyond : ∀ i x, l[i]? = some x → base + size ≤ i → b < key x
  start : ∀ x, l[base]? = some x → base ≠ 0 → key x ≤ b

theorem Stretch.half (sorted : SortedBy key l) {base size : ℕ} (large : 1 < size)
    (stretch : Stretch key l b base size) :
    Stretch key l b (if (l[base + size / 2]?).any (fun a => b < key a) then base
      else base + size / 2) (size - size / 2) := by
  obtain ⟨nonempty, inside, beyond, start⟩ := stretch
  have mid : base + size / 2 < l.length := by omega
  have at_mid : l[base + size / 2]? = some l[base + size / 2] := List.getElem?_eq_getElem mid
  rw [at_mid, Option.any_some]
  by_cases greater : b < key l[base + size / 2]
  · rw [if_pos (by simpa using greater)]
    refine ⟨by omega, by omega, ?_, start⟩
    intro i x hx far
    cases Nat.eq_or_lt_of_le (show base + size / 2 ≤ i by omega) with
    | inl same =>
        rw [← same, at_mid] at hx
        cases hx
        exact greater
    | inr later => exact lt_trans greater (sorted.lt at_mid hx later)
  · rw [if_neg (by simpa using greater)]
    refine ⟨by omega, by omega, ?_, ?_⟩
    · exact fun i x hx far => beyond i x hx (by omega)
    · intro x hx _
      rw [at_mid] at hx
      cases hx
      exact not_lt.mp greater

theorem narrow_stretch (sorted : SortedBy key l) {fuel base size : ℕ} (enough : size ≤ fuel)
    (stretch : Stretch key l b base size) :
    Stretch key l b (narrow key l b fuel base size) 1 := by
  induction fuel generalizing base size with
  | zero => exact absurd stretch.nonempty (by omega)
  | succ fuel ih =>
      simp only [narrow]
      split
      next large => exact ih (by omega) (stretch.half sorted large)
      next small =>
        have one : size = 1 := Nat.le_antisymm (Nat.le_of_not_lt small) stretch.nonempty
        exact one ▸ stretch

theorem SortedBy.lt_of_mem_take (sorted : SortedBy key l) {r : ℕ} {a x : α}
    (at_r : l[r]? = some a) (mem : x ∈ l.take r) : key x < key a := by
  obtain ⟨i, hi, rfl⟩ := List.mem_take_iff_getElem.mp mem
  exact sorted.lt (List.getElem?_eq_getElem (by omega)) at_r (by omega)

/-- The search finds where the key is or belongs. -/
theorem search_cut (sorted : SortedBy key l) : Cut key l b (search key l b) := by
  cases Nat.eq_zero_or_pos l.length with
  | inl empty =>
      obtain rfl := List.eq_nil_of_length_eq_zero empty
      exact .absent (p := []) (q := []) rfl rfl (by simp) (by simp)
  | inr nonempty =>
      have beyond : ∀ i x, l[i]? = some x → 0 + l.length ≤ i → b < key x := by
        intro i x hx far
        obtain ⟨inside, -⟩ := List.getElem?_eq_some_iff.mp hx
        omega
      have found := narrow_stretch sorted (Nat.le_refl l.length)
        ⟨nonempty, by omega, beyond, fun _ _ moved => absurd rfl moved⟩
      have inside := found.inside
      simp only [search]
      generalize narrow key l b l.length 0 l.length = r at found inside ⊢
      have at_r : l[r]? = some l[r] := List.getElem?_eq_getElem (by omega)
      have split : l = l.take r ++ l[r] :: l.drop (r + 1) := by simp
      have length : (l.take r).length = r := by simp; omega
      have before : ∀ x ∈ l.take r, key x < key l[r] := fun x => sorted.lt_of_mem_take at_r
      have after : ∀ x ∈ l.drop (r + 1), b < key x := by
        intro x mem
        obtain ⟨i, hi, rfl⟩ := List.mem_drop_iff_getElem.mp mem
        exact found.beyond _ _ (List.getElem?_eq_getElem (by omega)) (by omega)
      rw [at_r]
      dsimp only
      split_ifs with same less
      · exact .present split length same (same ▸ before) after
      · refine .absent (p := l.take (r + 1)) (q := l.drop (r + 1)) (by simp)
          (by simp; omega) ?_ after
        intro x mem
        rw [List.take_succ_eq_append_getElem (by omega), List.mem_append,
          List.mem_singleton] at mem
        cases mem with
        | inl earlier => exact lt_trans (before x earlier) less
        | inr here => exact here ▸ less
      · have front : r = 0 := by
          refine Classical.byContradiction fun moved => ?_
          exact less (lt_of_le_of_ne (found.start _ at_r moved) same)
        subst front
        refine .absent (p := []) (q := l) rfl rfl (by simp) ?_
        intro x mem
        rw [split, List.take_zero, List.nil_append, List.mem_cons] at mem
        cases mem with
        | inl here => exact here ▸ lt_of_le_of_ne (not_lt.mp less) (Ne.symm same)
        | inr later => exact after x later

end

section
variable {key : α → β} {l : List α} {b b' : β}

theorem SortedBy.of_append {before after : List α} {a : α}
    (sorted : SortedBy key (before ++ a :: after)) : SortedBy key (before ++ after) :=
  sorted.sublist (List.Sublist.append_left (List.sublist_cons_self a after) before)

theorem SortedBy.insert {before after : List α} {a : α} (sorted : SortedBy key (before ++ after))
    (less : ∀ x ∈ before, key x < key a) (greater : ∀ x ∈ after, key a < key x) :
    SortedBy key (before ++ a :: after) := by
  obtain ⟨first, second, between⟩ := List.pairwise_append.mp sorted
  refine List.pairwise_append.mpr ⟨first, List.pairwise_cons.mpr ⟨greater, second⟩, ?_⟩
  intro x hx y hy
  cases List.mem_cons.mp hy with
  | inl here => exact here ▸ less x hx
  | inr later => exact between x hx y later

theorem entry_append_cons {before after : List α} {a : α} (less : ∀ x ∈ before, key x < key a) :
    entry key (before ++ a :: after) b =
      if b = key a then some a else entry key (before ++ after) b := by
  simp only [entry, List.find?_append, List.find?_cons]
  by_cases here : b = key a
  · subst here
    have none : before.find? (fun x => key x = key a) = none :=
      List.find?_eq_none.mpr fun x hx => by simpa using ne_of_lt (less x hx)
    simp [none]
  · simp [here, Ne.symm here]

theorem entry_append_of_absent {before after : List α} (less : ∀ x ∈ before, key x < b)
    (greater : ∀ x ∈ after, b < key x) : entry key (before ++ after) b = none := by
  refine List.find?_eq_none.mpr fun x hx => ?_
  cases List.mem_append.mp hx with
  | inl left => simpa using ne_of_lt (less x left)
  | inr right => simpa using ne_of_gt (greater x right)

/-- The list and the map after an entry is found. -/
theorem of_present (sorted : SortedBy key l) {i : ℕ} (found : search key l b = .present i) :
    ∃ a, l[i]? = some a ∧ key a = b ∧ entry key l b = some a ∧
      (∀ a', key a' = b → SortedBy key (l.set i a') ∧
        (∀ b', entry key (l.set i a') b' = if b' = b then some a' else entry key l b') ∧
        ∀ w : α → ℕ, ((l.set i a').map w).sum + w a = (l.map w).sum + w a') ∧
      SortedBy key (l.eraseIdx i) ∧
      (∀ b', entry key (l.eraseIdx i) b' = if b' = b then none else entry key l b') ∧
      ∀ w : α → ℕ, ((l.eraseIdx i).map w).sum + w a = (l.map w).sum := by
  have cut := search_cut (b := b) sorted
  rw [found] at cut
  cases cut with
  | @present _ before after a split length same less greater =>
      subst split length same
      have rest := SortedBy.of_append sorted
      have erased : (before ++ a :: after).eraseIdx before.length = before ++ after := by
        simp [List.eraseIdx_append_of_length_le]
      refine ⟨a, by simp, rfl, by simp [entry_append_cons less], ?_, ?_, ?_, ?_⟩
      · intro a' same
        have set : (before ++ a :: after).set before.length a' = before ++ a' :: after := by simp
        rw [set]
        refine ⟨rest.insert (same ▸ less) (same ▸ greater), ?_, ?_⟩
        · intro b'
          rw [entry_append_cons (same ▸ less), entry_append_cons less, same]
          split
          · rfl
          · rfl
        · intro w
          simp only [List.map_append, List.map_cons, List.sum_append, List.sum_cons]
          omega
      · exact erased ▸ rest
      · intro b'
        rw [erased, entry_append_cons less]
        split
        next here => exact here ▸ entry_append_of_absent less greater
        next => rfl
      · intro w
        rw [erased]
        simp only [List.map_append, List.map_cons, List.sum_append, List.sum_cons]
        omega

omit [LinearOrder β] in
theorem insertIdx_append_length {before after : List α} {a : α} :
    (before ++ after).insertIdx before.length a = before ++ a :: after := by
  induction before with
  | nil => rfl
  | cons x before ih => simp [ih]

/-- The list and the map after a key is missed. -/
theorem of_absent (sorted : SortedBy key l) {i : ℕ} (missed : search key l b = .absent i) :
    i ≤ l.length ∧ entry key l b = none ∧ ∀ a, key a = b → SortedBy key (l.insertIdx i a) ∧
      (∀ b', entry key (l.insertIdx i a) b' = if b' = b then some a else entry key l b') ∧
      ∀ w : α → ℕ, ((l.insertIdx i a).map w).sum = (l.map w).sum + w a := by
  have cut := search_cut (b := b) sorted
  rw [missed] at cut
  cases cut with
  | @absent _ before after split length less greater =>
      subst split length
      refine ⟨by simp, entry_append_of_absent less greater, ?_⟩
      intro a same
      rw [insertIdx_append_length]
      refine ⟨sorted.insert (same ▸ less) (same ▸ greater), ?_, ?_⟩
      · intro b'
        rw [entry_append_cons (same ▸ less), same]
      · intro w
        simp only [List.map_append, List.map_cons, List.sum_append, List.sum_cons]
        omega

end
end BinarySearch
