import Mathlib.Data.List.Basic

/-!
Slices and arrays as they are cut and filled at run time.

A slice is cut at an index, and a slice is copied over a range of an array. Out
of bounds each operation panics; the lemmas say what it gives in bounds. Two
copies that meet at an index fill an array with the one slice after the other,
and cutting the array there gives the two slices back.
-/
namespace Slices

inductive Panic
  | mid (mid len : ℕ)
  | rangeStart (index len : ℕ)
  | rangeEnd (index len : ℕ)
  | rangeOrder (start stop : ℕ)
  | copyLength (src dst : ℕ)
  | expect (message : String)
deriving DecidableEq

section
variable {α R : Type} {n : ℕ}

/-- `xs.split_at(mid)` -/
def splitAt (xs : List α) (mid : ℕ) : Except Panic (List α × List α) :=
  if mid ≤ xs.length then .ok (xs.take mid, xs.drop mid) else .error (.mid mid xs.length)

/-- `&xs[..stop]` -/
def sliceTo (xs : List α) (stop : ℕ) : Except Panic (List α) :=
  if stop ≤ xs.length then .ok (xs.take stop) else .error (.rangeEnd stop xs.length)

/-- `&xs[start..]` -/
def sliceFrom (xs : List α) (start : ℕ) : Except Panic (List α) :=
  if start ≤ xs.length then .ok (xs.drop start) else .error (.rangeStart start xs.length)

/-- `xs[start..stop].copy_from_slice(src)` -/
def copyFromSlice (xs : Vector α n) (start stop : ℕ) (src : List α) :
    Except Panic (Vector α n) :=
  if stop < start then .error (.rangeOrder start stop)
  else if outside : n < stop then .error (.rangeEnd stop n)
  else if fits : start + src.length = stop then
    .ok ⟨(xs.toList.take start ++ src ++ xs.toList.drop stop).toArray, by
      simp
      omega⟩
  else .error (.copyLength src.length (stop - start))

/-- `<[T; N]>::try_from(xs)` -/
def array (n : ℕ) (xs : List α) : Option (Vector α n) :=
  if fits : xs.length = n then some ⟨xs.toArray, by rw [List.size_toArray, fits]⟩ else none

def expect (o : Option R) (message : String) : Except Panic R :=
  match o with
  | some r => .ok r
  | none => .error (.expect message)

end

section
variable {α : Type} {n : ℕ} {xs : List α} {i : ℕ}

theorem splitAt_inside (inside : i ≤ xs.length) : splitAt xs i = .ok (xs.take i, xs.drop i) :=
  if_pos inside

theorem splitAt_outside (outside : xs.length < i) :
    splitAt xs i = .error (.mid i xs.length) :=
  if_neg (by omega)

theorem sliceTo_inside (inside : i ≤ xs.length) : sliceTo xs i = .ok (xs.take i) :=
  if_pos inside

theorem sliceFrom_inside (inside : i ≤ xs.length) : sliceFrom xs i = .ok (xs.drop i) :=
  if_pos inside

theorem array_eq_some {v : Vector α n} : array n xs = some v ↔ v.toList = xs := by
  constructor
  · intro made
    by_cases fits : xs.length = n
    · rw [array, dif_pos fits] at made
      cases made
      rfl
    · rw [array, dif_neg fits] at made
      cases made
  · intro same
    subst same
    rw [array, dif_pos Vector.length_toList]
    rfl

theorem array_eq_none : array n xs = none ↔ xs.length ≠ n := by
  rw [array]
  split <;> simp_all

/-- A copy in bounds replaces its range and nothing else. -/
theorem copyFromSlice_inside (v : Vector α n) (start : ℕ) (src : List α)
    (inside : start + src.length ≤ n) :
    ∃ w, copyFromSlice v start (start + src.length) src = .ok w ∧
      w.toList = v.toList.take start ++ src ++ v.toList.drop (start + src.length) := by
  rw [copyFromSlice, if_neg (by omega), dif_neg (by omega), dif_pos rfl]
  exact ⟨_, rfl, rfl⟩

/-- Two slices that fill an array are copied into it one after the other. -/
theorem copyFromSlice_halves (v : Vector α n) {left right : List α}
    (fill : left.length + right.length = n) :
    ∃ w, (copyFromSlice v 0 left.length left >>= fun u => copyFromSlice u left.length n right) =
        .ok w ∧ w.toList = left ++ right := by
  subst fill
  obtain ⟨u, first, toList_u⟩ := copyFromSlice_inside v 0 left (by omega)
  obtain ⟨w, second, toList_w⟩ := copyFromSlice_inside u left.length right (Nat.le_refl _)
  rw [Nat.zero_add] at first toList_u
  refine ⟨w, ?_, ?_⟩
  · rw [first]
    exact second
  · have rest : u.toList.drop (left.length + right.length) = [] :=
      List.drop_of_length_le (Nat.le_of_eq Vector.length_toList)
    have filled : u.toList.take left.length = left := by
      rw [toList_u, List.take_zero, List.nil_append, List.take_left]
    rw [toList_w, rest, filled, List.append_nil]

end
end Slices
