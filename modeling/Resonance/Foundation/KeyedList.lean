import Mathlib.Data.List.Nodup

/-!
Lists of entries with a key, as finite maps.

What a key stands for is its first entry. As long as no key occurs twice, changing
the entry of a key or appending one, dropping the entries of a key, and dropping the
entries a test rejects are what they are on maps.
-/
universe u v
namespace KeyedList
variable {α : Type u} {β : Type v} (key : α → β)

/-- No key twice. -/
def Keyed (l : List α) : Prop := (l.map key).Nodup

section
variable [DecidableEq β]

def entry (l : List α) (b : β) : Option α := l.find? fun a => key a = b

/-- The first entry of the key is changed, or a new one comes last. -/
def upsert (b : β) (f : α → α) (new : α) : List α → List α
  | [] => [new]
  | a :: l => if key a = b then f a :: l else a :: upsert b f new l

end

variable {key} {a new : α} {l : List α} {b b' : β} {f : α → α}

theorem Keyed.tail (keyed : Keyed key (a :: l)) : Keyed key l := (List.nodup_cons.mp keyed).2

theorem Keyed.ne (keyed : Keyed key (a :: l)) {x : α} (mem : x ∈ l) : key x ≠ key a :=
  fun same => (List.nodup_cons.mp keyed).1 (same ▸ List.mem_map_of_mem mem)

theorem Keyed.filter (keyed : Keyed key l) (p : α → Bool) : Keyed key (l.filter p) :=
  keyed.sublist (List.filter_sublist.map key)

section
variable [DecidableEq β]

@[simp] theorem entry_nil : entry key [] b = none := rfl

theorem entry_cons : entry key (a :: l) b = if key a = b then some a else entry key l b := by
  rw [entry, List.find?_cons]
  by_cases here : key a = b
  · simp [here]
  · simp [here, entry]

theorem entry_eq_none_iff : entry key l b = none ↔ ∀ a ∈ l, key a ≠ b := by
  simp [entry]

theorem mem_of_entry (found : entry key l b = some a) : a ∈ l := List.mem_of_find?_eq_some found

theorem Keyed.entry_of_mem (keyed : Keyed key l) (mem : a ∈ l) : entry key l (key a) = some a := by
  induction l with
  | nil => cases mem
  | cons x l ih =>
      rw [entry_cons]
      cases List.mem_cons.mp mem with
      | inl here => rw [here, if_pos rfl]
      | inr later => rw [if_neg (keyed.ne later).symm, ih keyed.tail later]

theorem Keyed.entry_tail (keyed : Keyed key (a :: l)) : entry key l (key a) = none :=
  entry_eq_none_iff.mpr fun _ mem => keyed.ne mem

theorem entry_filter_ne : entry key (l.filter fun a => key a ≠ b) b' =
    if b' = b then none else entry key l b' := by
  induction l with
  | nil => simp
  | cons a l ih =>
      by_cases here : key a = b
      · rw [List.filter_cons_of_neg (by simpa using here), ih, entry_cons]
        by_cases other : b' = b
        · simp [other]
        · rw [if_neg other, if_neg other, if_neg fun same => other (same.symm.trans here)]
      · rw [List.filter_cons_of_pos (by simpa using here), entry_cons, ih, entry_cons]
        by_cases same : key a = b'
        · rw [if_pos same, if_pos same, if_neg fun other => here (same.trans other)]
        · rw [if_neg same, if_neg same]

theorem Keyed.entry_filter (keyed : Keyed key l) {p : α → Bool} :
    entry key (l.filter p) b = (entry key l b).filter p := by
  induction l with
  | nil => rfl
  | cons a l ih =>
      have rest := ih keyed.tail
      rw [List.filter_cons, entry_cons]
      by_cases here : key a = b
      · rw [here.symm, if_pos rfl, Option.filter_some]
        have none := keyed.entry_tail
        rw [here.symm, none] at rest
        split
        · rw [entry_cons, if_pos rfl]
        · exact rest
      · rw [if_neg here]
        split
        · rw [entry_cons, if_neg here, rest]
        · exact rest

theorem Keyed.filter_eq (keyed : Keyed key l) :
    l.filter (fun a => key a = b) = (entry key l b).toList := by
  induction l with
  | nil => rfl
  | cons a l ih =>
      rw [entry_cons]
      by_cases here : key a = b
      · have none := keyed.entry_tail
        rw [here] at none
        rw [List.filter_cons_of_pos (by simpa using here), ih keyed.tail, none, if_pos here]
        rfl
      · rw [List.filter_cons_of_neg (by simpa using here), ih keyed.tail, if_neg here]

theorem mem_upsert {x : α} (mem : x ∈ upsert key b f new l) :
    x = new ∨ x ∈ l ∨ ∃ a ∈ l, key a = b ∧ x = f a := by
  induction l with
  | nil => exact .inl (List.mem_singleton.mp mem)
  | cons a l ih =>
      rw [upsert] at mem
      split at mem
      next here =>
        cases List.mem_cons.mp mem with
        | inl first => exact .inr (.inr ⟨a, List.mem_cons_self, here, first⟩)
        | inr later => exact .inr (.inl (List.mem_cons_of_mem a later))
      next =>
        cases List.mem_cons.mp mem with
        | inl first => exact .inr (.inl (first ▸ List.mem_cons_self))
        | inr later =>
            rcases ih later with new | old | ⟨y, old, changed⟩
            · exact .inl new
            · exact .inr (.inl (List.mem_cons_of_mem a old))
            · exact .inr (.inr ⟨y, List.mem_cons_of_mem a old, changed⟩)

section
variable (changed : ∀ a, key a = b → key (f a) = b) (named : key new = b)
include changed named

theorem keys_upsert : (upsert key b f new l).map key =
    if (entry key l b).isSome then l.map key else l.map key ++ [b] := by
  induction l with
  | nil => simp [upsert, named]
  | cons a l ih =>
      rw [upsert, entry_cons]
      by_cases here : key a = b
      · rw [if_pos here, if_pos here, List.map_cons, changed a here]
        simp [here]
      · rw [if_neg here, if_neg here, List.map_cons, ih]
        split
        · rfl
        · rfl

theorem Keyed.upsert (keyed : Keyed key l) : Keyed key (upsert key b f new l) := by
  rw [Keyed, keys_upsert changed named]
  split
  next => exact keyed
  next none =>
    have fresh := entry_eq_none_iff.mp (Option.not_isSome_iff_eq_none.mp none)
    refine List.nodup_append.mpr ⟨keyed, List.nodup_singleton b, ?_⟩
    intro x mem y last
    obtain ⟨a, inside, rfl⟩ := List.mem_map.mp mem
    rw [List.mem_singleton.mp last]
    exact fresh a inside

theorem length_upsert : (KeyedList.upsert key b f new l).length =
    if (entry key l b).isSome then l.length else l.length + 1 := by
  rw [← List.length_map key, keys_upsert changed named]
  split
  · rw [List.length_map]
  · rw [List.length_append, List.length_map, List.length_singleton]

theorem entry_upsert : entry key (KeyedList.upsert key b f new l) b' =
    if b' = b then some ((entry key l b).elim new f) else entry key l b' := by
  induction l with
  | nil =>
      rw [KeyedList.upsert, entry_cons, named, entry_nil, entry_nil]
      by_cases same : b' = b
      · simp [same]
      · simp [same, Ne.symm same]
  | cons a l ih =>
      rw [KeyedList.upsert]
      by_cases here : key a = b
      · rw [if_pos here, entry_cons, changed a here, entry_cons, entry_cons, if_pos here, here]
        by_cases same : b' = b
        · simp [same]
        · simp [same, Ne.symm same]
      · rw [if_neg here, entry_cons, ih, entry_cons, entry_cons, if_neg here]
        by_cases same : b' = b
        · rw [same, if_neg here, if_pos rfl, if_pos rfl]
        · rw [if_neg same, if_neg same]

end
end
end KeyedList
