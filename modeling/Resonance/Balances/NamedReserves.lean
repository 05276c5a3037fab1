import Mathlib.Algebra.Order.Group.Nat
import Resonance.Balances.Moves

/-!
Named reserves as a map from identifiers to amounts.

The reserves of an account are a list sorted by identifier, searched by halving. As
long as it is sorted it is a map; each operation changes the map at its identifier
by what it moves of the anonymous reserve, and keeps the list sorted.
-/
namespace Resonance.Balances
open Storage BinarySearch
open KeyedList (entry mem_of_entry entry_eq_none_iff)

variable {A I : Type} [LinearOrder I]

abbrev SortedReserves (l : List (ReserveData I)) : Prop := SortedBy ReserveData.id l

def named (l : List (ReserveData I)) (id : I) : ℕ :=
  (entry ReserveData.id l id).elim 0 ReserveData.amount

omit [LinearOrder I] in
def namedTotal (l : List (ReserveData I)) : ℕ := (l.map ReserveData.amount).sum

section
variable {l : List (ReserveData I)} {id : I} {index : ℕ}

/-- What the list becomes when an amount found in it is set. -/
theorem setAmount_of_present (sorted : SortedReserves l)
    (found : search ReserveData.id l id = .present index) (amount : ℕ) :
    SortedReserves (setAmount l index amount) ∧
      named (setAmount l index amount) = Function.update (named l) id amount ∧
      namedTotal (setAmount l index amount) + named l id = namedTotal l + amount ∧
      amountAt (setAmount l index amount) index = amount ∧
      (setAmount l index amount).length = l.length := by
  obtain ⟨r, at_index, same, found, set, -⟩ := of_present sorted found
  have modified : setAmount l index amount = l.set index ⟨id, amount⟩ := by
    rw [setAmount, List.modify_eq_set_getElem?, at_index]
    simp [← same]
  obtain ⟨sorted', entries, total⟩ := set ⟨id, amount⟩ rfl
  have value : named l id = r.amount := by simp [named, found]
  refine ⟨modified ▸ sorted', ?_, ?_, ?_, ?_⟩
  · funext id'
    rw [named, modified, entries, Function.update_apply]
    split
    · rfl
    · rfl
  · rw [modified, value]
    exact total _
  · have inside : index < l.length := (List.getElem?_eq_some_iff.mp at_index).1
    simp [amountAt, modified, List.getElem?_set_self inside]
  · simp [setAmount]

theorem amountAt_of_present (sorted : SortedReserves l)
    (found : search ReserveData.id l id = .present index) : amountAt l index = named l id := by
  obtain ⟨r, at_index, -, found, -⟩ := of_present sorted found
  rw [amountAt, at_index, named, found]

/-- What the list becomes when an entry is found and removed. -/
theorem eraseIdx_of_present (sorted : SortedReserves l)
    (found : search ReserveData.id l id = .present index) (amount : ℕ) :
    SortedReserves ((setAmount l index amount).eraseIdx index) ∧
      named ((setAmount l index amount).eraseIdx index) = Function.update (named l) id 0 ∧
      namedTotal ((setAmount l index amount).eraseIdx index) + named l id = namedTotal l := by
  obtain ⟨r, at_index, same, found, -, sorted', entries, total⟩ := of_present sorted found
  have modified : (setAmount l index amount).eraseIdx index = l.eraseIdx index :=
    List.eraseIdx_modify_of_eq _ _ _
  have value : named l id = r.amount := by simp [named, found]
  refine ⟨modified ▸ sorted', ?_, ?_⟩
  · funext id'
    rw [named, modified, entries, Function.update_apply]
    split
    · rfl
    · rfl
  · rw [modified, value]
    exact total _

/-- What the list becomes when an entry is missed and inserted. -/
theorem insertIdx_of_absent (sorted : SortedReserves l)
    (missed : search ReserveData.id l id = .absent index) (amount : ℕ) :
    SortedReserves (l.insertIdx index ⟨id, amount⟩) ∧ named l id = 0 ∧
      named (l.insertIdx index ⟨id, amount⟩) = Function.update (named l) id amount ∧
      namedTotal (l.insertIdx index ⟨id, amount⟩) = namedTotal l + amount ∧
      (l.insertIdx index ⟨id, amount⟩).length = l.length + 1 := by
  obtain ⟨inside, none, insert⟩ := of_absent sorted missed
  obtain ⟨sorted', entries, total⟩ := insert ⟨id, amount⟩ rfl
  refine ⟨sorted', by simp [named, none], ?_, total _, List.length_insertIdx_of_le_length inside _⟩
  funext id'
  rw [named, entries, Function.update_apply]
  split
  · rfl
  · rfl

end

section
variable [DecidableEq A] {c : Config} {s s' : State A I} {who : A} {id : I}

def NamedInOrder (c : Config) (s : State A I) : Prop :=
  ∀ a, SortedReserves (s.reserves a) ∧ (s.reserves a).length ≤ c.maxReserves

omit [DecidableEq A] in
theorem reservedBalanceNamed_eq (sorted : SortedReserves (s.reserves who)) :
    s.reservedBalanceNamed id who = named (s.reserves who) id := by
  simp only [State.reservedBalanceNamed]
  cases found : search ReserveData.id (s.reserves who) id with
  | present index => exact amountAt_of_present sorted found
  | absent index => exact ((insertIdx_of_absent sorted found 0).2.1).symm

omit [DecidableEq A] in
theorem named_le_total {l : List (ReserveData I)} : named l id ≤ namedTotal l := by
  rw [named]
  cases found : entry ReserveData.id l id with
  | none => exact Nat.zero_le _
  | some r =>
      exact List.single_le_sum (fun _ _ => Nat.zero_le _) _
        (List.mem_map_of_mem (mem_of_entry found))

/-- A list of named reserves after one amount in it changed. -/
structure Renamed (c : Config) (l : List (ReserveData I)) (id : I) (amount : ℕ)
    (l' : List (ReserveData I)) : Prop where
  sorted : SortedReserves l'
  short : l.length ≤ c.maxReserves → l'.length ≤ c.maxReserves
  values : named l' = Function.update (named l) id amount
  total : namedTotal l' + named l id = namedTotal l + amount

theorem Renamed.of_present {l : List (ReserveData I)} (sorted : SortedReserves l) {index : ℕ}
    (found : search ReserveData.id l id = .present index) (amount : ℕ) :
    Renamed c l id amount (setAmount l index amount) := by
  obtain ⟨sorted', values, total, -, length⟩ := setAmount_of_present sorted found amount
  exact ⟨sorted', fun short => length.le.trans short, values, total⟩

theorem Renamed.of_absent {l : List (ReserveData I)} (sorted : SortedReserves l) {index : ℕ}
    (missed : search ReserveData.id l id = .absent index) (room : l.length < c.maxReserves)
    (amount : ℕ) : Renamed c l id amount (l.insertIdx index ⟨id, amount⟩) := by
  obtain ⟨sorted', none, values, total, length⟩ := insertIdx_of_absent sorted missed amount
  exact ⟨sorted', fun _ => by omega, values, by omega⟩

/-- An entry that has come down to nothing may as well be gone. -/
theorem Renamed.of_erased {l : List (ReserveData I)} (sorted : SortedReserves l) {index : ℕ}
    (found : search ReserveData.id l id = .present index) (amount : ℕ) :
    Renamed c l id amount
      (if amountAt (setAmount l index amount) index = 0 then
        (setAmount l index amount).eraseIdx index else setAmount l index amount) := by
  obtain ⟨-, -, -, at_index, length⟩ := setAmount_of_present sorted found amount
  obtain ⟨sorted', values, total⟩ := eraseIdx_of_present sorted found amount
  rw [at_index]
  split
  next none =>
    subst none
    refine ⟨sorted', fun short => ?_, values, total⟩
    have shorter := List.length_eraseIdx_le (setAmount l index 0) index
    omega
  next => exact .of_present sorted found amount

theorem ok_of_reserveNamed (sound : Sound c s) (sorted : SortedReserves (s.reserves who))
    {value : ℕ} {u : PUnit} (run : exec (reserveNamed c id who value) s = (.ok u, s')) :
    value = 0 ∧ s' = s ∨
    ∃ s₁ l, value ≤ (s.account who).free ∧ (s.account who).reserved + value ≤ u128Max ∧
      Moved c s who ((s.account who).free - value) ((s.account who).reserved + value) s₁ ∧
      Renamed c (s.reserves who) id (named (s.reserves who) id + value) l ∧
      s' = s₁.putReserves who l := by
  simp only [reserveNamed] at run
  split at run
  next none =>
    cases run
    exact .inl ⟨none, rfl⟩
  next some =>
    rw [exec_get_bind] at run
    -- the list is written after the reserve is made
    have reserved {l : List (ReserveData I)}
        (run : exec (reserve c who value >>= fun _ =>
          modify fun s : State A I => s.putReserves who l) s = (.ok u, s')) :
        ∃ s₁, value ≤ (s.account who).free ∧ (s.account who).reserved + value ≤ u128Max ∧
          Moved c s who ((s.account who).free - value) ((s.account who).reserved + value) s₁ ∧
          s' = s₁.putReserves who l := by
      obtain ⟨v, s₁, made, rest⟩ := bind_ok_iff.mp run
      rw [exec_modify] at rest
      cases rest
      obtain ⟨enough, fits, -, moved⟩ :=
        ((reserve_spec sound).2 v s₁ made).resolve_left fun none => some none.1
      exact ⟨s₁, enough, fits, moved, rfl⟩
    cases found : search ReserveData.id (s.reserves who) id with
    | present index =>
        rw [found] at run
        simp only [pure_bind, ensure_bind_ok_iff] at run
        obtain ⟨s₁, enough, fits, moved, rfl⟩ := reserved run.2
        rw [amountAt_of_present sorted found]
        exact .inr ⟨s₁, _, enough, fits, moved, .of_present sorted found _, rfl⟩
    | absent index =>
        rw [found] at run
        simp only [pure_bind, ensure_bind_ok_iff] at run
        obtain ⟨s₁, enough, fits, moved, rfl⟩ := reserved run.2
        obtain ⟨-, none, -⟩ := insertIdx_of_absent sorted found value
        rw [none, Nat.zero_add]
        exact .inr ⟨s₁, _, enough, fits, moved, .of_absent sorted found run.1 _, rfl⟩

theorem atomic_reserveNamed (sound : Sound c s) {value : ℕ} :
    Atomic (reserveNamed c id who value) s := by
  rw [reserveNamed]
  split
  · exact .of_ok rfl
  · have reserved {l : List (ReserveData I)} : Atomic (reserve c who value >>= fun _ =>
        modify fun s : State A I => s.putReserves who l) s :=
      (reserve_spec sound).1.bind_total fun _ => .modify _
    refine .bind .get fun s₁ read => ?_
    dsimp only
    cases search ReserveData.id (s₁.reserves who) id with
    | present index => exact .bind (.ensure _ _) fun _ _ => reserved
    | absent index => exact .bind (.ensure _ _) fun _ _ => reserved

/-- A release from a named reserve: `n` is what it came to. -/
theorem unreserveNamed_cases (who : A) (id : I) (value : ℕ) (sound : Sound c s)
    (sorted : SortedReserves (s.reserves who)) :
    (min (named (s.reserves who) id) value = 0 ∧
      exec (unreserveNamed c id who value) s = (.ok value, s)) ∨
    ∃ n s₁ l, n = min (s.account who).reserved (min (named (s.reserves who) id) value) ∧
      (n = 0 ∧ s₁ = s ∨
        Moved c s who (min ((s.account who).free + n) u128Max) ((s.account who).reserved - n) s₁) ∧
      Renamed c (s.reserves who) id (named (s.reserves who) id - n) l ∧
      exec (unreserveNamed c id who value) s = (.ok (value - n), s₁.putReserves who l) := by
  simp only [unreserveNamed]
  split
  next none => exact .inl ⟨by rw [none, Nat.min_zero], none ▸ rfl⟩
  next =>
    rw [exec_get_bind]
    cases found : search ReserveData.id (s.reserves who) id with
    | absent index =>
        obtain ⟨-, none, -⟩ := insertIdx_of_absent sorted found value
        exact .inl ⟨by rw [none, Nat.zero_min], rfl⟩
    | present index =>
        dsimp only
        rw [amountAt_of_present sorted found]
        refine .inr ?_
        cases unreserve_cases who sound with
        | inl kept =>
            rw [exec_bind_of_ok kept.2, exec_modify_bind, Nat.sub_self]
            exact ⟨0, s, _, kept.1.symm, .inl ⟨rfl, rfl⟩, .of_erased sorted found _, rfl⟩
        | inr moved =>
            obtain ⟨n, s₁, same, moved, run⟩ := moved
            have le : n ≤ min (named (s.reserves who) id) value := same ▸ Nat.min_le_right _ _
            rw [exec_bind_of_ok run, exec_modify_bind, Nat.sub_sub_self le]
            exact ⟨n, s₁, _, same, .inr moved, .of_erased sorted found _, rfl⟩

theorem slashReservedNamed_cases (who : A) (id : I) (value : ℕ) (sound : Sound c s)
    (sorted : SortedReserves (s.reserves who)) :
    (min (named (s.reserves who) id) value = 0 ∧
      exec (slashReservedNamed c id who value) s = (.ok (.zero, value), s)) ∨
    ∃ n s₁ l, n = min (min (named (s.reserves who) id) value) (s.account who).reserved ∧
      (n = 0 ∧ s₁ = s ∨
        Moved c s who (s.account who).free ((s.account who).reserved - n) s₁) ∧
      Renamed c (s.reserves who) id (named (s.reserves who) id - n) l ∧
      exec (slashReservedNamed c id who value) s =
        (.ok (⟨n⟩, value - n), s₁.putReserves who l) := by
  simp only [slashReservedNamed]
  split
  next none => exact .inl ⟨by rw [none, Nat.min_zero], none ▸ rfl⟩
  next =>
    rw [exec_get_bind]
    cases found : search ReserveData.id (s.reserves who) id with
    | absent index =>
        obtain ⟨-, none, -⟩ := insertIdx_of_absent sorted found value
        exact .inl ⟨by rw [none, Nat.zero_min], rfl⟩
    | present index =>
        dsimp only
        rw [amountAt_of_present sorted found]
        refine .inr ?_
        cases slashReserved_cases who sound with
        | inl kept =>
            rw [exec_bind_of_ok kept.2]
            dsimp only
            rw [exec_modify_bind, Nat.sub_self]
            exact ⟨0, s, _, kept.1.symm, .inl ⟨rfl, rfl⟩, .of_present sorted found _, rfl⟩
        | inr moved =>
            obtain ⟨n, s₁, same, moved, run⟩ := moved
            have le : n ≤ min (named (s.reserves who) id) value := same ▸ Nat.min_le_left _ _
            rw [exec_bind_of_ok run]
            dsimp only
            rw [exec_modify_bind, Nat.sub_sub_self le]
            exact ⟨n, s₁, _, same, .inr moved, .of_present sorted found _, rfl⟩

end

section
variable [DecidableEq A] {c : Config} {s s' : State A I} {slashed beneficiary : A} {id : I}

theorem ok_of_repatriateUnder (sound : Sound c s) (sorted : SortedReserves (s.reserves beneficiary))
    (ne : slashed ≠ beneficiary) {toChange n : ℕ}
    (run : exec (repatriateUnder c id slashed beneficiary toChange) s = (.ok n, s')) :
    n ≤ toChange ∧ n ≤ s.reducibleTotalBalanceOnHold slashed .polite ∧ ∃ s₁ l,
      Repatriated c s slashed beneficiary n .reserved s₁ ∧
      Renamed c (s.reserves beneficiary) id
        (min (named (s.reserves beneficiary) id + n) u128Max) l ∧
      s' = s₁.putReserves beneficiary l := by
  simp only [repatriateUnder] at run
  rw [exec_get_bind] at run
  cases found : search ReserveData.id (s.reserves beneficiary) id with
  | present index =>
      rw [found] at run
      obtain ⟨left, s₁, moved, rest⟩ := bind_ok_iff.mp run
      obtain ⟨k, le, polite, rfl, done⟩ := ok_of_repatriateReserved sound ne moved
      rw [Nat.sub_sub_self le, exec_modify_bind, amountAt_of_present sorted found] at rest
      cases rest
      exact ⟨le, polite, s₁, _, done, .of_present sorted found _, rfl⟩
  | absent index =>
      rw [found] at run
      obtain ⟨left, s₁, moved, rest⟩ := bind_ok_iff.mp run
      obtain ⟨k, le, polite, rfl, done⟩ := ok_of_repatriateReserved sound ne moved
      rw [Nat.sub_sub_self le, ensure_bind_ok_iff] at rest
      obtain ⟨room, rest⟩ := rest
      cases rest
      have fits : n ≤ u128Max :=
        polite.trans ((Nat.sub_le _ _).trans (sound.proper slashed).reserved_le)
      rw [(insertIdx_of_absent sorted found n).2.1, Nat.zero_add, Nat.min_eq_left fits]
      exact ⟨le, polite, s₁, _, done, .of_absent sorted found room _, rfl⟩

/-- A repatriation from one named reserve to another or to the free balance. -/
theorem ok_of_repatriateReservedNamed (sound : Sound c s) (order : NamedInOrder c s)
    (ne : slashed ≠ beneficiary) {value left : ℕ} {status : Status}
    (run : exec (repatriateReservedNamed c id slashed beneficiary value status) s =
      (.ok left, s')) :
    left = value ∧ s' = s ∨
    ∃ n s₁ l l', n ≤ named (s.reserves slashed) id ∧ n ≤ value ∧ left = value - n ∧
      n ≤ s.reducibleTotalBalanceOnHold slashed .polite ∧
      Repatriated c s slashed beneficiary n status s₁ ∧
      Renamed c (s.reserves slashed) id (named (s.reserves slashed) id - n) l ∧
      (status = .free ∧ l' = s.reserves beneficiary ∨ status = .reserved ∧
        Renamed c (s.reserves beneficiary) id
          (min (named (s.reserves beneficiary) id + n) u128Max) l') ∧
      s' = (s₁.putReserves beneficiary l').putReserves slashed l := by
  simp only [repatriateReservedNamed, if_neg ne] at run
  split at run
  next none =>
    cases run
    exact .inl ⟨none.symm, rfl⟩
  next =>
    rw [exec_get_bind] at run
    have sorted := (order slashed).1
    cases found : search ReserveData.id (s.reserves slashed) id with
    | absent index =>
        rw [found] at run
        cases run
        exact .inl ⟨rfl, rfl⟩
    | present index =>
        rw [found] at run
        dsimp only at run
        rw [amountAt_of_present sorted found] at run
        cases status with
        | free =>
            simp only [reduceCtorEq, if_false] at run
            obtain ⟨k, s₁, moved, rest⟩ := bind_ok_iff.mp run
            obtain ⟨n, le, polite, rfl, done⟩ := ok_of_repatriateReserved sound ne moved
            rw [Nat.sub_sub_self le, pure_bind, exec_modify_bind] at rest
            cases rest
            have same : s₁.putReserves beneficiary (s.reserves beneficiary) = s₁ := by
              rw [State.putReserves, ← done.collections.2.1, Function.update_eq_self]
            exact .inr ⟨n, s₁, _, _, le.trans (Nat.min_le_left _ _),
              le.trans (Nat.min_le_right _ _),
              rfl, polite, done, .of_present sorted found _, .inl ⟨rfl, rfl⟩, by rw [same]⟩
        | reserved =>
            simp only [if_true] at run
            obtain ⟨n, s₁, moved, rest⟩ := bind_ok_iff.mp run
            obtain ⟨le, polite, s₂, l, done, renamed, rfl⟩ :=
              ok_of_repatriateUnder sound (order beneficiary).1 ne moved
            rw [exec_modify_bind] at rest
            cases rest
            exact .inr ⟨n, s₂, _, l, le.trans (Nat.min_le_left _ _),
              le.trans (Nat.min_le_right _ _),
              rfl, polite, done, .of_present sorted found _, .inr ⟨rfl, renamed⟩, rfl⟩

/-- The account has the named reserve, or room for it. -/
def State.Lists (c : Config) (s : State A I) (id : I) (who : A) : Prop :=
  (∃ r ∈ s.reserves who, r.id = id) ∨ (s.reserves who).length < c.maxReserves

/-- A repatriation to a named reserve that fails has done nothing, or lost the reserve, or
moved it without a name. -/
theorem error_of_repatriateUnder (sound : Sound c s)
    (sorted : SortedReserves (s.reserves beneficiary))
    (ne : slashed ≠ beneficiary) {toChange : ℕ} {e : DispatchError}
    (run : exec (repatriateUnder c id slashed beneficiary toChange) s = (.error e, s')) :
    s' = s ∨ ∃ n, Lost c s slashed beneficiary n s' ∨
      ¬ s.Lists c id beneficiary ∧ n ≤ (s.account slashed).reserved ∧
        Repatriated c s slashed beneficiary n .reserved s' := by
  simp only [repatriateUnder] at run
  rw [exec_get_bind] at run
  cases found : search ReserveData.id (s.reserves beneficiary) id with
  | present index =>
      rw [found] at run
      rcases bind_error_iff.mp run with failed | ⟨left, s₁, -, rest⟩
      · rcases error_of_repatriateReserved sound failed with same | ⟨-, n, -, -, lost⟩
        · exact .inl same
        · exact .inr ⟨n, .inl lost⟩
      · cases rest
  | absent index =>
      rw [found] at run
      rcases bind_error_iff.mp run with failed | ⟨left, s₁, moved, rest⟩
      · rcases error_of_repatriateReserved sound failed with same | ⟨-, n, -, -, lost⟩
        · exact .inl same
        · exact .inr ⟨n, .inl lost⟩
      · obtain ⟨n, le, polite, rfl, done⟩ := ok_of_repatriateReserved sound ne moved
        have full : ¬ (s.reserves beneficiary).length < c.maxReserves := by
          intro room
          rw [exec_ensure_bind room] at rest
          cases rest
        have missed : entry ReserveData.id (s.reserves beneficiary) id = none :=
          (of_absent sorted found).2.1
        rw [ensure, if_neg full] at rest
        cases rest
        refine .inr ⟨n, .inr ⟨?_, polite.trans (Nat.sub_le _ _), done⟩⟩
        rintro (⟨r, mem, here⟩ | room)
        · exact entry_eq_none_iff.mp missed r mem here
        · exact full room

theorem error_of_repatriateReservedNamed (sound : Sound c s) (order : NamedInOrder c s)
    {value : ℕ} {status : Status} {e : DispatchError}
    (run : exec (repatriateReservedNamed c id slashed beneficiary value status) s =
      (.error e, s')) :
    s' = s ∨ slashed ≠ beneficiary ∧ status = .reserved ∧ ∃ n, Lost c s slashed beneficiary n s' ∨
      ¬ s.Lists c id beneficiary ∧ n ≤ (s.account slashed).reserved ∧
        Repatriated c s slashed beneficiary n .reserved s' := by
  simp only [repatriateReservedNamed] at run
  split at run
  · cases run
  · split at run
    next same =>
      cases status with
      | free =>
          rcases unreserveNamed_cases slashed id value sound (order slashed).1 with
            ⟨-, ok⟩ | ⟨n, s₁, l, -, -, -, ok⟩
          · cases ok.symm.trans run
          · cases ok.symm.trans run
      | reserved => cases run
    next ne =>
      rw [exec_get_bind] at run
      cases found : search ReserveData.id (s.reserves slashed) id with
      | absent index =>
          rw [found] at run
          cases run
      | present index =>
          rw [found] at run
          cases status with
          | free =>
              simp only [reduceCtorEq, if_false] at run
              rcases bind_error_iff.mp run with failed | ⟨left, s₁, -, rest⟩
              · rcases error_of_repatriateReserved sound failed with same | ⟨reserved, -⟩
                · exact .inl same
                · cases reserved
              · cases rest
          | reserved =>
              simp only [if_true] at run
              rcases bind_error_iff.mp run with failed | ⟨left, s₁, -, rest⟩
              · exact (error_of_repatriateUnder sound (order beneficiary).1 ne failed).imp_right
                  fun lost => ⟨ne, rfl, lost⟩
              · cases rest

end
end Resonance.Balances
