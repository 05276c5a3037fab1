import Resonance.Balances.Moves

/-!
Freezes, locks and holds, as writes to one account.

A lock or freeze changes what is frozen of an account. A lock is stored whether or
not the account could be written, a freeze only if it was. A hold changes the
reserved balance by as much as its own entry; what dust its write leaves is lost.
-/
namespace Resonance.Balances
open Storage

variable {A I : Type} [DecidableEq A] {c : Config} {s s' : State A I} {who : A}

def AccountData.freezing (a : AccountData) (frozen : ℕ) : AccountData := { a with frozen := frozen }

theorem AccountData.Steady.freezing {ed frozen : ℕ} {a : AccountData} :
    a.Steady ed (a.freezing frozen) :=
  ⟨fun start => start.1 start.2.1, fun stop => stop.2.1 stop.1⟩

theorem AccountData.Proper.freezing {a : AccountData} (proper : a.Proper) {frozen : ℕ} :
    (a.freezing frozen).Proper :=
  ⟨proper.upgraded, proper.free_le, proper.reserved_le⟩

theorem exec_mutateAccount_freezing (sound : Sound c s) {frozen : ℕ} :
    exec (mutateAccount c who fun b => (PUnit.unit, { b with frozen := frozen })) s =
      match s.refusal c who ((s.account who).freezing frozen) with
      | none => (.ok (⟨⟩, ((s.account who).freezing frozen).maybeDust c.existentialDeposit),
          s.write c who ((s.account who).freezing frozen))
      | some e => (.error e, s) :=
  exec_tryMutateAccount (sound.proper who).upgraded rfl sound rfl .freezing

/-- A lock that cannot be put in force is stored all the same. -/
theorem exec_updateLocks (sound : Sound c s) {locks : List (BalanceLock I)} :
    exec (updateLocks c who locks) s =
      let frozen := (s.account who).freezing (frozenBy locks (s.freezes who))
      let written := if s.refusal c who frozen = none then s.write c who frozen else s
      (.ok ⟨⟩, { written with locks := Function.update s.locks who locks }) := by
  simp only [updateLocks]
  rw [exec_get_bind, exec_attempt_bind, exec_mutateAccount_freezing sound, exec_modify]
  cases allowed : s.refusal c who ((s.account who).freezing (frozenBy locks (s.freezes who))) with
  | none => simp [State.write_collections]
  | some e => simp

theorem ok_of_updateFreezes (sound : Sound c s) {freezes : List (IdAmount I)} {u : PUnit}
    (run : exec (updateFreezes c who freezes) s = (.ok u, s')) :
    s.refusal c who ((s.account who).freezing (frozenBy (s.locks who) freezes)) = none ∧
      s' = { s.write c who ((s.account who).freezing (frozenBy (s.locks who) freezes)) with
        freezes := Function.update s.freezes who freezes } := by
  simp only [updateFreezes] at run
  rw [exec_get_bind, exec_bind, exec_mutateAccount_freezing sound] at run
  cases allowed : s.refusal c who ((s.account who).freezing (frozenBy (s.locks who) freezes)) with
  | none =>
      rw [allowed] at run
      dsimp only at run
      rw [exec_modify] at run
      cases run
      simp [State.write_collections]
  | some e =>
      rw [allowed] at run
      cases run

theorem atomic_updateFreezes (sound : Sound c s) {freezes : List (IdAmount I)} :
    Atomic (updateFreezes c who freezes) s := by
  rw [updateFreezes]
  refine .bind .get fun s₁ read => ?_
  cases read
  have written : Atomic (mutateAccount c who fun b =>
      (PUnit.unit, { b with frozen := frozenBy (s.locks who) freezes })) s :=
    atomic_tryMutateAccount sound rfl .freezing
  exact written.bind_total fun _ => .modify _

section
variable [DecidableEq I]

/-- What the entries add up to. -/
def heldBy (holds : List (IdAmount I)) : ℕ := (holds.map IdAmount.amount).sum

theorem heldBy_setFirst {id : I} {f : ℕ → ℕ} {xs : List (IdAmount I)} {item : IdAmount I}
    (found : (xs.find? fun x => x.id = id) = some item) :
    heldBy (setFirst id f xs) + item.amount = heldBy xs + f item.amount := by
  induction xs with
  | nil => cases found
  | cons x xs ih =>
      simp only [List.find?_cons, setFirst, heldBy] at found ih ⊢
      by_cases here : x.id = id
      · simp only [here, decide_true, Option.some.injEq] at found
        subst found
        simp only [here, if_true, List.map_cons, List.sum_cons]
        omega
      · simp only [here, decide_false] at found
        simp only [here, if_false, List.map_cons, List.sum_cons]
        have rest := ih found
        omega

omit [DecidableEq I] in
theorem heldBy_filter {xs : List (IdAmount I)} :
    heldBy (xs.filter fun x => x.amount ≠ 0) = heldBy xs := by
  induction xs with
  | nil => rfl
  | cons x xs ih =>
      simp only [heldBy, ne_eq, decide_not] at ih
      by_cases none : x.amount = 0
      · simp [heldBy, none, ih]
      · simp [heldBy, none, ih]

/-- The holds with one of them set. -/
def setHold (reason : I) (amount : ℕ) (holds : List (IdAmount I)) : List (IdAmount I) :=
  if (holds.find? fun x => x.id = reason).isSome then
    (setFirst reason (fun _ => amount) holds).filter fun x => x.amount ≠ 0
  else if amount ≠ 0 then holds ++ [⟨reason, amount⟩] else holds

theorem length_setFirst {id : I} {f : ℕ → ℕ} {xs : List (IdAmount I)} :
    (setFirst id f xs).length = xs.length := by
  induction xs with
  | nil => rfl
  | cons x xs ih =>
      rw [setFirst]
      split
      · rfl
      · rw [List.length_cons, List.length_cons, ih]

/-- A hold takes as much reserved balance as it claims. -/
theorem ok_of_setBalanceOnHold (sound : Sound c s) {reason : I} {amount : ℕ} {u : PUnit}
    (run : exec (setBalanceOnHold c reason who amount) s = (.ok u, s')) :
    ∃ reserved, heldBy (setHold reason amount (s.holds who)) + (s.account who).reserved =
        heldBy (s.holds who) + reserved ∧
      reserved + s.balanceOnHold reason who = (s.account who).reserved + amount ∧
      reserved ≤ u128Max ∧
      s.refusal c who ((s.account who).having (s.account who).free reserved) = none ∧
      ((s.holds who).length ≤ c.maxHolds →
        (setHold reason amount (s.holds who)).length ≤ c.maxHolds) ∧
      s' = { s.write c who ((s.account who).having (s.account who).free reserved) with
        holds := Function.update s.holds who (setHold reason amount (s.holds who)) } := by
  have reserved_le := (sound.proper who).reserved_le
  -- the account is written with its new reserved balance, and the holds after it
  have written {holds : List (IdAmount I)} {reserved : ℕ}
      (claims : heldBy holds + (s.account who).reserved = heldBy (s.holds who) + reserved)
      (moved : reserved + s.balanceOnHold reason who = (s.account who).reserved + amount)
      (fits : reserved ≤ u128Max)
      (short : (s.holds who).length ≤ c.maxHolds → holds.length ≤ c.maxHolds)
      (run : exec (do
        let _ ← tryMutateAccount c who fun _ _ =>
          pure (PUnit.unit, { s.account who with reserved := reserved })
        modify fun s : State A I => { s with holds := Function.update s.holds who holds }) s =
          (.ok u, s')) :
      ∃ reserved, heldBy holds + (s.account who).reserved = heldBy (s.holds who) + reserved ∧
        reserved + s.balanceOnHold reason who = (s.account who).reserved + amount ∧
        reserved ≤ u128Max ∧
        s.refusal c who ((s.account who).having (s.account who).free reserved) = none ∧
        ((s.holds who).length ≤ c.maxHolds → holds.length ≤ c.maxHolds) ∧
        s' = { s.write c who ((s.account who).having (s.account who).free reserved) with
          holds := Function.update s.holds who holds } := by
    obtain ⟨⟨v, d⟩, s₁, made, rest⟩ := bind_ok_iff.mp run
    obtain ⟨after, s₂, ran, allowed, rfl, -⟩ :=
      ok_of_tryMutateAccount (sound.proper who).upgraded (by
        intro r after s₁ ran
        cases ran
        exact ⟨sound, rfl, .having (.inl le_rfl) (.inl le_rfl)⟩) made
    obtain ⟨rfl, rfl⟩ : (s.account who).having (s.account who).free reserved = after ∧ s = s₂ := by
      cases ran
      exact ⟨rfl, rfl⟩
    rw [exec_modify] at rest
    cases rest
    exact ⟨reserved, claims, moved, fits, allowed, short, by simp [State.write_collections]⟩
  simp only [setBalanceOnHold] at run
  rw [exec_get_bind] at run
  cases found : (s.holds who).find? fun x => x.id = reason with
  | some item =>
      have balance : s.balanceOnHold reason who = item.amount := by
        rw [State.balanceOnHold, found]
        rfl
      have claims := heldBy_setFirst (f := fun _ => amount) found
      rw [← heldBy_filter] at claims
      have set : setHold reason amount (s.holds who) =
          (setFirst reason (fun _ => amount) (s.holds who)).filter fun x => x.amount ≠ 0 := by
        simp [setHold, found]
      have short : (s.holds who).length ≤ c.maxHolds →
          (setHold reason amount (s.holds who)).length ≤ c.maxHolds := by
        intro short
        rw [set]
        exact (List.length_filter_le _ _).trans (length_setFirst.le.trans short)
      rw [← set] at claims
      rw [found] at run
      simp only [pure_bind] at run
      split at run
      next increase =>
        rw [ensure_bind_ok_iff] at run
        obtain ⟨fits, run⟩ := run
        simp only [decide_eq_true_eq] at increase
        exact written (by omega) (by omega) fits short (set ▸ run)
      next decrease =>
        rw [ensure_bind_ok_iff] at run
        obtain ⟨enough, run⟩ := run
        simp only [decide_eq_true_eq] at decrease
        exact written (by omega) (by omega) (by omega) short (set ▸ run)
  | none =>
      have balance : s.balanceOnHold reason who = 0 := by
        rw [State.balanceOnHold, found]
        rfl
      rw [found] at run
      dsimp only at run
      split at run
      next some =>
        simp only [tryPush, bind_assoc, pure_bind, if_true, ensure_bind_ok_iff] at run
        obtain ⟨room, fits, run⟩ := run
        have set : setHold reason amount (s.holds who) = s.holds who ++ [⟨reason, amount⟩] := by
          simp [setHold, found, some]
        have pushed :
            heldBy (s.holds who ++ [⟨reason, amount⟩]) = heldBy (s.holds who) + amount := by
          simp [heldBy]
        rw [set]
        exact written (by omega) (by omega) fits (fun _ => by
          rw [List.length_append]
          exact room) run
      next none =>
        simp only [pure_bind, if_true, ensure_bind_ok_iff] at run
        obtain ⟨fits, run⟩ := run
        have set : setHold reason amount (s.holds who) = s.holds who := by
          simp [setHold, found, not_not.mp none]
        rw [set]
        exact written (by omega) (by omega) fits (fun short => short) run

theorem atomic_setBalanceOnHold (sound : Sound c s) {reason : I} {amount : ℕ} :
    Atomic (setBalanceOnHold c reason who amount) s := by
  have written {holds : List (IdAmount I)} {reserved : ℕ} : Atomic (do
      let _ ← tryMutateAccount c who fun _ _ =>
        pure (PUnit.unit, { s.account who with reserved := reserved })
      modify fun s : State A I => { s with holds := Function.update s.holds who holds }) s := by
    have written : Atomic (tryMutateAccount c who fun _ _ =>
        pure (PUnit.unit, { s.account who with reserved := reserved })) s :=
      atomic_tryMutateAccount (d := (s.account who).having (s.account who).free reserved) sound
        rfl (.having (.inl le_rfl) (.inl le_rfl))
    exact written.bind_total fun _ => .modify _
  simp only [setBalanceOnHold]
  refine .bind .get fun s₁ read => ?_
  cases read
  cases (s.holds who).find? fun x => x.id = reason with
  | some item =>
      simp only [pure_bind]
      split
      · exact .bind (.ensure _ _) fun _ _ => written
      · exact .bind (.ensure _ _) fun _ _ => written
  | none =>
      simp only [pure_bind, if_true]
      split
      · exact .bind (.bind (.ensure _ _) fun _ => .pure _) fun _ _ =>
          .bind (.ensure _ _) fun _ _ => written
      · exact .bind (.ensure _ _) fun _ _ => written

end

end Resonance.Balances
