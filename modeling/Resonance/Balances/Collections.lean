import Resonance.Foundation.KeyedList
import Resonance.Balances.Invariants

/-!
The locks, freezes and holds of accounts as finite maps.

The pallet keeps them in short lists that it searches from the front. What one reads
of them is what a ledger has that replays the calls that went through, with a map
for each account: the calls on balances do not touch it, and what one identifier
stands for changes by its own calls alone.
-/
namespace Resonance.Balances
open Storage StateMachine Relation KeyedList

/-- What is claimed of accounts, by identifier. -/
@[ext] structure Claims (A I : Type) where
  locks : A → I → Option (ℕ × Reasons)
  freezes : A → I → ℕ
  holds : A → I → ℕ

namespace Claims
variable {A I : Type}

def none : Claims A I := ⟨fun _ _ => .none, fun _ _ => 0, fun _ _ => 0⟩

variable [DecidableEq A] [DecidableEq I]

def putLock (k : Claims A I) (who : A) (id : I) (v : Option (ℕ × Reasons)) : Claims A I :=
  { k with locks := Function.update k.locks who (Function.update (k.locks who) id v) }

def putFreeze (k : Claims A I) (who : A) (id : I) (amount : ℕ) : Claims A I :=
  { k with freezes := Function.update k.freezes who (Function.update (k.freezes who) id amount) }

def putHold (k : Claims A I) (who : A) (id : I) (amount : ℕ) : Claims A I :=
  { k with holds := Function.update k.holds who (Function.update (k.holds who) id amount) }

/-- What an operation that goes through does to the claims. -/
def apply (k : Claims A I) : Op A I → Claims A I
  | .setLock id who amount reasons =>
    k.putLock who id
      (if reasons = 0 ∨ amount = 0 then .none else some (amount, .ofWithdraw reasons))
  | .extendLock id who amount reasons =>
    if amount = 0 ∨ reasons = 0 then k
    else k.putLock who id <| some <| (k.locks who id).elim (amount, .ofWithdraw reasons) fun old =>
      (max old.1 amount, old.2.or (.ofWithdraw reasons))
  | .removeLock id who => k.putLock who id .none
  | .setFreeze id who amount => k.putFreeze who id amount
  | .extendFreeze id who amount => k.putFreeze who id (max (k.freezes who id) amount)
  | .thaw id who => k.putFreeze who id 0
  | .setBalanceOnHold reason who amount => k.putHold who reason amount
  | _ => k

end Claims

variable {A I : Type} [DecidableEq A] {c : Config} {s s' : State A I} {who : A}

section
variable [DecidableEq I]

/-- The lists read as maps. -/
def State.claims (s : State A I) : Claims A I where
  locks who id := (entry BalanceLock.id (s.locks who) id).map fun l => (l.amount, l.reasons)
  freezes who id := s.balanceFrozen id who
  holds who id := s.balanceOnHold id who

def locksOf (l : List (BalanceLock I)) (id : I) : Option (ℕ × Reasons) :=
  (entry BalanceLock.id l id).map fun l => (l.amount, l.reasons)

def amountsOf (l : List (IdAmount I)) (id : I) : ℕ :=
  (entry IdAmount.id l id).elim 0 IdAmount.amount

/-- A list of amounts: no identifier twice, nothing for nothing, within the bound. -/
structure Amounts (bound : ℕ) (l : List (IdAmount I)) : Prop where
  keyed : Keyed IdAmount.id l
  some : ∀ x ∈ l, x.amount ≠ 0
  short : l.length ≤ bound

structure Locks (l : List (BalanceLock I)) : Prop where
  keyed : Keyed BalanceLock.id l
  some : ∀ x ∈ l, x.amount ≠ 0

/-- The collections of all accounts are in order. -/
structure Collected (c : Config) (s : State A I) : Prop where
  locks : ∀ a, Locks (s.locks a)
  freezes : ∀ a, Amounts c.maxFreezes (s.freezes a)
  holds : ∀ a, Amounts c.maxHolds (s.holds a)

section
variable {id : I} {l : List (BalanceLock I)} {nl : BalanceLock I}
  {combine : BalanceLock I → BalanceLock I → BalanceLock I}

theorem placeLock_none (absent : ∀ x ∈ l, x.id ≠ id) : placeLock id combine none l = l := by
  induction l with
  | nil => rfl
  | cons x l ih =>
      rw [List.forall_mem_cons] at absent
      rw [placeLock, if_neg absent.1, ih absent.2]

theorem placeLock_eq_upsert (keyed : Keyed BalanceLock.id l) :
    placeLock id combine (some nl) l =
      upsert BalanceLock.id id (fun old => combine old nl) nl l := by
  induction l with
  | nil => rfl
  | cons x l ih =>
      rw [placeLock, upsert]
      split
      next here =>
        rw [placeLock_none fun y mem => here ▸ keyed.ne mem]
      next => rw [ih keyed.tail]

/-- A lock is placed: in its own place, or last. -/
theorem Locks.place (id : I) (nl : BalanceLock I)
    (combine : BalanceLock I → BalanceLock I → BalanceLock I) (locks : Locks l)
    (named : nl.id = id) (some : nl.amount ≠ 0)
    (combined : ∀ old, old.id = id → (combine old nl).id = id ∧ (combine old nl).amount ≠ 0) :
    Locks (placeLock id combine (.some nl) l) ∧
      locksOf (placeLock id combine (.some nl) l) = Function.update (locksOf l) id
        (.some ((entry BalanceLock.id l id).elim (nl.amount, nl.reasons) fun old =>
          ((combine old nl).amount, (combine old nl).reasons))) := by
  rw [placeLock_eq_upsert locks.keyed]
  have keys : ∀ old : BalanceLock I, old.id = id → (combine old nl).id = id :=
    fun old here => (combined old here).1
  refine ⟨⟨locks.keyed.upsert keys named, ?_⟩, ?_⟩
  · intro x mem
    rcases mem_upsert mem with rfl | old | ⟨y, -, here, rfl⟩
    · exact some
    · exact locks.some x old
    · exact (combined y here).2
  · funext id'
    rw [locksOf, entry_upsert keys named, Function.update_apply]
    split
    · cases entry BalanceLock.id l id with
      | none => rfl
      | some old => rfl
    · rfl

theorem Locks.remove (locks : Locks l) : Locks (l.filter fun x => x.id ≠ id) ∧
    locksOf (l.filter fun x => x.id ≠ id) = Function.update (locksOf l) id .none := by
  refine ⟨⟨locks.keyed.filter _, fun x mem => locks.some x (List.mem_of_mem_filter mem)⟩, ?_⟩
  funext id'
  rw [locksOf, entry_filter_ne, Function.update_apply]
  split
  · rfl
  · rfl

end

section
variable {id : I} {bound amount : ℕ} {l : List (IdAmount I)} {f : ℕ → ℕ}

theorem setFirst_eq_upsert (new : IdAmount I) (found : (entry IdAmount.id l id).isSome) :
    setFirst id f l = upsert IdAmount.id id (fun x => ⟨x.id, f x.amount⟩) new l := by
  induction l with
  | nil => cases found
  | cons x l ih =>
      rw [entry_cons] at found
      rw [setFirst, upsert]
      split
      next => rfl
      next here =>
        rw [if_neg here] at found
        rw [ih found]

theorem push_eq_upsert {new : IdAmount I} {g : IdAmount I → IdAmount I}
    (absent : (entry IdAmount.id l id).isNone) : l ++ [new] = upsert IdAmount.id id g new l := by
  induction l with
  | nil => rfl
  | cons x l ih =>
      rw [entry_cons] at absent
      rw [upsert]
      split
      next here =>
        rw [if_pos here] at absent
        cases absent
      next here =>
        rw [if_neg here] at absent
        rw [List.cons_append, ih absent]

/-- An amount is set: in its own place, or last if there is room. -/
theorem Amounts.set (id : I) (amounts : Amounts bound l) (some : ∀ old, f old ≠ 0)
    (room : entry IdAmount.id l id = none → l.length < bound) :
    Amounts bound (upsert IdAmount.id id (fun x => ⟨x.id, f x.amount⟩) ⟨id, f 0⟩ l) ∧
      amountsOf (upsert IdAmount.id id (fun x => ⟨x.id, f x.amount⟩) ⟨id, f 0⟩ l) =
        Function.update (amountsOf l) id (f (amountsOf l id)) := by
  have keys : ∀ x : IdAmount I, x.id = id → (⟨x.id, f x.amount⟩ : IdAmount I).id = id :=
    fun _ here => here
  refine ⟨⟨amounts.keyed.upsert keys rfl, ?_, ?_⟩, ?_⟩
  · intro x mem
    rcases mem_upsert mem with rfl | old | ⟨y, -, -, rfl⟩
    · exact some 0
    · exact amounts.some x old
    · exact some y.amount
  · rw [length_upsert keys rfl]
    split
    next => exact amounts.short
    next none => exact room (Option.not_isSome_iff_eq_none.mp none)
  · funext id'
    rw [amountsOf, entry_upsert keys rfl, Function.update_apply, amountsOf]
    split
    · cases entry IdAmount.id l id with
      | none => rfl
      | some old => rfl
    · rfl

theorem Amounts.remove (amounts : Amounts bound l) : Amounts bound (l.filter fun x => x.id ≠ id) ∧
    amountsOf (l.filter fun x => x.id ≠ id) = Function.update (amountsOf l) id 0 := by
  refine ⟨⟨amounts.keyed.filter _, fun x mem => amounts.some x (List.mem_of_mem_filter mem),
    (List.length_filter_le _ _).trans amounts.short⟩, ?_⟩
  funext id'
  rw [amountsOf, entry_filter_ne, Function.update_apply]
  split
  · rfl
  · rfl

/-- A hold that comes to nothing is dropped. -/
theorem Amounts.hold (amounts : Amounts bound l) (short : (setHold id amount l).length ≤ bound) :
    Amounts bound (setHold id amount l) ∧
      amountsOf (setHold id amount l) = Function.update (amountsOf l) id amount := by
  have keys : ∀ x : IdAmount I, x.id = id → (⟨x.id, amount⟩ : IdAmount I).id = id :=
    fun _ here => here
  cases found : entry IdAmount.id l id with
  | some old =>
      have isSome : (entry IdAmount.id l id).isSome := by rw [found]; rfl
      have set : setHold id amount l = (upsert IdAmount.id id (fun x => ⟨x.id, amount⟩)
          ⟨id, amount⟩ l).filter fun x => x.amount ≠ 0 := by
        rw [← setFirst_eq_upsert ⟨id, amount⟩ (f := fun _ => amount) isSome]
        exact if_pos isSome
      have keyed : Keyed IdAmount.id (upsert IdAmount.id id (fun x => ⟨x.id, amount⟩)
          ⟨id, amount⟩ l) := amounts.keyed.upsert keys rfl
      rw [set] at short ⊢
      refine ⟨⟨keyed.filter _, fun x mem => by simpa using (List.mem_filter.mp mem).2, short⟩, ?_⟩
      funext id'
      rw [amountsOf, keyed.entry_filter, entry_upsert keys rfl, found, Function.update_apply]
      split
      next =>
        by_cases none : amount = 0
        · simp [Option.filter_some, none]
        · simp [Option.filter_some, none]
      next =>
        rw [amountsOf]
        cases there : entry IdAmount.id l id' with
        | none => rfl
        | some x =>
            have some : x.amount ≠ 0 := amounts.some x (mem_of_entry there)
            simp [Option.filter_some, some]
  | none =>
      have isNone : (entry IdAmount.id l id).isNone := by rw [found]; rfl
      have absent : ¬ (entry IdAmount.id l id).isSome := by rw [found]; exact Bool.false_ne_true
      have missed : (l.find? fun x => x.id = id) = none := found
      by_cases none : amount = 0
      · have set : setHold id amount l = l := by
          simp [setHold, missed, none]
        rw [set]
        refine ⟨amounts, ?_⟩
        have zero : amountsOf l id = amount := by rw [amountsOf, found, none]; rfl
        rw [← zero, Function.update_eq_self]
      · have set : setHold id amount l =
            upsert IdAmount.id id (fun x => ⟨x.id, amount⟩) ⟨id, amount⟩ l := by
          rw [← push_eq_upsert isNone]
          simp [setHold, missed, none]
        have room : l.length < bound := by
          rw [set, length_upsert keys rfl, if_neg absent] at short
          exact Nat.lt_of_succ_le short
        rw [set]
        exact amounts.set id (f := fun _ => amount) (fun _ => none) fun _ => room

end

omit [DecidableEq A] in
theorem Collected.of_lists (collected : Collected c s) (locks : s'.locks = s.locks)
    (freezes : s'.freezes = s.freezes) (holds : s'.holds = s.holds) :
    Collected c s' ∧ s'.claims = s.claims := by
  refine ⟨⟨?_, ?_, ?_⟩, Claims.ext ?_ ?_ ?_⟩
  · rw [locks]
    exact collected.locks
  · rw [freezes]
    exact collected.freezes
  · rw [holds]
    exact collected.holds
  · simp only [State.claims, locks]
  · simp only [State.claims, State.balanceFrozen, freezes]
  · simp only [State.claims, State.balanceOnHold, holds]

/-- Locks are written, and stand for what they should. -/
theorem Collected.locked (sound : Sound c s) (collected : Collected c s) {id : I}
    {l : List (BalanceLock I)} {v : Option (ℕ × Reasons)}
    (placed : Locks l ∧ locksOf l = Function.update (locksOf (s.locks who)) id v)
    (run : exec (updateLocks c who l) s = (.ok ⟨⟩, s')) :
    Collected c s' ∧ s'.claims = s.claims.putLock who id v := by
  rw [exec_updateLocks sound] at run
  have lists : s'.locks = Function.update s.locks who l ∧ s'.freezes = s.freezes ∧
      s'.holds = s.holds := by
    cases run
    split
    · exact ⟨rfl, State.write_collections.2.2.2.1, State.write_collections.2.2.1⟩
    · exact ⟨rfl, rfl, rfl⟩
  obtain ⟨locks, freezes, holds⟩ := lists
  refine ⟨⟨?_, ?_, ?_⟩, Claims.ext ?_ ?_ ?_⟩
  · intro a
    rw [locks, Function.update_apply]
    split
    · exact placed.1
    · exact collected.locks a
  · rw [freezes]
    exact collected.freezes
  · rw [holds]
    exact collected.holds
  · funext a
    change locksOf (s'.locks a) = Function.update s.claims.locks who _ a
    rw [locks, Function.update_apply, Function.update_apply]
    split
    · exact placed.2
    · rfl
  · simp only [State.claims, State.balanceFrozen, freezes, Claims.putLock]
  · simp only [State.claims, State.balanceOnHold, holds, Claims.putLock]

theorem Collected.frozen (sound : Sound c s) (collected : Collected c s) {id : I}
    {l : List (IdAmount I)} {amount : ℕ}
    (put : Amounts c.maxFreezes l ∧
      amountsOf l = Function.update (amountsOf (s.freezes who)) id amount)
    (run : exec (updateFreezes c who l) s = (.ok ⟨⟩, s')) :
    Collected c s' ∧ s'.claims = s.claims.putFreeze who id amount := by
  obtain ⟨-, rfl⟩ := ok_of_updateFreezes sound run
  obtain ⟨locks, -, holds, -⟩ :=
    @State.write_collections _ _ _ c s who ((s.account who).freezing (frozenBy (s.locks who) l))
  refine ⟨⟨?_, ?_, ?_⟩, Claims.ext ?_ ?_ ?_⟩
  · dsimp only
    rw [locks]
    exact collected.locks
  · intro a
    dsimp only
    rw [Function.update_apply]
    split
    · exact put.1
    · exact collected.freezes a
  · dsimp only
    rw [holds]
    exact collected.holds
  · simp only [State.claims, locks, Claims.putFreeze]
  · funext a
    change amountsOf (Function.update s.freezes who l a) = Function.update s.claims.freezes who _ a
    rw [Function.update_apply, Function.update_apply]
    split
    · exact put.2
    · rfl
  · simp only [State.claims, State.balanceOnHold, holds, Claims.putFreeze]

theorem Collected.held (sound : Sound c s) (collected : Collected c s) {reason : I} {amount : ℕ}
    (run : exec (setBalanceOnHold c reason who amount) s = (.ok ⟨⟩, s')) :
    Collected c s' ∧ s'.claims = s.claims.putHold who reason amount := by
  obtain ⟨reserved, -, -, -, -, short, rfl⟩ := ok_of_setBalanceOnHold sound run
  obtain ⟨put, amounts⟩ := (collected.holds who).hold (short (collected.holds who).short)
  obtain ⟨locks, -, -, freezes, -⟩ :=
    @State.write_collections _ _ _ c s who ((s.account who).having (s.account who).free reserved)
  refine ⟨⟨?_, ?_, ?_⟩, Claims.ext ?_ ?_ ?_⟩
  · dsimp only
    rw [locks]
    exact collected.locks
  · dsimp only
    rw [freezes]
    exact collected.freezes
  · intro a
    dsimp only
    rw [Function.update_apply]
    split
    · exact put
    · exact collected.holds a
  · simp only [State.claims, locks, Claims.putHold]
  · simp only [State.claims, State.balanceFrozen, freezes, Claims.putHold]
  · funext a
    change amountsOf (Function.update s.holds who _ a) = Function.update s.claims.holds who _ a
    rw [Function.update_apply, Function.update_apply]
    split
    · exact amounts
    · rfl

/-- The freezes with one set or extended are the freezes the pallet writes. -/
theorem Collected.put_freeze (sound : Sound c s) (collected : Collected c s) {id : I} {f : ℕ → ℕ}
    {amount : ℕ} (some : ∀ old, f old ≠ 0) (first : f 0 = amount)
    (run : exec (do
      let s ← get
      let freezes := s.freezes who
      let freezes ←
        if (freezes.find? fun x => x.id = id).isSome then pure (setFirst id f freezes)
        else tryPush c.maxFreezes .tooManyFreezes freezes ⟨id, amount⟩
      updateFreezes c who freezes) s = (.ok ⟨⟩, s')) :
    Collected c s' ∧ s'.claims = s.claims.putFreeze who id (f (s.balanceFrozen id who)) := by
  have freezes := collected.freezes who
  rw [exec_get_bind] at run
  dsimp only at run
  split at run
  next found =>
    have isSome : (entry IdAmount.id (s.freezes who) id).isSome := found
    have put := freezes.set id some fun none => by
      rw [none] at isSome
      cases isSome
    rw [pure_bind, setFirst_eq_upsert ⟨id, f 0⟩ isSome] at run
    exact collected.frozen sound put run
  next missed =>
    have isNone : (entry IdAmount.id (s.freezes who) id).isNone :=
      Option.isNone_iff_eq_none.mpr (Option.not_isSome_iff_eq_none.mp missed)
    simp only [tryPush, bind_assoc, pure_bind, ensure_bind_ok_iff] at run
    have put := freezes.set id some fun _ => run.1
    rw [← first, push_eq_upsert (g := fun x => ⟨x.id, f x.amount⟩) isNone] at run
    exact collected.frozen sound put run.2

end

section
variable [LinearOrder I]

omit [DecidableEq A] in
theorem Claims.apply_of_not_restricts [DecidableEq A] {k : Claims A I} {op : Op A I}
    (quiet : ¬ op.Restricts) : k.apply op = k := by
  cases op with
  | setLock _ _ _ _ | extendLock _ _ _ _ | removeLock _ _ | setFreeze _ _ _ | extendFreeze _ _ _
  | thaw _ _ | setBalanceOnHold _ _ _ => exact absurd trivial quiet
  | _ => rfl

theorem Quiet.lists (quiet : Quiet c s s') :
    s'.locks = s.locks ∧ s'.freezes = s.freezes ∧ s'.holds = s.holds := by
  cases quiet with
  | moved moved _ _ =>
      obtain ⟨locks, -, holds, freezes⟩ := moved.collections
      exact ⟨locks, freezes, holds⟩
  | lost lost =>
      obtain ⟨locks, -, holds, freezes⟩ := lost.collections
      exact ⟨locks, freezes, holds⟩
  | renamed _ => exact ⟨rfl, rfl, rfl⟩
  | kept _ _ locks _ freezes holds => exact ⟨locks, freezes, holds⟩

theorem Quiet.chain_lists (chain : ReflTransGen (Quiet c) s s') :
    s'.locks = s.locks ∧ s'.freezes = s.freezes ∧ s'.holds = s.holds := by
  induction chain with
  | refl => exact ⟨rfl, rfl, rfl⟩
  | tail _ last ih =>
      obtain ⟨locks, freezes, holds⟩ := last.lists
      exact ⟨locks.trans ih.1, freezes.trans ih.2.1, holds.trans ih.2.2⟩

/-- An operation that goes through does to the claims what it should. -/
theorem claims_of_run (sound : Sound c s) (order : NamedInOrder c s) (collected : Collected c s)
    {op : Op A I} (fits : op.Fits) {i : Imbalances} (run : exec (op.run c) s = (.ok i, s')) :
    Collected c s' ∧ s'.claims = s.claims.apply op := by
  by_cases restricts : op.Restricts
  · cases op with
    | setLock id who amount reasons =>
        obtain ⟨⟨⟩, ran, -⟩ := map_ok_iff.mp run
        simp only [setLock, removeLock] at ran
        rw [Claims.apply]
        split at ran
        next off =>
          rw [exec_get_bind] at ran
          rw [if_pos off]
          exact collected.locked sound (collected.locks who).remove ran
        next on =>
          rw [exec_get_bind] at ran
          rw [if_neg on]
          have some : amount ≠ 0 := fun none => on (.inr none)
          refine collected.locked sound ?_ ran
          have placed := (collected.locks who).place id ⟨id, amount, .ofWithdraw reasons⟩
            (fun _ nl => nl) rfl some fun _ _ => ⟨rfl, some⟩
          refine ⟨placed.1, placed.2.trans ?_⟩
          cases entry BalanceLock.id (s.locks who) id with
          | none => rfl
          | some old => rfl
    | extendLock id who amount reasons =>
        obtain ⟨⟨⟩, ran, -⟩ := map_ok_iff.mp run
        simp only [extendLock] at ran
        rw [Claims.apply]
        split at ran
        next off =>
          cases ran
          rw [if_pos off]
          exact ⟨collected, rfl⟩
        next on =>
          rw [exec_get_bind] at ran
          rw [if_neg on]
          have some : amount ≠ 0 := fun none => on (.inl none)
          refine collected.locked sound ?_ ran
          have placed := (collected.locks who).place id ⟨id, amount, .ofWithdraw reasons⟩
            (fun l nl => ⟨l.id, max l.amount nl.amount, l.reasons.or nl.reasons⟩) rfl some
            fun old here => ⟨here, (lt_max_of_lt_right (Nat.pos_of_ne_zero some)).ne'⟩
          refine ⟨placed.1, placed.2.trans ?_⟩
          have same : s.claims.locks who id =
              (entry BalanceLock.id (s.locks who) id).map fun l => (l.amount, l.reasons) := rfl
          rw [same]
          cases entry BalanceLock.id (s.locks who) id with
          | none => rfl
          | some old => rfl
    | removeLock id who =>
        obtain ⟨⟨⟩, ran, -⟩ := map_ok_iff.mp run
        rw [removeLock, exec_get_bind] at ran
        exact collected.locked sound (collected.locks who).remove ran
    | setFreeze id who amount =>
        obtain ⟨⟨⟩, ran, -⟩ := map_ok_iff.mp run
        simp only [setFreeze, thaw] at ran
        split at ran
        next none =>
          subst none
          rw [exec_get_bind] at ran
          exact collected.frozen sound (collected.freezes who).remove ran
        next some => exact collected.put_freeze sound (f := fun _ => amount) (fun _ => some) rfl ran
    | extendFreeze id who amount =>
        obtain ⟨⟨⟩, ran, -⟩ := map_ok_iff.mp run
        simp only [extendFreeze] at ran
        split at ran
        next none =>
          cases ran
          subst none
          refine ⟨collected, ?_⟩
          rw [Claims.apply, Nat.max_zero, Claims.putFreeze, Function.update_eq_self,
            Function.update_eq_self]
        next some =>
          exact collected.put_freeze sound (f := fun old => max old amount)
            (fun _ => (lt_max_of_lt_right (Nat.pos_of_ne_zero some)).ne') (Nat.zero_max _) ran
    | thaw id who =>
        obtain ⟨⟨⟩, ran, -⟩ := map_ok_iff.mp run
        rw [thaw, exec_get_bind] at ran
        exact collected.frozen sound (collected.freezes who).remove ran
    | setBalanceOnHold reason who amount =>
        simp only [Op.run] at run
        rw [exec_get_bind] at run
        obtain ⟨⟨⟩, s₁, held, rest⟩ := bind_ok_iff.mp run
        cases rest
        exact collected.held sound held
    | _ => exact absurd restricts id
  · rw [Claims.apply_of_not_restricts restricts]
    obtain ⟨locks, freezes, holds⟩ :=
      Quiet.chain_lists (quiet_of_run sound order fits restricts run)
    exact collected.of_lists locks freezes holds

/-- The ledger after a step: a call that goes through is replayed. -/
def Claims.replay (c : Config) (k : Claims A I) (t : Transition (World A I) (Label A I)) :
    Claims A I :=
  match t.label with
  | .call op => if (exec (op.run c) t.pre.state).1.isOk then k.apply op else k
  | _ => k

variable {w w' : World A I} {τ : List (Transition (World A I) (Label A I))}

theorem claims_of_step (kept : w.Kept c) (collected : Collected c w.state) {l : Label A I}
    (step : World.Step c w l w') :
    Collected c w'.state ∧ w'.state.claims = w.state.claims.replay c ⟨w, l, w'⟩ := by
  rcases World.step_cases kept step with
    ⟨op, rfl, fits, ⟨i, run⟩ | ⟨e, run⟩⟩ | ⟨other, -, locks, -, holds, freezes⟩
  · obtain ⟨collected', claims⟩ := claims_of_run kept.sound kept.ordered collected fits run
    refine ⟨collected', ?_⟩
    rw [claims, Claims.replay]
    simp [run, Except.isOk, Except.toBool]
  · have failure := failure_of_run kept.sound kept.ordered run
    obtain ⟨locks, freezes, holds⟩ := Quiet.chain_lists (failure.quiet kept.sound).1
    obtain ⟨collected', claims⟩ := collected.of_lists locks freezes holds
    refine ⟨collected', ?_⟩
    rw [claims, Claims.replay]
    simp [run, Except.isOk, Except.toBool]
  · obtain ⟨collected', claims⟩ := collected.of_lists locks freezes holds
    refine ⟨collected', ?_⟩
    rw [claims, Claims.replay]
    cases l with
    | call op => exact absurd rfl (other op)
    | _ => rfl

omit [DecidableEq A] in
theorem Collected.of_empty {s : State A I} (locks : s.locks = fun _ => [])
    (freezes : s.freezes = fun _ => []) (holds : s.holds = fun _ => []) :
    Collected c s ∧ s.claims = .none := by
  have amounts {bound : ℕ} : Amounts bound ([] : List (IdAmount I)) :=
    ⟨List.nodup_nil, List.forall_mem_nil _, Nat.zero_le _⟩
  refine ⟨⟨?_, ?_, ?_⟩, ?_⟩
  · rw [locks]
    exact fun _ => ⟨List.nodup_nil, List.forall_mem_nil _⟩
  · rw [freezes]
    exact fun _ => amounts
  · rw [holds]
    exact fun _ => amounts
  · simp [State.claims, State.balanceFrozen, State.balanceOnHold, locks, freezes, holds,
      Claims.none]

theorem World.collected (run : Run (World.machine c) τ w) :
    Collected c w.state ∧ w.state.claims = τ.foldl (Claims.replay c) .none := by
  refine run.history (P := fun τ (w : World A I) => Collected c w.state ∧
    w.state.claims = τ.foldl (Claims.replay c) .none) ?_ ?_
  · intro w init
    obtain ⟨locks, -, holds, freezes⟩ := World.initial_collections init
    exact Collected.of_empty locks freezes holds
  · rintro τ w l w' before ⟨collected, claims⟩ step
    obtain ⟨collected', claims'⟩ := claims_of_step (.of_reachable ⟨τ, before⟩) collected step
    refine ⟨collected', ?_⟩
    rw [claims', claims, List.foldl_append]
    rfl

omit [DecidableEq A] in
theorem Collected.balanceLocked (collected : Collected c s) {id : I} :
    s.balanceLocked id who = (s.claims.locks who id).elim 0 Prod.fst := by
  rw [State.balanceLocked, (collected.locks who).keyed.filter_eq]
  change _ = ((entry BalanceLock.id (s.locks who) id).map _).elim 0 Prod.fst
  cases entry BalanceLock.id (s.locks who) id with
  | none => rfl
  | some l => exact Nat.zero_add _

/-- What is locked, frozen and held is what a ledger says that replays the calls that
went through, and no list outgrows its bound. -/
theorem World.claims_replayed (run : Run (World.machine c) τ w) (a : A) (id : I) :
    let k := τ.foldl (Claims.replay c) .none
    w.state.balanceLocked id a = (k.locks a id).elim 0 Prod.fst ∧
      w.state.balanceFrozen id a = k.freezes a id ∧ w.state.balanceOnHold id a = k.holds a id ∧
      (w.state.freezes a).length ≤ c.maxFreezes ∧ (w.state.holds a).length ≤ c.maxHolds := by
  obtain ⟨collected, claims⟩ := World.collected run
  rw [← claims]
  exact ⟨collected.balanceLocked, rfl, rfl, (collected.freezes a).short, (collected.holds a).short⟩

set_option maxRecDepth 10000 in
theorem World.claims_replayed_locked :
    let w₁ := World.endowed.called .small (.setLock 7 1 8 1)
    let w₂ := w₁.called .small (.extendLock 7 1 5 2)
    w₂.state.balanceLocked 7 1 = 8 := by
  intro w₁ w₂
  have run₁ : Run (World.machine .small) _ w₁ :=
    (Run.start World.initial_endowed).extend (.call trivial)
  have run : Run (World.machine .small) _ w₂ := run₁.extend (.call trivial)
  exact (World.claims_replayed run 1 7).1.trans (by decide)

end
end Resonance.Balances
