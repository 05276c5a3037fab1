import Resonance.Balances.Machine

/-!
What the operations of the balances pallet do, said once.

An operation that goes through moves an account, an account and its named reserve, or
two accounts, or nothing but the issuance; what it hands out is what it did to the
balances. What holds of all operations follows from the few effects there are.
-/
namespace Resonance.Balances
open Storage StateMachine

variable {A I : Type} [DecidableEq A] {c : Config} {s s' : State A I} {who a : A}

/-- What holds and named reserves claim of an account. -/
def State.claimed (s : State A I) (a : A) : ℕ := heldBy (s.holds a) + namedTotal (s.reserves a)

/-- What is taken out of an anonymous reserve is not claimed. -/
def Spare (s : State A I) (who : A) (value : ℕ) : Prop :=
  min (s.account who).reserved value + s.claimed who ≤ (s.account who).reserved

namespace Op

def Restricts : Op A I → Prop
  | .setLock .. | .extendLock .. | .removeLock .. | .setFreeze .. | .extendFreeze .. | .thaw ..
  | .setBalanceOnHold .. => True
  | _ => False

/-- What the issuance needs to follow an operation: root does not adjust it, it is not cut
off when root sets a balance, a hold leaves no dust, and a repatriation to a reserve does
not fail half way. -/
def Squares [DecidableEq I] (c : Config) (s : State A I) : Op A I → Prop
  | .setBalanceOnHold reason who amount =>
    c.existentialDeposit ≤ (s.account who).free ∨ (s.account who).free = 0 ∨
      s.balanceOnHold reason who ≠ (s.account who).reserved + amount
  | .repatriateReserved slashed beneficiary _ status =>
    status = .reserved → slashed ≠ beneficiary → s.Receives c beneficiary
  | .repatriateReservedNamed _ slashed beneficiary _ status =>
    status = .reserved → slashed ≠ beneficiary → s.Receives c beneficiary
  | .forceSetBalance _ address newFree => ∀ who, address.lookup = some who →
    let newFree := if newFree < c.existentialDeposit then 0 else newFree
    s.totalIssuance + newFree ≤ u128Max + (s.account who).free ∧
      (s.account who).free + c.existentialDeposit ≤ s.totalIssuance + newFree
  | .forceAdjustTotalIssuance origin _ _ => origin ≠ .root
  | _ => True

/-- The anonymous releases take nothing that is claimed, and a repatriation to a named
reserve finds a reference and an entry for it. -/
def Modest (c : Config) (s : State A I) : Op A I → Prop
  | .unreserve who value => Spare s who value
  | .slashReserved who value => Spare s who value
  | .repatriateReserved slashed _ value _ => Spare s slashed value
  | .repatriateReservedNamed id slashed beneficiary _ status =>
    status = .reserved → slashed ≠ beneficiary →
      s.Receives c beneficiary ∧ s.Lists c id beneficiary
  | .forceUnreserve _ address amount => ∀ who, address.lookup = some who → Spare s who amount
  | _ => True

def Names (id : I) (a : A) : Op A I → Prop
  | .reserveNamed id' who _ => id' = id ∧ who = a
  | .unreserveNamed id' who _ => id' = id ∧ who = a
  | .slashReservedNamed id' who _ => id' = id ∧ who = a
  | .repatriateReservedNamed id' slashed beneficiary _ _ =>
    id' = id ∧ (slashed = a ∨ beneficiary = a)
  | _ => False

end Op

/-- What an operation that goes through has done; `i` is what it hands out. -/
inductive Effect [LinearOrder I] (c : Config) (s : State A I) (op : Op A I) (i : Imbalances) :
    State A I → Prop
  | issued {totalIssuance inactiveIssuance : ℕ} :
      (op.Squares c s → s.totalIssuance ≤ u128Max →
        totalIssuance + i.positive.amount = s.totalIssuance + i.negative.amount) →
      Effect c s op i
        { s with totalIssuance := totalIssuance, inactiveIssuance := inactiveIssuance }
  | moved {who : A} {free reserved : ℕ} {s' : State A I} : Moved c s who free reserved s' →
      free ≤ u128Max → reserved ≤ u128Max →
      (s.balances ≤ u128Max → free + reserved + i.negative.amount =
        (s.account who).free + (s.account who).reserved + i.positive.amount) →
      (op.Modest c s → s.claimed who ≤ (s.account who).reserved → s.claimed who ≤ reserved) →
      Effect c s op i s'
  | forced {who : A} {free : ℕ} {s₁ : State A I} :
      Moved c s who free (s.account who).reserved s₁ → free ≤ u128Max → i = .none →
      (op.Squares c s → s.totalIssuance + free ≤ u128Max + (s.account who).free ∧
        (s.account who).free + c.existentialDeposit ≤ s.totalIssuance + free) →
      Effect c s op i { s₁ with
        totalIssuance :=
          if free > (s.account who).free then
            min (s₁.totalIssuance + (free - (s.account who).free)) u128Max
          else s₁.totalIssuance - ((s.account who).free - free) }
  | renamed {id : I} {who : A} {l : List (ReserveData I)} : op.Names id who →
      Renamed c (s.reserves who) id (named (s.reserves who) id) l →
      i.positive.amount = i.negative.amount → Effect c s op i (s.putReserves who l)
  | named {id : I} {who : A} {free reserved amount : ℕ} {l : List (ReserveData I)}
      {s₁ : State A I} : op.Names id who → Moved c s who free reserved s₁ → free ≤ u128Max →
      reserved ≤ u128Max → Renamed c (s.reserves who) id amount l →
      (s.balances ≤ u128Max → free + reserved + i.negative.amount =
        (s.account who).free + (s.account who).reserved + i.positive.amount) →
      reserved + Balances.named (s.reserves who) id = (s.account who).reserved + amount →
      Effect c s op i (s₁.putReserves who l)
  | repatriated {slashed beneficiary : A} {n : ℕ} {status : Status} {s' : State A I} :
      slashed ≠ beneficiary → n ≤ (s.account slashed).reserved →
      Repatriated c s slashed beneficiary n status s' → i = .none →
      (op.Modest c s → s.claimed slashed + n ≤ (s.account slashed).reserved) → Effect c s op i s'
  | repatriatedNamed {id : I} {slashed beneficiary : A} {n : ℕ} {status : Status}
      {l l' : List (ReserveData I)} {s₁ : State A I} : op.Names id slashed →
      op.Names id beneficiary → slashed ≠ beneficiary → n ≤ (s.account slashed).reserved →
      n ≤ Balances.named (s.reserves slashed) id →
      Repatriated c s slashed beneficiary n status s₁ →
      Renamed c (s.reserves slashed) id (Balances.named (s.reserves slashed) id - n) l →
      (status = .free ∧ l' = s.reserves beneficiary ∨ status = .reserved ∧
        Renamed c (s.reserves beneficiary) id
          (min (Balances.named (s.reserves beneficiary) id + n) u128Max) l') → i = .none →
      Effect c s op i ((s₁.putReserves beneficiary l').putReserves slashed l)
  | restricted {s' : State A I} : op.Restricts → exec (op.run c) s = (.ok i, s') →
      Effect c s op i s'

theorem exec_upgradeAll (sound : Sound c s) {who : List A} :
    exec (upgradeAll c who) s = (.ok 0, s) := by
  induction who with
  | nil => rfl
  | cons i who ih =>
      simp only [upgradeAll]
      rw [exec_bind_of_ok (exec_ensureUpgraded (sound.proper i).upgraded), exec_bind_of_ok ih]
      rfl

/-- In a sound state there is nothing to upgrade, and the caller pays. -/
theorem ok_of_upgradeAccounts (sound : Sound c s) {origin : RawOrigin A} {who : List A} {p : Pays}
    (run : exec (upgradeAccounts c origin who) s = (.ok p, s')) : p = .yes ∧ s' = s := by
  simp only [upgradeAccounts] at run
  obtain ⟨caller, -, run⟩ := ensureSigned_bind_ok_iff.mp run
  split at run
  · cases run
    exact ⟨rfl, rfl⟩
  · rw [exec_bind_of_ok (exec_upgradeAll sound)] at run
    simp only [Nat.zero_mul, Nat.zero_div] at run
    cases run
    exact ⟨rfl, rfl⟩

omit [DecidableEq A] in
theorem exec_dropPositive {i : PositiveImbalance} :
    exec i.drop s = (.ok ⟨⟩, { s with
      totalIssuance :=
        if i.amount = 0 then s.totalIssuance else min (s.totalIssuance + i.amount) u128Max }) := by
  simp only [PositiveImbalance.drop]
  by_cases none : i.amount = 0
  · simp [none]
  · simp [none]

omit [DecidableEq A] in
theorem exec_dropNegative {i : NegativeImbalance} :
    exec i.drop s = (.ok ⟨⟩, { s with totalIssuance := s.totalIssuance - i.amount }) := by
  simp only [NegativeImbalance.drop]
  split
  next some => rw [exec_modify]
  next none => rw [not_not.mp none, exec_pure, Nat.sub_zero]

theorem ok_of_forceSetBalance (sound : Sound c s) {origin : RawOrigin A} {address : MultiAddress A}
    {newFree : ℕ} {u : PUnit}
    (run : exec (forceSetBalance c origin address newFree) s = (.ok u, s')) :
    ∃ who s₁ free, address.lookup = some who ∧
      free = (if newFree < c.existentialDeposit then 0 else newFree) ∧
      Moved c s who free (s.account who).reserved s₁ ∧
      s' = { s₁ with
        totalIssuance :=
          if free > (s.account who).free then
            min (s₁.totalIssuance + (free - (s.account who).free)) u128Max
          else s₁.totalIssuance - ((s.account who).free - free) } := by
  simp only [forceSetBalance] at run
  obtain ⟨-, run⟩ := ensureRoot_bind_ok_iff.mp run
  obtain ⟨who, known, run⟩ := okOr_bind_ok_iff.mp run
  generalize written : (if newFree < c.existentialDeposit then 0 else newFree) = free at run
  obtain ⟨oldFree, s₁, made, rest⟩ := bind_ok_iff.mp run
  rw [exec_mutateAccountHandlingDust sound (.having (.inr le_rfl) (.inr le_rfl))] at made
  cases allowed : s.refusal c who ((s.account who).having free (s.account who).reserved) with
  | some e =>
      simp only [AccountData.having] at allowed
      rw [allowed] at made
      cases made
  | none =>
      refine ⟨who, s.settle c who ((s.account who).having free (s.account who).reserved), free,
        known, rfl, ⟨allowed, rfl⟩, ?_⟩
      simp only [AccountData.having] at allowed
      rw [allowed] at made
      cases made
      dsimp only at rest
      split at rest
      next more =>
        rw [exec_dropPositive, if_neg (by dsimp only; omega)] at rest
        cases rest
        rw [if_pos more]
        rfl
      next notMore =>
        rw [if_neg notMore]
        split at rest
        · rw [exec_dropNegative] at rest
          cases rest
          rfl
        · have equal : (s.account who).free - free = 0 := by omega
          cases rest
          rw [equal, Nat.sub_zero]
          rfl

section
variable [LinearOrder I] {op : Op A I} {i : Imbalances}

theorem Effect.nothing (none : i.positive.amount = i.negative.amount) : Effect c s op i s :=
  @Effect.issued _ _ _ _ _ s op i s.totalIssuance s.inactiveIssuance fun _ _ => by omega

/-- A reserve is released into the free balance of its account. -/
theorem Effect.released (sound : Sound c s) {n value : ℕ}
    (most : n ≤ min (s.account who).reserved value) (spare : op.Modest c s → Spare s who value)
    (none : i = .none)
    (moved : Moved c s who (min ((s.account who).free + n) u128Max)
      ((s.account who).reserved - n) s') : Effect c s op i s' := by
  subst none
  refine .moved moved (Nat.min_le_right _ _) ((Nat.sub_le _ _).trans (sound.proper who).reserved_le)
    ?_ ?_
  · intro room
    have total : (s.account who).total ≤ s.balances := State.account_le_balances
    rw [AccountData.total] at total
    dsimp only [Imbalances.none, Imbalance.zero]
    omega
  · intro modest _
    have left := spare modest
    rw [Spare] at left
    omega

theorem Effect.of_unreserve (sound : Sound c s) {value left : ℕ}
    (spare : op.Modest c s → Spare s who value) (none : i = .none)
    (run : exec (unreserve c who value) s = (.ok left, s')) : Effect c s op i s' := by
  cases unreserve_cases who sound with
  | inl kept =>
      cases kept.2.symm.trans run
      exact .nothing (none ▸ rfl)
  | inr moved =>
      obtain ⟨n, s₁, same, moved, ran⟩ := moved
      cases ran.symm.trans run
      exact .released sound same.le spare none moved

theorem Effect.of_unreserveNamed (sound : Sound c s) {id : I} (names : op.Names id who)
    (sorted : SortedReserves (s.reserves who)) {value left : ℕ} (none : i = .none)
    (run : exec (unreserveNamed c id who value) s = (.ok left, s')) : Effect c s op i s' := by
  subst none
  cases unreserveNamed_cases who id value sound sorted with
  | inl kept =>
      cases kept.2.symm.trans run
      exact .nothing rfl
  | inr done =>
      obtain ⟨n, s₁, l, most, moved, renamed, ran⟩ := done
      cases ran.symm.trans run
      rcases moved with ⟨rfl, rfl⟩ | moved
      · exact .renamed names renamed rfl
      · refine .named names moved (Nat.min_le_right _ _)
          ((Nat.sub_le _ _).trans (sound.proper who).reserved_le) renamed ?_ (by omega)
        intro room
        have total : (s.account who).total ≤ s.balances := State.account_le_balances
        rw [AccountData.total] at total
        dsimp only [Imbalances.none, Imbalance.zero]
        omega

theorem effect_of_run (sound : Sound c s) (order : NamedInOrder c s) (fits : op.Fits)
    (run : exec (op.run c) s = (.ok i, s')) : Effect c s op i s' := by
  cases op with
  | burn amount =>
      obtain ⟨r, ran, rfl⟩ := map_ok_iff.mp run
      simp only [Currency.burn] at ran
      split at ran
      · cases ran
        exact .nothing rfl
      · rw [exec_get_bind] at ran
        split at ran
        · cases ran
          exact .issued fun _ _ => by dsimp only [Imbalances.ofPositive, Imbalance.zero]; omega
        · cases ran
          exact .issued fun _ _ => by dsimp only [Imbalances.ofPositive, Imbalance.zero]; omega
  | issue amount =>
      obtain ⟨r, ran, rfl⟩ := map_ok_iff.mp run
      simp only [Currency.issue] at ran
      split at ran
      · cases ran
        exact .nothing rfl
      · rw [exec_get_bind] at ran
        split at ran
        · cases ran
          exact .issued fun _ _ => by dsimp only [Imbalances.ofNegative, Imbalance.zero]; omega
        · cases ran
          exact .issued fun _ _ => by dsimp only [Imbalances.ofNegative, Imbalance.zero]; omega
  | slash who value =>
      obtain ⟨r, ran, rfl⟩ := map_ok_iff.mp run
      cases Currency.slash_cases who sound with
      | inl kept =>
          cases kept.symm.trans ran
          exact .nothing rfl
      | inr moved =>
          obtain ⟨k, s₁, le, moved, made⟩ := moved
          cases made.symm.trans ran
          exact .moved moved ((Nat.sub_le _ _).trans (sound.proper who).free_le)
            (sound.proper who).reserved_le
            (fun _ => by dsimp only [Imbalances.ofNegative, Imbalance.zero]; omega)
            fun _ backed => backed
  | depositIntoExisting who value =>
      obtain ⟨r, ran, rfl⟩ := map_ok_iff.mp run
      rcases (Currency.depositIntoExisting_spec sound).2 r s' ran with
        ⟨rfl, rfl⟩ | ⟨rfl, -, fits, moved⟩
      · exact .nothing rfl
      · exact .moved moved fits (sound.proper who).reserved_le
          (fun _ => by dsimp only [Imbalances.ofPositive, Imbalance.zero]; omega)
          fun _ backed => backed
  | depositCreating who value =>
      obtain ⟨r, ran, rfl⟩ := map_ok_iff.mp run
      cases Currency.depositCreating_cases who value sound with
      | inl kept =>
          cases kept.symm.trans ran
          exact .nothing rfl
      | inr moved =>
          obtain ⟨k, s₁, -, fits, moved, made⟩ := moved
          cases made.symm.trans ran
          exact .moved moved fits (sound.proper who).reserved_le
            (fun _ => by dsimp only [Imbalances.ofPositive, Imbalance.zero]; omega)
            fun _ backed => backed
  | withdraw who value liveness =>
      obtain ⟨r, ran, rfl⟩ := map_ok_iff.mp run
      rcases (Currency.withdraw_spec sound).2 r s' ran with ⟨rfl, rfl⟩ | ⟨rfl, le, -, -, moved⟩
      · exact .nothing rfl
      · exact .moved moved ((Nat.sub_le _ _).trans (sound.proper who).free_le)
          (sound.proper who).reserved_le
          (fun _ => by dsimp only [Imbalances.ofNegative, Imbalance.zero]; omega)
          fun _ backed => backed
  | makeFreeBalanceBe who value =>
      obtain ⟨r, ran, rfl⟩ := map_ok_iff.mp run
      cases Currency.makeFreeBalanceBe_cases who value sound with
      | inl kept =>
          cases kept.symm.trans ran
          exact .nothing rfl
      | inr moved =>
          obtain ⟨s₁, moved, made⟩ := moved
          cases made.symm.trans ran
          refine .moved moved fits (sound.proper who).reserved_le (fun _ => ?_)
            fun _ backed => backed
          split
          · change value + _ + 0 = _ + _ + (value - (s.account who).free)
            omega
          · change value + _ + ((s.account who).free - value) = _ + _ + 0
            omega
  | deactivate amount =>
      cases run
      exact .issued fun _ _ => rfl
  | reactivate amount =>
      cases run
      exact .issued fun _ _ => rfl
  | reserve who value =>
      obtain ⟨r, ran, rfl⟩ := map_ok_iff.mp run
      rcases (reserve_spec sound).2 r s' ran with ⟨-, rfl⟩ | ⟨le, fits, -, moved⟩
      · exact .nothing rfl
      · exact .moved moved ((Nat.sub_le _ _).trans (sound.proper who).free_le) fits
          (fun _ => by dsimp only [Imbalances.none, Imbalance.zero]; omega)
          fun _ backed => backed.trans (Nat.le_add_right _ _)
  | unreserve who value =>
      obtain ⟨r, ran, rfl⟩ := map_ok_iff.mp run
      exact .of_unreserve sound id rfl ran
  | slashReserved who value =>
      obtain ⟨r, ran, rfl⟩ := map_ok_iff.mp run
      cases slashReserved_cases who sound with
      | inl kept =>
          cases kept.2.symm.trans ran
          exact .nothing rfl
      | inr moved =>
          obtain ⟨k, s₁, same, moved, made⟩ := moved
          cases made.symm.trans ran
          refine .moved moved (sound.proper who).free_le
            ((Nat.sub_le _ _).trans (sound.proper who).reserved_le)
            (fun _ => by dsimp only [Imbalances.ofNegative, Imbalance.zero]; omega) ?_
          intro modest _
          have spare : Spare s who value := modest
          rw [Spare] at spare
          omega
  | repatriateReserved slashed beneficiary value status =>
      obtain ⟨r, ran, rfl⟩ := map_ok_iff.mp run
      simp only [repatriateReserved] at ran
      obtain ⟨n, s₁, transferred, rest⟩ := bind_ok_iff.mp ran
      cases rest
      obtain ⟨_, same, le, held, done⟩ := (doTransferReserved_cases sound transferred).resolve_left
        (by rintro ⟨e, failed, -⟩; cases failed)
      cases same
      have reserved : n ≤ (s.account slashed).reserved := held.trans (Nat.sub_le _ _)
      rcases done with ⟨-, rfl⟩ | ⟨-, moved⟩ | ⟨ne, done⟩
      · exact .nothing rfl
      · exact .released sound (le_min reserved le) id rfl moved
      · refine .repatriated ne reserved done rfl fun modest => ?_
        have spare : Spare s slashed value := modest
        rw [Spare] at spare
        omega
  | reserveNamed id who value =>
      obtain ⟨r, ran, rfl⟩ := map_ok_iff.mp run
      rcases ok_of_reserveNamed sound (order who).1 ran with
        ⟨-, rfl⟩ | ⟨s₁, l, le, fits, moved, renamed, rfl⟩
      · exact .nothing rfl
      · exact .named ⟨rfl, rfl⟩ moved ((Nat.sub_le _ _).trans (sound.proper who).free_le) fits
          renamed (fun _ => by dsimp only [Imbalances.none, Imbalance.zero]; omega) (by omega)
  | unreserveNamed id who value =>
      obtain ⟨r, ran, rfl⟩ := map_ok_iff.mp run
      exact .of_unreserveNamed sound ⟨rfl, rfl⟩ (order who).1 rfl ran
  | slashReservedNamed id who value =>
      obtain ⟨r, ran, rfl⟩ := map_ok_iff.mp run
      cases slashReservedNamed_cases who id value sound (order who).1 with
      | inl kept =>
          cases kept.2.symm.trans ran
          exact .nothing rfl
      | inr done =>
          obtain ⟨k, s₁, l, most, moved, renamed, made⟩ := done
          cases made.symm.trans ran
          rcases moved with ⟨rfl, rfl⟩ | moved
          · exact .renamed ⟨rfl, rfl⟩ renamed rfl
          · exact .named ⟨rfl, rfl⟩ moved (sound.proper who).free_le
              ((Nat.sub_le _ _).trans (sound.proper who).reserved_le) renamed
              (fun _ => by dsimp only [Imbalances.ofNegative, Imbalance.zero]; omega) (by omega)
  | repatriateReservedNamed id slashed beneficiary value status =>
      obtain ⟨r, ran, rfl⟩ := map_ok_iff.mp run
      by_cases same : slashed = beneficiary
      · simp only [repatriateReservedNamed, if_pos same] at ran
        split at ran
        · cases ran
          exact .nothing rfl
        · cases status with
          | free => exact .of_unreserveNamed sound ⟨rfl, .inl rfl⟩ (order slashed).1 rfl ran
          | reserved =>
              cases ran
              exact .nothing rfl
      · rcases ok_of_repatriateReservedNamed sound order same ran with
          ⟨-, rfl⟩ | ⟨n, s₁, l, l', le, -, -, held, done, renamed, gained, rfl⟩
        · exact .nothing rfl
        · exact .repatriatedNamed ⟨rfl, .inl rfl⟩ ⟨rfl, .inr rfl⟩ same
            (held.trans (Nat.sub_le _ _)) le done renamed gained rfl
  | writeBalance who amount =>
      simp only [Op.run] at run
      rw [exec_get_bind] at run
      obtain ⟨d, s₁, written, rest⟩ := bind_ok_iff.mp run
      obtain ⟨-, allowed, rfl, rfl⟩ := ok_of_writeBalance sound written
      rw [exec_bind_of_ok exec_handleMaybeDust] at rest
      cases rest
      have moved : Moved c s who amount (s.account who).reserved _ := ⟨allowed, rfl⟩
      exact .moved moved fits (sound.proper who).reserved_le
        (fun _ => by dsimp only [Imbalances.ofChange]; omega) fun _ backed => backed
  | forceUnreserve origin who amount =>
      obtain ⟨r, ran, rfl⟩ := map_ok_iff.mp run
      rw [transactional_ok_iff] at ran
      simp only [forceUnreserve] at ran
      obtain ⟨-, ran⟩ := ensureRoot_bind_ok_iff.mp ran
      obtain ⟨who, known, ran⟩ := okOr_bind_ok_iff.mp ran
      obtain ⟨left, s₁, ran, rest⟩ := bind_ok_iff.mp ran
      cases rest
      exact .of_unreserve sound (fun modest => modest who known) rfl ran
  | upgradeAccounts origin who =>
      obtain ⟨r, ran, rfl⟩ := map_ok_iff.mp run
      obtain ⟨-, rfl⟩ := ok_of_upgradeAccounts sound (transactional_ok_iff.mp ran)
      exact .nothing rfl
  | forceSetBalance origin who newFree =>
      obtain ⟨r, ran, rfl⟩ := map_ok_iff.mp run
      obtain ⟨who, s₁, free, known, written, moved, rfl⟩ :=
        ok_of_forceSetBalance sound (transactional_ok_iff.mp ran)
      have free_le : free ≤ u128Max := by
        rw [written]
        split
        · exact Nat.zero_le _
        · exact fits
      refine .forced moved free_le rfl fun squares => ?_
      rw [written]
      exact squares who known
  | forceAdjustTotalIssuance origin direction delta =>
      obtain ⟨r, ran, rfl⟩ := map_ok_iff.mp run
      rw [transactional_ok_iff] at ran
      simp only [forceAdjustTotalIssuance] at ran
      obtain ⟨root, ran⟩ := ensureRoot_bind_ok_iff.mp ran
      obtain ⟨-, ran⟩ := ensure_bind_ok_iff.mp ran
      rw [exec_get_bind] at ran
      obtain ⟨-, ran⟩ := ensure_bind_ok_iff.mp ran
      cases ran
      exact .issued fun other _ => absurd root other
  | _ => exact .restricted trivial run

end
end Resonance.Balances
