import Mathlib.Algebra.BigOperators.Group.Multiset.Basic
import Resonance.Balances.Invariants

/-!
The books of the balances pallet.

What is issued and the positive imbalances outstanding add up to all balances and the
negative imbalances outstanding. An operation keeps this by handing out as imbalances
what it does not square itself, as long as no update of the total issuance is cut off
at its bounds, root does not adjust the issuance, no hold leaves dust and no
repatriation fails half way.
-/
namespace Resonance.Balances
open Storage StateMachine

variable {A I : Type} [DecidableEq A] {c : Config} {s s' : State A I} {who : A}

theorem AccountData.kept_total_add_dust (ed : ℕ) (d : AccountData) :
    (d.kept ed).total + d.dust ed = d.total := by
  rw [kept, dust]
  split
  next dies =>
    change 0 + d.free = d.free + d.reserved
    rw [dies.2, Nat.zero_add, Nat.add_zero]
  next => rfl

theorem AccountData.dust_le {ed : ℕ} {d : AccountData} : d.dust ed ≤ ed := by
  rw [dust]
  split
  next dies => exact dies.1.le
  next => exact Nat.zero_le _

/-- What a move does to the books: dust is gone on both sides. -/
theorem Moved.books {free reserved : ℕ} (sound : Sound c s)
    (moved : Moved c s who free reserved s') :
    ∃ dust, dust ≤ c.existentialDeposit ∧
      dust = ((s.account who).having free reserved).dust c.existentialDeposit ∧
      s'.balances + dust + (s.account who).total = s.balances + (free + reserved) ∧
      s'.totalIssuance = s.totalIssuance - dust := by
  obtain ⟨allowed, rfl⟩ := moved
  have balances := State.write_balances sound allowed
  have total := ((s.account who).having free reserved).kept_total_add_dust c.existentialDeposit
  refine ⟨_, AccountData.dust_le, rfl, ?_, ?_⟩
  · rw [State.settle, State.lose_balances]
    rw [AccountData.having_total] at total
    omega
  · rw [State.settle, State.lose, State.write_collections.2.2.2.2.1]

theorem Repatriated.books {slashed beneficiary : A} {n : ℕ} {status : Status} (sound : Sound c s)
    (enough : c.existentialDeposit ≤ s.totalIssuance) (most : n ≤ (s.account slashed).reserved)
    (done : Repatriated c s slashed beneficiary n status s') :
    s'.totalIssuance + s.balances = s.totalIssuance + s'.balances := by
  rcases done with ⟨-, rfl⟩ | ⟨ne, existing, s₁, free, reserved, first, second, -, -, gained⟩
  · rfl
  · have proper := sound.proper slashed
    have sound₁ := first.sound sound proper.free_le ((Nat.sub_le _ _).trans proper.reserved_le)
    have same : s₁.account beneficiary = s.account beneficiary := by
      rw [first.account_eq sound, Function.update_of_ne ne.symm]
    have alive := (sound.alive beneficiary).resolve_left existing
    obtain ⟨d₁, small, -, balances₁, issuance₁⟩ := first.books sound
    obtain ⟨d₂, -, dust, balances₂, issuance₂⟩ := second.books sound₁
    have lives : ¬ ((s₁.account beneficiary).having free reserved).Dies c.existentialDeposit := by
      intro dies
      have low : free < c.existentialDeposit ∧ reserved = 0 := dies
      refine alive ⟨?_, ?_⟩
      · omega
      · omega
    rw [AccountData.dust, if_neg lives] at dust
    subst dust
    rw [same] at balances₂
    simp only [AccountData.total] at balances₁ balances₂
    omega

/-- A repatriation that fails half way takes what it has drawn, and the dust, off the
balances alone. -/
theorem Lost.books {slashed beneficiary : A} {n : ℕ} (sound : Sound c s)
    (lost : Lost c s slashed beneficiary n s') :
    s'.balances + n + ((s.account slashed).drawn n).dust c.existentialDeposit = s.balances ∧
      s'.totalIssuance = s.totalIssuance := by
  obtain ⟨-, -, -, le, allowed, rfl⟩ := lost
  have balances := State.write_balances sound allowed
  have total := ((s.account slashed).drawn n).kept_total_add_dust c.existentialDeposit
  refine ⟨?_, State.write_collections.2.2.2.2.1⟩
  rw [AccountData.drawn, AccountData.having_total] at total
  simp only [AccountData.total, AccountData.drawn] at balances total ⊢
  omega

/-- The issuance follows the balances, up to what is handed out. -/
def Squared (s s' : State A I) (positive negative : ℕ) : Prop :=
  s'.totalIssuance + positive + s.balances = s.totalIssuance + s'.balances + negative

/-- A move squares when the imbalances are what it makes of the account. -/
theorem Moved.squared {free reserved p n : ℕ} (sound : Sound c s)
    (enough : c.existentialDeposit ≤ s.totalIssuance) (moved : Moved c s who free reserved s')
    (amounts : free + reserved + n = (s.account who).free + (s.account who).reserved + p) :
    Squared s s' p n := by
  obtain ⟨dust, small, -, balances, issuance⟩ := moved.books sound
  simp only [AccountData.total] at balances
  rw [Squared]
  omega

/-- Root squares the balance it forces, if the issuance can follow. -/
theorem Moved.forced {s₁ : State A I} {free : ℕ} (sound : Sound c s)
    (moved : Moved c s who free (s.account who).reserved s₁)
    (least : s.totalIssuance + free ≤ u128Max + (s.account who).free)
    (most : (s.account who).free + c.existentialDeposit ≤ s.totalIssuance + free)
    (enough : c.existentialDeposit ≤ s.totalIssuance) :
    Squared s { s₁ with
      totalIssuance :=
        if free > (s.account who).free then
          min (s₁.totalIssuance + (free - (s.account who).free)) u128Max
        else s₁.totalIssuance - ((s.account who).free - free) } 0 0 := by
  obtain ⟨dust, small, -, balances, issued⟩ := moved.books sound
  simp only [AccountData.total] at balances
  have follows : (if free > (s.account who).free then
      min (s.totalIssuance - dust + (free - (s.account who).free)) u128Max
    else s.totalIssuance - dust - ((s.account who).free - free)) + 0 + s.balances =
      s.totalIssuance + s₁.balances + 0 := by
    split
    · omega
    · omega
  rw [issued]
  exact follows

omit [DecidableEq A] in
theorem Squared.refl : Squared s s 0 0 := rfl

theorem Squared.put {positive negative : ℕ} (squared : Squared s s' positive negative)
    {l : List (ReserveData I)} : Squared s (s'.putReserves who l) positive negative :=
  squared

theorem squared_freezing (sound : Sound c s) {frozen : ℕ}
    (allowed : s.refusal c who ((s.account who).freezing frozen) = none) :
    Squared s (s.write c who ((s.account who).freezing frozen)) 0 0 := by
  have balances := State.write_balances sound allowed
  have kept : (((s.account who).freezing frozen).kept c.existentialDeposit).total =
      (s.account who).total := by
    rw [AccountData.kept]
    split
    next dies =>
      have gone : s.account who = default := (sound.alive who).resolve_right (not_not.mpr dies)
      rw [gone]
    next => rfl
  rw [Squared, State.write_collections.2.2.2.2.1]
  omega

section
variable [LinearOrder I]

/-- A hold changes the balances as its caller asked, if it leaves no dust. -/
theorem squared_setBalanceOnHold (sound : Sound c s) {reason : I} {amount : ℕ}
    (squares : (Op.setBalanceOnHold reason who amount).Squares c s)
    (run : exec (setBalanceOnHold c reason who amount) s = (.ok ⟨⟩, s')) :
    Squared s s' (amount - s.balanceOnHold reason who) (s.balanceOnHold reason who - amount) := by
  obtain ⟨reserved, -, change, -, allowed, -, rfl⟩ := ok_of_setBalanceOnHold sound run
  have balances := State.write_balances sound allowed
  have total := ((s.account who).having (s.account who).free reserved).kept_total_add_dust
    c.existentialDeposit
  have none : ((s.account who).having (s.account who).free reserved).dust
      c.existentialDeposit = 0 := by
    rw [AccountData.dust]
    split
    next dies =>
      have low : (s.account who).free < c.existentialDeposit ∧ reserved = 0 := dies
      rcases squares with provides | free | some
      · omega
      · exact free
      · omega
    next => rfl
  rw [none, AccountData.having_total] at total
  simp only [AccountData.total] at balances total
  rw [Squared, State.write_collections.2.2.2.2.1]
  change _ + _ = _ + (s.write c who _).balances + _
  omega

/-- An operation on locks, freezes or holds hands out what it did to the balances. -/
theorem squared_of_updates (sound : Sound c s) {op : Op A I} (restricts : op.Restricts)
    (squares : op.Squares c s) {i : Imbalances} (run : exec (op.run c) s = (.ok i, s')) :
    Squared s s' i.positive.amount i.negative.amount := by
  rcases updates_of_run restricts run with
    ⟨rfl, rfl | ⟨who, l, ran⟩ | ⟨who, l, ran⟩⟩ | ⟨reason, who, amount, rfl, rfl, ran⟩
  · exact .refl
  · rw [exec_updateLocks sound] at ran
    cases ran
    by_cases allowed :
        s.refusal c who ((s.account who).freezing (frozenBy l (s.freezes who))) = none
    · simp only [if_pos allowed]
      exact squared_freezing sound allowed
    · simp only [if_neg allowed]
      exact .refl
  · obtain ⟨allowed, rfl⟩ := ok_of_updateFreezes sound ran
    exact squared_freezing sound allowed
  · exact squared_setBalanceOnHold sound squares ran

/-- What an operation hands out squares what it did. -/
theorem Effect.squared (sound : Sound c s) {op : Op A I} {i : Imbalances}
    (effect : Effect c s op i s') (squares : op.Squares c s)
    (enough : c.existentialDeposit ≤ s.totalIssuance) (issuance : s.totalIssuance ≤ u128Max)
    (room : s.balances ≤ u128Max) : Squared s s' i.positive.amount i.negative.amount := by
  cases effect with
  | issued same =>
      have same := same squares issuance
      rw [Squared]
      change _ + s.balances = _ + s.balances + _
      dsimp only
      omega
  | moved moved _ _ amounts _ => exact moved.squared sound enough (amounts room)
  | forced moved _ none bounds =>
      subst none
      exact moved.forced sound (bounds squares).1 (bounds squares).2 enough
  | renamed _ _ same =>
      have kept : s.totalIssuance + i.positive.amount + s.balances =
        s.totalIssuance + s.balances + i.negative.amount := by omega
      exact kept
  | named _ moved _ _ _ amounts _ => exact (moved.squared sound enough (amounts room)).put
  | repatriated _ most done none _ => exact none ▸ done.books sound enough most
  | @repatriatedNamed _ _ _ _ _ _ _ s₁ _ _ _ most _ done _ _ none =>
      subst none
      have squared : Squared s s₁ 0 0 := done.books sound enough most
      exact squared.put.put
  | restricted restricts run => exact squared_of_updates sound restricts squares run

theorem Failure.squared (sound : Sound c s) {op : Op A I} (failure : Failure c s op s')
    (squares : op.Squares c s) (enough : c.existentialDeposit ≤ s.totalIssuance) :
    Squared s s' 0 0 := by
  cases failure with
  | kept => exact .refl
  | rewritten moved => exact moved.squared sound enough (by omega)
  | lost _ unsquare _ => exact absurd squares unsquare
  | unnamed most done _ => exact done.books sound enough most

end

def owed {side : Side} (is : Multiset (Imbalance side)) : ℕ := (is.map Imbalance.amount).sum

section
variable {side : Side} {i j : Imbalance side} {is : Multiset (Imbalance side)}

@[simp] theorem owed_zero : owed (0 : Multiset (Imbalance side)) = 0 := rfl

@[simp] theorem owed_cons : owed (i ::ₘ is) = i.amount + owed is := by
  rw [owed, Multiset.map_cons, Multiset.sum_cons, owed]

theorem owed_erase (mem : i ∈ is) : i.amount + owed (is.erase i) = owed is := by
  rw [← owed_cons, Multiset.cons_erase mem]

end

section
variable [LinearOrder I] {w w' : World A I}

def World.Balanced (w : World A I) : Prop :=
  w.state.totalIssuance + owed w.positive = w.state.balances + owed w.negative

/-- No update of the total issuance is cut off, and the operation squares. -/
def World.Covered (c : Config) (w : World A I) : Label A I → Prop
  | .call op => w.state.totalIssuance + owed w.positive ≤ u128Max ∧
    c.existentialDeposit ≤ w.state.totalIssuance ∧ op.Squares c w.state
  | .dropNegative i => w.state.totalIssuance + owed w.positive ≤ u128Max ∧
    i.amount ≤ w.state.totalIssuance
  | _ => w.state.totalIssuance + owed w.positive ≤ u128Max

theorem World.Covered.room {l : Label A I} (covered : w.Covered c l) :
    w.state.totalIssuance + owed w.positive ≤ u128Max := by
  cases l with
  | call _ => exact covered.1
  | dropNegative _ => exact covered.1
  | _ => exact covered

omit [LinearOrder I] in
theorem endow_balances {l : List (A × ℕ)} (nodup : (l.map Prod.fst).Nodup)
    (fresh : ∀ b ∈ l, s.account b.1 = default) :
    (s.endow c l).balances = s.balances + (l.map Prod.snd).sum := by
  induction l generalizing s with
  | nil => rfl
  | cons b l ih =>
      obtain ⟨who, free⟩ := b
      simp only [List.forall_mem_cons] at fresh
      rw [List.map_cons, List.nodup_cons] at nodup
      let s₁ := s.putRefs who (c.system.incProviders (s.refs who))
      have provided : (s₁.refs who).Stored := by
        rw [State.putRefs_refs, Function.update_self, c.system.incProviders_eq]
        exact .inl (Nat.succ_pos _)
      have stored : ¬ (s₁.refs who).Stored → some (AccountData.endowed free) = none :=
        fun gone => absurd provided gone
      have more := State.putData_balances stored
      have same : (s₁.account who).total = 0 := by
        rw [State.putRefs_account, fresh.1]
        rfl
      rw [State.endow, ih nodup.2, List.map_cons, List.sum_cons]
      · change (s₁.putData who (some (AccountData.endowed free))).balances + _ = s₁.balances + _
        rw [same] at more
        change _ = s₁.balances + (free + 0) at more
        omega
      · intro b mem
        have other : b.1 ≠ who := fun same => nodup.1 (List.mem_map.mpr ⟨b, mem, same⟩)
        change (s₁.putData who (some (AccountData.endowed free))).account b.1 = _
        rw [State.putData_account stored, Function.update_of_ne other, State.putRefs_account]
        exact fresh.2 b mem

omit [LinearOrder I] in
theorem World.Balanced.of_initial (init : World.Initial c w) : w.Balanced := by
  obtain ⟨balances, built, positive, negative, -⟩ := init
  simp only [genesis, Option.ite_none_right_eq_some] at built
  obtain ⟨⟨-, -, nodup⟩, built⟩ := built
  have all := endow_balances (c := c) (s := (State.empty : State A I)) nodup fun _ _ => rfl
  have nothing : (State.empty : State A I).balances = 0 := rfl
  have same : w.state.balances = (State.endow c (State.empty : State A I) balances).balances ∧
      w.state.totalIssuance = (balances.map Prod.snd).sum := by
    rw [← Option.some.inj built]
    exact ⟨rfl, rfl⟩
  rw [World.Balanced, positive, negative, owed_zero, owed_zero, same.1, same.2, all, nothing]
  omega

theorem World.balanced_call (kept : w.Kept c) (balanced : w.Balanced) {op : Op A I}
    (fits : op.Fits) (covered : w.Covered c (.call op)) : (w.called c op).Balanced := by
  obtain ⟨room, enough, squares⟩ := covered
  rw [World.Balanced] at balanced
  rw [World.called]
  rcases run : exec (op.run c) w.state with ⟨e | i, s⟩
  · have failure := failure_of_run kept.sound kept.ordered run
    have squared := failure.squared kept.sound squares enough
    rw [Squared] at squared
    simp only [World.Balanced]
    omega
  · have effect := effect_of_run kept.sound kept.ordered fits run
    have squared := effect.squared kept.sound squares enough (by omega) (by omega)
    rw [Squared] at squared
    simp only [World.Balanced, owed_cons]
    omega

theorem World.balanced_step (kept : w.Kept c) (balanced : w.Balanced) {l : Label A I}
    (covered : w.Covered c l) (step : World.Step c w l w') : w'.Balanced := by
  have room := covered.room
  have books := balanced
  rw [World.Balanced] at books
  have referenced {who : A} {r : Reference}
      (held : r = .decProviders → 0 < (w.others who).providers) :
      (w.referenced c who r).Balanced := by
    have same := World.referenced_same who kept held
    rw [World.Balanced, same.issuance, same.balances, same.positive, same.negative]
    exact balanced
  cases step with
  | call fits => exact World.balanced_call kept balanced fits covered
  | @dropPositive i mem =>
      have all := owed_erase mem
      have issued : (if i.amount = 0 then w.state.totalIssuance
          else min (w.state.totalIssuance + i.amount) u128Max) + owed (w.positive.erase i) =
          w.state.balances + owed w.negative := by
        split
        · omega
        · omega
      rw [exec_dropPositive]
      exact issued
  | @dropNegative i mem =>
      have all := owed_erase mem
      have enough : i.amount ≤ _ := covered.2
      have burnt : w.state.totalIssuance - i.amount + owed w.positive =
          w.state.balances + owed (w.negative.erase i) := by
        omega
      rw [exec_dropNegative]
      exact burnt
  | splitPositive mem =>
      have all := owed_erase mem
      simp only [World.Balanced, owed_cons, Imbalance.split]
      omega
  | splitNegative mem =>
      have all := owed_erase mem
      simp only [World.Balanced, owed_cons, Imbalance.split]
      omega
  | mergePositive mem mem' =>
      have all := owed_erase mem
      have rest := owed_erase mem'
      simp only [World.Balanced, owed_cons, Imbalance.merge]
      omega
  | mergeNegative mem mem' =>
      have all := owed_erase mem
      have rest := owed_erase mem'
      simp only [World.Balanced, owed_cons, Imbalance.merge]
      omega
  | @offset i j mem mem' =>
      have all := owed_erase mem
      have rest := owed_erase mem'
      simp only [World.offset, Imbalance.offset]
      split
      next none =>
        split at none
        · cases none
        · split at none
          · cases none
          · simp only [World.Balanced]
            omega
      next same =>
        split at same
        · cases same
          simp only [World.Balanced, owed_cons]
          omega
        · split at same
          · cases same
          · cases same
      next other =>
        split at other
        · cases other
        · split at other
          · cases other
            rw [World.Balanced]
            change w.state.totalIssuance + owed (w.positive.erase i) =
              w.state.balances + owed (⟨j.amount - i.amount⟩ ::ₘ w.negative.erase j)
            rw [owed_cons]
            dsimp only
            omega
          · cases other
  | incProviders => exact referenced (by simp)
  | decProviders held => exact referenced fun _ => held
  | incConsumers => exact referenced (by simp)
  | decConsumers _ => exact referenced (by simp)

/-- In a run whose operations square, what is issued and what is outstanding add up: without
imbalances, the issuance is the sum of all balances. -/
theorem World.issuance_balances
    (reachable : Reachable ((World.machine c).restrict (World.Covered c)) w) :
    w.state.totalIssuance + owed w.positive = w.state.balances + owed w.negative ∧
      (w.positive = 0 → w.negative = 0 → w.state.totalIssuance = w.state.balances) := by
  have both : w.Kept c ∧ w.Balanced :=
    reachable.invariant (I := fun w => w.Kept c ∧ w.Balanced)
      (fun _ init => ⟨.of_initial init, .of_initial init⟩) (by
        rintro w l w' - ⟨kept, balanced⟩ ⟨covered, step⟩
        exact ⟨(World.keeps_step kept step).1, World.balanced_step kept balanced covered step⟩)
  have balanced := both.2
  rw [World.Balanced] at balanced
  refine ⟨balanced, fun positive negative => ?_⟩
  rw [positive, negative, owed_zero, owed_zero] at balanced
  exact balanced

set_option maxRecDepth 10000 in
/-- What is issued without an owner is owed. -/
theorem World.issuance_balances_issued :
    (World.endowed.called .small (.issue 10)).state.totalIssuance + 0 = 50 + 10 := by
  have covered : World.Covered .small World.endowed (.call (.issue 10)) :=
    ⟨by decide, by decide, trivial⟩
  have reachable : Reachable ((World.machine .small).restrict (World.Covered .small))
      (World.endowed.called .small (.issue 10)) :=
    (Reachable.start World.initial_endowed).next ⟨covered, .call trivial⟩
  exact (World.issuance_balances reachable).1.trans (by decide)

end

end Resonance.Balances
