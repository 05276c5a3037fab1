import Mathlib.Algebra.Order.Group.Nat
import Resonance.Balances.References

/-!
What holds of the balances pallet in every state a run reaches.

References are in order and counted, no account is kept that should have died, and the
named reserves are sorted. A consumer reference that is left behind by an account that
died frozen is never given back.
-/
namespace Resonance.Balances
open Storage StateMachine Relation

variable {A I : Type} [DecidableEq A] {c : Config} {s s' : State A I} {who a : A}

/-- An account with nothing but a free balance. -/
def AccountData.endowed (free : ℕ) : AccountData := ⟨⟨free, 0, 0⟩, IS_NEW_LOGIC⟩

theorem AccountData.not_consumes_endowed {free : ℕ} : ¬ (endowed free).Consumes :=
  fun consumes => consumes.elim (absurd rfl) (absurd rfl)

theorem AccountData.Proper.endowed {free : ℕ} (fits : free ≤ u128Max) :
    (AccountData.endowed free).Proper :=
  ⟨AccountData.Proper.of_default.upgraded, fits, Nat.zero_le _⟩

/-- To endow an account is to write it. -/
theorem endow_eq_write {free : ℕ} (fresh : s.account who = default)
    (enough : c.existentialDeposit ≤ free) :
    (s.putRefs who (c.system.incProviders (s.refs who))).putData who
        (some (AccountData.endowed free)) = s.write c who (.endowed free) ∧
      s.refusal c who (.endowed free) = none := by
  have positive := c.existentialDeposit_pos
  have did : ¬ (default : AccountData).Provides c.existentialDeposit := Nat.not_le_of_lt positive
  have lives : ¬ (AccountData.endowed free).Dies c.existentialDeposit :=
    fun dies => Nat.not_le_of_lt dies.1 enough
  have does : (AccountData.endowed free).Provides c.existentialDeposit := enough
  refine ⟨?_, ?_⟩
  · rw [State.write, if_neg lives, State.moved, movedReferences, c.system.incProviders_eq]
    simp [did, does, AccountData.not_consumes_endowed, fresh, AccountData.not_consumes_default,
      movedConsumers, movedProviders]
  · exact State.refusal_eq_none_iff.mpr
      ⟨fun _ consumes => absurd consumes AccountData.not_consumes_endowed,
        fun provided => absurd (fresh ▸ provided) did⟩

theorem endow_wrote {l : List (A × ℕ)} (enough : ∀ b ∈ l, c.existentialDeposit ≤ b.2)
    (fits : ∀ b ∈ l, b.2 ≤ u128Max) (nodup : (l.map Prod.fst).Nodup)
    (fresh : ∀ b ∈ l, s.account b.1 = default) (sound : Sound c s) :
    ReflTransGen (Wrote c) s (s.endow c l) := by
  induction l generalizing s with
  | nil => exact .refl
  | cons b l ih =>
      obtain ⟨who, free⟩ := b
      simp only [List.forall_mem_cons] at enough fits fresh
      rw [List.map_cons, List.nodup_cons] at nodup
      obtain ⟨step, allowed⟩ := endow_eq_write fresh.1 enough.1
      have written : Wrote c s (s.write c who (.endowed free)) :=
        .wrote allowed (.endowed fits.1) rfl rfl
      have rest := ih (s := s.write c who (.endowed free)) enough.2 fits.2 nodup.2 (by
        intro b mem
        have other : b.1 ≠ who := fun same => nodup.1 (List.mem_map.mpr ⟨b, mem, same⟩)
        rw [State.write_account_of_ne sound allowed other]
        exact fresh.2 b mem) (written.sound sound)
      rw [← step] at rest written
      exact (ReflTransGen.single written).trans rest

/-- What every reachable state keeps. -/
structure World.Kept [LinearOrder I] (c : Config) (w : World A I) : Prop where
  sound : Sound c w.state
  ordered : NamedInOrder c w.state
  counted : Counted c w.others w.state

theorem Sound.of_empty : Sound c (State.empty : State A I) := by
  have positive := c.existentialDeposit_pos
  refine ⟨fun _ => .of_default, fun _ => .inl rfl, ?_, ?_, fun _ => id⟩
  · exact fun _ provides => absurd provides (Nat.not_le_of_lt positive)
  · exact fun _ consumes => absurd consumes AccountData.not_consumes_default

theorem Counted.of_empty : Counted c (fun _ => default) (State.empty : State A I) := by
  have positive := c.existentialDeposit_pos
  have provides : ¬ (default : AccountData).Provides c.existentialDeposit :=
    Nat.not_le_of_lt positive
  refine ⟨fun a => ?_, fun a => ?_⟩
  · change 0 = 0 + if (default : AccountData).Provides c.existentialDeposit then 1 else 0
    rw [if_neg provides]
  · change 0 + (if (default : AccountData).Consumes then 1 else 0) ≤ 0
    rw [if_neg AccountData.not_consumes_default]

theorem Wrote.chain_counted {others : A → AccountRefs} (sound : Sound c s)
    (counted : Counted c others s) (chain : ReflTransGen (Wrote c) s s') :
    Counted c others s' ∧ ∀ a, stranded others s a ≤ stranded others s' a := by
  induction chain with
  | refl => exact ⟨counted, fun _ => Nat.le_refl _⟩
  | tail first last ih =>
      obtain ⟨counted', more⟩ := last.counted (Wrote.chain_sound sound first) ih.1
      exact ⟨counted', fun a => (ih.2 a).trans (more a)⟩

section
variable [LinearOrder I] {w w' : World A I}

omit [LinearOrder I] in
theorem endow_collections {l : List (A × ℕ)} :
    (s.endow c l).locks = s.locks ∧ (s.endow c l).reserves = s.reserves ∧
      (s.endow c l).holds = s.holds ∧ (s.endow c l).freezes = s.freezes := by
  induction l generalizing s with
  | nil => exact ⟨rfl, rfl, rfl, rfl⟩
  | cons b l ih =>
      have put (s : State A I) (who : A) (d : Option AccountData) :
          (s.putData who d).locks = s.locks ∧ (s.putData who d).reserves = s.reserves ∧
            (s.putData who d).holds = s.holds ∧ (s.putData who d).freezes = s.freezes := by
        rw [State.putData]
        split
        · exact ⟨rfl, rfl, rfl, rfl⟩
        · exact ⟨rfl, rfl, rfl, rfl⟩
      obtain ⟨locks, reserves, holds, freezes⟩ := ih (s := (s.putRefs b.1
        (c.system.incProviders (s.refs b.1))).putData b.1 (some (.endowed b.2)))
      obtain ⟨locks', reserves', holds', freezes'⟩ :=
        put (s.putRefs b.1 (c.system.incProviders (s.refs b.1))) b.1 (some (.endowed b.2))
      exact ⟨locks.trans locks', reserves.trans reserves', holds.trans holds',
        freezes.trans freezes'⟩

omit [LinearOrder I] in
theorem World.initial_collections (init : World.Initial c w) :
    w.state.locks = (fun _ => []) ∧ w.state.reserves = (fun _ => []) ∧
      w.state.holds = (fun _ => []) ∧ w.state.freezes = fun _ => [] := by
  obtain ⟨balances, built, -⟩ := init
  simp only [genesis, Option.ite_none_right_eq_some] at built
  rw [← Option.some.inj built.2]
  exact endow_collections

theorem World.Kept.of_initial (init : World.Initial c w) : w.Kept c := by
  have endowed := init
  obtain ⟨balances, built, -, -, others⟩ := endowed
  simp only [genesis, Option.ite_none_right_eq_some] at built
  obtain ⟨⟨fits, enough, nodup⟩, built⟩ := built
  have each : ∀ b ∈ balances, b.2 ≤ u128Max := fun b mem =>
    (List.single_le_sum (fun _ _ => Nat.zero_le _) _ (List.mem_map_of_mem mem)).trans fits
  have chain := endow_wrote enough each nodup (fun _ _ => rfl) (Sound.of_empty (I := I) (c := c))
  have same : w.state.account = (State.endow c (State.empty : State A I) balances).account ∧
      w.state.refs = (State.endow c (State.empty : State A I) balances).refs := by
    rw [← Option.some.inj built]
    exact ⟨rfl, rfl⟩
  have last : Wrote c (State.endow c (State.empty : State A I) balances) w.state :=
    .kept same.1 same.2
  refine ⟨last.sound (Wrote.chain_sound .of_empty chain), ?_, ?_⟩
  · intro a
    rw [(World.initial_collections init).2.1]
    exact ⟨List.Pairwise.nil, Nat.zero_le _⟩
  · rw [others]
    exact (Wrote.chain_counted .of_empty .of_empty (chain.tail last)).1

/-- Kept, and with no stranded reference less. -/
def World.Keeps (c : Config) (w w' : World A I) : Prop :=
  w'.Kept c ∧ ∀ a, stranded w.others w.state a ≤ stranded w'.others w'.state a

theorem World.keeps_of_same (kept : w.Kept c) (account : w'.state.account = w.state.account)
    (refs : w'.state.refs = w.state.refs) (reserves : w'.state.reserves = w.state.reserves)
    (others : w'.others = w.others) : World.Keeps c w w' := by
  obtain ⟨counted, more⟩ := (Wrote.kept account refs).counted kept.sound kept.counted
  refine ⟨⟨kept.sound.congr account refs, ?_, ?_⟩, ?_⟩
  · rw [NamedInOrder, reserves]
    exact kept.ordered
  · rw [others]
    exact counted
  · rw [others]
    exact more

/-- The references of one account change together with what others hold of it. -/
theorem World.keeps_of_refs (kept : w.Kept c) {r o : AccountRefs}
    (account : w'.state.account = w.state.account) (reserves : w'.state.reserves = w.state.reserves)
    (refs : w'.state.refs = Function.update w.state.refs who r)
    (others : w'.others = Function.update w.others who o)
    (providers : r.providers + (w.others who).providers =
      (w.state.refs who).providers + o.providers)
    (consumers : r.consumers + (w.others who).consumers =
      (w.state.refs who).consumers + o.consumers)
    (supported : 0 < r.consumers → 0 < r.providers) : World.Keeps c w w' := by
  have counted : Counted c w'.others w'.state := by
    refine ⟨?_, ?_⟩
    · intro a
      have before := kept.counted.providers a
      rw [account, refs, others, Function.update_apply, Function.update_apply]
      split
      next same =>
        subst same
        omega
      next => exact before
    · intro a
      have before := kept.counted.consumers a
      rw [account, refs, others, Function.update_apply, Function.update_apply]
      split
      next same =>
        subst same
        omega
      next => exact before
  refine ⟨⟨⟨?_, ?_, ?_, ?_, ?_⟩, ?_, counted⟩, ?_⟩
  · rw [account]
    exact kept.sound.proper
  · rw [account]
    exact kept.sound.alive
  · intro a provides
    rw [counted.providers, if_pos provides]
    exact Nat.succ_pos _
  · intro a consumes
    have most := counted.consumers a
    rw [if_pos consumes] at most
    omega
  · intro a
    rw [refs, Function.update_apply]
    split
    · exact supported
    · exact kept.sound.supported a
  · rw [NamedInOrder, reserves]
    exact kept.ordered
  · intro a
    rw [stranded, stranded, account, refs, others, Function.update_apply, Function.update_apply]
    by_cases same : a = who
    · subst same
      rw [if_pos rfl, if_pos rfl]
      omega
    · rw [if_neg same, if_neg same]

theorem World.keeps_call (kept : w.Kept c) {op : Op A I} (fits : op.Fits) :
    World.Keeps c w (w.called c op) := by
  have keeps {s : State A I} (chain : ReflTransGen (Wrote c) w.state s)
      (ordered : NamedInOrder c s) : Sound c s ∧ NamedInOrder c s ∧ Counted c w.others s ∧
        ∀ a, stranded w.others w.state a ≤ stranded w.others s a :=
    ⟨Wrote.chain_sound kept.sound chain, ordered,
      Wrote.chain_counted kept.sound kept.counted chain⟩
  rw [World.called]
  rcases run : exec (op.run c) w.state with ⟨e | i, s⟩
  · have failure := (failure_of_run kept.sound kept.ordered run).quiet kept.sound
    obtain ⟨sound, ordered, counted, more⟩ := keeps (Quiet.chain_wrote kept.sound failure.1)
      (Quiet.chain_ordered failure.1 kept.ordered)
    exact ⟨⟨sound, ordered, counted⟩, more⟩
  · obtain ⟨sound, ordered, counted, more⟩ := keeps
      (wrote_of_run kept.sound kept.ordered fits run)
      (ordered_of_run kept.sound kept.ordered fits run)
    exact ⟨⟨sound, ordered, counted⟩, more⟩

/-- Without consumers, and without a provider of the pallet's own, there is no account. -/
theorem World.Kept.unprovided (kept : w.Kept c)
    (providers : (w.state.refs who).providers = (w.others who).providers)
    (consumers : (w.state.refs who).consumers = 0) : w.state.account who = default := by
  have provided := kept.counted.providers who
  have consumed := kept.counted.consumers who
  have provides : ¬ (w.state.account who).Provides c.existentialDeposit := by
    intro provides
    rw [if_pos provides] at provided
    omega
  have consumes : ¬ (w.state.account who).Consumes := by
    intro consumes
    rw [if_pos consumes] at consumed
    omega
  refine (kept.sound.alive who).resolve_right (not_not.mpr ⟨Nat.lt_of_not_le provides, ?_⟩)
  exact Classical.byContradiction fun reserved => consumes (.inl reserved)

/-- Who loses the last provider has no account. -/
theorem World.Kept.last_provider (kept : w.Kept c) (held : 0 < (w.others who).providers)
    (free : (w.state.refs who).CanDecProvider)
    (gone : ¬ AccountRefs.Stored { w.state.refs who with
      providers := (w.state.refs who).providers - 1 }) :
    (w.state.refs who).providers = 1 ∧ (w.state.refs who).consumers = 0 ∧
      w.state.account who = default := by
  have counted := kept.counted.providers who
  have able : (w.state.refs who).consumers = 0 ∨ (w.state.refs who).providers > 1 := free
  simp only [AccountRefs.Stored, not_or, Nat.not_lt, Nat.le_zero] at gone
  exact ⟨by omega, by omega, kept.unprovided (by omega) (by omega)⟩

/-- Another pallet gives a provider back. -/
theorem World.keeps_decProviders (kept : w.Kept c) (held : 0 < (w.others who).providers) :
    World.Keeps c w (w.referenced c who .decProviders) := by
  have counted := kept.counted.providers who
  have positive : 0 < (w.state.refs who).providers := by omega
  simp only [World.referenced]
  rw [exec_decProviders positive]
  split
  next s₁ run =>
    split at run
    next free =>
      cases run
      have refs : movedProviders true false (w.state.refs who) =
          { w.state.refs who with providers := (w.state.refs who).providers - 1 } := by
        simp [movedProviders]
      rw [refs, State.putRefs_refs, Function.update_self]
      have supported : 0 < (w.state.refs who).consumers → 0 < (w.state.refs who).providers - 1 := by
        have able : (w.state.refs who).consumers = 0 ∨ (w.state.refs who).providers > 1 := free
        omega
      split
      next stored =>
        exact World.keeps_of_refs (o := { w.others who with
          providers := (w.others who).providers - 1 }) kept rfl rfl rfl rfl
          (by dsimp only; omega) rfl supported
      next gone =>
        obtain ⟨last, alone, none⟩ := kept.last_provider held free gone
        refine World.keeps_of_refs (r := default) (o := { w.others who with
          providers := (w.others who).providers - 1 }) kept ?_ ?_ ?_ rfl ?_ ?_ (fun some => ?_)
        · rw [State.putData_account fun _ => rfl]
          exact (congrArg _ none.symm).trans (Function.update_eq_self _ _)
        · rw [State.putData, if_neg (by rwa [State.putRefs_refs, Function.update_self])]
          rfl
        · rw [State.putData, if_neg (by rwa [State.putRefs_refs, Function.update_self])]
          simp
        · change 0 + _ = _
          dsimp only
          omega
        · change 0 + _ = _
          dsimp only
          omega
        · cases some
    next => cases run
  next => exact World.keeps_of_same kept rfl rfl rfl rfl

theorem World.keeps_decConsumers (kept : w.Kept c) (held : 0 < (w.others who).consumers) :
    World.Keeps c w (w.referenced c who .decConsumers) := by
  have counted := kept.counted.consumers who
  have positive : 0 < (w.state.refs who).consumers := by omega
  have supported := kept.sound.supported who positive
  simp only [World.referenced, World.putOthers]
  rw [exec_decConsumers positive]
  refine World.keeps_of_refs (o := { w.others who with
    consumers := (w.others who).consumers - 1 }) kept rfl rfl rfl rfl ?_ ?_ fun _ => ?_
  · simp [movedConsumers]
  · simp only [movedConsumers, Bool.toNat_false, Bool.toNat_true]
    omega
  · exact supported

theorem World.keeps_incConsumers (kept : w.Kept c) :
    World.Keeps c w (w.referenced c who .incConsumers) := by
  simp only [World.referenced, World.putOthers]
  rw [exec_incConsumers]
  cases refused : refusedConsumer c false true (w.state.refs who) with
  | none =>
      obtain ⟨provided, -⟩ := refusedConsumer_eq_none_iff.mp refused (by simp) rfl
      refine World.keeps_of_refs (o := { w.others who with
        consumers := (w.others who).consumers + 1 }) kept rfl rfl rfl rfl ?_ ?_ fun _ => ?_
      · simp [movedConsumers]
      · simp only [movedConsumers, Bool.toNat_false, Bool.toNat_true]
        omega
      · exact provided
  | some e => exact World.keeps_of_same kept rfl rfl rfl rfl

theorem World.keeps_incProviders (kept : w.Kept c) :
    World.Keeps c w (w.referenced c who .incProviders) := by
  simp only [World.referenced, World.putOthers]
  rw [exec_incProviders]
  refine World.keeps_of_refs (o := { w.others who with
    providers := (w.others who).providers + 1 }) kept rfl rfl rfl rfl ?_ ?_ fun _ => ?_
  · simp only [movedProviders, Bool.toNat_false, Bool.toNat_true]
    omega
  · rfl
  · exact Nat.succ_pos _

/-- A reference of another pallet is no balance and no claim. -/
structure World.Same (w w' : World A I) : Prop where
  account : w'.state.account = w.state.account
  balances : w'.state.balances = w.state.balances
  issuance : w'.state.totalIssuance = w.state.totalIssuance
  locks : w'.state.locks = w.state.locks
  reserves : w'.state.reserves = w.state.reserves
  holds : w'.state.holds = w.state.holds
  freezes : w'.state.freezes = w.state.freezes
  positive : w'.positive = w.positive
  negative : w'.negative = w.negative

theorem World.referenced_same (who : A) (kept : w.Kept c) {r : Reference}
    (held : r = .decProviders → 0 < (w.others who).providers) :
    World.Same w (w.referenced c who r) := by
  cases r with
  | incProviders => exact ⟨rfl, rfl, rfl, rfl, rfl, rfl, rfl, rfl, rfl⟩
  | decProviders =>
      have held := held rfl
      have counted := kept.counted.providers who
      have positive : 0 < (w.state.refs who).providers := by omega
      simp only [World.referenced]
      rw [exec_decProviders positive]
      split
      next s₁ run =>
        split at run
        next free =>
          cases run
          split
          next => exact ⟨rfl, rfl, rfl, rfl, rfl, rfl, rfl, rfl, rfl⟩
          next gone =>
            have refs : movedProviders true false (w.state.refs who) =
                { w.state.refs who with providers := (w.state.refs who).providers - 1 } := by
              simp [movedProviders]
            have removed := gone
            rw [refs, State.putRefs_refs, Function.update_self] at removed
            obtain ⟨-, -, fresh⟩ := kept.last_provider held free removed
            let s₁ := w.state.putRefs who (movedProviders true false (w.state.refs who))
            have balances := @State.putData_balances _ _ _ s₁ who none fun _ => rfl
            have account := @State.putData_account _ _ _ s₁ who none fun _ => rfl
            rw [State.putRefs_account] at balances account
            rw [fresh] at balances
            refine ⟨account.trans ?_, balances, ?_, ?_, ?_, ?_, ?_, rfl, rfl⟩
            · exact (congrArg _ fresh.symm).trans (Function.update_eq_self _ _)
            all_goals
              rw [State.putData, if_neg gone]
              rfl
        next => cases run
      next => exact ⟨rfl, rfl, rfl, rfl, rfl, rfl, rfl, rfl, rfl⟩
  | incConsumers =>
      simp only [World.referenced]
      rw [exec_incConsumers]
      cases refusedConsumer c false true (w.state.refs who) with
      | none => exact ⟨rfl, rfl, rfl, rfl, rfl, rfl, rfl, rfl, rfl⟩
      | some e => exact ⟨rfl, rfl, rfl, rfl, rfl, rfl, rfl, rfl, rfl⟩
  | decConsumers => exact ⟨rfl, rfl, rfl, rfl, rfl, rfl, rfl, rfl, rfl⟩

theorem World.keeps_step (kept : w.Kept c) {l : Label A I} (step : World.Step c w l w') :
    World.Keeps c w w' := by
  cases step with
  | call fits => exact World.keeps_call kept fits
  | dropPositive _ =>
      rw [exec_dropPositive]
      exact World.keeps_of_same kept rfl rfl rfl rfl
  | dropNegative _ =>
      rw [exec_dropNegative]
      exact World.keeps_of_same kept rfl rfl rfl rfl
  | splitPositive _ => exact World.keeps_of_same kept rfl rfl rfl rfl
  | splitNegative _ => exact World.keeps_of_same kept rfl rfl rfl rfl
  | mergePositive _ _ => exact World.keeps_of_same kept rfl rfl rfl rfl
  | mergeNegative _ _ => exact World.keeps_of_same kept rfl rfl rfl rfl
  | @offset i j _ _ =>
      rw [World.offset]
      cases i.offset j with
      | none => exact World.keeps_of_same kept rfl rfl rfl rfl
      | same i => exact World.keeps_of_same kept rfl rfl rfl rfl
      | other j => exact World.keeps_of_same kept rfl rfl rfl rfl
  | incProviders => exact World.keeps_incProviders kept
  | decProviders held => exact World.keeps_decProviders kept held
  | incConsumers => exact World.keeps_incConsumers kept
  | decConsumers held => exact World.keeps_decConsumers kept held

/-- A step calls an operation that goes through or fails, or moves nothing but imbalances
and references. -/
theorem World.step_cases (kept : w.Kept c) {l : Label A I} (step : World.Step c w l w') :
    (∃ op, l = .call op ∧ op.Fits ∧ ((∃ i, exec (op.run c) w.state = (.ok i, w'.state)) ∨
      ∃ e, exec (op.run c) w.state = (.error e, w'.state))) ∨
      (∀ op, l ≠ .call op) ∧
        w'.state.account = w.state.account ∧ w'.state.locks = w.state.locks ∧
        w'.state.reserves = w.state.reserves ∧ w'.state.holds = w.state.holds ∧
        w'.state.freezes = w.state.freezes := by
  have referenced {who : A} {r : Reference}
      (held : r = .decProviders → 0 < (w.others who).providers) :
      (w.referenced c who r).state.account = w.state.account ∧
        (w.referenced c who r).state.locks = w.state.locks ∧
        (w.referenced c who r).state.reserves = w.state.reserves ∧
        (w.referenced c who r).state.holds = w.state.holds ∧
        (w.referenced c who r).state.freezes = w.state.freezes := by
    have same := World.referenced_same who kept held
    exact ⟨same.account, same.locks, same.reserves, same.holds, same.freezes⟩
  cases step with
  | @call op fits =>
      refine .inl ⟨op, rfl, fits, ?_⟩
      rw [World.called]
      rcases run : exec (op.run c) w.state with ⟨e | i, s⟩
      · exact .inr ⟨e, rfl⟩
      · exact .inl ⟨i, rfl⟩
  | dropPositive _ =>
      rw [exec_dropPositive]
      exact .inr ⟨(fun _ call => by cases call), rfl, rfl, rfl, rfl, rfl⟩
  | dropNegative _ =>
      rw [exec_dropNegative]
      exact .inr ⟨(fun _ call => by cases call), rfl, rfl, rfl, rfl, rfl⟩
  | splitPositive _ | splitNegative _ | mergePositive _ _ | mergeNegative _ _ =>
      exact .inr ⟨(fun _ call => by cases call), rfl, rfl, rfl, rfl, rfl⟩
  | @offset i j _ _ =>
      refine .inr ⟨(fun _ call => by cases call), ?_⟩
      rw [World.offset]
      cases i.offset j with
      | none => exact ⟨rfl, rfl, rfl, rfl, rfl⟩
      | same i => exact ⟨rfl, rfl, rfl, rfl, rfl⟩
      | other j => exact ⟨rfl, rfl, rfl, rfl, rfl⟩
  | incProviders | incConsumers | decConsumers _ =>
      exact .inr ⟨(fun _ call => by cases call), referenced (by simp)⟩
  | decProviders held => exact .inr ⟨(fun _ call => by cases call), referenced fun _ => held⟩

theorem World.Kept.of_reachable (reachable : Reachable (World.machine c) w) : w.Kept c :=
  reachable.invariant (I := fun w => w.Kept c) (fun _ init => .of_initial init)
    fun _ _ _ _ kept step => (World.keeps_step kept step).1

/-- An account has exactly the providers it needs, and a consumer for what it holds,
whatever was called in whatever order; nothing is left to upgrade. -/
theorem World.references_exact (reachable : Reachable (World.machine c) w) (a : A) :
    (w.state.refs a).providers = (w.others a).providers +
        (if c.existentialDeposit ≤ (w.state.account a).free then 1 else 0) ∧
      (w.state.account a ≠ default →
        c.existentialDeposit ≤ (w.state.account a).free ∨ (w.state.account a).reserved ≠ 0) ∧
      ((w.state.account a).reserved ≠ 0 ∨ (w.state.account a).frozen ≠ 0 →
        (w.others a).consumers < (w.state.refs a).consumers ∧
          0 < (w.state.refs a).providers) ∧
      exec (ensureUpgraded c a) w.state = (.ok false, w.state) := by
  have kept := World.Kept.of_reachable reachable
  refine ⟨kept.counted.providers a, ?_, ?_, exec_ensureUpgraded (kept.sound.proper a).upgraded⟩
  · intro existing
    have alive := (kept.sound.alive a).resolve_left existing
    rw [AccountData.Dies, not_and_or, Nat.not_lt] at alive
    exact alive
  · intro consumes
    have consumer : (w.state.account a).Consumes := consumes
    have most := kept.counted.consumers a
    rw [if_pos consumer] at most
    exact ⟨most, kept.sound.supported a (kept.sound.consumed a consumer)⟩

set_option maxRecDepth 10000 in
/-- A lock takes a consumer reference of its account. -/
theorem World.references_exact_locked :
    ((World.endowed.called .small (.setLock 7 1 8 1)).state.refs 1).providers = 1 ∧
      0 < ((World.endowed.called .small (.setLock 7 1 8 1)).state.refs 1).consumers := by
  have reachable : Reachable (World.machine .small)
      (World.endowed.called .small (.setLock 7 1 8 1)) :=
    (Reachable.start World.initial_endowed).next (.call trivial)
  obtain ⟨providers, -, consumes, -⟩ := World.references_exact reachable 1
  exact ⟨providers.trans (by decide), (consumes (.inr (by decide))).1⟩

/-- A consumer reference that an account left behind when it died frozen is there for
good, and so is a provider: the account is never removed again. -/
theorem World.stranded_since {τ τ₁ τ₂ : List (Transition (World A I) (Label A I))}
    {t : Transition (World A I) (Label A I)} (run : Run (World.machine c) τ w)
    (split : τ = τ₁ ++ t :: τ₂) (a : A) :
    (w.state.refs a).consumers = (w.others a).consumers +
        (if (w.state.account a).Consumes then 1 else 0) + stranded w.others w.state a ∧
      stranded t.pre.others t.pre.state a ≤ stranded w.others w.state a ∧
      (0 < stranded t.pre.others t.pre.state a → 0 < (w.state.refs a).providers) := by
  have kept := World.Kept.of_reachable ⟨τ, run⟩
  have counted := kept.counted.consumers a
  have more : stranded t.pre.others t.pre.state a ≤ stranded w.others w.state a :=
    run.since (G := fun _ => True) (R := fun w w' : World A I =>
        stranded w.others w.state a ≤ stranded w'.others w'.state a)
      (fun _ _ _ => Nat.le_trans) (fun w _ w' reached step _ =>
        (World.keeps_step (World.Kept.of_reachable reached) step).2 a) split fun _ _ => trivial
  refine ⟨?_, more, fun some => kept.sound.supported a ?_⟩
  · rw [stranded]
    omega
  · rw [stranded] at more some
    rw [stranded] at more
    omega

set_option maxRecDepth 10000 in
/-- Another pallet that gave its provider to an account slashed while locked does not
get it back. -/
theorem World.stranded_since_slashed :
    let w₁ := World.endowed.referenced .small 1 .incProviders
    let w₂ := w₁.called .small (.setLock 7 1 8 1)
    let w₃ := w₂.called .small (.slash 1 20)
    0 < ((w₃.referenced .small 1 .decProviders).state.refs 1).providers := by
  intro w₁ w₂ w₃
  have run₁ : Run (World.machine .small) _ w₁ :=
    (Run.start World.initial_endowed).extend .incProviders
  have run₂ : Run (World.machine .small) _ w₂ := run₁.extend (.call trivial)
  have run₃ : Run (World.machine .small) _ w₃ := run₂.extend (.call trivial)
  have run : Run (World.machine .small) _ (w₃.referenced .small 1 .decProviders) :=
    run₃.extend (.decProviders (by decide))
  exact (World.stranded_since run rfl 1).2.2 (by decide)

end

end Resonance.Balances
