import Resonance.Runtime.Interception

/-!
Signed extrinsics and the phases they go through.

`validate` runs the extensions in order, `CheckNonce` among them and the one for
reversible accounts last. Applying an extrinsic validates it once more, then
prepares it, which consumes the nonce, and then dispatches its call. A transfer
that is intercepted never gets past `validate`, however often it is tried: its
nonce is not consumed, and every attempt may leave one more transfer pending, also
one that is answered with an error.
-/
namespace Resonance
open Storage StateMachine
variable {A H N O : Type}

structure SignedExtrinsic (A H O : Type) where
  sender : A
  nonce : ℕ
  call : RuntimeCall A H O

/-- The extensions of the runtime. Those that are neither `CheckNonce` nor
`ReversibleTransactionExtension` are given by what they refuse and what they do
to the balances; their `validate` writes nothing. -/
structure TxExtension (A H N O : Type) [DecidableEq A] [DecidableEq N] where
  runtime : Runtime A H N O
  validateOthers : SignedExtrinsic A H O → ReversibleTransfers.State A H N →
    Except InvalidTransaction PUnit
  prepareOthers : SignedExtrinsic A H O → Storage InvalidTransaction (BalancesState A) PUnit

variable [DecidableEq A]

def BalancesState.incAccountNonce (b : BalancesState A) (who : A) : BalancesState A :=
  { b with
    system := Function.update b.system who
      { b.system who with nonce := (b.system who).nonce + 1 } }

variable [DecidableEq H] [DecidableEq N] (p : TxExtension A H N O)

namespace SignedExtrinsic
variable (x : SignedExtrinsic A H O)

def validate :
    Storage TransactionValidityError (ReversibleTransfers.State A H N) (RawOrigin A) := do
  let s ← get
  ensure (¬ x.nonce < (s.balances.system x.sender).nonce) (.invalid .stale)
  mapError .invalid (ofResult (p.validateOthers x s))
  Resonance.validate p.runtime.config (.signed x.sender) x.call

def prepare : Storage TransactionValidityError (ReversibleTransfers.State A H N) PUnit := do
  let s ← get
  ensure (¬ x.nonce < (s.balances.system x.sender).nonce) (.invalid .stale)
  ensure (¬ x.nonce > (s.balances.system x.sender).nonce) (.invalid .future)
  set { s with balances := s.balances.incAccountNonce x.sender }
  mapError .invalid (zoom ReversibleTransfers.State.balances (fun b s => { s with balances := b })
    (p.prepareOthers x))

/-- The outcome of the call does not undo what was done before it. -/
def apply : Storage TransactionValidityError (ReversibleTransfers.State A H N) PUnit := do
  let origin ← x.validate p
  x.prepare p
  modify fun s => (exec (dispatch p.runtime x.call { caller := origin }) ⟨s, []⟩).2.pallets

/-- Validating the extrinsic in this state writes a pending transfer: it is a transfer of
an account that intercepts, and nothing refuses it before the first write. -/
def Schedulable (s : ReversibleTransfers.State A H N) : Prop :=
  (s.balances.system x.sender).nonce ≤ x.nonce ∧ p.validateOthers x s = .ok ⟨⟩ ∧
    ∃ data transfer, s.reversibleAccounts x.sender = some data ∧ data.policy = .intercept ∧
      x.call.intercepted p.runtime.config.existentialDeposit s.balances x.sender = some transfer ∧
      ¬ s.RefusesAtOnce p.runtime.config x.sender data

end SignedExtrinsic

inductive ExtrinsicLabel (A H N O : Type)
  | validate (x : SignedExtrinsic A H O)
  | apply (x : SignedExtrinsic A H O)
  | chain (l : ReversibleTransfers.Label A H N)

def ExtrinsicLabel.validated : ExtrinsicLabel A H N O → Option (SignedExtrinsic A H O)
  | .validate x => some x
  | .apply x => some x
  | .chain _ => none

/-- The storage, and the extrinsics so far whose validation left a transfer pending. -/
structure ExtrinsicState (A H N O : Type) where
  chain : ReversibleTransfers.State A H N
  intercepted : List (SignedExtrinsic A H O)

/-- The extrinsic whose validation leaves one more transfer of its sender pending,
whatever it answers. -/
def interceptedBy (l : ExtrinsicLabel A H N O) (s : ReversibleTransfers.State A H N) :
    List (SignedExtrinsic A H O) :=
  match l.validated with
  | some x =>
    if s.accountPendingIndex x.sender <
        (exec (x.validate p) s).2.accountPendingIndex x.sender then [x]
    else []
  | none => []

/-- The writes of `validate` persist, whatever its outcome. -/
def extrinsicChain : Machine (ExtrinsicState A H N O) (ExtrinsicLabel A H N O) where
  init s := (ReversibleTransfers.chain p.runtime.config).init s.chain ∧ s.intercepted = []
  step s l s' :=
    (match l with
      | .validate x => s'.chain = (exec (x.validate p) s.chain).2
      | .apply x => s'.chain = (exec (x.apply p) s.chain).2
      | .chain l => (ReversibleTransfers.chain p.runtime.config).step s.chain l s'.chain) ∧
    s'.intercepted = s.intercepted ++ interceptedBy p l s.chain

variable {p} {x : SignedExtrinsic A H O}

/-- An extrinsic that left a transfer pending before does not leave another. -/
def NoReplay (p : TxExtension A H N O) (s : ExtrinsicState A H N O) (l : ExtrinsicLabel A H N O) :
    Prop :=
  ∀ x, l.validated = some x → x ∈ s.intercepted → ¬ x.Schedulable p s.chain

section
variable {c : ReversibleTransfers.Config A H N} {s : ReversibleTransfers.State A H N} {who : A}
  {call : RuntimeCall A H O} {data : ReversibleTransfers.ReversibleAccountData A}

/-- Only a transfer that the policy intercepts writes anything. -/
theorem exec_validate_passed
    (passed : ∀ data, s.reversibleAccounts who = some data → data.policy = .intercept →
      call.intercepted c.existentialDeposit s.balances who = none) :
    (exec (Resonance.validate c (.signed who) call) s).2 = s := by
  have signed : exec (mapError (fun _ => TransactionValidityError.invalid .badSigner)
    (ensureSigned (.signed who))) s = (.ok who, s) := rfl
  simp only [Resonance.validate]
  rw [exec_bind_of_ok signed, exec_get_bind]
  cases reversible : s.reversibleAccounts who with
  | none => rfl
  | some data =>
      have transfer := passed data reversible
      dsimp only
      cases h : data.policy with
      | explicit =>
          dsimp only
          split
          · rfl
          · rfl
      | intercept =>
          dsimp only
          rw [transfer h]
          rfl

/-- A validation leaves a transfer pending unless it is refused before the first write,
however it ends. -/
theorem validate_raises_iff :
    s.accountPendingIndex who <
        (exec (Resonance.validate c (.signed who) call) s).2.accountPendingIndex who ↔
      ∃ data transfer, s.reversibleAccounts who = some data ∧ data.policy = .intercept ∧
        call.intercepted c.existentialDeposit s.balances who = some transfer ∧
        ¬ s.RefusesAtOnce c who data := by
  constructor
  · intro raised
    have taken : ¬ ∀ data, s.reversibleAccounts who = some data → data.policy = .intercept →
        call.intercepted c.existentialDeposit s.balances who = none := by
      intro passed
      rw [exec_validate_passed passed] at raised
      exact Nat.lt_irrefl _ raised
    push Not at taken
    obtain ⟨data, reversible, policy, transfer⟩ := taken
    obtain ⟨⟨dest, amount⟩, transfer⟩ := Option.ne_none_iff_exists'.mp transfer
    refine ⟨data, _, reversible, policy, transfer, fun refuses => ?_⟩
    rw [exec_validate_intercept reversible policy transfer] at raised
    have ends := ReversibleTransfers.scheduling (c := c) dest amount reversible
    generalize exec (ReversibleTransfers.doScheduleTransfer c (.signed who) dest amount) s =
      outcome at ends raised
    cases ends with
    | refused refuses => exact Nat.lt_irrefl _ raised
    | halfway late fails raised => exact late refuses
    | scheduled late placed held => exact late refuses
  · rintro ⟨data, ⟨dest, amount⟩, reversible, policy, transfer, late⟩
    rw [exec_validate_intercept reversible policy transfer]
    have ends := ReversibleTransfers.scheduling (c := c) dest amount reversible
    generalize exec (ReversibleTransfers.doScheduleTransfer c (.signed who) dest amount) s =
      outcome at ends
    cases ends with
    | refused refuses => exact absurd refuses late
    | halfway _ fails raised =>
        dsimp only
        omega
    | scheduled late placed held =>
        have max := c.maxPendingPerAccount_le
        have room : ¬ c.maxPendingPerAccount ≤ s.accountPendingIndex who :=
          fun full => late (.inr full)
        dsimp only [ReversibleTransfers.State.scheduled]
        rw [Function.update_self]
        omega

end

/-- Whatever became of the extrinsic before, it leaves a transfer pending whenever it
can. -/
theorem SignedExtrinsic.validate_raises_iff {s : ReversibleTransfers.State A H N} :
    s.accountPendingIndex x.sender < (exec (x.validate p) s).2.accountPendingIndex x.sender ↔
      x.Schedulable p s := by
  simp only [SignedExtrinsic.validate, SignedExtrinsic.Schedulable]
  rw [exec_get_bind, ← Resonance.validate_raises_iff]
  by_cases stale : x.nonce < (s.balances.system x.sender).nonce
  · refine iff_of_false ?_ fun schedulable => Nat.not_le.mpr stale schedulable.1
    rw [exec_bind]
    simp [ensure, stale]
  rw [exec_bind_of_ok (a := ⟨⟩) (ensure_ok_iff.mpr ⟨stale, rfl⟩), exec_bind, exec_mapError]
  cases others : p.validateOthers x s with
  | error e =>
      refine iff_of_false (Nat.lt_irrefl _) ?_
      intro schedulable
      cases schedulable.2.1
  | ok _ =>
      constructor
      · intro raised
        exact ⟨Nat.not_lt.mp stale, rfl, raised⟩
      · rintro ⟨-, -, raised⟩
        exact raised

theorem interceptedBy_cases (l : ExtrinsicLabel A H N O) (s : ReversibleTransfers.State A H N) :
    interceptedBy p l s = [] ∧ (∀ x, l.validated = some x → ¬ x.Schedulable p s) ∨
      ∃ x, l.validated = some x ∧ x.Schedulable p s ∧ interceptedBy p l s = [x] := by
  simp only [interceptedBy]
  cases l.validated with
  | none => exact .inl ⟨rfl, nofun⟩
  | some x =>
      have raises := SignedExtrinsic.validate_raises_iff (p := p) (x := x) (s := s)
      by_cases schedulable : x.Schedulable p s
      · exact .inr ⟨x, rfl, schedulable, if_pos (raises.mpr schedulable)⟩
      · refine .inl ⟨if_neg fun raised => schedulable (raises.mp raised), ?_⟩
        exact fun y same => Option.some.inj same ▸ schedulable

theorem nodup_step_iff {s s' : ExtrinsicState A H N O} {l : ExtrinsicLabel A H N O}
    (step : (extrinsicChain p).step s l s') :
    s'.intercepted.Nodup ↔ s.intercepted.Nodup ∧ NoReplay p s l := by
  rw [step.2]
  simp only [NoReplay]
  cases interceptedBy_cases l s.chain with
  | inl none =>
      rw [none.1, List.append_nil]
      exact (and_iff_left fun x same _ => none.2 x same).symm
  | inr one =>
      obtain ⟨x, validated, schedulable, taken⟩ := one
      rw [taken, List.nodup_append, validated]
      constructor
      · intro ⟨before, _, apart⟩
        refine ⟨before, fun y same mem => ?_⟩
        cases same
        exact absurd rfl (apart x mem x (List.mem_singleton_self x))
      · intro ⟨before, fresh⟩
        refine ⟨before, List.nodup_singleton x, fun y mem z last same => ?_⟩
        obtain rfl := List.mem_singleton.mp last
        subst same
        exact fresh y rfl mem schedulable

/-- No signed extrinsic leaves two transfers pending in a run exactly when none that left
one goes through `validate` again in a state where nothing refuses it before the first
write. -/
theorem intercepted_nodup_iff {τ : List (Transition (ExtrinsicState A H N O)
      (ExtrinsicLabel A H N O))} {s : ExtrinsicState A H N O} (run : Run (extrinsicChain p) τ s) :
    s.intercepted.Nodup ↔ ∀ t ∈ τ, NoReplay p t.pre t.label := by
  refine run.history (P := fun τ s =>
    s.intercepted.Nodup ↔ ∀ t ∈ τ, NoReplay p t.pre t.label) ?_ ?_
  · intro s init
    rw [init.2]
    exact iff_of_true List.nodup_nil (fun t mem => nomatch mem)
  · intro τ s l s' _ ih step
    rw [nodup_step_iff step, ih]
    constructor
    · intro ⟨earlier, last⟩
      exact forall_mem_snoc earlier last
    · intro all
      exact ⟨fun t mem => all t (List.mem_append_left _ mem),
        all _ (List.mem_append_right _ (List.mem_singleton_self _))⟩

namespace Mock
open ReversibleTransfers.Mock

/-- The other extensions refuse nothing and charge nothing. -/
def extension : TxExtension ℕ TxId (TxId × ℕ) Empty where
  runtime := callRuntime
  validateOthers _ _ := .ok ⟨⟩
  prepareOthers _ := pure ⟨⟩

def payment (value : ℕ) : SignedExtrinsic ℕ TxId Empty :=
  ⟨1, 0, .balances (.transferKeepAlive (.id 2) value)⟩

def reversibleStart : ExtrinsicState ℕ TxId (TxId × ℕ) Empty := ⟨Mock.reversible .intercept, []⟩

def validatePayment (value : ℕ) (s : ExtrinsicState ℕ TxId (TxId × ℕ) Empty) :
    ExtrinsicState ℕ TxId (TxId × ℕ) Empty :=
  ⟨(exec ((payment value).validate extension) s.chain).2,
    s.intercepted ++ interceptedBy extension (.validate (payment value)) s.chain⟩

/-- The state is reached without validating any extrinsic. -/
def Quiet (s : MockState) : Prop :=
  ∃ τ, Run (extrinsicChain extension) τ ⟨s, []⟩ ∧ ∀ t ∈ τ, t.label.validated = none

theorem Quiet.next {s s' : MockState} {l : ReversibleTransfers.Label ℕ TxId (TxId × ℕ)}
    (quiet : Quiet s) (step : (ReversibleTransfers.chain config).step s l s') : Quiet s' := by
  obtain ⟨τ, run, none⟩ := quiet
  exact ⟨_, run.extend (l := .chain l) ⟨step, rfl⟩, forall_mem_snoc none rfl⟩

theorem quiet_reversible : Quiet (Mock.reversible .intercept) := by
  have start : Quiet (ReversibleTransfers.genesis config [] balances) :=
    ⟨[], .start ⟨⟨_, balances, balances_fits, fun _ => rfl, rfl⟩, rfl⟩, List.forall_mem_nil _⟩
  have first : Quiet (nextBlock (ReversibleTransfers.genesis config [] balances)) :=
    start.next (l := .nextBlock) ⟨by decide, rfl⟩
  exact first.next (l := .extrinsic (.signed 1) (.setReversibility (some 2) .intercept none))
    ⟨by decide, rfl⟩

theorem run_validatePayment (value : ℕ) {τ : List (Transition
      (ExtrinsicState ℕ TxId (TxId × ℕ) Empty) (ExtrinsicLabel ℕ TxId (TxId × ℕ) Empty))}
    {s : ExtrinsicState ℕ TxId (TxId × ℕ) Empty} (run : Run (extrinsicChain extension) τ s) :
    Run (extrinsicChain extension)
      (τ ++ [⟨s, .validate (payment value), validatePayment value s⟩])
      (validatePayment value s) :=
  run.extend ⟨rfl, rfl⟩

end Mock

open Mock in
theorem intercepted_nodup_once :
    ∃ τ, Run (extrinsicChain extension) τ (validatePayment 1000000000 reversibleStart) ∧
      (validatePayment 1000000000 reversibleStart).intercepted.length = 1 ∧
      (validatePayment 1000000000 reversibleStart).intercepted.Nodup ∧
      ∀ t ∈ τ, NoReplay extension t.pre t.label := by
  obtain ⟨τ, run, quiet⟩ := quiet_reversible
  have next := run_validatePayment 1000000000 run
  have fresh : ∀ t ∈ τ ++ [⟨reversibleStart, .validate (payment 1000000000),
      validatePayment 1000000000 reversibleStart⟩], NoReplay extension t.pre t.label := by
    refine forall_mem_snoc ?_ (fun x _ mem => absurd mem List.not_mem_nil)
    intro t mem x validated
    cases (quiet t mem).symm.trans validated
  exact ⟨_, next, rfl, (intercepted_nodup_iff next).mpr fresh, fresh⟩

open Mock ReversibleTransfers.Mock in
/-- Validating one signed transfer twice schedules and holds it twice. One that cannot be
held is answered with an error both times, and has two tasks as well. -/
theorem intercepted_twice :
    (∃ τ s, Run (extrinsicChain extension) τ s ∧
      s.intercepted = [payment 1000000000, payment 1000000000] ∧ ¬ s.intercepted.Nodup ∧
      s.chain.accountPendingIndex 1 = 2 ∧
      s.chain.pendingTransfers.lookup (txId 2 1000000000) =
        some ⟨1, .transferKeepAlive (.id 2) 1000000000, 1000000000, 2⟩ ∧
      s.chain.balances.balanceOnHold .scheduledTransfer 1 = 2000000000) ∧
    ∃ τ s, Run (extrinsicChain extension) τ s ∧
      s.intercepted = [payment 20000000000000, payment 20000000000000] ∧ ¬ s.intercepted.Nodup ∧
      s.chain.accountPendingIndex 1 = 2 ∧
      s.chain.pendingTransfers.lookup (txId 2 20000000000000) =
        some ⟨1, .transferKeepAlive (.id 2) 20000000000000, 20000000000000, 2⟩ ∧
      (s.chain.tasks.lookup (txId 2 20000000000000, 1)).isSome ∧
      (s.chain.tasks.lookup (txId 2 20000000000000, 2)).isSome ∧
      s.chain.balances.balanceOnHold .scheduledTransfer 1 = 0 := by
  obtain ⟨τ, run, -⟩ := quiet_reversible
  have start : Run (extrinsicChain extension) τ reversibleStart := run
  have repeated (x : SignedExtrinsic ℕ TxId Empty) : ¬ [x, x].Nodup :=
    fun distinct => (List.nodup_cons.mp distinct).1 (List.mem_singleton_self _)
  have both (value : ℕ) := run_validatePayment value (run_validatePayment value start)
  refine ⟨⟨_, _, both 1000000000, rfl, repeated _, ?_, ?_, ?_⟩,
    ⟨_, _, both 20000000000000, rfl, repeated _, ?_, ?_, ?_, ?_, ?_⟩⟩
  · decide +kernel
  · decide +kernel
  · decide +kernel
  · decide +kernel
  · decide +kernel
  · decide +kernel
  · decide +kernel
  · decide +kernel

end Resonance
