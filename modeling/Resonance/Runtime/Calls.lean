import Resonance.ReversibleTransfers.Outcomes

/-!
The calls of the runtime and their dispatch.

A call belongs to a pallet or wraps other calls. The batches of the utility pallet
dispatch their calls in order with the origin they were given: `batch` stops at
the first failure, `batch_all` fails with it, `force_batch` goes on. The other
wrappers dispatch one call with an origin of their choice. No dispatch runs a
transaction extension again. What a wrapper or a further pallet does is a
parameter; the Balances transfers that take effect are recorded with the origin
they were signed by.
-/
namespace Resonance
open Storage

inductive BatchKind
  | batch
  | batchAll
  | forceBatch
deriving DecidableEq

inductive Wrapper (A : Type)
  | asDerivative (index : ℕ)
  | dispatchAs (origin : RawOrigin A)
  | withWeight
  | sudo
  | sudoUncheckedWeight
  | sudoAs (who : MultiAddress A)
deriving DecidableEq

/-- `O` are the calls of the pallets that dispatch no other call. -/
inductive RuntimeCall (A H O : Type)
  | balances (call : BalancesCall A)
  | reversibleTransfers (call : ReversibleTransfers.Call A H)
  | batch (kind : BatchKind) (calls : List (RuntimeCall A H O))
  | wrapped (wrapper : Wrapper A) (call : RuntimeCall A H O)
  | other (call : O)

/-- An origin and the filter `batch_all` puts on it: no `batch_all` inside. -/
structure Origin (A : Type) where
  caller : RawOrigin A
  noBatchAll : Bool := false
deriving DecidableEq

structure Runtime (A H N O : Type) [DecidableEq A] [DecidableEq N] where
  config : ReversibleTransfers.Config A H N
  batchedCallsLimit : ℕ
  /-- The origin a wrapper dispatches its call with. -/
  innerOrigin : Wrapper A → ReversibleTransfers.State A H N → Origin A →
    Except DispatchError (Origin A)
  /-- A wrapper either fails with its call or succeeds whatever becomes of it. -/
  failsWithCall : Wrapper A → Bool
  dispatchOther : O → Origin A → ReversibleTransfers.PalletM A H N PUnit

/-- The storage, and the Balances transfers executed so far. -/
structure RuntimeState (A H N : Type) where
  pallets : ReversibleTransfers.State A H N
  executed : List (RawOrigin A × BalancesCall A)

abbrev RuntimeM (A H N : Type) := Storage DispatchError (RuntimeState A H N)

variable {A H N O : Type}

/-- The calls that transfer out of the account that signs them. -/
def BalancesCall.isTransfer : BalancesCall A → Bool
  | .transferKeepAlive .. => true
  | .transferAllowDeath .. => true
  | .transferAll .. => true
  | .forceTransfer .. => false

variable [DecidableEq H]

/-- The Balances calls that a call itself executes when it succeeds: its own, or
the pending one that `execute_transfer` dispatches. -/
def RuntimeCall.transfers (s : ReversibleTransfers.State A H N) (o : Origin A) :
    RuntimeCall A H O → List (RawOrigin A × BalancesCall A)
  | .balances call => [(o.caller, call)]
  | .reversibleTransfers (.executeTransfer txId) =>
    match s.pendingTransfers.lookup txId with
    | some pending => [(.signed pending.who, pending.call)]
    | none => []
  | _ => []

def BatchKind.filter [DecidableEq A] (kind : BatchKind) (o : Origin A) : Origin A :=
  if kind = .batchAll ∧ o.caller ≠ .root then { o with noBatchAll := true } else o

/-- Run a call of a pallet and record what it executes. -/
def recording (x : ReversibleTransfers.PalletM A H N PUnit)
    (transfers : ReversibleTransfers.State A H N → List (RawOrigin A × BalancesCall A)) :
    RuntimeM A H N PUnit := do
  let s ← get
  zoom RuntimeState.pallets (fun p s => { s with pallets := p }) x
  modify fun s' => { s' with executed := s'.executed ++ transfers s.pallets }

variable [DecidableEq A] [DecidableEq N] (r : Runtime A H N O)

mutual

def dispatch : RuntimeCall A H O → Origin A → RuntimeM A H N PUnit
  | .balances call, o =>
    transactional (recording (ReversibleTransfers.withBalances
      (call.dispatch r.config.existentialDeposit r.config.fungible o.caller))
      ((RuntimeCall.balances call : RuntimeCall A H O).transfers · o))
  | .reversibleTransfers call, o =>
    transactional (recording (call.dispatch r.config o.caller)
      ((RuntimeCall.reversibleTransfers call : RuntimeCall A H O).transfers · o))
  | .batch kind calls, o =>
    transactional (do
      ensure (¬ (kind = .batchAll ∧ o.noBatchAll = true)) (.system .callFiltered)
      ensure (o.caller ≠ .none) .badOrigin
      ensure (calls.length ≤ r.batchedCallsLimit) (.utility .tooManyCalls)
      runBatch kind calls (kind.filter o))
  | .wrapped wrapper call, o =>
    transactional (do
      let s ← get
      let inner ← ofResult (r.innerOrigin wrapper s.pallets o)
      let outcome ← attempt (dispatch call inner)
      if r.failsWithCall wrapper then ofResult outcome else pure ⟨⟩)
  | .other call, o => transactional (recording (r.dispatchOther call o) fun _ => [])

/-- The calls of a batch, one after the other. -/
def runBatch (kind : BatchKind) : List (RuntimeCall A H O) → Origin A → RuntimeM A H N PUnit
  | [], _ => pure ⟨⟩
  | call :: rest, o => do
    let outcome ← attempt (dispatch call o)
    match outcome, kind with
    | .ok _, _ => runBatch kind rest o
    -- `BatchInterrupted`: what was done before stays
    | .error _, .batch => pure ⟨⟩
    | .error e, .batchAll => throw e
    | .error _, .forceBatch => runBatch kind rest o

end

def RuntimeState.Executed (a : A) (s : RuntimeState A H N) : Prop :=
  ∃ t ∈ s.executed, t.1 = .signed a ∧ t.2.isTransfer = true

mutual

/-- The call contains a transfer out of `a` at some depth, or the execution of a pending
one, under an origin that may make it, and no batch around it is refused as such. -/
def Sends (a : A) : RuntimeCall A H O → Origin A → Prop
  | .balances call, o => o.caller = .signed a ∧ call.isTransfer = true
  | .reversibleTransfers (.executeTransfer _), o => o.caller = .signed r.config.accountId
  | .reversibleTransfers _, _ => False
  | .batch kind calls, o =>
    ¬ (kind = .batchAll ∧ o.noBatchAll = true) ∧ calls.length ≤ r.batchedCallsLimit ∧
      SendsIn a calls (kind.filter o)
  | .wrapped wrapper call, o =>
      ∃ s inner, r.innerOrigin wrapper s o = .ok inner ∧ Sends a call inner
  | .other _, _ => False

def SendsIn (a : A) : List (RuntimeCall A H O) → Origin A → Prop
  | [], _ => False
  | call :: rest, o => Sends a call o ∨ SendsIn a rest o

end

/-- The call is the transfer, or a batch that keeps going whatever fails and whose first
call opens with the transfer. -/
inductive OpensWith (transfer : BalancesCall A) : RuntimeCall A H O → Prop
  | itself : OpensWith transfer (.balances transfer)
  | batch {kind : BatchKind} {call : RuntimeCall A H O} {rest : List (RuntimeCall A H O)} :
      kind ≠ .batchAll → (call :: rest).length ≤ r.batchedCallsLimit →
      OpensWith transfer call → OpensWith transfer (.batch kind (call :: rest))

/-- Between two states only calls of a kind were executed. -/
def RuntimeState.Appends (P : RawOrigin A × BalancesCall A → Prop) (s s' : RuntimeState A H N) :
    Prop :=
  ∃ executed, s'.executed = s.executed ++ executed ∧ ∀ t ∈ executed, P t

section
variable {r : Runtime A H N O} {a : A} {o : Origin A} {s : RuntimeState A H N}

omit [DecidableEq H] [DecidableEq A] [DecidableEq N] in
theorem RuntimeState.Appends.refl {P : RawOrigin A × BalancesCall A → Prop}
    (s : RuntimeState A H N) : s.Appends P s :=
  ⟨[], (List.append_nil _).symm, List.forall_mem_nil _⟩

omit [DecidableEq H] [DecidableEq A] [DecidableEq N] in
theorem RuntimeState.Appends.trans {P : RawOrigin A × BalancesCall A → Prop}
    {s s₁ s' : RuntimeState A H N} (first : s.Appends P s₁) (rest : s₁.Appends P s') :
    s.Appends P s' := by
  obtain ⟨executed, appended, kind⟩ := first
  obtain ⟨executed', appended', kind'⟩ := rest
  refine ⟨executed ++ executed', ?_, List.forall_mem_append.mpr ⟨kind, kind'⟩⟩
  rw [appended', appended, List.append_assoc]

omit [DecidableEq H] [DecidableEq A] [DecidableEq N] in
theorem RuntimeState.Appends.imp {P Q : RawOrigin A × BalancesCall A → Prop}
    {s s' : RuntimeState A H N} (h : s.Appends P s') (weaker : ∀ t, P t → Q t) :
    s.Appends Q s' := by
  obtain ⟨executed, appended, kind⟩ := h
  exact ⟨executed, appended, fun t mem => weaker t (kind t mem)⟩

omit [DecidableEq H] [DecidableEq A] [DecidableEq N] in
theorem RuntimeState.Executed.mono {P : RawOrigin A × BalancesCall A → Prop}
    {s s' : RuntimeState A H N} (h : s.Executed a) (appends : s.Appends P s') : s'.Executed a := by
  obtain ⟨t, mem, transfer⟩ := h
  obtain ⟨executed, appended, -⟩ := appends
  refine ⟨t, ?_, transfer⟩
  rw [appended]
  exact List.mem_append_left _ mem

omit [DecidableEq H] [DecidableEq A] [DecidableEq N] in
theorem appends_recording {P : RawOrigin A × BalancesCall A → Prop}
    {x : ReversibleTransfers.PalletM A H N PUnit}
    {transfers : ReversibleTransfers.State A H N → List (RawOrigin A × BalancesCall A)}
    (kind : ∀ p, exec x s.pallets = (.ok ⟨⟩, p) → ∀ t ∈ transfers s.pallets, P t) :
    s.Appends P (exec (transactional (recording x transfers)) s).2 := by
  rw [exec_transactional, recording, exec_get_bind, exec_bind, exec_zoom]
  rcases run : exec x s.pallets with ⟨e | _, p⟩
  · exact .refl s
  · exact ⟨transfers s.pallets, rfl, kind p run⟩

theorem eq_of_dispatch_error {call : RuntimeCall A H O} {s' : RuntimeState A H N}
    {e : DispatchError} (h : exec (dispatch r call o) s = (.error e, s')) : s' = s := by
  cases call with
  | balances call =>
      rw [dispatch] at h
      exact eq_of_transactional_error h
  | reversibleTransfers call =>
      rw [dispatch] at h
      exact eq_of_transactional_error h
  | batch kind calls =>
      rw [dispatch] at h
      exact eq_of_transactional_error h
  | wrapped wrapper call =>
      rw [dispatch] at h
      exact eq_of_transactional_error h
  | other call =>
      rw [dispatch] at h
      exact eq_of_transactional_error h

theorem exec_wrapped {wrapper : Wrapper A} {call : RuntimeCall A H O} {inner : Origin A}
    (origin : r.innerOrigin wrapper s.pallets o = .ok inner) :
    exec (dispatch r (.wrapped wrapper call) o) s =
      if r.failsWithCall wrapper then exec (dispatch r call inner) s
      else (.ok ⟨⟩, (exec (dispatch r call inner) s).2) := by
  rw [dispatch, exec_transactional, exec_get_bind, origin, exec_bind]
  simp only [ofResult, exec_pure, exec_attempt_bind]
  cases r.failsWithCall wrapper with
  | true =>
      rcases h : exec (dispatch r call inner) s with ⟨e | _, s'⟩
      · rw [eq_of_dispatch_error h]
        rfl
      · rfl
  | false => rfl

/-- A batch that is dispatched has passed its checks. -/
theorem dispatch_batch_ok {kind : BatchKind} {calls : List (RuntimeCall A H O)}
    {s' : RuntimeState A H N} (run : exec (dispatch r (.batch kind calls) o) s = (.ok ⟨⟩, s')) :
    ¬ (kind = .batchAll ∧ o.noBatchAll = true) ∧ calls.length ≤ r.batchedCallsLimit ∧
      exec (runBatch r kind calls (kind.filter o)) s = (.ok ⟨⟩, s') := by
  rw [dispatch] at run
  obtain ⟨nested, run⟩ := ensure_bind_ok_iff.mp (transactional_ok_iff.mp run)
  obtain ⟨-, run⟩ := ensure_bind_ok_iff.mp run
  obtain ⟨short, run⟩ := ensure_bind_ok_iff.mp run
  exact ⟨nested, short, run⟩

mutual

/-- A call that does not send executes no transfer out of `a`. -/
theorem appends_dispatch (a : A) (call : RuntimeCall A H O) (o : Origin A)
    (s : RuntimeState A H N) :
    s.Appends (fun t => t.1 = .signed a → t.2.isTransfer = true → Sends r a call o)
      (exec (dispatch r call o) s).2 := by
  match call with
  | .balances call =>
      rw [dispatch]
      refine appends_recording fun p run t mem signed transfer => ?_
      obtain rfl := List.mem_singleton.mp mem
      exact ⟨signed, transfer⟩
  | .reversibleTransfers (.executeTransfer txId) =>
      rw [dispatch]
      refine appends_recording fun p run t mem signed transfer => ?_
      exact (ReversibleTransfers.executeTransfer_ok_iff.mp (transactional_ok_iff.mp run)).1
  | .reversibleTransfers (.setReversibility delay policy reverser) =>
      rw [dispatch]
      exact appends_recording fun p run => List.forall_mem_nil _
  | .reversibleTransfers (.cancel txId) =>
      rw [dispatch]
      exact appends_recording fun p run => List.forall_mem_nil _
  | .reversibleTransfers (.scheduleTransfer dest amount) =>
      rw [dispatch]
      exact appends_recording fun p run => List.forall_mem_nil _
  | .other call =>
      rw [dispatch]
      exact appends_recording fun p run => List.forall_mem_nil _
  | .batch kind calls =>
      have inside := appends_runBatch a kind calls (kind.filter o) s
      rcases h : exec (dispatch r (.batch kind calls) o) s with ⟨e | _, s'⟩
      · rw [eq_of_dispatch_error h]
        exact .refl s
      · obtain ⟨nested, short, run⟩ := dispatch_batch_ok h
        rw [run] at inside
        exact inside.imp fun t sends signed transfer => ⟨nested, short, sends signed transfer⟩
  | .wrapped wrapper call =>
      cases origin : r.innerOrigin wrapper s.pallets o with
      | error e =>
          rw [dispatch, exec_transactional, exec_get_bind, origin]
          exact .refl s
      | ok inner =>
          have sent := (appends_dispatch a call inner s).imp
            (Q := fun t => t.1 = .signed a → t.2.isTransfer = true →
              Sends r a (.wrapped wrapper call) o)
            fun t sends signed transfer => ⟨s.pallets, inner, origin, sends signed transfer⟩
          rw [exec_wrapped origin]
          split
          · exact sent
          · exact sent

theorem appends_runBatch (a : A) (kind : BatchKind) (calls : List (RuntimeCall A H O))
    (o : Origin A) (s : RuntimeState A H N) :
    s.Appends (fun t => t.1 = .signed a → t.2.isTransfer = true → SendsIn r a calls o)
      (exec (runBatch r kind calls o) s).2 := by
  match calls with
  | [] =>
      rw [runBatch, exec_pure]
      exact .refl s
  | call :: rest =>
      have first := (appends_dispatch a call o s).imp
        (Q := fun t => t.1 = .signed a → t.2.isTransfer = true → SendsIn r a (call :: rest) o)
        fun t sends signed transfer => .inl (sends signed transfer)
      have others := (appends_runBatch a kind rest o (exec (dispatch r call o) s).2).imp
        (Q := fun t => t.1 = .signed a → t.2.isTransfer = true → SendsIn r a (call :: rest) o)
        fun t sends signed transfer => .inr (sends signed transfer)
      have both := first.trans others
      rw [runBatch, exec_attempt_bind]
      rcases h : exec (dispatch r call o) s with ⟨e | _, s₁⟩
      · rw [h] at first both
        cases kind with
        | batch => exact first
        | batchAll => exact first
        | forceBatch => exact both
      · rw [h] at both
        exact both

end

theorem executed_dispatch {call : RuntimeCall A H O}
    (h : RuntimeState.Executed a (exec (dispatch r call o) s).2) :
    s.Executed a ∨ Sends r a call o := by
  obtain ⟨t, mem, signed, transfer⟩ := h
  obtain ⟨executed, appended, sends⟩ := appends_dispatch (r := r) a call o s
  rw [appended] at mem
  cases List.mem_append.mp mem with
  | inl before => exact .inl ⟨t, before, signed, transfer⟩
  | inr new => exact .inr (sends t new signed transfer)

theorem runBatch_fst {kind : BatchKind} (lenient : kind ≠ .batchAll)
    (calls : List (RuntimeCall A H O)) (o : Origin A) (s : RuntimeState A H N) :
    (exec (runBatch r kind calls o) s).1 = .ok ⟨⟩ := by
  induction calls generalizing s with
  | nil => rfl
  | cons call rest ih =>
      rw [runBatch, exec_attempt_bind]
      rcases exec (dispatch r call o) s with ⟨e | _, s₁⟩
      · cases kind with
        | batch => rfl
        | batchAll => exact absurd rfl lenient
        | forceBatch => exact ih s₁
      · exact ih s₁

/-- Nothing that comes after it keeps the first transfer from taking effect. -/
theorem executed_of_opensWith {transfer : BalancesCall A} {call : RuntimeCall A H O}
    (opens : OpensWith r transfer call) (signed : o.caller = .signed a)
    (sends : transfer.isTransfer = true)
    (payable : (exec (transfer.dispatch r.config.existentialDeposit r.config.fungible
      (.signed a)) s.pallets.balances).1 = .ok ⟨⟩) :
    (exec (dispatch r call o) s).1 = .ok ⟨⟩ ∧
      RuntimeState.Executed a (exec (dispatch r call o) s).2 := by
  induction opens with
  | itself =>
      have moved := ReversibleTransfers.withBalances_ok_iff.mpr
        ⟨_, exec_eq_of_fst payable, rfl⟩
      rw [dispatch, exec_transactional, recording, exec_get_bind, exec_bind, exec_zoom, signed,
        moved]
      exact ⟨rfl, _, List.mem_append_right _ (List.mem_singleton_self _), signed, sends⟩
  | @batch kind call rest lenient short opens ih =>
      have same : kind.filter o = o := if_neg fun strict => lenient strict.1
      obtain ⟨done, executed⟩ := ih
      have later := executed.mono (appends_runBatch (r := r) a kind rest o _)
      have ok := runBatch_fst (r := r) lenient rest o (exec (dispatch r call o) s).2
      have run : exec (runBatch r kind (call :: rest) o) s =
          exec (runBatch r kind rest o) (exec (dispatch r call o) s).2 := by
        rw [runBatch, exec_attempt_bind, done]
      have whole : exec (dispatch r (.batch kind (call :: rest)) o) s =
          (.ok ⟨⟩, (exec (runBatch r kind rest o) (exec (dispatch r call o) s).2).2) := by
        rw [dispatch, transactional_ok_iff]
        refine ensure_bind_ok_iff.mpr ⟨fun strict => lenient strict.1, ?_⟩
        refine ensure_bind_ok_iff.mpr ⟨by simp [signed], ?_⟩
        refine ensure_bind_ok_iff.mpr ⟨short, ?_⟩
        rw [same, run]
        exact exec_eq_of_fst ok
      rw [whole]
      exact ⟨rfl, later⟩

end

end Resonance
