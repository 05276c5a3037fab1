import Mathlib.Data.Finset.Card
import Resonance.Balances.TransferProofs
import Resonance.Foundation.Stamps
import Resonance.ReversibleTransfers.Outcomes
import Resonance.Runtime.Extrinsics

/-!
Transfer proofs over whole runs.

A signed extrinsic takes one nonce and may make any number of transfers, in batches or
inside other calls; a scheduled call takes none and may transfer for anybody. The key of
a proof counts what its sender has signed since its account was last removed, not what
it transferred, so two equal transfers leave two proofs only if that count differs.
-/
namespace Resonance
open Storage StateMachine Stamps
variable {A H N O : Type} [DecidableEq A] [DecidableEq H] [DecidableEq N]

namespace ReversibleTransfers
variable {c : Config A H N} {s : State A H N}

/-- The keys that dispatching a call of the pallet files: those of the pending transfer it
executes, which is made once its amount is released. -/
def Call.proofs (c : Config A H N) (call : Call A H) (origin : RawOrigin A) (s : State A H N) :
    List (ProofKey A) :=
  match (exec (call.dispatch c origin) s).1, call with
  | .ok _, .executeTransfer txId =>
    match s.pendingTransfers.lookup txId with
    | some pending =>
      pending.call.proofs c.existentialDeposit c.fungible (.signed pending.who)
        (exec (c.fungible.release .scheduledTransfer pending.who pending.amount) s.balances).2
    | none => []
  | _, _ => []

theorem Call.dispatch_stores (laws : ProofLaws c.fungible) (call : Call A H)
    (origin : RawOrigin A) (s : State A H N) :
    s.balances.Stores (call.proofs c origin s) (exec (call.dispatch c origin) s).2.balances := by
  simp only [Call.proofs]
  rcases h : exec (call.dispatch c origin) s with ⟨e | _, s'⟩
  · rw [eq_of_transactional_error h]
    exact .refl s.balances
  have run := transactional_ok_iff.mp h
  cases call with
  | setReversibility delay policy reverser =>
      obtain ⟨who, -, -, -, -, rfl⟩ := setReversibility_ok run
      exact .refl s.balances
  | cancel txId =>
      obtain ⟨who, pending, data, b, -, -, -, -, refund, rfl⟩ := cancel_ok run
      cases refund with
      | toReverser reverser moved => exact laws.transferOnHold moved
      | toOwner none owner released => exact laws.release released
  | executeTransfer txId =>
      obtain ⟨-, pending, b₁, b₂, found, released, moved, rfl⟩ := executeTransfer_ok_iff.mp run
      have filed := BalancesCall.dispatch_stores c.existentialDeposit laws pending.call
        (.signed pending.who) b₁
      rw [moved] at filed
      dsimp only
      rw [found]
      dsimp only
      rw [released]
      exact (laws.release released).trans filed
  | scheduleTransfer dest amount =>
      obtain ⟨who, data, b, -, -, -, -, held, rfl⟩ := scheduleTransfer_ok run
      exact laws.hold held

end ReversibleTransfers

/-- What happens to the proofs: an extrinsic is signed, or a call of a pallet resets the
nonces of some accounts and then files proofs. -/
inductive ProofEvent (A : Type)
  | signed (who : A)
  | called (resets : A → Bool) (keys : List (ProofKey A))

namespace ProofEvent

def keys : ProofEvent A → List (ProofKey A)
  | .signed _ => []
  | .called _ keys => keys

/-- The event as it concerns `a`: its nonce, and to whom it transfers how much. -/
def concerning (a : A) : ProofEvent A → List (Entry (A × ℕ))
  | .signed who => if who = a then [.tick] else []
  | .called resets keys =>
    (if resets a then [.reset] else []) ++
      ((keys.filter fun k => k.2.1 = a).map fun k => k.2.2).map .mark

end ProofEvent

def filed (es : List (ProofEvent A)) : List (ProofKey A) := es.flatMap ProofEvent.keys

/-- What an account has signed and transferred, and when its nonce was reset. -/
def story (a : A) (es : List (ProofEvent A)) : List (Entry (A × ℕ)) :=
  es.flatMap (ProofEvent.concerning a)

omit [DecidableEq H] [DecidableEq N] in
theorem forall_spaced_iff {n : A → ℕ} {es : List (ProofEvent A)} :
    (∀ a, Spaced (n a) (story a es)) ↔ ∀ k ∈ filed es, Spaced (n k.2.1) (story k.2.1 es) := by
  constructor
  · intro all k _
    exact all k.2.1
  · intro senders a
    by_cases sender : ∃ k ∈ filed es, k.2.1 = a
    · obtain ⟨k, mem, rfl⟩ := sender
      exact senders k mem
    · refine spaced_of_unmarked fun m mem => sender ?_
      obtain ⟨e, told, marked⟩ := List.mem_flatMap.mp mem
      cases e with
      | signed who =>
          rw [ProofEvent.concerning] at marked
          split at marked
          · simp at marked
          · cases marked
      | called resets keys =>
          rw [ProofEvent.concerning, List.mem_append] at marked
          cases marked with
          | inl reset =>
              split at reset
              · simp at reset
              · cases reset
          | inr made =>
              simp only [List.map_map, List.mem_map, List.mem_filter, decide_eq_true_eq] at made
              obtain ⟨k, ⟨mem, own⟩, -⟩ := made
              exact ⟨k, List.mem_flatMap.mpr ⟨_, told, mem⟩, own⟩

namespace BalancesState

def resets (b b' : BalancesState A) (a : A) : Bool :=
  (b'.system a).nonce < (b.system a).nonce

/-- From `b` to `b'` happened what the history tells. -/
structure Tells (es : List (ProofEvent A)) (b b' : BalancesState A) : Prop where
  stored : b'.transferProof = b.transferProof ∪ (filed es).toFinset
  nonce : ∀ a, (b'.system a).nonce = advance (b.system a).nonce (story a es)
  stamped : ∀ a, ofOwner a (filed es) = stamp (b.system a).nonce (story a es)

variable {b b₁ b' : BalancesState A} {es es' : List (ProofEvent A)} {keys : List (ProofKey A)}

theorem Tells.refl (b : BalancesState A) : Tells [] b b :=
  ⟨(Finset.union_empty _).symm, fun _ => rfl, fun _ => rfl⟩

theorem Tells.trans (first : Tells es b b₁) (rest : Tells es' b₁ b') : Tells (es ++ es') b b' := by
  have filed_append : filed (es ++ es') = filed es ++ filed es' := List.flatMap_append
  have story_append (a : A) : story a (es ++ es') = story a es ++ story a es' :=
    List.flatMap_append
  refine ⟨?_, fun a => ?_, fun a => ?_⟩
  · rw [rest.stored, first.stored, filed_append, List.toFinset_append, Finset.union_assoc]
  · rw [rest.nonce a, first.nonce a, story_append, advance_append]
  · rw [filed_append, story_append, ofOwner_append, stamp_append, first.stamped a, rest.stamped a,
      first.nonce a]

/-- A call of a pallet, told by what it has reset and filed. -/
theorem Stores.tells (stores : b.Stores keys b') : b.Tells [.called (b.resets b') keys] b' := by
  have filed_one : filed [.called (b.resets b') keys] = keys := List.append_nil _
  have story_one (a : A) : story a [.called (b.resets b') keys] =
      (if b.resets b' a then [.reset] else []) ++
        ((keys.filter fun k => k.2.1 = a).map fun k => k.2.2).map .mark := List.append_nil _
  have counter (a : A) : advance (b.system a).nonce
      (if b.resets b' a then [.reset] else [] : List (Entry (A × ℕ))) = (b'.system a).nonce := by
    have drop := stores.drops a
    split
    next lower =>
      have := of_decide_eq_true lower
      change 0 = _
      omega
    next kept =>
      have := of_decide_eq_false (Bool.not_eq_true _ ▸ kept)
      change (b.system a).nonce = _
      omega
  have unmarked (a : A) : stamp (b.system a).nonce
      (if b.resets b' a then [.reset] else [] : List (Entry (A × ℕ))) = [] := by
    split <;> rfl
  refine ⟨?_, fun a => ?_, fun a => ?_⟩
  · rw [filed_one]
    exact stores.stored
  · rw [story_one, advance_append, advance_marks, counter]
  · rw [filed_one, story_one, stamp_append, unmarked, counter, stamp_marks, List.nil_append,
      ofOwner, List.map_map]
    refine List.map_congr_left fun k mem => ?_
    obtain ⟨filed, sender⟩ := List.mem_filter.mp mem
    rw [stores.shown k filed, of_decide_eq_true sender]
    rfl

theorem tells_signed (b : BalancesState A) (who : A) :
    b.Tells [.signed who] (b.incAccountNonce who) := by
  have story_one (a : A) : story a [.signed who] = if who = a then [.tick] else [] :=
    List.append_nil _
  refine ⟨(Finset.union_empty _).symm, fun a => ?_, fun a => ?_⟩
  · rw [story_one, incAccountNonce]
    dsimp only
    rw [Function.update_apply]
    by_cases same : a = who
    · subst same
      rw [if_pos rfl, if_pos rfl]
      rfl
    · rw [if_neg same, if_neg (Ne.symm same)]
      rfl
  · rw [story_one]
    split <;> rfl

end BalancesState

section
variable (r : Runtime A H N O)

def called (call : RuntimeCall A H O) (o : Origin A) (s : RuntimeState A H N)
    (keys : List (ProofKey A)) : List (ProofEvent A) :=
  [.called (s.pallets.balances.resets (exec (dispatch r call o) s).2.pallets.balances) keys]

mutual

/-- What dispatching a call does to the proofs, in order. -/
def events : RuntimeCall A H O → Origin A → RuntimeState A H N → List (ProofEvent A)
  | .balances call, o, s =>
    called r (.balances call) o s
      (call.proofs r.config.existentialDeposit r.config.fungible o.caller s.pallets.balances)
  | .reversibleTransfers call, o, s =>
    called r (.reversibleTransfers call) o s (call.proofs r.config o.caller s.pallets)
  | .batch kind calls, o, s =>
    match (exec (dispatch r (.batch kind calls) o) s).1 with
    | .ok _ => batchEvents kind calls (kind.filter o) s
    | .error _ => []
  | .wrapped wrapper call, o, s =>
    match r.innerOrigin wrapper s.pallets o with
    | .ok inner => events call inner s
    | .error _ => []
  | .other call, o, s => called r (.other call) o s []

def batchEvents (kind : BatchKind) :
    List (RuntimeCall A H O) → Origin A → RuntimeState A H N → List (ProofEvent A)
  | [], _, _ => []
  | call :: rest, o, s =>
    events call o s ++
      match (exec (dispatch r call o) s).1, kind with
      | .ok _, _ => batchEvents kind rest o (exec (dispatch r call o) s).2
      | .error _, .forceBatch => batchEvents kind rest o (exec (dispatch r call o) s).2
      | .error _, _ => []

end

/-- No method and no call of another pallet files a proof or changes a nonce, save of
accounts it reaps. -/
structure RuntimeProofLaws : Prop where
  fungible : ProofLaws r.config.fungible
  other : ∀ {call : O} {o : Origin A} {s s' : ReversibleTransfers.State A H N},
    exec (r.dispatchOther call o) s = (.ok ⟨⟩, s') → s.balances.Stores [] s'.balances

end

section
variable {r : Runtime A H N O} {s : RuntimeState A H N}

omit [DecidableEq H] [DecidableEq N] in
theorem recording_stores {x : ReversibleTransfers.PalletM A H N PUnit}
    {transfers : ReversibleTransfers.State A H N → List (RawOrigin A × BalancesCall A)}
    {keys : List (ProofKey A)} (fails : ∀ e, (exec x s.pallets).1 = .error e → keys = [])
    (stores : ∀ p, exec x s.pallets = (.ok ⟨⟩, p) → s.pallets.balances.Stores keys p.balances) :
    s.pallets.balances.Stores keys
      (exec (transactional (recording x transfers)) s).2.pallets.balances := by
  rw [exec_transactional, recording, exec_get_bind, exec_bind, exec_zoom]
  rcases run : exec x s.pallets with ⟨e | _, p⟩
  · rw [fails e (by rw [run])]
    exact .refl s.pallets.balances
  · exact stores p run

mutual

theorem dispatch_tells (laws : RuntimeProofLaws r) (call : RuntimeCall A H O) (o : Origin A)
    (s : RuntimeState A H N) :
    s.pallets.balances.Tells (events r call o s)
      (exec (dispatch r call o) s).2.pallets.balances := by
  match call with
  | .balances call =>
      have filed := call.dispatch_stores r.config.existentialDeposit laws.fungible o.caller
        s.pallets.balances
      rw [events, called]
      refine BalancesState.Stores.tells ?_
      rw [dispatch]
      refine recording_stores ?_ ?_
      · intro e failed
        have outcome : (exec (call.dispatch r.config.existentialDeposit r.config.fungible o.caller)
          s.pallets.balances).1 = .error e := failed
        simp only [BalancesCall.proofs]
        rw [exec_eq_of_fst outcome]
      · intro p run
        obtain ⟨b, moved, rfl⟩ := ReversibleTransfers.withBalances_ok_iff.mp run
        rwa [moved] at filed
  | .reversibleTransfers call =>
      have filed := call.dispatch_stores laws.fungible o.caller s.pallets
      rw [events, called]
      refine BalancesState.Stores.tells ?_
      rw [dispatch]
      refine recording_stores ?_ ?_
      · intro e failed
        simp only [ReversibleTransfers.Call.proofs]
        rw [failed]
      · intro p run
        rwa [run] at filed
  | .other call =>
      rw [events, called]
      refine BalancesState.Stores.tells ?_
      rw [dispatch]
      exact recording_stores (fun _ _ => rfl) fun p run => laws.other run
  | .batch kind calls =>
      have inside := runBatch_tells laws kind calls (kind.filter o) s
      simp only [events]
      rcases h : exec (dispatch r (.batch kind calls) o) s with ⟨e | _, s'⟩
      · rw [eq_of_dispatch_error h]
        exact .refl s.pallets.balances
      · obtain ⟨-, -, run⟩ := dispatch_batch_ok h
        rwa [run] at inside
  | .wrapped wrapper call =>
      simp only [events]
      cases origin : r.innerOrigin wrapper s.pallets o with
      | error e =>
          rw [dispatch, exec_transactional, exec_get_bind, origin]
          exact .refl s.pallets.balances
      | ok inner =>
          have told := dispatch_tells laws call inner s
          rw [exec_wrapped origin]
          dsimp only
          split
          · exact told
          · exact told

theorem runBatch_tells (laws : RuntimeProofLaws r) (kind : BatchKind)
    (calls : List (RuntimeCall A H O)) (o : Origin A) (s : RuntimeState A H N) :
    s.pallets.balances.Tells (batchEvents r kind calls o s)
      (exec (runBatch r kind calls o) s).2.pallets.balances := by
  match calls with
  | [] =>
      rw [runBatch, batchEvents]
      exact .refl s.pallets.balances
  | call :: rest =>
      have first := dispatch_tells laws call o s
      have others := runBatch_tells laws kind rest o (exec (dispatch r call o) s).2
      simp only [batchEvents]
      rw [runBatch, exec_attempt_bind]
      rcases h : exec (dispatch r call o) s with ⟨e | _, s₁⟩
      · rw [h] at first others
        cases kind with
        | batch => exact first.trans (.refl _)
        | batchAll => exact first.trans (.refl _)
        | forceBatch => exact first.trans others
      · rw [h] at first others
        exact first.trans others

end

end

namespace TransferProofs

/-- `signed` is an extrinsic past the extensions, `dispatched` a call that the runtime
makes itself, as the scheduler does, and `outside` whatever else happens in between. -/
inductive Label (A H N O : Type)
  | signed (who : A) (call : RuntimeCall A H O)
  | dispatched (o : Origin A) (call : RuntimeCall A H O)
  | outside (s : ReversibleTransfers.State A H N)

def consumeNonce (s : ReversibleTransfers.State A H N) (who : A) :
    ReversibleTransfers.State A H N :=
  { s with balances := s.balances.incAccountNonce who }

section
variable (r : Runtime A H N O)

def next (s : ReversibleTransfers.State A H N) : Label A H N O → ReversibleTransfers.State A H N
  | .signed who call =>
    (exec (dispatch r call { caller := .signed who }) ⟨consumeNonce s who, []⟩).2.pallets
  | .dispatched o call => (exec (dispatch r call o) ⟨s, []⟩).2.pallets
  | .outside s' => s'

def stepEvents (s : ReversibleTransfers.State A H N) : Label A H N O → List (ProofEvent A)
  | .signed who call => .signed who :: events r call { caller := .signed who }
      ⟨consumeNonce s who, []⟩
  | .dispatched o call => events r call o ⟨s, []⟩
  | .outside s' => [.called (s.balances.resets s'.balances) []]

/-- No proof is filed before the run, and the nonces are `n`. Steps outside file none
and change no nonce, save of accounts they reap. -/
def chain (n : A → ℕ) : Machine (ReversibleTransfers.State A H N) (Label A H N O) where
  init s := s.balances.transferProof = ∅ ∧ ∀ a, (s.balances.system a).nonce = n a
  step s l s' := (∀ t, l = .outside t → s.balances.Stores [] t.balances) ∧ s' = next r s l

variable (τ : List (Transition (ReversibleTransfers.State A H N) (Label A H N O)))

def history : List (ProofEvent A) := τ.flatMap fun t => stepEvents r t.pre t.label

/-- Every transfer has filed a proof under a key of its own, and there are no others. -/
structure EachOwn (s : ReversibleTransfers.State A H N) : Prop where
  fresh : (filed (history r τ)).Nodup
  stored : s.balances.transferProof = (filed (history r τ)).toFinset
  asMany : s.balances.transferProof.card = (filed (history r τ)).length

end

variable {r : Runtime A H N O} {n : A → ℕ} {s s' : ReversibleTransfers.State A H N}
  {l : Label A H N O}
  {τ : List (Transition (ReversibleTransfers.State A H N) (Label A H N O))}

theorem step_tells (laws : RuntimeProofLaws r) (step : (chain r n).step s l s') :
    s.balances.Tells (stepEvents r s l) s'.balances := by
  obtain ⟨outside, rfl⟩ := step
  cases l with
  | signed who call =>
      exact (s.balances.tells_signed who).trans (dispatch_tells laws call _ _)
  | dispatched o call => exact dispatch_tells laws call _ _
  | outside t => exact (outside t rfl).tells

theorem run_tells (laws : RuntimeProofLaws r) (run : Run (chain r n) τ s) :
    ∃ b : BalancesState A, b.transferProof = ∅ ∧ (∀ a, (b.system a).nonce = n a) ∧
      b.Tells (history r τ) s.balances := by
  refine run.history (P := fun τ s => ∃ b : BalancesState A, b.transferProof = ∅ ∧
    (∀ a, (b.system a).nonce = n a) ∧ b.Tells (history r τ) s.balances) ?_ ?_
  · intro s init
    exact ⟨s.balances, init.1, init.2, .refl s.balances⟩
  · intro τ s l s' _ ih step
    obtain ⟨b, empty, nonces, told⟩ := ih
    refine ⟨b, empty, nonces, ?_⟩
    have snoc : history r (τ ++ [⟨s, l, s'⟩]) = history r τ ++ stepEvents r s l := by
      simp [history]
    rw [snoc]
    exact told.trans (step_tells laws step)

/-- Every transfer leaves a proof of its own exactly if, for each account, any two equal
transfers are made when it has signed a different number of extrinsics since its nonce
was last reset. -/
theorem eachOwn_iff (laws : RuntimeProofLaws r) (run : Run (chain r n) τ s) :
    EachOwn r τ s ↔ ∀ a, Spaced (n a) (story a (history r τ)) := by
  obtain ⟨b, empty, nonces, told⟩ := run_tells laws run
  have stored : s.balances.transferProof = (filed (history r τ)).toFinset := by
    rw [told.stored, empty, Finset.empty_union]
  have distinct : (filed (history r τ)).Nodup ↔ ∀ a, Spaced (n a) (story a (history r τ)) := by
    rw [nodup_iff_forall_ofOwner]
    refine forall_congr' fun a => ?_
    rw [told.stamped a, nonces a]
    exact nodup_stamp_iff
  rw [← distinct]
  constructor
  · exact EachOwn.fresh
  · intro fresh
    refine ⟨fresh, stored, ?_⟩
    rw [stored]
    exact List.toFinset_card_of_nodup fresh

end TransferProofs

namespace Mock
open ReversibleTransfers.Mock TransferProofs

/-- The runtime, on balances that remove an emptied account. -/
def reapingRuntime : Runtime ℕ TxId (TxId × ℕ) Empty :=
  { callRuntime with
    config := { config with
      fungible := Plain.reaping 1000000000
      laws := Plain.reapingLaws 1000000000 } }

theorem reapingRuntime_proofLaws : RuntimeProofLaws reapingRuntime where
  fungible := Plain.reaping_proofLaws 1000000000
  other {call} := nomatch call

def ledgerStart : MockState := ReversibleTransfers.genesis config [] balances

/-- Account 2 signs a transfer to account 1; its balance is twice the existential
deposit. -/
def gives (value : ℕ) : TransferProofs.Label ℕ TxId (TxId × ℕ) Empty :=
  .signed 2 (.balances (.transferAllowDeath (.id 1) value))

def refunds : TransferProofs.Label ℕ TxId (TxId × ℕ) Empty :=
  .dispatched ⟨.root, false⟩ (.balances (.forceTransfer (.id 1) (.id 2) 2000000000))

/-- Three equal transfers; the second one removes the account, and before the third it
signs an extrinsic that transfers nothing. -/
def givesThrice : List (TransferProofs.Label ℕ TxId (TxId × ℕ) Empty) :=
  [gives 1000000000, gives 1000000000, refunds, .signed 2 (.batch .batch []), gives 1000000000]

/-- Two equal transfers in one extrinsic. -/
def givesTwiceInBatch : List (TransferProofs.Label ℕ TxId (TxId × ℕ) Empty) :=
  [.signed 2 (.batch .batchAll [.balances (.transferAllowDeath (.id 1) 500000000),
    .balances (.transferAllowDeath (.id 1) 500000000)])]

/-- Account 2 is emptied twice. -/
def givesAllTwice : List (TransferProofs.Label ℕ TxId (TxId × ℕ) Empty) :=
  [gives 2000000000, refunds, gives 2000000000]

theorem run_calls (ls : List (TransferProofs.Label ℕ TxId (TxId × ℕ) Empty))
    (calls : ∀ l ∈ ls, ∀ t, l ≠ .outside t) :
    Run (TransferProofs.chain reapingRuntime fun _ => 0)
      (trace (next reapingRuntime) ledgerStart ls)
      (ls.foldl (next reapingRuntime) ledgerStart) := by
  have begin : Run (TransferProofs.chain reapingRuntime fun _ => 0) [] ledgerStart :=
    .start ⟨rfl, fun _ => rfl⟩
  refine begin.execute ?_
  intro t mem
  exact ⟨fun outside out => absurd out (calls t.label (label_of_mem_trace t mem) outside), rfl⟩

end Mock

open Mock TransferProofs in
theorem eachOwn_givesThrice :
    EachOwn reapingRuntime (trace (next reapingRuntime) ledgerStart givesThrice)
      (givesThrice.foldl (next reapingRuntime) ledgerStart) := by
  refine (eachOwn_iff reapingRuntime_proofLaws (run_calls givesThrice ?_)).mpr ?_
  · simp [givesThrice, gives, refunds]
  · rw [forall_spaced_iff]
    decide +kernel

open Mock TransferProofs in
/-- The second of two equal transfers in a batch leaves no proof, and neither does a
transfer that empties the account again. -/
theorem not_eachOwn_twice :
    (∃ τ s, Run (TransferProofs.chain reapingRuntime fun _ => 0) τ s ∧
      (filed (history reapingRuntime τ)).length = 2 ∧ s.balances.transferProof.card = 1 ∧
      ¬ EachOwn reapingRuntime τ s) ∧
    ∃ τ s, Run (TransferProofs.chain reapingRuntime fun _ => 0) τ s ∧
      (filed (history reapingRuntime τ)).length = 3 ∧ s.balances.transferProof.card = 2 ∧
      ¬ EachOwn reapingRuntime τ s := by
  refine ⟨⟨_, _, run_calls givesTwiceInBatch (by simp [givesTwiceInBatch]), ?_, ?_, ?_⟩,
    ⟨_, _, run_calls givesAllTwice (by simp [givesAllTwice, gives, refunds]), ?_, ?_, ?_⟩⟩
  · decide +kernel
  · decide +kernel
  · intro own
    exact absurd own.asMany (by decide +kernel)
  · decide +kernel
  · decide +kernel
  · intro own
    exact absurd own.asMany (by decide +kernel)

end Resonance
