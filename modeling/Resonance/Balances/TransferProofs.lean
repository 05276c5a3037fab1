import Mathlib.Data.Finset.Lattice.Lemmas
import Resonance.Balances.Plain

/-!
The proofs that transfers leave.

A transfer call between distinct accounts files a proof under the sender's nonce, the
two accounts and the amount, last of all. `Stores` says of a call which keys it filed:
nonces only ever drop meanwhile, when an account is reaped, and the keys carry the nonce
that the call leaves their sender with.
-/
namespace Resonance
open Storage
variable {A : Type} [DecidableEq A]

/-- Nonce, sender, recipient and amount. -/
abbrev ProofKey (A : Type) := ℕ × A × A × ℕ

/-- Sender, recipient and amount of a transfer call that this origin may make. -/
def BalancesCall.parties (ed : ℕ) (call : BalancesCall A) (origin : RawOrigin A)
    (b : BalancesState A) : Option (A × A × ℕ) :=
  match call, origin with
  | .transferAllowDeath dest value, .signed source =>
    dest.lookup.map fun d => (source, d, value)
  | .forceTransfer source dest value, .root =>
    source.lookup.bind fun s => dest.lookup.map fun d => (s, d, value)
  | .transferKeepAlive dest value, .signed source =>
    dest.lookup.map fun d => (source, d, value)
  | .transferAll dest keepAlive, .signed source =>
    let keepAlive := if keepAlive then .preserve else .expendable
    dest.lookup.map fun d => (source, d, b.reducibleBalance ed source keepAlive .polite)
  | _, _ => none

/-- The keys that dispatching a transfer call files: at most one. -/
def BalancesCall.proofs (ed : ℕ) (m : FungibleMethods A) (call : BalancesCall A)
    (origin : RawOrigin A) (b : BalancesState A) : List (ProofKey A) :=
  match exec (call.dispatch ed m origin) b with
  | (.ok _, b') =>
    match call.parties ed origin b with
    | some (source, dest, value) =>
      if source ≠ dest then [((b'.system source).nonce, source, dest, value)] else []
    | none => []
  | (.error _, _) => []

namespace BalancesState

/-- From `b` to `b'` the proofs under `keys` were filed. -/
structure Stores (keys : List (ProofKey A)) (b b' : BalancesState A) : Prop where
  stored : b'.transferProof = b.transferProof ∪ keys.toFinset
  drops : ∀ a, (b'.system a).nonce = (b.system a).nonce ∨ (b'.system a).nonce = 0
  shown : ∀ k ∈ keys, k.1 = (b'.system k.2.1).nonce

variable {b b₁ b' : BalancesState A} {keys : List (ProofKey A)}

theorem Stores.refl (b : BalancesState A) : Stores [] b b :=
  ⟨(Finset.union_empty _).symm, fun _ => .inl rfl, List.forall_mem_nil _⟩

theorem Stores.of_eq (proofs : b'.transferProof = b.transferProof) (system : b'.system = b.system) :
    Stores [] b b' := by
  refine ⟨?_, fun a => .inl ?_, List.forall_mem_nil _⟩
  · rw [proofs, List.toFinset_nil, Finset.union_empty]
  · rw [system]

theorem Stores.trans (first : Stores [] b b₁) (rest : Stores keys b₁ b') : Stores keys b b' := by
  refine ⟨?_, ?_, rest.shown⟩
  · rw [rest.stored, first.stored, List.toFinset_nil, Finset.union_empty]
  · intro a
    have := first.drops a
    have := rest.drops a
    omega

end BalancesState

/-- The provided methods file no proof and change no nonce, save of accounts they reap. -/
structure ProofLaws (m : FungibleMethods A) : Prop where
  transfer : ∀ {b b'} {source dest : A} {amount : ℕ} {p : Preservation},
    exec (m.transfer source dest amount p) b = (.ok ⟨⟩, b') → b.Stores [] b'
  hold : ∀ {b b'} {r : RuntimeHoldReason} {who : A} {amount : ℕ},
    exec (m.hold r who amount) b = (.ok ⟨⟩, b') → b.Stores [] b'
  release : ∀ {b b'} {r : RuntimeHoldReason} {who : A} {amount : ℕ},
    exec (m.release r who amount) b = (.ok ⟨⟩, b') → b.Stores [] b'
  transferOnHold : ∀ {b b'} {r : RuntimeHoldReason} {source dest : A} {amount : ℕ},
    exec (m.transferOnHold r source dest amount) b = (.ok ⟨⟩, b') → b.Stores [] b'

section
variable {ed : ℕ} {m : FungibleMethods A} {b b' : BalancesState A}

theorem BalancesCall.dispatch_parties {call : BalancesCall A} {origin : RawOrigin A}
    (run : exec (call.dispatch ed m origin) b = (.ok ⟨⟩, b')) :
    ∃ source dest value p, call.parties ed origin b = some (source, dest, value) ∧
      exec (transferAndProve m source dest value p) b = (.ok ⟨⟩, b') := by
  simp only [dispatch] at run
  rw [transactional_ok_iff] at run
  cases call with
  | transferAllowDeath dest value =>
      obtain ⟨source, rfl, run⟩ := ensureSigned_bind_ok_iff.mp run
      obtain ⟨d, found, run⟩ := okOr_bind_ok_iff.mp run
      exact ⟨source, d, value, _, by rw [parties, found]; rfl, run⟩
  | forceTransfer source dest value =>
      obtain ⟨rfl, run⟩ := ensureRoot_bind_ok_iff.mp run
      obtain ⟨s, sender, run⟩ := okOr_bind_ok_iff.mp run
      obtain ⟨d, found, run⟩ := okOr_bind_ok_iff.mp run
      exact ⟨s, d, value, _, by rw [parties, sender, found]; rfl, run⟩
  | transferKeepAlive dest value =>
      obtain ⟨source, d, rfl, found, run⟩ := transferKeepAlive_ok_iff.mp run
      exact ⟨source, d, value, _, by rw [parties, found]; rfl, run⟩
  | transferAll dest keepAlive =>
      obtain ⟨source, rfl, sending⟩ := ensureSigned_bind_ok_iff.mp run
      dsimp only at sending
      rw [exec_get_bind] at sending
      obtain ⟨d, found, moved⟩ := okOr_bind_ok_iff.mp sending
      exact ⟨source, d, _, _, by rw [parties, found]; rfl, moved⟩

theorem storeTransferProof_stores {source dest : A} {value : ℕ} :
    b.Stores (if source ≠ dest then [((b.system source).nonce, source, dest, value)] else [])
      (b.storeTransferProof source dest value) := by
  simp only [BalancesState.storeTransferProof]
  split
  · refine ⟨?_, fun _ => .inl rfl, ?_⟩
    · dsimp only
      rw [List.toFinset_cons, List.toFinset_nil, Finset.union_insert, Finset.union_empty]
    · intro k mem
      rw [List.mem_singleton.mp mem]
  · exact .refl b

/-- A transfer call files its keys, and nothing else. -/
theorem BalancesCall.dispatch_stores (ed : ℕ) (laws : ProofLaws m) (call : BalancesCall A)
    (origin : RawOrigin A) (b : BalancesState A) :
    b.Stores (call.proofs ed m origin b) (exec (call.dispatch ed m origin) b).2 := by
  simp only [proofs]
  rcases h : exec (call.dispatch ed m origin) b with ⟨e | _, b'⟩
  · have same : b' = b := by
      simp only [dispatch] at h
      exact eq_of_transactional_error h
    rw [same]
    exact .refl b
  · obtain ⟨source, dest, value, p, found, run⟩ := dispatch_parties h
    obtain ⟨b₁, moved, rfl⟩ := transferAndProve_ok_iff.mp run
    have system : (b₁.storeTransferProof source dest value).system = b₁.system := by
      simp only [BalancesState.storeTransferProof]
      split <;> rfl
    dsimp only
    rw [found, system]
    exact (laws.transfer moved).trans storeTransferProof_stores

end

namespace Plain
variable (ed : ℕ)

/-- An account left with nothing is removed, and its nonce with it. -/
def reap (b : BalancesState A) (source dest : A) : BalancesState A :=
  if source ≠ dest ∧ b.account source = ⟨0, 0, 0⟩ then
    { b with system := Function.update b.system source ⟨0, 0, 0⟩ }
  else b

/-- The provided methods on accounts that are removed when a transfer empties them. -/
def reaping : FungibleMethods A :=
  { methods ed with
    transfer := fun source dest amount p => do
      transfer ed source dest amount p
      modify fun b => reap b source dest }

variable {ed}

theorem reap_keeps {b : BalancesState A} {source dest : A} :
    (reap b source dest).account = b.account ∧ (reap b source dest).holds = b.holds := by
  simp only [reap]
  split
  · exact ⟨rfl, rfl⟩
  · exact ⟨rfl, rfl⟩

theorem reaping_transfer_ok_iff {b b' : BalancesState A} {source dest : A} {amount : ℕ}
    {p : Preservation} :
    exec ((reaping ed).transfer source dest amount p) b = (.ok ⟨⟩, b') ↔
      ∃ b₁, exec (transfer ed source dest amount p) b = (.ok ⟨⟩, b₁) ∧
        reap b₁ source dest = b' := by
  simp only [reaping, bind_ok_iff, exec_modify, Prod.mk.injEq, true_and]
  constructor
  · rintro ⟨_, b₁, moved, rfl⟩
    exact ⟨b₁, moved, rfl⟩
  · rintro ⟨b₁, moved, rfl⟩
    exact ⟨⟨⟩, b₁, moved, rfl⟩

def reapingLaws (ed : ℕ) : FungibleLaws ed (reaping (A := A) ed) where
  Valid := BalancesState.Fits
  hold_le_reserved := (laws ed).hold_le_reserved
  total_le := (laws ed).total_le
  valid_storeTransferProof := (laws ed).valid_storeTransferProof
  transfer_ok_iff {b source dest amount p} fits := by
    refine Iff.trans ?_ ((laws ed).transfer_ok_iff fits)
    simp only [reaping_transfer_ok_iff]
    constructor
    · rintro ⟨-, b₁, moved, -⟩
      exact ⟨b₁, moved⟩
    · rintro ⟨b₁, moved⟩
      exact ⟨_, b₁, moved, rfl⟩
  transfer_keeps {b b' source dest amount p} fits run := by
    obtain ⟨b₁, moved, rfl⟩ := reaping_transfer_ok_iff.mp run
    obtain ⟨fits₁, kept⟩ := transfer_keeps fits moved
    obtain ⟨account, holds⟩ := @reap_keeps _ _ b₁ source dest
    refine ⟨fun a => ?_, fun a r => ?_⟩
    · have := fits₁ a
      rwa [BalancesState.balanceOnHold, BalancesState.balanceOnHold, holds, account]
    · rw [BalancesState.balanceOnHold, holds]
      exact kept a r
  transfer_moves {b b' source dest amount} _ differ run := by
    obtain ⟨b₁, moved, rfl⟩ := reaping_transfer_ok_iff.mp run
    rw [reap_keeps.1]
    exact transfer_moves differ moved
  transfer_self {b b' who amount p} fits run := by
    obtain ⟨b₁, moved, rfl⟩ := reaping_transfer_ok_iff.mp run
    rw [reap, if_neg fun both => both.1 rfl]
    exact (laws ed).transfer_self fits moved
  hold_moves := (laws ed).hold_moves
  release_ok_iff := (laws ed).release_ok_iff
  release_moves := (laws ed).release_moves
  transferOnHold_moves := (laws ed).transferOnHold_moves

end Plain

theorem Plain.proofLaws (ed : ℕ) : ProofLaws (Plain.methods (A := A) ed) where
  transfer {b b' source dest amount p} run := by
    obtain ⟨-, -, rfl⟩ := Plain.transfer_ok_iff.mp run
    simp only [Plain.move]
    split
    · exact .refl b
    · exact .of_eq rfl rfl
  hold {b b' r who amount} run := by
    simp only [Plain.methods, Plain.hold, exec_get_bind, ensure_bind_ok_iff] at run
    obtain ⟨-, -, run⟩ := run
    cases run
    exact .of_eq rfl rfl
  release {b b' r who amount} run := by
    simp only [Plain.methods, Plain.release, exec_get_bind, ensure_bind_ok_iff] at run
    obtain ⟨-, -, run⟩ := run
    cases run
    exact .of_eq rfl rfl
  transferOnHold {b b' r source dest amount} run := by
    simp only [Plain.methods, Plain.transferOnHold, exec_get_bind, ensure_bind_ok_iff] at run
    obtain ⟨-, -, -, run⟩ := run
    cases run
    exact .of_eq rfl rfl

theorem Plain.reap_stores {b : BalancesState A} {source dest : A} :
    b.Stores [] (Plain.reap b source dest) := by
  refine ⟨?_, fun a => ?_, List.forall_mem_nil _⟩
  · simp only [Plain.reap]
    split <;> simp
  · simp only [Plain.reap]
    split
    · dsimp only
      rw [Function.update_apply]
      split
      · exact .inr rfl
      · exact .inl rfl
    · exact .inl rfl

theorem Plain.reaping_proofLaws (ed : ℕ) : ProofLaws (Plain.reaping (A := A) ed) where
  transfer run := by
    obtain ⟨b₁, moved, rfl⟩ := Plain.reaping_transfer_ok_iff.mp run
    exact ((Plain.proofLaws ed).transfer moved).trans reap_stores
  hold := (Plain.proofLaws ed).hold
  release := (Plain.proofLaws ed).release
  transferOnHold := (Plain.proofLaws ed).transferOnHold

end Resonance
