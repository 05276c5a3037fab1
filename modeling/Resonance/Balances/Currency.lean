import Resonance.Balances.Plain

/-!
The legacy `Currency` trait of the balances pallet.

Its `transfer` does nothing for a zero amount or to oneself and otherwise is the
`transfer` of the fungible traits. What that does when the sender may die is
documented by one more law: a rest below the existential deposit is destroyed. The
methods on accounts without reference counting keep this law too.
-/
namespace Resonance
open Storage
variable {A : Type} [DecidableEq A]

inductive ExistenceRequirement
  | keepAlive
  | allowDeath
deriving DecidableEq

def ExistenceRequirement.preservation : ExistenceRequirement → Preservation
  | .keepAlive => .preserve
  | .allowDeath => .expendable

namespace Currency

def transfer (m : FungibleMethods A) (transactor dest : A) (value : ℕ)
    (existenceRequirement : ExistenceRequirement) : BalancesM A PUnit :=
  if value = 0 ∨ transactor = dest then pure ⟨⟩
  else m.transfer transactor dest value existenceRequirement.preservation

end Currency

/-- What is left in an account that may die after it paid `amount`. -/
def AccountData.rest (ed : ℕ) (a : AccountData) (amount : ℕ) : ℕ :=
  if a.free - amount < ed ∧ a.reserved = 0 then 0 else a.free - amount

/-- What is documented of a transfer that may kill its sender. -/
structure ExpendableLaws {ed : ℕ} {m : FungibleMethods A} (laws : FungibleLaws ed m) : Prop where
  transfer_moves : ∀ {b b'} {source dest : A} {amount : ℕ}, laws.Valid b → source ≠ dest →
    exec (m.transfer source dest amount .expendable) b = (.ok ⟨⟩, b') →
      amount ≤ (b.account source).free ∧
        (b'.account source).free = (b.account source).rest ed amount ∧
        (b'.account dest).free = (b.account dest).free + amount

section
variable {ed : ℕ} {m : FungibleMethods A} {laws : FungibleLaws ed m} {b b' : BalancesState A}
  {source dest : A} {value : ℕ}

theorem Currency.transfer_valid {e : ExistenceRequirement} (valid : laws.Valid b)
    (run : exec (Currency.transfer m source dest value e) b = (.ok ⟨⟩, b')) : laws.Valid b' := by
  simp only [Currency.transfer] at run
  split at run
  · cases run
    exact valid
  · exact (laws.transfer_keeps valid run).1

theorem Currency.transfer_ok_iff {e : ExistenceRequirement} (valid : laws.Valid b) :
    (∃ b', exec (Currency.transfer m source dest value e) b = (.ok ⟨⟩, b')) ↔
      value = 0 ∨ source = dest ∨
        ((∃ extra, (b.canWithdraw ed source value).intoResult (e.preservation ≠ .expendable) =
            .ok extra) ∧
          b.canDeposit ed dest value .extant = .success) := by
  simp only [Currency.transfer]
  split
  next noop => exact ⟨fun _ => or_assoc.mp (.inl noop), fun _ => ⟨b, rfl⟩⟩
  next moves =>
    rw [laws.transfer_ok_iff valid]
    exact ⟨fun ok => .inr (.inr ok),
      fun ok => ok.elim (fun zero => absurd (.inl zero) moves)
        fun rest => rest.resolve_left fun same => moves (.inr same)⟩

/-- A payment that keeps the payer alive arrives in full. -/
theorem Currency.transfer_keepAlive (valid : laws.Valid b) (differ : source ≠ dest)
    (run : exec (Currency.transfer m source dest value .keepAlive) b = (.ok ⟨⟩, b')) :
    (b'.account source).free + value = (b.account source).free ∧
      (b'.account dest).free = (b.account dest).free + value := by
  simp only [Currency.transfer] at run
  split at run
  next noop =>
    obtain rfl := noop.resolve_right differ
    cases run
    exact ⟨rfl, rfl⟩
  next => exact laws.transfer_moves valid differ run

/-- A payment that may kill the payer arrives in full and leaves the rest, or nothing
where the rest is dust. -/
theorem Currency.transfer_allowDeath (expendable : ExpendableLaws laws) (valid : laws.Valid b)
    (differ : source ≠ dest) (positive : 0 < value)
    (run : exec (Currency.transfer m source dest value .allowDeath) b = (.ok ⟨⟩, b')) :
    value ≤ (b.account source).free ∧
      (b'.account source).free = (b.account source).rest ed value ∧
      (b'.account dest).free = (b.account dest).free + value := by
  simp only [Currency.transfer] at run
  rw [if_neg (fun noop => noop.elim (fun zero => by omega) differ)] at run
  exact expendable.transfer_moves valid differ run

theorem Currency.transfer_self {e : ExistenceRequirement} {who : A}
    (run : exec (Currency.transfer m who who value e) b = (.ok ⟨⟩, b')) : b' = b := by
  unfold Currency.transfer at run
  rw [if_pos (.inr rfl)] at run
  cases run
  rfl

end

theorem Plain.expendableLaws (ed : ℕ) : ExpendableLaws (Plain.laws (A := A) ed) where
  transfer_moves {b b' source dest amount} _ differ run := by
    obtain ⟨⟨extra, withdrawn⟩, -, rfl⟩ := Plain.transfer_ok_iff.mp run
    have enough := Plain.intoResult_ok_le withdrawn
    rw [Plain.move_account differ, Plain.move_account differ, if_neg differ, if_pos rfl, if_pos rfl]
    refine ⟨enough, ?_, rfl⟩
    simp only [Plain.dust, AccountData.rest, true_and]
    split
    · omega
    · omega

end Resonance
