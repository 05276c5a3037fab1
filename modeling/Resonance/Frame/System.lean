import Resonance.Frame.Primitives

/-!
The reference counts of frame_system.

They belong to FRAME; what a pallet relies on is a structure with its laws. A
consumer needs a provider, and there is a limit on consumers; the last provider
cannot go while there are consumers. Decrements are documented only for counts
that were incremented before. An account that nobody provides and that is not
sufficient by itself is not stored.
-/
namespace Resonance

structure AccountRefs where
  consumers : ℕ
  providers : ℕ
  sufficients : ℕ
deriving DecidableEq

instance : Inhabited AccountRefs := ⟨⟨0, 0, 0⟩⟩

namespace AccountRefs

def Stored (r : AccountRefs) : Prop := 0 < r.providers ∨ 0 < r.sufficients

instance (r : AccountRefs) : Decidable r.Stored := inferInstanceAs (Decidable (_ ∨ _))

/-- `can_dec_provider` -/
def CanDecProvider (r : AccountRefs) : Prop := r.consumers = 0 ∨ r.providers > 1

instance (r : AccountRefs) : Decidable r.CanDecProvider := inferInstanceAs (Decidable (_ ∨ _))

end AccountRefs

structure RefCounting where
  maxConsumers : ℕ
  incProviders : AccountRefs → AccountRefs
  decProviders : AccountRefs → Except DispatchError AccountRefs
  incConsumers : AccountRefs → Except DispatchError AccountRefs
  incConsumersWithoutLimit : AccountRefs → Except DispatchError AccountRefs
  decConsumers : AccountRefs → AccountRefs
  incProviders_eq : ∀ r, incProviders r = { r with providers := r.providers + 1 }
  decProviders_eq : ∀ r, 0 < r.providers → decProviders r =
    if r.CanDecProvider then .ok { r with providers := r.providers - 1 }
    else .error .consumerRemaining
  incConsumers_eq : ∀ r, incConsumers r =
    if r.providers = 0 then .error .noProviders
    else if r.consumers < maxConsumers then .ok { r with consumers := r.consumers + 1 }
    else .error .tooManyConsumers
  decConsumers_eq : ∀ r, 0 < r.consumers → decConsumers r = { r with consumers := r.consumers - 1 }

/-- The counts as natural numbers. -/
def RefCounting.plain (maxConsumers : ℕ) : RefCounting where
  maxConsumers := maxConsumers
  incProviders r := { r with providers := r.providers + 1 }
  decProviders r :=
    if r.CanDecProvider then .ok { r with providers := r.providers - 1 }
    else .error .consumerRemaining
  incConsumers r :=
    if r.providers = 0 then .error .noProviders
    else if r.consumers < maxConsumers then .ok { r with consumers := r.consumers + 1 }
    else .error .tooManyConsumers
  incConsumersWithoutLimit r :=
    if r.providers = 0 then .error .noProviders else .ok { r with consumers := r.consumers + 1 }
  decConsumers r := { r with consumers := r.consumers - 1 }
  incProviders_eq _ := rfl
  decProviders_eq _ _ := rfl
  incConsumers_eq _ := rfl
  decConsumers_eq _ _ := rfl

end Resonance
