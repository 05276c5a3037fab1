import Resonance.Foundation.Slices

/-!
Dilithium signatures that carry the public key.

A signature and a public key are stored as one array of bytes. Three decoders
read the array from a slice: two look at the length first, the third cuts the
slice where the signature ends. The bytes of the two parts are those of the
substrate libraries; of them it is assumed that a slice is accepted exactly
when it has the right length, and that its bytes are kept.
-/
namespace Resonance.DilithiumCrypto
open Slices

/-- `sp_core::ByteArray` -/
class ByteArray (B : Type) where
  len : ℕ
  asSlice : B → List UInt8
  fromSlice : List UInt8 → Option B

/-- Exactly the slices of length `len` are accepted, and their bytes are kept. -/
class LawfulByteArray (B : Type) [ByteArray B] : Prop where
  length_asSlice (b : B) : (ByteArray.asSlice b).length = ByteArray.len B
  fromSlice_asSlice (b : B) : ByteArray.fromSlice (ByteArray.asSlice b) = some b
  asSlice_of_fromSlice (data : List UInt8) (b : B) :
    ByteArray.fromSlice data = some b → ByteArray.asSlice b = data
  accepts (data : List UInt8) :
    data.length = ByteArray.len B → ∃ b : B, ByteArray.fromSlice data = some b

export ByteArray (len asSlice fromSlice)
export LawfulByteArray (length_asSlice fromSlice_asSlice asSlice_of_fromSlice accepts)

/-- `WrappedSignatureBytes` and `WrappedPublicBytes` -/
structure WrappedBytes (B : Type) where
  bytes : B
deriving DecidableEq

instance {B : Type} [ByteArray B] : ByteArray (WrappedBytes B) where
  len := len B
  asSlice x := asSlice x.bytes
  fromSlice data := (fromSlice data).map WrappedBytes.mk

abbrev ResonanceSignature (S : Type) := WrappedBytes S

abbrev ResonancePublic (P : Type) := WrappedBytes P

inductive Error
  | keyGenerationFailed
  | invalidLength
deriving DecidableEq

/-- `Result<R, E>`, where code that panics gives no result. -/
abbrev Fallible (E R : Type) := ExceptT E (Except Panic) R

def okOr {E R : Type} (o : Option R) (e : E) : Fallible E R :=
  match o with
  | some r => pure r
  | none => throw e

section
variable {E R : Type}

@[simp] theorem okOr_some (r : R) (e : E) : okOr (some r) e = pure r := rfl

@[simp] theorem okOr_none (e : E) : okOr (none : Option R) e = throw e := rfl

@[simp] theorem liftM_ok (r : R) : (liftM (Except.ok r : Except Panic R) : Fallible E R) = pure r :=
  rfl

end

section
variable (S P : Type) [ByteArray S] [ByteArray P]

def signatureLen : ℕ := len (ResonanceSignature S)

def publicLen : ℕ := len (ResonancePublic P)

def totalLen : ℕ := signatureLen S + publicLen P

structure ResonanceSignatureWithPublic where
  bytes : Vector UInt8 (totalLen S P)
deriving DecidableEq

end

namespace ResonanceSignatureWithPublic
variable {S P : Type} [ByteArray S] [ByteArray P]

def new (signature : ResonanceSignature S) (publicKey : ResonancePublic P) :
    Except Panic (ResonanceSignatureWithPublic S P) := do
  let bytes := Vector.replicate (totalLen S P) 0
  let bytes ← copyFromSlice bytes 0 (signatureLen S) (asSlice signature)
  let bytes ← copyFromSlice bytes (signatureLen S) (totalLen S P) (asSlice publicKey)
  pure ⟨bytes⟩

def signature (x : ResonanceSignatureWithPublic S P) : Except Panic (ResonanceSignature S) := do
  expect (fromSlice (← sliceTo x.bytes.toList (signatureLen S))) "Invalid signature"

/-- `public` -/
def publicKey (x : ResonanceSignatureWithPublic S P) : Except Panic (ResonancePublic P) := do
  expect (fromSlice (← sliceFrom x.bytes.toList (signatureLen S))) "Invalid public key"

def toBytes (x : ResonanceSignatureWithPublic S P) : Vector UInt8 (totalLen S P) := x.bytes

def fromBytes (bytes : List UInt8) : Fallible Error (ResonanceSignatureWithPublic S P) := do
  if bytes.length ≠ totalLen S P then throw .invalidLength
  let signature ← okOr (fromSlice (← sliceTo bytes (signatureLen S))) .invalidLength
  let publicKey ← okOr (fromSlice (← sliceFrom bytes (signatureLen S))) .invalidLength
  new signature publicKey

/-- `TryFrom<&[u8]>` -/
def tryFrom (data : List UInt8) : Fallible Unit (ResonanceSignatureWithPublic S P) := do
  let (sigBytes, pubBytes) ← splitAt data (len (ResonanceSignature S))
  let signature ← okOr (fromSlice sigBytes) ()
  let publicKey ← okOr (fromSlice pubBytes) ()
  new signature publicKey

/-- `ByteArray::from_slice` -/
def fromSlice (data : List UInt8) : Fallible Unit (ResonanceSignatureWithPublic S P) := do
  if data.length ≠ totalLen S P then throw ()
  let bytes ← okOr (array (totalLen S P) data) ()
  (fromBytes bytes.toList).adapt fun _ => ()

end ResonanceSignatureWithPublic
end Resonance.DilithiumCrypto
