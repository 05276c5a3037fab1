import Resonance.DilithiumCrypto.Types

/-!
The three decoders of a signature with its public key.

On a slice that is at least as long as a signature they all do the same: they
keep the bytes of a slice of the right length, and refuse any other. On a
shorter slice two of them refuse and the third panics where it cuts.
-/
namespace Resonance.DilithiumCrypto
open Slices

section
variable {B : Type} [ByteArray B] [LawfulByteArray B]

instance : LawfulByteArray (WrappedBytes B) where
  length_asSlice x := length_asSlice x.bytes
  fromSlice_asSlice x := congrArg (Option.map WrappedBytes.mk) (fromSlice_asSlice x.bytes)
  asSlice_of_fromSlice data x made := by
    obtain ⟨b, inner, rfl⟩ := Option.map_eq_some_iff.1 made
    exact asSlice_of_fromSlice data b inner
  accepts data fits := by
    obtain ⟨b, made⟩ := accepts (B := B) data fits
    exact ⟨⟨b⟩, congrArg (Option.map WrappedBytes.mk) made⟩

theorem fromSlice_eq_none {data : List UInt8} (misfit : data.length ≠ len B) :
    (fromSlice data : Option B) = none := by
  cases made : (fromSlice data : Option B) with
  | none => rfl
  | some b =>
      rw [← asSlice_of_fromSlice data b made, length_asSlice] at misfit
      exact absurd rfl misfit

end

namespace ResonanceSignatureWithPublic
variable {S P : Type} [ByteArray S] [ByteArray P]

/-- The bytes of a slice, if there are as many as of a signature and a public key. -/
def ofSlice (data : List UInt8) : Option (ResonanceSignatureWithPublic S P) :=
  (array (totalLen S P) data).map mk

variable {data : List UInt8} {x : ResonanceSignatureWithPublic S P}

theorem ofSlice_eq_some : ofSlice data = some x ↔ x.bytes.toList = data := by
  rw [ofSlice, Option.map_eq_some_iff]
  constructor
  · intro ⟨bytes, made, same⟩
    subst same
    exact array_eq_some.1 made
  · intro same
    exact ⟨x.bytes, array_eq_some.2 same, rfl⟩

theorem ofSlice_eq_none (misfit : data.length ≠ totalLen S P) :
    (ofSlice data : Option (ResonanceSignatureWithPublic S P)) = none := by
  rw [ofSlice, array_eq_none.2 misfit, Option.map_none]

theorem signatureLen_le (fits : data.length = totalLen S P) : signatureLen S ≤ data.length := by
  rw [fits]
  exact Nat.le_add_right _ _

theorem exists_ofSlice :
    (∃ x : ResonanceSignatureWithPublic S P, ofSlice data = some x) ↔
      data.length = totalLen S P := by
  constructor
  · intro ⟨x, whole⟩
    rw [← ofSlice_eq_some.1 whole, Vector.length_toList]
  · intro fits
    exact ⟨⟨data.toArray, fits⟩, ofSlice_eq_some.2 rfl⟩

theorem tryFrom_panics (short : data.length < signatureLen S) :
    (tryFrom data : Fallible Unit (ResonanceSignatureWithPublic S P)).run =
      .error (.mid (signatureLen S) data.length) := by
  have cut : splitAt data (len (ResonanceSignature S)) =
      .error (.mid (signatureLen S) data.length) := splitAt_outside short
  rw [tryFrom, cut]
  rfl

variable [LawfulByteArray S] [LawfulByteArray P]

/-- Encoding never panics. -/
theorem new_ok (signature : ResonanceSignature S) (publicKey : ResonancePublic P) :
    ∃ x, new signature publicKey = .ok x ∧
      x.bytes.toList = asSlice signature ++ asSlice publicKey := by
  have fill : (asSlice signature).length + (asSlice publicKey).length = totalLen S P := by
    rw [length_asSlice, length_asSlice]
    rfl
  obtain ⟨bytes, filled, same⟩ := copyFromSlice_halves (Vector.replicate (totalLen S P) 0) fill
  refine ⟨⟨bytes⟩, ?_, same⟩
  have assoc : new signature publicKey = ((copyFromSlice (Vector.replicate (totalLen S P) 0) 0
      (signatureLen S) (asSlice signature) >>= fun bytes =>
        copyFromSlice bytes (signatureLen S) (totalLen S P) (asSlice publicKey)) >>=
      fun bytes => pure ⟨bytes⟩) := by
    rw [bind_assoc]
    rfl
  rw [length_asSlice] at filled
  rw [assoc, signatureLen, filled]
  rfl

/-- A slice of the right length is the bytes of a signature and a public key. -/
theorem parts_of_slice (fits : data.length = totalLen S P) :
    ∃ (signature : ResonanceSignature S) (publicKey : ResonancePublic P) (x : _),
      ByteArray.fromSlice (data.take (signatureLen S)) = some signature ∧
      ByteArray.fromSlice (data.drop (signatureLen S)) = some publicKey ∧
      new signature publicKey = .ok x ∧ ofSlice data = some x := by
  have left : (data.take (signatureLen S)).length = signatureLen S :=
    List.length_take_of_le (signatureLen_le fits)
  have right : (data.drop (signatureLen S)).length = publicLen P := by
    rw [List.length_drop, fits, totalLen, Nat.add_sub_cancel_left]
  obtain ⟨signature, hs⟩ := accepts (B := ResonanceSignature S) _ left
  obtain ⟨publicKey, hp⟩ := accepts (B := ResonancePublic P) _ right
  obtain ⟨x, made, same⟩ := new_ok signature publicKey
  rw [asSlice_of_fromSlice _ _ hs, asSlice_of_fromSlice _ _ hp, List.take_append_drop] at same
  exact ⟨signature, publicKey, x, hs, hp, made, ofSlice_eq_some.2 same⟩

theorem fromBytes_eq (data : List UInt8) :
    fromBytes data =
      okOr (ofSlice data : Option (ResonanceSignatureWithPublic S P)) .invalidLength := by
  by_cases fits : data.length = totalLen S P
  · obtain ⟨signature, publicKey, x, hs, hp, made, whole⟩ := parts_of_slice fits
    have enough := signatureLen_le fits
    rw [fromBytes, if_neg (not_not.2 fits), sliceTo_inside enough, sliceFrom_inside enough, whole]
    simp only [liftM_ok, pure_bind, hs, hp, okOr_some, made]
  · rw [fromBytes, if_pos fits, ofSlice_eq_none fits]
    rfl

theorem tryFrom_eq (enough : signatureLen S ≤ data.length) :
    tryFrom data = okOr (ofSlice data : Option (ResonanceSignatureWithPublic S P)) () := by
  have cut : splitAt data (len (ResonanceSignature S)) =
      .ok (data.take (signatureLen S), data.drop (signatureLen S)) := splitAt_inside enough
  rw [tryFrom, cut, liftM_ok, pure_bind]
  by_cases fits : data.length = totalLen S P
  · obtain ⟨signature, publicKey, x, hs, hp, made, whole⟩ := parts_of_slice fits
    simp only [hs, hp, okOr_some, pure_bind, made, liftM_ok, whole]
  · have left : (data.take (signatureLen S)).length = signatureLen S :=
      List.length_take_of_le enough
    have right : (data.drop (signatureLen S)).length ≠ publicLen P := by
      rw [List.length_drop]
      rw [totalLen] at fits
      omega
    obtain ⟨signature, hs⟩ := accepts (B := ResonanceSignature S) _ left
    have hp := fromSlice_eq_none (B := ResonancePublic P) right
    simp only [hs, hp, okOr_some, okOr_none, pure_bind, ofSlice_eq_none fits]
    rfl

theorem fromSlice_eq (data : List UInt8) :
    ResonanceSignatureWithPublic.fromSlice data =
      okOr (ofSlice data : Option (ResonanceSignatureWithPublic S P)) () := by
  rw [ResonanceSignatureWithPublic.fromSlice]
  by_cases fits : data.length = totalLen S P
  · obtain ⟨x, whole⟩ := exists_ofSlice.2 fits
    have bytes := ofSlice_eq_some.1 whole
    rw [if_neg (not_not.2 fits), array_eq_some.2 bytes]
    simp only [okOr_some, pure_bind, bytes, fromBytes_eq, whole]
    rfl
  · rw [if_pos fits, ofSlice_eq_none fits]
    rfl

theorem signature_of_bytes {signature : ResonanceSignature S} {publicKey : ResonancePublic P}
    (same : x.bytes.toList = asSlice signature ++ asSlice publicKey) :
    x.signature = .ok signature ∧ x.publicKey = .ok publicKey := by
  have border : (asSlice signature).length = signatureLen S := length_asSlice signature
  have inside : signatureLen S ≤ x.bytes.toList.length := signatureLen_le Vector.length_toList
  constructor
  · rw [ResonanceSignatureWithPublic.signature, sliceTo_inside inside, same,
      List.take_left' border]
    simp only [bind, Except.bind, fromSlice_asSlice]
    rfl
  · rw [ResonanceSignatureWithPublic.publicKey, sliceFrom_inside inside, same,
      List.drop_left' border]
    simp only [bind, Except.bind, fromSlice_asSlice]
    rfl

end ResonanceSignatureWithPublic

inductive Decoder
  | tryFrom
  | fromSlice
  | fromBytes
deriving DecidableEq

section
variable {S P : Type} [ByteArray S] [ByteArray P]
open ResonanceSignatureWithPublic

def Decoder.run (S P : Type) [ByteArray S] [ByteArray P] (data : List UInt8) :
    Decoder → Except Panic (Option (ResonanceSignatureWithPublic S P))
  | .tryFrom => Except.toOption <$> (ResonanceSignatureWithPublic.tryFrom data).run
  | .fromSlice => Except.toOption <$> (ResonanceSignatureWithPublic.fromSlice data).run
  | .fromBytes => Except.toOption <$> (ResonanceSignatureWithPublic.fromBytes data).run

/-- The decoders end and agree on a slice, and undo the encoders. -/
structure DecodersAgree (S P : Type) [ByteArray S] [ByteArray P] (data : List UInt8) : Prop where
  total : ∀ (d : Decoder) p, d.run S P data ≠ .error p
  agree : ∀ d d' : Decoder, d.run S P data = d'.run S P data
  accepts : ∀ d : Decoder, (∃ x, d.run S P data = .ok (some x)) ↔ data.length = totalLen S P
  encode : ∀ (d : Decoder) x, d.run S P data = .ok (some x) → x.toBytes.toList = data
  decode : ∀ signature publicKey, ∃ x : ResonanceSignatureWithPublic S P,
    new signature publicKey = .ok x ∧
      (x.toBytes.toList = data → ∀ d : Decoder, ∃ y, d.run S P data = .ok (some y) ∧
        y.signature = .ok signature ∧ y.publicKey = .ok publicKey)

variable [LawfulByteArray S] [LawfulByteArray P] {data : List UInt8}

theorem toOption_okOr {E R : Type} (o : Option R) (e : E) :
    Except.toOption <$> (okOr o e).run = .ok o := by
  cases o with
  | none => rfl
  | some r => rfl

theorem run_eq (enough : signatureLen S ≤ data.length) (d : Decoder) :
    d.run S P data = .ok (ofSlice data) := by
  cases d with
  | tryFrom =>
      rw [Decoder.run, tryFrom_eq enough, toOption_okOr]
  | fromSlice =>
      rw [Decoder.run, ResonanceSignatureWithPublic.fromSlice_eq, toOption_okOr]
  | fromBytes =>
      rw [Decoder.run, fromBytes_eq, toOption_okOr]

/-- Decoding is right on every slice that reaches to where the signature ends. -/
theorem decodersAgree_iff (data : List UInt8) :
    DecodersAgree S P data ↔ signatureLen S ≤ data.length := by
  constructor
  · intro h
    by_contra short
    refine h.total .tryFrom (.mid (signatureLen S) data.length) ?_
    rw [Decoder.run, tryFrom_panics (by omega)]
    rfl
  · intro enough
    have ran := run_eq (P := P) enough
    refine ⟨?_, ?_, ?_, ?_, ?_⟩
    · intro d p panics
      rw [ran] at panics
      cases panics
    · intro d d'
      rw [ran, ran]
    · intro d
      rw [← exists_ofSlice (S := S) (P := P)]
      exact exists_congr fun x => by rw [ran, Except.ok.injEq]
    · intro d x ok
      rw [ran] at ok
      exact ofSlice_eq_some.1 (Except.ok.inj ok)
    · intro signature publicKey
      obtain ⟨x, made, same⟩ := new_ok signature publicKey
      refine ⟨x, made, fun whole d => ⟨x, ?_, signature_of_bytes same⟩⟩
      rw [ran]
      exact congrArg Except.ok (ofSlice_eq_some.2 whole)

end

namespace Mock

/-- Arrays of bytes. -/
instance {n : ℕ} : ByteArray (Vector UInt8 n) where
  len := n
  asSlice v := v.toList
  fromSlice data := array n data

instance {n : ℕ} : LawfulByteArray (Vector UInt8 n) where
  length_asSlice _ := Vector.length_toList
  fromSlice_asSlice _ := array_eq_some.2 rfl
  asSlice_of_fromSlice _ _ made := array_eq_some.1 made
  accepts data fits := ⟨⟨data.toArray, fits⟩, array_eq_some.2 rfl⟩

/-- The lengths of ML-DSA-87. -/
abbrev SignatureBytes := Vector UInt8 4627

abbrev PublicBytes := Vector UInt8 2592

end Mock

theorem decodersAgree_zeros :
    DecodersAgree Mock.SignatureBytes Mock.PublicBytes (List.replicate 7219 0) :=
  (decodersAgree_iff _).2 (by rw [List.length_replicate]; decide)

/-- On the empty slice the first decoder panics where the others give an error. -/
theorem not_decodersAgree_nil :
    Decoder.run Mock.SignatureBytes Mock.PublicBytes [] .tryFrom = .error (.mid 4627 0) ∧
      Decoder.run Mock.SignatureBytes Mock.PublicBytes [] .fromSlice = .ok none ∧
      Decoder.run Mock.SignatureBytes Mock.PublicBytes [] .fromBytes = .ok none ∧
      ¬ DecodersAgree Mock.SignatureBytes Mock.PublicBytes [] := by
  have panics : Decoder.run Mock.SignatureBytes Mock.PublicBytes [] .tryFrom =
      .error (.mid 4627 0) := by
    decide +kernel
  exact ⟨panics, by decide +kernel, by decide +kernel, fun h => h.total .tryFrom _ panics⟩

end Resonance.DilithiumCrypto
