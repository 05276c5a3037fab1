import Resonance.Foundation.Positional
import Resonance.Wormhole.Withdrawals

/-!
How the public inputs of a proof are decoded.

`from_fields` asks for sixteen fields and reads eighteen. On every other number
of fields it ends with an error or with inputs from which the fields can be
read back; on sixteen and on seventeen it panics at the first field that is
missing.
-/
namespace Resonance.Wormhole
open Limbs
variable {A P : Type} {c : Config A P} {fields fields' : List UInt64} {start len : ℕ}

/-- The field elements that `len` reads from `start` on give. -/
def slice (fields : List UInt64) (start len : ℕ) : List UInt64 := (fields.drop start).take len

theorem field_eq (h : start < fields.length) : field fields start = .ok fields[start] := by
  rw [field, List.getElem?_eq_getElem h]

theorem field_panics : field fields fields.length = .error (.panic fields.length) := by
  rw [field, List.getElem?_eq_none le_rfl]

theorem slice_succ (h : start < fields.length) (len : ℕ) :
    slice fields start (len + 1) = fields[start] :: slice fields (start + 1) len := by
  rw [slice, slice, List.drop_eq_getElem_cons h, List.take_succ_cons]

/-- Reads either stay in bounds or panic at the end. -/
theorem mapM_field (inside : start ≤ fields.length) (len : ℕ) :
    (List.range' start len).mapM (field fields) =
      if start + len ≤ fields.length then .ok (slice fields start len)
      else .error (.panic fields.length) := by
  induction len generalizing start with
  | zero =>
      rw [Nat.add_zero, if_pos inside]
      rfl
  | succ len ih =>
      rw [List.range'_succ, List.mapM_cons]
      rcases Nat.lt_or_eq_of_le inside with more | rfl
      · rw [field_eq more, ih more]
        by_cases all : start + 1 + len ≤ fields.length
        · rw [if_pos all, if_pos (by omega), slice_succ more]
          rfl
        · rw [if_neg all, if_neg (by omega)]
          rfl
      · rw [field_panics, if_neg (by omega)]
        rfl

theorem fieldBytes_eq (inside : start ≤ fields.length) (len : ℕ) :
    fieldBytes fields start len =
      if start + len ≤ fields.length then .ok (toBytes (slice fields start len))
      else .error (.panic fields.length) := by
  rw [fieldBytes, mapM_field inside len]
  split
  · rfl
  · rfl

/-- The words of the fields that public inputs were decoded from. -/
def WormholePublicInputs.words (encode : A → List UInt8) (inputs : WormholePublicInputs A) :
    List UInt64 :=
  ofBytes 8 inputs.nullifier ++ ofBytes 4 (encode inputs.exitAccount) ++
    [inputs.exitAmount, inputs.feeAmount] ++ ofBytes 4 inputs.storageRoot

theorem fromFields_of_few (few : fields.length < 16) :
    fromFields c fields = .error (.error (.wormhole .invalidPublicInputs)) := by
  rw [fromFields, if_pos few]
  rfl

theorem fromFields_of_missing (enough : 16 ≤ fields.length) (missing : fields.length < 18) :
    fromFields c fields = .error (.panic fields.length) := by
  have root : fieldBytes fields 14 4 = .error (.panic fields.length) := by
    rw [fieldBytes_eq (by omega), if_neg (by omega)]
  rw [fromFields, if_neg (by omega), fieldBytes_eq (by omega), if_pos (by omega),
    fieldBytes_eq (by omega), if_pos (by omega), field_eq (by omega), field_eq (by omega), root]
  rfl

theorem fromFields_of_all (all : 18 ≤ fields.length) {a : A}
    (decoded : c.decode (toBytes (slice fields 8 4)) = some a) :
    fromFields c fields = .ok {
      nullifier := toBytes (slice fields 0 8)
      exitAccount := a
      exitAmount := fields[12]
      feeAmount := fields[13]
      storageRoot := toBytes (slice fields 14 4) } := by
  rw [fromFields, if_neg (by omega), fieldBytes_eq (by omega), if_pos (by omega),
    fieldBytes_eq (by omega), if_pos (by omega), field_eq (by omega), field_eq (by omega),
    fieldBytes_eq (by omega), if_pos (by omega)]
  simp only [bind, Except.bind, pure, Except.pure, decoded]

theorem length_slice (inside : start + len ≤ fields.length) :
    (slice fields start len).length = len := by
  rw [slice, List.length_take, List.length_drop]
  omega

theorem slice_append (fields : List UInt64) (start len more : ℕ) :
    slice fields start len ++ slice fields (start + len) more =
      slice fields start (len + more) := by
  rw [slice, slice, slice, List.take_add, List.drop_drop]

theorem take_eq_slices (all : 18 ≤ fields.length) :
    fields.take 18 = slice fields 0 8 ++ slice fields 8 4 ++ [fields[12], fields[13]] ++
      slice fields 14 4 := by
  have amounts : [fields[12], fields[13]] = slice fields 12 2 := by
    rw [slice_succ (by omega), slice_succ (by omega)]
    rfl
  rw [amounts, slice_append fields 0 8 4, slice_append fields 0 12 2, slice_append fields 0 14 4]
  rfl

/-- Decoding ends, refuses too few fields, and loses nothing of what it reads. -/
structure Decodes (c : Config A P) (encode : A → List UInt8) (fields : List UInt64) : Prop where
  total : ∀ index, fromFields c fields ≠ .error (.panic index)
  refuses : fields.length < 18 → ∃ e, fromFields c fields = .error (.error e)
  faithful : ∀ inputs, fromFields c fields = .ok inputs → inputs.words encode = fields.take 18
  injective : ∀ fields' inputs, fromFields c fields = .ok inputs →
    fromFields c fields' = .ok inputs → fields.take 18 = fields'.take 18

/-- Account ids are 32 bytes: decoding reads them and encoding writes them. -/
def ReadsAccounts (c : Config A P) (encode : A → List UInt8) : Prop :=
  ∀ bytes : List UInt8, bytes.length = 32 → ∃ a, c.decode bytes = some a ∧ encode a = bytes

variable {encode : A → List UInt8} {inputs : WormholePublicInputs A}

theorem words_of_all (reads : ReadsAccounts c encode) (all : 18 ≤ fields.length) :
    ∃ inputs, fromFields c fields = .ok inputs ∧ inputs.words encode = fields.take 18 := by
  have account : (toBytes (slice fields 8 4)).length = 32 := by
    rw [length_toBytes, length_slice (by omega)]
  have nullifier := ofBytes_toBytes (slice fields 0 8)
  have accountWords := ofBytes_toBytes (slice fields 8 4)
  have root := ofBytes_toBytes (slice fields 14 4)
  rw [length_slice (by omega)] at nullifier accountWords root
  obtain ⟨a, decoded, encoded⟩ := reads _ account
  refine ⟨_, fromFields_of_all all decoded, ?_⟩
  rw [WormholePublicInputs.words, encoded, nullifier, accountWords, root, take_eq_slices all]

theorem words_of_ok (reads : ReadsAccounts c encode) (ok : fromFields c fields = .ok inputs) :
    inputs.words encode = fields.take 18 := by
  rcases Nat.lt_or_ge fields.length 16 with few | enough
  · rw [fromFields_of_few few] at ok
    cases ok
  · rcases Nat.lt_or_ge fields.length 18 with missing | all
    · rw [fromFields_of_missing enough missing] at ok
      cases ok
    · obtain ⟨inputs', ok', words⟩ := words_of_all reads all
      cases ok.symm.trans ok'
      exact words

/-- Decoding is total and faithful on every number of fields but the two that
pass the check and are still too few. -/
theorem decodes_iff (reads : ReadsAccounts c encode) (fields : List UInt64) :
    Decodes c encode fields ↔ fields.length ≠ 16 ∧ fields.length ≠ 17 := by
  constructor
  · intro h
    by_contra missing
    exact h.total _ (fromFields_of_missing (by omega) (by omega))
  · intro ⟨not16, not17⟩
    refine ⟨?_, ?_, fun inputs => words_of_ok reads, ?_⟩
    · intro index panics
      rcases Nat.lt_or_ge fields.length 16 with few | enough
      · rw [fromFields_of_few few] at panics
        cases panics
      · obtain ⟨inputs, ok, -⟩ := words_of_all reads (by omega : 18 ≤ fields.length)
        cases ok.symm.trans panics
    · intro short
      exact ⟨_, fromFields_of_few (by omega)⟩
    · intro fields' inputs ok ok'
      rw [← words_of_ok reads ok, words_of_ok reads ok']

namespace Mock

/-- Account ids are lists of bytes. -/
def bytesConfig : Config (List UInt8) (List UInt64) where
  fromBytes bytes := some (bytes.map fun byte => byte.toUInt64)
  publicInputs := id
  verify _ := true
  decode := some
  existentialDeposit := 100

theorem readsAccounts_bytes : ReadsAccounts bytesConfig id :=
  fun bytes _ => ⟨bytes, rfl, rfl⟩

end Mock

/-- Sixteen fields pass the check, and the read of the seventeenth panics. -/
theorem not_decodes_sixteen :
    fromFields Mock.bytesConfig (List.replicate 16 0) = .error (.panic 16) ∧
      ¬ Decodes Mock.bytesConfig id (List.replicate 16 0) := by
  have panics : fromFields Mock.bytesConfig (List.replicate 16 0) = .error (.panic 16) := by
    decide +kernel
  exact ⟨panics, fun h => h.total 16 panics⟩

theorem decodes_eighteen : Decodes Mock.bytesConfig id (List.replicate 18 0) :=
  (decodes_iff Mock.readsAccounts_bytes _).2 (by decide)

end Resonance.Wormhole
