import Resonance.Foundation.HashTree
import Resonance.MerkleAirdrop.Pallet

/-!
The pallet's proofs are openings of a hash tree.

A leaf is the encoding of an account and an amount, 48 bytes; a node is its
children's digests in ascending order, 64 bytes. Verification climbs the tree: it
orders its two digests twice, to the same effect as once.
-/
namespace Resonance.MerkleAirdrop
open HashTree

/-- What one recipient may claim. -/
structure Leaf (A : Type) where
  account : A
  amount : ℕ
  amount_le : amount ≤ u128Max

variable {A V : Type} [DecidableEq A] (c : Config A V)

/-- The bytes of a leaf. -/
def encodeLeaf (account : A) (amount : ℕ) : List UInt8 :=
  (c.encode account).toList ++ (Positional.toLittleEndian 16 amount).toList

/-- The bytes of a node. -/
def combined (left right : MerkleHash) : List UInt8 :=
  if left.toList < right.toList then left.toList ++ right.toList else right.toList ++ left.toList

omit [DecidableEq A] in
theorem toLittleEndian_injective {len n m : ℕ} (hn : n < 256 ^ len) (hm : m < 256 ^ len)
    (h : Positional.toLittleEndian len n = Positional.toLittleEndian len m) : n = m := by
  have read := congrArg (fun v => Positional.fromLittleEndian v.toList) h
  simp only [Positional.fromLittleEndian_toLittleEndian] at read
  rwa [Nat.mod_eq_of_lt hn, Nat.mod_eq_of_lt hm] at read

theorem combined_comm (left right : MerkleHash) : combined left right = combined right left := by
  simp only [combined]
  by_cases below : left.toList < right.toList
  · rw [if_pos below, if_neg (List.lt_asymm below)]
  · by_cases above : right.toList < left.toList
    · rw [if_neg below, if_pos above]
    · rw [List.le_antisymm above below]

theorem combined_cases (left right : MerkleHash) :
    combined left right = left.toList ++ right.toList ∨
      combined left right = right.toList ++ left.toList := by
  simp only [combined]
  split
  · exact .inl rfl
  · exact .inr rfl

theorem length_combined (left right : MerkleHash) : (combined left right).length = 64 := by
  cases combined_cases left right with
  | inl h => simp [h]
  | inr h => simp [h]

/-- Digests have one length, so the bytes of a node are those of one pair of digests. -/
theorem append_injective {a b a' b' : MerkleHash}
    (h : a.toList ++ b.toList = a'.toList ++ b'.toList) : a = a' ∧ b = b' := by
  obtain ⟨first, second⟩ := List.append_inj h (by simp)
  exact ⟨Vector.toList_inj.1 first, Vector.toList_inj.1 second⟩

theorem combined_injective {d e d' e' : MerkleHash} (h : combined d e = combined d' e') :
    d = d' ∨ d = e' := by
  cases combined_cases d e with
  | inl first =>
      cases combined_cases d' e' with
      | inl second => exact .inl (append_injective (first.symm.trans (h.trans second))).1
      | inr second => exact .inr (append_injective (first.symm.trans (h.trans second))).1
  | inr first =>
      cases combined_cases d' e' with
      | inl second => exact .inr (append_injective (first.symm.trans (h.trans second))).2
      | inr second => exact .inl (append_injective (first.symm.trans (h.trans second))).2

theorem length_encodeLeaf (account : A) (amount : ℕ) :
    (encodeLeaf c account amount).length = 48 := by
  simp [encodeLeaf]

theorem encodeLeaf_injective {l l' : Leaf A}
    (h : encodeLeaf c l.account l.amount = encodeLeaf c l'.account l'.amount) : l = l' := by
  obtain ⟨account, amount, le⟩ := l
  obtain ⟨account', amount', le'⟩ := l'
  obtain ⟨first, second⟩ := List.append_inj h (by simp)
  obtain rfl := c.encode_injective (Vector.toList_inj.1 first)
  have max : u128Max < 256 ^ 16 := by decide
  obtain rfl := toLittleEndian_injective (le.trans_lt max) (le'.trans_lt max)
    (Vector.toList_inj.1 second)
  rfl

def scheme : Scheme (Leaf A) MerkleHash (List UInt8) where
  hash := c.blake2_256
  leafMessage l := encodeLeaf c l.account l.amount
  nodeMessage := combined
  leafMessage_injective := encodeLeaf_injective c
  nodeMessage_comm := combined_comm
  nodeMessage_injective := combined_injective
  leafMessage_ne_nodeMessage {l d e} h := by
    have length := congrArg List.length h
    rw [length_encodeLeaf, length_combined] at length
    cases length

/-- Verifying a proof is climbing from the leaf. -/
theorem verifyMerkleProof_iff (l : Leaf A) (merkleRoot : MerkleHash) (proof : List MerkleHash) :
    verifyMerkleProof c l.account l.amount merkleRoot proof = true ↔
      (scheme c).climb ((scheme c).hash ((scheme c).leafMessage l)) proof = merkleRoot := by
  have step (d e : MerkleHash) :
      (if d.toList < e.toList then calculateParentHashBlake2 c d e
        else calculateParentHashBlake2 c e d) = c.blake2_256 (combined d e) := by
    split
    · rfl
    · rw [combined_comm]
      rfl
  simp only [verifyMerkleProof]
  simp only [step]
  exact beq_iff_eq

namespace Mock

abbrev AccountId := Vector UInt8 32

def account (n : UInt8) : AccountId := Vector.replicate 32 n

/-- `PalletId(*b"airdrop!").into_account_truncating()` -/
def palletAccount : AccountId :=
  #v[109, 111, 100, 108, 97, 105, 114, 100, 114, 111, 112, 33,
    0, 0, 0, 0, 0, 0, 0, 0, 0, 0, 0, 0, 0, 0, 0, 0, 0, 0, 0, 0]

def leafHash1 : MerkleHash :=
  #v[193, 88, 233, 54, 26, 148, 20, 81, 35, 138, 130, 135, 251, 170, 212, 33,
    104, 216, 18, 26, 222, 106, 210, 170, 230, 154, 203, 126, 148, 204, 243, 131]

def leafHash2 : MerkleHash :=
  #v[72, 64, 211, 243, 130, 184, 197, 101, 252, 25, 240, 10, 247, 63, 3, 143,
    238, 203, 77, 115, 188, 92, 211, 202, 245, 21, 225, 115, 188, 123, 35, 240]

def rootHash : MerkleHash :=
  #v[111, 196, 100, 96, 200, 205, 170, 184, 117, 106, 63, 130, 207, 230, 12, 78,
    222, 105, 235, 141, 116, 233, 39, 45, 115, 35, 96, 197, 167, 111, 201, 47]

def leaf1 : Leaf AccountId := ⟨account 1, 1000000000000, by decide⟩

def leaf2 : Leaf AccountId := ⟨account 2, 2000000000000, by decide⟩

/-- What blake2 makes of the two leaves and of the node over them. -/
def blake2_256 (bytes : List UInt8) : MerkleHash :=
  if bytes = (account 1).toList ++ (Positional.toLittleEndian 16 1000000000000).toList then
    leafHash1
  else if bytes = (account 2).toList ++ (Positional.toLittleEndian 16 2000000000000).toList then
    leafHash2
  else if bytes = leafHash2.toList ++ leafHash1.toList then rootHash
  else Vector.replicate 32 0

/-- The runtime's limits, with vesting that counts schedules. -/
def config : Config AccountId (AccountId → ℕ) where
  accountId := palletAccount
  encode := id
  encode_injective := id
  blake2_256 := blake2_256
  blockNumberToBalance := id
  unsignedClaimPriority := 100
  existentialDeposit := 1000000000
  fungible := Plain.methods 1000000000
  laws := Plain.laws 1000000000
  expendable := Plain.expendableLaws 1000000000
  vesting := Plain.vesting 1000000000 1000000000000
  vestingLaws := Plain.vestingLaws 1000000000 1000000000000

end Mock

/-- Proofs are complete and sound, for trees and proofs of every shape: each leaf's
siblings are a proof of it, and a proof that is accepted for the root of a tree is one
of a leaf of the tree, unless two of the byte strings hashed have one digest. -/
theorem merkleProofs_complete_and_sound (t : HashTree (Leaf A)) :
    ((scheme c).openings t).map Prod.fst = t.leaves ∧
      (∀ o ∈ (scheme c).openings t,
        verifyMerkleProof c o.1.account o.1.amount ((scheme c).root t) o.2 = true) ∧
      ∀ (l : Leaf A) (proof : List MerkleHash), (scheme c).NoCollision t l proof →
        verifyMerkleProof c l.account l.amount ((scheme c).root t) proof = true →
          l ∈ t.leaves := by
  refine ⟨Scheme.openings_map_fst t, ?_, ?_⟩
  · intro o mem
    exact (verifyMerkleProof_iff c o.1 _ o.2).mpr (Scheme.climb_of_mem_openings t o mem)
  · intro l proof free accepted
    exact Scheme.mem_leaves_of_climb t proof free ((verifyMerkleProof_iff c l _ proof).mp accepted)

open Mock in
theorem merkleProofs_two_leaves :
    leaf1 ∈ (node (leaf leaf1) (leaf leaf2)).leaves ∧
      verifyMerkleProof config (account 1) 1000000000000 rootHash [leafHash2] = true := by
  have accepted : verifyMerkleProof config (account 1) 1000000000000
      ((scheme config).root (node (leaf leaf1) (leaf leaf2))) [leafHash2] = true := by
    decide +kernel
  have free : (scheme config).NoCollision (node (leaf leaf1) (leaf leaf2)) leaf1 [leafHash2] := by
    simp only [Scheme.NoCollision]
    decide +kernel
  refine ⟨(merkleProofs_complete_and_sound config (node (leaf leaf1) (leaf leaf2))).2.2 leaf1
    [leafHash2] free accepted, ?_⟩
  decide +kernel

end Resonance.MerkleAirdrop
