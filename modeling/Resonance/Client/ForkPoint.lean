import Resonance.Client.BestChain
import Resonance.Foundation.MachineInt

/-!
The fork point of two stored headers, with the heights as block numbers.

The three walks of `find_common_ancestor_and_depth` are written once more as
the loops of the source: a height is a number that is compared and lowered by
one, and lowering it at zero panics. No loop gets there on any tree, stored
headers or not, so the search is the one whose heights are counted down by the
recursion itself, and what is known of its result carries over.
-/
namespace Resonance
open ParentTree MachineInt
variable {H : Type}

namespace CheckedHeights
variable {α β : Type}

inductive Failure (H : Type)
  | consensus (error : ConsensusError H)
  | panic (panic : Panic)
deriving DecidableEq

abbrev Search (H α : Type) := Except (Failure H) α

/-- `?` on an error of the client. -/
def fallible (x : Except (ConsensusError H) α) : Search H α := x.mapError .consensus

/-- `height -= One::one()`, and what the loop does next. -/
def lowered (height : ℕ) (next : (lower : ℕ) → lower < height → Search H α) :
    Search H α :=
  if h : height = 0 then .error (.panic .arithmeticOverflow)
  else next (height - 1) (Nat.sub_one_lt h)

@[simp] theorem lowered_succ (height : ℕ)
    (next : (lower : ℕ) → lower < height + 1 → Search H α) :
    lowered (height + 1) next = next height (Nat.lt_succ_self height) :=
  dif_neg (Nat.succ_ne_zero height)

@[simp] theorem fallible_ok (a : α) : fallible (.ok a : Except (ConsensusError H) α) = .ok a :=
  rfl

theorem fallible_bind (x : Except (ConsensusError H) α) (f : α → Except (ConsensusError H) β) :
    fallible (x >>= f) = fallible x >>= fun a => fallible (f a) := by
  cases x with
  | error e => rfl
  | ok a => rfl

variable [DecidableEq H] [Inhabited H] [HeaderHash H]

/-- `while current_height > competing_height`. -/
def alignCurrent (t : HeaderTree H) (competingHeight : ℕ) (competingHash : H)
    (currentHeight : ℕ) (currentBestHash : H) (reorgDepth : ℕ) :
    Search H (H × ℕ ⊕ ℕ × H × ℕ) :=
  if currentHeight > competingHeight then
    if currentBestHash = competingHash then .ok (.inl (currentBestHash, reorgDepth))
    else fallible (parentHashOf t currentBestHash) >>= fun parent =>
      lowered currentHeight fun lower _ =>
        alignCurrent t competingHeight competingHash lower parent (reorgDepth + 1)
  else .ok (.inr (currentHeight, currentBestHash, reorgDepth))
termination_by currentHeight

/-- `while competing_height > current_height`. -/
def alignCompeting (t : HeaderTree H) (currentHeight competingHeight : ℕ) (competingHash : H)
    (reorgDepth : ℕ) : Search H (H × ℕ) :=
  if competingHeight > currentHeight then
    fallible (parentHashOf t competingHash) >>= fun parent =>
      lowered competingHeight fun lower _ =>
        alignCompeting t currentHeight lower parent (reorgDepth + 1)
  else .ok (competingHash, reorgDepth)
termination_by competingHeight

/-- `while current_best_hash != competing_hash`. -/
def findForkPoint (t : HeaderTree H) (currentHeight : ℕ) (currentBestHash competingHash : H)
    (reorgDepth : ℕ) : Search H (H × ℕ) :=
  if currentBestHash = competingHash then .ok (currentBestHash, reorgDepth)
  else if currentHeight = 0 then .error (.consensus .noCommonAncestorFound)
  else fallible (parentHashOf t currentBestHash) >>= fun current =>
    fallible (parentHashOf t competingHash) >>= fun competing =>
      lowered currentHeight fun lower _ =>
        findForkPoint t lower current competing (reorgDepth + 1)
termination_by currentHeight

def findCommonAncestorAndDepth (t : HeaderTree H) (currentBest competingHeader : Header H) :
    Search H (H × ℕ) :=
  if currentBest.hash = competingHeader.hash then .ok (currentBest.hash, 0)
  else do
    match ← alignCurrent t competingHeader.number competingHeader.hash
        currentBest.number currentBest.hash 0 with
    | .inl early => .ok early
    | .inr (currentHeight, currentBestHash, reorgDepth) =>
        let (competingHash, reorgDepth) ←
          alignCompeting t currentHeight competingHeader.number competingHeader.hash reorgDepth
        findForkPoint t currentHeight currentBestHash competingHash reorgDepth

theorem alignCurrent_eq (t : HeaderTree H) (competingHeight : ℕ) (competingHash : H)
    (currentHeight : ℕ) (currentBestHash : H) (reorgDepth : ℕ) :
    alignCurrent t competingHeight competingHash currentHeight currentBestHash reorgDepth =
      fallible (Resonance.alignCurrent t competingHeight competingHash currentHeight
        currentBestHash reorgDepth) := by
  induction currentHeight generalizing currentBestHash reorgDepth with
  | zero =>
      rw [alignCurrent, if_neg (Nat.not_lt_zero _)]
      rfl
  | succ height ih =>
      rw [alignCurrent, Resonance.alignCurrent]
      split
      · split
        · rfl
        · simp only [lowered_succ, ih, fallible_bind]
      · rfl

theorem alignCompeting_eq (t : HeaderTree H) (currentHeight competingHeight : ℕ)
    (competingHash : H) (reorgDepth : ℕ) :
    alignCompeting t currentHeight competingHeight competingHash reorgDepth =
      fallible (Resonance.alignCompeting t currentHeight competingHeight competingHash
        reorgDepth) := by
  induction competingHeight generalizing competingHash reorgDepth with
  | zero =>
      rw [alignCompeting, if_neg (Nat.not_lt_zero _)]
      rfl
  | succ height ih =>
      rw [alignCompeting, Resonance.alignCompeting]
      split
      · simp only [lowered_succ, ih, fallible_bind]
      · rfl

theorem findForkPoint_eq (t : HeaderTree H) (currentHeight : ℕ)
    (currentBestHash competingHash : H) (reorgDepth : ℕ) :
    findForkPoint t currentHeight currentBestHash competingHash reorgDepth =
      fallible (Resonance.findForkPoint t currentHeight currentBestHash competingHash
        reorgDepth) := by
  induction currentHeight generalizing currentBestHash competingHash reorgDepth with
  | zero =>
      rw [findForkPoint, Resonance.findForkPoint]
      split
      · rfl
      · rfl
  | succ height ih =>
      rw [findForkPoint, Resonance.findForkPoint, if_neg (Nat.succ_ne_zero height)]
      split
      · rfl
      · simp only [lowered_succ, ih, fallible_bind]

/-- On every tree the search is the one that cannot lower a height at zero. -/
theorem findCommonAncestorAndDepth_eq (t : HeaderTree H) (currentBest competing : Header H) :
    findCommonAncestorAndDepth t currentBest competing =
      fallible (Resonance.findCommonAncestorAndDepth t currentBest competing) := by
  rw [findCommonAncestorAndDepth, Resonance.findCommonAncestorAndDepth]
  split
  · rfl
  · simp only [alignCurrent_eq, fallible_bind]
    refine bind_congr fun aligned => ?_
    rcases aligned with early | ⟨currentHeight, currentBestHash, depth⟩
    · rfl
    · simp only [alignCompeting_eq, findForkPoint_eq, fallible_bind]

end CheckedHeights

variable [DecidableEq H] [Inhabited H] [HeaderHash H]

/-- Two stored headers have one highest common ancestor, and the search ends
there without an error and without lowering a height at zero. -/
theorem findCommonAncestor_highest {t : HeaderTree H} {currentBest competing : Header H}
    (hx : t.header currentBest.hash = some currentBest)
    (hy : t.header competing.hash = some competing) :
    ∃ c, CheckedHeights.findCommonAncestorAndDepth t currentBest competing =
        .ok (c, max currentBest.number competing.number - t.number c) ∧
      t.links.Ancestor c currentBest.hash ∧ t.links.Ancestor c competing.hash ∧
      ∀ other, t.links.Ancestor other currentBest.hash → t.links.Ancestor other competing.hash →
        other = c ∨ t.number other < t.number c := by
  obtain ⟨c, hc⟩ := t.exists_meet hx hy
  refine ⟨c, ?_, hc.left, hc.right, ?_⟩
  · rw [CheckedHeights.findCommonAncestorAndDepth_eq, findCommonAncestorAndDepth_spec hx hy hc]
    rfl
  · intro other left right
    rcases Nat.lt_or_ge (t.number other) (t.number c) with lower | level
    · exact .inr lower
    · exact .inl ((hc.above left right).eq_of_number_le level)

open Sample in
/-- A fork at genesis, one branch two blocks longer than the other. -/
theorem findCommonAncestor_highest_fork :
    ∃ c, CheckedHeights.findCommonAncestorAndDepth
        (tree [block 1 2 1, block 1 3 1, block 3 4 2, block 4 5 3]) (block 1 2 1) (block 4 5 3) =
      .ok (c, 3 - (tree [block 1 2 1, block 1 3 1, block 3 4 2, block 4 5 3]).number c) := by
  have best : (tree [block 1 2 1, block 1 3 1, block 3 4 2, block 4 5 3]).header
      (block 1 2 1).hash = some (block 1 2 1) := by decide
  have competing : (tree [block 1 2 1, block 1 3 1, block 3 4 2, block 4 5 3]).header
      (block 4 5 3).hash = some (block 4 5 3) := by decide
  exact (findCommonAncestor_highest best competing).imp fun c h => h.1

end Resonance
