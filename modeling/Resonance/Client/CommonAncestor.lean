import Resonance.Client.HeaderTree

/-!
`HeaviestChain::find_common_ancestor_and_depth`: the three walks and what they
compute.

The height each loop counts down is its recursion argument, so a height is
never taken below zero and all three loops end. The specification is proved
for every tree and both headers stored; the depth it gives counts the steps of
all three walks, the second one included.
-/
namespace Resonance
open ParentTree
variable {H : Type}

/-- The `sp_consensus::Error::Other` texts of the fork choice, in the words of the
constructors: "Blockchain has no leaves" up to "No block found at #{number}" and
"Failed to finalize block #{number}: {cause}". -/
inductive ConsensusError (H : Type)
  | blockchainHasNoLeaves
  | missingCurrentBestHeader
  | missingHeaderFor (hash : H)
  | missingHeader
  | noCommonAncestorFound
  | noValidChainFound
  | noBlockFoundAt (number : ℕ)
  | failedToFinalizeBlock (number : ℕ)
deriving DecidableEq

variable [DecidableEq H] [Inhabited H] [HeaderHash H]

def parentHashOf (t : HeaderTree H) (h : H) : Except (ConsensusError H) H :=
  match t.header h with
  | some x => .ok x.parentHash
  | none => .error .missingHeader

/-- Phase 1, `while current_height > competing_height`. The left result is the
early return on equal hashes, the right one the position and depth the loop
leaves behind. -/
def alignCurrent (t : HeaderTree H) (competingHeight : ℕ) (competingHash : H) :
    (currentHeight : ℕ) → (currentBestHash : H) → (reorgDepth : ℕ) →
      Except (ConsensusError H) (H × ℕ ⊕ ℕ × H × ℕ)
  | 0, currentBestHash, reorgDepth => .ok (.inr (0, currentBestHash, reorgDepth))
  | height + 1, currentBestHash, reorgDepth =>
      if height + 1 > competingHeight then
        if currentBestHash = competingHash then .ok (.inl (currentBestHash, reorgDepth))
        else do
          let parent ← parentHashOf t currentBestHash
          alignCurrent t competingHeight competingHash height parent (reorgDepth + 1)
      else .ok (.inr (height + 1, currentBestHash, reorgDepth))

/-- Phase 2, `while competing_height > current_height`. -/
def alignCompeting (t : HeaderTree H) (currentHeight : ℕ) :
    (competingHeight : ℕ) → (competingHash : H) → (reorgDepth : ℕ) →
      Except (ConsensusError H) (H × ℕ)
  | 0, competingHash, reorgDepth => .ok (competingHash, reorgDepth)
  | height + 1, competingHash, reorgDepth =>
      if height + 1 > currentHeight then do
        let parent ← parentHashOf t competingHash
        alignCompeting t currentHeight height parent (reorgDepth + 1)
      else .ok (competingHash, reorgDepth)

/-- Phase 3, `while current_best_hash != competing_hash`. -/
def findForkPoint (t : HeaderTree H) :
    (currentHeight : ℕ) → (currentBestHash competingHash : H) → (reorgDepth : ℕ) →
      Except (ConsensusError H) (H × ℕ)
  | 0, currentBestHash, competingHash, reorgDepth =>
      if currentBestHash = competingHash then .ok (currentBestHash, reorgDepth)
      else .error .noCommonAncestorFound
  | height + 1, currentBestHash, competingHash, reorgDepth =>
      if currentBestHash = competingHash then .ok (currentBestHash, reorgDepth)
      else do
        let current ← parentHashOf t currentBestHash
        let competing ← parentHashOf t competingHash
        findForkPoint t height current competing (reorgDepth + 1)

def findCommonAncestorAndDepth (t : HeaderTree H) (currentBest competingHeader : Header H) :
    Except (ConsensusError H) (H × ℕ) :=
  if currentBest.hash = competingHeader.hash then .ok (currentBest.hash, 0)
  else do
    match ← alignCurrent t competingHeader.number competingHeader.hash
        currentBest.number currentBest.hash 0 with
    | .inl early => .ok early
    | .inr (currentHeight, currentBestHash, reorgDepth) =>
        let (competingHash, reorgDepth) ←
          alignCompeting t currentHeight competingHeader.number competingHeader.hash reorgDepth
        findForkPoint t currentHeight currentBestHash competingHash reorgDepth

namespace HeaderTree
variable {t : HeaderTree H} {c h k : H}

theorem parentHashOf_eq {p : H} (hp : t.parent h = some p) : parentHashOf t h = .ok p := by
  obtain ⟨-, x, -, hx, rfl, -⟩ := parent_inv hp
  simp [parentHashOf, hx]

theorem parent_of_ne_root {x y : Header H} (hx : t.header h = some x) (hy : t.header k = some y)
    (hn : t.number k ≤ t.number h) (hne : h ≠ k) :
    ∃ p q, t.parent h = some p ∧ t.header p = some q ∧ t.number h = t.number p + 1 := by
  have hr : h ≠ t.root := by
    rintro rfl
    exact hne ((t.root_ancestor hy).eq_of_number_le hn)
  have hp := parent_eq hx hr
  obtain ⟨-, -, q, -, -, hq, -⟩ := parent_inv hp
  exact ⟨_, q, hp, hq, t.links.number_parent hp⟩

theorem alignCurrent_spec {x y : Header H} (hx : t.header h = some x) (hy : t.header k = some y)
    (d : ℕ) (hc : t.links.Meet c h k) :
    ∃ h' x', alignCurrent t (t.number k) k (t.number h) h d =
        .ok (.inr (min (t.number h) (t.number k), h', d + (t.number h - t.number k))) ∧
      t.header h' = some x' ∧ t.links.Meet c h' k ∧
      t.number h' = min (t.number h) (t.number k) := by
  induction hn : t.number h generalizing h x d with
  | zero => exact ⟨h, x, by simp [alignCurrent], hx, hc, by omega⟩
  | succ n ih =>
      by_cases hk : n + 1 > t.number k
      · have hne : h ≠ k := by
          rintro rfl
          omega
        obtain ⟨p, q, hp, hq, hpn⟩ := parent_of_ne_root hx hy (by omega) hne
        have apart : ¬ t.links.Ancestor h k := by
          intro ha
          have : t.number h ≤ t.number k := ha.number_le
          omega
        have above : t.links.Meet c p k := by
          obtain ⟨c', hc'⟩ := t.exists_meet hq hy
          rwa [hc.unique (hc'.child_left hp apart)]
        obtain ⟨h', x', hrun, hx', hm, hnum⟩ := ih hq (d + 1) above (by omega)
        refine ⟨h', x', ?_, hx', hm, by omega⟩
        simp only [alignCurrent, hk, hne, if_true, if_false, parentHashOf_eq hp]
        refine hrun.trans ?_
        rw [Nat.min_eq_right (by omega), Nat.min_eq_right (by omega)]
        congr 4
        omega
      · refine ⟨h, x, ?_, hx, hc, by omega⟩
        simp only [alignCurrent, hk, if_false]
        rw [Nat.min_eq_left (by omega)]
        congr 4
        omega

theorem alignCompeting_spec {x y : Header H} (hx : t.header h = some x) (hy : t.header k = some y)
    (d : ℕ) (hc : t.links.Meet c h k) :
    ∃ k' y', alignCompeting t (t.number h) (t.number k) k d =
        .ok (k', d + (t.number k - t.number h)) ∧
      t.header k' = some y' ∧ t.links.Meet c h k' ∧
      t.number k' = min (t.number h) (t.number k) := by
  induction hn : t.number k generalizing k y d with
  | zero => exact ⟨k, y, by simp [alignCompeting], hy, hc, by omega⟩
  | succ n ih =>
      by_cases hk : n + 1 > t.number h
      · have hne : k ≠ h := by
          rintro rfl
          omega
        obtain ⟨p, q, hp, hq, hpn⟩ := parent_of_ne_root hy hx (by omega) hne
        have apart : ¬ t.links.Ancestor k h := by
          intro ha
          have : t.number k ≤ t.number h := ha.number_le
          omega
        have above : t.links.Meet c h p := by
          obtain ⟨c', hc'⟩ := t.exists_meet hx hq
          rwa [hc.unique (hc'.child_right hp apart)]
        obtain ⟨k', y', hrun, hy', hm, hnum⟩ := ih hq (d + 1) above (by omega)
        refine ⟨k', y', ?_, hy', hm, by omega⟩
        simp only [alignCompeting, hk, if_true, parentHashOf_eq hp]
        refine hrun.trans ?_
        congr 2
        omega
      · refine ⟨k, y, ?_, hy, hc, by omega⟩
        simp only [alignCompeting, hk, if_false]
        congr 2
        omega

theorem findForkPoint_spec {x y : Header H} (hx : t.header h = some x) (hy : t.header k = some y)
    (d : ℕ) (hc : t.links.Meet c h k) (heq : t.number h = t.number k) :
    findForkPoint t (t.number h) h k d = .ok (c, d + (t.number h - t.number c)) := by
  induction hn : t.number h generalizing h k x y d with
  | zero =>
      have same : h = k := by
        by_contra hne
        obtain ⟨p, q, -, -, hpn⟩ := parent_of_ne_root hx hy heq.ge hne
        omega
      subst same
      have hch := hc.unique (.of_ancestor .refl)
      subst hch
      simp [findForkPoint]
  | succ n ih =>
      by_cases hne : h = k
      · subst hne
        have hch := hc.unique (.of_ancestor .refl)
        subst hch
        simp [findForkPoint, hn]
      · obtain ⟨p, q, hp, hq, hpn⟩ := parent_of_ne_root hx hy heq.ge hne
        obtain ⟨p', q', hp', hq', hpn'⟩ := parent_of_ne_root hy hx heq.le (Ne.symm hne)
        have above : t.links.Meet c p p' := by
          obtain ⟨c', hc'⟩ := t.exists_meet hq hq'
          rwa [hc.unique (hc'.child_both hp hp' heq hne)]
        have hcp : t.number c ≤ t.number p := above.left.number_le
        simp only [findForkPoint, hne, if_false, parentHashOf_eq hp, parentHashOf_eq hp']
        refine (ih hq hq' (d + 1) above (by omega) (by omega)).trans ?_
        congr 2
        omega

end HeaderTree

/-- For stored headers the search ends without an error, at the highest common
ancestor. The depth it reports is the height of the higher header above it. -/
theorem findCommonAncestorAndDepth_spec {t : HeaderTree H} {currentBest competing : Header H}
    {c : H} (hx : t.header currentBest.hash = some currentBest)
    (hy : t.header competing.hash = some competing)
    (hc : t.links.Meet c currentBest.hash competing.hash) :
    findCommonAncestorAndDepth t currentBest competing =
      .ok (c, max currentBest.number competing.number - t.number c) := by
  have hnx := HeaderTree.number_eq hx
  have hny := HeaderTree.number_eq hy
  by_cases same : currentBest.hash = competing.hash
  · have equal : currentBest = competing := by
      rw [same, hy] at hx
      exact (Option.some.inj hx).symm
    subst equal
    have hch := hc.unique (.of_ancestor .refl)
    subst hch
    simp [findCommonAncestorAndDepth, hnx]
  · obtain ⟨h', x', hrun₁, hx', hm₁, hn₁⟩ := HeaderTree.alignCurrent_spec hx hy 0 hc
    obtain ⟨k', y', hrun₂, hy', hm₂, hn₂⟩ :=
      HeaderTree.alignCompeting_spec hx' hy
        (0 + (t.number currentBest.hash - t.number competing.hash)) hm₁
    have level : t.number h' = t.number k' := by omega
    have low : t.number c ≤ t.number h' := hm₁.left.number_le
    have hrun₃ := HeaderTree.findForkPoint_spec hx' hy'
      (0 + (t.number currentBest.hash - t.number competing.hash) +
        (t.number competing.hash - t.number h')) hm₂ level
    rw [hn₁] at hrun₂ hrun₃ low
    rw [hnx, hny] at hrun₁ hrun₂ hrun₃ low
    simp only [findCommonAncestorAndDepth, same, if_false]
    rw [hrun₁]
    simp only [bind, Except.bind]
    rw [hrun₂]
    refine hrun₃.trans ?_
    congr 2
    omega

theorem HeaderTree.meet_of_found {t : HeaderTree H} {currentBest competing : Header H} {f : H}
    {d : ℕ} (hx : t.header currentBest.hash = some currentBest)
    (hy : t.header competing.hash = some competing)
    (found : findCommonAncestorAndDepth t currentBest competing = .ok (f, d)) :
    t.links.Meet f currentBest.hash competing.hash := by
  obtain ⟨c, hc⟩ := t.exists_meet hx hy
  rw [findCommonAncestorAndDepth_spec hx hy hc] at found
  cases found
  exact hc

end Resonance
