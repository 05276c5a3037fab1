import Resonance.Client.BestChain

/-!
What the reported depth measures.

A reorganisation from the current best to a competing header reverts the blocks
of the current chain above the fork point. The reported depth is that count
only while the competing header is not the higher one: the second walk of the
search adds the new blocks as well. A branch that reverts few blocks but brings
many is therefore refused, and its head put on the ignore list.
-/
namespace Resonance
open ParentTree Storage
variable {H : Type} [DecidableEq H] [Inhabited H] [HeaderHash H]

theorem HeaderTree.findCommonAncestorAndDepth_reverted_iff {t : HeaderTree H} {b x : Header H}
    {f : H} (hb : t.header b.hash = some b) (hx : t.header x.hash = some x)
    (hf : t.links.Meet f b.hash x.hash) :
    findCommonAncestorAndDepth t b x = .ok (f, b.number - t.number f) ↔ x.number ≤ b.number := by
  have below_best : t.number f ≤ t.number b.hash := hf.left.number_le
  have below_competing : t.number f ≤ t.number x.hash := hf.right.number_le
  rw [number_eq hb] at below_best
  rw [number_eq hx] at below_competing
  rw [findCommonAncestorAndDepth_spec hb hx hf, Except.ok.injEq, Prod.mk.injEq,
    eq_self_iff_true, true_and]
  omega

/-- The depth is the number of reverted blocks exactly when the competing
header is not higher than the current best; a branch reverting at most `m`
blocks is kept and weighed exactly when it brings at most `m` blocks. -/
theorem bestChain_keeps_reverting_iff {c : Client H} {b x : Header H} {f : H} {m : ℕ}
    (aux : AuxStore H) (hb : c.tree.header c.bestHash = some b)
    (hm : ∀ h, c.getMaxReorgDepth h = m) (hx : c.tree.header x.hash = some x)
    (hf : c.tree.links.Meet f c.bestHash x.hash) :
    (findCommonAncestorAndDepth c.tree b x = .ok (f, b.number - c.tree.number f) ↔
      x.number ≤ b.number) ∧
    (x.hash ∈ c.leaves → x.hash ∉ aux.ignoredChains → b.number - c.tree.number f ≤ m →
      ∃ z aux', exec (bestChain c) aux = (.ok z, aux') ∧
        (x.hash ∉ aux'.ignoredChains ∧
          toLex (calculateChainWork c x, x.number) ≤ toLex (calculateChainWork c z, z.number) ↔
            x.number ≤ c.tree.number f + m) ∧
        (z = x → x.number ≤ c.tree.number f + m)) := by
  have hbh := HeaderTree.stored_hash hb
  rw [← hbh] at hb hf
  refine ⟨HeaderTree.findCommonAncestorAndDepth_reverted_iff hb hx hf, ?_⟩
  intro listed fresh reverts
  have depth := HeaderTree.reorgDepth_of_meet hb hx hf
  rw [HeaderTree.number_eq hx] at depth
  have within : c.tree.reorgDepth b x.hash ≤ m ↔ x.number ≤ c.tree.number f + m := by omega
  rw [hbh] at hb
  obtain ⟨z, hz, run⟩ := bestChain_spec aux hb hm
  have kept : x.hash ∉ (aux.ignoreAllDeep c b m c.leaves).ignoredChains ↔
      c.tree.reorgDepth b x.hash ≤ m := by
    simp [AuxStore.mem_ignoreAllDeep, fresh, listed]
  refine ⟨z, _, run, ?_, ?_⟩
  · rw [kept, within]
    refine and_iff_left_of_imp fun brings => ?_
    rw [← Client.workAndHeight_eq hx, ← Client.workAndHeight_eq hz]
    exact FirstMaximum.mem_le_foldl_better _ _ _ _ listed ⟨fresh, within.mpr brings⟩
  · intro same
    have near := Client.reorgDepth_selected_le (m := m) aux.ignoredChains hb
    rw [← HeaderTree.stored_hash hz, same] at near
    exact within.mp near

open Sample

/-- One block behind the fork, eleven new blocks on the other side. -/
def Sample.fellBehind : Client ℕ :=
  client (tree [block 1 2 1, block 1 3 1, block 3 4 2, block 4 5 3, block 5 6 4, block 6 7 5,
    block 7 8 6, block 8 9 7, block 9 10 8, block 10 11 9, block 11 12 10, block 12 13 11]) 2 id 10

theorem bestChain_keeps_reverting_fellBehind :
    ∃ z aux', exec (bestChain fellBehind) ⟨∅, ∅⟩ = (.ok z, aux') ∧
      (z = block 12 13 11 → 11 ≤ fellBehind.tree.number 1 + 10) := by
  have found : findCommonAncestorAndDepth fellBehind.tree (block 1 2 1) (block 12 13 11) =
      .ok (1, 11) := by decide
  have meet := HeaderTree.meet_of_found (by decide) (by decide) found
  obtain ⟨z, aux', run, -, refused⟩ := (bestChain_keeps_reverting_iff (c := fellBehind)
    (b := block 1 2 1) (x := block 12 13 11) (m := 10) ⟨∅, ∅⟩ (by decide) (fun _ => rfl)
    (by decide) meet).2 (by decide) (by decide) (by decide)
  exact ⟨z, aux', run, refused⟩

/-- One block would be reverted, the reported depth is eleven, and the heavier
branch is refused and ignored. -/
theorem reorgDepth_counts_new_blocks :
    fellBehind.tree.links.Meet 1 2 13 ∧ fellBehind.tree.number 2 - fellBehind.tree.number 1 = 1 ∧
    findCommonAncestorAndDepth fellBehind.tree (block 1 2 1) (block 12 13 11) = .ok (1, 11) ∧
    fellBehind.getTotalWork 2 < fellBehind.getTotalWork 13 ∧
    ∃ z aux', exec (bestChain fellBehind) ⟨∅, ∅⟩ = (.ok z, aux') ∧ z ≠ block 12 13 11 ∧
      13 ∈ aux'.ignoredChains := by
  have found : findCommonAncestorAndDepth fellBehind.tree (block 1 2 1) (block 12 13 11) =
      .ok (1, 11) := by decide
  have refused := bestChain_refuses (c := fellBehind) (m := 10) ⟨∅, ∅⟩ (by decide)
    (fun _ => rfl) (by decide) (by decide) found (by decide)
  exact ⟨HeaderTree.meet_of_found (by decide) (by decide) found, by decide, found, by decide,
    refused⟩

end Resonance
