import Resonance.Client.BestChain

/-!
`finalize_canonical_at_depth` beside `best_chain`.

The finalised block lies `max_reorg_depth - 1` blocks behind the current best,
while a reorganisation may go `max_reorg_depth` deep. A leaf that forks off one
block below the finalised one is therefore still a candidate. The theorem says
for which trees and works this makes the fork choice contradict finality.

Finalising itself is the client's and comes in as a function.
-/
namespace Resonance
open ParentTree Storage
variable {H : Type} [DecidableEq H] [Inhabited H] [HeaderHash H]

/-- The ancestor a number of steps down. -/
def HeaderTree.hashBelow (t : HeaderTree H) : ℕ → H → Option H
  | 0, h => some h
  | steps + 1, h => (t.parent h).bind (t.hashBelow steps)

/-- `client.hash(number)`: the canonical hash, on the chain of the best block. -/
def Client.hash (c : Client H) (number : ℕ) : Option H := do
  let best ← c.tree.header c.bestHash
  if number ≤ best.number then c.tree.hashBelow (best.number - number) c.bestHash else none

def finalizeCanonicalAtDepth {σ : Type} (c : Client H)
    (finalizeBlock : H → Storage (ConsensusError H) σ PUnit) :
    Storage (ConsensusError H) σ PUnit :=
  if c.bestHash = default then pure ⟨⟩
  else do
    let bestHeader ← okOr (c.tree.header c.bestHash) .missingCurrentBestHeader
    let bestNumber := bestHeader.number
    -- `saturating_sub`
    let finalizeDepth := c.getMaxReorgDepth c.bestHash - 1
    if bestNumber ≤ finalizeDepth then pure ⟨⟩
    else do
      let finalizeNumber := bestNumber - finalizeDepth
      let finalizeHash ← okOr (c.hash finalizeNumber) (.noBlockFoundAt finalizeNumber)
      mapError (fun _ => .failedToFinalizeBlock finalizeNumber) (finalizeBlock finalizeHash)

theorem HeaderTree.ancestor_of_hashBelow {t : HeaderTree H} {steps : ℕ} {h a : H}
    (found : t.hashBelow steps h = some a) :
    t.links.Ancestor a h ∧ t.number a + steps = t.number h := by
  induction steps generalizing h with
  | zero =>
      cases found
      exact ⟨.refl, rfl⟩
  | succ steps ih =>
      obtain ⟨p, hp, below⟩ := Option.bind_eq_some_iff.mp found
      obtain ⟨ancestor, number⟩ := ih below
      have next : t.number h = t.number p + 1 := t.links.number_parent hp
      exact ⟨.child hp ancestor, by omega⟩

/-- The block handed to the client: on the best chain, `m - 1` blocks behind. -/
theorem finalizeCanonicalAtDepth_block {c : Client H} {b : Header H} {m : ℕ} {F : H}
    (hb : c.tree.header c.bestHash = some b) (hm : c.getMaxReorgDepth c.bestHash = m)
    (finalized : exec (finalizeCanonicalAtDepth c fun hash => set (some hash)) none =
      (.ok ⟨⟩, some F)) :
    c.tree.links.Ancestor F c.bestHash ∧ c.tree.number F + (m - 1) = b.number := by
  unfold finalizeCanonicalAtDepth at finalized
  split at finalized
  · simp at finalized
  rw [bind_ok_iff] at finalized
  obtain ⟨b', s₁, found, finalized⟩ := finalized
  obtain ⟨hb', rfl⟩ := okOr_ok_iff.mp found
  cases hb.symm.trans hb'
  dsimp only at finalized
  split at finalized
  · simp at finalized
  rw [bind_ok_iff] at finalized
  obtain ⟨hash, s₂, lookup, finalized⟩ := finalized
  obtain ⟨canonical, rfl⟩ := okOr_ok_iff.mp lookup
  rw [mapError_ok_iff, exec_set, Prod.mk.injEq, Option.some.injEq] at finalized
  obtain ⟨-, rfl⟩ := finalized
  rename_i long
  have at_number : c.tree.hashBelow (b.number - (b.number - (m - 1))) c.bestHash = some hash := by
    simpa [Client.hash, hb, hm] using canonical
  obtain ⟨ancestor, number⟩ := HeaderTree.ancestor_of_hashBelow at_number
  rw [HeaderTree.number_eq hb] at number
  rw [hm] at long
  exact ⟨ancestor, by omega⟩

/-- A leaf that may still be chosen and forks off below the block finalised
for the current best: its fork point is exactly `m` blocks behind, and it is
not higher than the current best. -/
def Client.ForksBelowFinalized (c : Client H) (aux : AuxStore H) (b : Header H) (m : ℕ) (h : H) :
    Prop :=
  h ∈ c.leaves ∧ h ∉ aux.ignoredChains ∧ c.tree.number h ≤ b.number ∧
    ∃ f, c.tree.links.Meet f c.bestHash h ∧ c.tree.number f + m = b.number

/-- A leaf above `F` that may be chosen and goes before `h`: a larger (work,
height), or the same and listed earlier. -/
def Client.BeatenAbove (c : Client H) (aux : AuxStore H) (b : Header H) (m : ℕ) (F h : H) : Prop :=
  ∃ g ∈ c.leaves, g ∉ aux.ignoredChains ∧ c.tree.links.Ancestor F g ∧
    (∃ f, c.tree.links.Meet f c.bestHash g ∧
      max b.number (c.tree.number g) ≤ c.tree.number f + m) ∧
    (c.workAndHeight h < c.workAndHeight g ∨
      (c.workAndHeight h = c.workAndHeight g ∧ c.leaves.idxOf g < c.leaves.idxOf h))

section
variable {c : Client H} {aux : AuxStore H} {b : Header H} {m : ℕ} {F h : H}

theorem Client.admits_iff (hb : c.tree.header c.bestHash = some b) (listed : h ∈ c.leaves) :
    c.Admits aux.ignoredChains b m h ↔ h ∉ aux.ignoredChains ∧
      ∃ f, c.tree.links.Meet f c.bestHash h ∧
        max b.number (c.tree.number h) ≤ c.tree.number f + m := by
  obtain ⟨⟨x, hx⟩, -⟩ := (c.mem_leaves h).mp listed
  obtain ⟨f, hf⟩ := c.tree.exists_meet hb hx
  have hbh := HeaderTree.stored_hash hb
  have depth := HeaderTree.reorgDepth_of_meet (b := b) (by rwa [hbh]) hx (by rwa [hbh])
  simp only [Client.Admits]
  rw [depth]
  constructor
  · rintro ⟨fresh, near⟩
    exact ⟨fresh, f, hf, by omega⟩
  · rintro ⟨fresh, f', hf', near⟩
    cases hf.unique hf'
    exact ⟨fresh, by omega⟩

/-- Among the leaves that may be chosen, those not above the finalised block
are those forking off right below it. -/
theorem Client.forksBelowFinalized_iff (hb : c.tree.header c.bestHash = some b)
    (ancestor : c.tree.links.Ancestor F c.bestHash)
    (number : c.tree.number F + (m - 1) = b.number) (listed : h ∈ c.leaves)
    (hkey : c.workAndHeight c.bestHash < c.workAndHeight h) :
    c.ForksBelowFinalized aux b m h ↔
      c.Admits aux.ignoredChains b m h ∧ ¬ c.tree.links.Ancestor F h := by
  obtain ⟨⟨x, hx⟩, -⟩ := (c.mem_leaves h).mp listed
  obtain ⟨f, hf⟩ := c.tree.exists_meet hb hx
  have hbn := HeaderTree.number_eq hb
  have above : c.tree.links.Ancestor F h ↔ c.tree.number F ≤ c.tree.number f := by
    constructor
    · intro hF
      exact hf.highest F ancestor hF
    · intro le
      exact (ancestor.comparable hf.left le).trans hf.right
  have below : c.tree.number f ≤ c.tree.number c.bestHash := hf.left.number_le
  have apart : c.tree.number f = c.tree.number c.bestHash →
      c.tree.number h ≤ c.tree.number c.bestHash → False := by
    intro heq hle
    have hfb : f = c.bestHash := hf.left.eq_of_number_le heq.ge
    subst hfb
    have same : c.bestHash = h := hf.right.eq_of_number_le hle
    rw [same] at hkey
    exact lt_irrefl _ hkey
  rw [Client.admits_iff hb listed, above]
  constructor
  · intro ⟨_, fresh, low, f', hf', exact_depth⟩
    cases hf.unique hf'
    refine ⟨⟨fresh, f, hf, by omega⟩, ?_⟩
    intro le
    exact apart (by omega) (by omega)
  · intro ⟨⟨fresh, f', hf', near⟩, not_above⟩
    cases hf.unique hf'
    exact ⟨listed, fresh, by omega, f, hf, by omega⟩

/-- A chosen leaf above the finalised block beats all that fork off below it. -/
theorem Client.beatenAbove_of_selected (hb : c.tree.header c.bestHash = some b)
    (ancestor : c.tree.links.Ancestor F c.bestHash)
    (number : c.tree.number F + (m - 1) = b.number)
    (above : c.tree.links.Ancestor F (c.selected aux.ignoredChains b m))
    (forks : c.ForksBelowFinalized aux b m h)
    (heavier : c.workAndHeight c.bestHash < c.workAndHeight h) : c.BeatenAbove aux b m F h := by
  have forks' := (Client.forksBelowFinalized_iff hb ancestor number forks.1 heavier).mp forks
  have le := FirstMaximum.mem_le_foldl_better c.workAndHeight
    (c.Admits aux.ignoredChains b m) c.leaves c.bestHash forks.1 forks'.1
  cases FirstMaximum.foldl_better_mem c.workAndHeight (c.Admits aux.ignoredChains b m)
      c.leaves c.bestHash with
  | inl start =>
      rw [start] at le
      exact absurd le (not_le.mpr heavier)
  | inr leaf =>
      refine ⟨_, leaf.1, ?_⟩
      have admitted := (Client.admits_iff hb leaf.1).mp leaf.2
      refine ⟨admitted.1, above, admitted.2, ?_⟩
      cases lt_or_eq_of_le le with
      | inl lt => exact .inl lt
      | inr eq =>
          have first := FirstMaximum.foldl_better_first c.workAndHeight
            (c.Admits aux.ignoredChains b m) c.leaves c.bestHash forks.1 forks'.1 heavier eq
          refine .inr ⟨eq, lt_of_le_of_ne first ?_⟩
          intro same
          have : c.selected aux.ignoredChains b m = h := (List.idxOf_inj leaf.1).mp same
          rw [this] at above
          exact forks'.2 above

/-- Conversely, when all of these are beaten, the chosen block is above it. -/
theorem Client.ancestor_selected_of_beatenAbove (hb : c.tree.header c.bestHash = some b)
    (ancestor : c.tree.links.Ancestor F c.bestHash)
    (number : c.tree.number F + (m - 1) = b.number)
    (beaten : ∀ h, c.ForksBelowFinalized aux b m h →
      c.workAndHeight c.bestHash < c.workAndHeight h → c.BeatenAbove aux b m F h) :
    c.tree.links.Ancestor F (c.selected aux.ignoredChains b m) := by
  by_contra not_above
  cases FirstMaximum.foldl_better c.workAndHeight (c.Admits aux.ignoredChains b m) c.leaves
    c.bestHash with
  | inl start =>
      rw [Client.selected, start.1] at not_above
      exact not_above ancestor
  | inr winner =>
      obtain ⟨_, _, hl, admitted, heavier, -⟩ := winner
      have listed : c.selected aux.ignoredChains b m ∈ c.leaves := by
        rw [hl]
        exact List.mem_append_cons_self
      have forks := (Client.forksBelowFinalized_iff hb ancestor number listed heavier).mpr
        ⟨admitted, not_above⟩
      obtain ⟨g, hg, fresh, -, near, before⟩ := beaten _ forks heavier
      have hga : c.Admits aux.ignoredChains b m g := (Client.admits_iff hb hg).mpr ⟨fresh, near⟩
      cases before with
      | inl lt =>
          exact absurd lt (not_lt.mpr (FirstMaximum.mem_le_foldl_better _ _ _ _ hg hga))
      | inr tie =>
          have first := FirstMaximum.foldl_better_first c.workAndHeight
            (c.Admits aux.ignoredChains b m) c.leaves c.bestHash hg hga
            (heavier.trans_eq tie.1) tie.1.symm
          exact absurd tie.2 (not_lt.mpr first)

end

/-- After finalisation the fork choice stays above the finalised block exactly
when every heavier leaf forking off right below it is beaten from above. -/
theorem bestChain_descends_from_finalized_iff {c : Client H} {b : Header H} {m : ℕ} {F : H}
    (aux : AuxStore H) (hb : c.tree.header c.bestHash = some b)
    (hm : ∀ h, c.getMaxReorgDepth h = m)
    (finalized : exec (finalizeCanonicalAtDepth c fun hash => set (some hash)) none =
      (.ok ⟨⟩, some F)) :
    ∃ x aux', exec (bestChain c) aux = (.ok x, aux') ∧
      (c.tree.links.Ancestor F x.hash ↔ ∀ h, c.ForksBelowFinalized aux b m h →
        c.workAndHeight c.bestHash < c.workAndHeight h → c.BeatenAbove aux b m F h) := by
  obtain ⟨ancestor, number⟩ := finalizeCanonicalAtDepth_block hb (hm _) finalized
  obtain ⟨x, hx, run⟩ := bestChain_spec aux hb hm
  refine ⟨x, _, run, ?_⟩
  rw [HeaderTree.stored_hash hx]
  constructor
  · intro above h forks heavier
    exact Client.beatenAbove_of_selected hb ancestor number above forks heavier
  · intro beaten
    exact Client.ancestor_selected_of_beatenAbove hb ancestor number beaten

open Sample

def Sample.rightBelowFinalized : Client ℕ :=
  client (tree [block 1 2 1, block 2 3 2, block 3 4 3, block 4 5 4, block 5 6 5, block 6 7 6,
    block 7 8 7, block 8 9 8, block 9 10 9, block 10 11 10, block 1 12 1]) 11 id 10

theorem bestChain_descends_from_finalized_rightBelowFinalized :
    ∃ x aux', exec (bestChain rightBelowFinalized) ⟨{12}, ∅⟩ = (.ok x, aux') ∧
      (rightBelowFinalized.tree.links.Ancestor 2 x.hash ↔
        ∀ h, rightBelowFinalized.ForksBelowFinalized ⟨{12}, ∅⟩ (block 10 11 10) 10 h →
          rightBelowFinalized.workAndHeight rightBelowFinalized.bestHash <
            rightBelowFinalized.workAndHeight h →
          rightBelowFinalized.BeatenAbove ⟨{12}, ∅⟩ (block 10 11 10) 10 2 h) :=
  bestChain_descends_from_finalized_iff ⟨{12}, ∅⟩ (by decide) (fun _ => rfl) (by rfl)

/-- Block 2 is finalised; the chain selected next does not contain it. -/
theorem bestChain_below_finalized :
    exec (finalizeCanonicalAtDepth rightBelowFinalized fun hash => set (some hash)) none =
      (.ok ⟨⟩, some 2) ∧
    (exec (bestChain rightBelowFinalized) ⟨∅, ∅⟩).1 = .ok (block 1 12 1) ∧
    ¬ rightBelowFinalized.tree.links.Ancestor 2 12 := by
  refine ⟨rfl, by decide, ?_⟩
  intro ancestor
  have parent : rightBelowFinalized.tree.links.parent 12 = some 1 := by decide
  have := (ancestor.of_ne (by decide) parent).number_le
  exact absurd this (by decide)

end Resonance
