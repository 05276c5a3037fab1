import Resonance.Client.PowImport

/-!
The two fork choices of a node, on one new block.

`import_block` marks the block best from the total difficulties in the
auxiliary store; `best_chain`, run afterwards on the tree with the block in it,
decides from the runtime's total work, the height and the depth limit. They
agree on every lighter block, on a heavier one within the limit, and on one of
the same total work that is no higher or beyond the limit. The import looks at
neither the limit nor the height, so they disagree on all others.
-/
namespace Resonance
open ParentTree Storage
variable {H : Type} [DecidableEq H] [Inhabited H] [HeaderHash H]

def Client.addBlock (c : Client H) (n : c.tree.Child) (l : List H)
    (hl : ∀ h, h ∈ l ↔ (c.tree.extend n).IsLeaf h) : Client H :=
  { c with tree := c.tree.extend n, leaves := l, mem_leaves := hl }

omit [DecidableEq H] [Inhabited H] in
theorem isBetter_iff {api : QPoWApi H} {aux bestAux : PowAux} {best : Header H} {innerSeal : Seal}
    {better : Bool}
    (decided : isBetter (QPowAlgorithm api) aux bestAux best innerSeal = .ok better) :
    better = true ↔ bestAux.totalDifficulty < aux.totalDifficulty := by
  simp only [isBetter] at decided
  cases order : compare aux.totalDifficulty bestAux.totalDifficulty with
  | lt =>
      rw [order] at decided
      cases decided
      have := Nat.compare_eq_lt.mp order
      simp [this.le]
  | gt =>
      rw [order] at decided
      cases decided
      simp [Nat.compare_eq_gt.mp order]
  | eq =>
      rw [order] at decided
      have := Nat.compare_eq_eq.mp order
      cases sealed : fetchSeal best.digest.getLast? best.hash with
      | error e =>
          rw [sealed] at decided
          cases decided
      | ok s =>
          rw [sealed] at decided
          cases decided
          simp [this, QPowAlgorithm]

/-- The import marks a block best exactly when the total it writes exceeds the total of
the current best. -/
theorem Imported.marks_iff {pow : PowBlockImport H} {api : QPoWApi H} {c : Client H}
    {block out : BlockImportParams H} {aux aux' : AuxStore H} {best : Header H} {innerSeal : Seal}
    {difficulty : ℕ} {h : H}
    (imported : Imported pow c block out aux aux' best innerSeal difficulty)
    (algorithm : pow.algorithm = QPowAlgorithm api) (undecided : block.forkChoice = none)
    (auxiliary : block.auxiliary = []) (postHash : block.getPostHash = h) (other : best.hash ≠ h) :
    out.forkChoice = some (.custom true) ↔
      (PowAux.read (aux'.commit out.auxiliary) best.hash).totalDifficulty <
        (PowAux.read (aux'.commit out.auxiliary) h).totalDifficulty := by
  obtain ⟨better, decided, chosen⟩ := imported.forkChoice undecided
  rw [algorithm] at decided
  rw [chosen, Option.some.injEq, ForkChoiceStrategy.custom.injEq, isBetter_iff decided,
    imported.auxiliary, auxiliary, postHash, AuxStore.read_commit_append]
  simp [PowAux.read, AuxStore.commit, AList.lookup_insert_ne other]

section
variable {c : Client H} {n : c.tree.Child} {b : Header H} {m : ℕ} {l : List H}
  {hl : ∀ h, h ∈ l ↔ (c.tree.extend n).IsLeaf h}

/-- If nothing beat the current best, no leaf but the new block does now. -/
theorem Client.workAndHeight_le_of_addBlock {ignored ignored' : Finset H} {h : H}
    (hb : c.tree.header c.bestHash = some b) (kept : c.selected ignored b m = c.bestHash)
    (more : ignored ⊆ ignored') (listed : h ∈ l)
    (admitted : (c.addBlock n l hl).Admits ignored' b m h) (old : h ≠ n.header.hash) :
    (c.addBlock n l hl).workAndHeight h ≤ c.workAndHeight c.bestHash := by
  have hb' : c.tree.header b.hash = some b := by
    rw [HeaderTree.stored_hash hb]
    exact hb
  have leaf := (HeaderTree.isLeaf_extend_iff.mp ((hl h).mp listed)).resolve_left old
  obtain ⟨x, hx⟩ := leaf.1.1
  have before : c.Admits ignored b m h := by
    refine ⟨fun ignore => admitted.1 (more ignore), ?_⟩
    have depth : (c.tree.extend n).reorgDepth b h ≤ m := admitted.2
    rwa [HeaderTree.reorgDepth_extend hb' hx] at depth
  have key : (c.addBlock n l hl).workAndHeight h = c.workAndHeight h :=
    congrArg (fun k => toLex (c.getTotalWork h, k)) (HeaderTree.number_extend hx)
  rw [key]
  have le := FirstMaximum.mem_le_foldl_better c.workAndHeight (c.Admits ignored b m) c.leaves
    c.bestHash ((c.mem_leaves h).mpr leaf.1) before
  change _ ≤ c.workAndHeight (c.selected ignored b m) at le
  rwa [kept] at le

/-- The new block is selected if it is within the limit and beats the current best in
total work, or in height on a tie. -/
theorem Client.selected_addBlock_iff {ignored ignored' : Finset H}
    (hb : c.tree.header c.bestHash = some b) (kept : c.selected ignored b m = c.bestHash)
    (more : ignored ⊆ ignored') (fresh : n.header.hash ∉ ignored')
    (other : n.header.hash ≠ c.bestHash) :
    (c.addBlock n l hl).selected ignored' b m = n.header.hash ↔
      (c.tree.extend n).reorgDepth b n.header.hash ≤ m ∧
        c.workAndHeight c.bestHash < (c.addBlock n l hl).workAndHeight n.header.hash := by
  have key_best : (c.addBlock n l hl).workAndHeight c.bestHash = c.workAndHeight c.bestHash :=
    congrArg (fun k => toLex (c.getTotalWork c.bestHash, k)) (HeaderTree.number_extend hb)
  constructor
  · intro chosen
    change l.foldl (FirstMaximum.better (c.addBlock n l hl).workAndHeight
      ((c.addBlock n l hl).Admits ignored' b m)) c.bestHash = n.header.hash at chosen
    cases FirstMaximum.foldl_better (c.addBlock n l hl).workAndHeight
        ((c.addBlock n l hl).Admits ignored' b m) l c.bestHash with
    | inl start => exact absurd (chosen.symm.trans start.1) other
    | inr beaten =>
        obtain ⟨_, _, -, admitted, better, -, -⟩ := beaten
        rw [chosen] at admitted better
        rw [key_best] at better
        exact ⟨admitted.2, better⟩
  · intro ⟨near, key_new⟩
    have top := FirstMaximum.mem_le_foldl_better (c.addBlock n l hl).workAndHeight
      ((c.addBlock n l hl).Admits ignored' b m) l c.bestHash
      ((hl _).mpr (HeaderTree.isLeaf_extend_iff.mpr (.inl rfl))) ⟨fresh, near⟩
    cases FirstMaximum.foldl_better_mem (c.addBlock n l hl).workAndHeight
        ((c.addBlock n l hl).Admits ignored' b m) l c.bestHash with
    | inl start =>
        rw [start, key_best] at top
        exact absurd top (not_le.mpr key_new)
    | inr leaf =>
        by_contra old
        have := c.workAndHeight_le_of_addBlock hb kept more leaf.1 leaf.2 old
        exact absurd (top.trans this) (not_le.mpr key_new)

end

/-- How far back a reorganisation from `b` to the new block reaches, `f` being the block
they fork from. -/
def HeaderTree.Child.depthFrom {t : HeaderTree H} (n : t.Child) (b : Header H) (f : H) : ℕ :=
  max b.number n.header.number - t.number f

theorem HeaderTree.reorgDepth_new {t : HeaderTree H} {n : t.Child} {b : Header H} {f : H}
    (hb : t.header b.hash = some b) (fork : (t.extend n).links.Meet f b.hash n.header.hash) :
    (t.extend n).reorgDepth b n.header.hash = n.depthFrom b f := by
  have hb' := header_extend_of_some (n := n) hb
  have hn := t.header_extend_self n
  obtain ⟨x, hx⟩ := t.ancestor_stored ((ancestor_extend_iff hb).mp fork.left) hb
  rw [reorgDepth_of_meet hb' hn fork, number_eq hn, number_extend hx]
  rfl

/-- The two choices on a new block agree exactly if a heavier block is within the depth
limit, and a higher block of the same total work is beyond it. -/
theorem importBlock_agrees_iff {c : Client H} {n : c.tree.Child} {b : Header H} {m : ℕ}
    {pow : PowBlockImport H} {api : QPoWApi H} {block out : BlockImportParams H}
    {aux aux' : AuxStore H} {l : List H} (hl : ∀ h, h ∈ l ↔ (c.tree.extend n).IsLeaf h)
    (hb : c.tree.header c.bestHash = some b) (hm : ∀ h, c.getMaxReorgDepth h = m)
    (algorithm : pow.algorithm = QPowAlgorithm api)
    (before : (exec (bestChain c) aux).1 = .ok b)
    (postHash : block.getPostHash = n.header.hash) (auxiliary : block.auxiliary = [])
    (undecided : block.forkChoice = none)
    (run : exec (importBlock pow c block) aux = (.ok out, aux'))
    (fresh : n.header.hash ∉ aux.ignoredChains)
    (same_order : ∀ h k x y, (c.tree.extend n).header h = some x →
      (c.tree.extend n).header k = some y →
      ((PowAux.read (aux'.commit out.auxiliary) h).totalDifficulty <
        (PowAux.read (aux'.commit out.auxiliary) k).totalDifficulty ↔
          c.getTotalWork h < c.getTotalWork k)) :
    (out.forkChoice = some (.custom true) ↔
      (exec (bestChain (c.addBlock n l hl)) (aux'.commit out.auxiliary)).1 = .ok n.header) ↔
    ∀ f, (c.tree.extend n).links.Meet f b.hash n.header.hash →
      (c.getTotalWork c.bestHash < c.getTotalWork n.header.hash → n.depthFrom b f ≤ m) ∧
      (c.getTotalWork n.header.hash = c.getTotalWork c.bestHash → b.number < n.header.number →
        m < n.depthFrom b f) := by
  have hbh := HeaderTree.stored_hash hb
  have stored : c.tree.header b.hash = some b := by rwa [hbh]
  have hb' : (c.tree.extend n).header c.bestHash = some b := HeaderTree.header_extend_of_some hb
  have hn := c.tree.header_extend_self n
  have other : n.header.hash ≠ c.bestHash := by
    intro same
    rw [← same, n.fresh] at hb
    cases hb
  obtain ⟨best, innerSeal, difficulty, imported⟩ := importBlock_ok run
  have hbest : best = b := by
    rw [imported.chain] at before
    exact Except.ok.inj before
  have kept : c.selected aux.ignoredChains b m = c.bestHash :=
    ((bestChain_ok_iff aux hb hm stored).mp before).trans hbh
  have marks : out.forkChoice = some (.custom true) ↔
      c.getTotalWork c.bestHash < c.getTotalWork n.header.hash := by
    have at_best : best.hash = c.bestHash := by rw [hbest, hbh]
    rw [imported.marks_iff algorithm undecided auxiliary postHash (at_best ▸ other.symm), at_best]
    exact same_order _ _ _ _ hb' hn
  have ignored := fun h => mem_ignoredChains_of_bestChain (h := h) hb hm imported.chain
  have more : aux.ignoredChains ⊆ aux'.ignoredChains := fun h hh => (ignored h).mpr (.inl hh)
  have admissible : n.header.hash ∉ aux'.ignoredChains := by
    intro listed
    obtain ⟨leaf, -⟩ := ((ignored _).mp listed).resolve_left fresh
    obtain ⟨⟨y, hy⟩, -⟩ := (c.mem_leaves _).mp leaf
    rw [n.fresh] at hy
    cases hy
  obtain ⟨f, fork⟩ := (c.tree.extend n).exists_meet (hbh ▸ hb') hn
  have any_fork : ∀ f', (c.tree.extend n).links.Meet f' b.hash n.header.hash → f' = f :=
    fun _ fork' => fork'.unique fork
  have keys : c.workAndHeight c.bestHash < (c.addBlock n l hl).workAndHeight n.header.hash ↔
      c.getTotalWork c.bestHash < c.getTotalWork n.header.hash ∨
        c.getTotalWork c.bestHash = c.getTotalWork n.header.hash ∧
          b.number < n.header.number := by
    rw [← HeaderTree.number_eq hb, ← HeaderTree.number_eq hn]
    exact Prod.Lex.toLex_lt_toLex
  rw [marks, bestChain_ok_iff (c := c.addBlock n l hl) (aux'.commit out.auxiliary) hb' hm hn,
    AuxStore.commit_ignoredChains, Client.selected_addBlock_iff hb kept more admissible other,
    HeaderTree.reorgDepth_new stored fork, keys]
  constructor
  · intro agree f' fork'
    obtain rfl := any_fork f' fork'
    omega
  · intro condition
    have := condition f fork
    omega

namespace Sample

def sealItem : DigestItem := .seal POW_ENGINE_ID (List.replicate 64 0)

def sealedBlock (parent hash number : ℕ) : Header ℕ :=
  { block parent hash number with digest := [sealItem] }

/-- A runtime that accepts every nonce and asks for one difficulty. -/
def runtime (difficulty : ℕ) : QPoWApi ℕ := ⟨fun _ => some difficulty, fun _ _ _ => some true⟩

def nodeImport (difficulty : ℕ) : PowBlockImport ℕ where
  algorithm := QPowAlgorithm (runtime difficulty)
  checkInherentsAfter := 0
  runtimeCheckInherents := fun _ _ _ => .ok ⟨⟩

/-- Two blocks on genesis, the heavier one the current best. -/
def forked (newWork limit : ℕ) : Client ℕ :=
  client (tree [sealedBlock 1 2 1, sealedBlock 1 3 1]) 2
    (fun h => [0, 0, 10, 5, newWork].getD h 0) limit

def forkedAux : AuxStore ℕ := ⟨∅, ((∅ : StorageMap ℕ PowAux).insert 3 ⟨5, 5⟩).insert 2 ⟨10, 10⟩⟩

/-- A block on the lighter one, as it comes from the verifier. -/
def incoming : BlockImportParams ℕ where
  header := block 3 4 2
  postDigests := [sealItem]
  body := none
  skipExecutionChecks := false
  intermediate := some none
  auxiliary := []
  forkChoice := none
  postHash := some 4

def incomingChild (newWork limit : ℕ) : (forked newWork limit).tree.Child :=
  ⟨sealedBlock 3 4 2, by rfl, by decide, ⟨_, rfl, rfl⟩⟩

def imported (difficulty : ℕ) (best : Bool) : BlockImportParams ℕ :=
  { incoming with
    intermediate := none
    auxiliary := [(4, ⟨difficulty, 5 + difficulty⟩)]
    forkChoice := some (.custom best) }

def extended (newWork limit : ℕ) : Client ℕ :=
  (forked newWork limit).addBlock (incomingChild newWork limit) _
    ((forked newWork limit).tree.extend (incomingChild newWork limit)).mem_leafList

def written (difficulty newWork limit : ℕ) (best : Bool) : AuxStore ℕ :=
  (exec (importBlock (nodeImport difficulty) (forked newWork limit) incoming) forkedAux).2.commit
    (imported difficulty best).auxiliary

def SameOrder (aux : AuxStore ℕ) (c : Client ℕ) : Prop :=
  ∀ h ∈ c.tree.headers.keys, ∀ k ∈ c.tree.headers.keys,
    ((PowAux.read aux h).totalDifficulty < (PowAux.read aux k).totalDifficulty ↔
      c.getTotalWork h < c.getTotalWork k)

instance (aux : AuxStore ℕ) (c : Client ℕ) : Decidable (SameOrder aux c) :=
  inferInstanceAs (Decidable (∀ h ∈ c.tree.headers.keys, ∀ k ∈ c.tree.headers.keys, _))

/-- Block 2 is the current best. The import of a block of this difficulty marks it best
or not, and `best_chain` returns `head` afterwards. -/
structure Choices (difficulty newWork limit : ℕ) (best : Bool) (head : Header ℕ) : Prop where
  before : (exec (bestChain (forked newWork limit)) forkedAux).1 = .ok (sealedBlock 1 2 1)
  imports : (exec (importBlock (nodeImport difficulty) (forked newWork limit) incoming)
    forkedAux).1 = .ok (imported difficulty best)
  same_order : SameOrder (written difficulty newWork limit best) (extended newWork limit)
  after : (exec (bestChain (extended newWork limit)) (written difficulty newWork limit best)).1 =
    .ok head

end Sample

open Sample

theorem importBlock_agrees_heavier :
    (imported 6 true).forkChoice = some (.custom true) ↔
      (exec (bestChain (extended 11 10)) (written 6 11 10 true)).1 = .ok (sealedBlock 3 4 2) := by
  have ran : (exec (importBlock (nodeImport 6) (forked 11 10) incoming) forkedAux).1 =
      .ok (imported 6 true) := by decide +kernel
  have order : SameOrder (written 6 11 10 true) (extended 11 10) := by decide +kernel
  have best : (forked 11 10).tree.header (forked 11 10).bestHash = some (sealedBlock 1 2 1) := by
    decide
  have algorithm : (nodeImport 6).algorithm = QPowAlgorithm (runtime 6) := rfl
  have postHash : incoming.getPostHash = (incomingChild 11 10).header.hash := rfl
  refine (importBlock_agrees_iff (m := 10) _ best (fun _ => rfl) algorithm (by decide) postHash
    rfl rfl (exec_eq_of_fst ran) (by decide) ?_).mpr ?_
  · intro h k x y hx hy
    exact order h (HeaderTree.mem_keys_iff.mpr ⟨x, hx⟩) k (HeaderTree.mem_keys_iff.mpr ⟨y, hy⟩)
  · intro f _
    exact ⟨fun _ => (Nat.sub_le _ _).trans (by decide), fun tie => absurd tie (by decide)⟩

/-- A higher block of the same total work is left unmarked and then returned; a heavier
block beyond the limit is marked and then refused. -/
theorem importBlock_disagrees :
    Choices 5 10 10 false (sealedBlock 3 4 2) ∧ Choices 6 11 1 true (sealedBlock 1 2 1) := by
  refine ⟨⟨?_, ?_, ?_, ?_⟩, ⟨?_, ?_, ?_, ?_⟩⟩
  · decide +kernel
  · decide +kernel
  · decide +kernel
  · decide +kernel
  · decide +kernel
  · decide +kernel
  · decide +kernel
  · decide +kernel

end Resonance
