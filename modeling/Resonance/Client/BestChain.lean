import Mathlib.Data.Prod.Lex
import Resonance.Foundation.FirstMaximum
import Resonance.Foundation.Storage
import Resonance.Client.CommonAncestor

/-!
`HeaviestChain::best_chain` over a client.

The client is what `best_chain` only reads: the stored headers, the best hash,
the leaves in whatever order the backend lists them, and the two answers of the
runtime API. The auxiliary store is what it writes. One evaluated leaf either
replaces the running best, is put on the ignore list, or changes nothing; which
of the three never depends on the leaves before it, except through the key
(total work, height) of the running best. The evaluation of all leaves is
therefore a first-maximum fold, and its result is optimal among the candidates.

Failures of the database and of the runtime API are not modelled.
-/
namespace Resonance
open ParentTree
variable {H : Type}

/-- What the block import stores for a block; total difficulty in a `U512`. -/
structure PowAux where
  difficulty : ℕ
  totalDifficulty : ℕ
deriving DecidableEq

/-- The client's auxiliary store. Its two kinds of keys have different
prefixes and a hash of fixed length behind them, so each kind is a map. -/
structure AuxStore (H : Type) where
  ignoredChains : Finset H
  powAux : StorageMap H PowAux
deriving DecidableEq

abbrev ConsensusM (H : Type) := Storage (ConsensusError H) (AuxStore H)

variable [DecidableEq H] [Inhabited H] [HeaderHash H]

structure Client (H : Type) [DecidableEq H] [Inhabited H] [HeaderHash H] where
  tree : HeaderTree H
  /-- `client.info().best_hash` -/
  bestHash : H
  /-- `backend.blockchain().leaves()` -/
  leaves : List H
  mem_leaves : ∀ h, h ∈ leaves ↔ tree.IsLeaf h
  getTotalWork : H → ℕ
  getMaxReorgDepth : H → ℕ

def isChainIgnored (hash : H) : ConsensusM H Bool := do
  let aux ← get
  pure (decide (hash ∈ aux.ignoredChains))

def addIgnoredChain (hash : H) : ConsensusM H PUnit :=
  modify fun aux => { aux with ignoredChains := insert hash aux.ignoredChains }

def calculateChainWork (c : Client H) (chainHead : Header H) : ℕ :=
  c.getTotalWork chainHead.hash

/-- The selection without a current best: strictly more work wins. -/
def findBestChain (c : Client H) : (leaves : List H) → (best : Option (Header H)) →
    (bestWork : ℕ) → ConsensusM H (Header H)
  | [], best, _ => Storage.okOr best .noValidChainFound
  | leafHash :: leaves, best, bestWork => do
      let header ← Storage.okOr (c.tree.header leafHash) (.missingHeaderFor leafHash)
      let chainWork := calculateChainWork c header
      if chainWork > bestWork then findBestChain c leaves (some header) chainWork
      else findBestChain c leaves best bestWork

/-- One round of the loop over the leaves, on the pair (best header, best
work). -/
def evaluateLeaf (c : Client H) (currentBest : Header H) (best : Header H × ℕ) (leafHash : H) :
    ConsensusM H (Header H × ℕ) := do
  let (bestHeader, bestWork) := best
  if leafHash = bestHeader.hash then pure best
  else if ← isChainIgnored leafHash then pure best
  else do
    let header ← Storage.okOr (c.tree.header leafHash) (.missingHeaderFor leafHash)
    let chainWork := calculateChainWork c header
    let maxReorgDepth := c.getMaxReorgDepth bestHeader.hash
    if chainWork ≥ bestWork then do
      let (_, reorgDepth) ← Storage.ofResult (findCommonAncestorAndDepth c.tree currentBest header)
      if reorgDepth ≤ maxReorgDepth then
        if chainWork = bestWork then
          -- `best_work` keeps its value, the height decides
          if header.number > bestHeader.number then pure (header, bestWork) else pure best
        else pure (header, chainWork)
      else do
        addIgnoredChain leafHash
        pure best
    else do
      let (_, reorgDepth) ← Storage.ofResult (findCommonAncestorAndDepth c.tree currentBest header)
      if reorgDepth > maxReorgDepth then do
        addIgnoredChain leafHash
        pure best
      else pure best

def bestChain (c : Client H) : ConsensusM H (Header H) :=
  if c.leaves = [] then throw .blockchainHasNoLeaves
  else if c.bestHash = default then findBestChain c c.leaves none 0
  else do
    let currentBest ← Storage.okOr (c.tree.header c.bestHash) .missingCurrentBestHeader
    let (bestHeader, _) ← c.leaves.foldlM (evaluateLeaf c currentBest)
      (currentBest, calculateChainWork c currentBest)
    pure bestHeader

/-- The depth `find_common_ancestor_and_depth` reports for a stored header. -/
def HeaderTree.reorgDepth (t : HeaderTree H) (currentBest : Header H) (h : H) : ℕ :=
  match t.header h with
  | some x => match findCommonAncestorAndDepth t currentBest x with
    | .ok (_, d) => d
    | .error _ => 0
  | none => 0

namespace HeaderTree
variable {t : HeaderTree H} {b : Header H} {h c : H}

theorem stored_hash {x : Header H} (hx : t.header h = some x) : x.hash = h := t.hash_eq hx

theorem reorgDepth_of_ok {x : Header H} {f : H} {d : ℕ} (hx : t.header h = some x)
    (hd : findCommonAncestorAndDepth t b x = .ok (f, d)) : t.reorgDepth b h = d := by
  simp [reorgDepth, hx, hd]

theorem findCommonAncestorAndDepth_of_meet {x : Header H} (hb : t.header b.hash = some b)
    (hx : t.header h = some x) (hc : t.links.Meet c b.hash h) :
    findCommonAncestorAndDepth t b x = .ok (c, max b.number (t.number h) - t.number c) := by
  obtain rfl := stored_hash hx
  rw [number_eq hx]
  exact findCommonAncestorAndDepth_spec hb hx hc

theorem reorgDepth_of_meet {x : Header H} (hb : t.header b.hash = some b)
    (hx : t.header h = some x) (hc : t.links.Meet c b.hash h) :
    t.reorgDepth b h = max b.number (t.number h) - t.number c :=
  reorgDepth_of_ok hx (findCommonAncestorAndDepth_of_meet hb hx hc)

theorem exists_reorgDepth {x : Header H} (hb : t.header b.hash = some b)
    (hx : t.header h = some x) :
    ∃ f, findCommonAncestorAndDepth t b x = .ok (f, t.reorgDepth b h) := by
  obtain ⟨f, hf⟩ := t.exists_meet hb hx
  refine ⟨f, ?_⟩
  rw [reorgDepth_of_meet hb hx hf, findCommonAncestorAndDepth_of_meet hb hx hf]

/-- A block stored later does not change the depth of headers stored before. -/
theorem reorgDepth_extend {n : t.Child} {x : Header H} (hb : t.header b.hash = some b)
    (hx : t.header h = some x) : (t.extend n).reorgDepth b h = t.reorgDepth b h := by
  obtain ⟨f, hf⟩ := t.exists_meet hb hx
  obtain ⟨y, hy⟩ := t.ancestor_stored hf.left hb
  rw [reorgDepth_of_meet hb hx hf,
    reorgDepth_of_meet (header_extend_of_some hb) (header_extend_of_some hx)
      ((meet_extend_iff hb hx).mpr hf), number_extend hx, number_extend hy]

theorem reorgDepth_self (hb : t.header b.hash = some b) : t.reorgDepth b b.hash = 0 := by
  have found : findCommonAncestorAndDepth t b b = .ok (b.hash, 0) := by
    simp [findCommonAncestorAndDepth]
  exact reorgDepth_of_ok hb found

end HeaderTree

/-- The pair (total work, height), compared lexicographically. -/
def Client.workAndHeight (c : Client H) (h : H) : ℕ ×ₗ ℕ :=
  toLex (c.getTotalWork h, c.tree.number h)

/-- The leaves one evaluation may switch to, the limit being `m`. -/
def Client.Admits (c : Client H) (ignored : Finset H) (currentBest : Header H) (m : ℕ) (h : H) :
    Prop :=
  h ∉ ignored ∧ c.tree.reorgDepth currentBest h ≤ m

instance (c : Client H) (ignored : Finset H) (currentBest : Header H) (m : ℕ) :
    DecidablePred (c.Admits ignored currentBest m) := fun _ =>
  inferInstanceAs (Decidable (_ ∧ _))

namespace AuxStore

/-- The store after evaluating a leaf. -/
def ignoreDeep (aux : AuxStore H) (c : Client H) (currentBest : Header H) (m : ℕ) (h : H) :
    AuxStore H :=
  if c.tree.reorgDepth currentBest h > m then
    { aux with ignoredChains := insert h aux.ignoredChains }
  else aux

variable {aux : AuxStore H} {c : Client H} {b : Header H} {m : ℕ} {h k : H}

theorem ignoreDeep_of_le (hd : c.tree.reorgDepth b h ≤ m) : aux.ignoreDeep c b m h = aux :=
  if_neg (by omega)

theorem mem_ignoreDeep : k ∈ (aux.ignoreDeep c b m h).ignoredChains ↔
    k ∈ aux.ignoredChains ∨ (k = h ∧ c.tree.reorgDepth b h > m) := by
  simp only [ignoreDeep]
  split
  · rename_i hd
    simp [hd, or_comm]
  · rename_i hd
    simp [hd]

theorem ignoreDeep_of_mem (hi : h ∈ aux.ignoredChains) : aux.ignoreDeep c b m h = aux := by
  simp only [ignoreDeep]
  split
  · rw [Finset.insert_eq_of_mem hi]
  · rfl

@[simp] theorem ignoreDeep_powAux : (aux.ignoreDeep c b m h).powAux = aux.powAux := by
  simp only [ignoreDeep]
  split <;> rfl

end AuxStore

/-- Ignoring a leaf that is too deep admits no leaf more or less. -/
theorem Client.admits_ignoreDeep (c : Client H) (aux : AuxStore H) (b : Header H) (m : ℕ)
    (h k : H) :
    c.Admits (aux.ignoreDeep c b m h).ignoredChains b m k ↔ c.Admits aux.ignoredChains b m k := by
  simp only [Client.Admits]
  rw [AuxStore.mem_ignoreDeep, not_or]
  constructor
  · intro ⟨⟨hi, _⟩, hd⟩
    exact ⟨hi, hd⟩
  · intro ⟨hi, hd⟩
    refine ⟨⟨hi, ?_⟩, hd⟩
    intro ⟨hk, deep⟩
    subst hk
    omega

open Storage in
/-- One evaluated leaf. -/
theorem evaluateLeaf_spec {c : Client H} {b x y : Header H} {h r : H} {m : ℕ} (aux : AuxStore H)
    (hb : c.tree.header b.hash = some b) (hm : ∀ k, c.getMaxReorgDepth k = m)
    (hr : c.tree.header r = some x) (hrd : c.tree.reorgDepth b r ≤ m)
    (hh : c.tree.header h = some y) :
    ∃ z, c.tree.header (FirstMaximum.better c.workAndHeight
          (c.Admits aux.ignoredChains b m) r h) = some z ∧
      exec (evaluateLeaf c b (x, c.getTotalWork r) h) aux =
        (.ok (z, c.getTotalWork (FirstMaximum.better c.workAndHeight
          (c.Admits aux.ignoredChains b m) r h)), aux.ignoreDeep c b m h) := by
  have hxr := HeaderTree.stored_hash hr
  have hyh := HeaderTree.stored_hash hh
  obtain ⟨f, hf⟩ := HeaderTree.exists_reorgDepth hb hh
  have hnr := HeaderTree.number_eq hr
  have hnh := HeaderTree.number_eq hh
  simp only [FirstMaximum.better, evaluateLeaf]
  by_cases same : h = r
  · subst same
    rw [if_neg (fun k => lt_irrefl _ k.2), AuxStore.ignoreDeep_of_le hrd]
    exact ⟨x, hr, by simp [hxr]⟩
  by_cases ignored : h ∈ aux.ignoredChains
  · rw [if_neg (fun k => k.1.1 ignored), AuxStore.ignoreDeep_of_mem ignored]
    refine ⟨x, hr, ?_⟩
    simp [hxr, same, isChainIgnored, exec_bind, ignored]
  by_cases deep : c.tree.reorgDepth b h ≤ m
  · rw [AuxStore.ignoreDeep_of_le deep]
    have near : c.Admits aux.ignoredChains b m h := ⟨ignored, deep⟩
    simp only [near, true_and, Client.workAndHeight, Prod.Lex.toLex_lt_toLex]
    rcases lt_trichotomy (c.getTotalWork r) (c.getTotalWork h) with work | work | work
    · rw [if_pos (.inl work)]
      refine ⟨y, hh, ?_⟩
      simp [hxr, hyh, same, isChainIgnored, exec_bind, ignored, okOr, hh, calculateChainWork, hm,
        Storage.ofResult, hf, deep, work.le, work.ne']
    · by_cases height : c.tree.number r < c.tree.number h
      · rw [if_pos (.inr ⟨work, height⟩)]
        refine ⟨y, hh, ?_⟩
        rw [hnr, hnh] at height
        simp [hxr, hyh, same, isChainIgnored, exec_bind, ignored, okOr, hh, calculateChainWork,
          hm, Storage.ofResult, hf, deep, work, height]
      · rw [if_neg (by rintro (k | ⟨-, k⟩) <;> omega)]
        refine ⟨x, hr, ?_⟩
        rw [hnr, hnh] at height
        simp [hxr, hyh, same, isChainIgnored, okOr, hh, calculateChainWork, hm,
          Storage.ofResult, hf, deep, work, height]
    · rw [if_neg (by rintro (k | ⟨k, -⟩) <;> omega)]
      refine ⟨x, hr, ?_⟩
      simp [hxr, hyh, same, isChainIgnored, okOr, hh, calculateChainWork, hm, Storage.ofResult, hf,
        deep.not_gt, work.not_ge]
  · rw [if_neg (fun k => deep k.1.2)]
    refine ⟨x, hr, ?_⟩
    have ignore : aux.ignoreDeep c b m h =
        { aux with ignoredChains := insert h aux.ignoredChains } := if_pos (by omega)
    rw [ignore]
    by_cases work : c.getTotalWork r ≤ c.getTotalWork h
    · simp [hxr, hyh, same, isChainIgnored, exec_bind, ignored, okOr, hh, calculateChainWork, hm,
        Storage.ofResult, hf, deep, work, addIgnoredChain]
    · simp [hxr, hyh, same, isChainIgnored, exec_bind, ignored, okOr, hh, calculateChainWork, hm,
        Storage.ofResult, hf, work, addIgnoredChain, not_le.mp deep]

/-- The store after evaluating leaves. -/
def AuxStore.ignoreAllDeep (aux : AuxStore H) (c : Client H) (b : Header H) (m : ℕ) (l : List H) :
    AuxStore H :=
  l.foldl (fun aux h => aux.ignoreDeep c b m h) aux

theorem AuxStore.mem_ignoreAllDeep (aux : AuxStore H) {c : Client H} {b : Header H} {m : ℕ}
    {l : List H} {k : H} : k ∈ (aux.ignoreAllDeep c b m l).ignoredChains ↔
      k ∈ aux.ignoredChains ∨ (k ∈ l ∧ c.tree.reorgDepth b k > m) := by
  induction l generalizing aux with
  | nil => simp [ignoreAllDeep]
  | cons h l ih =>
      have tail := ih (aux.ignoreDeep c b m h)
      rw [mem_ignoreDeep] at tail
      rw [List.mem_cons]
      refine tail.trans ?_
      grind

open Storage in
/-- All leaves, in the order they are listed. -/
theorem evaluateLeaves_spec {c : Client H} {b x : Header H} {r : H} {m : ℕ} {l : List H}
    (aux : AuxStore H) (hb : c.tree.header b.hash = some b) (hm : ∀ k, c.getMaxReorgDepth k = m)
    (hr : c.tree.header r = some x) (hrd : c.tree.reorgDepth b r ≤ m)
    (hl : ∀ h ∈ l, ∃ y, c.tree.header h = some y) :
    ∃ z, c.tree.header (l.foldl (FirstMaximum.better c.workAndHeight
          (c.Admits aux.ignoredChains b m)) r) = some z ∧
      exec (l.foldlM (evaluateLeaf c b) (x, c.getTotalWork r)) aux =
        (.ok (z, c.getTotalWork (l.foldl (FirstMaximum.better c.workAndHeight
          (c.Admits aux.ignoredChains b m)) r)), aux.ignoreAllDeep c b m l) := by
  induction l generalizing r x aux with
  | nil => exact ⟨x, hr, rfl⟩
  | cons h l ih =>
      obtain ⟨y, hy⟩ := hl h List.mem_cons_self
      obtain ⟨z, hz, head⟩ := evaluateLeaf_spec aux hb hm hr hrd hy
      have near : c.tree.reorgDepth b
          (FirstMaximum.better c.workAndHeight (c.Admits aux.ignoredChains b m) r h) ≤ m := by
        simp only [FirstMaximum.better]
        split
        · rename_i switch
          exact switch.1.2
        · exact hrd
      obtain ⟨z', hz', tail⟩ := ih (aux.ignoreDeep c b m h) hz near
        (fun k hk => hl k (List.mem_cons_of_mem _ hk))
      rw [FirstMaximum.better_congr _ _ (c.admits_ignoreDeep aux b m h)] at hz' tail
      refine ⟨z', hz', ?_⟩
      rw [List.foldlM_cons, exec_bind, head]
      exact tail

/-- The leaf `best_chain` ends on: the first of the largest key. -/
def Client.selected (c : Client H) (ignored : Finset H) (currentBest : Header H) (m : ℕ) : H :=
  c.leaves.foldl (FirstMaximum.better c.workAndHeight (c.Admits ignored currentBest m))
    c.bestHash

theorem Client.reorgDepth_selected_le {c : Client H} {b : Header H} {m : ℕ} (ignored : Finset H)
    (hb : c.tree.header c.bestHash = some b) :
    c.tree.reorgDepth b (c.selected ignored b m) ≤ m := by
  have mem := FirstMaximum.foldl_better_mem c.workAndHeight (c.Admits ignored b m) c.leaves
    c.bestHash
  cases mem with
  | inl start =>
      have hbh := HeaderTree.stored_hash hb
      rw [selected, start, ← hbh, HeaderTree.reorgDepth_self (by rwa [hbh])]
      exact Nat.zero_le m
  | inr leaf => exact leaf.2.2

open Storage in
theorem bestChain_spec {c : Client H} {b : Header H} {m : ℕ} (aux : AuxStore H)
    (hb : c.tree.header c.bestHash = some b) (hm : ∀ k, c.getMaxReorgDepth k = m) :
    ∃ x, c.tree.header (c.selected aux.ignoredChains b m) = some x ∧
      exec (bestChain c) aux = (.ok x, aux.ignoreAllDeep c b m c.leaves) := by
  have hbh := HeaderTree.stored_hash hb
  have hb' : c.tree.header b.hash = some b := by
    rw [hbh]
    exact hb
  have not_default : c.bestHash ≠ default := by
    intro h
    have stored := c.tree.default_not_stored
    rw [h] at hb
    exact absurd (stored.symm.trans hb) (by simp)
  have not_empty : c.leaves ≠ [] := by
    obtain ⟨h, hh⟩ := c.tree.exists_leaf
    exact List.ne_nil_of_mem ((c.mem_leaves h).mpr hh)
  have near : c.tree.reorgDepth b c.bestHash ≤ m := by
    rw [← hbh, HeaderTree.reorgDepth_self hb']
    exact Nat.zero_le m
  obtain ⟨x, hx, run⟩ := evaluateLeaves_spec aux hb' hm hb near
    (fun h hh => ((c.mem_leaves h).mp hh).1)
  refine ⟨x, hx, ?_⟩
  simp only [bestChain]
  rw [if_neg not_empty, if_neg not_default, exec_bind]
  simp only [okOr, hb, exec_pure]
  rw [exec_bind, calculateChainWork, hbh, run]
  rfl

open Storage in
theorem bestChain_ok_iff {c : Client H} {b x : Header H} {m : ℕ} (aux : AuxStore H)
    (hb : c.tree.header c.bestHash = some b) (hm : ∀ k, c.getMaxReorgDepth k = m)
    (hx : c.tree.header x.hash = some x) :
    (exec (bestChain c) aux).1 = .ok x ↔ c.selected aux.ignoredChains b m = x.hash := by
  obtain ⟨y, hy, run⟩ := bestChain_spec aux hb hm
  rw [run, Except.ok.injEq]
  constructor
  · rintro rfl
    exact (HeaderTree.stored_hash hy).symm
  · intro same
    rw [same, hx] at hy
    exact (Option.some.inj hy).symm

open Storage in
/-- Only leaves beyond the limit are added to the list. -/
theorem mem_ignoredChains_of_bestChain {c : Client H} {b x : Header H} {m : ℕ} {h : H}
    {aux aux' : AuxStore H} (hb : c.tree.header c.bestHash = some b)
    (hm : ∀ k, c.getMaxReorgDepth k = m) (run : exec (bestChain c) aux = (.ok x, aux')) :
    h ∈ aux'.ignoredChains ↔
      h ∈ aux.ignoredChains ∨ h ∈ c.leaves ∧ c.tree.reorgDepth b h > m := by
  obtain ⟨y, -, run'⟩ := bestChain_spec aux hb hm
  cases run.symm.trans run'
  exact AuxStore.mem_ignoreAllDeep ..

open Storage in
/-- A leaf beyond the limit is refused and ignored. -/
theorem bestChain_refuses {c : Client H} {b x : Header H} {f : H} {m d : ℕ} (aux : AuxStore H)
    (hb : c.tree.header c.bestHash = some b) (hm : ∀ k, c.getMaxReorgDepth k = m)
    (hx : c.tree.header x.hash = some x) (listed : x.hash ∈ c.leaves)
    (found : findCommonAncestorAndDepth c.tree b x = .ok (f, d)) (deep : d > m) :
    ∃ z aux', exec (bestChain c) aux = (.ok z, aux') ∧ z ≠ x ∧ x.hash ∈ aux'.ignoredChains := by
  have depth := HeaderTree.reorgDepth_of_ok hx found
  obtain ⟨z, hz, run⟩ := bestChain_spec aux hb hm
  refine ⟨z, _, run, ?_, ?_⟩
  · intro same
    have near := Client.reorgDepth_selected_le (m := m) aux.ignoredChains hb
    rw [← HeaderTree.stored_hash hz, same] at near
    omega
  · rw [AuxStore.mem_ignoreAllDeep]
    exact .inr ⟨listed, by omega⟩

/-- What `best_chain` may return: the current best, or a leaf that is not
ignored and whose reported depth is within the limit. -/
def Client.Candidate (c : Client H) (aux : AuxStore H) (currentBest : Header H) (m : ℕ)
    (x : Header H) : Prop :=
  x = currentBest ∨ (x.hash ∈ c.leaves ∧ c.tree.header x.hash = some x ∧
    x.hash ∉ aux.ignoredChains ∧
    ∃ f d, findCommonAncestorAndDepth c.tree currentBest x = .ok (f, d) ∧ d ≤ m)

/-- A leaf not ignored so far whose reported depth exceeds the limit. -/
def Client.ExceedsLimit (c : Client H) (aux : AuxStore H) (currentBest : Header H) (m : ℕ)
    (h : H) : Prop :=
  h ∈ c.leaves ∧ h ∉ aux.ignoredChains ∧ ∃ x f d, c.tree.header h = some x ∧
    findCommonAncestorAndDepth c.tree currentBest x = .ok (f, d) ∧ d > m

/-- The client whose backend lists the same leaves in another order. -/
def Client.relist (c : Client H) (l : List H) (hl : ∀ h, h ∈ l ↔ c.tree.IsLeaf h) : Client H :=
  { c with leaves := l, mem_leaves := hl }

namespace Client
variable {c : Client H} {aux : AuxStore H} {b x : Header H} {m : ℕ} {h : H}

theorem candidate_iff (hb : c.tree.header c.bestHash = some b)
    (hx : c.tree.header h = some x) : c.Candidate aux b m x ↔
      h = c.bestHash ∨ (h ∈ c.leaves ∧ c.Admits aux.ignoredChains b m h) := by
  have hbh := HeaderTree.stored_hash hb
  have hxh := HeaderTree.stored_hash hx
  have hb' : c.tree.header b.hash = some b := by
    rw [hbh]
    exact hb
  obtain ⟨f, hf⟩ := HeaderTree.exists_reorgDepth hb' hx
  have depth : (∃ f d, findCommonAncestorAndDepth c.tree b x = .ok (f, d) ∧ d ≤ m) ↔
      c.tree.reorgDepth b h ≤ m := by
    simp [hf]
  have same : x = b ↔ h = c.bestHash := by
    constructor
    · intro hxb
      rw [← hxh, ← hbh, hxb]
    · intro hhb
      rw [hhb, hb] at hx
      exact (Option.some.inj hx).symm
  simp [Candidate, Admits, same, depth, hxh, hx]

theorem exceedsLimit_iff (hb : c.tree.header b.hash = some b) :
    c.ExceedsLimit aux b m h ↔
      h ∈ c.leaves ∧ h ∉ aux.ignoredChains ∧ c.tree.reorgDepth b h > m := by
  constructor
  · intro ⟨listed, fresh, x, f, d, hx, hd, deep⟩
    rw [HeaderTree.reorgDepth_of_ok hx hd]
    exact ⟨listed, fresh, deep⟩
  · intro ⟨listed, fresh, deep⟩
    obtain ⟨⟨x, hx⟩, -⟩ := (c.mem_leaves h).mp listed
    obtain ⟨f, hf⟩ := HeaderTree.exists_reorgDepth hb hx
    exact ⟨listed, fresh, x, f, _, hx, hf, deep⟩

theorem workAndHeight_eq (hx : c.tree.header h = some x) :
    c.workAndHeight h = toLex (calculateChainWork c x, x.number) := by
  rw [workAndHeight, calculateChainWork, HeaderTree.stored_hash hx, HeaderTree.number_eq hx]

end Client

open Storage in
/-- `best_chain` returns an optimal candidate and ignores exactly the leaves
beyond the limit; neither depends on the order in which leaves are listed. -/
theorem bestChain_optimal {c : Client H} {b : Header H} {m : ℕ} (aux : AuxStore H)
    (hb : c.tree.header c.bestHash = some b) (hm : ∀ h, c.getMaxReorgDepth h = m) :
    ∃ x aux', exec (bestChain c) aux = (.ok x, aux') ∧ c.Candidate aux b m x ∧
      (∀ y, c.Candidate aux b m y →
        toLex (calculateChainWork c y, y.number) ≤ toLex (calculateChainWork c x, x.number)) ∧
      toLex (calculateChainWork c b, b.number) ≤ toLex (calculateChainWork c x, x.number) ∧
      (∀ h, h ∈ aux'.ignoredChains ↔ h ∈ aux.ignoredChains ∨ c.ExceedsLimit aux b m h) ∧
      ∀ l hl, ∃ x' aux'', exec (bestChain (c.relist l hl)) aux = (.ok x', aux'') ∧
        toLex (calculateChainWork c x', x'.number) = toLex (calculateChainWork c x, x.number) ∧
        aux''.ignoredChains = aux'.ignoredChains := by
  have hb' : c.tree.header b.hash = some b := by
    rw [HeaderTree.stored_hash hb]
    exact hb
  obtain ⟨x, hx, run⟩ := bestChain_spec aux hb hm
  have selected_mem := FirstMaximum.foldl_better_mem c.workAndHeight
    (c.Admits aux.ignoredChains b m) c.leaves c.bestHash
  have optimal : ∀ y, c.Candidate aux b m y →
      toLex (calculateChainWork c y, y.number) ≤ toLex (calculateChainWork c x, x.number) := by
    intro y candidate
    rw [← Client.workAndHeight_eq hx]
    have hy : ∃ k, c.tree.header k = some y := by
      cases candidate with
      | inl same => exact ⟨c.bestHash, same ▸ hb⟩
      | inr leaf => exact ⟨y.hash, leaf.2.1⟩
    obtain ⟨k, hk⟩ := hy
    rw [← Client.workAndHeight_eq hk]
    cases (Client.candidate_iff hb hk).mp candidate with
    | inl same =>
        rw [same]
        exact FirstMaximum.le_foldl_better _ _ _ _
    | inr leaf => exact FirstMaximum.mem_le_foldl_better _ _ _ _ leaf.1 leaf.2
  refine ⟨x, _, run, (Client.candidate_iff hb hx).mpr selected_mem, optimal,
    optimal b (.inl rfl), ?_, ?_⟩
  · intro h
    rw [AuxStore.mem_ignoreAllDeep, Client.exceedsLimit_iff hb']
    grind
  · intro l hl
    obtain ⟨x', hx', run'⟩ := bestChain_spec (c := c.relist l hl) aux hb hm
    refine ⟨x', _, run', ?_, ?_⟩
    · rw [← Client.workAndHeight_eq hx, ← Client.workAndHeight_eq (c := c) hx']
      exact FirstMaximum.key_foldl_better_congr _ _ c.bestHash
        (fun h => (hl h).trans (c.mem_leaves h).symm)
    · ext h
      have listed : h ∈ l ↔ h ∈ c.leaves := (hl h).trans (c.mem_leaves h).symm
      rw [AuxStore.mem_ignoreAllDeep, AuxStore.mem_ignoreAllDeep]
      exact or_congr_right (and_congr_left fun _ => listed)

namespace Sample

/-- Small trees for witnesses: a header is known by its state root. -/
instance : HeaderHash ℕ := ⟨Header.stateRoot⟩

def block (parent hash number : ℕ) : Header ℕ := ⟨parent, number, hash, 0, []⟩

/-- The tree of genesis, hash 1, and blocks stored one after the other. -/
def tree (blocks : List (Header ℕ)) : HeaderTree ℕ :=
  blocks.foldl HeaderTree.store (.genesis (block 0 1 0) (by decide))

def client (t : HeaderTree ℕ) (bestHash : ℕ) (work : ℕ → ℕ) (m : ℕ) : Client ℕ where
  tree := t
  bestHash := bestHash
  leaves := t.leafList
  mem_leaves := t.mem_leafList
  getTotalWork := work
  getMaxReorgDepth := fun _ => m

end Sample

open Sample Storage in
theorem bestChain_optimal_fork :
    ∃ x aux', exec (bestChain (client (tree [block 1 2 1, block 1 3 1, block 3 4 2]) 2 id 10))
        ⟨∅, ∅⟩ = (.ok x, aux') ∧
      toLex (2, 1) ≤ toLex (x.hash, x.number) := by
  obtain ⟨x, aux', run, -, -, above, -⟩ := bestChain_optimal
    (c := client (tree [block 1 2 1, block 1 3 1, block 3 4 2]) 2 id 10)
    ⟨∅, ∅⟩ (b := block 1 2 1) (by decide) (fun _ => rfl)
  exact ⟨x, aux', run, above⟩

section
open Storage

omit [Inhabited H] [HeaderHash H] in
theorem isChainIgnored_keeps_powAux (h : H) : Keeps AuxStore.powAux (isChainIgnored h) :=
  Keeps.get.bind fun _ => .pure _

omit [Inhabited H] [HeaderHash H] in
theorem addIgnoredChain_keeps_powAux (h : H) : Keeps AuxStore.powAux (addIgnoredChain h) :=
  fun _ => rfl

theorem findBestChain_keeps_powAux (c : Client H) (leaves : List H)
    (best : Option (Header H)) (bestWork : ℕ) :
    Keeps AuxStore.powAux (findBestChain c leaves best bestWork) := by
  induction leaves generalizing best bestWork with
  | nil => exact .okOr _ _
  | cons h leaves ih => exact (Keeps.okOr _ _).bind fun header => .ite (ih _ _) (ih _ _)

theorem evaluateLeaf_keeps_powAux (c : Client H) (b : Header H) (best : Header H × ℕ) (h : H) :
    Keeps AuxStore.powAux (evaluateLeaf c b best h) := by
  refine .ite (.pure _) (.bind (isChainIgnored_keeps_powAux h) fun ignored => ?_)
  refine .ite (.pure _) (.bind (.okOr _ _) fun header => ?_)
  have ignore : Keeps AuxStore.powAux (do
      addIgnoredChain h
      pure best : ConsensusM H (Header H × ℕ)) :=
    (addIgnoredChain_keeps_powAux h).bind fun _ => .pure _
  refine .ite ?_ ?_
  · exact (Keeps.ofResult _).bind fun depth =>
      .ite (.ite (.ite (.pure _) (.pure _)) (.pure _)) ignore
  · exact (Keeps.ofResult _).bind fun depth => .ite ignore (.pure _)

/-- `best_chain` writes nothing but ignored chains. -/
theorem bestChain_keeps_powAux (c : Client H) : Keeps AuxStore.powAux (bestChain c) := by
  refine .ite (.throw _) (.ite (findBestChain_keeps_powAux c _ _ _) ?_)
  refine (Keeps.okOr _ _).bind fun b => .bind ?_ fun _ => .pure _
  exact .foldlM (evaluateLeaf_keeps_powAux c b) _ _

end

end Resonance
