import Resonance.Foundation.StateMachine
import Resonance.Client.ForkChoice

/-!
Runs of imports, and what the permanent ignore list is worth along them.

A step stores one block, calls `best_chain` and takes its result as the current
best. A leaf is put on the list on the evidence of one current best and stays
there. While the current best never gets lower, and only leaves forking off more
than the limit below it are ignored, that evidence stays valid: reorganisations
within the limit never reach such a fork point. A shorter, heavier chain can
bring an ignored leaf back within the limit.
-/
namespace Resonance
open ParentTree Storage StateMachine
variable {H : Type} [DecidableEq H] [Inhabited H] [HeaderHash H]

structure ChainState (H : Type) [DecidableEq H] [Inhabited H] [HeaderHash H] where
  client : Client H
  aux : AuxStore H

/-- Storing a block and letting `best_chain` choose, the limit being `m`. -/
def chainMachine (H : Type) [DecidableEq H] [Inhabited H] [HeaderHash H] (m : ℕ) :
    Machine (ChainState H) (Header H) where
  init s := (∃ b, s.client.tree.header s.client.bestHash = some b) ∧
    (∀ h, s.client.getMaxReorgDepth h = m) ∧ s.aux.ignoredChains = ∅
  step s x s' := ∃ (n : s.client.tree.Child) (l : List H)
    (hl : ∀ h, h ∈ l ↔ (s.client.tree.extend n).IsLeaf h) (b : Header H),
    n.header = x ∧ exec (bestChain (s.client.addBlock n l hl)) s.aux = (.ok b, s'.aux) ∧
    s'.client = { s.client.addBlock n l hl with bestHash := b.hash }

/-- The depth reported from the current best of a state. -/
def ChainState.HasDepth (s : ChainState H) (bestHash h : H) (d : ℕ) : Prop :=
  ∃ b x f, s.client.tree.header bestHash = some b ∧ s.client.tree.header h = some x ∧
    findCommonAncestorAndDepth s.client.tree b x = .ok (f, d)

/-- A step that does not lower the current best, and ignores only leaves that
fork off more than `m` blocks below it. -/
def KeepsHeight (m : ℕ) (t : Transition (ChainState H) (Header H)) : Prop :=
  t.pre.client.tree.number t.pre.client.bestHash ≤
    t.post.client.tree.number t.post.client.bestHash ∧
  ∀ h ∈ t.post.aux.ignoredChains, h ∉ t.pre.aux.ignoredChains →
    ∀ f, t.post.client.tree.links.Meet f t.pre.client.bestHash h →
      t.post.client.tree.number f + m < t.post.client.tree.number t.pre.client.bestHash

/-- What every step keeps. -/
def ChainState.WellFormed (s : ChainState H) (m : ℕ) : Prop :=
  (∃ b, s.client.tree.header s.client.bestHash = some b) ∧
    (∀ h, s.client.getMaxReorgDepth h = m) ∧
    ∀ h ∈ s.aux.ignoredChains, ∃ x, s.client.tree.header h = some x

/-- One step, in terms of the state before it. -/
theorem chainMachine_step {s s' : ChainState H} {x : Header H} {m : ℕ} (ok : s.WellFormed m)
    (step : (chainMachine H m).step s x s') :
    ∃ (n : s.client.tree.Child) (b : Header H),
      s'.client.tree = s.client.tree.extend n ∧
      s.client.tree.header s.client.bestHash = some b ∧
      s'.WellFormed m ∧
      (s.client.tree.extend n).reorgDepth b s'.client.bestHash ≤ m ∧
      ∀ h, h ∈ s'.aux.ignoredChains ↔ h ∈ s.aux.ignoredChains ∨
        ((s.client.tree.extend n).IsLeaf h ∧ (s.client.tree.extend n).reorgDepth b h > m) := by
  obtain ⟨⟨b, hb⟩, hm, known⟩ := ok
  obtain ⟨n, l, hl, z, -, run, client⟩ := step
  have hb' : (s.client.tree.extend n).header s.client.bestHash = some b :=
    HeaderTree.header_extend_of_some hb
  obtain ⟨y, hy, run'⟩ := bestChain_spec (c := s.client.addBlock n l hl) s.aux hb' hm
  rw [run] at run'
  cases (Prod.mk.inj run').1
  have chosen := HeaderTree.stored_hash hy
  have tree : s'.client.tree = s.client.tree.extend n := by
    rw [client]
    rfl
  have best : s'.client.bestHash = z.hash := by
    rw [client]
  have listed : ∀ h, h ∈ s'.aux.ignoredChains ↔ h ∈ s.aux.ignoredChains ∨
      ((s.client.tree.extend n).IsLeaf h ∧ (s.client.tree.extend n).reorgDepth b h > m) := by
    intro h
    rw [mem_ignoredChains_of_bestChain (c := s.client.addBlock n l hl) hb' hm run]
    exact or_congr_right (and_congr_left fun _ => hl h)
  refine ⟨n, b, tree, hb, ⟨⟨z, ?_⟩, ?_, ?_⟩, ?_, listed⟩
  · rw [tree, best, chosen]
    exact hy
  · intro h
    rw [client]
    exact hm h
  · intro h hh
    rw [tree]
    cases (listed h).mp hh with
    | inl old =>
        obtain ⟨x, hx⟩ := known h old
        exact ⟨x, HeaderTree.header_extend_of_some hx⟩
    | inr new => exact new.1.1
  · rw [best, chosen]
    exact Client.reorgDepth_selected_le (c := s.client.addBlock n l hl) _ hb'

/-- Every ignored leaf forks off more than `m` blocks below the current best. -/
def ChainState.ForksFarBelow (s : ChainState H) (m : ℕ) : Prop :=
  ∀ h ∈ s.aux.ignoredChains, ∀ f, s.client.tree.links.Meet f s.client.bestHash h →
    s.client.tree.number f + m < s.client.tree.number s.client.bestHash

theorem ChainState.ForksFarBelow.step {s s' : ChainState H} {x : Header H} {m : ℕ}
    (far : s.ForksFarBelow m) (ok : s.WellFormed m) (step : (chainMachine H m).step s x s')
    (keeps : KeepsHeight m ⟨s, x, s'⟩) : s'.ForksFarBelow m := by
  obtain ⟨n, b, tree, hb, ⟨⟨z, hz⟩, -, -⟩, near, listed⟩ := chainMachine_step ok step
  obtain ⟨height, fresh⟩ := keeps
  have hbh := HeaderTree.stored_hash hb
  have hb' : (s.client.tree.extend n).header b.hash = some b := by
    rw [hbh]
    exact HeaderTree.header_extend_of_some hb
  simp only [ForksFarBelow]
  dsimp only at height fresh
  rw [tree] at hz height fresh ⊢
  intro h hh f hf
  -- the fork point from the old best lies further below it than the switch goes
  have from_old : ∃ f₀, (s.client.tree.extend n).links.Meet f₀ s.client.bestHash h ∧
      (s.client.tree.extend n).number f₀ + m <
        (s.client.tree.extend n).number s.client.bestHash := by
    by_cases old : h ∈ s.aux.ignoredChains
    · obtain ⟨y, hy⟩ := ok.2.2 h old
      obtain ⟨f₀, hf₀⟩ := s.client.tree.exists_meet hb hy
      obtain ⟨w, hw⟩ := s.client.tree.ancestor_stored hf₀.left hb
      refine ⟨f₀, (HeaderTree.meet_extend_iff hb hy).mpr hf₀, ?_⟩
      rw [HeaderTree.number_extend hw, HeaderTree.number_extend hb]
      exact far h old f₀ hf₀
    · obtain ⟨⟨y, hy⟩, -⟩ := ((listed h).mp hh).resolve_left old |>.1
      obtain ⟨f₀, hf₀⟩ := (s.client.tree.extend n).exists_meet hb' hy
      rw [hbh] at hf₀
      exact ⟨f₀, hf₀, fresh h hh old f₀ hf₀⟩
  obtain ⟨f₀, hf₀, below⟩ := from_old
  obtain ⟨d, hd⟩ := (s.client.tree.extend n).exists_meet hb' hz
  rw [HeaderTree.reorgDepth_of_meet hb' hz hd] at near
  rw [hbh] at hd
  have number := HeaderTree.number_eq hb'
  rw [hbh] at number
  have same : f₀ = f := (hf₀.of_higher_branch hd (by
    change (s.client.tree.extend n).number f₀ < (s.client.tree.extend n).number d
    omega)).unique hf
  subst same
  have kept := HeaderTree.number_extend (n := n) hb
  omega

theorem ChainState.ForksFarBelow.reorgDepth {s : ChainState H} {b : Header H} {h : H} {m : ℕ}
    (far : s.ForksFarBelow m) (ok : s.WellFormed m)
    (hb : s.client.tree.header s.client.bestHash = some b) (hh : h ∈ s.aux.ignoredChains) :
    s.client.tree.reorgDepth b h > m := by
  obtain ⟨x, hx⟩ := ok.2.2 h hh
  obtain ⟨f, hf⟩ := s.client.tree.exists_meet hb hx
  have hbh := HeaderTree.stored_hash hb
  have below := far h hh f hf
  rw [← hbh] at hb hf below
  rw [HeaderTree.reorgDepth_of_meet hb hx hf, ← HeaderTree.number_eq hb]
  omega

/-- When the depth rule refuses every ignored leaf, the list decides nothing. -/
theorem bestChain_forget {c : Client H} {b : Header H} {m : ℕ} (aux : AuxStore H)
    (hb : c.tree.header c.bestHash = some b) (hm : ∀ h, c.getMaxReorgDepth h = m)
    (deep : ∀ h ∈ aux.ignoredChains, c.tree.reorgDepth b h > m) :
    (exec (bestChain c) aux).1 = (exec (bestChain c) { aux with ignoredChains := ∅ }).1 := by
  obtain ⟨x, hx, run⟩ := bestChain_spec aux hb hm
  obtain ⟨y, hy, run'⟩ := bestChain_spec { aux with ignoredChains := ∅ } hb hm
  have admits : ∀ h, c.Admits aux.ignoredChains b m h ↔ c.Admits ∅ b m h := by
    intro h
    refine and_congr_left fun near => ?_
    have : h ∉ aux.ignoredChains := fun hh => absurd (deep h hh) (by omega)
    simp [this]
  have same : c.selected aux.ignoredChains b m = c.selected ∅ b m := by
    simp only [Client.selected]
    rw [FirstMaximum.better_congr _ _ admits]
  rw [same] at hx
  cases hx.symm.trans hy
  rw [run, run']

/-- What a run leaves behind, and what holds of its last state. -/
structure ChainHistory (m : ℕ) (τ : List (Transition (ChainState H) (Header H)))
    (s : ChainState H) : Prop where
  wellFormed : s.WellFormed m
  permanent : ∀ t ∈ τ, ∀ h ∈ t.post.aux.ignoredChains, h ∈ s.aux.ignoredChains
  evidence : ∀ t ∈ τ, ∀ h ∈ t.post.aux.ignoredChains, h ∉ t.pre.aux.ignoredChains →
    ∃ d, t.post.HasDepth t.pre.client.bestHash h d ∧ d > m
  forksFarBelow : (∀ t ∈ τ, KeepsHeight m t) → s.ForksFarBelow m

theorem ChainHistory.step {τ : List (Transition (ChainState H) (Header H))} {s s' : ChainState H}
    {x : Header H} {m : ℕ} (history : ChainHistory m τ s)
    (step : (chainMachine H m).step s x s') : ChainHistory m (τ ++ [⟨s, x, s'⟩]) s' := by
  obtain ⟨n, b, tree, hb, ok, -, listed⟩ := chainMachine_step history.wellFormed step
  refine ⟨ok, ?_, ?_, ?_⟩
  · refine forall_mem_snoc ?_ fun h hh => hh
    exact fun t earlier h hh => (listed h).mpr (.inl (history.permanent t earlier h hh))
  · refine forall_mem_snoc history.evidence fun h hh fresh => ?_
    obtain ⟨⟨⟨y, hy⟩, -⟩, deep⟩ := ((listed h).mp hh).resolve_left fresh
    have hb' : (s.client.tree.extend n).header s.client.bestHash = some b :=
      HeaderTree.header_extend_of_some hb
    obtain ⟨f, hf⟩ := HeaderTree.exists_reorgDepth (b := b)
      (by rwa [HeaderTree.stored_hash hb']) hy
    refine ⟨_, ⟨b, y, f, ?_⟩, deep⟩
    dsimp only
    rw [tree]
    exact ⟨hb', hy, hf⟩
  · intro keeps
    have far := history.forksFarBelow fun t ht => keeps t (List.mem_append_left _ ht)
    exact far.step history.wellFormed step
      (keeps _ (List.mem_append_right _ (List.mem_singleton_self _)))

theorem ChainHistory.of_run {τ : List (Transition (ChainState H) (Header H))} {s : ChainState H}
    {m : ℕ} (run : Run (chainMachine H m) τ s) : ChainHistory m τ s := by
  refine run.history ?_ ?_
  · intro s init
    obtain ⟨best, hm, empty⟩ := init
    refine ⟨⟨best, hm, ?_⟩, ?_, ?_, fun _ => ?_⟩
    · simp [empty]
    · intro t ht
      cases ht
    · intro t ht
      cases ht
    · simp [ChainState.ForksFarBelow, empty]
  · intro τ s x s' _ history step
    exact history.step step

/-- Ignoring is for good, and rests on a depth beyond the limit at the time.
In a run that keeps the height the depth stays beyond the limit, and the next
choice is the one an empty list would give. -/
theorem ignoredChains_of_run {τ : List (Transition (ChainState H) (Header H))}
    {s : ChainState H} {m : ℕ} (run : Run (chainMachine H m) τ s) :
    (∀ t ∈ τ, ∀ h ∈ t.post.aux.ignoredChains, h ∈ s.aux.ignoredChains) ∧
    (∀ t ∈ τ, ∀ h ∈ t.post.aux.ignoredChains, h ∉ t.pre.aux.ignoredChains →
      ∃ d, t.post.HasDepth t.pre.client.bestHash h d ∧ d > m) ∧
    ((∀ t ∈ τ, KeepsHeight m t) →
      (∀ h ∈ s.aux.ignoredChains, ∃ d, s.HasDepth s.client.bestHash h d ∧ d > m) ∧
      ∀ n l hl, (exec (bestChain (s.client.addBlock n l hl)) s.aux).1 =
        (exec (bestChain (s.client.addBlock n l hl)) { s.aux with ignoredChains := ∅ }).1) := by
  have history := ChainHistory.of_run run
  obtain ⟨⟨b, hb⟩, hm, known⟩ := history.wellFormed
  have hb' : s.client.tree.header b.hash = some b := by
    rwa [HeaderTree.stored_hash hb]
  refine ⟨history.permanent, history.evidence, fun keeps => ?_⟩
  have deep : ∀ h ∈ s.aux.ignoredChains, s.client.tree.reorgDepth b h > m :=
    fun h hh => (history.forksFarBelow keeps).reorgDepth history.wellFormed hb hh
  constructor
  · intro h hh
    obtain ⟨x, hx⟩ := known h hh
    obtain ⟨f, hf⟩ := HeaderTree.exists_reorgDepth hb' hx
    exact ⟨_, ⟨b, x, f, hb, hx, hf⟩, deep h hh⟩
  · intro n l hl
    refine bestChain_forget (c := s.client.addBlock n l hl) s.aux
      (HeaderTree.header_extend_of_some hb) hm ?_
    intro h hh
    obtain ⟨x, hx⟩ := known h hh
    change (s.client.tree.extend n).reorgDepth b h > m
    rw [HeaderTree.reorgDepth_extend hb' hx]
    exact deep h hh

namespace Sample

def chainState (blocks : List (Header ℕ)) (best : ℕ) (ignored : Finset ℕ) : ChainState ℕ :=
  ⟨client (tree blocks) best (fun h => [0, 0, 20, 30, 40, 1, 50].getD h 0) 2, ⟨ignored, ∅⟩⟩

/-- Three blocks on genesis, and a leaf beside them that is too deep. -/
def deepFork : List (Header ℕ) := [block 1 2 1, block 2 3 2, block 3 4 3, block 1 5 1]

def deepForkImports : List (Transition (ChainState ℕ) (Header ℕ)) :=
  [⟨chainState [] 1 ∅, block 1 2 1, chainState [block 1 2 1] 2 ∅⟩,
    ⟨chainState [block 1 2 1] 2 ∅, block 2 3 2, chainState [block 1 2 1, block 2 3 2] 3 ∅⟩,
    ⟨chainState [block 1 2 1, block 2 3 2] 3 ∅, block 3 4 3,
      chainState [block 1 2 1, block 2 3 2, block 3 4 3] 4 ∅⟩,
    ⟨chainState [block 1 2 1, block 2 3 2, block 3 4 3] 4 ∅, block 1 5 1,
      chainState deepFork 4 {5}⟩]

theorem deepForkImports_run :
    Run (chainMachine ℕ 2) deepForkImports (chainState deepFork 4 {5}) := by
  have start : Run (chainMachine ℕ 2) [] (chainState [] 1 ∅) :=
    .start ⟨⟨block 0 1 0, by rfl⟩, fun _ => rfl, rfl⟩
  have first : Run (chainMachine ℕ 2) _ (chainState [block 1 2 1] 2 ∅) :=
    start.extend (l := block 1 2 1)
    ⟨⟨block 1 2 1, by rfl, by decide, ⟨_, rfl, rfl⟩⟩, _, HeaderTree.mem_leafList _, block 1 2 1,
      rfl, by rfl, by rfl⟩
  have second : Run (chainMachine ℕ 2) _ (chainState [block 1 2 1, block 2 3 2] 3 ∅) :=
    first.extend (l := block 2 3 2)
    ⟨⟨block 2 3 2, by rfl, by decide, ⟨_, rfl, rfl⟩⟩, _, HeaderTree.mem_leafList _, block 2 3 2,
      rfl, by rfl, by rfl⟩
  have third : Run (chainMachine ℕ 2) _
      (chainState [block 1 2 1, block 2 3 2, block 3 4 3] 4 ∅) :=
    second.extend (l := block 3 4 3)
    ⟨⟨block 3 4 3, by rfl, by decide, ⟨_, rfl, rfl⟩⟩, _, HeaderTree.mem_leafList _, block 3 4 3,
      rfl, by rfl, by rfl⟩
  exact third.extend (l := block 1 5 1)
    ⟨⟨block 1 5 1, by rfl, by decide, ⟨_, rfl, rfl⟩⟩, _, HeaderTree.mem_leafList _, block 3 4 3,
      rfl, by rfl, by rfl⟩

/-- A heavier third block leaves the best chain as long as it is. -/
def keepingImport : Transition (ChainState ℕ) (Header ℕ) :=
  ⟨chainState deepFork 4 {5}, block 3 6 3, chainState (deepFork ++ [block 3 6 3]) 6 {5}⟩

theorem keepingImport_run :
    Run (chainMachine ℕ 2) (deepForkImports ++ [keepingImport]) keepingImport.post := by
  have step : (chainMachine ℕ 2).step (chainState deepFork 4 {5}) (block 3 6 3)
      (chainState (deepFork ++ [block 3 6 3]) 6 {5}) := by
    refine ⟨⟨block 3 6 3, by rfl, by decide, ⟨_, rfl, rfl⟩⟩, _, HeaderTree.mem_leafList _,
      block 3 6 3, rfl, ?_, ?_⟩
    · rfl
    · rfl
  exact deepForkImports_run.extend step

theorem keepingImport_keepsHeight :
    ∀ t ∈ deepForkImports ++ [keepingImport], KeepsHeight 2 t := by
  have unchanged : ∀ t : Transition (ChainState ℕ) (Header ℕ),
      t.pre.client.tree.number t.pre.client.bestHash ≤
        t.post.client.tree.number t.post.client.bestHash →
      t.post.aux.ignoredChains ⊆ t.pre.aux.ignoredChains → KeepsHeight 2 t :=
    fun t height same => ⟨height, fun h hh fresh => absurd (same hh) fresh⟩
  simp only [deepForkImports, keepingImport, List.cons_append, List.nil_append,
    List.forall_mem_cons]
  refine ⟨unchanged _ (by decide) (by decide), unchanged _ (by decide) (by decide),
    unchanged _ (by decide) (by decide), ⟨by decide, ?_⟩, unchanged _ (by decide) (by decide),
    fun t none => nomatch none⟩
  intro h hh fresh f meet
  cases Finset.mem_singleton.1 hh
  have depth := HeaderTree.reorgDepth_of_meet (t := (chainState deepFork 4 {5}).client.tree)
    (b := block 3 4 3) (x := block 1 5 1) (by rfl) (by rfl) meet
  have three : (chainState deepFork 4 {5}).client.tree.reorgDepth (block 3 4 3) 5 = 3 := by decide
  have best : (chainState deepFork 4 {5}).client.tree.number 4 = 3 := by decide
  have other : (chainState deepFork 4 {5}).client.tree.number 5 = 1 := by decide
  have number : (block 3 4 3).number = 3 := rfl
  rw [three, other, number] at depth
  change (chainState deepFork 4 {5}).client.tree.number f + 2 <
    (chainState deepFork 4 {5}).client.tree.number 4
  rw [best]
  omega

/-- A heavier second block makes the best chain shorter. -/
theorem shortening_run : Run (chainMachine ℕ 2)
    (deepForkImports ++ [⟨chainState deepFork 4 {5}, block 2 6 2,
      chainState (deepFork ++ [block 2 6 2]) 6 {5}⟩])
    (chainState (deepFork ++ [block 2 6 2]) 6 {5}) :=
  deepForkImports_run.extend
    ⟨⟨block 2 6 2, by rfl, by decide, ⟨_, rfl, rfl⟩⟩, _, HeaderTree.mem_leafList _, block 2 6 2,
      rfl, by rfl, by rfl⟩

end Sample

open Sample

/-- After the switch the ignored leaf is as far away as before, and the list decides nothing. -/
theorem ignoredChains_of_run_keepsHeight :
    (∀ t ∈ deepForkImports, ∀ h ∈ t.post.aux.ignoredChains, h ∈ ({5} : Finset ℕ)) ∧
      (∃ d, keepingImport.post.HasDepth 6 5 d ∧ d > 2) ∧
      ∀ n l hl, (exec (bestChain (keepingImport.post.client.addBlock n l hl)) ⟨{5}, ∅⟩).1 =
        (exec (bestChain (keepingImport.post.client.addBlock n l hl)) ⟨∅, ∅⟩).1 := by
  obtain ⟨permanent, -, kept⟩ := ignoredChains_of_run keepingImport_run
  obtain ⟨deep, forgets⟩ := kept keepingImport_keepsHeight
  refine ⟨fun t ht => permanent t (List.mem_append_left _ ht), ?_, forgets⟩
  exact deep 5 (by decide)

/-- The last switch makes the chain shorter, and the ignored leaf is within the
limit of two again. -/
theorem ignoredChains_within_limit : ∃ τ s, Run (chainMachine ℕ 2) τ s ∧
    5 ∈ s.aux.ignoredChains ∧ s.HasDepth s.client.bestHash 5 2 :=
  ⟨_, _, shortening_run, by decide, block 2 6 2, block 1 5 1, 1, by decide, by decide,
    by decide⟩

end Resonance
