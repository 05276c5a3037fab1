import Resonance.Client.PowVerifier
import Resonance.QPow.Verification

/-!
The client's total difficulty and the runtime's total work.

A node imports a tree of blocks. For each one the client adds the difficulty of
the parent's state to the parent's total, and the runtime, executing the block on
that state, adds the work it finds when it finalises the block. The two add the
same numbers: once a block with a positive timestamp has been finalised `on_idle`
leaves the threshold alone, and in the first block it writes what genesis wrote.
The client starts from nothing and the runtime from one.
-/
namespace Resonance
open Storage MachineInt StateMachine
variable {H : Type}

structure StoredBlock (H : Type) where
  parent : Option H
  post : QPow.Chain

structure Node (H : Type) where
  blocks : H → Option (StoredBlock H)
  aux : AuxStore H

/-- One import: what the node passes to `import_block` for it, and the block as
the runtime executes it. -/
structure NodeImport (H : Type) [DecidableEq H] [Inhabited H] [HeaderHash H] where
  pow : PowBlockImport H
  client : Client H
  block : BlockImportParams H
  executed : QPow.ExecutedBlock

section
variable (cfg : QPow.Config) (hashing : QPow.Hashing) (toBytes : H → Vector UInt8 32)

/-- The runtime as the client calls it, in the state after each stored block. -/
def Node.runtime (node : Node H) : QPoWRuntime H where
  cfg := cfg
  hashing := hashing
  toBytes := toBytes
  states h := (node.blocks h).map fun b => b.post.state

variable [DecidableEq H] [Inhabited H] [HeaderHash H]

/-- The block brings no difficulty of its own, or the one of its parent's state. -/
def ChargesParent (api : QPoWApi H) (block : BlockImportParams H) : Prop :=
  block.intermediate = some none ∨
    ∃ difficulty, block.intermediate = some (some difficulty) ∧
      api.getDifficulty block.header.parentHash = some difficulty

def nodeMachine : Machine (Node H) (NodeImport H) where
  init node := node.aux.powAux = ∅ ∧ ∃ genesisHash, ∀ h,
    node.blocks h = if h = genesisHash then some ⟨none, ⟨0, QPow.genesis cfg⟩⟩ else none
  step node i node' := ∃ parent post out aux',
    i.pow.algorithm = QPowAlgorithm (node.runtime cfg hashing toBytes).api ∧
    node.blocks i.block.header.parentHash = some parent ∧
    node.blocks i.block.getPostHash = none ∧
    ChargesParent (node.runtime cfg hashing toBytes).api i.block ∧
    i.block.auxiliary = [] ∧
    exec (importBlock i.pow i.client i.block) node.aux = (.ok out, aux') ∧
    i.executed.number = i.block.header.number ∧
    (QPow.chain cfg).step parent.post i.executed post ∧
    node' = ⟨Function.update node.blocks i.block.getPostHash
      (some ⟨some i.block.header.parentHash, post⟩), aux'.commit out.auxiliary⟩

end

/-- The difficulties charged along the chain that ends in a block. -/
inductive ChainWork (cfg : QPow.Config) (node : Node H) : H → ℕ → Prop
  | genesis {h : H} {b : StoredBlock H} :
      node.blocks h = some b → b.parent = none → ChainWork cfg node h 0
  | child {h p : H} {b q : StoredBlock H} {w difficulty : ℕ} :
      node.blocks h = some b → b.parent = some p → node.blocks p = some q →
      QPow.getDifficulty cfg q.post.state = .ok difficulty → ChainWork cfg node p w →
      ChainWork cfg node h (w + difficulty)

variable {cfg : QPow.Config}

theorem ChainWork.unique {node : Node H} {h : H} {w w' : ℕ} (work : ChainWork cfg node h w)
    (work' : ChainWork cfg node h w') : w = w' := by
  induction work generalizing w' with
  | genesis stored root =>
      cases work' with
      | genesis => rfl
      | child stored' parent =>
          rw [stored] at stored'
          cases stored'
          rw [root] at parent
          cases parent
  | child stored parent known difficulty _ ih =>
      cases work' with
      | genesis stored' root =>
          rw [stored] at stored'
          cases stored'
          rw [parent] at root
          cases root
      | child stored' parent' known' difficulty' before =>
          rw [stored] at stored'
          cases stored'
          rw [parent] at parent'
          cases parent'
          rw [known] at known'
          cases known'
          rw [difficulty] at difficulty'
          cases difficulty'
          rw [ih before]

/-- Blocks stored later are not on the chain of an earlier one. -/
theorem ChainWork.mono {node node' : Node H} {h : H} {w : ℕ} (work : ChainWork cfg node h w)
    (kept : ∀ k b, node.blocks k = some b → node'.blocks k = some b) :
    ChainWork cfg node' h w := by
  induction work with
  | genesis stored root => exact .genesis (kept _ _ stored) root
  | child stored parent known difficulty _ ih =>
      exact .child (kept _ _ stored) parent (kept _ _ known) difficulty ih

/-- The runtime charges a block what `get_difficulty` answers for its parent. -/
theorem chain_step_work {c c' : QPow.Chain} {executed : QPow.ExecutedBlock}
    (started : QPow.Started cfg c) (step : (QPow.chain cfg).step c executed c') :
    ∃ difficulty, QPow.getDifficulty cfg c.state = .ok difficulty ∧
      c'.state.totalWork = saturatingAdd 512 c.state.totalWork difficulty := by
  obtain ⟨-, -, run⟩ := step
  obtain ⟨difficulty, charged, work⟩ := (QPow.onFinalize_ok (QPow.executeBlock_ok_iff.1 run)).work
  have threshold := started.before_threshold executed
  have total : (executed.before cfg c.state).totalWork = c.state.totalWork := by
    simp only [QPow.ExecutedBlock.before]
    split
    · exact QPow.idled_totalWork
    · rfl
  rw [total] at work
  rw [QPow.getDifficulty, QPow.getDistanceThreshold, threshold] at charged
  exact ⟨difficulty, charged, work⟩

theorem getDifficulty_api_iff {runtime : QPoWRuntime H} {parent : H} {difficulty : ℕ} :
    runtime.api.getDifficulty parent = some difficulty ↔ ∃ s, runtime.states parent = some s ∧
      QPow.getDifficulty runtime.cfg s = .ok difficulty := by
  change (runtime.states parent >>= _) = _ ↔ _
  cases runtime.states parent with
  | none => simp
  | some s =>
      cases charged : QPow.getDifficulty runtime.cfg s with
      | ok d => simp [resultToOption, charged]
      | error e => simp [resultToOption, charged]

variable [DecidableEq H] [Inhabited H] [HeaderHash H]

/-- The client charges a block the difficulty of its parent's state, and writes
nothing but the block's own entry. -/
theorem importBlock_aux {runtime : QPoWRuntime H} {pow : PowBlockImport H} {c : Client H}
    {block out : BlockImportParams H} {aux aux' : AuxStore H}
    (algorithm : pow.algorithm = QPowAlgorithm runtime.api)
    (charges : ChargesParent runtime.api block) (auxiliary : block.auxiliary = [])
    (run : exec (importBlock pow c block) aux = (.ok out, aux')) :
    ∃ difficulty, runtime.api.getDifficulty block.header.parentHash = some difficulty ∧
      ∀ h, PowAux.read (aux'.commit out.auxiliary) h =
        if h = block.getPostHash then importedAux aux block difficulty else PowAux.read aux h := by
  obtain ⟨best, innerSeal, difficulty, imported⟩ := importBlock_ok run
  have same : aux'.powAux = aux.powAux := by
    have kept := bestChain_keeps_powAux c aux
    rwa [imported.chain] at kept
  have read_same : ∀ h, PowAux.read aux' h = PowAux.read aux h := fun h => by
    rw [PowAux.read, same, PowAux.read]
  refine ⟨difficulty, ?_, ?_⟩
  · rcases imported.charged with own | ⟨none, asked⟩
    · rcases charges with none | ⟨d, brought, parents⟩
      · rw [none] at own
        cases own
      · rw [own] at brought
        cases brought
        exact parents
    · rw [algorithm] at asked
      dsimp only [QPowAlgorithm] at asked
      cases answer : runtime.api.getDifficulty block.header.parentHash with
      | none =>
          rw [answer] at asked
          cases asked
      | some d =>
          rw [answer] at asked
          cases asked
          rfl
  · intro h
    rw [imported.auxiliary, auxiliary, List.nil_append]
    split
    · rename_i own
      subst own
      have written := AuxStore.read_commit_append aux' [] block.getPostHash
        (importedAux aux' block difficulty)
      rw [List.nil_append] at written
      rw [written, importedAux, importedAux, read_same]
    · rename_i other
      rw [← read_same h]
      simp [PowAux.read, AuxStore.commit, AList.lookup_insert_ne other]

structure Accounted (cfg : QPow.Config) (node : Node H) (h : H) (b : StoredBlock H) : Prop where
  started : QPow.Started cfg b.post
  work : ∃ w, ChainWork cfg node h w ∧
    (PowAux.read node.aux h).totalDifficulty = min w (maxValue 512) ∧
    b.post.state.totalWork = min (1 + w) (maxValue 512)

section
variable {hashing : QPow.Hashing} {toBytes : H → Vector UInt8 32} {node node' : Node H}
  {i : NodeImport H} {τ : List (Transition (Node H) (NodeImport H))}

theorem Accounted.step (accounted : ∀ h b, node.blocks h = some b → Accounted cfg node h b)
    (positive : 0 < i.executed.now) (step : (nodeMachine cfg hashing toBytes).step node i node') :
    ∀ h b, node'.blocks h = some b → Accounted cfg node' h b := by
  obtain ⟨parent, post, out, aux', algorithm, known, new, charges, auxiliary, run, -, executed,
    rfl⟩ := step
  obtain ⟨difficulty, answer, read⟩ := importBlock_aux algorithm charges auxiliary run
  have kept : ∀ k b, node.blocks k = some b →
      Function.update node.blocks i.block.getPostHash
        (some ⟨some i.block.header.parentHash, post⟩) k = some b := by
    intro k b stored
    rw [Function.update_of_ne ?_, stored]
    rintro rfl
    rw [new] at stored
    cases stored
  intro h b stored
  by_cases own : h = i.block.getPostHash
  · subst own
    change Function.update _ _ _ _ = _ at stored
    rw [Function.update_self, Option.some.injEq] at stored
    subst stored
    obtain ⟨started, w, work, total, totalWork⟩ := accounted _ parent known
    obtain ⟨s, state, charged⟩ := getDifficulty_api_iff.1 answer
    change (node.blocks i.block.header.parentHash).map _ = some s at state
    rw [known] at state
    cases state
    obtain ⟨difficulty', charged', added⟩ := chain_step_work started executed
    rw [show (Node.runtime cfg hashing toBytes node).cfg = cfg from rfl, charged'] at charged
    cases charged
    refine ⟨.inr ?_, w + difficulty, ?_, ?_, ?_⟩
    · rw [(QPow.onFinalize_ok (QPow.executeBlock_ok_iff.1 executed.2.2)).time]
      exact positive.ne'
    · exact .child (Function.update_self _ _ _) rfl (kept _ _ known) charged' (work.mono kept)
    · rw [read, if_pos rfl, importedAux, total]
      exact saturatingAdd_min 512 w difficulty
    · rw [added, totalWork, saturatingAdd_min, Nat.add_assoc]
  · change Function.update _ _ _ _ = _ at stored
    rw [Function.update_of_ne own] at stored
    obtain ⟨started, w, work, total, totalWork⟩ := accounted h b stored
    refine ⟨started, w, work.mono kept, ?_, totalWork⟩
    rw [read, if_neg own, total]

theorem Accounted.of_run (run : Run (nodeMachine cfg hashing toBytes) τ node)
    (positive : ∀ t ∈ τ, 0 < t.label.executed.now) :
    ∀ h b, node.blocks h = some b → Accounted cfg node h b := by
  refine run.guarded_history
    (P := fun _ node => ∀ h b, node.blocks h = some b → Accounted cfg node h b) ?_ ?_ positive
  · rintro node ⟨empty, genesisHash, blocks⟩ h b stored
    have read : PowAux.read node.aux h = ⟨0, 0⟩ := by
      rw [PowAux.read, empty]
      rfl
    have known := stored
    rw [blocks] at known
    split at known
    · cases known
      refine ⟨.inl rfl, 0, .genesis stored rfl, ?_, ?_⟩
      · rw [read, Nat.zero_min]
      · exact (min_eq_left (le_maxValue_iff.2 (Nat.one_lt_two_pow (by decide)))).symm
    · cases known
  · exact fun _ _ _ _ accounted now step => Accounted.step accounted now step

/-- Every stored block has a chain of charged work behind it. While that does not
saturate, the client's total and the runtime's differ by the one the runtime
starts from, so comparing one or the other orders any two chains alike. -/
theorem totals_agree_of_run (run : Run (nodeMachine cfg hashing toBytes) τ node)
    (positive : ∀ t ∈ τ, 0 < t.label.executed.now) :
    (∀ h b, node.blocks h = some b → ∃ w, ChainWork cfg node h w) ∧
    (∀ h b w, node.blocks h = some b → ChainWork cfg node h w → 1 + w ≤ maxValue 512 →
      (PowAux.read node.aux h).totalDifficulty + 1 = b.post.state.totalWork) ∧
    ∀ h b w k d v, node.blocks h = some b → node.blocks k = some d →
      ChainWork cfg node h w → ChainWork cfg node k v →
      1 + w ≤ maxValue 512 → 1 + v ≤ maxValue 512 →
      compare (PowAux.read node.aux h).totalDifficulty (PowAux.read node.aux k).totalDifficulty =
        compare b.post.state.totalWork d.post.state.totalWork := by
  have accounted := Accounted.of_run run positive
  have agree : ∀ h b w, node.blocks h = some b → ChainWork cfg node h w → 1 + w ≤ maxValue 512 →
      (PowAux.read node.aux h).totalDifficulty + 1 = b.post.state.totalWork := by
    intro h b w stored work small
    obtain ⟨-, w', work', total, totalWork⟩ := accounted h b stored
    rw [work'.unique work] at total totalWork
    omega
  refine ⟨?_, agree, ?_⟩
  · intro h b stored
    obtain ⟨-, w, work, -⟩ := accounted h b stored
    exact ⟨w, work⟩
  · intro h b w k d v storedH storedK workH workK smallH smallK
    rw [← agree h b w storedH workH smallH, ← agree k d v storedK workK smallK,
      ← cmp_eq_compare, ← cmp_eq_compare, cmp_add_right]

end

namespace Sample
open QPow.Mock

def startNode : Node ℕ where
  blocks h := if h = 1 then some ⟨none, start config⟩ else none
  aux := ⟨∅, ∅⟩

def importOn (node : Node ℕ) (parent hash : ℕ) (c : QPow.Chain) (now : Fin (2 ^ 64)) :
    NodeImport ℕ where
  pow := { nodeImport 0 with
    algorithm := QPowAlgorithm
      (node.runtime config genesisRuntime.hashing genesisRuntime.toBytes).api }
  client := client (tree []) 1 id 10
  block := { incoming with
    header := block parent hash (c.number + 1)
    postDigests := [.seal POW_ENGINE_ID (List.replicate 64 1)]
    postHash := some hash }
  executed := next c now

def importedOn (node : Node ℕ) (parent hash : ℕ) (c : QPow.Chain) (now : Fin (2 ^ 64)) :
    Node ℕ where
  blocks := Function.update node.blocks hash (some ⟨some parent, execute config c (next c now)⟩)
  aux :=
    match exec (importBlock (importOn node parent hash c now).pow
      (importOn node parent hash c now).client
      (importOn node parent hash c now).block) node.aux with
    | (.ok out, aux) => aux.commit out.auxiliary
    | (.error _, aux) => aux

theorem step_importedOn {node : Node ℕ} (parent hash : ℕ) {b : StoredBlock ℕ}
    (now : Fin (2 ^ 64)) (known : node.blocks parent = some b) (new : node.blocks hash = none)
    (imported : (exec (importBlock (importOn node parent hash b.post now).pow
      (importOn node parent hash b.post now).client
      (importOn node parent hash b.post now).block) node.aux).1.isOk = true)
    (executes : Executes config b.post (next b.post now)) :
    (nodeMachine config genesisRuntime.hashing genesisRuntime.toBytes).step node
      (importOn node parent hash b.post now) (importedOn node parent hash b.post now) := by
  cases ran : exec (importBlock (importOn node parent hash b.post now).pow
      (importOn node parent hash b.post now).client
      (importOn node parent hash b.post now).block) node.aux with
  | mk result aux =>
      rw [ran] at imported
      cases result with
      | error e => cases imported
      | ok out =>
          refine ⟨b, _, out, aux, rfl, known, new, .inl rfl, rfl, ran, rfl,
            step_execute executes, ?_⟩
          rw [importedOn, ran]
          rfl

def first : QPow.Chain := execute config (start config) (blockAt 1 1000)

/-- The second block corrects the threshold. -/
def second : QPow.Chain := execute config first (blockAt 2 2500)

def third : QPow.Chain := execute config second (blockAt 3 4000)

def fork : QPow.Chain := execute config (start config) (blockAt 1 1200)

/-- A node that has imported a branch of three blocks and one of a single block. -/
def forkedNode : Node ℕ :=
  importedOn (importedOn (importedOn (importedOn startNode 1 2 (start config) 1000)
    2 3 first 2500) 3 4 second 4000) 1 5 (start config) 1200

theorem forkedNode_run : ∃ τ, Run (nodeMachine config genesisRuntime.hashing
    genesisRuntime.toBytes) τ forkedNode ∧ ∀ t ∈ τ, 0 < t.label.executed.now := by
  have start : Run (nodeMachine config genesisRuntime.hashing genesisRuntime.toBytes) []
      startNode := .start ⟨rfl, 1, fun _ => rfl⟩
  have one := start.extend (step_importedOn 1 2 1000 rfl rfl
    (by decide +kernel) (by decide +kernel))
  have two := one.extend (step_importedOn 2 3 2500 rfl rfl
    (by decide +kernel) (by decide +kernel))
  have three := two.extend (step_importedOn 3 4 4000 rfl rfl
    (by decide +kernel) (by decide +kernel))
  have four := three.extend (step_importedOn 1 5 1200 rfl rfl
    (by decide +kernel) (by decide +kernel))
  refine ⟨_, four, ?_⟩
  decide

end Sample

open Sample QPow.Mock

/-- The branch of three blocks charges eleven, two quotients of the genesis threshold
and one of the corrected one; the other branch charges four. -/
theorem totals_agree_of_run_forked :
    (PowAux.read forkedNode.aux 4).totalDifficulty + 1 = third.state.totalWork ∧
      compare (PowAux.read forkedNode.aux 4).totalDifficulty
          (PowAux.read forkedNode.aux 5).totalDifficulty =
        compare third.state.totalWork fork.state.totalWork := by
  obtain ⟨τ, run, positive⟩ := forkedNode_run
  obtain ⟨-, agree, ordered⟩ := totals_agree_of_run run positive
  have genesisWork : ChainWork config forkedNode 1 0 :=
    .genesis (b := ⟨none, start config⟩) rfl rfl
  have genesisDifficulty : QPow.getDifficulty config (start config).state = .ok 4 :=
    genesis_difficulty
  have firstWork : ChainWork config forkedNode 2 (0 + 4) :=
    .child (b := ⟨some 1, first⟩) rfl rfl rfl genesisDifficulty genesisWork
  have firstDifficulty : QPow.getDifficulty config first.state = .ok 4 := by decide +kernel
  have secondWork : ChainWork config forkedNode 3 (0 + 4 + 4) :=
    .child (b := ⟨some 2, second⟩) rfl rfl rfl firstDifficulty firstWork
  have secondDifficulty : QPow.getDifficulty config second.state = .ok 3 := by decide +kernel
  have thirdWork : ChainWork config forkedNode 4 (0 + 4 + 4 + 3) :=
    .child (b := ⟨some 3, third⟩) rfl rfl rfl secondDifficulty secondWork
  have forkWork : ChainWork config forkedNode 5 (0 + 4) :=
    .child (b := ⟨some 1, fork⟩) rfl rfl rfl genesisDifficulty genesisWork
  have smallThird : 1 + (0 + 4 + 4 + 3) ≤ maxValue 512 := by decide +kernel
  have smallFork : 1 + (0 + 4) ≤ maxValue 512 := by decide +kernel
  have storedThird : forkedNode.blocks 4 = some ⟨some 3, third⟩ := rfl
  have storedFork : forkedNode.blocks 5 = some ⟨some 1, fork⟩ := rfl
  refine ⟨agree 4 ⟨some 3, third⟩ (0 + 4 + 4 + 3) storedThird thirdWork smallThird, ?_⟩
  exact ordered 4 ⟨some 3, third⟩ (0 + 4 + 4 + 3) 5 ⟨some 1, fork⟩ (0 + 4) storedThird storedFork
    thirdWork forkWork smallThird smallFork

end Resonance
