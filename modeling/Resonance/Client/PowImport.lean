import Resonance.Client.BestChain

/-!
`PowBlockImport::import_block`, with the `QPowAlgorithm` a node gives it.

The inner block import is the client's and is not modelled: the result is the
block handed to it, with the fork choice and the auxiliary data the import
decided on. Inherent checks and the two runtime calls of the algorithm are
parameters. The algorithm's panic on a seal that is not 64 bytes long is an
error value of its own.
-/
namespace Resonance
open Storage

abbrev Seal := List UInt8

/-- The errors of the proof-of-work crate this path can give, and its panic. -/
inductive PowError (H : Type)
  | wrongEngine (id : ConsensusEngineId)
  | headerUnsealed (hash : H)
  | invalidSeal
  | failedPreliminaryVerify
  | createInherents
  | checkInherents
  | checkInherentsUnknownError (identifier : List UInt8)
  | multiplePreRuntimeDigests
  | runtime (text : String)
  | panic (text : String)
deriving DecidableEq

inductive ImportError (H : Type)
  | chainLookup (e : ConsensusError H)
  | clientImport (e : PowError H)
  | noIntermediate
deriving DecidableEq

structure PowAlgorithm (H : Type) where
  difficulty : H → Except (PowError H) ℕ
  /-- `none` says the algorithm has no preliminary check, the trait's default. -/
  preliminaryVerify : (preHash : H) → (rawSeal : Seal) → Except (PowError H) (Option Bool) :=
    fun _ _ => .ok none
  breakTie : (ownSeal newSeal : Seal) → Bool
  verify : (parent preHash : H) → (preDigest : Option (List UInt8)) → (rawSeal : Seal) →
    (difficulty : ℕ) → Except (PowError H) Bool

inductive ForkChoiceStrategy
  | longestChain
  | custom (best : Bool)
deriving DecidableEq

structure BlockImportParams (H : Type) where
  header : Header H
  postDigests : List DigestItem
  body : Option (List (List UInt8))
  skipExecutionChecks : Bool
  /-- The `PowIntermediate` under `INTERMEDIATE_KEY`: its difficulty. -/
  intermediate : Option (Option ℕ)
  auxiliary : List (H × PowAux)
  forkChoice : Option ForkChoiceStrategy
  postHash : Option H
deriving DecidableEq

structure PowBlockImport (H : Type) where
  algorithm : PowAlgorithm H
  checkInherentsAfter : ℕ
  /-- Creating the inherent data and the runtime's `check_inherents` at a block. -/
  runtimeCheckInherents : Header H → List (List UInt8) → H → Except (PowError H) PUnit

/-- The saturating addition of `U512`. -/
def increment (total other : ℕ) : ℕ := min (total + other) (2 ^ 512 - 1)

variable {H : Type}

def BlockImportParams.postHeader (block : BlockImportParams H) : Header H :=
  { block.header with digest := block.header.digest ++ block.postDigests }

def fetchSeal (digest : Option DigestItem) (hash : H) : Except (PowError H) Seal :=
  match digest with
  | some (.seal id rawSeal) => if id = POW_ENGINE_ID then .ok rawSeal else .error (.wrongEngine id)
  | _ => .error (.headerUnsealed hash)

/-- The loop of `find_pre_digest` over the logs. -/
def findPreDigestIn (H : Type) : (logs : List DigestItem) → (preDigest : Option (List UInt8)) →
    Except (PowError H) (Option (List UInt8))
  | [], preDigest => .ok preDigest
  | .preRuntime id v :: logs, preDigest =>
      if id = POW_ENGINE_ID then
        if preDigest.isSome then .error .multiplePreRuntimeDigests
        else findPreDigestIn H logs (some v)
      else findPreDigestIn H logs preDigest
  | _ :: logs, preDigest => findPreDigestIn H logs preDigest

def findPreDigest (header : Header H) : Except (PowError H) (Option (List UInt8)) :=
  findPreDigestIn H header.digest none

def PowBlockImport.checkInherents (pow : PowBlockImport H) (header : Header H)
    (body : List (List UInt8)) (atHash : H) : Except (PowError H) PUnit :=
  if header.number < pow.checkInherentsAfter then .ok ⟨⟩
  else pow.runtimeCheckInherents header body atHash

def ofPow {σ α : Type} (r : Except (PowError H) α) : Storage (ImportError H) σ α :=
  ofResult (r.mapError .clientImport)

theorem ofPow_bind_ok_iff {σ α β : Type} {r : Except (PowError H) α}
    {f : α → Storage (ImportError H) σ β} {s s' : σ} {b : β} :
    exec (ofPow r >>= f) s = (.ok b, s') ↔ ∃ a, r = .ok a ∧ exec (f a) s = (.ok b, s') := by
  simp only [ofPow]
  rw [ofResult_bind_ok_iff]
  cases r <;> simp [Except.mapError]

variable [DecidableEq H]

def PowAux.read (aux : AuxStore H) (hash : H) : PowAux :=
  (aux.powAux.lookup hash).getD ⟨0, 0⟩

/-- The store once the client has written a block's auxiliary data. -/
def AuxStore.commit (aux : AuxStore H) (auxiliary : List (H × PowAux)) : AuxStore H :=
  { aux with powAux := auxiliary.foldl (fun m e => m.insert e.1 e.2) aux.powAux }

@[simp] theorem AuxStore.commit_ignoredChains (aux : AuxStore H) (l : List (H × PowAux)) :
    (aux.commit l).ignoredChains = aux.ignoredChains := rfl

theorem AuxStore.read_commit_append (aux : AuxStore H) (l : List (H × PowAux)) (h : H)
    (v : PowAux) : PowAux.read (aux.commit (l ++ [(h, v)])) h = v := by
  simp [PowAux.read, AuxStore.commit]

variable [Inhabited H] [HeaderHash H]

def BlockImportParams.getPostHash (block : BlockImportParams H) : H :=
  block.postHash.getD block.postHeader.hash

def isBetter (algorithm : PowAlgorithm H) (aux bestAux : PowAux) (bestHeader : Header H)
    (innerSeal : Seal) : Except (PowError H) Bool :=
  match compare aux.totalDifficulty bestAux.totalDifficulty with
  | .lt => .ok false
  | .gt => .ok true
  | .eq => do
      let bestInnerSeal ← fetchSeal bestHeader.digest.getLast? bestHeader.hash
      .ok (algorithm.breakTie bestInnerSeal innerSeal)

def importBlock (pow : PowBlockImport H) (c : Client H) (block : BlockImportParams H) :
    Storage (ImportError H) (AuxStore H) (BlockImportParams H) := do
  let bestHeader ← mapError .chainLookup (bestChain c)
  let bestHash := bestHeader.hash
  let parentHash := block.header.parentHash
  let store ← get
  let bestAux := PowAux.read store bestHash
  let parentAux := PowAux.read store parentHash
  ofPow (match block.body with
    | some innerBody =>
        if block.skipExecutionChecks then .ok ⟨⟩
        else pow.checkInherents block.header innerBody parentHash
    | none => .ok ⟨⟩)
  let innerSeal ← ofPow (fetchSeal block.postDigests.getLast? block.header.hash)
  let intermediate ← okOr block.intermediate .noIntermediate
  let difficulty ← ofPow (match intermediate with
    | some difficulty => .ok difficulty
    | none => pow.algorithm.difficulty parentHash)
  let preHash := block.header.hash
  let preDigest ← ofPow (findPreDigest block.header)
  let valid ← ofPow (pow.algorithm.verify parentHash preHash preDigest innerSeal difficulty)
  ensure (valid = true) (.clientImport .invalidSeal)
  let aux : PowAux := ⟨difficulty, increment parentAux.totalDifficulty difficulty⟩
  let block := { block with
    intermediate := none
    auxiliary := block.auxiliary ++ [(block.getPostHash, aux)] }
  match block.forkChoice with
  | some _ => pure block
  | none => do
      let better ← ofPow (isBetter pow.algorithm aux bestAux bestHeader innerSeal)
      pure { block with forkChoice := some (.custom better) }

/-- The two runtime calls `QPowAlgorithm` makes; `none` is an API error. -/
structure QPoWApi (H : Type) where
  getDifficulty : (parent : H) → Option ℕ
  verifyForImport : (parent preHash : H) → (nonce : Vector UInt8 64) → Option Bool

/-- `QPowAlgorithm`; it keeps the trait's `preliminary_verify` and `break_tie`. -/
def QPowAlgorithm (api : QPoWApi H) : PowAlgorithm H where
  difficulty parent := match api.getDifficulty parent with
    | some difficulty => .ok difficulty
    | none => .error (.runtime "Failed to fetch difficulty")
  breakTie _ _ := false
  verify parent preHash _ rawSeal _ :=
    if h : rawSeal.toArray.size = 64 then
      match api.verifyForImport parent preHash ⟨rawSeal.toArray, h⟩ with
      | some valid => .ok valid
      | none => .error (.runtime "API error in verify_nonce")
    else .error (.panic "Vec<u8> does not have exactly 64 elements")

def importedAux (aux : AuxStore H) (block : BlockImportParams H) (difficulty : ℕ) : PowAux :=
  ⟨difficulty, increment (PowAux.read aux block.header.parentHash).totalDifficulty difficulty⟩

/-- What a block handed to the inner import has passed, and what it carries. -/
structure Imported (pow : PowBlockImport H) (c : Client H) (block out : BlockImportParams H)
    (aux aux' : AuxStore H) (best : Header H) (innerSeal : Seal) (difficulty : ℕ) : Prop where
  chain : exec (bestChain c) aux = (.ok best, aux')
  sealed : fetchSeal block.postDigests.getLast? block.header.hash = .ok innerSeal
  charged : block.intermediate = some (some difficulty) ∨
    block.intermediate = some none ∧
      pow.algorithm.difficulty block.header.parentHash = .ok difficulty
  verified : ∃ preDigest, findPreDigest block.header = .ok preDigest ∧
    pow.algorithm.verify block.header.parentHash block.header.hash preDigest innerSeal difficulty =
      .ok true
  auxiliary : out.auxiliary =
    block.auxiliary ++ [(block.getPostHash, importedAux aux' block difficulty)]
  forkChoice : block.forkChoice = none → ∃ better,
    isBetter pow.algorithm (importedAux aux' block difficulty) (PowAux.read aux' best.hash) best
        innerSeal = .ok better ∧ out.forkChoice = some (.custom better)

theorem importBlock_ok {pow : PowBlockImport H} {c : Client H} {block out : BlockImportParams H}
    {aux aux' : AuxStore H} (run : exec (importBlock pow c block) aux = (.ok out, aux')) :
    ∃ best innerSeal difficulty, Imported pow c block out aux aux' best innerSeal difficulty := by
  simp only [importBlock] at run
  obtain ⟨best, s₁, chain, run⟩ := bind_ok_iff.mp run
  rw [mapError_ok_iff] at chain
  simp only [exec_get_bind] at run
  rw [ofPow_bind_ok_iff] at run
  obtain ⟨-, -, run⟩ := run
  rw [ofPow_bind_ok_iff] at run
  obtain ⟨innerSeal, sealed, run⟩ := run
  rw [okOr_bind_ok_iff] at run
  obtain ⟨intermediate, stored, run⟩ := run
  rw [ofPow_bind_ok_iff] at run
  obtain ⟨difficulty, taken, run⟩ := run
  rw [ofPow_bind_ok_iff] at run
  obtain ⟨preDigest, found, run⟩ := run
  rw [ofPow_bind_ok_iff] at run
  obtain ⟨valid, verified, run⟩ := run
  obtain ⟨accepted, run⟩ := ensure_bind_ok_iff.mp run
  rw [accepted] at verified
  have charged : block.intermediate = some (some difficulty) ∨ block.intermediate = some none ∧
      pow.algorithm.difficulty block.header.parentHash = .ok difficulty := by
    rw [stored]
    cases intermediate with
    | some d =>
        cases taken
        exact .inl rfl
    | none => exact .inr ⟨rfl, taken⟩
  cases chosen : block.forkChoice with
  | some strategy =>
      rw [chosen] at run
      cases run
      refine ⟨best, innerSeal, difficulty, chain, sealed, charged, ⟨preDigest, found, verified⟩,
        rfl, ?_⟩
      intro none
      rw [chosen] at none
      cases none
  | none =>
      rw [chosen] at run
      obtain ⟨better, decided, run⟩ := ofPow_bind_ok_iff.mp run
      cases run
      exact ⟨best, innerSeal, difficulty, chain, sealed, charged, ⟨preDigest, found, verified⟩,
        rfl, fun _ => ⟨better, decided, rfl⟩⟩

end Resonance
