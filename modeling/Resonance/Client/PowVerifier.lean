import Resonance.Client.ForkChoice
import Resonance.QPow.Blocks

/-!
A block from the network: `PowVerifier::verify`, then
`PowBlockImport::import_block`, over the runtime's QPoW storage.

The digest is whatever the peer sent. The verifier takes the seal off its end,
the import looks for a second pre-runtime item and hands the seal to the
algorithm, which checks the nonce in the parent's state. Nobody has looked at
the length of the seal by then, and the algorithm panics on any but 64 bytes.
-/
namespace Resonance
open Storage

/-- The runtime behind a client: the QPoW storage at the end of each block, by
hash, and what its calls depend on. -/
structure QPoWRuntime (H : Type) where
  cfg : QPow.Config
  hashing : QPow.Hashing
  /-- The 32 bytes of a hash. -/
  toBytes : H → Vector UInt8 32
  states : H → Option QPow.State

/-- What the import of a block from the network ends with if it fails. -/
inductive NetworkImportError (H : Type)
  | verificationFailed (e : PowError H)
  | other (e : ImportError H)
deriving DecidableEq

variable {H : Type}

def NetworkImportError.isPanic : NetworkImportError H → Bool
  | .verificationFailed (.panic _) => true
  | .other (.clientImport (.panic _)) => true
  | _ => false

theorem isPanic_eq_false_iff {e : NetworkImportError H} :
    e.isPanic = false ↔ ∀ text, e ≠ .verificationFailed (.panic text) ∧
      e ≠ .other (.clientImport (.panic text)) := by
  constructor
  · intro h text
    constructor
    · rintro rfl
      cases h
    · rintro rfl
      cases h
  · intro h
    simp only [NetworkImportError.isPanic]
    split
    · exact absurd rfl (h _).1
    · exact absurd rfl (h _).2
    · rfl

def resultToOption {ε α : Type} : Except ε α → Option α
  | .ok a => some a
  | .error _ => none

/-- The runtime calls, made in the state of a block. -/
def QPoWRuntime.api (runtime : QPoWRuntime H) : QPoWApi H where
  getDifficulty parent := do
    let s ← runtime.states parent
    resultToOption (QPow.getDifficulty runtime.cfg s)
  verifyForImport parent preHash nonce := do
    let s ← runtime.states parent
    resultToOption
      (exec (QPow.verifyForImport runtime.hashing runtime.cfg (runtime.toBytes preHash) nonce) s).1

/-- The header once its last log is popped. -/
def Header.unsealed (header : Header H) : Header H :=
  { header with digest := header.digest.dropLast }

@[simp] theorem exec_ofPow_ok_bind {σ α β : Type} (a : α)
    (f : α → Storage (ImportError H) σ β) (s : σ) :
    exec (ofPow (.ok a : Except (PowError H) α) >>= f) s = exec (f a) s := rfl

@[simp] theorem exec_ofPow_error_bind {σ α β : Type} (e : PowError H)
    (f : α → Storage (ImportError H) σ β) (s : σ) :
    exec (ofPow (.error e : Except (PowError H) α) >>= f) s = (.error (.clientImport e), s) := rfl

theorem fetchSeal_ok_iff {digest : Option DigestItem} {hash : H} {rawSeal : Seal} :
    fetchSeal digest hash = .ok rawSeal ↔ digest = some (.seal POW_ENGINE_ID rawSeal) := by
  simp only [fetchSeal]
  split
  · rename_i id data
    by_cases engine : id = POW_ENGINE_ID
    · simp [engine]
    · simp [engine]
  · rename_i other
    constructor
    · intro h
      cases h
    · intro h
      exact absurd h (other _ _)

theorem fetchSeal_ne_panic {digest : Option DigestItem} {hash : H} {text : String} :
    fetchSeal digest hash ≠ .error (.panic text) := by
  simp only [fetchSeal]
  split
  · split
    · simp
    · simp
  · simp

theorem isBetter_ne_panic [HeaderHash H] {algorithm : PowAlgorithm H} {aux bestAux : PowAux}
    {best : Header H} {innerSeal : Seal} {text : String} :
    isBetter algorithm aux bestAux best innerSeal ≠ .error (.panic text) := by
  simp only [isBetter]
  cases compare aux.totalDifficulty bestAux.totalDifficulty with
  | lt => simp
  | gt => simp
  | eq =>
      intro panics
      cases sealed : fetchSeal best.digest.getLast? best.hash with
      | ok innerSeal =>
          rw [sealed] at panics
          cases panics
      | error e =>
          rw [sealed] at panics
          cases panics
          exact fetchSeal_ne_panic sealed

/-- The pre-runtime items of the proof-of-work engine. -/
def powPreRuntimes (digest : List DigestItem) : List DigestItem :=
  digest.filter fun
    | .preRuntime id _ => id = POW_ENGINE_ID
    | _ => false

theorem findPreDigestIn_ok_iff {logs : List DigestItem} {preDigest : Option (List UInt8)} :
    (∃ found, findPreDigestIn H logs preDigest = .ok found) ↔
      (powPreRuntimes logs).length + (if preDigest.isSome then 1 else 0) ≤ 1 := by
  induction logs generalizing preDigest with
  | nil => cases preDigest <;> simp [findPreDigestIn, powPreRuntimes]
  | cons log logs ih =>
      cases log with
      | preRuntime id v =>
          by_cases engine : id = POW_ENGINE_ID
          · cases preDigest with
            | none =>
                have further := @ih (some v)
                simpa [findPreDigestIn, engine, powPreRuntimes] using further
            | some w => simp [findPreDigestIn, engine, powPreRuntimes]
          · simp only [findPreDigestIn, engine, ↓reduceIte, ih]
            simp [powPreRuntimes, engine]
      | _ => exact ih

theorem findPreDigestIn_error {logs : List DigestItem} {preDigest : Option (List UInt8)}
    {e : PowError H} (h : findPreDigestIn H logs preDigest = .error e) :
    e = .multiplePreRuntimeDigests := by
  induction logs generalizing preDigest with
  | nil => cases h
  | cons log logs ih =>
      cases log with
      | preRuntime id v =>
          simp only [findPreDigestIn] at h
          split at h
          · split at h
            · cases h
              rfl
            · exact ih h
          · exact ih h
      | _ => exact ih h

/-- The seal popped off the end is none of them. -/
theorem powPreRuntimes_unsealed {header : Header H} {innerSeal : Seal}
    (last : header.digest.getLast? = some (.seal POW_ENGINE_ID innerSeal)) :
    powPreRuntimes header.unsealed.digest = powPreRuntimes header.digest := by
  obtain ⟨logs, digest⟩ := List.getLast?_eq_some_iff.1 last
  simp [Header.unsealed, digest, powPreRuntimes]

theorem findPreDigest_unsealed_ok_iff {header : Header H} {innerSeal : Seal}
    (last : header.digest.getLast? = some (.seal POW_ENGINE_ID innerSeal)) :
    (∃ preDigest, findPreDigest header.unsealed = .ok preDigest) ↔
      (powPreRuntimes header.digest).length ≤ 1 := by
  rw [← powPreRuntimes_unsealed last]
  exact findPreDigestIn_ok_iff

section
variable {runtime : QPoWRuntime H} {parent preHash : H} {preDigest : Option (List UInt8)}
  {difficulty : ℕ}

theorem algorithm_verify_nonce {s : QPow.State} (state : runtime.states parent = some s)
    (nonce : Vector UInt8 64) :
    (QPowAlgorithm runtime.api).verify parent preHash preDigest nonce.toList difficulty =
      .ok (QPow.isValidNonce runtime.hashing (runtime.toBytes preHash) nonce
        (QPow.getDistanceThreshold runtime.cfg s)) := by
  have size : nonce.toList.toArray.size = 64 := by simp
  have same : (⟨nonce.toList.toArray, size⟩ : Vector UInt8 64) = nonce := by
    apply Vector.toList_inj.1
    simp
  simp only [QPowAlgorithm, size, ↓reduceDIte, QPoWRuntime.api, state, same]
  simp [QPow.exec_verifyForImport, resultToOption]

theorem algorithm_verify_panics {rawSeal : Seal} (length : rawSeal.length ≠ 64) :
    (QPowAlgorithm runtime.api).verify parent preHash preDigest rawSeal difficulty =
      .error (.panic "Vec<u8> does not have exactly 64 elements") := by
  have size : rawSeal.toArray.size ≠ 64 := by
    rwa [List.size_toArray]
  simp only [QPowAlgorithm, size, ↓reduceDIte]

end

variable [HeaderHash H]

def checkHeader (algorithm : PowAlgorithm H) (header : Header H) :
    Except (PowError H) (Header H × DigestItem) := do
  let hash := header.hash
  -- the verifier's own match on the popped log, branch for branch `fetch_seal`
  let innerSeal ← fetchSeal header.digest.getLast? hash
  let preHash := header.unsealed.hash
  let preliminary ← algorithm.preliminaryVerify preHash innerSeal
  if preliminary.getD true then return (header.unsealed, .seal POW_ENGINE_ID innerSeal)
  else throw .failedPreliminaryVerify

/-- `PowVerifier::verify`. -/
def verify (algorithm : PowAlgorithm H) (block : BlockImportParams H) :
    Except (PowError H) (BlockImportParams H) := do
  let hash := block.header.hash
  let (checkedHeader, rawSeal) ← checkHeader algorithm block.header
  return { block with
    header := checkedHeader
    postDigests := block.postDigests ++ [rawSeal]
    intermediate := some none
    postHash := some hash }

/-- The block the verifier passes on. -/
def BlockImportParams.verified (block : BlockImportParams H) (innerSeal : Seal) :
    BlockImportParams H :=
  { block with
    header := block.header.unsealed
    postDigests := block.postDigests ++ [.seal POW_ENGINE_ID innerSeal]
    intermediate := some none
    postHash := some block.header.hash }

theorem checkHeader_ok_iff {api : QPoWApi H} {header : Header H} {checked : Header H × DigestItem} :
    checkHeader (QPowAlgorithm api) header = .ok checked ↔
      ∃ innerSeal, header.digest.getLast? = some (.seal POW_ENGINE_ID innerSeal) ∧
        (header.unsealed, .seal POW_ENGINE_ID innerSeal) = checked := by
  simp only [checkHeader, MachineInt.bind_eq_ok_iff, fetchSeal_ok_iff]
  refine exists_congr fun innerSeal => and_congr_right fun _ => ?_
  simp [QPowAlgorithm, pure, Except.pure]

theorem verify_ok_iff {api : QPoWApi H} {block verified : BlockImportParams H} :
    verify (QPowAlgorithm api) block = .ok verified ↔
      ∃ innerSeal, block.header.digest.getLast? = some (.seal POW_ENGINE_ID innerSeal) ∧
        block.verified innerSeal = verified := by
  simp only [verify, MachineInt.bind_eq_ok_iff, checkHeader_ok_iff]
  constructor
  · rintro ⟨_, ⟨innerSeal, last, rfl⟩, passed⟩
    cases passed
    exact ⟨innerSeal, last, rfl⟩
  · rintro ⟨innerSeal, last, rfl⟩
    exact ⟨_, ⟨innerSeal, last, rfl⟩, rfl⟩

theorem verify_error {api : QPoWApi H} {block : BlockImportParams H}
    (unsealed : ∀ innerSeal,
      block.header.digest.getLast? ≠ some (.seal POW_ENGINE_ID innerSeal)) :
    ∃ e, verify (QPowAlgorithm api) block = .error e ∧ ∀ text, e ≠ .panic text := by
  cases sealed : fetchSeal block.header.digest.getLast? block.header.hash with
  | error e =>
      refine ⟨e, ?_, ?_⟩
      · simp only [verify, checkHeader, sealed]
        rfl
      · rintro text rfl
        exact fetchSeal_ne_panic sealed
  | ok innerSeal => exact absurd (fetchSeal_ok_iff.1 sealed) (unsealed innerSeal)

/-- A header a node can import: its seal holds a nonce valid in the parent's
state for the unsealed header. -/
def Acceptable (runtime : QPoWRuntime H) (header : Header H) : Prop :=
  ∃ (s : QPow.State) (nonce : Vector UInt8 64),
    runtime.states header.parentHash = some s ∧
    header.digest.getLast? = some (.seal POW_ENGINE_ID nonce.toList) ∧
    (powPreRuntimes header.digest).length ≤ 1 ∧
    QPow.isValidNonce runtime.hashing (runtime.toBytes header.unsealed.hash) nonce
      (QPow.getDistanceThreshold runtime.cfg s) = true

/-- The block is handed to the inner import only if it is acceptable, and
refused with an error otherwise. -/
def SafeOutcome (runtime : QPoWRuntime H) (header : Header H) :
    Except (NetworkImportError H) (BlockImportParams H) → Prop
  | .ok _ => Acceptable runtime header
  | .error e => e.isPanic = false

/-- A seal of a length the algorithm does not expect, behind a digest that has
nothing else wrong with it. -/
def PanickingSeal (header : Header H) : Prop :=
  ∃ rawSeal, header.digest.getLast? = some (.seal POW_ENGINE_ID rawSeal) ∧
    rawSeal.length ≠ 64 ∧ (powPreRuntimes header.digest).length ≤ 1

variable [DecidableEq H] [Inhabited H]

/-- The import queue's two calls on a block from the network. -/
def importFromNetwork (pow : PowBlockImport H) (c : Client H) (block : BlockImportParams H) :
    Storage (NetworkImportError H) (AuxStore H) (BlockImportParams H) := do
  let verified ← ofResult ((verify pow.algorithm block).mapError .verificationFailed)
  mapError .other (importBlock pow c verified)

/-- What `importBlock` checks of a body. -/
def PowBlockImport.checkBody (pow : PowBlockImport H) (block : BlockImportParams H) :
    Except (PowError H) PUnit :=
  match block.body with
  | some innerBody =>
      if block.skipExecutionChecks then .ok ⟨⟩
      else pow.checkInherents block.header innerBody block.header.parentHash
  | none => .ok ⟨⟩

/-- `import_block` once the calls it makes before the scan for pre-runtime items have
succeeded. -/
theorem importBlock_cases {pow : PowBlockImport H} {c : Client H} {block : BlockImportParams H}
    {aux : AuxStore H} {best : Header H} {innerSeal : Seal} {difficulty : ℕ}
    (chain : (exec (bestChain c) aux).1 = .ok best)
    (inherents : ∀ body, pow.runtimeCheckInherents block.header body block.header.parentHash =
      .ok ⟨⟩)
    (sealed : block.postDigests.getLast? = some (.seal POW_ENGINE_ID innerSeal))
    (undecided : block.intermediate = some none)
    (charged : pow.algorithm.difficulty block.header.parentHash = .ok difficulty) :
    (∃ e, findPreDigest block.header = .error e ∧
      (exec (importBlock pow c block) aux).1 = .error (.clientImport e)) ∨
    ∃ preDigest, findPreDigest block.header = .ok preDigest ∧
      match pow.algorithm.verify block.header.parentHash block.header.hash preDigest innerSeal
          difficulty with
      | .error e => (exec (importBlock pow c block) aux).1 = .error (.clientImport e)
      | .ok false => (exec (importBlock pow c block) aux).1 = .error (.clientImport .invalidSeal)
      | .ok true => ∀ text, (exec (importBlock pow c block) aux).1 ≠
          .error (.clientImport (.panic text)) := by
  obtain ⟨aux', chain⟩ : ∃ aux', exec (bestChain c) aux = (.ok best, aux') :=
    ⟨_, exec_eq_of_fst chain⟩
  have checked : ∀ f : PUnit → Storage (ImportError H) (AuxStore H) (BlockImportParams H),
      exec (ofPow (pow.checkBody block) >>= f) aux' = exec (f ⟨⟩) aux' := by
    intro f
    rw [PowBlockImport.checkBody]
    cases block.body with
    | none => rfl
    | some body =>
        simp only [PowBlockImport.checkInherents, inherents, ite_self, exec_ofPow_ok_bind]
  simp only [importBlock]
  rw [exec_bind, mapError_ok_iff.2 chain]
  simp only [exec_get_bind]
  erw [checked]
  simp only [fetchSeal_ok_iff.2 sealed, undecided, exec_ofPow_ok_bind, okOr, pure_bind, charged]
  cases findPreDigest block.header with
  | error e => exact .inl ⟨e, rfl, rfl⟩
  | ok preDigest =>
      refine .inr ⟨preDigest, rfl, ?_⟩
      simp only [exec_ofPow_ok_bind]
      cases pow.algorithm.verify block.header.parentHash block.header.hash preDigest innerSeal
          difficulty with
      | error e => rfl
      | ok valid =>
          cases valid with
          | false => rfl
          | true =>
              intro text
              simp only [exec_ofPow_ok_bind, ensure, ↓reduceIte, pure_bind]
              cases block.forkChoice with
              | some strategy => simp
              | none =>
                  intro panics
                  dsimp only at panics
                  generalize decided : isBetter pow.algorithm _ _ best innerSeal = better at panics
                  cases better with
                  | ok better => cases panics
                  | error e =>
                      simp only [exec_ofPow_error_bind, Except.error.injEq,
                        ImportError.clientImport.injEq] at panics
                      rw [panics] at decided
                      exact isBetter_ne_panic decided

section
variable {runtime : QPoWRuntime H} {pow : PowBlockImport H} {c : Client H}
  {block : BlockImportParams H} {aux : AuxStore H} {best : Header H} {s : QPow.State}
  {difficulty : ℕ}

theorem importFromNetwork_unsealed (algorithm : pow.algorithm = QPowAlgorithm runtime.api)
    (unsealed : ∀ innerSeal,
      block.header.digest.getLast? ≠ some (.seal POW_ENGINE_ID innerSeal)) :
    ∃ e : PowError H, (exec (importFromNetwork pow c block) aux).1 =
      .error (.verificationFailed e) ∧ ∀ text, e ≠ .panic text := by
  obtain ⟨e, refused, noPanic⟩ : ∃ e, verify (QPowAlgorithm runtime.api) block = .error e ∧
      ∀ text, e ≠ .panic text := verify_error unsealed
  refine ⟨e, ?_, noPanic⟩
  rw [importFromNetwork, algorithm, refused]
  rfl

theorem importFromNetwork_sealed (algorithm : pow.algorithm = QPowAlgorithm runtime.api)
    {innerSeal : Seal}
    (last : block.header.digest.getLast? = some (.seal POW_ENGINE_ID innerSeal)) :
    (exec (importFromNetwork pow c block) aux).1 =
      (exec (importBlock pow c (block.verified innerSeal)) aux).1.mapError .other := by
  have verified : verify pow.algorithm block = .ok (block.verified innerSeal) := by
    rw [algorithm]
    exact verify_ok_iff.2 ⟨innerSeal, last, rfl⟩
  rw [importFromNetwork, verified, ← exec_mapError_fst]
  rfl

omit [DecidableEq H] [Inhabited H] in
/-- What the import makes of a nonce is safe: a valid one was all it asked for,
and nothing panics over another. -/
theorem safeOutcome_of_nonce {nonce : Vector UInt8 64} {preDigest : Option (List UInt8)}
    {result : Except (ImportError H) (BlockImportParams H)}
    (state : runtime.states block.header.parentHash = some s)
    (last : block.header.digest.getLast? = some (.seal POW_ENGINE_ID nonce.toList))
    (few : (powPreRuntimes block.header.digest).length ≤ 1)
    (outcome : match (QPowAlgorithm runtime.api).verify block.header.parentHash
        block.header.unsealed.hash preDigest nonce.toList difficulty with
      | .error e => result = .error (.clientImport e)
      | .ok false => result = .error (.clientImport .invalidSeal)
      | .ok true => ∀ text, result ≠ .error (.clientImport (.panic text))) :
    SafeOutcome runtime block.header (result.mapError .other) := by
  rw [algorithm_verify_nonce state] at outcome
  cases valid : QPow.isValidNonce runtime.hashing (runtime.toBytes block.header.unsealed.hash)
      nonce (QPow.getDistanceThreshold runtime.cfg s) with
  | false =>
      rw [valid] at outcome
      rw [outcome]
      rfl
  | true =>
      rw [valid] at outcome
      cases result with
      | ok out => exact ⟨s, nonce, state, last, few, valid⟩
      | error e =>
          refine isPanic_eq_false_iff.2 fun text => ⟨?_, ?_⟩
          · intro other
            cases other
          · intro panics
            cases panics
            exact outcome text rfl

/-- A block from the network is either handed to the inner import, after every
check, or refused with an error, exactly unless its seal has an unexpected
length. -/
theorem importFromNetwork_sound_iff (algorithm : pow.algorithm = QPowAlgorithm runtime.api)
    (chain : (exec (bestChain c) aux).1 = .ok best)
    (inherents : ∀ header body parent, pow.runtimeCheckInherents header body parent = .ok ⟨⟩)
    (state : runtime.states block.header.parentHash = some s)
    (charged : QPow.getDifficulty runtime.cfg s = .ok difficulty) :
    SafeOutcome runtime block.header (exec (importFromNetwork pow c block) aux).1 ↔
      ¬ PanickingSeal block.header := by
  by_cases last : ∃ innerSeal,
      block.header.digest.getLast? = some (.seal POW_ENGINE_ID innerSeal)
  · obtain ⟨innerSeal, last⟩ := last
    have difficulty_eq :
        pow.algorithm.difficulty (block.verified innerSeal).header.parentHash = .ok difficulty := by
      simp [algorithm, QPowAlgorithm, QPoWRuntime.api, BlockImportParams.verified, Header.unsealed,
        state, charged, resultToOption]
    rw [importFromNetwork_sealed algorithm last]
    have resealed : (block.verified innerSeal).postDigests.getLast? =
        some (.seal POW_ENGINE_ID innerSeal) := by
      simp [BlockImportParams.verified]
    rcases importBlock_cases chain (fun body => inherents _ body _) resealed rfl difficulty_eq with
      ⟨e, found, refused⟩ | ⟨preDigest, found, outcome⟩
    · have many : ¬ (powPreRuntimes block.header.digest).length ≤ 1 := by
        rw [← findPreDigest_unsealed_ok_iff last]
        rintro ⟨preDigest, one⟩
        cases one.symm.trans found
      rw [refused, findPreDigestIn_error found]
      refine iff_of_true rfl ?_
      rintro ⟨rawSeal, -, -, few⟩
      exact many few
    · have few : (powPreRuntimes block.header.digest).length ≤ 1 :=
        (findPreDigest_unsealed_ok_iff last).1 ⟨preDigest, found⟩
      rw [algorithm] at outcome
      by_cases length : innerSeal.length = 64
      · have notPanicking : ¬ PanickingSeal block.header := by
          rintro ⟨rawSeal, last', other, -⟩
          rw [last] at last'
          cases last'
          exact other length
        obtain ⟨nonce, rfl⟩ : ∃ nonce : Vector UInt8 64, nonce.toList = innerSeal :=
          ⟨⟨innerSeal.toArray, by rwa [List.size_toArray]⟩, rfl⟩
        exact iff_of_true (safeOutcome_of_nonce state last few outcome) notPanicking
      · rw [algorithm_verify_panics length] at outcome
        rw [outcome]
        refine iff_of_false Bool.noConfusion ?_
        intro sound
        exact sound ⟨innerSeal, last, length, few⟩
  · obtain ⟨e, refused, noPanic⟩ : ∃ e : PowError H,
        (exec (importFromNetwork pow c block) aux).1 = .error (.verificationFailed e) ∧
          ∀ text, e ≠ .panic text :=
      importFromNetwork_unsealed algorithm fun innerSeal sealed => last ⟨innerSeal, sealed⟩
    rw [refused]
    refine iff_of_true ?_ ?_
    · refine isPanic_eq_false_iff.2 fun text => ⟨?_, ?_⟩
      · intro panics
        cases panics
        exact noPanic text rfl
      · intro other
        cases other
    · rintro ⟨rawSeal, sealed, -⟩
      exact last ⟨rawSeal, sealed⟩

end

namespace Sample

/-- A runtime whose blocks all keep the genesis storage. -/
def genesisRuntime : QPoWRuntime ℕ where
  cfg := QPow.Mock.config
  hashing := ⟨fun _ => ⟨2, 3, Nat.le_refl 3⟩, fun _ => 0⟩
  toBytes := Positional.toBigEndian 32
  states _ := some (QPow.genesis QPow.Mock.config)

def networkImport : PowBlockImport ℕ :=
  { nodeImport 0 with algorithm := QPowAlgorithm genesisRuntime.api }

/-- A block on the lighter fork with the seal a peer put behind it. -/
def fromPeer (innerSeal : Seal) : BlockImportParams ℕ :=
  { incoming with
    header := { block 3 4 2 with digest := [.seal POW_ENGINE_ID innerSeal] }
    postDigests := []
    intermediate := none }

theorem genesis_difficulty :
    QPow.getDifficulty genesisRuntime.cfg (QPow.genesis QPow.Mock.config) = .ok 4 := by
  decide +kernel

end Sample

open Sample

theorem importFromNetwork_sound_iff_nonce :
    SafeOutcome genesisRuntime (fromPeer (List.replicate 64 1)).header
        (exec (importFromNetwork networkImport (forked 11 10) (fromPeer (List.replicate 64 1)))
          forkedAux).1 ↔
      ¬ PanickingSeal (fromPeer (List.replicate 64 1)).header := by
  have algorithm : networkImport.algorithm = QPowAlgorithm genesisRuntime.api := rfl
  have best : (exec (bestChain (forked 11 10)) forkedAux).1 = .ok (sealedBlock 1 2 1) := by decide
  have state : genesisRuntime.states (fromPeer (List.replicate 64 1)).header.parentHash =
      some (QPow.genesis QPow.Mock.config) := rfl
  exact importFromNetwork_sound_iff algorithm best (fun _ _ _ => rfl) state genesis_difficulty

/-- A seal of 63 bytes stops the import. -/
theorem importFromNetwork_panics :
    (exec (bestChain (forked 11 10)) forkedAux).1 = .ok (sealedBlock 1 2 1) ∧
    (∀ header body parent, networkImport.runtimeCheckInherents header body parent = .ok ⟨⟩) ∧
    QPow.getDifficulty genesisRuntime.cfg (QPow.genesis QPow.Mock.config) = .ok 4 ∧
    (exec (importFromNetwork networkImport (forked 11 10) (fromPeer (List.replicate 63 1)))
      forkedAux).1 =
        .error (.other (.clientImport (.panic "Vec<u8> does not have exactly 64 elements"))) :=
  ⟨by decide, fun _ _ _ => rfl, genesis_difficulty, by decide +kernel⟩

end Resonance
