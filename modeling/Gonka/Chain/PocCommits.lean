/-
Commitments of proof of compute.

During a stage of proof of compute a participant commits, for each model, to the number of artifacts it
has produced so far, and then says how they are divided among its nodes.  A later commit has to name
a larger number, and gas is charged for what is added.  From the last commit and the division come
the weights of the participant and of its nodes; nodes that serve inference are taken out before.

Counts and weights are `uint32`, sums of them `uint64` or `uint32`, as in the code.  `charges` is no
part of the state: it records the gas of the accepted commits.
-/
import Mathlib.Data.String.Basic
import Gonka.Lib.Checked
import Gonka.Lib.Dec
import Gonka.Chain.ConfirmationPoC
import Gonka.Chain.Maintenance

namespace PocCommits

open Checked Inference
open Maintenance (Bech32)

/-! ### What is stored -/

structure PoCV2StoreCommit where
  participantAddress : String
  pocStageStartBlockHeight : ℤ
  count : UInt32
  rootHash : Bytes
  commitBlockHeight : ℤ
  modelId : String
deriving DecidableEq

structure MLNodeWeight where
  nodeId : String
  weight : UInt32
deriving DecidableEq

structure MLNodeWeightDistribution where
  participantAddress : String
  pocStageStartBlockHeight : ℤ
  weights : List MLNodeWeight
  modelId : String
deriving DecidableEq

abbrev CommitKey (A : Type*) := ℤ ×ₗ A ×ₗ String

def pocV2StoreCommitKey {A : Type*} (stage : ℤ) (addr : A) (modelID : String) : CommitKey A :=
  toLex (stage, toLex (addr, modelID))

structure PocV2CommitEntry where
  modelId : String
  count : UInt32
  rootHash : Bytes

structure PocV2CommitUpdate where
  modelID : String
  entry : PocV2CommitEntry
  countDelta : UInt64

/-- An accepted commit and the gas that was charged for its counts. -/
structure Charge (A : Type*) where
  stage : ℤ
  addr : A
  updates : List PocV2CommitUpdate
  gasPerPocCount : UInt64
  countGas : ℕ

structure Store (A : Type*) [LinearOrder A] where
  poCV2StoreCommits : OrdMap (CommitKey A) PoCV2StoreCommit
  mlNodeWeightDistributions : OrdMap (CommitKey A) MLNodeWeightDistribution
  charges : List (Charge A)

def Store.empty {A : Type*} [LinearOrder A] : Store A := ⟨∅, ∅, []⟩

structure FeeParams where
  baseValidationGas : UInt64
  gasPerPocCount : UInt64

structure Params where
  pocV2Enabled : Bool
  epochParams : EpochParams
  feeParams : Option FeeParams
  blockedParticipantAddresses : List String

structure GasMeter where
  consumed : ℕ
  /-- The meter of a block has none. -/
  limit : Option ℕ

structure World where
  blockHeight : ℤ
  /-- The error of `CheckPermission`. -/
  permission : Option String
  params : Except String Params
  activeEvent : Option ConfirmationPoCEvent
  upcomingEpoch : Option Epoch
  isGovernanceModel : String → Bool
  gasMeter : GasMeter

inductive ErrorKind where
  | permission
  | params
  | errNotSupported
  | errParticipantBlocked
  | errIllegalState
  | errPocTooLate
  | errUpcomingEpochNotFound
  | errPocWrongStartBlockHeight
  | errInvalidAddress
  | errInvalidModel
  | outOfGas
  | gasOverflow
deriving DecidableEq

structure PocError where
  kind : ErrorKind
  text : String

/-- `ConsumeGas`; a panic fails the message. -/
def GasMeter.consumeGas (m : GasMeter) (amount : ℕ) (descriptor : String) :
    Except PocError GasMeter := do
  require (m.consumed + amount < 2 ^ 64) ⟨.gasOverflow, descriptor⟩
  require (∀ limit ∈ m.limit, m.consumed + amount ≤ limit) ⟨.outOfGas, descriptor⟩
  return { m with consumed := m.consumed + amount }

end PocCommits

namespace Inference

def EpochContext.isPoCExchangeWindow (ec : EpochContext) (blockHeight : ℤ) : Bool :=
  decide (ec.epochIndex ≠ 0) && decide (i64 (ec.startOfPoC + 1) ≤ blockHeight) &&
    decide (blockHeight ≤ ec.poCExchangeDeadline)

def ConfirmationPoCEvent.isInBatchSubmissionWindow (e : ConfirmationPoCEvent) (blockHeight : ℤ)
    (params : EpochParams) : Bool :=
  decide (e.generationStartHeight ≤ blockHeight) && decide (blockHeight ≤ e.getExchangeEnd params)

end Inference

namespace PocCommits

open Checked Inference
open Maintenance (Bech32)

variable {A : Type} [LinearOrder A] (codec : Bech32 A) (w : World)

/-! ### Commits -/

structure MsgPoCV2StoreCommit where
  creator : String
  pocStageStartBlockHeight : ℤ
  entries : List PocV2CommitEntry

def checkSender (creator : String) (entries : ℕ) : Except PocError Params := do
  require (w.permission = none) ⟨.permission, w.permission.getD ""⟩
  let params ← w.params.mapError (⟨.params, ·⟩)
  require params.pocV2Enabled ⟨.errNotSupported, "V2 disabled when poc_v2_enabled=false"⟩
  require (creator ∉ params.blockedParticipantAddresses) ⟨.errParticipantBlocked, creator⟩
  require (entries ≠ 0) ⟨.errIllegalState, "entries must not be empty"⟩
  return params

def wrongStart (start pocStart : ℤ) : PocError :=
  ⟨.errPocWrongStartBlockHeight,
    s!"start block height {start} doesn't match PoC stage start {pocStart}"⟩

def regularStage (params : Params) (start : ℤ) : Except PocError EpochContext := do
  let upcomingEpoch ← found ⟨.errUpcomingEpochNotFound, "failed to get upcoming epoch"⟩ w.upcomingEpoch
  let ec := newEpochContext upcomingEpoch params.epochParams
  require (ec.isStartOfPocStage start) (wrongStart start ec.pocStartBlockHeight)
  return ec

/-- The window of commits; that of a confirmation event is taken only for its own stage. -/
def checkCommitWindow (params : Params) (start : ℤ) : Except PocError PUnit :=
  match w.activeEvent.filter (fun e => start = e.triggerHeight) with
  | some e =>
    require (e.isInBatchSubmissionWindow w.blockHeight params.epochParams)
      ⟨.errPocTooLate, "confirmation PoC batch submission window closed"⟩
  | none => do
    let ec ← regularStage w params start
    require (ec.isPoCExchangeWindow w.blockHeight) ⟨.errPocTooLate, "PoC exchange window closed"⟩

def creatorAddress (creator : String) : Except PocError A :=
  found ⟨.errInvalidAddress, s!"invalid creator address: {creator}"⟩
    (codec.accAddressFromBech32 creator)

def loadExistingPoCV2StoreCommits (s : Store A) (start : ℤ) (addr : A) :
    OrdMap String PoCV2StoreCommit :=
  (s.poCV2StoreCommits.entries.filter
      fun e => (ofLex e.1).1 = start ∧ (ofLex (ofLex e.1).2).1 = addr).foldl
    (fun existing e => existing.insert (ofLex (ofLex e.1).2).2 e.2) ∅

def notGovernanceModel (modelID : String) : PocError :=
  ⟨.errInvalidModel, s!"model_id {modelID.quote} is not a governance model"⟩

/-- `buildPoCV2CommitUpdate`; it looks at what was stored before the message. -/
def buildPoCV2CommitUpdate (existingByModel : OrdMap String PoCV2StoreCommit)
    (entry : PocV2CommitEntry) : Except PocError PocV2CommitUpdate := do
  require (entry.count ≠ 0) ⟨.errIllegalState, "entry count must be greater than 0"⟩
  require (entry.rootHash.length = 32)
    ⟨.errIllegalState, s!"root_hash must be 32 bytes, got {entry.rootHash.length}"⟩
  require (entry.modelId ≠ "") ⟨.errIllegalState, "model_id must not be empty"⟩
  require (w.isGovernanceModel entry.modelId) (notGovernanceModel entry.modelId)
  match existingByModel.get? entry.modelId with
  | none => return ⟨entry.modelId, entry, entry.count.toUInt64⟩
  | some existing =>
    require (existing.commitBlockHeight ≠ w.blockHeight)
      ⟨.errIllegalState, "only one commit per block allowed"⟩
    require (existing.count < entry.count)
      ⟨.errIllegalState, s!"count must increase: got {entry.count}, last recorded {existing.count}"⟩
    return ⟨entry.modelId, entry, (entry.count - existing.count).toUInt64⟩

def buildPoCV2CommitUpdates (existingByModel : OrdMap String PoCV2StoreCommit)
    (entries : List PocV2CommitEntry) : Except PocError (List PocV2CommitUpdate × UInt64) :=
  entries.foldlM (fun (updates, totalCountDelta) entry => do
    let update ← buildPoCV2CommitUpdate w existingByModel entry
    require (¬ totalCountDelta + update.countDelta < totalCountDelta)
      ⟨.errIllegalState, "total count delta overflow"⟩
    return (updates ++ [update], totalCountDelta + update.countDelta)) ([], 0)

def checkedMul (a b : UInt64) : UInt64 × Bool :=
  if a = 0 ∨ b = 0 then (0, false)
  else if a * b / a ≠ b then (0, true)
  else (a * b, false)

/-- `chargePoCV2StoreCommitGas`; the gas for the counts. -/
def chargePoCV2StoreCommitGas (feeParams : Option FeeParams) (isFirstCommit : Bool)
    (totalCountDelta : UInt64) : Except PocError ℕ :=
  match feeParams with
  | none => return 0
  | some fee => do
    let meter ← (if isFirstCommit then
      w.gasMeter.consumeGas fee.baseValidationGas.toNat "poc_validation_base" else pure w.gasMeter)
    let (countGas, overflow) := checkedMul totalCountDelta fee.gasPerPocCount
    require (overflow = false)
      ⟨.errIllegalState, "total_count_delta * gas_per_poc_count overflow"⟩
    let meter' ← meter.consumeGas countGas.toNat "poc_commit_count_delta"
    return meter'.consumed - meter.consumed

def persistPoCV2CommitUpdates (creator : String) (start : ℤ) (addr : A)
    (updates : List PocV2CommitUpdate) (commits : OrdMap (CommitKey A) PoCV2StoreCommit) :
    OrdMap (CommitKey A) PoCV2StoreCommit :=
  updates.foldl (fun commits update =>
    commits.insert (pocV2StoreCommitKey start addr update.modelID)
      { participantAddress := creator
        pocStageStartBlockHeight := start
        count := update.entry.count
        rootHash := update.entry.rootHash
        commitBlockHeight := w.blockHeight
        modelId := update.modelID }) commits

def poCV2StoreCommit (msg : MsgPoCV2StoreCommit) (s : Store A) : Except PocError (Store A) := do
  let params ← checkSender w msg.creator msg.entries.length
  let start := msg.pocStageStartBlockHeight
  checkCommitWindow w params start
  let addr ← creatorAddress codec msg.creator
  let existingByModel := loadExistingPoCV2StoreCommits s start addr
  let (updates, totalCountDelta) ← buildPoCV2CommitUpdates w existingByModel msg.entries
  let countGas ← chargePoCV2StoreCommitGas w params.feeParams existingByModel.entries.isEmpty
    totalCountDelta
  return { s with
    poCV2StoreCommits :=
      persistPoCV2CommitUpdates w msg.creator start addr updates s.poCV2StoreCommits
    charges := s.charges ++
      [⟨start, addr, updates, (params.feeParams.map (·.gasPerPocCount)).getD 0, countGas⟩] }

/-- The weights come out of a transaction, where each of them takes two bytes or more, and no block
is that large. -/
structure MLNodeDistributionEntry where
  modelId : String
  weights : List MLNodeWeight
  length_weights : weights.length < 2 ^ 32

structure MsgMLNodeWeightDistribution where
  creator : String
  pocStageStartBlockHeight : ℤ
  entries : List MLNodeDistributionEntry

/-- The window of distributions; during a confirmation event only its own stage is taken. -/
def checkDistributionWindow (params : Params) (start : ℤ) : Except PocError PUnit :=
  match w.activeEvent with
  | some e => do
    require (start = e.triggerHeight)
      ⟨.errPocWrongStartBlockHeight, s!"confirmation PoC: start block height {start} doesn't match " ++
        s!"event trigger {e.triggerHeight}"⟩
    require (w.blockHeight ≤ e.getValidationEnd params.epochParams)
      ⟨.errPocTooLate, "confirmation PoC validation window closed"⟩
  | none => do
    let ec ← regularStage w params start
    require (w.blockHeight ≤ ec.endOfPoCValidation) ⟨.errPocTooLate, "PoC validation window closed"⟩

def weightSum (weights : List MLNodeWeight) : UInt64 :=
  weights.foldl (fun sum nw => sum + nw.weight.toUInt64) 0

def storeDistribution (creator : String) (start : ℤ) (addr : A) (s : Store A)
    (entry : MLNodeDistributionEntry) : Except PocError (Store A) := do
  require (entry.weights ≠ []) ⟨.errIllegalState, "entry weights must not be empty"⟩
  require (entry.modelId ≠ "") ⟨.errIllegalState, "model_id must not be empty"⟩
  require (w.isGovernanceModel entry.modelId) (notGovernanceModel entry.modelId)
  let pk := pocV2StoreCommitKey start addr entry.modelId
  let commit ← found ⟨.errIllegalState, "no store commit found for this stage and model"⟩
    (s.poCV2StoreCommits.get? pk)
  let sum := weightSum entry.weights
  require (sum = commit.count.toUInt64)
    ⟨.errIllegalState, s!"weight sum {sum} does not match committed count {commit.count}"⟩
  return { s with
    mlNodeWeightDistributions :=
      s.mlNodeWeightDistributions.insert pk ⟨creator, start, entry.weights, entry.modelId⟩ }

def mlNodeWeightDistribution (msg : MsgMLNodeWeightDistribution) (s : Store A) :
    Except PocError (Store A) := do
  let params ← checkSender w msg.creator msg.entries.length
  let start := msg.pocStageStartBlockHeight
  checkDistributionWindow w params start
  let addr ← creatorAddress codec msg.creator
  msg.entries.foldlM (storeDistribution w msg.creator start addr) s

inductive Msg where
  | poCV2StoreCommit (msg : MsgPoCV2StoreCommit)
  | mlNodeWeightDistribution (msg : MsgMLNodeWeightDistribution)

def step (input : World × Msg) (s : Store A) : Store A :=
  match input.2 with
  | .poCV2StoreCommit msg => Checked.commit s (poCV2StoreCommit codec input.1 msg s)
  | .mlNodeWeightDistribution msg => Checked.commit s (mlNodeWeightDistribution codec input.1 msg s)

/-! ### Weights -/

abbrev PoCParticipantModelKey := String ×ₗ String

def allForStage {V : Type*} (modelId : V → String) (stored : OrdMap (CommitKey A) V) (stage : ℤ) :
    OrdMap PoCParticipantModelKey V :=
  (stored.entries.filter fun e => (ofLex e.1).1 = stage).foldl
    (fun result e =>
      result.insert (toLex (codec.string (ofLex (ofLex e.1).2).1, modelId e.2)) e.2) ∅

def getAllPoCV2StoreCommitsForStage (s : Store A) (stage : ℤ) :
    OrdMap PoCParticipantModelKey PoCV2StoreCommit :=
  allForStage codec (·.modelId) s.poCV2StoreCommits stage

def getAllMLNodeWeightDistributionsForStage (s : Store A) (stage : ℤ) :
    OrdMap PoCParticipantModelKey MLNodeWeightDistribution :=
  allForStage codec (·.modelId) s.mlNodeWeightDistributions stage

/-- The weights of nodes that do not serve inference. -/
def keptWeights (isServing : String → Bool) (weights : List MLNodeWeight) : List MLNodeWeight :=
  weights.filter fun nw => !isServing nw.nodeId

def filteredCount (weights : List MLNodeWeight) : UInt32 :=
  weights.foldl (fun sum nw => sum + nw.weight) 0

def filteredEntry (allDistributions : OrdMap PoCParticipantModelKey MLNodeWeightDistribution)
    (inferenceServingNodeIds : String → String → Bool) (key : PoCParticipantModelKey)
    (commit : PoCV2StoreCommit) : Option (PoCV2StoreCommit × MLNodeWeightDistribution) :=
  match allDistributions.get? key with
  | none => none
  | some distribution =>
    let weights := keptWeights (inferenceServingNodeIds (ofLex key).1) distribution.weights
    if distribution.weights = [] then none
    else if filteredCount weights = 0 then none
    else some ({ commit with count := filteredCount weights }, { distribution with weights })

def filterStoreCommitsFromInferenceNodes
    (allCommits : OrdMap PoCParticipantModelKey PoCV2StoreCommit)
    (allDistributions : OrdMap PoCParticipantModelKey MLNodeWeightDistribution)
    (inferenceServingNodeIds : String → String → Bool) :
    OrdMap PoCParticipantModelKey PoCV2StoreCommit ×
      OrdMap PoCParticipantModelKey MLNodeWeightDistribution :=
  let left := allCommits.filterMap (filteredEntry allDistributions inferenceServingNodeIds)
  (left.filterMap fun _ e => some e.1, left.filterMap fun _ e => some e.2)

structure NodeWeight where
  nodeId : String
  weight : ℤ

structure PoCWeightCalculator where
  storeCommits : OrdMap PoCParticipantModelKey PoCV2StoreCommit
  nodeWeightDistributions : OrdMap PoCParticipantModelKey MLNodeWeightDistribution
  timeNormalizationFactor : Dec

/-- `calculateParticipantWeight`: the weights of the nodes and the weight of the participant for a
model.  There are none if a conversion panics. -/
def PoCWeightCalculator.calculateParticipantWeight (wc : PoCWeightCalculator)
    (key : PoCParticipantModelKey) : Option (List NodeWeight × ℤ) :=
  match wc.storeCommits.get? key with
  | none => some ([], 0)
  | some commit =>
    if commit.count = 0 then some ([], 0)
    else do
      let normFactor :=
        if wc.timeNormalizationFactor.IsPositive then wc.timeNormalizationFactor else Dec.one
      let totalWeight ← Dec.scale commit.count.toNat normFactor
      match wc.nodeWeightDistributions.get? key with
      | none => some ([], 0)
      | some distribution =>
        if distribution.weights = [] then some ([], 0)
        else do
          let nodeWeights ← distribution.weights.mapM fun nw =>
            (Dec.scale nw.weight.toNat normFactor).map (⟨nw.nodeId, ·⟩)
          some (nodeWeights.mergeSort (fun a b => a.nodeId ≤ b.nodeId), totalWeight)

end PocCommits
