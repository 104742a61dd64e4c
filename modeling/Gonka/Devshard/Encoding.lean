/-
The protobuf messages of a session (`devshard/proto/devshard/v1`), as the
deterministic marshaller writes them.

A message with a `string` field is marshalled in `Option`: the marshaller
refuses a string that is not valid UTF-8.  Three groups use them: the records
hashed into the state root (`InferenceRecordProto`, `HostStatsProto`), the
contents that executors, voters and proposers sign, and the diff the user signs.

`hostStatsMapProto_inj` says that the host-stats encoding determines the list
of entries, which the settlement check on the chain relies on.
-/
import Gonka.Devshard.Types

namespace Devshard

open Wire

/-- An `int64` field: the two's-complement pattern as a varint. -/
def fieldInt64 (num : ℕ) (v : Int64) : Bytes := fieldVarint num v.toUInt64.toNat

def fieldBool (num : ℕ) (b : Bool) : Bytes := fieldVarint num b.toNat

/-- `InferenceRecordProto`, as `marshalInferenceEntry` fills it in. -/
def marshalInferenceEntry (id : ℕ) (r : InferenceRecord) : Option Bytes := do
  let model ← fieldString 4 r.model
  return fieldVarint 1 id ++ fieldVarint 2 r.status.code ++ fieldVarint 3 r.executorSlot ++ model
    ++ fieldBytes 5 r.promptHash ++ fieldBytes 6 r.responseHash
    ++ fieldVarint 7 r.inputLength.toNat ++ fieldVarint 8 r.maxTokens.toNat
    ++ fieldVarint 9 r.inputTokens.toNat ++ fieldVarint 10 r.outputTokens.toNat
    ++ fieldVarint 11 r.reservedCost.toNat ++ fieldVarint 12 r.actualCost.toNat
    ++ fieldInt64 13 r.startedAt ++ fieldInt64 14 r.confirmedAt
    ++ fieldVarint 15 r.votesValid.toNat ++ fieldVarint 16 r.votesInvalid.toNat
    ++ fieldBytes 17 r.validatedBy.bytes

theorem marshalInferenceEntry_isSome (id : ℕ) (r : InferenceRecord) :
    (marshalInferenceEntry id r).isSome = utf8Valid r.model := by
  unfold marshalInferenceEntry fieldString
  by_cases h : utf8Valid r.model <;> simp [h]

/-- `HostStatsProto`: one slot's statistics. -/
structure HostStatsEntry where
  slotId : ℕ
  stats : HostStats
  deriving DecidableEq

/-- The six varint fields of a `HostStatsProto`. -/
def HostStatsEntry.fields (e : HostStatsEntry) : List (ℕ × ℕ) :=
  [(1, e.slotId), (2, e.stats.missed.toNat), (3, e.stats.invalid.toNat), (4, e.stats.cost.toNat),
   (5, e.stats.requiredValidations.toNat), (6, e.stats.completedValidations.toNat)]

/-- `HostStatsMapProto`: a repeated `HostStatsProto`. -/
def hostStatsMapProto (entries : List HostStatsEntry) : Bytes :=
  entries.flatMap fun e => fieldMessage 1 (varintFields e.fields)

theorem HostStatsEntry.fields_inj {e e' : HostStatsEntry} (h : e.fields = e'.fields) : e = e' := by
  obtain ⟨slot, missed, invalid, cost, required, completed⟩ := e
  simp only [fields, List.cons.injEq, Prod.mk.injEq, true_and, and_true] at h
  obtain ⟨h1, h2, h3, h4, h5, h6⟩ := h
  rw [h1, UInt32.toNat_inj.mp h2, UInt32.toNat_inj.mp h3, UInt64.toNat_inj.mp h4,
    UInt32.toNat_inj.mp h5, UInt32.toNat_inj.mp h6]

/-- **The host-stats encoding determines the statistics**, slot by slot. -/
theorem hostStatsMapProto_inj {l l' : List HostStatsEntry}
    (h : hostStatsMapProto l = hostStatsMapProto l') : l = l' := by
  have hmap : l.map (fun e => varintFields e.fields) = l'.map (fun e => varintFields e.fields) := by
    refine @fieldMessage_flatMap_inj 1 _ _ ?_
    simpa only [hostStatsMapProto, List.flatMap_map] using h
  refine List.map_injective_iff.mpr (fun e e' he => ?_) hmap
  exact HostStatsEntry.fields_inj (varintFields_inj rfl (by simp [HostStatsEntry.fields]) he)

def TimeoutReason.code : TimeoutReason → ℕ
  | .unspecified => 0
  | .refused => 1
  | .execution => 2
  | .unrecognized code => code.toInt64.toUInt64.toNat

def MsgStartInference.marshal (m : MsgStartInference) : Option Bytes := do
  let model ← fieldString 3 m.model
  return fieldVarint 1 m.inferenceId ++ fieldBytes 2 m.promptHash ++ model
    ++ fieldVarint 4 m.inputLength.toNat ++ fieldVarint 5 m.maxTokens.toNat
    ++ fieldInt64 6 m.startedAt

def MsgConfirmStart.marshal (m : MsgConfirmStart) : Bytes :=
  fieldVarint 1 m.inferenceId ++ fieldBytes 2 m.executorSig ++ fieldInt64 3 m.confirmedAt

def MsgFinishInference.marshal (m : MsgFinishInference) : Option Bytes := do
  let escrowId ← fieldString 7 m.escrowId
  return fieldVarint 1 m.inferenceId ++ fieldBytes 2 m.responseHash
    ++ fieldVarint 3 m.inputTokens.toNat ++ fieldVarint 4 m.outputTokens.toNat
    ++ fieldVarint 5 m.executorSlot ++ fieldBytes 6 m.proposerSig ++ escrowId

def TimeoutVote.marshal (v : TimeoutVote) : Bytes :=
  fieldVarint 1 v.voterSlot ++ fieldBool 2 v.accept ++ fieldBytes 3 v.signature

def MsgTimeoutInference.marshal (m : MsgTimeoutInference) : Bytes :=
  fieldVarint 1 m.inferenceId ++ fieldVarint 2 m.reason.code
    ++ m.votes.flatMap fun v => fieldMessage 3 v.marshal

def MsgValidation.marshal (m : MsgValidation) : Option Bytes := do
  let escrowId ← fieldString 5 m.escrowId
  return fieldVarint 1 m.inferenceId ++ fieldVarint 2 m.validatorSlot ++ fieldBool 3 m.valid
    ++ fieldBytes 4 m.proposerSig ++ escrowId

def MsgValidationVote.marshal (m : MsgValidationVote) : Option Bytes := do
  let escrowId ← fieldString 5 m.escrowId
  return fieldVarint 1 m.inferenceId ++ fieldVarint 2 m.voterSlot ++ fieldBool 3 m.voteValid
    ++ fieldBytes 4 m.proposerSig ++ escrowId

def MsgRevealSeed.marshal (m : MsgRevealSeed) : Option Bytes := do
  let escrowId ← fieldString 4 m.escrowId
  return fieldVarint 1 m.slotId ++ fieldBytes 2 m.signature ++ fieldBytes 3 m.proposerSig ++ escrowId

def DevshardTx.marshal : DevshardTx → Option Bytes
  | .startInference m => m.marshal.map (fieldMessage 1)
  | .confirmStart m => some (fieldMessage 2 m.marshal)
  | .finishInference m => m.marshal.map (fieldMessage 3)
  | .timeoutInference m => some (fieldMessage 4 m.marshal)
  | .validation m => m.marshal.map (fieldMessage 5)
  | .validationVote m => m.marshal.map (fieldMessage 6)
  | .revealSeed m => m.marshal.map (fieldMessage 7)
  | .finalizeRound => some (fieldMessage 8 [])
  | .empty => some []

/-- `ExecutorReceiptContent`: what the executor of an inference signs when it
confirms the start. -/
def executorReceiptContent (escrowID : Bytes) (id : ℕ) (r : InferenceRecord) (confirmedAt : Int64) :
    Option Bytes := do
  let model ← fieldString 3 r.model
  let escrow ← fieldString 7 escrowID
  return fieldVarint 1 id ++ fieldBytes 2 r.promptHash ++ model
    ++ fieldVarint 4 r.inputLength.toNat ++ fieldVarint 5 r.maxTokens.toNat
    ++ fieldInt64 6 r.startedAt ++ escrow ++ fieldInt64 8 confirmedAt

/-- `TimeoutVoteContent`: what a host signs for a timeout vote. -/
def timeoutVoteContent (escrowID : Bytes) (id : ℕ) (reason : TimeoutReason) (accept : Bool) :
    Option Bytes := do
  let escrow ← fieldString 1 escrowID
  return escrow ++ fieldVarint 2 id ++ fieldVarint 3 reason.code ++ fieldBool 4 accept

/-- `BuildDiffContent` and its marshalling: what the user signs. -/
def diffContent (escrowID : Bytes) (nonce : ℕ) (txs : List DevshardTx) (postStateRoot : Bytes) :
    Option Bytes := do
  let txMsgs ← txs.mapM DevshardTx.marshal
  let escrow ← fieldString 3 escrowID
  return fieldVarint 1 nonce ++ txMsgs.flatMap (fieldMessage 2) ++ escrow
    ++ fieldBytes 4 postStateRoot

end Devshard
