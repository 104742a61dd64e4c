/-
The mempool of a host and the decisions that read it (`host/mempool.go`,
`host/timeout.go`, `collectValidationJobs`, `challengeReceiptLocked`).

The mempool holds what the host proposes and what its peers gossip, by the hash of
the transaction.  Three decisions of a host look into it: whether it votes for a
timeout, which inferences it validates, and whether a challenged receipt starts the
execution.

Each is a function of the machine and of one scan: `Mempool.any`.
-/
import Gonka.Host.NonceReserve

namespace Devshard

/-- `TxHash`: the first eight bytes of the digest. -/
def txHash (tx : DevshardTx) : ℕ :=
  match tx.marshal with
  | none => 0
  | some data => Wire.beNat ((sha256 data).take 8)

structure MempoolEntry where
  tx : DevshardTx
  /-- The nonce when proposed; 0 for a gossiped transaction. -/
  proposedAt : ℕ
  deriving DecidableEq

abbrev Mempool := OrdMap ℕ MempoolEntry

namespace Mempool

def add (m : Mempool) (entry : MempoolEntry) : Mempool := m.insert (txHash entry.tx) entry

def addTx (m : Mempool) (tx : DevshardTx) : Mempool := m.add ⟨tx, 0⟩

def removeIncluded (m : Mempool) (txs : List DevshardTx) : Mempool :=
  txs.foldl (fun m tx => m.erase (txHash tx)) m

/-- `Txs`, in the order of the hashes. -/
def txs (m : Mempool) : List DevshardTx := m.entries.map fun e => e.2.tx

/-- The loop over `Txs` that stops at a transaction that matters. -/
def any (m : Mempool) (matters : DevshardTx → Bool) : Bool := m.txs.any matters

end Mempool

structure InferencePayload where
  prompt : Bytes
  model : Bytes
  inputLength : UInt64
  maxTokens : UInt64
  startedAt : Int64
  deriving DecidableEq

/-- The slots, the session parameters and the services that do not change while a
host runs. -/
structure HostSetup where
  /-- `sortedSlots`, the keys of `slotIDs`. -/
  slotIDs : List ℕ
  epochID : ℕ
  ownSeed : Int64
  refusalTimeout : Int64
  executionTimeout : Int64
  /-- In basis points. -/
  validationRate : ℕ
  hasValidator : Bool
  /-- `defaultValidationQueueSize`. -/
  queueSize : ℕ
  /-- `signer.Sign`. -/
  sign : Bytes → Option Bytes
  /-- `CanonicalPromptHash`. -/
  canonicalPromptHash : Bytes → Option Bytes
  /-- `completionapi.EffectiveMaxTokens`. -/
  effectiveMaxTokens : Bytes → Option UInt64

/-- What a payload does not agree in. -/
inductive PayloadErr where
  | promptHash
  | inputLength
  | maxTokens
  | startedAt
  | model
  | promptBytes
  | promptMaxTokens
  | declaredMaxTokens
  deriving DecidableEq

/-- `VerifyPayload` and `verifyPayloadWorkload`. -/
def verifyPayload (s : HostSetup) (p : InferencePayload) (r : InferenceRecord) :
    Except PayloadErr Unit :=
  match s.canonicalPromptHash p.prompt with
  | none => .error .promptHash
  | some hash =>
    if hash ≠ r.promptHash then .error .promptHash
    else if p.inputLength ≠ r.inputLength then .error .inputLength
    else if p.maxTokens ≠ r.maxTokens then .error .maxTokens
    else if p.startedAt ≠ r.startedAt then .error .startedAt
    else if p.model ≠ r.model then .error .model
    else if p.inputLength.toNat ≠ p.prompt.length then .error .promptBytes
    else
      match s.effectiveMaxTokens p.prompt with
      | none => .error .promptMaxTokens
      | some bodyMaxTokens =>
        if bodyMaxTokens > p.maxTokens then .error .declaredMaxTokens else .ok ()

inductive ChallengeAnswer where
  /-- There is no client for the executor. -/
  | noClient
  | failed
  | receipt (receipt : Bytes)
  deriving DecidableEq

/-- The executor answers a request for its mempool. -/
inductive MempoolAnswer where
  | noClient
  | failed
  | txs (txs : List DevshardTx)
  deriving DecidableEq

inductive VerifyErr where
  | inferenceNotFound (id : ℕ)
  | expectedPending (id : ℕ) (got : InferenceStatus)
  | expectedStarted (id : ℕ) (got : InferenceStatus)
  | noPayload
  deriving DecidableEq

/-- A `MsgFinishInference` of this inference, whoever signed it. -/
def DevshardTx.finishes (id : ℕ) : DevshardTx → Bool
  | .finishInference msg => msg.inferenceId = id
  | _ => false

/-- A `MsgConfirmStart` or `MsgFinishInference` of this inference. -/
def DevshardTx.confirmsOrFinishes (id : ℕ) : DevshardTx → Bool
  | .confirmStart msg => msg.inferenceId = id
  | tx => tx.finishes id

/-- `VerifyRefusedTimeout` behind the scan: the payload and the challenge. -/
def refusedVerdict (s : HostSetup) (r : InferenceRecord) (payload : Option InferencePayload)
    (answer : ChallengeAnswer) : Except VerifyErr Bool :=
  match payload with
  | none => .error .noPayload
  | some p =>
    match verifyPayload s p r with
    | .error _ => .ok false
    | .ok _ =>
      match answer with
      | .noClient => .ok true
      | .failed => .ok true
      | .receipt receipt => .ok (!decide (receipt.length > 0))

def verifyRefusedTimeout (s : HostSetup) (sm : StateMachine) (id : ℕ)
    (payload : Option InferencePayload) (localMempool : Mempool) (answer : ChallengeAnswer)
    (now : Int64) : Except VerifyErr Bool :=
  match sm.inferences.get? id with
  | none => .error (.inferenceNotFound id)
  | some r =>
    if r.status ≠ .pending then .error (.expectedPending id r.status)
    else if now - r.startedAt < s.refusalTimeout then .ok false
    else if localMempool.any (DevshardTx.confirmsOrFinishes id) then .ok false
    else refusedVerdict s r payload answer

/-- `VerifyExecutionTimeout` behind the scan: the executor's own mempool. -/
def executionVerdict (id : ℕ) (answer : MempoolAnswer) : Except VerifyErr Bool :=
  match answer with
  | .noClient => .ok true
  | .failed => .ok true
  | .txs txs => .ok (!txs.any (DevshardTx.finishes id))

def verifyExecutionTimeout (s : HostSetup) (sm : StateMachine) (id : ℕ) (localMempool : Mempool)
    (answer : MempoolAnswer) (now : Int64) : Except VerifyErr Bool :=
  match sm.inferences.get? id with
  | none => .error (.inferenceNotFound id)
  | some r =>
    if r.status ≠ .started then .error (.expectedStarted id r.status)
    else if now - r.confirmedAt < s.executionTimeout then .ok false
    else if localMempool.any (DevshardTx.finishes id) then .ok false
    else executionVerdict id answer

/-- `sha256("%d:%d")`, its first eight bytes. -/
def deterministicHash (seed : Int64) (id : ℕ) : ℕ :=
  Wire.beNat ((sha256 s!"{seed}:{id}".toUTF8.data.toList).take 8)

/-- A rational in `[0, 1]` at 32-bit fixed-point scale. -/
def probabilityScale32 (numerator denominator : ℕ) : ℕ :=
  if numerator ≥ denominator then 2 ^ 32 else numerator * 2 ^ 32 / denominator

def shouldValidate (seed : Int64) (id validatorSlotCount executorSlotCount totalSlots
    rateBasisPoints : ℕ) : Bool :=
  if totalSlots ≤ executorSlotCount then false
  else
    deterministicHash seed id / 2 ^ 32 < probabilityScale32 (rateBasisPoints * validatorSlotCount)
      ((totalSlots - executorSlotCount) * 10000)

inductive ValidationFlow where
  | shouldValidate
  | challenged
  deriving DecidableEq

structure ValidateJob where
  inferenceID : ℕ
  validatorSlot : ℕ
  flow : ValidationFlow
  model : Bytes
  promptHash : Bytes
  responseHash : Bytes
  inputTokens : UInt64
  outputTokens : UInt64
  escrowID : Bytes
  executorAddress : Address
  epochID : ℕ
  deriving DecidableEq

/-- `hasMempoolValidationOrVote` asks for a validation or vote of this inference that
claims one of the host's slots. -/
def DevshardTx.validatesFor (slotIDs : List ℕ) (id : ℕ) : DevshardTx → Bool
  | .validation msg => decide (msg.inferenceId = id) && slotIDs.contains msg.validatorSlot
  | .validationVote msg => decide (msg.inferenceId = id) && slotIDs.contains msg.voterSlot
  | _ => false

def candidate (s : HostSetup) (sm : StateMachine) (validating : Finset ℕ) (id : ℕ) :
    Option ValidateJob :=
  match sm.inferences.get? id with
  | none => none
  | some r =>
    if r.status ≠ .finished ∧ r.status ≠ .challenged then none
    else if s.slotIDs.contains r.executorSlot then none
    else if s.slotIDs.any fun slot => r.validatedBy.isSet slot then none
    else if id ∈ validating then none
    else if r.status = .finished ∧ shouldValidate s.ownSeed id s.slotIDs.length
        (sm.addressToSlotCount (sm.slotAddress r.executorSlot)).toNat sm.group.length
        s.validationRate = false then none
    else some
      { inferenceID := id
        validatorSlot := s.slotIDs.headD 0
        flow := if r.status = .finished then .shouldValidate else .challenged
        model := r.model
        promptHash := r.promptHash
        responseHash := r.responseHash
        inputTokens := r.inputTokens
        outputTokens := r.outputTokens
        escrowID := sm.escrowID
        executorAddress := sm.slotAddress r.executorSlot
        epochID := s.epochID }

/-- The loop of `collectValidationJobs` over the inferences, in the order in which the
map yields them; it stops when the queue has no more room. -/
def collectLoop (s : HostSetup) (sm : StateMachine) (mempool : Mempool) :
    List ℕ → ℕ → Finset ℕ → List ValidateJob × Finset ℕ
  | [], _, validating => ([], validating)
  | id :: order, available, validating =>
    match candidate s sm validating id with
    | none => collectLoop s sm mempool order available validating
    | some job =>
      if mempool.any (DevshardTx.validatesFor s.slotIDs id) then
        collectLoop s sm mempool order available validating
      else if available ≤ 1 then ([job], insert id validating)
      else
        let (jobs, validating) :=
          collectLoop s sm mempool order (available - 1) (insert id validating)
        (job :: jobs, validating)

/-- `challengeReceiptLocked` up to its scan: the receipt, if the host can give one. -/
def challengeReceipt (s : HostSetup) (sm : StateMachine) (id : ℕ)
    (payload : Option InferencePayload) (now : Int64) : Option Bytes :=
  match sm.inferences.get? id with
  | none => none
  | some r =>
    if r.status ≠ .pending then none
    else if s.slotIDs.contains r.executorSlot = false then none
    else
      match payload with
      | none => none
      | some p =>
        match verifyPayload s p r with
        | .error _ => none
        | .ok _ => (executorReceiptContent sm.escrowID id r now).bind s.sign

/-- Whether the challenge starts the execution: the host gives a receipt, does not
execute the inference already and has no finish of it in the mempool. -/
def challengeStarts (s : HostSetup) (sm : StateMachine) (executing : Finset ℕ) (mempool : Mempool)
    (id : ℕ) (payload : Option InferencePayload) (now : Int64) : Bool :=
  match challengeReceipt s sm id payload now with
  | none => false
  | some _ =>
    if id ∈ executing then false
    else if mempool.any (DevshardTx.finishes id) then false
    else true

end Devshard
