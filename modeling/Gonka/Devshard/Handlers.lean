/-
The transaction handlers of the state machine (`devshard/state/machine.go`).

Each handler checks a transaction against the machine and then changes it.  The
checks come in the order of the code, because they are not free of effects: a
signature by a warm key may bind the key to the slot (`resolveWarmKey`) before a
later check refuses the transaction, and the binding then stays.
-/
import Gonka.Devshard.Machine

namespace Devshard

open Wire

/-- A record that is not live: sealed, or never created. -/
def notLiveTransition (sm : StateMachine) (id : ℕ) : Err :=
  if sm.isInferenceEvictedFromLive id then .sealedTransition id else .inferenceNotFound id

/-- The same for the validation handlers, which look at the seal nonces only. -/
def notLiveSealed (sm : StateMachine) (id : ℕ) : Err :=
  match sm.sealedNonces.get? id with
  | some sealNonce => if sealNonce > 0 then .inferenceSealed id else .inferenceNotFound id
  | none => .inferenceNotFound id

/-- The executor of an inference: `group[id % len(group)].SlotID`. -/
def executorSlotFor (group : List SlotAssignment) (id : ℕ) : ℕ :=
  ((group[id % group.length]?).map SlotAssignment.slotID).getD 0

def MsgStartInference.record (msg : MsgStartInference) (group : List SlotAssignment)
    (reservedCost : UInt64) : InferenceRecord :=
  { status := .pending
    executorSlot := executorSlotFor group msg.inferenceId
    model := msg.model
    promptHash := msg.promptHash
    inputLength := msg.inputLength
    maxTokens := msg.maxTokens
    reservedCost := reservedCost
    startedAt := msg.startedAt }

def applyStartInference (msg : MsgStartInference) (w : World) : Outcome Unit :=
  if w.sm.phase ≠ .active then .error .sessionFinalizing w
  else if w.sm.isDuplicateInferenceID msg.inferenceId then .error .duplicateInferenceID w
  else
    match tokenCost msg.inputLength msg.maxTokens w.sm.config.tokenPrice with
    | none => .error .costOverflow w
    | some reservedCost =>
      if w.sm.balance < reservedCost then .error .insufficientBalance w
      else
        let r := msg.record w.sm.group reservedCost
        updateCommittedEntry msg.inferenceId r
          ((w.subBalance reservedCost).putInference msg.inferenceId r)

def applyConfirmStart (env : Env) (msg : MsgConfirmStart) (w : World) : Outcome Unit :=
  match w.sm.inferences.get? msg.inferenceId with
  | none => .error (notLiveTransition w.sm msg.inferenceId) w
  | some r =>
    if r.status ≠ .pending then .error (.invalidTransition .pending r.status) w
    else
      match executorReceiptContent w.sm.escrowID msg.inferenceId r msg.confirmedAt with
      | none => .error (.marshal .executorReceipt) w
      | some receiptData =>
        match env.recoverAddress receiptData msg.executorSig with
        | none => .error .invalidExecutorSig w
        | some recovered =>
          let expectedAddr := w.sm.slotAddress r.executorSlot
          match acceptSigner env r.executorSlot recovered expectedAddr w with
          | (false, w) => .error (.wrongExecutorSig expectedAddr r.executorSlot recovered) w
          | (true, w) =>
            let r' := { r with status := .started, confirmedAt := msg.confirmedAt }
            updateCommittedEntry msg.inferenceId r' (w.putInference msg.inferenceId r')

def InferenceRecord.payable (r : InferenceRecord) (cost : UInt64) : UInt64 :=
  if cost > r.reservedCost then r.reservedCost else cost

def MsgFinishInference.record (msg : MsgFinishInference) (r : InferenceRecord)
    (actualCost : UInt64) : InferenceRecord :=
  { r with
    status := .finished
    responseHash := msg.responseHash
    inputTokens := msg.inputTokens
    outputTokens := msg.outputTokens
    actualCost := actualCost }

def applyFinishInference (env : Env) (msg : MsgFinishInference) (w : World) : Outcome Unit :=
  match w.sm.inferences.get? msg.inferenceId with
  | none => .error (notLiveTransition w.sm msg.inferenceId) w
  | some r =>
    if r.status ≠ .started then .error (.invalidTransition .started r.status) w
    else if msg.executorSlot ≠ r.executorSlot then
      .error (.wrongExecutorSlot r.executorSlot msg.executorSlot) w
    else
      match verifyProposerSig env { msg with proposerSig := [] }.marshal msg.proposerSig
          (w.sm.slotAddress r.executorSlot) r.executorSlot w with
      | .error e w => .error e w
      | .ok _ w =>
        if msg.escrowId ≠ w.sm.escrowID then
          .error (.escrowIDMismatch w.sm.escrowID msg.escrowId) w
        else
          match tokenCost msg.inputTokens msg.outputTokens w.sm.config.tokenPrice with
          | none => .error .costOverflow w
          | some cost =>
            let actualCost := r.payable cost
            let surplus := r.reservedCost - actualCost
            let r' := msg.record r actualCost
            updateCommittedEntry msg.inferenceId r'
              (((w.addBalance surplus).putInference msg.inferenceId r').addCost
                r.executorSlot actualCost)

/-- `addressHasValidated`: the first slot of the address owning `slotID` that has
its bit set. -/
def addressHasValidated (sm : StateMachine) (r : InferenceRecord) (slotID : ℕ) : Option ℕ :=
  (sm.addressToSlots (sm.slotAddress slotID)).find? fun slot => r.validatedBy.isSet slot

/-- The record after a validation by `validatorSlot`: the emitting slot is
marked, and the weight counts while the record is only finished. -/
def recordValidation (sm : StateMachine) (r : InferenceRecord) (validatorSlot : ℕ) (valid : Bool) :
    InferenceRecord :=
  let marked := { r with validatedBy := r.validatedBy.set validatorSlot }
  let weight := sm.addressToSlotCount (sm.slotAddress validatorSlot)
  if r.status = .finished then
    if valid then { marked with votesValid := r.votesValid + weight }
    else { marked with votesInvalid := r.votesInvalid + weight, status := .challenged }
  else marked

def applyValidation (env : Env) (msg : MsgValidation) (w : World) : Outcome Unit :=
  match w.sm.inferences.get? msg.inferenceId with
  | none => .error (notLiveSealed w.sm msg.inferenceId) w
  | some r =>
    if (w.sm.slotToAddress.get? msg.validatorSlot).isNone then
      .error (.slotNotInGroup msg.validatorSlot) w
    else if msg.validatorSlot = r.executorSlot then .error .selfValidation w
    -- a second validation from the same address is a no-op
    else if (addressHasValidated w.sm r msg.validatorSlot).isSome then .ok () w
    else if ¬ (r.status = .finished ∨ r.status = .challenged ∨ r.status = .validated
        ∨ r.status = .invalidated) then
      .error (.invalidTransition .finishedOrLater r.status) w
    else
      match verifyProposerSig env { msg with proposerSig := [] }.marshal msg.proposerSig
          (w.sm.slotAddress msg.validatorSlot) msg.validatorSlot w with
      | .error e w => .error e w
      | .ok _ w =>
        if msg.escrowId ≠ w.sm.escrowID then
          .error (.escrowIDMismatch w.sm.escrowID msg.escrowId) w
        else
          let r' := recordValidation w.sm r msg.validatorSlot msg.valid
          let w := w.putInference msg.inferenceId r'
          let w :=
            if r.status = .finished ∧ msg.valid = false then
              persistLiveInferenceObsBestEffort env msg.inferenceId r' w
            else w
          updateCommittedEntry msg.inferenceId r' w

/-- The record after a vote, before the tally is looked at: every slot of the
voter's address is marked. -/
def recordVote (sm : StateMachine) (r : InferenceRecord) (voterSlot : ℕ) (voteValid : Bool) :
    InferenceRecord :=
  let voterAddr := sm.slotAddress voterSlot
  let weight := sm.addressToSlotCount voterAddr
  let marked :=
    { r with validatedBy := (sm.addressToSlots voterAddr).foldl Bitmap128.set r.validatedBy }
  if voteValid then { marked with votesValid := r.votesValid + weight }
  else { marked with votesInvalid := r.votesInvalid + weight }

def applyValidationVote (env : Env) (msg : MsgValidationVote) (w : World) : Outcome Unit :=
  match w.sm.inferences.get? msg.inferenceId with
  | none => .error (notLiveSealed w.sm msg.inferenceId) w
  | some r =>
    if (w.sm.slotToAddress.get? msg.voterSlot).isNone then
      .error (.slotNotInGroup msg.voterSlot) w
    -- votes on a resolved challenge are skipped
    else if r.status = .validated ∨ r.status = .invalidated then .ok () w
    else if r.status ≠ .challenged then .error (.invalidTransition .challenged r.status) w
    else
      match addressHasValidated w.sm r msg.voterSlot with
      | some existingSlot =>
        .error (.duplicateAddressVote msg.voterSlot (w.sm.slotAddress msg.voterSlot) existingSlot) w
      | none =>
        match verifyProposerSig env { msg with proposerSig := [] }.marshal msg.proposerSig
            (w.sm.slotAddress msg.voterSlot) msg.voterSlot w with
        | .error e w => .error e w
        | .ok _ w =>
          if msg.escrowId ≠ w.sm.escrowID then
            .error (.escrowIDMismatch w.sm.escrowID msg.escrowId) w
          else
            let counted := recordVote w.sm r msg.voterSlot msg.voteValid
            let threshold := w.sm.config.voteThreshold
            if counted.votesInvalid > threshold then
              let r' := { counted with status := .invalidated }
              let w := w.updateHostStats r.executorSlot
                (fun hs => { hs with invalid := hs.invalid + 1 })
              let w := ((w.refundCost r.executorSlot r.actualCost).addBalance r.actualCost)
              let w := w.putInference msg.inferenceId r'
              let w := persistLiveInferenceObsBestEffort env msg.inferenceId r' w
              updateCommittedEntry msg.inferenceId r' w
            else if counted.votesValid > threshold then
              let r' := { counted with status := .validated }
              let w := w.putInference msg.inferenceId r'
              let w := persistLiveInferenceObsBestEffort env msg.inferenceId r' w
              updateCommittedEntry msg.inferenceId r' w
            else
              updateCommittedEntry msg.inferenceId counted (w.putInference msg.inferenceId counted)

/-- The vote loop of `applyTimeout`: one vote per address, weighted by its slots. -/
def countTimeoutVotes (env : Env) (id : ℕ) (reason : TimeoutReason) :
    List TimeoutVote → List Address → UInt32 → World → Outcome UInt32
  | [], _, acceptCount, w => .ok acceptCount w
  | vote :: votes, seenAddrs, acceptCount, w =>
    match w.sm.slotToAddress.get? vote.voterSlot with
    | none => .error (.slotNotInGroup vote.voterSlot) w
    | some voterAddr =>
      if voterAddr ∈ seenAddrs then .error (.duplicateVote vote.voterSlot) w
      else
        match timeoutVoteContent w.sm.escrowID id reason vote.accept with
        | none => .error (.marshal .timeoutVote) w
        | some voteData =>
          match env.recoverAddress voteData vote.signature with
          | none => .error (.invalidVoteSig vote.voterSlot) w
          | some recovered =>
            match acceptSigner env vote.voterSlot recovered voterAddr w with
            | (false, w) => .error (.wrongVoteSig vote.voterSlot voterAddr recovered) w
            | (true, w) =>
              countTimeoutVotes env id reason votes (voterAddr :: seenAddrs)
                (if vote.accept then acceptCount + w.sm.addressToSlotCount voterAddr
                 else acceptCount) w

def TimeoutReason.requires : TimeoutReason → Option InferenceStatus
  | .refused => some .pending
  | .execution => some .started
  | _ => none

def applyTimeout (env : Env) (msg : MsgTimeoutInference) (w : World) : Outcome Unit :=
  match w.sm.inferences.get? msg.inferenceId with
  | none => .error (notLiveTransition w.sm msg.inferenceId) w
  | some r =>
    if msg.reason.requires ≠ some r.status then
      .error (.invalidTimeoutReason msg.reason r.status) w
    else
      match countTimeoutVotes env msg.inferenceId msg.reason msg.votes [] 0 w with
      | .error e w => .error e w
      | .ok acceptCount w =>
        if acceptCount ≤ w.sm.config.voteThreshold then
          .error (.insufficientVotes w.sm.config.voteThreshold acceptCount) w
        else
          let r' := { r with status := .timedOut }
          updateCommittedEntry msg.inferenceId r'
            (((w.putInference msg.inferenceId r').updateHostStats r.executorSlot
              (fun hs => { hs with missed := hs.missed + 1 })).addBalance r.reservedCost)

def applyRevealSeed (_msg : MsgRevealSeed) (w : World) : Outcome Unit := .ok () w

def applyFinalizeRound (w : World) : Outcome Unit :=
  if w.sm.phase ≠ .active then .error .alreadyFinalizing w
  else .ok () { w with sm.phase := .finalizing }

def applyTx (env : Env) (tx : DevshardTx) (w : World) : Outcome Unit :=
  match tx with
  | .startInference msg => applyStartInference msg w
  | .confirmStart msg => applyConfirmStart env msg w
  | .finishInference msg => applyFinishInference env msg w
  | .validation msg => applyValidation env msg w
  | .validationVote msg => applyValidationVote env msg w
  | .timeoutInference msg => applyTimeout env msg w
  | .revealSeed msg => applyRevealSeed msg w
  | .finalizeRound => applyFinalizeRound w
  | .empty => .error .emptyTx w

section
variable (sm : StateMachine) (r : InferenceRecord) (slot : ℕ) (valid : Bool)

@[simp] theorem recordVote_status : (recordVote sm r slot valid).status = r.status := by
  unfold recordVote
  split <;> rfl

@[simp] theorem recordVote_executorSlot :
    (recordVote sm r slot valid).executorSlot = r.executorSlot := by
  unfold recordVote
  split <;> rfl

@[simp] theorem recordVote_model : (recordVote sm r slot valid).model = r.model := by
  unfold recordVote
  split <;> rfl

@[simp] theorem recordVote_actualCost :
    (recordVote sm r slot valid).actualCost = r.actualCost := by
  unfold recordVote
  split <;> rfl

theorem recordValidation_status : (recordValidation sm r slot valid).status
    = if r.status = .finished ∧ valid = false then .challenged else r.status := by
  unfold recordValidation
  cases valid <;> by_cases h : r.status = .finished <;> simp [h]

@[simp] theorem recordValidation_executorSlot :
    (recordValidation sm r slot valid).executorSlot = r.executorSlot := by
  unfold recordValidation
  split_ifs <;> rfl

@[simp] theorem recordValidation_model : (recordValidation sm r slot valid).model = r.model := by
  unfold recordValidation
  split_ifs <;> rfl

@[simp] theorem recordValidation_actualCost :
    (recordValidation sm r slot valid).actualCost = r.actualCost := by
  unfold recordValidation
  split_ifs <;> rfl

end

end Devshard
