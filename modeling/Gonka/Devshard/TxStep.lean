/-
What a transaction can do, said once.

`TxStep env sm tx checks effect` holds when the transaction `tx` passes every test
of its handler on the machine `sm` except the signature checks `checks`, and would
then change the world by `effect`.  It does not depend on the warm keys of `sm`.

Main results: `applyTx_ok_iff`, `applyTx_error_growth`, `applyTx_settled`.

Every invariant of the machine is a case analysis on `TxStep`.
-/
import Gonka.Devshard.Checks
import Gonka.Devshard.Handlers

namespace Devshard

open Wire

/-! ### The steps -/

local instance bytes_lawfulBEq : LawfulBEq (List UInt8) := inferInstance

def timeoutChecks (env : Env) (sm : StateMachine) (id : ℕ) (reason : TimeoutReason) :
    List TimeoutVote → List Address → UInt32 → Option (List SigCheck × UInt32)
  | [], _, acceptCount => some ([], acceptCount)
  | vote :: votes, seenAddrs, acceptCount =>
    match sm.slotToAddress.get? vote.voterSlot with
    | none => none
    | some voterAddr =>
      if voterAddr ∈ seenAddrs then none
      else
        match timeoutVoteContent sm.escrowID id reason vote.accept with
        | none => none
        | some voteData =>
          match env.recoverAddress voteData vote.signature with
          | none => none
          | some recovered =>
            (timeoutChecks env sm id reason votes (voterAddr :: seenAddrs)
              (if vote.accept then acceptCount + sm.addressToSlotCount voterAddr
               else acceptCount)).map
              fun p => (⟨vote.voterSlot, recovered⟩ :: p.1, p.2)

/-- A transaction, the signature checks it needs and what it then does. -/
inductive TxStep (env : Env) (sm : StateMachine) :
    DevshardTx → List SigCheck → (World → World) → Prop
  | start {msg : MsgStartInference} {reserved : UInt64} {entry : Bytes}
      (hphase : sm.phase = .active)
      (hnew : sm.isDuplicateInferenceID msg.inferenceId = false)
      (hcost : tokenCost msg.inputLength msg.maxTokens sm.config.tokenPrice = some reserved)
      (hbalance : reserved ≤ sm.balance)
      (hentry : marshalInferenceEntry msg.inferenceId (msg.record sm.group reserved)
        = some entry) :
      TxStep env sm (.startInference msg) [] fun w =>
        ((w.subBalance reserved).putInference msg.inferenceId
          (msg.record sm.group reserved)).putEntry msg.inferenceId entry
  | confirm {msg : MsgConfirmStart} {r r' : InferenceRecord} {data entry : Bytes}
      {recovered : Address}
      (hlive : sm.inferences.get? msg.inferenceId = some r)
      (hstatus : r.status = .pending)
      (hdata : executorReceiptContent sm.escrowID msg.inferenceId r msg.confirmedAt = some data)
      (hsigner : env.recoverAddress data msg.executorSig = some recovered)
      (hrecord : r' = { r with status := .started, confirmedAt := msg.confirmedAt })
      (hentry : marshalInferenceEntry msg.inferenceId r' = some entry) :
      TxStep env sm (.confirmStart msg) [⟨r.executorSlot, recovered⟩] fun w =>
        (w.putInference msg.inferenceId r').putEntry msg.inferenceId entry
  | finish {msg : MsgFinishInference} {r r' : InferenceRecord} {cost : UInt64} {entry : Bytes}
      {recovered : Address}
      (hlive : sm.inferences.get? msg.inferenceId = some r)
      (hstatus : r.status = .started)
      (hslot : msg.executorSlot = r.executorSlot)
      (hsigner : ProposerSigned env sm { msg with proposerSig := [] }.marshal msg.proposerSig
        r.executorSlot recovered)
      (hescrow : msg.escrowId = sm.escrowID)
      (hcost : tokenCost msg.inputTokens msg.outputTokens sm.config.tokenPrice = some cost)
      (hrecord : r' = msg.record r (r.payable cost))
      (hentry : marshalInferenceEntry msg.inferenceId r' = some entry) :
      TxStep env sm (.finishInference msg) [⟨r.executorSlot, recovered⟩] fun w =>
        (((w.addBalance (r.reservedCost - r.payable cost)).putInference msg.inferenceId r').addCost
          r.executorSlot (r.payable cost)).putEntry msg.inferenceId entry
  | validationDuplicate {msg : MsgValidation} {r : InferenceRecord}
      (hlive : sm.inferences.get? msg.inferenceId = some r)
      (hslot : (sm.slotToAddress.get? msg.validatorSlot).isNone = false)
      (hself : msg.validatorSlot ≠ r.executorSlot)
      (hseen : (addressHasValidated sm r msg.validatorSlot).isSome) :
      TxStep env sm (.validation msg) [] id
  | validation {msg : MsgValidation} {r r' : InferenceRecord} {entry : Bytes}
      {recovered : Address}
      (hlive : sm.inferences.get? msg.inferenceId = some r)
      (hslot : (sm.slotToAddress.get? msg.validatorSlot).isNone = false)
      (hself : msg.validatorSlot ≠ r.executorSlot)
      (hnew : addressHasValidated sm r msg.validatorSlot = none)
      (hstatus : r.status = .finished ∨ r.status = .challenged ∨ r.status = .validated
        ∨ r.status = .invalidated)
      (hsigner : ProposerSigned env sm { msg with proposerSig := [] }.marshal msg.proposerSig
        msg.validatorSlot recovered)
      (hescrow : msg.escrowId = sm.escrowID)
      (hrecord : r' = recordValidation sm r msg.validatorSlot msg.valid)
      (hentry : marshalInferenceEntry msg.inferenceId r' = some entry) :
      TxStep env sm (.validation msg) [⟨msg.validatorSlot, recovered⟩] fun w =>
        (if r.status = .finished ∧ msg.valid = false then
          persistLiveInferenceObsBestEffort env msg.inferenceId r'
            (w.putInference msg.inferenceId r')
         else w.putInference msg.inferenceId r').putEntry msg.inferenceId entry
  | voteResolved {msg : MsgValidationVote} {r : InferenceRecord}
      (hlive : sm.inferences.get? msg.inferenceId = some r)
      (hslot : (sm.slotToAddress.get? msg.voterSlot).isNone = false)
      (hstatus : r.status = .validated ∨ r.status = .invalidated) :
      TxStep env sm (.validationVote msg) [] id
  | vote {msg : MsgValidationVote} {r counted r' : InferenceRecord} {entry : Bytes}
      {recovered : Address}
      (hlive : sm.inferences.get? msg.inferenceId = some r)
      (hslot : (sm.slotToAddress.get? msg.voterSlot).isNone = false)
      (hstatus : r.status = .challenged)
      (hnew : addressHasValidated sm r msg.voterSlot = none)
      (hsigner : ProposerSigned env sm { msg with proposerSig := [] }.marshal msg.proposerSig
        msg.voterSlot recovered)
      (hescrow : msg.escrowId = sm.escrowID)
      (hcounted : counted = recordVote sm r msg.voterSlot msg.voteValid)
      (hrecord : r' = { counted with
        status := if counted.votesInvalid > sm.config.voteThreshold then .invalidated
          else if counted.votesValid > sm.config.voteThreshold then .validated
          else .challenged })
      (hentry : marshalInferenceEntry msg.inferenceId r' = some entry) :
      TxStep env sm (.validationVote msg) [⟨msg.voterSlot, recovered⟩] fun w =>
        (if counted.votesInvalid > sm.config.voteThreshold then
          persistLiveInferenceObsBestEffort env msg.inferenceId r'
            ((((w.updateHostStats r.executorSlot
              (fun hs => { hs with invalid := hs.invalid + 1 })).refundCost r.executorSlot
                r.actualCost).addBalance r.actualCost).putInference msg.inferenceId r')
         else if counted.votesValid > sm.config.voteThreshold then
          persistLiveInferenceObsBestEffort env msg.inferenceId r'
            (w.putInference msg.inferenceId r')
         else w.putInference msg.inferenceId r').putEntry msg.inferenceId entry
  | timeout {msg : MsgTimeoutInference} {r r' : InferenceRecord} {checks : List SigCheck}
      {acceptCount : UInt32} {entry : Bytes}
      (hlive : sm.inferences.get? msg.inferenceId = some r)
      (hreason : msg.reason.requires = some r.status)
      (hvotes : timeoutChecks env sm msg.inferenceId msg.reason msg.votes [] 0
        = some (checks, acceptCount))
      (hquorum : sm.config.voteThreshold < acceptCount)
      (hrecord : r' = { r with status := .timedOut })
      (hentry : marshalInferenceEntry msg.inferenceId r' = some entry) :
      TxStep env sm (.timeoutInference msg) checks fun w =>
        (((w.putInference msg.inferenceId r').updateHostStats r.executorSlot
          (fun hs => { hs with missed := hs.missed + 1 })).addBalance r.reservedCost).putEntry
            msg.inferenceId entry
  | revealSeed {msg : MsgRevealSeed} : TxStep env sm (.revealSeed msg) [] id
  | finalizeRound (hphase : sm.phase = .active) :
      TxStep env sm .finalizeRound [] fun w => { w with sm.phase := .finalizing }

theorem timeoutChecks_congr (env : Env) (sm : StateMachine) (keys : OrdMap ℕ Address)
    (seals : OrdMap ℕ ℕ) (id : ℕ) (reason : TimeoutReason) (votes : List TimeoutVote)
    (seen : List Address) (n : UInt32) :
    timeoutChecks env { sm with warmKeys := keys, sealedNonces := seals } id reason votes seen n
      = timeoutChecks env sm id reason votes seen n := by
  induction votes generalizing seen n with
  | nil => rfl
  | cons _ _ ih =>
    simp only [timeoutChecks, ih]
    rfl

section
variable {env : Env} {sm : StateMachine} {tx : DevshardTx} {cs : List SigCheck} {f : World → World}

theorem TxStep.congr (keys : OrdMap ℕ Address) {seals : OrdMap ℕ ℕ}
    (hstart : ∀ msg, tx = .startInference msg → sm.isDuplicateInferenceID msg.inferenceId = false →
      { sm with sealedNonces := seals }.isDuplicateInferenceID msg.inferenceId = false)
    (h : TxStep env sm tx cs f) :
    TxStep env { sm with warmKeys := keys, sealedNonces := seals } tx cs f := by
  cases h with
  | start hphase hnew hcost hbalance hentry =>
    exact .start hphase (hstart _ rfl hnew) hcost hbalance hentry
  | timeout hlive hreason hv hquorum hrecord hentry =>
    exact .timeout hlive hreason ((timeoutChecks_congr ..).trans hv) hquorum hrecord hentry
  | _ => constructor <;> assumption

/-- The steps do not see the warm keys. -/
theorem TxStep.of_sameButWarm (keys : OrdMap ℕ Address) (h : TxStep env sm tx cs f) :
    TxStep env { sm with warmKeys := keys } tx cs f :=
  h.congr keys fun _ _ hnew => hnew

/-- What a transaction does to a machine: the balance and the statistics change, and at most one
record is written. -/
structure Edit where
  balance : UInt64 → UInt64 := id
  hostStats : OrdMap ℕ HostStats → OrdMap ℕ HostStats := id
  written : Option (ℕ × InferenceRecord × Bytes) := none

def Edit.on (e : Edit) (tx : DevshardTx) (sm : StateMachine) : StateMachine :=
  { sm with
    phase := if tx = .finalizeRound then .finalizing else sm.phase
    balance := e.balance sm.balance
    hostStats := e.hostStats sm.hostStats
    inferences := e.written.elim sm.inferences fun p => sm.inferences.insert p.1 p.2.1
    committedEntries :=
      e.written.elim sm.committedEntries fun p => sm.committedEntries.insert p.1 p.2.2 }

/-- A record that is written can be marshalled, and is of a live inference or of the one started. -/
structure Edit.Fits (e : Edit) (sm : StateMachine) (tx : DevshardTx) : Prop where
  writable : ∀ p, e.written = some p → marshalInferenceEntry p.1 p.2.1 = some p.2.2
  known : ∀ p, e.written = some p →
    sm.inferences.get? p.1 ≠ none ∨ ∃ msg, tx = .startInference msg ∧ msg.inferenceId = p.1

theorem TxStep.edit (h : TxStep env sm tx cs f) :
    ∃ e : Edit, e.Fits sm tx ∧ ∀ w, (f w).sm = e.on tx w.sm := by
  have hsome {id r r' entry} (hlive : sm.inferences.get? id = some r)
      (hentry : marshalInferenceEntry id r' = some entry) (b s) :
      (⟨b, s, some (id, r', entry)⟩ : Edit).Fits sm tx := by
    constructor <;> rintro _ ⟨⟩
    · exact hentry
    · exact .inl (by rw [hlive]; exact Option.some_ne_none r)
  have hnone : (⟨id, id, none⟩ : Edit).Fits sm tx := ⟨nofun, nofun⟩
  cases h with
  | @start msg reserved entry _ _ _ _ hentry =>
    refine ⟨⟨(· - reserved), id, some (msg.inferenceId, msg.record sm.group reserved, entry)⟩,
      ⟨?_, ?_⟩, fun w => rfl⟩ <;> rintro _ ⟨⟩
    · exact hentry
    · exact .inr ⟨msg, rfl, rfl⟩
  | confirm hlive _ _ _ _ hentry =>
    exact ⟨_, hsome hlive hentry id id, fun w => rfl⟩
  | @finish _ r _ cost _ _ hlive hstatus hslot hsigner hescrow hcost hrecord hentry =>
    exact ⟨_, hsome hlive hentry (· + (r.reservedCost - r.payable cost)) (·.modify r.executorSlot
      fun hs => { hs with cost := hs.cost + r.payable cost }), fun w => rfl⟩
  | validation hlive _ _ _ _ _ _ _ hentry =>
    refine ⟨_, hsome hlive hentry id id, fun w => ?_⟩
    dsimp only [World.putEntry]
    split
    · rw [persistLiveInferenceObsBestEffort_sm]
      rfl
    · rfl
  | @vote _ r _ _ _ _ hlive hslot hstatus hnew hsigner hescrow hcounted hrecord hentry =>
    dsimp only [World.putEntry]
    split_ifs
    · refine ⟨_, hsome hlive hentry (· + r.actualCost) fun m => (m.modify r.executorSlot fun hs =>
        { hs with invalid := hs.invalid + 1 }).modify r.executorSlot fun hs =>
          { hs with cost := if hs.cost < r.actualCost then 0 else hs.cost - r.actualCost },
        fun w => ?_⟩
      rw [persistLiveInferenceObsBestEffort_sm]
      rfl
    · refine ⟨_, hsome hlive hentry id id, fun w => ?_⟩
      rw [persistLiveInferenceObsBestEffort_sm]
      rfl
    · exact ⟨_, hsome hlive hentry id id, fun w => rfl⟩
  | timeout hlive _ _ _ _ hentry =>
    exact ⟨_, hsome hlive hentry (· + _) (·.modify _ _), fun w => rfl⟩
  | _ => exact ⟨_, hnone, fun w => rfl⟩

end

section
variable {env : Env} {w w₁ : World} (h : WarmGrowth env w w₁) (r : InferenceRecord) (slot : ℕ)
  (valid : Bool)
include h

theorem WarmGrowth.recordValidation_eq :
    recordValidation w₁.sm r slot valid = recordValidation w.sm r slot valid := by
  rw [h.same]
  rfl

theorem WarmGrowth.recordVote_eq :
    recordVote w₁.sm r slot valid = recordVote w.sm r slot valid := by
  rw [h.same]
  rfl

theorem WarmGrowth.timeoutChecks_eq (id : ℕ) (reason : TimeoutReason) (votes : List TimeoutVote)
    (seen : List Address) (n : UInt32) : timeoutChecks env w₁.sm id reason votes seen n =
      timeoutChecks env w.sm id reason votes seen n := by
  rw [h.same]
  exact timeoutChecks_congr env w.sm _ _ id reason votes seen n

end

/-- A transaction is applied from `w` to `w'`. -/
def TxApplies (env : Env) (tx : DevshardTx) (w w' : World) : Prop :=
  ∃ cs f w₁, TxStep env w.sm tx cs f ∧ runChecks env cs w = some w₁ ∧ w' = f w₁

variable {env : Env} {w w₁ w' : World}

theorem runChecks_singleton {c : SigCheck} :
    runChecks env [c] w = some w' ↔ c.run env w = (true, w') := by
  rcases h : c.run env w with ⟨b, _⟩
  cases b <;> simp [runChecks, h]

theorem updateCommittedEntry_ok_iff {id : ℕ} {r : InferenceRecord} :
    updateCommittedEntry id r w = .ok () w' ↔
      ∃ entry, marshalInferenceEntry id r = some entry ∧ w' = w.putEntry id entry := by
  unfold updateCommittedEntry
  split <;> simp_all [eq_comm]

def LiveWritable (sm : StateMachine) : Prop :=
  ∀ id r, sm.inferences.get? id = some r → utf8Valid r.model

/-- The one way to fail after a change: the new record cannot be written. -/
def Unwritable (tx : DevshardTx) (sm : StateMachine) : Prop :=
  tx.getStartInference.isSome ∨ ∃ id r, sm.inferences.get? id = some r ∧ ¬ utf8Valid r.model

/-! ### What the handlers end with -/

/-- An applied transaction has a step.  A refused one has only run checks, or has failed to write its
record. -/
def TxEnds (env : Env) (tx : DevshardTx) (w : World) : Outcome Unit → Prop
  | .ok _ w' => TxApplies env tx w w'
  | .error _ w' => Checked env w w' ∨ SameSession w.sm w'.sm ∧ Unwritable tx w.sm

theorem updateCommittedEntry_error {id : ℕ} {r : InferenceRecord} {e : Err}
    (h : updateCommittedEntry id r w = .error e w') : w' = w ∧ ¬ utf8Valid r.model := by
  unfold updateCommittedEntry at h
  split at h
  · next hnone =>
    cases h
    refine ⟨rfl, fun hvalid => ?_⟩
    rw [← marshalInferenceEntry_isSome id, hnone] at hvalid
    cases hvalid
  · cases h

variable {tx : DevshardTx}

theorem TxEnds.written {id : ℕ} {r : InferenceRecord}
    (hok : ∀ entry, marshalInferenceEntry id r = some entry →
      TxApplies env tx w (w₁.putEntry id entry))
    (herror : ¬ utf8Valid r.model → SameSession w.sm w₁.sm ∧ Unwritable tx w.sm) :
    TxEnds env tx w (updateCommittedEntry id r w₁) := by
  cases h : updateCommittedEntry id r w₁ with
  | ok =>
    obtain ⟨entry, hentry, rfl⟩ := updateCommittedEntry_ok_iff.mp h
    exact hok entry hentry
  | error =>
    obtain ⟨rfl, hmodel⟩ := updateCommittedEntry_error h
    exact .inr (herror hmodel)

private theorem start_ends (msg : MsgStartInference) :
    TxEnds env (.startInference msg) w (applyStartInference msg w) := by
  unfold applyStartInference
  split
  · exact .inl .refl
  next hphase =>
  split
  · exact .inl .refl
  next hnew =>
  split
  · exact .inl .refl
  next hcost =>
  split
  · exact .inl .refl
  next hbalance =>
  exact .written (fun entry hentry => ⟨_, _, w, .start (not_not.mp hphase) (by simpa using hnew)
    hcost (UInt64.not_lt.mp hbalance) hentry, rfl, rfl⟩) fun _ => ⟨⟨rfl, rfl, rfl, rfl, rfl⟩, .inl rfl⟩

private theorem confirm_ends (msg : MsgConfirmStart) :
    TxEnds env (.confirmStart msg) w (applyConfirmStart env msg w) := by
  unfold applyConfirmStart
  split
  · exact .inl .refl
  next r hlive =>
  split
  · exact .inl .refl
  next hstatus =>
  split
  · exact .inl .refl
  next hdata =>
  split
  · exact .inl .refl
  next recovered hsigner =>
  have hchecked := Checked.run ⟨r.executorSlot, recovered⟩ (Checked.refl (w := w)) hsigner
  simp only [SigCheck.run] at hchecked
  dsimp only
  split
  · next hacc =>
    rw [hacc] at hchecked
    exact .inl hchecked
  next w₁ hacc =>
  rw [hacc] at hchecked
  exact .written (fun entry hentry => ⟨_, _, w₁, .confirm hlive (not_not.mp hstatus) hdata hsigner
      rfl hentry, runChecks_singleton.mpr hacc, rfl⟩)
    fun hmodel => ⟨hchecked.growth.sameSession.trans ⟨rfl, rfl, rfl, rfl, rfl⟩, .inr ⟨_, r, hlive, hmodel⟩⟩

private theorem finish_ends (msg : MsgFinishInference) :
    TxEnds env (.finishInference msg) w (applyFinishInference env msg w) := by
  unfold applyFinishInference
  split
  · exact .inl .refl
  next r hlive =>
  split
  · exact .inl .refl
  next hstatus =>
  split
  · exact .inl .refl
  next hslot =>
  split
  · next hverify => exact .inl (verifyProposerSig_checked hverify)
  next w₁ hverify =>
  have hchecked := verifyProposerSig_checked hverify
  obtain ⟨_, hsigner, hchecks⟩ := verifyProposerSig_ok_iff.mp hverify
  have hgrow := runChecks_growth hchecks
  split
  · exact .inl hchecked
  next hescrow =>
  rw [hgrow.escrowID_eq] at hescrow
  rw [hgrow.config_eq]
  split
  · exact .inl hchecked
  next hcost =>
  exact .written (fun entry hentry => ⟨_, _, w₁, .finish hlive (not_not.mp hstatus)
      (not_not.mp hslot) hsigner (not_not.mp hescrow) hcost rfl hentry, hchecks, rfl⟩)
    fun hmodel => ⟨hgrow.sameSession.trans ⟨rfl, rfl, rfl, rfl, rfl⟩, .inr ⟨_, r, hlive, hmodel⟩⟩

private theorem validation_ends (msg : MsgValidation) :
    TxEnds env (.validation msg) w (applyValidation env msg w) := by
  unfold applyValidation
  split
  · exact .inl .refl
  next r hlive =>
  split
  · exact .inl .refl
  next hslot =>
  rw [Bool.not_eq_true] at hslot
  split
  · exact .inl .refl
  next hself =>
  split
  · next hseen => exact ⟨_, _, w, .validationDuplicate hlive hslot hself hseen, rfl, rfl⟩
  next hnew =>
  split
  · exact .inl .refl
  next hstatus =>
  split
  · next hverify => exact .inl (verifyProposerSig_checked hverify)
  next w₁ hverify =>
  have hchecked := verifyProposerSig_checked hverify
  obtain ⟨_, hsigner, hchecks⟩ := verifyProposerSig_ok_iff.mp hverify
  have hgrow := runChecks_growth hchecks
  split
  · exact .inl hchecked
  next hescrow =>
  rw [hgrow.escrowID_eq] at hescrow
  rw [hgrow.recordValidation_eq]
  refine .written (fun entry hentry => ⟨_, _, w₁, .validation hlive hslot hself
    (by simpa using hnew) (not_not.mp hstatus) hsigner (not_not.mp hescrow) rfl hentry, hchecks,
    rfl⟩) fun hmodel => ⟨?_, ?_⟩
  · refine hgrow.sameSession.trans ?_
    split
    · rw [persistLiveInferenceObsBestEffort_sm]
      exact ⟨rfl, rfl, rfl, rfl, rfl⟩
    · exact ⟨rfl, rfl, rfl, rfl, rfl⟩
  · rw [recordValidation_model] at hmodel
    exact .inr ⟨_, r, hlive, hmodel⟩

private theorem vote_ends (msg : MsgValidationVote) :
    TxEnds env (.validationVote msg) w (applyValidationVote env msg w) := by
  unfold applyValidationVote
  split
  · exact .inl .refl
  next r hlive =>
  split
  · exact .inl .refl
  next hslot =>
  rw [Bool.not_eq_true] at hslot
  split
  · next hresolved => exact ⟨_, _, w, .voteResolved hlive hslot hresolved, rfl, rfl⟩
  split
  · exact .inl .refl
  next hstatus =>
  split
  · exact .inl .refl
  next hnew =>
  split
  · next hverify => exact .inl (verifyProposerSig_checked hverify)
  next w₁ hverify =>
  have hchecked := verifyProposerSig_checked hverify
  obtain ⟨_, hsigner, hchecks⟩ := verifyProposerSig_ok_iff.mp hverify
  have hgrow := runChecks_growth hchecks
  split
  · exact .inl hchecked
  next hescrow =>
  rw [hgrow.escrowID_eq] at hescrow
  rw [hgrow.recordVote_eq, hgrow.config_eq]
  rw [not_not] at hstatus hescrow
  have hmodel (hno : ¬ utf8Valid (recordVote w.sm r msg.voterSlot msg.voteValid).model) :
      Unwritable (.validationVote msg) w.sm := by
    rw [recordVote_model] at hno
    exact .inr ⟨_, r, hlive, hno⟩
  have hcounted : (recordVote w.sm r msg.voterSlot msg.voteValid).status = .challenged :=
    (recordVote_status ..).trans hstatus
  dsimp only
  -- what is written follows the tally
  split_ifs with hinv hval
  all_goals
    refine .written (fun entry hentry => ⟨_, _, w₁, .vote hlive hslot hstatus hnew hsigner hescrow
      rfl ?_ hentry, hchecks, ?_⟩) fun hno => ⟨hgrow.sameSession.trans ?_, hmodel hno⟩
  · rw [if_pos hinv]
  · rw [if_pos hinv]
  · rw [persistLiveInferenceObsBestEffort_sm]
    exact ⟨rfl, rfl, rfl, rfl, rfl⟩
  · rw [if_neg hinv, if_pos hval]
  · rw [if_neg hinv, if_pos hval]
  · rw [persistLiveInferenceObsBestEffort_sm]
    exact ⟨rfl, rfl, rfl, rfl, rfl⟩
  · rw [if_neg hinv, if_neg hval, ← hcounted]
  · rw [if_neg hinv, if_neg hval]
  · exact ⟨rfl, rfl, rfl, rfl, rfl⟩

theorem countTimeoutVotes_ok_iff {id : ℕ} {reason : TimeoutReason} {votes : List TimeoutVote}
    {seen : List Address} {n m : UInt32} :
    countTimeoutVotes env id reason votes seen n w = .ok m w' ↔
      ∃ cs, timeoutChecks env w.sm id reason votes seen n = some (cs, m) ∧
        runChecks env cs w = some w' := by
  induction votes generalizing seen n w with
  | nil => simp [countTimeoutVotes, timeoutChecks, runChecks, and_assoc]
  | cons vote _ ih =>
    simp only [countTimeoutVotes, timeoutChecks]
    cases haddr : w.sm.slotToAddress.get? vote.voterSlot with
    | none => simp
    | some voterAddr =>
      by_cases hseen : voterAddr ∈ seen
      · simp [hseen]
      cases hdata : timeoutVoteContent w.sm.escrowID id reason vote.accept with
      | none => simp [hseen]
      | some data =>
        cases hrec : env.recoverAddress data vote.signature with
        | none => simp [hseen, hrec]
        | some recovered =>
          -- the check of this vote, then the checks of the others
          have hslot : w.sm.slotAddress vote.voterSlot = voterAddr := by
            simp [EscrowState.slotAddress, haddr]
          have hrun : (SigCheck.mk vote.voterSlot recovered).run env w
              = acceptSigner env vote.voterSlot recovered voterAddr w := by
            simp only [SigCheck.run, hslot]
          rcases hacc : acceptSigner env vote.voterSlot recovered voterAddr w with ⟨b, _⟩
          rw [hacc] at hrun
          cases b with
          | false => simp [hseen, hrec, hacc, runChecks, hrun]
          | true =>
            have hgrow := SigCheck.run_growth env ⟨vote.voterSlot, recovered⟩ w
            rw [hrun] at hgrow
            simp only [hseen, if_false, hrec, hacc, ih, hgrow.timeoutChecks_eq,
              hgrow.addressToSlotCount_eq, Option.map_eq_some_iff]
            constructor
            · rintro ⟨cs, hcs, hruns⟩
              exact ⟨_, ⟨_, hcs, rfl⟩, by simpa [runChecks, hrun] using hruns⟩
            · rintro ⟨_, ⟨⟨cs, _⟩, hcs, heq⟩, hruns⟩
              obtain ⟨rfl, rfl⟩ := Prod.mk.inj heq
              exact ⟨cs, hcs, by simpa [runChecks, hrun] using hruns⟩

theorem countTimeoutVotes_checked (id : ℕ) (reason : TimeoutReason) (votes : List TimeoutVote)
    (seen : List Address) (n : UInt32) :
    Checked env w (countTimeoutVotes env id reason votes seen n w).world := by
  induction votes generalizing seen n w with
  | nil => exact .refl
  | cons vote _ ih =>
    unfold countTimeoutVotes
    split
    · exact .refl
    next voterAddr haddr =>
    iterate 3
      split
      · exact .refl
    next recovered hsigner =>
    have hslot : w.sm.slotAddress vote.voterSlot = voterAddr := by
      simp [EscrowState.slotAddress, haddr]
    have hchecked := Checked.run ⟨vote.voterSlot, recovered⟩ (Checked.refl (w := w)) hsigner
    simp only [SigCheck.run, hslot] at hchecked
    split
    · next w₁ hacc =>
      rw [hacc] at hchecked
      exact hchecked
    · next hacc =>
      rw [hacc] at hchecked
      exact hchecked.trans (ih _ _)

private theorem timeout_ends (msg : MsgTimeoutInference) :
    TxEnds env (.timeoutInference msg) w (applyTimeout env msg w) := by
  unfold applyTimeout
  split
  · exact .inl .refl
  next r hlive =>
  split
  · exact .inl .refl
  next hreason =>
  have hchecked := @countTimeoutVotes_checked env w msg.inferenceId msg.reason msg.votes [] 0
  split
  · next hcount =>
    rw [hcount] at hchecked
    exact .inl hchecked
  next w₁ hcount =>
  rw [hcount] at hchecked
  obtain ⟨_, hvotes, hchecks⟩ := countTimeoutVotes_ok_iff.mp hcount
  have hgrow := runChecks_growth hchecks
  rw [hgrow.config_eq]
  split
  · exact .inl hchecked
  next hquorum =>
  exact .written (fun entry hentry => ⟨_, _, w₁, .timeout hlive (not_not.mp hreason) hvotes
      (UInt32.not_le.mp hquorum) rfl hentry, hchecks, rfl⟩)
    fun hmodel => ⟨hgrow.sameSession.trans ⟨rfl, rfl, rfl, rfl, rfl⟩, .inr ⟨_, r, hlive, hmodel⟩⟩

theorem applyTx_ends (tx : DevshardTx) : TxEnds env tx w (applyTx env tx w) := by
  cases tx with
  | startInference msg => exact start_ends msg
  | confirmStart msg => exact confirm_ends msg
  | finishInference msg => exact finish_ends msg
  | timeoutInference msg => exact timeout_ends msg
  | validation msg => exact validation_ends msg
  | validationVote msg => exact vote_ends msg
  | revealSeed => exact ⟨_, _, w, .revealSeed, rfl, rfl⟩
  | finalizeRound =>
    show TxEnds env .finalizeRound w (applyFinalizeRound w)
    unfold applyFinalizeRound
    split
    · exact .inl .refl
    · next hphase => exact ⟨_, _, w, .finalizeRound (not_not.mp hphase), rfl, rfl⟩
  | empty => exact .inl .refl

theorem TxStep.applyTx_eq {cs : List SigCheck} {f : World → World} (hstep : TxStep env w.sm tx cs f)
    (hchecks : runChecks env cs w = some w₁) :
    applyTx env tx w = .ok () (f w₁) := by
  have hgrow := runChecks_growth hchecks
  cases hstep with
  | start hphase hnew hcost hbalance hentry =>
    obtain rfl : w = w₁ := by simpa [runChecks] using hchecks
    simp only [applyTx, applyStartInference, hphase, ne_eq, not_true_eq_false, if_false, hnew,
      Bool.false_eq_true, hcost, UInt64.not_lt.mpr hbalance, updateCommittedEntry, hentry]
  | confirm hlive hstatus hdata hsigner hrecord hentry =>
    subst hrecord
    have hacc := runChecks_singleton.mp hchecks
    simp only [SigCheck.run] at hacc
    simp only [applyTx, applyConfirmStart, hlive, hstatus, ne_eq, not_true_eq_false, if_false,
      hdata, hsigner, hacc, updateCommittedEntry, hentry]
  | finish hlive hstatus hslot hsigner hescrow hcost hrecord hentry =>
    subst hrecord
    have hverify := verifyProposerSig_ok_iff.mpr ⟨_, hsigner, hchecks⟩
    simp only [applyTx, applyFinishInference, hlive, hstatus, ne_eq, not_true_eq_false, if_false]
    rw [if_neg (not_not.mpr hslot), hverify]
    dsimp only
    rw [if_neg (not_not.mpr (hescrow.trans hgrow.escrowID_eq.symm)), hgrow.config_eq, hcost]
    exact updateCommittedEntry_ok_iff.mpr ⟨_, hentry, rfl⟩
  | validationDuplicate hlive hslot hself hseen =>
    obtain rfl : w = w₁ := by simpa [runChecks] using hchecks
    simp only [applyTx, applyValidation, hlive, hslot, Bool.false_eq_true, if_false, hself, hseen,
      if_true, id]
  | validation hlive hslot hself hnew hstatus hsigner hescrow hrecord hentry =>
    subst hrecord
    have hverify := verifyProposerSig_ok_iff.mpr ⟨_, hsigner, hchecks⟩
    simp only [applyTx, applyValidation, hlive, hslot, Bool.false_eq_true, if_false, hself, hnew,
      Option.isSome_none, hstatus, not_true_eq_false]
    rw [hverify]
    dsimp only
    rw [if_neg (not_not.mpr (hescrow.trans hgrow.escrowID_eq.symm)), hgrow.recordValidation_eq]
    exact updateCommittedEntry_ok_iff.mpr ⟨_, hentry, rfl⟩
  | voteResolved hlive hslot hstatus =>
    obtain rfl : w = w₁ := by simpa [runChecks] using hchecks
    simp only [applyTx, applyValidationVote, hlive, hslot, Bool.false_eq_true, if_false, hstatus,
      if_true, id]
  | @vote msg r counted r' _ _ hlive hslot hstatus hnew hsigner hescrow hcounted hrecord hentry =>
    subst hcounted
    have hverify := verifyProposerSig_ok_iff.mpr ⟨_, hsigner, hchecks⟩
    have hopen : ¬ (r.status = .validated ∨ r.status = .invalidated) := by
      rw [hstatus]
      decide
    simp only [applyTx, applyValidationVote, hlive, hslot, Bool.false_eq_true, if_false]
    rw [if_neg hopen, if_neg (not_not.mpr hstatus), hnew]
    rw [hverify]
    dsimp only
    rw [if_neg (not_not.mpr (hescrow.trans hgrow.escrowID_eq.symm)), hgrow.recordVote_eq,
      hgrow.config_eq]
    split_ifs with hinv hval
    · rw [if_pos hinv] at hrecord
      subst hrecord
      exact updateCommittedEntry_ok_iff.mpr ⟨_, hentry, rfl⟩
    · rw [if_neg hinv, if_pos hval] at hrecord
      subst hrecord
      exact updateCommittedEntry_ok_iff.mpr ⟨_, hentry, rfl⟩
    · rw [if_neg hinv, if_neg hval, ← hstatus,
        ← recordVote_status w.sm r msg.voterSlot msg.voteValid] at hrecord
      subst hrecord
      exact updateCommittedEntry_ok_iff.mpr ⟨_, hentry, rfl⟩
  | timeout hlive hreason hvotes hquorum hrecord hentry =>
    subst hrecord
    have hcount := countTimeoutVotes_ok_iff.mpr ⟨_, hvotes, hchecks⟩
    simp only [applyTx, applyTimeout, hlive, hreason, ne_eq, not_true_eq_false, if_false, hcount,
      hgrow.config_eq, UInt32.not_le.mpr hquorum, updateCommittedEntry, hentry]
  | revealSeed =>
    obtain rfl : w = w₁ := by simpa [runChecks] using hchecks
    rfl
  | finalizeRound hphase =>
    obtain rfl : w = w₁ := by simpa [runChecks] using hchecks
    simp only [applyTx, applyFinalizeRound, hphase, ne_eq, not_true_eq_false, if_false]

/-- **What a transaction does**: it is applied exactly when it has a step whose
signature checks pass. -/
theorem applyTx_ok_iff : applyTx env tx w = .ok () w' ↔ TxApplies env tx w w' := by
  constructor
  · intro h
    have hends := @applyTx_ends env w tx
    rwa [h] at hends
  · rintro ⟨_, _, _, hstep, hchecks, rfl⟩
    exact hstep.applyTx_eq hchecks

theorem applyTx_error {e : Err} (h : applyTx env tx w = .error e w') :
    Checked env w w' ∨ SameSession w.sm w'.sm ∧ Unwritable tx w.sm := by
  have hends := @applyTx_ends env w tx
  rwa [h] at hends

/-- A refused transaction has only run checks, unless it starts an inference. -/
theorem applyTx_error_checked {e : Err} (hlive : LiveWritable w.sm)
    (hstart : tx.getStartInference = none) (h : applyTx env tx w = .error e w') :
    Checked env w w' := by
  rcases applyTx_error h with hchecked | ⟨-, hfail⟩
  · exact hchecked
  · rcases hfail with hsome | ⟨id, r, hr, hmodel⟩
    · simp [hstart] at hsome
    · exact absurd (hlive id r hr) hmodel

/-- **A refused transaction leaves at most warm-key bindings behind**, unless it
starts an inference. -/
theorem applyTx_error_growth {e : Err} (hlive : LiveWritable w.sm)
    (hstart : tx.getStartInference = none) (h : applyTx env tx w = .error e w') :
    WarmGrowth env w w' :=
  (applyTx_error_checked hlive hstart h).growth

theorem applyTx_sameSession (env : Env) (tx : DevshardTx) (w : World) :
    SameSession w.sm (applyTx env tx w).world.sm := by
  cases h : applyTx env tx w with
  | ok =>
    obtain ⟨_, f, w₁, hstep, hchecks, rfl⟩ := applyTx_ok_iff.mp h
    have hsame := (runChecks_growth hchecks).sameSession
    obtain ⟨e, -, heffect⟩ := hstep.edit
    show SameSession w.sm (f w₁).sm
    rw [heffect]
    exact hsame.trans ⟨rfl, rfl, rfl, rfl, rfl⟩
  | error =>
    rcases applyTx_error h with hchecked | ⟨hsame, -⟩
    · exact hchecked.growth.sameSession
    · exact hsame

/-- **Nothing moves a settled machine**: without live inferences and outside the
active phase, a transaction leaves the world as it is. -/
theorem applyTx_settled (hphase : w.sm.phase ≠ .active)
    (hempty : ∀ id, w.sm.inferences.get? id = none) : (applyTx env tx w).world = w := by
  cases tx with
  | startInference => simp [applyTx, applyStartInference, hphase, Outcome.world]
  | confirmStart => simp [applyTx, applyConfirmStart, hempty, Outcome.world]
  | finishInference => simp [applyTx, applyFinishInference, hempty, Outcome.world]
  | timeoutInference => simp [applyTx, applyTimeout, hempty, Outcome.world]
  | validation => simp [applyTx, applyValidation, hempty, Outcome.world]
  | validationVote => simp [applyTx, applyValidationVote, hempty, Outcome.world]
  | revealSeed => rfl
  | finalizeRound => simp [applyTx, applyFinalizeRound, hphase, Outcome.world]
  | empty => rfl

end Devshard
