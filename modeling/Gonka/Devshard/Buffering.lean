/-
Buffered store writes.

A trial apply runs the same pipeline as a direct one; the only difference is that
the writes to the inference store are buffered.  `World.direct` turns a buffering
world into the one that has made the writes at once, and the transaction handlers
and the sweeps that log a refused row commute with it.
-/
import Gonka.Devshard.Settled

namespace Devshard

open World

variable (env : Env) {w w' : World} {calls : List StoreCall}

/-! ### Store writes -/

def storeWrite (env : Env) (escrowID : Bytes) (write : DeferredObsWrite)
    (calls : List StoreCall) : Bool × List StoreCall :=
  let inserted := calls ++ [.insertSealedInference escrowID write.row]
  if env.store calls (.insertSealedInference escrowID write.row) then
    if write.drain then
      (env.store inserted (.drainInferenceValidationObs escrowID write.id),
        inserted ++ [.drainInferenceValidationObs escrowID write.id])
    else (true, inserted)
  else (false, inserted)

theorem writeObs_eq (write : DeferredObsWrite) (w : World) :
    writeObs env write w = ((storeWrite env w.sm.escrowID write w.storeCalls).1,
      { w with storeCalls := (storeWrite env w.sm.escrowID write w.storeCalls).2 }) := by
  unfold writeObs storeWrite callStore
  cases env.store w.storeCalls (.insertSealedInference w.sm.escrowID write.row) with
  | false => rfl
  | true => cases write.drain <;> rfl

def flushedCalls (env : Env) (escrowID : Bytes) (writes : List DeferredObsWrite)
    (calls : List StoreCall) : List StoreCall :=
  writes.foldl (fun calls write => (storeWrite env escrowID write calls).2) calls

theorem flushDeferredObs_eq (writes : List DeferredObsWrite) (w : World) :
    flushDeferredObs env writes w
      = { w with storeCalls := flushedCalls env w.sm.escrowID writes w.storeCalls } := by
  induction writes generalizing w with
  | nil => rfl
  | cons _ _ ih =>
    rw [flushDeferredObs, writeObs_eq, ih]
    rfl

/-- The world that has made at once the writes that `w` has buffered. -/
def World.direct (env : Env) (w : World) : World :=
  { w with
    obsDeferred := none
    storeCalls := flushedCalls env w.sm.escrowID (w.obsDeferred.getD []) w.storeCalls }

@[simp] theorem World.direct_sm (env : Env) (w : World) : (w.direct env).sm = w.sm := rfl

/-- A world that buffers its writes, and whose store has seen `calls`. -/
def World.Buffers (w : World) (calls : List StoreCall) : Prop :=
  w.obsDeferred.isSome ∧ w.storeCalls = calls

def World.buffering (w : World) : World := { w with obsDeferred := some [] }

theorem World.buffering_buffers (w : World) : w.buffering.Buffers w.storeCalls := ⟨rfl, rfl⟩

def Outcome.mapWorld {α : Type} (g : World → World) : Outcome α → Outcome α
  | .ok a w => .ok a (g w)
  | .error e w => .error e (g w)

theorem upsertInferenceObs_direct (id sealedNonce : ℕ) (r : InferenceRecord) (h : w.Buffers calls) :
    ∃ w₁, upsertInferenceObs env id sealedNonce r w = (true, w₁) ∧ w₁.Buffers calls ∧
      ∃ accepted, upsertInferenceObs env id sealedNonce r (w.direct env)
        = (accepted, w₁.direct env) := by
  obtain ⟨_, hbuf⟩ := Option.isSome_iff_exists.mp h.1
  unfold upsertInferenceObs
  rw [hbuf]
  refine ⟨_, rfl, ⟨rfl, h.2⟩, (writeObs env ⟨id, inferenceObsRow id sealedNonce r, sealedNonce > 0⟩
    (w.direct env)).1, ?_⟩
  show writeObs env _ (w.direct env) = _
  rw [writeObs_eq]
  refine Prod.ext rfl ?_
  simp only [direct, hbuf, Option.getD_some, flushedCalls, List.foldl_append, List.foldl_cons,
    List.foldl_nil]

theorem persistLive_direct (id : ℕ) (r : InferenceRecord) (h : w.Buffers calls) :
    persistLiveInferenceObsBestEffort env id r (w.direct env)
      = (persistLiveInferenceObsBestEffort env id r w).direct env ∧
    (persistLiveInferenceObsBestEffort env id r w).Buffers calls := by
  unfold persistLiveInferenceObsBestEffort
  obtain ⟨_, hw₁, hb, _, hd⟩ :=
    upsertInferenceObs_direct env id ((w.sm.sealedNonces.get? id).getD 0) r h
  rw [direct_sm, hw₁, hd]
  exact ⟨rfl, hb⟩

theorem resolveWarmKey_direct (slot : ℕ) (recovered expected : Address) (w : World) :
    resolveWarmKey env slot recovered expected (w.direct env)
      = ((resolveWarmKey env slot recovered expected w).1,
        (resolveWarmKey env slot recovered expected w).2.direct env) := by
  unfold resolveWarmKey
  rw [direct_sm]
  cases w.sm.warmKeys.get? slot with
  | some => rfl
  | none =>
    cases env.warmResolver with
    | none => rfl
    | some =>
      have hsame : (w.direct env).warmQueries = w.warmQueries := rfl
      dsimp only
      rw [hsame]
      split <;> rfl

theorem acceptSigner_direct (slot : ℕ) (recovered expected : Address) (w : World) :
    acceptSigner env slot recovered expected (w.direct env)
      = ((acceptSigner env slot recovered expected w).1,
        (acceptSigner env slot recovered expected w).2.direct env) := by
  unfold acceptSigner
  split
  · exact resolveWarmKey_direct env slot recovered expected w
  · rfl

/-! ### Handlers -/

/-- A call that does the same whether its store writes are buffered or made at
once, and that keeps the buffer. -/
def Deferrable {α : Type} (env : Env) (f : World → Outcome α) : Prop :=
  ∀ (w : World) {calls : List StoreCall}, w.Buffers calls →
    f (w.direct env) = (f w).mapWorld (World.direct env) ∧ (f w).world.Buffers calls

theorem updateCommittedEntry_deferrable (id : ℕ) (r : InferenceRecord) :
    Deferrable env (updateCommittedEntry id r) := by
  intro w calls hw
  unfold updateCommittedEntry
  cases marshalInferenceEntry id r with
  | none | some => exact ⟨rfl, hw⟩

theorem resolveWarmKey_buffers (slot : ℕ) (recovered expected : Address)
    (hw : w.Buffers calls) : (resolveWarmKey env slot recovered expected w).2.Buffers calls := by
  unfold resolveWarmKey
  split
  · exact hw
  split
  · exact hw
  split <;> exact hw

theorem acceptSigner_buffers (slot : ℕ) (recovered expected : Address)
    (hw : w.Buffers calls) : (acceptSigner env slot recovered expected w).2.Buffers calls := by
  unfold acceptSigner
  split
  · exact resolveWarmKey_buffers env slot recovered expected hw
  · exact hw

theorem verifyProposerSig_deferrable (msg : Option Bytes) (sig : Bytes)
    (expected : Address) (slot : ℕ) :
    Deferrable env (verifyProposerSig env msg sig expected slot) := by
  intro w calls hw
  unfold verifyProposerSig
  cases msg with
  | none => exact ⟨rfl, hw⟩
  | some data =>
    dsimp only
    cases env.recoverAddress data sig with
    | none => exact ⟨rfl, hw⟩
    | some recovered =>
      dsimp only
      split
      · split
        · exact ⟨rfl, hw⟩
        have hb := resolveWarmKey_buffers env slot recovered expected hw
        rw [resolveWarmKey_direct]
        generalize resolveWarmKey env slot recovered expected w = asked at hb ⊢
        obtain ⟨b, _⟩ := asked
        cases b with
        | false | true => exact ⟨rfl, hb⟩
      · exact ⟨rfl, hw⟩

theorem countTimeoutVotes_deferrable (id : ℕ) (reason : TimeoutReason)
    (votes : List TimeoutVote) (seen : List Address) (n : UInt32) :
    Deferrable env (countTimeoutVotes env id reason votes seen n) := by
  induction votes generalizing seen n with
  | nil => exact fun w _ hw => ⟨rfl, hw⟩
  | cons vote _ ih =>
    intro w calls hw
    unfold countTimeoutVotes
    rw [direct_sm]
    cases w.sm.slotToAddress.get? vote.voterSlot with
    | none => exact ⟨rfl, hw⟩
    | some voterAddr =>
      dsimp only
      split
      · exact ⟨rfl, hw⟩
      cases timeoutVoteContent w.sm.escrowID id reason vote.accept with
      | none => exact ⟨rfl, hw⟩
      | some voteData =>
        dsimp only
        cases env.recoverAddress voteData vote.signature with
        | none => exact ⟨rfl, hw⟩
        | some recovered =>
          have hb := acceptSigner_buffers env vote.voterSlot recovered voterAddr hw
          dsimp only
          rw [acceptSigner_direct]
          generalize acceptSigner env vote.voterSlot recovered voterAddr w = asked at hb ⊢
          obtain ⟨b, w₁⟩ := asked
          cases b with
          | false => exact ⟨rfl, hb⟩
          | true => exact ih _ _ w₁ hb

theorem applyConfirmStart_deferrable (msg : MsgConfirmStart) :
    Deferrable env (applyConfirmStart env msg) := by
  intro w calls hw
  unfold applyConfirmStart
  rw [direct_sm]
  cases w.sm.inferences.get? msg.inferenceId with
  | none => exact ⟨rfl, hw⟩
  | some r =>
    dsimp only
    split
    · exact ⟨rfl, hw⟩
    cases executorReceiptContent w.sm.escrowID msg.inferenceId r msg.confirmedAt with
    | none => exact ⟨rfl, hw⟩
    | some receipt =>
      dsimp only
      cases env.recoverAddress receipt msg.executorSig with
      | none => exact ⟨rfl, hw⟩
      | some recovered =>
        have hb := acceptSigner_buffers env r.executorSlot recovered
          (w.sm.slotAddress r.executorSlot) hw
        dsimp only
        rw [acceptSigner_direct]
        generalize acceptSigner env r.executorSlot recovered
          (w.sm.slotAddress r.executorSlot) w = asked at hb ⊢
        obtain ⟨b, w₁⟩ := asked
        cases b with
        | false => exact ⟨rfl, hb⟩
        | true => exact updateCommittedEntry_deferrable env _ _ (w₁.putInference _ _) hb

theorem applyStartInference_deferrable (msg : MsgStartInference) :
    Deferrable env (applyStartInference msg) := by
  intro w calls hw
  unfold applyStartInference
  rw [direct_sm]
  split
  · exact ⟨rfl, hw⟩
  split
  · exact ⟨rfl, hw⟩
  cases tokenCost msg.inputLength msg.maxTokens w.sm.config.tokenPrice with
  | none => exact ⟨rfl, hw⟩
  | some reserved =>
    dsimp only
    split
    · exact ⟨rfl, hw⟩
    · exact updateCommittedEntry_deferrable env _ _ ((w.subBalance reserved).putInference _ _) hw

theorem applyFinishInference_deferrable (msg : MsgFinishInference) :
    Deferrable env (applyFinishInference env msg) := by
  intro w calls hw
  unfold applyFinishInference
  rw [direct_sm]
  cases w.sm.inferences.get? msg.inferenceId with
  | none => exact ⟨rfl, hw⟩
  | some r =>
    dsimp only
    split
    · exact ⟨rfl, hw⟩
    split
    · exact ⟨rfl, hw⟩
    obtain ⟨heq, hb⟩ := verifyProposerSig_deferrable env { msg with proposerSig := [] }.marshal
      msg.proposerSig (w.sm.slotAddress r.executorSlot) r.executorSlot w hw
    rw [heq]
    generalize verifyProposerSig env _ _ _ _ w = checked at hb ⊢
    cases checked with
    | error => exact ⟨rfl, hb⟩
    | ok _ w₁ =>
      dsimp only [Outcome.mapWorld]
      rw [direct_sm]
      split
      · exact ⟨rfl, hb⟩
      cases tokenCost msg.inputTokens msg.outputTokens w₁.sm.config.tokenPrice with
      | none => exact ⟨rfl, hb⟩
      | some cost =>
        exact updateCommittedEntry_deferrable env msg.inferenceId _
          (((w₁.addBalance (r.reservedCost - r.payable cost)).putInference msg.inferenceId
            (msg.record r (r.payable cost))).addCost r.executorSlot (r.payable cost)) hb

theorem persistThenCommit_deferrable (id : ℕ) (r : InferenceRecord) :
    Deferrable env fun w =>
      updateCommittedEntry id r (persistLiveInferenceObsBestEffort env id r w) := by
  intro w calls hw
  obtain ⟨hlive, hb⟩ := persistLive_direct env id r hw
  dsimp only
  rw [hlive]
  exact updateCommittedEntry_deferrable env id r _ hb

theorem applyValidation_deferrable (msg : MsgValidation) :
    Deferrable env (applyValidation env msg) := by
  intro w calls hw
  unfold applyValidation
  rw [direct_sm]
  cases w.sm.inferences.get? msg.inferenceId with
  | none => exact ⟨rfl, hw⟩
  | some r =>
    dsimp only
    iterate 4
      split
      · exact ⟨rfl, hw⟩
    obtain ⟨heq, hb⟩ := verifyProposerSig_deferrable env { msg with proposerSig := [] }.marshal
      msg.proposerSig (w.sm.slotAddress msg.validatorSlot) msg.validatorSlot w hw
    rw [heq]
    generalize verifyProposerSig env _ _ _ _ w = checked at hb ⊢
    cases checked with
    | error => exact ⟨rfl, hb⟩
    | ok _ w₁ =>
      dsimp only [Outcome.mapWorld]
      rw [direct_sm]
      split
      · exact ⟨rfl, hb⟩
      split
      · -- a challenge is written to the store
        exact persistThenCommit_deferrable env msg.inferenceId
          (recordValidation w₁.sm r msg.validatorSlot msg.valid)
          (w₁.putInference msg.inferenceId
            (recordValidation w₁.sm r msg.validatorSlot msg.valid)) hb
      · exact updateCommittedEntry_deferrable env msg.inferenceId _
          (w₁.putInference msg.inferenceId
            (recordValidation w₁.sm r msg.validatorSlot msg.valid)) hb

theorem applyValidationVote_deferrable (msg : MsgValidationVote) :
    Deferrable env (applyValidationVote env msg) := by
  intro w calls hw
  unfold applyValidationVote
  rw [direct_sm]
  cases w.sm.inferences.get? msg.inferenceId with
  | none => exact ⟨rfl, hw⟩
  | some r =>
    dsimp only
    iterate 3
      split
      · exact ⟨rfl, hw⟩
    cases addressHasValidated w.sm r msg.voterSlot with
    | some => exact ⟨rfl, hw⟩
    | none =>
      obtain ⟨heq, hb⟩ := verifyProposerSig_deferrable env { msg with proposerSig := [] }.marshal
        msg.proposerSig (w.sm.slotAddress msg.voterSlot) msg.voterSlot w hw
      rw [heq]
      generalize verifyProposerSig env _ _ _ _ w = checked at hb ⊢
      cases checked with
      | error => exact ⟨rfl, hb⟩
      | ok _ w₁ =>
        dsimp only [Outcome.mapWorld]
        rw [direct_sm]
        generalize recordVote w₁.sm r msg.voterSlot msg.voteValid = counted
        split
        · exact ⟨rfl, hb⟩
        split
        · exact persistThenCommit_deferrable env msg.inferenceId
            { counted with status := .invalidated }
            ((((w₁.updateHostStats r.executorSlot
              (fun hs => { hs with invalid := hs.invalid + 1 })).refundCost r.executorSlot
                r.actualCost).addBalance r.actualCost).putInference msg.inferenceId
                  { counted with status := .invalidated }) hb
        split
        · exact persistThenCommit_deferrable env msg.inferenceId
            { counted with status := .validated }
            (w₁.putInference msg.inferenceId { counted with status := .validated }) hb
        · exact updateCommittedEntry_deferrable env msg.inferenceId counted
            (w₁.putInference msg.inferenceId counted) hb

theorem applyTimeout_deferrable (msg : MsgTimeoutInference) :
    Deferrable env (applyTimeout env msg) := by
  intro w calls hw
  unfold applyTimeout
  rw [direct_sm]
  cases w.sm.inferences.get? msg.inferenceId with
  | none => exact ⟨rfl, hw⟩
  | some r =>
    dsimp only
    split
    · exact ⟨rfl, hw⟩
    obtain ⟨heq, hb⟩ := countTimeoutVotes_deferrable env msg.inferenceId msg.reason msg.votes [] 0
      w hw
    rw [heq]
    generalize countTimeoutVotes env _ _ _ _ _ w = counted at hb ⊢
    cases counted with
    | error => exact ⟨rfl, hb⟩
    | ok _ w₁ =>
      dsimp only [Outcome.mapWorld]
      rw [direct_sm]
      split
      · exact ⟨rfl, hb⟩
      exact updateCommittedEntry_deferrable env msg.inferenceId { r with status := .timedOut }
        (((w₁.putInference msg.inferenceId { r with status := .timedOut }).updateHostStats
          r.executorSlot (fun hs => { hs with missed := hs.missed + 1 })).addBalance
            r.reservedCost) hb

theorem applyTx_deferrable (tx : DevshardTx) : Deferrable env (applyTx env tx) := by
  cases tx with
  | startInference msg => exact applyStartInference_deferrable env msg
  | confirmStart msg => exact applyConfirmStart_deferrable env msg
  | finishInference msg => exact applyFinishInference_deferrable env msg
  | validation msg => exact applyValidation_deferrable env msg
  | validationVote msg => exact applyValidationVote_deferrable env msg
  | timeoutInference msg => exact applyTimeout_deferrable env msg
  | revealSeed => exact fun w _ hw => ⟨rfl, hw⟩
  | finalizeRound =>
    intro w calls hw
    show applyFinalizeRound (w.direct env) = Outcome.mapWorld _ (applyFinalizeRound w) ∧
      (applyFinalizeRound w).world.Buffers calls
    unfold applyFinalizeRound
    rw [direct_sm]
    split <;> exact ⟨rfl, hw⟩
  | empty => exact fun w _ hw => ⟨rfl, hw⟩

/-! ### The pipeline -/

section
variable {env} {α β : Type}

/-- `h` runs `f` and then `g`. -/
structure Chains (h : World → Outcome β) (f : World → Outcome α)
    (g : α → World → Outcome β) : Prop where
  error : ∀ {w e w₁}, f w = .error e w₁ → h w = .error e w₁
  ok : ∀ {w a w₁}, f w = .ok a w₁ → h w = g a w₁

theorem Deferrable.bind {h : World → Outcome β} {f : World → Outcome α}
    {g : α → World → Outcome β} (hh : Chains h f g) (hf : Deferrable env f)
    (hg : ∀ a, Deferrable env (g a)) : Deferrable env h := by
  intro w calls hw
  obtain ⟨heq, hb⟩ := hf w hw
  cases hfw : f w with
  | error =>
    rw [hfw] at heq hb
    rw [hh.error hfw, hh.error heq]
    exact ⟨rfl, hb⟩
  | ok a w₁ =>
    rw [hfw] at heq hb
    rw [hh.ok hfw, hh.ok heq]
    exact hg a w₁ hb

theorem Deferrable.orRestore {f : World → Outcome α} (hf : Deferrable env f)
    (snap : MutableSnapshot) (wrap : Err → Err) :
    Deferrable env fun w => orRestore snap wrap (f w) := by
  intro w calls hw
  obtain ⟨heq, hb⟩ := hf w hw
  dsimp only
  rw [heq]
  generalize f w = o at hb ⊢
  cases o with
  | error | ok => exact ⟨rfl, hb⟩

end

theorem applyTxs_deferrable (snap : MutableSnapshot) (txs : List DevshardTx) :
    Deferrable env (applyTxs env snap txs) := by
  induction txs with
  | nil => exact fun w _ hw => ⟨rfl, hw⟩
  | cons tx _ ih =>
    refine Deferrable.bind ?_ ((applyTx_deferrable env tx).orRestore snap id) fun _ => ih
    exact ⟨fun h => by rw [applyTxs, h], fun h => by rw [applyTxs, h]⟩

theorem applyTxsBestEffort_deferrable (snap : MutableSnapshot)
    (txs : List DevshardTx) : Deferrable env (applyTxsBestEffort env snap txs) := by
  induction txs with
  | nil => exact fun w _ hw => ⟨rfl, hw⟩
  | cons tx txs ih =>
    intro w calls hw
    obtain ⟨heq, hb⟩ := applyTx_deferrable env tx w hw
    unfold applyTxsBestEffort
    rw [heq]
    generalize applyTx env tx w = tried at hb ⊢
    cases tried with
    | error e w₁ =>
      dsimp only [Outcome.mapWorld]
      split
      · exact ⟨rfl, hb⟩
      · exact ih w₁ hb
    | ok _ w₁ =>
      obtain ⟨heq₁, hb₁⟩ := ih w₁ hb
      dsimp only [Outcome.mapWorld]
      rw [heq₁]
      generalize applyTxsBestEffort env snap txs w₁ = rest at hb₁ ⊢
      cases rest with
      | error | ok => exact ⟨rfl, hb₁⟩

theorem chargeFee_deferrable : Deferrable env chargeFee := by
  intro w calls hw
  unfold chargeFee
  rw [direct_sm]
  split
  · split <;> exact ⟨rfl, hw⟩
  · exact ⟨rfl, hw⟩

theorem advanceNonce_direct (nonce : ℕ) (w : World) :
    advanceNonce nonce (w.direct env) = (advanceNonce nonce w).direct env := by
  unfold advanceNonce
  by_cases h : w.sm.phase = .finalizing ∧ w.sm.finalizeNonce = 0
  · have h' : (w.direct env).sm.phase = .finalizing ∧ (w.direct env).sm.finalizeNonce = 0 := h
    simp only [h, h', and_self, if_true]
    rfl
  · have h' : ¬ ((w.direct env).sm.phase = .finalizing ∧ (w.direct env).sm.finalizeNonce = 0) := h
    simp only [h, h', if_false]
    rfl

theorem advanceNonce_buffers (nonce : ℕ) (hw : w.Buffers calls) : (advanceNonce nonce w).Buffers calls := by
  obtain ⟨_, heq⟩ := advanceNonce_eq nonce w
  rw [heq]
  exact hw

theorem stateRoot_deferrable : Deferrable env stateRoot := by
  intro w calls hw
  unfold stateRoot
  rw [direct_sm]
  cases computeStateRoot w.sm.toEscrowState with
  | none | some => exact ⟨rfl, hw⟩

theorem autoSealLoop_deferrable (sealNonce : ℕ)
    (entries : List (ℕ × InferenceRecord)) (cur : Bytes) :
    Deferrable env (autoSealLoop env sealNonce entries cur) := by
  induction entries generalizing cur with
  | nil => exact fun w _ hw => ⟨rfl, hw⟩
  | cons e _ ih =>
    obtain ⟨id, r⟩ := e
    intro w calls hw
    unfold autoSealLoop
    cases marshalInferenceEntry id r with
    | none => exact ⟨rfl, hw⟩
    | some =>
      obtain ⟨w₁, hw₁, hb, _, hd⟩ := upsertInferenceObs_direct env id sealNonce r
        (show (w.markSealed id sealNonce).Buffers calls from hw)
      rw [hw₁, show (w.direct env).markSealed id sealNonce
        = (w.markSealed id sealNonce).direct env from rfl, hd]
      exact ih _ (w₁.deleteInference id) hb

theorem sealAtInterval_deferrable (nonce : ℕ) :
    Deferrable env (sealAtInterval env nonce) := by
  intro w calls hw
  unfold sealAtInterval autoSeal
  rw [direct_sm]
  split
  · split
    · exact ⟨rfl, hw⟩
    split
    · exact ⟨rfl, hw⟩
    dsimp only
    split
    · exact ⟨rfl, hw⟩
    obtain ⟨heq, hb⟩ := autoSealLoop_deferrable env nonce (w.sm.inferences.entries.filter
      (autoSealEligible w.sm.toEscrowState nonce (stateClock w.sm.toEscrowState)))
      (sealedAccBytes32 w.sm.sealedAcc) w hw
    rw [heq]
    generalize autoSealLoop env nonce _ _ w = swept at hb ⊢
    cases swept with
    | error | ok => exact ⟨rfl, hb⟩
  · exact ⟨rfl, hw⟩

end Devshard
