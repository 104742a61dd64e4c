/-
The transactions perform steps of the session.

A machine that runs the transactions of a diff goes through steps of `Step`, one
for each binding and one for each effect, and under `Conserved` none of them
wraps an amount.

Main result: `TxStep.performs`.
-/
import Gonka.Devshard.Atomicity
import Gonka.Devshard.Votes

namespace Devshard

open World

variable {env : Env} {B₀ : ℕ} {w w' : World} {sealed : List SealedRecord}

theorem addBalance_wrapped {x : UInt64} (h : w.sm.balance.toNat + x.toNat < 2 ^ 64) :
    (w.addBalance x).wrapped = w.wrapped := by
  simp only [addBalance, decide_eq_false (Nat.not_le.mpr h), Bool.or_false]

theorem subBalance_wrapped {x : UInt64} (h : x ≤ w.sm.balance) :
    (w.subBalance x).wrapped = w.wrapped := by
  have hle : ¬ w.sm.balance.toNat < x.toNat := Nat.not_lt.mpr (UInt64.le_iff_toNat_le.mp h)
  simp only [subBalance, decide_eq_false hle, Bool.or_false]

theorem addFees_wrapped {x : UInt64} (h : w.sm.fees.toNat + x.toNat < 2 ^ 64) :
    (w.addFees x).wrapped = w.wrapped := by
  simp only [addFees, decide_eq_false (Nat.not_le.mpr h), Bool.or_false]

theorem addCost_wrapped {slot : ℕ} {x : UInt64} (h : (w.cost slot).toNat + x.toNat < 2 ^ 64) :
    (w.addCost slot x).wrapped = w.wrapped := by
  simp only [addCost, decide_eq_false (Nat.not_le.mpr h), Bool.or_false]

theorem refundCost_wrapped {slot : ℕ} {x : UInt64} (h : x ≤ w.cost slot) :
    (w.refundCost slot x).wrapped = w.wrapped := by
  simp only [refundCost, decide_eq_false (UInt64.not_lt.mpr h), Bool.or_false]

theorem cost_of_get? {slot : ℕ} {hs : HostStats} (h : w.sm.hostStats.get? slot = some hs) :
    w.cost slot = hs.cost := by
  simp [cost, h]

theorem writeObs_wrapped (env : Env) (write : DeferredObsWrite) (w : World) :
    (writeObs env write w).2.wrapped = w.wrapped := by
  unfold writeObs callStore
  split
  · next h => rw [← (Prod.mk.inj h).2]
  · next h =>
    rw [← (Prod.mk.inj h).2]
    split <;> rfl

@[simp] theorem upsertInferenceObs_wrapped (env : Env) (id sealedNonce : ℕ) (r : InferenceRecord)
    (w : World) : (upsertInferenceObs env id sealedNonce r w).2.wrapped = w.wrapped := by
  unfold upsertInferenceObs
  split
  · rfl
  · exact writeObs_wrapped env _ w

@[simp] theorem persistLiveInferenceObsBestEffort_wrapped (env : Env) (id : ℕ)
    (r : InferenceRecord) (w : World) :
    (persistLiveInferenceObsBestEffort env id r w).wrapped = w.wrapped :=
  upsertInferenceObs_wrapped env id _ r w

theorem StateMachine.credit_zero (sm : StateMachine) (slot : ℕ) : sm.credit 0 slot id = sm := by
  unfold StateMachine.credit
  rw [OrdMap.modify_id, UInt64.add_zero]

theorem Step.move_free {s : Session} {infId : ℕ} {r r' : InferenceRecord} {entry : Bytes}
    (hlive : s.sm.inferences.get? infId = some r) (hmove : Move s.sm r r' 0 id)
    (hentry : marshalInferenceEntry infId r' = some entry) :
    Step s { s with
      sm.inferences := s.sm.inferences.insert infId r'
      sm.committedEntries := s.sm.committedEntries.insert infId entry } := by
  have hstep := Step.move hlive hmove hentry
  rw [StateMachine.credit_zero] at hstep
  exact hstep

theorem putEntry_sm (w : World) (id : ℕ) (entry : Bytes) : (w.putEntry id entry).sm
      = { w.sm with committedEntries := w.sm.committedEntries.insert id entry } := rfl

theorem InferenceRecord.payable_le (r : InferenceRecord) (cost : UInt64) :
    r.payable cost ≤ r.reservedCost := by
  unfold InferenceRecord.payable
  split
  · exact UInt64.le_refl _
  · next h => exact UInt64.not_lt.mp h

theorem requires_status {reason : TimeoutReason} {status : InferenceStatus}
    (h : reason.requires = some status) : status = .pending ∨ status = .started := by
  cases reason <;> simp_all [TimeoutReason.requires]

/-- **An applied transaction is a step**, and wraps nothing. -/
theorem TxStep.performs {tx : DevshardTx} {cs : List SigCheck} {f : World → World}
    (hc : Conserved B₀ ⟨w.sm, sealed⟩) (hstep : TxStep env w.sm tx cs f)
    (hid : ∀ msg, tx = .startInference msg → msg.inferenceId = w.sm.latestNonce + 1) :
    Steps ⟨w.sm, sealed⟩ ⟨(f w).sm, sealed⟩ ∧ (f w).wrapped = w.wrapped := by
  have hexec : ∀ {id r}, w.sm.inferences.get? id = some r →
      ∃ hs, w.sm.hostStats.get? r.executorSlot = some hs ∧ Covered r hs := by
    intro id r hlive
    obtain ⟨hs, hhs⟩ := Option.isSome_iff_exists.mp (hc.executors id r hlive)
    exact ⟨hs, hhs, hc.covered hlive hhs⟩
  cases hstep with
  | @start msg reserved entry hphase hnew hcost hbalance hentry =>
    simp only [StateMachine.isDuplicateInferenceID, Bool.or_eq_false_iff, Option.isSome_eq_false_iff,
      Option.isNone_iff_eq_none] at hnew
    refine ⟨.single (Step.start hphase (hid msg rfl) hnew.1.1 hnew.1.2 hnew.2
      ⟨rfl, rfl, rfl, rfl, rfl, rfl⟩ hbalance hentry), ?_⟩
    exact subBalance_wrapped hbalance
  | @confirm msg r r' data entry recovered hlive hstatus hdata hsigner hrecord hentry =>
    subst hrecord
    exact ⟨.single (Step.move_free hlive (.confirm _ hstatus) hentry), rfl⟩
  | @finish msg r r' cost entry recovered hlive hstatus hslot hsigner hescrow hcost hrecord hentry =>
    subst hrecord
    have hle := r.payable_le cost
    have hmove : Move w.sm r _ _ _ := .finish msg.responseHash msg.inputTokens
      msg.outputTokens (r.payable cost) hstatus hle
    refine ⟨.single (Step.move (s := ⟨w.sm, sealed⟩) hlive hmove hentry), ?_⟩
    obtain ⟨_, hhs, hcov⟩ := hexec hlive
    have hroom := hcov.room
    rw [InferenceRecord.outstanding, if_pos (.inr hstatus)] at hroom
    have hle' := UInt64.le_iff_toNat_le.mp hle
    refine (addCost_wrapped ?_).trans
      (addBalance_wrapped (hc.credit_toNat hlive hhs (hmove.balanced hcov)))
    show (w.cost r.executorSlot).toNat + _ < _
    rw [cost_of_get? hhs]
    omega
  | validationDuplicate => exact ⟨.refl, rfl⟩
  | @validation msg r r' entry recovered hlive hslot hself hnew hstatus hsigner hescrow hrecord
      hentry =>
    subst hrecord
    have hmove := Step.move_free (s := ⟨w.sm, sealed⟩) hlive
      (.validate msg.validatorSlot msg.valid hslot hself hnew hstatus) hentry
    split
    · refine ⟨.single ?_, ?_⟩
      · rw [putEntry_sm, persistLiveInferenceObsBestEffort_sm]
        exact hmove
      · exact persistLiveInferenceObsBestEffort_wrapped env _ _ _
    · exact ⟨.single hmove, rfl⟩
  | voteResolved => exact ⟨.refl, rfl⟩
  | @vote msg r counted r' entry recovered hlive hslot hstatus hnew hsigner hescrow hcounted
      hrecord hentry =>
    subst hcounted
    dsimp only
    by_cases hinv : (recordVote w.sm r msg.voterSlot msg.voteValid).votesInvalid
        > w.sm.config.voteThreshold
    · -- invalidated: the executor's cost goes back to the balance
      rw [if_pos hinv] at hrecord ⊢
      subst hrecord
      have hmove : Move w.sm r _ _ _ :=
        .invalidated msg.voterSlot msg.voteValid hslot hnew hstatus hinv
      obtain ⟨_, hhs, hcov⟩ := hexec hlive
      refine ⟨.single ?_, ?_⟩
      · have hstep := Step.move (s := ⟨w.sm, sealed⟩) hlive hmove hentry
        rw [putEntry_sm, persistLiveInferenceObsBestEffort_sm]
        simp only [putInference, addBalance, refundCost, updateHostStats,
          OrdMap.modify_modify]
        exact hstep
      · refine (persistLiveInferenceObsBestEffort_wrapped env _ _ _).trans ?_
        refine (addBalance_wrapped ?_).trans (refundCost_wrapped ?_)
        · exact hc.credit_toNat hlive hhs (hmove.balanced hcov)
        have hear := hcov.earned
        rw [InferenceRecord.earned, if_pos (.inr (.inl hstatus))] at hear
        simpa [cost, updateHostStats, OrdMap.get?_modify, hhs,
          UInt64.le_iff_toNat_le] using hear
    rw [if_neg hinv] at hrecord ⊢
    by_cases hval : (recordVote w.sm r msg.voterSlot msg.voteValid).votesValid
        > w.sm.config.voteThreshold
    · rw [if_pos hval] at hrecord ⊢
      subst hrecord
      refine ⟨.single ?_, persistLiveInferenceObsBestEffort_wrapped env _ _ _⟩
      rw [putEntry_sm, persistLiveInferenceObsBestEffort_sm]
      exact Step.move_free (s := ⟨w.sm, sealed⟩) hlive (.validated msg.voterSlot msg.voteValid hslot
        hnew hstatus (UInt32.not_lt.mp hinv) hval) hentry
    · rw [if_neg hval] at hrecord ⊢
      rw [← hstatus, ← recordVote_status w.sm r msg.voterSlot msg.voteValid] at hrecord
      subst hrecord
      exact ⟨.single (Step.move_free (s := ⟨w.sm, sealed⟩) hlive (.vote msg.voterSlot msg.voteValid
        hslot hnew hstatus (UInt32.not_lt.mp hinv) (UInt32.not_lt.mp hval)) hentry), rfl⟩
  | @timeout msg r r' checks acceptCount entry hlive hreason hvotes hquorum hrecord hentry =>
    subst hrecord
    have hmove : Move w.sm r _ _ _ := .timeout (requires_status hreason)
    obtain ⟨_, hhs, hcov⟩ := hexec hlive
    exact ⟨.single (Step.move (s := ⟨w.sm, sealed⟩) hlive hmove hentry),
      addBalance_wrapped (hc.credit_toNat hlive hhs (hmove.balanced hcov))⟩
  | revealSeed => exact ⟨.refl, rfl⟩
  | finalizeRound hphase => exact ⟨.single (Step.finalizeRound hphase), rfl⟩

structure Sound (B₀ : ℕ) (s : Session) : Prop where
  conserved : Conserved B₀ s
  consistent : Consistent s

theorem Sound.steps {s s' : Session} (hsteps : Steps s s') (h : Sound B₀ s) : Sound B₀ s' :=
  hsteps.invariant (fun _ _ hstep h => ⟨h.conserved.step hstep, h.consistent.step hstep⟩) h

theorem Sound.liveWritable (h : Sound B₀ ⟨w.sm, sealed⟩) : LiveWritable w.sm :=
  fun _ _ hr => h.consistent.writable hr

/-- From `w` to `w'` within a nonce, before anything is sealed. -/
structure Within (sealed : List SealedRecord) (w w' : World) : Prop where
  steps : Steps ⟨w.sm, sealed⟩ ⟨w'.sm, sealed⟩
  latestNonce : w'.sm.latestNonce = w.sm.latestNonce
  settled : w'.sm.phase = .settlement → w.sm.phase = .settlement
  wrapped : w'.wrapped = w.wrapped

theorem Within.refl : Within sealed w w := ⟨.refl, rfl, id, rfl⟩

theorem Within.trans {w₁ : World} (h : Within sealed w w₁) (h' : Within sealed w₁ w') :
    Within sealed w w' :=
  ⟨h.steps.trans h'.steps, h'.latestNonce.trans h.latestNonce, fun hp => h.settled (h'.settled hp),
    h'.wrapped.trans h.wrapped⟩

theorem WarmGrowth.within (h : WarmGrowth env w w') : Within sealed w w' := by
  rw [h.same]
  exact ⟨.single (Step.bind _), rfl, id, rfl⟩

/-- A transaction does not advance the nonce, and the only phase it can enter is
the finalizing one. -/
theorem TxStep.same_nonce_phase {tx : DevshardTx} {cs : List SigCheck} {f : World → World}
    {sm : StateMachine} (h : TxStep env sm tx cs f) (w : World) :
    (f w).sm.latestNonce = w.sm.latestNonce ∧
      ((f w).sm.phase = .settlement → w.sm.phase = .settlement) := by
  obtain ⟨e, -, heffect⟩ := h.edit
  rw [heffect]
  refine ⟨rfl, fun hphase => ?_⟩
  simp only [Edit.on] at hphase
  split at hphase
  · cases hphase
  · exact hphase

/-- A start transaction may be applied at the nonce after `latestNonce` only. -/
def StartsAtNext (sm : StateMachine) (tx : DevshardTx) : Prop :=
  ∀ msg, tx = .startInference msg → msg.inferenceId = sm.latestNonce + 1

theorem Within.startsAtNext {tx : DevshardTx} (h : Within sealed w w')
    (hid : StartsAtNext w.sm tx) : StartsAtNext w'.sm tx := by
  intro msg hmsg
  rw [h.latestNonce]
  exact hid msg hmsg

theorem applyTx_within {tx : DevshardTx} (hs : Sound B₀ ⟨w.sm, sealed⟩)
    (hid : StartsAtNext w.sm tx) (h : applyTx env tx w = .ok () w') : Within sealed w w' := by
  obtain ⟨cs, f, w₁, hstep, hchecks, rfl⟩ := applyTx_ok_iff.mp h
  -- the checks bind keys, then the effect is a step of the machine with those keys
  have hbind : Within sealed w w₁ := (runChecks_growth hchecks).within
  have hstep₁ : TxStep env w₁.sm tx cs f := by
    rw [(runChecks_growth hchecks).same]
    exact hstep.of_sameButWarm _
  obtain ⟨hsteps, hwrapped⟩ := hstep₁.performs (hs.steps hbind.steps).conserved
    (hbind.startsAtNext hid)
  obtain ⟨hnonce, hphase⟩ := hstep₁.same_nonce_phase w₁
  exact hbind.trans ⟨hsteps, hnonce, hphase, hwrapped⟩

theorem applyTx_error_wrapped {tx : DevshardTx} {e : Err} (hlive : LiveWritable w.sm)
    (h : applyTx env tx w = .error e w') : w'.wrapped = w.wrapped := by
  cases hstart : tx.getStartInference with
  | none => rw [(applyTx_error_growth hlive hstart h).same]
  | some =>
    cases tx <;> simp only [DevshardTx.getStartInference, reduceCtorEq, Option.some_inj] at hstart
    simp only [applyTx, applyStartInference] at h
    split_ifs at h
    · cases h
      rfl
    · cases h
      rfl
    split at h
    · cases h
      rfl
    split at h
    · cases h
      rfl
    next hbalance =>
    obtain ⟨rfl, -⟩ := updateCommittedEntry_error h
    exact subBalance_wrapped (UInt64.not_lt.mp hbalance)

def WithinOutcome {α : Type} (sealed : List SealedRecord) (w : World) : Outcome α → Prop
  | .ok _ w' => Within sealed w w'
  | .error _ w' => w'.wrapped = w.wrapped

theorem WithinOutcome.of_within {α : Type} {w₁ : World} {o : Outcome α}
    (h : Within sealed w w₁) (ho : WithinOutcome sealed w₁ o) : WithinOutcome sealed w o := by
  cases o with
  | ok => exact h.trans ho
  | error => exact Eq.trans ho h.wrapped

theorem applyTxs_within (env : Env) (snap : MutableSnapshot) {txs : List DevshardTx}
    (hs : Sound B₀ ⟨w.sm, sealed⟩) (hids : ∀ tx ∈ txs, StartsAtNext w.sm tx) :
    WithinOutcome sealed w (applyTxs env snap txs w) := by
  induction txs generalizing w with
  | nil => exact Within.refl
  | cons tx _ ih =>
    unfold applyTxs
    cases htx : applyTx env tx w with
    | error e w₁ =>
      show w₁.wrapped = w.wrapped
      exact applyTx_error_wrapped hs.liveWritable htx
    | ok =>
      have h₁ := applyTx_within hs (hids tx (by simp)) htx
      exact .of_within h₁ (ih (hs.steps h₁.steps) fun tx' htx' =>
        h₁.startsAtNext (hids tx' (by simp [htx'])))

theorem applyTxsBestEffort_within (env : Env) (snap : MutableSnapshot) {txs : List DevshardTx}
    (hs : Sound B₀ ⟨w.sm, sealed⟩) (hids : ∀ tx ∈ txs, StartsAtNext w.sm tx) :
    WithinOutcome sealed w (applyTxsBestEffort env snap txs w) := by
  induction txs generalizing w with
  | nil => exact Within.refl
  | cons tx txs ih =>
    have hrest : ∀ {w₁}, Within sealed w w₁ →
        WithinOutcome sealed w₁ (applyTxsBestEffort env snap txs w₁) := by
      intro w₁ h₁
      exact ih (hs.steps h₁.steps) fun tx' htx' => h₁.startsAtNext (hids tx' (by simp [htx']))
    unfold applyTxsBestEffort
    split
    · next w₁ htx =>
      split
      · show w₁.wrapped = w.wrapped
        exact applyTx_error_wrapped hs.liveWritable htx
      next hstart =>
      -- skipped: only bindings remain of it
      have hnone : tx.getStartInference = none := by simpa using hstart
      have h₁ : Within sealed w w₁ := (applyTx_error_growth hs.liveWritable hnone htx).within
      exact .of_within h₁ (hrest h₁)
    · next htx =>
      have h₁ := applyTx_within hs (hids tx (by simp)) htx
      have hmore := WithinOutcome.of_within h₁ (hrest h₁)
      split <;> next hrun =>
        rw [hrun] at hmore
        exact hmore

end Devshard
