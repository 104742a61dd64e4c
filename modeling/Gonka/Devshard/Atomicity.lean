/-
Atomicity of the operations.

An operation that returns an error leaves the machine as it found it, whichever
step failed; a trial apply leaves it so in every case.  The argument has two
halves: no step leaves the session (`SameSession`), and within a session the
snapshot holds everything that can change (`restoreMutable_snapshotMutable`).

Main result: `operations_atomic`.
-/
import Gonka.Devshard.Pipeline
import Gonka.Devshard.TxStep

namespace Devshard

variable (env : Env) {sm : StateMachine} {w w' : World}

/-- What the steps of a seal keep of the machine: a record is settled, marked as sealed and evicted,
and the accumulator is replaced. -/
structure KeptBySeal (P : StateMachine → Prop) : Prop where
  settle : ∀ {id r} {w : World}, P w.sm → P (settleLiveRecord id r w).2.sm
  mark : ∀ {id sealNonce} {w : World}, P w.sm → P (w.markSealed id sealNonce).sm
  evict : ∀ {id} {w : World}, P w.sm → P (w.deleteInference id).sm
  acc : ∀ {sm acc}, P sm → P { sm with sealedAcc := acc }

namespace KeptBySeal

variable {P : StateMachine → Prop} (hk : KeptBySeal P) (sealNonce : ℕ)
  (entries : List (ℕ × InferenceRecord)) (cur : Bytes)
include hk

theorem drainLoop (h : P w.sm) : P (drainLoop env sealNonce entries cur w).world.sm := by
  induction entries generalizing cur w with
  | nil => exact h
  | cons e _ ih =>
    obtain ⟨id, r⟩ := e
    have hsettled : P (settleLiveRecord id r w).2.sm := hk.settle h
    unfold Devshard.drainLoop
    dsimp only
    split
    · exact hsettled
    next entry _ =>
    have hobs : P (upsertInferenceObs env id sealNonce (settleLiveRecord id r w).1
        ((settleLiveRecord id r w).2.markSealed id sealNonce)).2.sm := by
      rw [upsertInferenceObs_sm]
      exact hk.mark hsettled
    split
    · next hrun =>
      rw [hrun] at hobs
      exact hobs
    · next hrun =>
      rw [hrun] at hobs
      exact ih _ (hk.evict hobs)

theorem autoSealLoop (h : P w.sm) : P (autoSealLoop env sealNonce entries cur w).world.sm := by
  induction entries generalizing cur w with
  | nil => exact h
  | cons e _ ih =>
    obtain ⟨id, r⟩ := e
    unfold Devshard.autoSealLoop
    split
    · exact h
    · refine ih _ (hk.evict ?_)
      rw [upsertInferenceObs_sm]
      exact hk.mark h

theorem drainLiveIntoSealedAcc (h : P w.sm) :
    P (drainLiveIntoSealedAcc env sealNonce w).world.sm := by
  unfold Devshard.drainLiveIntoSealedAcc
  split
  · exact h
  have hloop := hk.drainLoop env sealNonce w.sm.inferences.entries (sealedAccBytes32 w.sm.sealedAcc) h
  split
  · next hrun =>
    rw [hrun] at hloop
    exact hloop
  · next hrun =>
    rw [hrun] at hloop
    exact hk.acc hloop

theorem autoSeal (h : P w.sm) : P (autoSeal env sealNonce w).world.sm := by
  unfold Devshard.autoSeal
  split
  · exact h
  split
  · exact h
  dsimp only
  split
  · exact h
  have hloop := hk.autoSealLoop env sealNonce (w.sm.inferences.entries.filter
    (autoSealEligible w.sm.toEscrowState sealNonce (stateClock w.sm.toEscrowState)))
    (sealedAccBytes32 w.sm.sealedAcc) h
  split
  · next hrun =>
    rw [hrun] at hloop
    exact hloop
  · next hrun =>
    rw [hrun] at hloop
    exact hk.acc hloop

theorem sealAtInterval (h : P w.sm) : P (sealAtInterval env sealNonce w).world.sm := by
  unfold Devshard.sealAtInterval
  split
  · exact hk.autoSeal env _ h
  · exact h

end KeptBySeal

theorem keptBySeal_sameSession : KeptBySeal (SameSession sm) where
  settle {id r w} h := by
    unfold settleLiveRecord
    split <;> exact h.trans ⟨rfl, rfl, rfl, rfl, rfl⟩
  mark h := h.trans ⟨rfl, rfl, rfl, rfl, rfl⟩
  evict h := h.trans ⟨rfl, rfl, rfl, rfl, rfl⟩
  acc h := h.trans ⟨rfl, rfl, rfl, rfl, rfl⟩

theorem chargeFee_sameSession (h : SameSession sm w.sm) :
    SameSession sm (chargeFee w).world.sm := by
  unfold chargeFee
  split_ifs
  · exact h
  · exact h.trans ⟨rfl, rfl, rfl, rfl, rfl⟩
  · exact h

theorem advanceNonce_sameSession (nonce : ℕ) (h : SameSession sm w.sm) :
    SameSession sm (advanceNonce nonce w).sm := by
  unfold advanceNonce
  dsimp only
  split <;> exact h.trans ⟨rfl, rfl, rfl, rfl, rfl⟩

theorem enterSettlement_sameSession (h : SameSession sm w.sm) :
    SameSession sm (enterSettlement env w).world.sm := by
  unfold enterSettlement
  split
  · exact keptBySeal_sameSession.drainLiveIntoSealedAcc env _ (h.trans ⟨rfl, rfl, rfl, rfl, rfl⟩)
  · exact h

theorem stateRoot_world (w : World) : (stateRoot w).world = w := by
  unfold stateRoot
  split <;> rfl

/-- An outcome of an operation that began on `sm`: it stays in the session, and
it has put `sm` back if it failed. -/
def RolledBack {α : Type} (sm : StateMachine) : Outcome α → Prop
  | .ok _ w => SameSession sm w.sm
  | .error _ w => w.sm = sm

theorem orRestore_rolledBack {α : Type} {wrap : Err → Err} {o : Outcome α}
    (h : SameSession sm o.world.sm) : RolledBack sm (orRestore sm.snapshotMutable wrap o) := by
  cases o with
  | ok => exact h
  | error => exact restoreMutable_snapshotMutable h

theorem applyTxs_rolledBack (txs : List DevshardTx) (h : SameSession sm w.sm) :
    RolledBack sm (applyTxs env sm.snapshotMutable txs w) := by
  induction txs generalizing w with
  | nil => exact h
  | cons tx _ ih =>
    have htx : RolledBack sm (orRestore sm.snapshotMutable id (applyTx env tx w)) :=
      orRestore_rolledBack (h.trans (applyTx_sameSession env tx w))
    unfold applyTxs
    split
    · next hrun =>
      rw [hrun] at htx
      exact htx
    · next hrun =>
      rw [hrun] at htx
      exact ih htx

theorem applyTxsBestEffort_rolledBack (txs : List DevshardTx) (h : SameSession sm w.sm) :
    RolledBack sm (applyTxsBestEffort env sm.snapshotMutable txs w) := by
  induction txs generalizing w with
  | nil => exact h
  | cons tx _ ih =>
    have htx := h.trans (applyTx_sameSession env tx w)
    unfold applyTxsBestEffort
    split
    · next hrun =>
      rw [hrun] at htx
      split
      · exact restoreMutable_snapshotMutable htx
      · exact ih htx
    · next hrun =>
      rw [hrun, Outcome.world_ok] at htx
      have hrest := ih htx
      split <;> next hmore =>
        rw [hmore] at hrest
        exact hrest

theorem closeNonce_rolledBack (nonce : ℕ) (h : SameSession sm w.sm) :
    RolledBack sm (closeNonce env nonce sm.snapshotMutable w) := by
  have hfee : RolledBack sm (orRestore sm.snapshotMutable id (chargeFee w)) :=
    orRestore_rolledBack (chargeFee_sameSession h)
  unfold closeNonce
  split
  · next hrun =>
    rw [hrun] at hfee
    exact hfee
  next w₁ hrun =>
  rw [hrun] at hfee
  have hdrain : RolledBack sm (orRestore sm.snapshotMutable .drain
      (enterSettlement env (advanceNonce nonce w₁))) :=
    orRestore_rolledBack (enterSettlement_sameSession env (advanceNonce_sameSession nonce hfee))
  split
  · next hrun =>
    rw [hrun] at hdrain
    exact hdrain
  next w₂ hrun =>
  rw [hrun] at hdrain
  have hseal : RolledBack sm (orRestore sm.snapshotMutable .autoSeal
      (sealAtInterval env nonce w₂)) :=
    orRestore_rolledBack (keptBySeal_sameSession.sealAtInterval env nonce hdrain)
  split
  · next hrun =>
    rw [hrun] at hseal
    exact hseal
  next hrun =>
  rw [hrun] at hseal
  exact orRestore_rolledBack (by rw [stateRoot_world]; exact hseal)

theorem applyCore_rolledBack (nonce : ℕ) (txs : List DevshardTx)
    (postStateRoot : Bytes) (w : World) :
    RolledBack w.sm (applyCore env nonce txs postStateRoot w) := by
  unfold applyCore
  split
  · exact rfl
  have htxs := applyTxs_rolledBack env txs (SameSession.refl w.sm)
  dsimp only
  split
  · next hrun =>
    rw [hrun] at htxs
    exact htxs
  next hrun =>
  rw [hrun] at htxs
  have hclose := closeNonce_rolledBack env nonce htxs
  split
  · next hrun =>
    rw [hrun] at hclose
    exact hclose
  next hrun =>
  rw [hrun] at hclose
  refine orRestore_rolledBack ?_
  unfold checkPostStateRoot
  split <;> exact hclose

theorem localBestEffort_rolledBack (nonce : ℕ) (txs : List DevshardTx) (w : World) :
    RolledBack w.sm (localBestEffort env nonce txs w) := by
  unfold localBestEffort
  dsimp only
  split
  · exact rfl
  have htxs := applyTxsBestEffort_rolledBack env txs (SameSession.refl w.sm)
  split
  · next hrun =>
    rw [hrun] at htxs
    exact htxs
  next hrun =>
  rw [hrun] at htxs
  have hclose := closeNonce_rolledBack env nonce htxs
  split <;> next hrun =>
    rw [hrun] at hclose
    exact hclose

theorem trialApply_sm {α : Type} {run : World → Outcome α}
    {handle : α → MutableSnapshot → OrdMap ℕ Address → List DeferredObsWrite → ValidatedDiff}
    (h : ∀ w, RolledBack w.sm (run w)) (w : World) :
    (trialApply run handle w).world.sm = w.sm := by
  have hrun := h { w with obsDeferred := some [] }
  unfold trialApply
  split
  · next hr =>
    rw [hr] at hrun
    exact hrun
  · next hr =>
    rw [hr] at hrun
    exact restoreMutable_snapshotMutable hrun

theorem applyDiff_rolledBack (diff : Diff) (w : World) :
    RolledBack w.sm (applyDiff env diff w) := by
  unfold applyDiff
  split
  · exact rfl
  · exact applyCore_rolledBack env _ _ _ w

theorem validateDiff_sm (diff : Diff) (w : World) :
    (validateDiff env diff w).world.sm = w.sm := by
  unfold validateDiff
  split
  · rfl
  · exact trialApply_sm (applyCore_rolledBack env _ _ _) w

theorem previewLocalBestEffort_sm (nonce : ℕ) (txs : List DevshardTx) (w : World) :
    (previewLocalBestEffort env nonce txs w).world.sm = w.sm :=
  trialApply_sm (localBestEffort_rolledBack env nonce txs) w

/-- **Atomicity.**  An apply that fails leaves the whole machine as it was, and a
trial apply does so whether it fails or not. -/
theorem operations_atomic (env : Env) (w : World) :
    (∀ diff e w', applyDiff env diff w = .error e w' → w'.sm = w.sm) ∧
    (∀ nonce txs e w', applyLocal env nonce txs w = .error e w' → w'.sm = w.sm) ∧
    (∀ nonce txs e w', applyLocalBestEffort env nonce txs w = .error e w' → w'.sm = w.sm) ∧
    (∀ diff, (validateDiff env diff w).world.sm = w.sm) ∧
    (∀ nonce txs, (previewLocalBestEffort env nonce txs w).world.sm = w.sm) := by
  refine ⟨fun diff e w' h => ?_, fun nonce txs e w' h => ?_, fun nonce txs e w' h => ?_,
    fun diff => validateDiff_sm env diff w,
    fun nonce txs => previewLocalBestEffort_sm env nonce txs w⟩
  · have hroll := applyDiff_rolledBack env diff w
    rw [h] at hroll
    exact hroll
  · have hroll := applyCore_rolledBack env nonce txs [] w
    rw [applyLocal] at h
    rw [h] at hroll
    exact hroll
  · have hroll := localBestEffort_rolledBack env nonce txs w
    rw [applyLocalBestEffort] at h
    rw [h] at hroll
    exact hroll

end Devshard
