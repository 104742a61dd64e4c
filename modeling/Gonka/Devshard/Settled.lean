/-
Settlement is final.

A session that has reached settlement has no live inference, and then no
transaction has any effect, not even a warm-key binding (`applyTx_settled`).  What
is left of a diff is the nonce, which no state root sees.

Main result: `settlement_frozen`.
-/
import Gonka.Devshard.Runs

namespace Devshard

variable {env : Env} {w w' : World} {snap : MutableSnapshot} {nonce : ℕ} {txs : List DevshardTx}

/-- A machine in settlement, without live inferences. -/
structure Settled (sm : StateMachine) : Prop where
  phase : sm.phase = .settlement
  live : ∀ id, sm.inferences.get? id = none

theorem Settled.ne_active {sm : StateMachine} (h : Settled sm) : sm.phase ≠ .active := by
  rw [h.phase]
  decide

theorem Settled.ne_finalizing {sm : StateMachine} (h : Settled sm) : sm.phase ≠ .finalizing := by
  rw [h.phase]
  decide

theorem Settled.applyTx_world (env : Env) (h : Settled w.sm) (tx : DevshardTx) :
    (applyTx env tx w).world = w :=
  applyTx_settled h.ne_active h.live

theorem Settled.applyTxs (h : Settled w.sm) {u : Unit}
    (hrun : applyTxs env snap txs w = .ok u w') : w' = w := by
  induction txs with
  | nil =>
    cases hrun
    rfl
  | cons tx _ ih =>
    have htx := h.applyTx_world env tx
    unfold Devshard.applyTxs at hrun
    cases ho : applyTx env tx w with
    | error =>
      rw [ho] at hrun
      cases hrun
    | ok _ w₁ =>
      rw [ho] at hrun htx
      obtain rfl : w₁ = w := htx
      exact ih hrun

theorem Settled.applyTxsBestEffort (h : Settled w.sm) {applied : List DevshardTx}
    (hrun : applyTxsBestEffort env snap txs w = .ok applied w') : w' = w := by
  induction txs generalizing applied with
  | nil =>
    cases hrun
    rfl
  | cons tx _ ih =>
    have htx := h.applyTx_world env tx
    unfold Devshard.applyTxsBestEffort at hrun
    split at hrun
    · next w₁ ho =>
      rw [ho] at htx
      obtain rfl : w₁ = w := htx
      split at hrun
      · cases hrun
      · exact ih hrun
    · next w₁ ho =>
      rw [ho] at htx
      obtain rfl : w₁ = w := htx
      split at hrun
      · cases hrun
      · next hrest =>
        cases hrun
        exact ih hrest

theorem Settled.closeNonce (h : Settled w.sm) {root : Bytes}
    (hrun : closeNonce env nonce snap w = .ok root w') :
    w' = { w with sm.latestNonce := nonce } ∧ computeStateRoot w.sm.toEscrowState = some root := by
  have hfee : chargeFee w = .ok () w := if_neg h.ne_active
  have hadvance : advanceNonce nonce w = { w with sm.latestNonce := nonce } :=
    if_neg fun hp => h.ne_finalizing hp.1
  have hsettle : enterSettlement env { w with sm.latestNonce := nonce }
      = .ok () { w with sm.latestNonce := nonce } := if_neg fun hp => h.ne_finalizing hp.1
  have hseal : sealAtInterval env nonce { w with sm.latestNonce := nonce }
      = .ok () { w with sm.latestNonce := nonce } := if_neg fun hp => h.ne_active hp.1
  have hroot : computeStateRoot { w.sm with latestNonce := nonce }.toEscrowState
      = computeStateRoot w.sm.toEscrowState :=
    computeStateRoot_congr rfl rfl rfl rfl rfl rfl rfl rfl
  simp only [Devshard.closeNonce, hfee, hadvance, hsettle, hseal, orRestore, stateRoot, hroot]
    at hrun
  cases hc : computeStateRoot w.sm.toEscrowState with
  | none =>
    rw [hc] at hrun
    cases hrun
  | some =>
    rw [hc] at hrun
    cases hrun
    exact ⟨rfl, rfl⟩

theorem Settled.applyCore (h : Settled w.sm) {postStateRoot root : Bytes}
    (hrun : applyCore env nonce txs postStateRoot w = .ok root w') :
    w' = { w with sm.latestNonce := w.sm.latestNonce + 1 } ∧
      computeStateRoot w.sm.toEscrowState = some root := by
  have hnonce := applyCore_nonce hrun
  unfold Devshard.applyCore at hrun
  split at hrun
  · cases hrun
  dsimp only at hrun
  split at hrun
  · cases hrun
  next htxs =>
  obtain rfl := h.applyTxs htxs
  split at hrun
  · cases hrun
  next hclose =>
  obtain ⟨hw₂, hroot⟩ := h.closeNonce hclose
  unfold checkPostStateRoot at hrun
  split at hrun
  · cases hrun
  · cases hrun
    rw [hnonce] at hw₂
    exact ⟨hw₂, hroot⟩

theorem Settled.localBestEffort (h : Settled w.sm) {result : Bytes × List DevshardTx}
    (hrun : localBestEffort env nonce txs w = .ok result w') :
    w' = { w with sm.latestNonce := w.sm.latestNonce + 1 } ∧
      computeStateRoot w.sm.toEscrowState = some result.1 := by
  have hnonce := localBestEffort_nonce hrun
  unfold Devshard.localBestEffort at hrun
  dsimp only at hrun
  split at hrun
  · cases hrun
  split at hrun
  · cases hrun
  next htxs =>
  obtain rfl := h.applyTxsBestEffort htxs
  split at hrun
  · cases hrun
  next hclose =>
  obtain ⟨hw₂, hroot⟩ := h.closeNonce hclose
  cases hrun
  rw [hnonce] at hw₂
  exact ⟨hw₂, hroot⟩

/-- **An operation on a settled machine only counts the nonce.** -/
theorem Applied.settled {sm sm' : StateMachine} (happ : Applied env sm sm') (h : Settled sm) :
    sm' = { sm with latestNonce := sm.latestNonce + 1 } := by
  cases happ with
  | core hw hrun =>
    subst hw
    rw [(h.applyCore hrun).1]
  | bestEffort hw hrun =>
    subst hw
    rw [(h.localBestEffort hrun).1]

theorem Rests.isSettled {B₀ : ℕ} {s : Session} (h : Rests B₀ s) (hphase : s.sm.phase = .settlement) :
    Settled s.sm :=
  ⟨hphase, h.settled hphase⟩

theorem Tracks.frozen {B₀ : ℕ} {s : Session} {d : Driver} (h : Tracks env B₀ s d)
    (hphase : s.sm.phase = .settlement) (ops : List Op) :
    ∃ n, s.sm.latestNonce ≤ n ∧
      (runOps env ops d).world.sm = { s.sm with latestNonce := n } := by
  induction ops generalizing s d with
  | nil => exact ⟨s.sm.latestNonce, le_rfl, h.machine⟩
  | cons op _ ih =>
    obtain ⟨_, hs₁, h₁⟩ := runOp_tracks env op h
    rcases hs₁ with rfl | hadv
    · exact ih h₁ hphase
    have hsm := hadv.applied.settled (h.rests.isSettled hphase)
    obtain ⟨n, hn, hrun⟩ := ih h₁ (by rw [hsm]; exact hphase)
    rw [hsm] at hn hrun
    exact ⟨n, (Nat.le_succ _).trans hn, hrun⟩

section
variable {escrowID : Bytes} {config : SessionConfig} {group : List SlotAssignment}
  {balance : UInt64} {userAddress : Address} {version : Bytes} {sm : StateMachine}

/-- **Settlement is absorbing and frozen.**  In a run that has reached settlement
no inference is live; a further apply, if it succeeds, changes nothing but the
nonce and returns the root of the state as it was; and however the run goes on,
its machine and its state root stay the same up to the nonce. -/
theorem settlement_frozen (env : Env) (hg : validateGroup group)
    (hnew : newStateMachine escrowID config group balance userAddress version = .ok sm)
    (ops : List Op) (hphase : (runOps env ops (Driver.new sm)).world.sm.phase = .settlement) :
    let d := runOps env ops (Driver.new sm)
    let next := { d.world.sm with latestNonce := d.world.sm.latestNonce + 1 }
    d.world.sm.inferences = ∅ ∧
    (∀ diff root w', applyDiff env diff d.world = .ok root w' →
      w'.sm = next ∧ computeStateRoot d.world.sm.toEscrowState = some root) ∧
    (∀ nonce txs root w', applyLocal env nonce txs d.world = .ok root w' →
      w'.sm = next ∧ computeStateRoot d.world.sm.toEscrowState = some root) ∧
    (∀ nonce txs root applied w',
      applyLocalBestEffort env nonce txs d.world = .ok (root, applied) w' →
      w'.sm = next ∧ computeStateRoot d.world.sm.toEscrowState = some root) ∧
    ∀ ops', ∃ n, d.world.sm.latestNonce ≤ n ∧
      (runOps env ops' d).world.sm = { d.world.sm with latestNonce := n } ∧
      computeStateRoot (runOps env ops' d).world.sm.toEscrowState
        = computeStateRoot d.world.sm.toEscrowState := by
  intro d next
  obtain ⟨s, -, htracks⟩ := runOps_tracks env ops (newStateMachine_tracks env hg hnew)
  have hphase' : s.sm.phase = .settlement := by
    rw [← htracks.machine]
    exact hphase
  have hsettled : Settled d.world.sm := by
    rw [htracks.machine]
    exact htracks.rests.isSettled hphase'
  refine ⟨OrdMap.ext_get? fun id => hsettled.live id, fun diff root w' hrun => ?_,
    fun nonce txs root w' hrun => ?_, fun nonce txs root applied w' hrun => ?_, fun ops' => ?_⟩
  · unfold applyDiff at hrun
    split at hrun
    · cases hrun
    · obtain ⟨hw, hroot⟩ := hsettled.applyCore hrun
      exact ⟨by rw [hw], hroot⟩
  · obtain ⟨hw, hroot⟩ := hsettled.applyCore hrun
    exact ⟨by rw [hw], hroot⟩
  · obtain ⟨hw, hroot⟩ := hsettled.localBestEffort hrun
    exact ⟨by rw [hw], hroot⟩
  · obtain ⟨n, hn, hrun⟩ := htracks.frozen hphase' ops'
    rw [← htracks.machine] at hn hrun
    refine ⟨n, hn, hrun, ?_⟩
    rw [hrun]
    exact computeStateRoot_congr rfl rfl rfl rfl rfl rfl rfl rfl

theorem settlement_frozen_sample :
    let d := runOps sampleEnv [.applyLocal 1 [sampleStart 1], .applyLocal 2 [.finalizeRound],
      .applyLocal 3 [], .applyLocal 4 []] (Driver.new sampleMachine)
    d.world.sm.phase = .settlement ∧ d.world.sm.inferences = ∅ ∧
      ∀ ops', ∃ n, d.world.sm.latestNonce ≤ n ∧
        (runOps sampleEnv ops' d).world.sm = { d.world.sm with latestNonce := n } ∧
        computeStateRoot (runOps sampleEnv ops' d).world.sm.toEscrowState
          = computeStateRoot d.world.sm.toEscrowState := by
  intro d
  have hphase : d.world.sm.phase = .settlement := by decide +kernel
  obtain ⟨hempty, -, -, -, hrest⟩ :=
    settlement_frozen sampleEnv (by decide) sampleMachine_ok _ hphase
  exact ⟨hphase, hempty, hrest⟩

end

end Devshard
