/-
Persist-first and direct applies.

Of the whole pipeline only the settlement drain looks at the store's answer: a
refused row ends a direct apply, and a trial, whose rows are buffered, does not
notice.  Whether a diff drains, and which inferences, shows in the state before it.

Main results: `persistFirst_of_drainTaken`, `validateDiff_ignores_drain`.
-/
import Gonka.Devshard.Buffering

namespace Devshard

open World

variable {env : Env} {w w' : World} {calls : List StoreCall}

/-! ### Machines that differ in their seal nonces

No root and no balance reads the seal nonces, so the lemmas below compare two
machines up to them; `S` says how the two sets of seal nonces are related. -/

/-- Sealing the same inference on both sides keeps the relation. -/
def SealClosed (S : OrdMap ℕ ℕ → OrdMap ℕ ℕ → Prop) : Prop :=
  ∀ ⦃m m' : OrdMap ℕ ℕ⦄ (id n : ℕ), S m m' → S (m.insert id n) (m'.insert id n)

/-- `sm'` is `sm` but for its seal nonces. -/
def SameUpTo (S : OrdMap ℕ ℕ → OrdMap ℕ ℕ → Prop) (sm sm' : StateMachine) : Prop :=
  ∃ seals, S sm.sealedNonces seals ∧ sm' = { sm with sealedNonces := seals }

theorem sealClosed_eq : SealClosed Eq := by
  rintro _ _ _ _ rfl
  rfl

@[simp] theorem sameUpTo_eq {sm sm' : StateMachine} : SameUpTo Eq sm sm' ↔ sm' = sm := by
  constructor
  · rintro ⟨_, rfl, rfl⟩
    rfl
  · rintro rfl
    exact ⟨_, rfl, rfl⟩

variable {S : OrdMap ℕ ℕ → OrdMap ℕ ℕ → Prop}

/-! ### The settlement drain -/

theorem settleLiveRecord_direct (env : Env) (id : ℕ) (r : InferenceRecord) (w : World) :
    settleLiveRecord id r (w.direct env)
      = ((settleLiveRecord id r w).1, (settleLiveRecord id r w).2.direct env) := by
  unfold settleLiveRecord
  split <;> rfl

theorem settleLiveRecord_buffers (id : ℕ) (r : InferenceRecord) (hw : w.Buffers calls) :
    (settleLiveRecord id r w).2.Buffers calls := by
  unfold settleLiveRecord
  split <;> exact hw

theorem settleLiveRecord_phase (id : ℕ) (r : InferenceRecord) (w : World) :
    (settleLiveRecord id r w).2.sm.phase = w.sm.phase := by
  unfold settleLiveRecord
  split <;> rfl

theorem settleLiveRecord_sameUpTo (id : ℕ) (r : InferenceRecord) (h : SameUpTo S w.sm w'.sm) :
    (settleLiveRecord id r w').1 = (settleLiveRecord id r w).1 ∧
      SameUpTo S (settleLiveRecord id r w).2.sm (settleLiveRecord id r w').2.sm := by
  obtain ⟨sm, _⟩ := w
  obtain ⟨sm', _⟩ := w'
  obtain ⟨seals, hseals, hsm⟩ := h
  obtain rfl : sm' = { sm with sealedNonces := seals } := hsm
  unfold settleLiveRecord
  split <;> exact ⟨rfl, seals, hseals, rfl⟩

theorem SameUpTo.evict (hS : SealClosed S) {v v' : World} (id sealNonce : ℕ)
    (h : SameUpTo S w.sm w'.sm) (hv : v.sm = (w.markSealed id sealNonce).sm)
    (hv' : v'.sm = (w'.markSealed id sealNonce).sm) :
    SameUpTo S (v.deleteInference id).sm (v'.deleteInference id).sm := by
  obtain ⟨seals, hseals, hsm⟩ := h
  refine ⟨seals.insert id sealNonce, ?_, ?_⟩
  · simp only [deleteInference, hv, markSealed]
    exact hS id sealNonce hseals
  · simp only [deleteInference, hv, hv', markSealed, hsm]

/-- A write refused by the store ends a direct drain. -/
def DrainStops {α : Type} (o : Outcome α) : Prop :=
  ∃ id w', o = .error (.persistSealed id) w' ∧ w'.obsDeferred = none

theorem drainLoop_direct (env : Env) (sealNonce : ℕ) (entries : List (ℕ × InferenceRecord))
    (cur : Bytes) (hw : w.Buffers calls) :
    (drainLoop env sealNonce entries cur (w.direct env)
        = (drainLoop env sealNonce entries cur w).mapWorld (World.direct env) ∧
      (drainLoop env sealNonce entries cur w).world.Buffers calls) ∨
    DrainStops (drainLoop env sealNonce entries cur (w.direct env)) := by
  induction entries generalizing cur w with
  | nil => exact .inl ⟨rfl, hw⟩
  | cons e _ ih =>
    obtain ⟨id, r⟩ := e
    unfold drainLoop
    rw [settleLiveRecord_direct]
    have hb := settleLiveRecord_buffers id r hw
    generalize settleLiveRecord id r w = settled at hb ⊢
    obtain ⟨r', w₁⟩ := settled
    dsimp only
    cases marshalInferenceEntry id r' with
    | none => exact .inl ⟨rfl, hb⟩
    | some =>
      obtain ⟨w₂, hw₂, hb₂, accepted, hd⟩ := upsertInferenceObs_direct env id sealNonce r'
        (show (w₁.markSealed id sealNonce).Buffers calls from hb)
      rw [hw₂, show (w₁.direct env).markSealed id sealNonce
        = (w₁.markSealed id sealNonce).direct env from rfl, hd]
      cases accepted with
      | false => exact .inr ⟨id, w₂.direct env, rfl, rfl⟩
      | true => exact ih _ (show (w₂.deleteInference id).Buffers calls from hb₂)

variable {w₁ : World}

theorem drainLoop_buffered (hS : SealClosed S) (env env' : Env) (sealNonce : ℕ)
    (entries : List (ℕ × InferenceRecord)) (cur : Bytes) (hw' : w'.Buffers calls)
    (hsm : SameUpTo S w.sm w'.sm) {acc : Bytes}
    (h : drainLoop env sealNonce entries cur w = .ok acc w₁) :
    (∃ w₂, drainLoop env' sealNonce entries cur w' = .ok acc w₂ ∧ SameUpTo S w₁.sm w₂.sm) ∧
      w₁.sm.phase = w.sm.phase := by
  induction entries generalizing cur w w' with
  | nil =>
    cases h
    exact ⟨⟨w', rfl, hsm⟩, rfl⟩
  | cons e _ ih =>
    obtain ⟨id, r⟩ := e
    unfold drainLoop at h ⊢
    dsimp only at h ⊢
    obtain ⟨hr, hsm₁⟩ := settleLiveRecord_sameUpTo id r hsm
    have hphase := settleLiveRecord_phase id r w
    have hb' := settleLiveRecord_buffers id r hw'
    rw [hr]
    generalize settleLiveRecord id r w = settled at *
    generalize settleLiveRecord id r w' = settled' at *
    obtain ⟨r₁, v⟩ := settled
    obtain ⟨_, v'⟩ := settled'
    cases hentry : marshalInferenceEntry id r₁ with
    | none => rw [hentry] at h; cases h
    | some =>
      have hsm₂ := upsertInferenceObs_sm env id sealNonce r₁ (v.markSealed id sealNonce)
      obtain ⟨v₂', hv₂', hb₂', -⟩ := upsertInferenceObs_direct env' id sealNonce r₁
        (show (v'.markSealed id sealNonce).Buffers calls from hb')
      have hsm₂' := upsertInferenceObs_sm env' id sealNonce r₁ (v'.markSealed id sealNonce)
      rw [hentry] at h
      rw [hv₂'] at hsm₂' ⊢
      generalize upsertInferenceObs env id sealNonce r₁ (v.markSealed id sealNonce) = written
        at h hsm₂
      obtain ⟨accepted, v₂⟩ := written
      cases accepted with
      | false => cases h
      | true =>
        obtain ⟨hrun, hph⟩ := ih _ (show (v₂'.deleteInference id).Buffers calls from hb₂')
          (hsm₁.evict hS id sealNonce hsm₂ hsm₂') h
        refine ⟨hrun, hph.trans ?_⟩
        show v₂.sm.phase = w.sm.phase
        rw [hsm₂]
        exact hphase

theorem drainLiveIntoSealedAcc_direct (env : Env) (sealNonce : ℕ) (hw : w.Buffers calls) :
    (drainLiveIntoSealedAcc env sealNonce (w.direct env)
        = (drainLiveIntoSealedAcc env sealNonce w).mapWorld (World.direct env) ∧
      (drainLiveIntoSealedAcc env sealNonce w).world.Buffers calls) ∨
    DrainStops (drainLiveIntoSealedAcc env sealNonce (w.direct env)) := by
  unfold drainLiveIntoSealedAcc
  rw [direct_sm]
  split
  · exact .inl ⟨rfl, hw⟩
  rcases drainLoop_direct env sealNonce w.sm.inferences.entries (sealedAccBytes32 w.sm.sealedAcc)
    hw with ⟨heq, hb⟩ | ⟨id, w₁, heq, hnone⟩
  · rw [heq]
    generalize drainLoop env sealNonce _ _ w = drained at hb ⊢
    cases drained with
    | error | ok => exact .inl ⟨rfl, hb⟩
  · rw [heq]
    exact .inr ⟨id, w₁, rfl, hnone⟩

theorem drainLiveIntoSealedAcc_buffered (hS : SealClosed S) (env env' : Env) (sealNonce : ℕ)
    (hw' : w'.Buffers calls) (h : SameUpTo S w.sm w'.sm) {u : Unit}
    (hdrain : drainLiveIntoSealedAcc env sealNonce w = .ok u w₁) :
    (∃ w₂, drainLiveIntoSealedAcc env' sealNonce w' = .ok () w₂ ∧ SameUpTo S w₁.sm w₂.sm) ∧
      w₁.sm.phase = w.sm.phase := by
  obtain ⟨seals, hseals, hsm⟩ := h
  unfold drainLiveIntoSealedAcc at hdrain ⊢
  rw [hsm]
  split at hdrain
  · next hempty =>
    cases hdrain
    rw [if_pos hempty]
    exact ⟨⟨w', rfl, seals, hseals, hsm⟩, rfl⟩
  · next hlive =>
    rw [if_neg hlive]
    cases hrun : drainLoop env sealNonce w.sm.inferences.entries
        (sealedAccBytes32 w.sm.sealedAcc) w with
    | error e w₂ => rw [hrun] at hdrain; cases hdrain
    | ok cur w₂ =>
      rw [hrun] at hdrain
      cases hdrain
      obtain ⟨⟨_, hrun', seals₃, hseals₃, hsm₃⟩, hphase⟩ :=
        drainLoop_buffered hS env env' _ _ _ hw' ⟨seals, hseals, hsm⟩ hrun
      rw [hrun']
      exact ⟨⟨_, rfl, seals₃, hseals₃, by dsimp only; rw [hsm₃]⟩, hphase⟩

theorem enterSettlement_direct (env : Env) (hw : w.Buffers calls) :
    (enterSettlement env (w.direct env) = (enterSettlement env w).mapWorld (World.direct env) ∧
      (enterSettlement env w).world.Buffers calls) ∨
    (DrainStops (enterSettlement env (w.direct env)) ∧
      w.sm.phase = .finalizing ∧ deadlinePassed w.sm) := by
  unfold enterSettlement
  rw [direct_sm]
  split
  · next hpassed =>
    rcases drainLiveIntoSealedAcc_direct env w.sm.latestNonce
      (show ({ w with sm.phase := .settlement } : World).Buffers calls from hw) with hsame | hstop
    · exact .inl hsame
    · exact .inr ⟨hstop, hpassed⟩
  · exact .inl ⟨rfl, hw⟩

theorem enterSettlement_buffered (hS : SealClosed S) {env : Env} (env' : Env) {u : Unit}
    (hdrain : enterSettlement env w = .ok u w₁) (hw' : w'.Buffers calls)
    (h : SameUpTo S w.sm w'.sm) :
    ∃ w₂, enterSettlement env' w' = .ok () w₂ ∧ SameUpTo S w₁.sm w₂.sm := by
  obtain ⟨seals, hseals, hsm⟩ := h
  unfold enterSettlement at hdrain ⊢
  have hsame : (w'.sm.phase = .finalizing ∧ deadlinePassed w'.sm) ↔
      (w.sm.phase = .finalizing ∧ deadlinePassed w.sm) := by
    rw [hsm]
    exact Iff.rfl
  split at hdrain
  · next hpassed =>
    rw [if_pos (hsame.mpr hpassed)]
    have hnonce : w'.sm.latestNonce = w.sm.latestNonce := by rw [hsm]
    rw [hnonce]
    have hsettling : SameUpTo S { w.sm with phase := .settlement }
        { w'.sm with phase := .settlement } := ⟨seals, hseals, by rw [hsm]⟩
    exact (drainLiveIntoSealedAcc_buffered hS env env' w.sm.latestNonce
      (show ({ w' with sm.phase := .settlement } : World).Buffers calls from hw')
      hsettling hdrain).1
  · next hnot =>
    cases hdrain
    rw [if_neg (mt hsame.mp hnot)]
    exact ⟨w', rfl, seals, hseals, hsm⟩

theorem enterSettlement_phase (env : Env) (hpassed : w.sm.phase = .finalizing ∧ deadlinePassed w.sm)
    {u : Unit} (h : enterSettlement env w = .ok u w₁) : w₁.sm.phase = .settlement := by
  unfold enterSettlement at h
  rw [if_pos hpassed] at h
  exact (drainLiveIntoSealedAcc_buffered (w := { w with sm.phase := .settlement }) sealClosed_eq
    env env w.sm.latestNonce (buffering_buffers { w with sm.phase := .settlement })
    (sameUpTo_eq.mpr rfl) h).2

/-! ### Closing a nonce -/

/-- The transition to settlement fails because the store refuses a row; with the
rows buffered it would go through, and the state would have root `root`. -/
def SettlementRefused (env : Env) (nonce : ℕ) (w : World) (root : Bytes) : Prop :=
  (∃ id w₁, enterSettlement env (advanceNonce nonce w) = .error (.persistSealed id) w₁) ∧
    ∃ w₁, enterSettlement env (advanceNonce nonce w).buffering = .ok () w₁ ∧
      computeStateRoot w₁.sm.toEscrowState = some root

/-- The nonce would be closed with root `root` but for a refused row. -/
def DrainRefused (env : Env) (nonce : ℕ) (w : World) (root : Bytes) : Prop :=
  ∃ w₁, chargeFee w = .ok () w₁ ∧ SettlementRefused env nonce w₁ root

/-- A call that does the same with its writes buffered or made at once, unless
the store refuses a write that it must not: the direct call then fails, and what
the buffered one returns is `refused`. -/
def DeferrableUnless {α : Type} (env : Env) (refused : World → α → Prop)
    (f : World → Outcome α) : Prop :=
  ∀ (w : World) {calls : List StoreCall}, w.Buffers calls →
    (f (w.direct env) = (f w).mapWorld (World.direct env) ∧ (f w).world.Buffers calls) ∨
    ((∃ e w', f (w.direct env) = .error e w' ∧ w'.obsDeferred = none) ∧
      ∀ {a w'}, f w = .ok a w' → refused (w.direct env) a)

theorem Deferrable.bindUnless {α β : Type} {h : World → Outcome β} {f : World → Outcome α}
    {g : α → World → Outcome β} {refused : α → World → β → Prop} (hh : Chains h f g)
    (hf : Deferrable env f) (hg : ∀ a, DeferrableUnless env (refused a) (g a)) :
    DeferrableUnless env (fun w b => ∃ a w₁, f w = .ok a w₁ ∧ refused a w₁ b) h := by
  intro w calls hw
  obtain ⟨heq, hb⟩ := hf w hw
  cases hfw : f w with
  | error =>
    rw [hfw] at heq hb
    rw [hh.error hfw, hh.error heq]
    exact .inl ⟨rfl, hb⟩
  | ok a w₁ =>
    rw [hfw] at heq hb
    rw [hh.ok hfw, hh.ok heq]
    exact (hg a w₁ hb).imp_right fun ⟨hstops, hrefused⟩ =>
      ⟨hstops, fun hok => ⟨a, _, heq, hrefused hok⟩⟩

section
variable (env : Env) (nonce : ℕ) (snap : MutableSnapshot)

/-- The end of `closeNonce`: the periodic seal and the state root. -/
def sealAndRoot (w : World) : Outcome Bytes :=
  match orRestore snap .autoSeal (sealAtInterval env nonce w) with
  | .error e w => .error e w
  | .ok _ w => orRestore snap .stateRoot (stateRoot w)

/-- `closeNonce` after the fee. -/
def settleAndSeal (w : World) : Outcome Bytes :=
  match orRestore snap .drain (enterSettlement env (advanceNonce nonce w)) with
  | .error e w => .error e w
  | .ok _ w => sealAndRoot env nonce snap w

theorem closeNonce_chains : Chains (closeNonce env nonce snap)
    (fun w => orRestore snap id (chargeFee w)) fun _ => settleAndSeal env nonce snap := by
  constructor
  · intro w e w₁ h
    rw [closeNonce, h]
  · intro w a w₁ h
    rw [closeNonce, h]
    rfl

theorem sealAndRoot_deferrable : Deferrable env (sealAndRoot env nonce snap) := by
  refine Deferrable.bind ⟨?_, ?_⟩ ((sealAtInterval_deferrable env nonce).orRestore snap .autoSeal)
    fun _ => (stateRoot_deferrable env).orRestore snap .stateRoot
  · intro w e w₁ h
    rw [sealAndRoot, h]
  · intro w a w₁ h
    rw [sealAndRoot, h]

theorem sealAndRoot_settlement (hphase : w.sm.phase = .settlement) {root : Bytes}
    (h : sealAndRoot env nonce snap w = .ok root w₁) :
    computeStateRoot w.sm.toEscrowState = some root := by
  have hoff : sealAtInterval env nonce w = .ok () w := by
    unfold sealAtInterval
    rw [if_neg]
    rintro ⟨hactive, -⟩
    rw [hphase] at hactive
    cases hactive
  unfold sealAndRoot at h
  rw [hoff] at h
  change orRestore snap .stateRoot (stateRoot w) = .ok root w₁ at h
  unfold stateRoot at h
  split at h
  · cases h
  · next hroot =>
    cases h
    exact hroot

theorem settleAndSeal_deferrable :
    DeferrableUnless env (SettlementRefused env nonce) (settleAndSeal env nonce snap) := by
  intro w calls hw
  have hb := advanceNonce_buffers nonce hw
  unfold settleAndSeal SettlementRefused
  rw [advanceNonce_direct]
  generalize advanceNonce nonce w = w₁ at hb ⊢
  rcases enterSettlement_direct env hb with ⟨heq, hb₁⟩ | ⟨⟨id, w₂, hstop, hnone⟩, hpassed⟩
  · -- no write is refused
    refine .inl ?_
    rw [heq]
    cases hrun : enterSettlement env w₁ with
    | error =>
      rw [hrun] at hb₁
      exact ⟨rfl, hb₁⟩
    | ok u w₂ =>
      rw [hrun] at hb₁
      exact sealAndRoot_deferrable env nonce snap w₂ hb₁
  · -- a refused write ends the direct call only
    refine .inr ⟨⟨.drain (.persistSealed id), w₂.restore snap, by rw [hstop]; rfl, hnone⟩, ?_⟩
    intro root w' hok
    cases hrun : enterSettlement env w₁ with
    | error =>
      rw [hrun] at hok
      cases hok
    | ok u w₃ =>
      rw [hrun] at hok
      have hroot := sealAndRoot_settlement env nonce snap (enterSettlement_phase env hpassed hrun) hok
      obtain ⟨w₄, hrun', hsm⟩ := enterSettlement_buffered sealClosed_eq env hrun
        (w₁.direct env).buffering_buffers (sameUpTo_eq.mpr rfl)
      rw [← sameUpTo_eq.mp hsm] at hroot
      exact ⟨⟨id, w₂, hstop⟩, w₄, hrun', hroot⟩

theorem closeNonce_deferrable :
    DeferrableUnless env (DrainRefused env nonce) (closeNonce env nonce snap) := by
  have h := ((chargeFee_deferrable env).orRestore snap id).bindUnless
    (closeNonce_chains env nonce snap) fun _ => settleAndSeal_deferrable env nonce snap
  have hsame : (fun w root => ∃ (a : Unit) (w₁ : World),
      orRestore snap id (chargeFee w) = .ok a w₁ ∧ SettlementRefused env nonce w₁ root)
      = DrainRefused env nonce := by
    funext w root
    unfold DrainRefused
    cases chargeFee w with
    | error | ok => simp [orRestore]
  rw [← hsame]
  exact h

end

/-- Every transaction of the diff is taken, and the nonce would be closed with a
root that the diff does not contradict, but for a refused row. -/
def ApplyRefused (env : Env) (nonce : ℕ) (txs : List DevshardTx) (postStateRoot : Bytes)
    (w : World) (root : Bytes) : Prop :=
  checkDiff w.sm.latestNonce nonce txs = .ok () ∧
    ∃ w₁, applyTxs env w.sm.snapshotMutable txs w = .ok () w₁ ∧ DrainRefused env nonce w₁ root ∧
      ¬ (postStateRoot.length > 0 ∧ root ≠ postStateRoot)

/-- The same for the best-effort path, where there is no root to match. -/
def BestEffortRefused (env : Env) (nonce : ℕ) (txs : List DevshardTx) (w : World)
    (result : Bytes × List DevshardTx) : Prop :=
  checkDiff w.sm.latestNonce nonce txs = .ok () ∧
    ∃ w₁, applyTxsBestEffort env w.sm.snapshotMutable txs w = .ok result.2 w₁ ∧
      DrainRefused env nonce w₁ result.1

theorem applyCore_deferrable (env : Env) (nonce : ℕ) (txs : List DevshardTx)
    (postStateRoot : Bytes) :
    DeferrableUnless env (ApplyRefused env nonce txs postStateRoot)
      (applyCore env nonce txs postStateRoot) := by
  intro w calls hw
  unfold applyCore ApplyRefused
  rw [direct_sm]
  cases checkDiff w.sm.latestNonce nonce txs with
  | error => exact .inl ⟨rfl, hw⟩
  | ok =>
    dsimp only
    obtain ⟨heq, hb⟩ := applyTxs_deferrable env w.sm.snapshotMutable txs w hw
    rw [heq]
    generalize applyTxs env w.sm.snapshotMutable txs w = applied at hb ⊢
    cases applied with
    | error => exact .inl ⟨rfl, hb⟩
    | ok _ w₁ =>
      dsimp only [Outcome.mapWorld]
      rcases closeNonce_deferrable env nonce w.sm.snapshotMutable w₁ hb with
        ⟨heq₁, hb₁⟩ | ⟨⟨e, w₂, herr, hnone⟩, hrefused⟩
      · rw [heq₁]
        generalize closeNonce env nonce w.sm.snapshotMutable w₁ = closed at hb₁ ⊢
        cases closed with
        | error => exact .inl ⟨rfl, hb₁⟩
        | ok =>
          dsimp only [Outcome.mapWorld]
          unfold checkPostStateRoot
          split <;> exact .inl ⟨rfl, hb₁⟩
      · rw [herr]
        refine .inr ⟨⟨e, w₂, rfl, hnone⟩, ?_⟩
        intro root w₃ hok
        cases hclose : closeNonce env nonce w.sm.snapshotMutable w₁ with
        | error => rw [hclose] at hok; cases hok
        | ok =>
          rw [hclose] at hok
          unfold checkPostStateRoot at hok
          dsimp only at hok
          split at hok
          · cases hok
          · next hroot =>
            cases hok
            exact ⟨rfl, _, rfl, hrefused hclose, hroot⟩

theorem localBestEffort_deferrable (env : Env) (nonce : ℕ) (txs : List DevshardTx) :
    DeferrableUnless env (BestEffortRefused env nonce txs) (localBestEffort env nonce txs) := by
  intro w calls hw
  unfold localBestEffort BestEffortRefused
  rw [direct_sm]
  cases checkDiff w.sm.latestNonce nonce txs with
  | error => exact .inl ⟨rfl, hw⟩
  | ok =>
    dsimp only
    obtain ⟨heq, hb⟩ := applyTxsBestEffort_deferrable env w.sm.snapshotMutable txs w hw
    rw [heq]
    generalize applyTxsBestEffort env w.sm.snapshotMutable txs w = tried at hb ⊢
    cases tried with
    | error => exact .inl ⟨rfl, hb⟩
    | ok applied w₁ =>
      dsimp only [Outcome.mapWorld]
      rcases closeNonce_deferrable env nonce w.sm.snapshotMutable w₁ hb with
        ⟨heq₁, hb₁⟩ | ⟨⟨e, w₂, herr, hnone⟩, hrefused⟩
      · rw [heq₁]
        generalize closeNonce env nonce w.sm.snapshotMutable w₁ = closed at hb₁ ⊢
        cases closed with
        | error | ok => exact .inl ⟨rfl, hb₁⟩
      · rw [herr]
        refine .inr ⟨⟨e, w₂, rfl, hnone⟩, ?_⟩
        intro result w₃ hok
        cases hclose : closeNonce env nonce w.sm.snapshotMutable w₁ with
        | error => rw [hclose] at hok; cases hok
        | ok =>
          rw [hclose] at hok
          cases hok
          exact ⟨rfl, _, rfl, hrefused hclose⟩

/-! ### The drain, seen from the state before the diff -/

def StoreCall.inferenceID : StoreCall → ℕ
  | .insertSealedInference _ row => row.inferenceID
  | .drainInferenceValidationObs _ id => id

/-- The diff takes the session into settlement: it is finalizing, or the diff begins
that, and the deadline has passed at `nonce`. -/
def SettlesAt (nonce : ℕ) (txs : List DevshardTx) (sm : StateMachine) : Prop :=
  (sm.phase = .finalizing ∨ sm.phase = .active ∧ .finalizeRound ∈ txs) ∧
    (if sm.finalizeNonce = 0 then nonce else sm.finalizeNonce) + sm.group.length ≤ nonce

/-- A diff that takes the session into settlement finds a store that takes the rows of
the inferences live before it, and of the one it starts. -/
def DrainTaken (env : Env) (nonce : ℕ) (txs : List DevshardTx) (sm : StateMachine) : Prop :=
  SettlesAt nonce txs sm → ∀ id,
    sm.inferences.get? id ≠ none ∨ (∃ msg, .startInference msg ∈ txs ∧ msg.inferenceId = id) →
    ∀ calls c, c.inferenceID = id → env.store calls c = true

theorem upsertInferenceObs_taken {id : ℕ}
    (htakes : ∀ calls c, c.inferenceID = id → env.store calls c = true) (sealedNonce : ℕ)
    (r : InferenceRecord) (w : World) : (upsertInferenceObs env id sealedNonce r w).1 = true := by
  have hrow : ∀ calls escrowID, env.store calls
      (.insertSealedInference escrowID (inferenceObsRow id sealedNonce r)) = true :=
    fun calls _ => htakes calls _ rfl
  have hdrain : ∀ calls escrowID, env.store calls (.drainInferenceValidationObs escrowID id) = true :=
    fun calls _ => htakes calls _ rfl
  unfold upsertInferenceObs
  split
  · rfl
  · simp only [writeObs, callStore, hrow, hdrain]
    split <;> rfl

theorem drainLoop_taken {sealNonce : ℕ} {entries : List (ℕ × InferenceRecord)} {cur : Bytes}
    (htakes : ∀ e ∈ entries, ∀ calls c, c.inferenceID = e.1 → env.store calls c = true) {id : ℕ} :
    drainLoop env sealNonce entries cur w ≠ .error (.persistSealed id) w₁ := by
  induction entries generalizing cur w with
  | nil => exact nofun
  | cons e _ ih =>
    obtain ⟨id', r⟩ := e
    unfold drainLoop
    dsimp only
    split
    · exact nofun
    next entry hentry =>
    have hrow := upsertInferenceObs_taken (htakes (id', r) List.mem_cons_self) sealNonce
      (settleLiveRecord id' r w).1 ((settleLiveRecord id' r w).2.markSealed id' sealNonce)
    split
    · next hrefused =>
      rw [hrefused] at hrow
      cases hrow
    · exact ih fun e he => htakes e (List.mem_cons_of_mem _ he)

theorem enterSettlement_taken {id : ℕ}
    (htakes : w.sm.phase = .finalizing → deadlinePassed w.sm →
      ∀ id', w.sm.inferences.get? id' ≠ none →
        ∀ calls c, c.inferenceID = id' → env.store calls c = true) :
    enterSettlement env w ≠ .error (.persistSealed id) w₁ := by
  intro hdrain
  unfold enterSettlement drainLiveIntoSealedAcc at hdrain
  split at hdrain
  · next hpassed =>
    dsimp only at hdrain
    split at hdrain
    · cases hdrain
    split at hdrain
    · next herr =>
      cases hdrain
      refine drainLoop_taken (fun e he => htakes hpassed.1 hpassed.2 e.1 ?_) herr
      rw [OrdMap.get?_eq_some_iff.mpr he]
      exact Option.some_ne_none e.2
    · cases hdrain
  · cases hdrain

/-- What the drain looks at, before and after the transactions. -/
structure LeadsTo (txs : List DevshardTx) (sm sm' : StateMachine) : Prop where
  group : sm'.group = sm.group
  finalizeNonce : sm'.finalizeNonce = sm.finalizeNonce
  active : sm'.phase = .active → sm.phase = .active
  finalizing : sm'.phase = .finalizing →
    sm.phase = .finalizing ∨ sm.phase = .active ∧ .finalizeRound ∈ txs
  live : ∀ id, sm'.inferences.get? id ≠ none →
    sm.inferences.get? id ≠ none ∨ ∃ msg, .startInference msg ∈ txs ∧ msg.inferenceId = id

section
variable {tx : DevshardTx} {txs applied : List DevshardTx} {snap : MutableSnapshot} {nonce : ℕ}
  {post root : Bytes} {sm sm₁ sm₂ : StateMachine}

theorem LeadsTo.refl (txs : List DevshardTx) (sm : StateMachine) : LeadsTo txs sm sm :=
  ⟨rfl, rfl, id, .inl, fun _ => .inl⟩

theorem LeadsTo.trans (h : LeadsTo [tx] sm sm₁) (h' : LeadsTo txs sm₁ sm₂) :
    LeadsTo (tx :: txs) sm sm₂ where
  group := h'.group.trans h.group
  finalizeNonce := h'.finalizeNonce.trans h.finalizeNonce
  active hphase := h.active (h'.active hphase)
  finalizing hphase := by
    rcases h'.finalizing hphase with hbefore | ⟨hactive, hmem⟩
    · exact (h.finalizing hbefore).imp_right fun ⟨hactive, hmem⟩ =>
        ⟨hactive, List.mem_cons.mpr (.inl (List.mem_singleton.mp hmem))⟩
    · exact .inr ⟨h.active hactive, List.mem_cons_of_mem tx hmem⟩
  live id hid := by
    rcases h'.live id hid with hbefore | ⟨msg, hmem, hmsg⟩
    · exact (h.live id hbefore).imp_right fun ⟨msg, hmem, hmsg⟩ =>
        ⟨msg, List.mem_cons.mpr (.inl (List.mem_singleton.mp hmem)), hmsg⟩
    · exact .inr ⟨msg, List.mem_cons_of_mem tx hmem, hmsg⟩

theorem applyTx_leadsTo (h : applyTx env tx w = .ok () w') : LeadsTo [tx] w.sm w'.sm := by
  obtain ⟨_, _, w₁, hstep, hchecks, rfl⟩ := applyTx_ok_iff.mp h
  obtain ⟨e, hfits, heffect⟩ := hstep.edit
  rw [heffect, (runChecks_growth hchecks).same]
  refine ⟨rfl, rfl, fun hphase => ?_, fun hphase => ?_, fun id hid => ?_⟩
  · simp only [Edit.on] at hphase
    split at hphase
    · cases hphase
    · exact hphase
  · simp only [Edit.on] at hphase
    split at hphase
    · next htx =>
      subst htx
      cases hstep with
      | finalizeRound hactive => exact .inr ⟨hactive, List.mem_singleton_self _⟩
    · exact .inl hphase
  · simp only [Edit.on] at hid
    cases hwritten : e.written with
    | none =>
      rw [hwritten] at hid
      exact .inl hid
    | some p =>
      rw [hwritten, Option.elim_some, OrdMap.get?_insert] at hid
      split at hid
      · next hsame =>
        rw [hsame]
        rcases hfits.known p hwritten with hlive | ⟨msg, htx, hmsg⟩
        · exact .inl hlive
        · exact .inr ⟨msg, List.mem_singleton.mpr htx.symm, hmsg⟩
      · exact .inl hid

theorem applyTxs_cons (h : applyTxs env snap (tx :: txs) w = .ok () w') :
    ∃ w₁, applyTx env tx w = .ok () w₁ ∧ applyTxs env snap txs w₁ = .ok () w' := by
  unfold applyTxs at h
  cases htx : applyTx env tx w with
  | error => rw [htx] at h; cases h
  | ok u w₁ =>
    rw [htx] at h
    exact ⟨w₁, rfl, h⟩

theorem applyTxs_leadsTo (h : applyTxs env snap txs w = .ok () w') : LeadsTo txs w.sm w'.sm := by
  induction txs generalizing w with
  | nil =>
    cases h
    exact .refl _ _
  | cons _ _ ih =>
    obtain ⟨_, htx, hrest⟩ := applyTxs_cons h
    exact (applyTx_leadsTo htx).trans (ih hrest)

variable {cs : List SigCheck} {f : World → World}

theorem TxStep.liveWritable {sm : StateMachine} (h : TxStep env sm tx cs f)
    (hlive : LiveWritable w.sm) :
    LiveWritable (f w).sm := by
  obtain ⟨e, hfits, heffect⟩ := h.edit
  rw [heffect]
  intro id r hr
  simp only [Edit.on] at hr
  cases hwritten : e.written with
  | none =>
    rw [hwritten] at hr
    exact hlive id r hr
  | some p =>
    rw [hwritten, Option.elim_some, OrdMap.get?_insert] at hr
    split at hr
    · cases hr
      rw [← marshalInferenceEntry_isSome p.1, hfits.writable p hwritten]
      rfl
    · exact hlive id r hr

theorem WarmGrowth.liveWritable (h : WarmGrowth env w w') (hlive : LiveWritable w.sm) :
    LiveWritable w'.sm := by
  rw [h.same]
  exact hlive

theorem applyTx_liveWritable (hlive : LiveWritable w.sm)
    (h : applyTx env tx w = .ok () w') : LiveWritable w'.sm := by
  obtain ⟨_, _, _, hstep, hchecks, rfl⟩ := applyTx_ok_iff.mp h
  exact hstep.liveWritable ((runChecks_growth hchecks).liveWritable hlive)

theorem applyTxsBestEffort_cons (hlive : LiveWritable w.sm)
    (h : applyTxsBestEffort env snap (tx :: txs) w = .ok applied w') :
    ∃ w₁ rest, LiveWritable w₁.sm ∧ applyTxsBestEffort env snap txs w₁ = .ok rest w' ∧
      ((applyTx env tx w = .ok () w₁ ∧ applied = tx :: rest) ∨
        ∃ e, applyTx env tx w = .error e w₁ ∧ applied = rest ∧ tx.getStartInference = none ∧
          Checked env w w₁) := by
  unfold applyTxsBestEffort at h
  cases htx : applyTx env tx w with
  | error e w₁ =>
    rw [htx] at h
    dsimp only at h
    split at h
    · cases h
    · next hsome =>
      have hstart : tx.getStartInference = none := by simpa using hsome
      have hchecked := applyTx_error_checked hlive hstart htx
      exact ⟨w₁, applied, hchecked.growth.liveWritable hlive, h,
        .inr ⟨e, rfl, rfl, hstart, hchecked⟩⟩
  | ok u w₁ =>
    rw [htx] at h
    dsimp only at h
    split at h
    · cases h
    · next rest _ hrest =>
      cases h
      exact ⟨w₁, rest, applyTx_liveWritable hlive htx, hrest, .inl ⟨rfl, rfl⟩⟩

theorem applyTxsBestEffort_leadsTo (hlive : LiveWritable w.sm)
    (h : applyTxsBestEffort env snap txs w = .ok applied w') : LeadsTo txs w.sm w'.sm := by
  induction txs generalizing w applied with
  | nil =>
    cases h
    exact .refl _ _
  | cons tx _ ih =>
    obtain ⟨_, _, hlive₁, hrest, ⟨htx, -⟩ | ⟨_, -, -, -, hchecked⟩⟩ := applyTxsBestEffort_cons hlive h
    · exact (applyTx_leadsTo htx).trans (ih hlive₁ hrest)
    · refine LeadsTo.trans ?_ (ih hlive₁ hrest)
      rw [hchecked.growth.same]
      exact ⟨rfl, rfl, id, .inl, fun _ => .inl⟩

theorem not_drainRefused (htaken : DrainTaken env nonce txs sm) (h : LeadsTo txs sm w.sm) :
    ¬ DrainRefused env nonce w root := by
  rintro ⟨w₂, hfee, ⟨_, _, hdrain⟩, -⟩
  have hsame : w₂.sm.phase = w.sm.phase ∧ w₂.sm.finalizeNonce = w.sm.finalizeNonce ∧
      w₂.sm.group = w.sm.group ∧ w₂.sm.inferences = w.sm.inferences := by
    unfold chargeFee at hfee
    split_ifs at hfee <;> cases hfee <;> exact ⟨rfl, rfl, rfl, rfl⟩
  obtain ⟨hphase, hfinalize, hgroup, hlive⟩ := hsame
  have hadvance : (advanceNonce nonce w₂).sm.phase = w.sm.phase ∧
      (advanceNonce nonce w₂).sm.inferences = w.sm.inferences := by
    unfold advanceNonce
    dsimp only
    split <;> exact ⟨hphase, hlive⟩
  refine enterSettlement_taken (fun hfinal hpassed id hid => ?_) hdrain
  rw [hadvance.1] at hfinal
  rw [hadvance.2] at hid
  refine htaken ⟨h.finalizing hfinal, ?_⟩ id (h.live id hid)
  -- the deadline, with the finalize nonce as `advanceNonce` leaves it
  unfold advanceNonce deadlinePassed at hpassed
  simp only [hphase, hfinal, true_and, hfinalize, h.finalizeNonce] at hpassed
  split at hpassed <;> rw [hgroup, h.group] at hpassed
  · next hzero =>
    rw [if_pos hzero]
    exact hpassed
  · next hset =>
    rw [if_neg hset]
    exact hpassed

theorem not_applyRefused_of_drainTaken (htaken : DrainTaken env nonce txs w.sm) :
    ¬ ApplyRefused env nonce txs post w root := by
  rintro ⟨-, w₁, htxs, hrefused, -⟩
  exact not_drainRefused htaken (applyTxs_leadsTo htxs) hrefused

theorem not_bestEffortRefused_of_drainTaken (hlive : LiveWritable w.sm)
    (htaken : DrainTaken env nonce txs w.sm) {result : Bytes × List DevshardTx} :
    ¬ BestEffortRefused env nonce txs w result := by
  rintro ⟨-, w₁, htxs, hrefused⟩
  exact not_drainRefused htaken (applyTxsBestEffort_leadsTo hlive htxs) hrefused

end

/-- **Persist-first**: validating and committing later is as good as applying at
once.  `result` reads the root and the applied transactions off what the direct
call returns. -/
structure PersistFirst {α : Type} (env : Env) (nonce : ℕ) (validate : World → Outcome ValidatedDiff)
    (apply : World → Outcome α) (result : α → Bytes × List DevshardTx) (w : World) : Prop where
  /-- Both succeed or none does, with one root and the same transactions. -/
  accepts : ∀ out, (∃ vd w₁, validate w = .ok vd w₁ ∧ (vd.root, vd.applied) = out) ↔
    ∃ a w₁, apply w = .ok a w₁ ∧ result a = out
  /-- Committed on the same state, the handle gives the state and the store calls
  of the direct call. -/
  commits : ∀ {vd w₁ a w₂}, validate w = .ok vd w₁ → apply w = .ok a w₂ →
    ∀ w' : World, w'.sm = w.sm →
      (commitValidated env vd w').1 = true ∧ (commitValidated env vd w').2.sm = w₂.sm ∧
        (w'.storeCalls = w.storeCalls → (commitValidated env vd w').2.storeCalls = w₂.storeCalls)
  /-- Committed at another nonce, it does nothing. -/
  stale : ∀ {vd w₁}, validate w = .ok vd w₁ →
    ∀ w' : World, w'.sm.latestNonce + 1 ≠ nonce → commitValidated env vd w' = (false, w')

/-- The property looks at the two calls at `w` only. -/
theorem PersistFirst.congr {α : Type} {nonce : ℕ} {validate validate' : World → Outcome ValidatedDiff}
    {apply apply' : World → Outcome α} {result : α → Bytes × List DevshardTx}
    (hv : validate' w = validate w) (ha : apply' w = apply w)
    (h : PersistFirst env nonce validate apply result w) :
    PersistFirst env nonce validate' apply' result w where
  accepts := by
    rw [hv, ha]
    exact h.accepts
  commits := by
    rw [hv, ha]
    exact h.commits
  stale := by
    rw [hv]
    exact h.stale

theorem PersistFirst.of_errors {α : Type} {nonce : ℕ} {validate : World → Outcome ValidatedDiff}
    {apply : World → Outcome α} {result : α → Bytes × List DevshardTx}
    (hv : ∀ vd w₁, validate w ≠ .ok vd w₁) (ha : ∀ a w₁, apply w ≠ .ok a w₁) :
    PersistFirst env nonce validate apply result w where
  accepts _ := by
    constructor
    · rintro ⟨vd, w₁, h, -⟩
      exact absurd h (hv vd w₁)
    · rintro ⟨a, w₁, h, -⟩
      exact absurd h (ha a w₁)
  commits h := absurd h (hv _ _)
  stale h := absurd h (hv _ _)

theorem World.buffering_direct (env : Env) (h : w.obsDeferred = none) :
    w.buffering.direct env = w := by
  obtain ⟨_, obs, _⟩ := w
  obtain rfl : obs = none := h
  rfl

section
variable {α : Type} {run : World → Outcome α} {refused : World → α → Prop}
  {result : α → Bytes × List DevshardTx} {nonce : ℕ}

theorem DeferrableUnless.direct (h : DeferrableUnless env refused run) (hw : w.obsDeferred = none)
    {a : α} (htrial : run w.buffering = .ok a w₁) :
    run w = .ok a (w₁.direct env) ∨ (∃ e w', run w = .error e w') ∧ refused w a := by
  have hboth := h w.buffering w.buffering_buffers
  rw [buffering_direct env hw, htrial] at hboth
  rcases hboth with ⟨heq, -⟩ | ⟨⟨e, w', herr, -⟩, hrefused⟩
  · exact .inl heq
  · exact .inr ⟨⟨e, w', herr⟩, hrefused rfl⟩

theorem applyCore_of_trial {txs : List DevshardTx} {post root : Bytes} (hw : w.obsDeferred = none)
    (htaken : DrainTaken env nonce txs w.sm)
    (htrial : applyCore env nonce txs post w.buffering = .ok root w₁) :
    applyCore env nonce txs post w = .ok root (w₁.direct env) :=
  ((applyCore_deferrable env nonce txs post).direct hw htrial).resolve_right fun hrefused =>
    not_applyRefused_of_drainTaken htaken hrefused.2

def handleOf (result : α → Bytes × List DevshardTx) (nonce : ℕ) (a : α) (post : MutableSnapshot)
    (warmAfter : OrdMap ℕ Address) (obs : List DeferredObsWrite) : ValidatedDiff :=
  { root := (result a).1, warmAfter, applied := (result a).2, nonce, post, obs }

theorem trialApply_ok {handle : α → MutableSnapshot → OrdMap ℕ Address → List DeferredObsWrite →
    ValidatedDiff}
    {vd : ValidatedDiff} (h : trialApply run handle w = .ok vd w₁) :
    ∃ a w₂, run w.buffering = .ok a w₂ ∧
      vd = handle a w₂.sm.snapshotMutable w₂.sm.warmKeys (w₂.obsDeferred.getD []) := by
  unfold trialApply at h
  rw [show ({ w with obsDeferred := some [] } : World) = w.buffering from rfl] at h
  cases hrun : run w.buffering with
  | error => rw [hrun] at h; cases h
  | ok a w₂ =>
    rw [hrun] at h
    cases h
    exact ⟨a, w₂, rfl, rfl⟩

theorem trialApply_of_run (handle : α → MutableSnapshot → OrdMap ℕ Address →
    List DeferredObsWrite → ValidatedDiff) {a : α} {w₂ : World}
    (hrun : run w.buffering = .ok a w₂) :
    ∃ w₁, trialApply run handle w
      = .ok (handle a w₂.sm.snapshotMutable w₂.sm.warmKeys (w₂.obsDeferred.getD [])) w₁ := by
  unfold trialApply
  rw [show ({ w with obsDeferred := some [] } : World) = w.buffering from rfl, hrun]
  exact ⟨_, rfl⟩

/-- What a run does to the session and its nonce when it succeeds. -/
def RunsAt (nonce : ℕ) (run : World → Outcome α) : Prop :=
  ∀ {w a w₁}, run w = .ok a w₁ → SameSession w.sm w₁.sm ∧ w.sm.latestNonce + 1 = nonce

theorem persistFirst_trial (result : α → Bytes × List DevshardTx)
    (hdefer : DeferrableUnless env refused run) (hruns : RunsAt nonce run) (hw : w.obsDeferred = none)
    (hnot : ∀ a, ¬ refused w a) :
    PersistFirst env nonce (trialApply run (handleOf result nonce)) run result w := by
  have hdirect := buffering_direct env hw
  have hboth := hdefer w.buffering w.buffering_buffers
  rw [hdirect] at hboth
  rcases hboth with ⟨heq, hb⟩ | ⟨⟨e, w₁, herr, -⟩, hrefused⟩
  · refine ⟨?_, ?_, ?_⟩
    · -- accepted together
      intro out
      constructor
      · rintro ⟨_, w₁, hvd, rfl⟩
        obtain ⟨a, _, hrun, rfl⟩ := trialApply_ok hvd
        rw [hrun] at heq
        exact ⟨a, _, heq, rfl⟩
      · rintro ⟨_, _, hrun, rfl⟩
        rw [hrun] at heq
        cases htrial : run w.buffering with
        | error => rw [htrial] at heq; cases heq
        | ok =>
          rw [htrial] at heq
          cases heq
          obtain ⟨w₃, hvd⟩ := trialApply_of_run (handleOf result nonce) htrial
          exact ⟨_, w₃, hvd, rfl⟩
    · intro vd w₁ a w₂ hvd hrun w' hsm
      obtain ⟨_, w₃, htrial, rfl⟩ := trialApply_ok hvd
      rw [htrial, hrun] at heq
      cases heq
      obtain ⟨hsame, hnonce⟩ := hruns htrial
      have hcommit : commitValidated env (handleOf result nonce a w₃.sm.snapshotMutable
          w₃.sm.warmKeys (w₃.obsDeferred.getD [])) w'
          = (true, flushDeferredObs env (w₃.obsDeferred.getD [])
            (w'.restore w₃.sm.snapshotMutable)) := by
        unfold commitValidated
        rw [if_neg]
        · rfl
        · rw [hsm]
          exact fun h => h hnonce.symm
      have hrestore : (w'.restore w₃.sm.snapshotMutable).sm = w₃.sm :=
        restoreMutable_snapshotMutable (hsm ▸ hsame.symm)
      rw [hcommit]
      refine ⟨rfl, ?_, ?_⟩
      · rw [flushDeferredObs_sm, hrestore]
        rfl
      intro hcalls
      rw [flushDeferredObs_eq, hrestore]
      show flushedCalls env _ _ w'.storeCalls = flushedCalls env _ _ w₃.storeCalls
      rw [htrial] at hb
      rw [hcalls, show w₃.storeCalls = w.storeCalls from hb.2]
    · intro vd w₁ hvd w' hstale
      obtain ⟨_, _, -, rfl⟩ := trialApply_ok hvd
      exact if_pos fun h => hstale h.symm
  · -- the direct run fails, and so does the trial
    refine .of_errors (fun vd w₂ hvd => ?_) (fun a w₂ hrun => nomatch herr.symm.trans hrun)
    obtain ⟨a, w₃, htrial, -⟩ := trialApply_ok hvd
    exact hnot a (hrefused htrial)

end

theorem applyCore_runsAt (env : Env) (nonce : ℕ) (txs : List DevshardTx) (postStateRoot : Bytes) :
    RunsAt nonce (applyCore env nonce txs postStateRoot) := by
  intro w root w₁ h
  have hroll := applyCore_rolledBack env nonce txs postStateRoot w
  rw [h] at hroll
  exact ⟨hroll, (applyCore_nonce h).symm⟩

theorem localBestEffort_runsAt (env : Env) (nonce : ℕ) (txs : List DevshardTx) :
    RunsAt nonce (localBestEffort env nonce txs) := by
  intro w result w₁ h
  have hroll := localBestEffort_rolledBack env nonce txs w
  rw [h] at hroll
  exact ⟨hroll, (localBestEffort_nonce h).symm⟩

theorem DeferrableUnless.obsDeferred {α : Type} {refused : World → α → Prop}
    {run : World → Outcome α} (h : DeferrableUnless env refused run) (hw : w.obsDeferred = none) :
    (run w).world.obsDeferred = none := by
  have hboth := h w.buffering w.buffering_buffers
  rw [buffering_direct env hw] at hboth
  rcases hboth with ⟨heq, -⟩ | ⟨⟨_, _, herr, hnone⟩, -⟩
  · rw [heq]
    cases run w.buffering with
    | error | ok => rfl
  · rw [herr]
    exact hnone

theorem applyDiff_obsDeferred (env : Env) (diff : Diff) (hw : w.obsDeferred = none) :
    (applyDiff env diff w).world.obsDeferred = none := by
  unfold applyDiff
  split
  · exact hw
  · exact (applyCore_deferrable env _ _ _).obsDeferred hw

theorem trialApply_obsDeferred {α : Type} (run : World → Outcome α)
    (handle : α → MutableSnapshot → OrdMap ℕ Address → List DeferredObsWrite → ValidatedDiff)
    (w : World) : (trialApply run handle w).world.obsDeferred = none := by
  unfold trialApply
  split <;> rfl

theorem validateDiff_obsDeferred (env : Env) (diff : Diff) (hw : w.obsDeferred = none) :
    (validateDiff env diff w).world.obsDeferred = none := by
  unfold validateDiff
  split
  · exact hw
  · exact trialApply_obsDeferred _ _ w

theorem runOp_obsDeferred (env : Env) (op : Op) {d : Driver} (hd : d.world.obsDeferred = none) :
    (runOp env op d).world.obsDeferred = none := by
  cases op with
  | applyDiff diff => exact applyDiff_obsDeferred env diff hd
  | applyLocal nonce txs => exact (applyCore_deferrable env nonce txs []).obsDeferred hd
  | applyLocalBestEffort nonce txs => exact (localBestEffort_deferrable env nonce txs).obsDeferred hd
  | validateDiff diff =>
    have h := validateDiff_obsDeferred env diff hd
    unfold runOp
    dsimp only
    split <;> next hrun => rw [hrun] at h; exact h
  | previewLocalBestEffort nonce txs =>
    have h : (previewLocalBestEffort env nonce txs d.world).world.obsDeferred = none :=
      trialApply_obsDeferred _ _ d.world
    unfold runOp
    dsimp only
    split <;> next hrun => rw [hrun] at h; exact h
  | commitValidated =>
    unfold runOp commitValidated
    dsimp only
    split
    · exact hd
    split
    · exact hd
    · rw [flushDeferredObs_eq]
      exact hd

theorem runOps_obsDeferred (env : Env) (ops : List Op) {d : Driver}
    (hd : d.world.obsDeferred = none) : (runOps env ops d).world.obsDeferred = none := by
  induction ops generalizing d with
  | nil => exact hd
  | cons op _ ih => exact ih (runOp_obsDeferred env op hd)

section
variable {escrowID : Bytes} {config : SessionConfig} {group : List SlotAssignment}
  {balance : UInt64} {userAddress : Address} {version : Bytes} {sm : StateMachine}

theorem runOps_liveWritable (env : Env) (hg : validateGroup group)
    (hnew : newStateMachine escrowID config group balance userAddress version = .ok sm)
    (ops : List Op) : LiveWritable (runOps env ops (Driver.new sm)).world.sm := by
  obtain ⟨s, -, htracks⟩ := runOps_tracks env ops (newStateMachine_tracks env hg hnew)
  obtain ⟨sm', _⟩ := s
  have hsound := htracks.rests.sound
  rw [← show (runOps env ops (Driver.new sm)).world.sm = sm' from htracks.machine] at hsound
  exact hsound.liveWritable

/-- **Persist-first equals direct apply** at every point of every run, for every
diff and for the user's best-effort composition, when the store takes the rows of
the inferences that the diff drains. -/
theorem persistFirst_of_drainTaken (env : Env) (hg : validateGroup group)
    (hnew : newStateMachine escrowID config group balance userAddress version = .ok sm)
    (ops : List Op) :
    let w := (runOps env ops (Driver.new sm)).world
    (∀ diff : Diff, DrainTaken env diff.nonce diff.txs w.sm →
      PersistFirst env diff.nonce (validateDiff env diff) (applyDiff env diff)
        (fun root => (root, [])) w) ∧
    ∀ nonce txs, DrainTaken env nonce txs w.sm →
      PersistFirst env nonce (previewLocalBestEffort env nonce txs)
        (applyLocalBestEffort env nonce txs) id w := by
  intro w
  have hw : w.obsDeferred = none := runOps_obsDeferred env ops rfl
  constructor
  · intro diff htaken
    cases hsig : verifyDiffUserSig env diff w.sm with
    | error e =>
      have hvalidate : validateDiff env diff w = .error e w := by rw [validateDiff, hsig]
      have happly : applyDiff env diff w = .error e w := by rw [applyDiff, hsig]
      exact .of_errors (fun _ _ h => by cases hvalidate.symm.trans h)
        fun _ _ h => by cases happly.symm.trans h
    | ok =>
      -- the two calls are the trial and the direct run of `applyCore`
      have hvalidate : validateDiff env diff w
          = trialApply (applyCore env diff.nonce diff.txs diff.postStateRoot)
            (handleOf (fun root => (root, [])) diff.nonce) w := by
        rw [validateDiff, hsig]
        rfl
      have happly : applyDiff env diff w
          = applyCore env diff.nonce diff.txs diff.postStateRoot w := by
        rw [applyDiff, hsig]
      have htrial := persistFirst_trial (fun root => (root, []))
        (applyCore_deferrable env diff.nonce diff.txs diff.postStateRoot)
        (applyCore_runsAt env diff.nonce diff.txs diff.postStateRoot) hw
        fun _ => not_applyRefused_of_drainTaken htaken
      exact htrial.congr hvalidate happly
  · intro nonce txs htaken
    exact persistFirst_trial id (localBestEffort_deferrable env nonce txs)
      (localBestEffort_runsAt env nonce txs) hw
      fun _ => not_bestEffortRefused_of_drainTaken (runOps_liveWritable env hg hnew ops) htaken

end

/-- Whether a call succeeded with a result that passes `p`. -/
def Outcome.holds {α : Type} (p : α → Bool) : Outcome α → Bool
  | .ok a _ => p a
  | .error _ _ => false

theorem Outcome.exists_of_holds {α : Type} {p : α → Bool} {o : Outcome α} (h : o.holds p = true) :
    ∃ a w, o = .ok a w ∧ p a = true := by
  cases o with
  | ok a w => exact ⟨a, w, rfl, h⟩
  | error => cases h

theorem Outcome.ne_of_not_holds {α : Type} {o : Outcome α} (h : o.holds (fun _ => true) = false)
    (a : α) (w : World) : o ≠ .ok a w := by
  rintro rfl
  cases h

/-- Inference 1 is pending when the deadline of the finalization passes. -/
def deadlineOps : List Op :=
  [.applyLocal 1 [sampleStart 1], .applyLocal 2 [.finalizeRound], .applyLocal 3 []]

def settlingDiff : Diff := { nonce := 4, txs := [], userSig := [9], postStateRoot := [] }

/-- The store takes the rows of inference 1 and no others. -/
def oneRowEnv : Env := { sampleEnv with store := fun _ c => c.inferenceID == 1 }

/-- The next diff drains inference 1; validated first or applied at once, it is taken. -/
theorem persistFirst_of_drainTaken_one :
    let w := (runOps oneRowEnv deadlineOps (Driver.new sampleMachine)).world
    SettlesAt 4 [] w.sm ∧ w.sm.inferences.keys = [1] ∧
      (∃ vd w₁, validateDiff oneRowEnv settlingDiff w = .ok vd w₁) ∧
      PersistFirst oneRowEnv 4 (validateDiff oneRowEnv settlingDiff) (applyDiff oneRowEnv settlingDiff)
        (fun root => (root, [])) w := by
  intro w
  have hkeys : w.sm.inferences.keys = [1] := by decide +kernel
  obtain ⟨vd, w₁, hvalid, -⟩ := Outcome.exists_of_holds (p := fun _ => true)
    (o := validateDiff oneRowEnv settlingDiff w) (by decide +kernel)
  refine ⟨⟨.inl (by decide +kernel), by decide +kernel⟩, hkeys, ⟨vd, w₁, hvalid⟩,
    (persistFirst_of_drainTaken oneRowEnv (by decide) sampleMachine_ok deadlineOps).1 settlingDiff
      fun _ id hid calls c hc => ?_⟩
  rcases hid with hlive | ⟨_, hnone, -⟩
  · obtain ⟨r, hr⟩ := Option.ne_none_iff_exists'.mp hlive
    have hmem : id ∈ w.sm.inferences.keys := OrdMap.mem_keys.mpr ⟨r, hr⟩
    rw [hkeys, List.mem_singleton] at hmem
    rw [hmem] at hc
    exact beq_iff_eq.mpr hc
  · cases hnone

/-! The two disagree when the store is down. -/

def downEnv : Env := { sampleEnv with store := fun _ _ => false }

def pendingAtDeadline : Driver := runOps downEnv deadlineOps (Driver.new sampleMachine)

/-- **Validation does not notice a drain that the direct apply fails on.** -/
theorem validateDiff_ignores_drain :
    newStateMachine [] sampleConfig sampleGroup 1000 [9] [] = .ok sampleMachine ∧
    (∃ vd w₁, validateDiff downEnv settlingDiff pendingAtDeadline.world = .ok vd w₁) ∧
    (∀ root w₁, applyDiff downEnv settlingDiff pendingAtDeadline.world ≠ .ok root w₁) ∧
    (∃ vd w₁, previewLocalBestEffort downEnv 4 [] pendingAtDeadline.world = .ok vd w₁) ∧
    ∀ result w₁, applyLocalBestEffort downEnv 4 [] pendingAtDeadline.world ≠ .ok result w₁ := by
  have hvalidate := Outcome.exists_of_holds (p := fun _ => true)
    (o := validateDiff downEnv settlingDiff pendingAtDeadline.world) (by decide +kernel)
  have hpreview := Outcome.exists_of_holds (p := fun _ => true)
    (o := previewLocalBestEffort downEnv 4 [] pendingAtDeadline.world) (by decide +kernel)
  obtain ⟨vd, w₁, hvalidate, -⟩ := hvalidate
  obtain ⟨vd', w₁', hpreview, -⟩ := hpreview
  exact ⟨sampleMachine_ok, ⟨vd, w₁, hvalidate⟩, Outcome.ne_of_not_holds (by decide +kernel),
    ⟨vd', w₁', hpreview⟩, Outcome.ne_of_not_holds (by decide +kernel)⟩

end Devshard
