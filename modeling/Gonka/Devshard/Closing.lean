/-
The operations perform steps of the session.

After its transactions a diff closes its nonce: fee, nonce, phase, and the two
loops that seal.  Each part is a sequence of steps of `Step`, and so are the two
pipelines.

Main results: `applyCore_closed`, `localBestEffort_closed`.
-/
import Gonka.Devshard.Refinement

namespace Devshard

open OrdMap

variable {env : Env} {B₀ : ℕ} {w w' : World} {sealed : List SealedRecord}

/-! ### Seals -/

theorem sealedAccBytes32_of_length {b : Bytes} (h : b.length = 32) : sealedAccBytes32 b = b := by
  rw [sealedAccBytes32, h, List.take_of_length_le (Nat.le_of_eq h), Nat.sub_self,
    List.replicate_zero, List.append_nil]

theorem length_foldSealedAccumulator (acc : Bytes) (sealNonce infID : ℕ) (entry : Bytes) :
    (foldSealedAccumulator acc sealNonce infID entry).length = 32 :=
  length_sha256 _

variable {w₁ : World} {sealNonce nonce : ℕ} {acc cur : Bytes} {entries : List (ℕ × InferenceRecord)}
  {s s' : Session}

theorem seal_sm {w₂ : World} {id : ℕ} (h : w₂.sm = (w₁.markSealed id sealNonce).sm) :
    (w₂.deleteInference id).sm = { w₁.sm with
      inferences := w₁.sm.inferences.erase id
      committedEntries := w₁.sm.committedEntries.erase id
      sealedNonces := w₁.sm.sealedNonces.insert id sealNonce } := by
  rw [World.deleteInference, h]
  rfl

/-- Every inference is of a nonce that has been applied. -/
def Bounded (s : Session) : Prop := ∀ id r, s.Holds id r → id ≤ s.sm.latestNonce

theorem Bounded.seal {id : ℕ} {r : InferenceRecord} {e : SealedRecord}
    (hb : Bounded ⟨w.sm, sealed⟩) (hlive : w.sm.inferences.get? id = some r) (hid : e.id = id)
    (hnonce : w'.sm.latestNonce = w.sm.latestNonce)
    (herase : w'.sm.inferences = w.sm.inferences.erase id) :
    Bounded ⟨w'.sm, sealed ++ [e]⟩ := by
  intro id' r' hr
  rw [hnonce]
  rcases hr with hr | ⟨e', he, hrec⟩
  · dsimp only at hr
    rw [herase, get?_erase] at hr
    split at hr
    · cases hr
    · exact hb id' r' (.inl hr)
  · rcases List.mem_append.mp he with hold | hnew
    · exact hb id' r' (.inr ⟨e', hold, hrec⟩)
    · rw [← hrec.1, List.mem_singleton.mp hnew, hid]
      exact hb id r (.inl hlive)

/-- Live records that a loop is about to seal at the latest nonce, by ascending
id, after the records `sealed`. -/
structure SealQueue (sealed : List SealedRecord) (w : World)
    (entries : List (ℕ × InferenceRecord)) : Prop where
  live : ∀ p ∈ entries, w.sm.inferences.get? p.1 = some p.2
  sorted : entries.Pairwise fun p q => p.1 < q.1
  order : ∀ e ∈ sealed, e.nonce = w.sm.latestNonce → ∀ p ∈ entries, e.id < p.1

theorem SealQueue.leave {id : ℕ} {r r' : InferenceRecord} {rest : List (ℕ × InferenceRecord)}
    {amount : UInt64} {f : HostStats → HostStats} {entry : Bytes} (acc : Bytes)
    (h : SealQueue sealed w ((id, r) :: rest)) (hleave : Leave w.sm.phase r r' amount f)
    (hentry : marshalInferenceEntry id r' = some entry)
    (hw' : w'.sm = { w.sm.credit amount r.executorSlot f with
      inferences := w.sm.inferences.erase id
      committedEntries := w.sm.committedEntries.erase id
      sealedNonces := w.sm.sealedNonces.insert id w.sm.latestNonce }) :
    Step ⟨{ w.sm with sealedAcc := acc }, sealed⟩
        ⟨{ w'.sm with
            sealedAcc := foldSealedAccumulator (sealedAccBytes32 acc) w.sm.latestNonce id entry },
          sealed ++ [⟨w.sm.latestNonce, id, r'⟩]⟩ ∧
      SealQueue (sealed ++ [⟨w.sm.latestNonce, id, r'⟩]) w' rest ∧
      (Bounded ⟨w.sm, sealed⟩ → Bounded ⟨w'.sm, sealed ++ [⟨w.sm.latestNonce, id, r'⟩]⟩) := by
  have hfirst := (List.pairwise_cons.mp h.sorted).1
  refine ⟨?_, ?_, fun hb =>
    hb.seal (h.live (id, r) List.mem_cons_self) rfl (by rw [hw']; rfl) (by rw [hw'])⟩
  · have hstep := Step.leave (s := ⟨{ w.sm with sealedAcc := acc }, sealed⟩)
      (h.live (id, r) (by simp)) hleave (fun e he hn => h.order e he hn (id, r) (by simp)) hentry
    rw [hw']
    exact hstep
  · refine ⟨fun p hp => ?_, (List.pairwise_cons.mp h.sorted).2, fun e he hn p hp => ?_⟩
    · rw [hw', get?_erase, if_neg (hfirst p hp).ne']
      exact h.live p (by simp [hp])
    rw [hw'] at hn
    rcases List.mem_append.mp he with hold | hnew
    · exact h.order e hold hn p (by simp [hp])
    · rw [List.mem_singleton.mp hnew]
      exact hfirst p hp

/-- From `w` to `w'` by closing `nonce`, or a part of it. -/
structure Closed (sealed : List SealedRecord) (nonce : ℕ) (w w' : World) : Prop where
  steps : ∃ sealed', Steps ⟨w.sm, sealed⟩ ⟨w'.sm, sealed'⟩ ∧ Bounded ⟨w'.sm, sealed'⟩
  latestNonce : w'.sm.latestNonce = nonce
  settled : w'.sm.phase = .settlement →
    w.sm.phase = .settlement ∨ ∀ id, w'.sm.inferences.get? id = none
  wrapped : w'.wrapped = w.wrapped

/-- An outcome of closing `nonce`, or a part of it. -/
def ClosedOutcome {α : Type} (sealed : List SealedRecord) (nonce : ℕ) (w : World) :
    Outcome α → Prop
  | .ok _ w' => Closed sealed nonce w w'
  | .error _ w' => w'.wrapped = w.wrapped

/-- `settleLiveRecord` gives a record its settlement default. -/
theorem settleLiveRecord_leave {id : ℕ} {r : InferenceRecord}
    (hc : Conserved B₀ ⟨{ w.sm with sealedAcc := acc }, sealed⟩) (hphase : w.sm.phase = .settlement)
    (hlive : w.sm.inferences.get? id = some r) :
    ∃ r' w₁ amount f, settleLiveRecord id r w = (r', w₁) ∧ Leave w.sm.phase r r' amount f ∧
      w₁.sm = { w.sm.credit amount r.executorSlot f with inferences := w₁.sm.inferences } ∧
      w₁.sm.inferences.erase id = w.sm.inferences.erase id ∧ w₁.wrapped = w.wrapped := by
  obtain ⟨_, hhs⟩ := Option.isSome_iff_exists.mp (hc.executors id r hlive)
  have hcov := hc.covered hlive hhs
  unfold settleLiveRecord
  split
  · next hstatus =>
    refine ⟨_, _, _, _, rfl, .paid hphase hstatus, ?_, erase_insert_self _, ?_⟩
    · simp only [StateMachine.credit, UInt64.add_zero]
      rfl
    refine addCost_wrapped ?_
    have hroom := hcov.room
    rw [InferenceRecord.outstanding, if_pos (.inr hstatus)] at hroom
    show (w.cost r.executorSlot).toNat + _ < _
    rw [cost_of_get? hhs]
    exact hroom
  · next hstatus =>
    have hleave : Leave w.sm.phase r _ _ _ := .refunded hphase hstatus
    refine ⟨_, _, _, _, rfl, hleave, ?_, erase_insert_self _, ?_⟩
    · simp only [StateMachine.credit, modify_id]
      rfl
    · exact addBalance_wrapped (hc.credit_toNat hlive hhs (hleave.balanced hcov))
  · next hstarted hpending =>
    refine ⟨_, _, _, _, rfl, .drained hphase hstarted hpending, ?_, rfl, rfl⟩
    rw [StateMachine.credit_zero]

/-- From `w` to `w'` by the iterations of a sealing loop, which keeps the
accumulator outside the machine: `acc` before and `cur` after them. -/
structure SealRun (sealed : List SealedRecord) (acc cur : Bytes) (w w' : World) : Prop where
  steps : ∃ sealed', Steps ⟨{ w.sm with sealedAcc := acc }, sealed⟩
    ⟨{ w'.sm with sealedAcc := cur }, sealed'⟩ ∧ (Bounded ⟨w.sm, sealed⟩ → Bounded ⟨w'.sm, sealed'⟩)
  latestNonce : w'.sm.latestNonce = w.sm.latestNonce
  phase : w'.sm.phase = w.sm.phase
  wrapped : w'.wrapped = w.wrapped

def SealRunOutcome (sealed : List SealedRecord) (acc : Bytes) (w : World) : Outcome Bytes → Prop
  | .ok cur w' => SealRun sealed acc cur w w'
  | .error _ w' => w'.wrapped = w.wrapped

theorem SealRunOutcome.of_step {sealed₁ : List SealedRecord} {acc₁ : Bytes} {o : Outcome Bytes}
    (hstep : Step ⟨{ w.sm with sealedAcc := acc }, sealed⟩ ⟨{ w₁.sm with sealedAcc := acc₁ }, sealed₁⟩)
    (hb : Bounded ⟨w.sm, sealed⟩ → Bounded ⟨w₁.sm, sealed₁⟩)
    (hnonce : w₁.sm.latestNonce = w.sm.latestNonce) (hphase : w₁.sm.phase = w.sm.phase)
    (hwrapped : w₁.wrapped = w.wrapped) (ho : SealRunOutcome sealed₁ acc₁ w₁ o) :
    SealRunOutcome sealed acc w o := by
  cases o with
  | ok =>
    obtain ⟨sealed', hsteps, hb'⟩ := SealRun.steps ho
    exact ⟨⟨sealed', .head hstep hsteps, hb' ∘ hb⟩, (SealRun.latestNonce ho).trans hnonce,
      (SealRun.phase ho).trans hphase, (SealRun.wrapped ho).trans hwrapped⟩
  | error => exact Eq.trans ho hwrapped

theorem SealRunOutcome.nil (hcur : cur = sealedAccBytes32 acc)
    (hacc : acc.length = 32) : SealRunOutcome sealed acc w (.ok cur w) := by
  rw [hcur, sealedAccBytes32_of_length hacc]
  exact ⟨⟨sealed, .refl, id⟩, rfl, rfl, rfl⟩

theorem drainLoop_run (hs : Sound B₀ ⟨{ w.sm with sealedAcc := acc }, sealed⟩)
    (hphase : w.sm.phase = .settlement) (hnonce : w.sm.latestNonce = sealNonce)
    (hqueue : SealQueue sealed w entries) (hcur : cur = sealedAccBytes32 acc)
    (hacc : acc.length = 32 ∨ entries ≠ []) :
    SealRunOutcome sealed acc w (drainLoop env sealNonce entries cur w) := by
  induction entries generalizing acc cur w sealed with
  | nil => exact .nil hcur (by simpa using hacc)
  | cons p _ ih =>
    obtain ⟨id, r⟩ := p
    obtain ⟨r', w₁, amount, f, hsettle, hleave, hw₁, herase, hwrap⟩ :=
      settleLiveRecord_leave hs.conserved hphase (hqueue.live (id, r) (by simp))
    simp only [drainLoop, hsettle]
    split
    · exact hwrap
    next hentry =>
    have hobs := upsertInferenceObs_wrapped env id sealNonce r' (w₁.markSealed id sealNonce)
    have hobs_sm := upsertInferenceObs_sm env id sealNonce r' (w₁.markSealed id sealNonce)
    split
    · next w₂ hrun =>
      rw [hrun] at hobs
      exact hobs.trans hwrap
    next w₂ hrun =>
    rw [hrun] at hobs hobs_sm
    have hw' : (w₂.deleteInference id).sm = { w.sm.credit amount r.executorSlot f with
        inferences := w.sm.inferences.erase id
        committedEntries := w.sm.committedEntries.erase id
        sealedNonces := w.sm.sealedNonces.insert id w.sm.latestNonce } := by
      rw [seal_sm hobs_sm, herase, hw₁, hnonce]
      rfl
    obtain ⟨hstep, hrest, hb⟩ := hqueue.leave acc hleave hentry hw'
    have hn : (w₂.deleteInference id).sm.latestNonce = w.sm.latestNonce := by
      rw [hw']
      rfl
    have hp : (w₂.deleteInference id).sm.phase = w.sm.phase := by
      rw [hw']
      rfl
    refine .of_step hstep hb hn hp (hobs.trans hwrap) ?_
    refine ih (hs.steps (.single hstep)) (hp.trans hphase) (hn.trans hnonce) hrest ?_
      (.inl (length_foldSealedAccumulator ..))
    rw [sealedAccBytes32_of_length (length_foldSealedAccumulator ..), hcur, hnonce]

theorem autoSealLoop_run (hphase : w.sm.phase = .active) (hnonce : w.sm.latestNonce = sealNonce)
    (hqueue : SealQueue sealed w entries) (hstatus : ∀ p ∈ entries, sealEligibleStatus p.2.status)
    (hcur : cur = sealedAccBytes32 acc) (hacc : acc.length = 32 ∨ entries ≠ []) :
    SealRunOutcome sealed acc w (autoSealLoop env sealNonce entries cur w) := by
  induction entries generalizing acc cur w sealed with
  | nil => exact .nil hcur (by simpa using hacc)
  | cons p _ ih =>
    obtain ⟨id, r⟩ := p
    have hleave : Leave w.sm.phase r r 0 _ := .autoSealed hphase (hstatus (id, r) (by simp))
    unfold autoSealLoop
    split
    · exact rfl
    next hentry =>
    have hobs := upsertInferenceObs_wrapped env id sealNonce r (w.markSealed id sealNonce)
    have hobs_sm := upsertInferenceObs_sm env id sealNonce r (w.markSealed id sealNonce)
    generalize (upsertInferenceObs env id sealNonce r (w.markSealed id sealNonce)).2 = w₂
      at hobs hobs_sm ⊢
    have hw' := seal_sm hobs_sm
    have hn : (w₂.deleteInference id).sm.latestNonce = w.sm.latestNonce := by rw [hw']
    have hp : (w₂.deleteInference id).sm.phase = w.sm.phase := by rw [hw']
    obtain ⟨hstep, hrest, hb⟩ := hqueue.leave acc hleave hentry
      (by rw [hw', StateMachine.credit_zero, hnonce])
    refine .of_step hstep hb hn hp hobs ?_
    refine ih (hp.trans hphase) (hn.trans hnonce) hrest (fun p hp => hstatus p (by simp [hp])) ?_
      (.inl (length_foldSealedAccumulator ..))
    rw [sealedAccBytes32_of_length (length_foldSealedAccumulator ..), hcur, hnonce]

theorem settleLiveRecord_erase (id : ℕ) (r : InferenceRecord) (w : World) :
    (settleLiveRecord id r w).2.sm.inferences.erase id = w.sm.inferences.erase id := by
  unfold settleLiveRecord
  split
  · exact erase_insert_self _
  · exact erase_insert_self _
  · rfl

theorem drainLoop_evicts {cur' : Bytes} (h : drainLoop env sealNonce entries cur w = .ok cur' w')
    (id : ℕ) (hid : w.sm.inferences.get? id = none ∨ id ∈ entries.map Prod.fst) :
    w'.sm.inferences.get? id = none := by
  induction entries generalizing cur w with
  | nil =>
    cases h
    simpa using hid
  | cons p _ ih =>
    obtain ⟨id₁, r⟩ := p
    simp only [drainLoop] at h
    split at h
    · cases h
    split at h
    · cases h
    next hrun =>
    have hobs := upsertInferenceObs_sm env id₁ sealNonce (settleLiveRecord id₁ r w).1
      ((settleLiveRecord id₁ r w).2.markSealed id₁ sealNonce)
    rw [hrun] at hobs
    refine ih h ?_
    rw [seal_sm hobs, settleLiveRecord_erase, get?_erase]
    split
    · exact .inl rfl
    · next hne => simpa [hne] using hid

/-! ### Closing a nonce -/

theorem chargeFee_within (hc : Conserved B₀ ⟨w.sm, sealed⟩) :
    WithinOutcome sealed w (chargeFee w) := by
  unfold chargeFee
  split
  · next hphase =>
    split
    · exact rfl
    next hbalance =>
    have hle := UInt64.not_lt.mp hbalance
    have hle' := UInt64.le_iff_toNat_le.mp hle
    refine ⟨.single (Step.fee hphase hle), rfl, id, ?_⟩
    refine (addFees_wrapped ?_).trans (subBalance_wrapped hle)
    show w.sm.fees.toNat + w.sm.config.feePerNonce.toNat < 2 ^ 64
    have ht := hc.total
    have hb := hc.bound
    dsimp only at ht
    omega
  · exact Within.refl

theorem advanceNonce_eq (nonce : ℕ) (w : World) : ∃ finalizeNonce, advanceNonce nonce w
      = { w with sm.latestNonce := nonce, sm.finalizeNonce := finalizeNonce } := by
  unfold advanceNonce
  dsimp only
  split
  · exact ⟨nonce, rfl⟩
  · exact ⟨w.sm.finalizeNonce, rfl⟩

theorem SealQueue.of_live (hnonce : ∀ e ∈ sealed, e.nonce < w.sm.latestNonce)
    (hlive : entries.Sublist w.sm.inferences.entries) : SealQueue sealed w entries where
  live _ hp := get?_eq_some_iff.mpr (hlive.subset hp)
  sorted := w.sm.inferences.sorted.sublist hlive
  order e he hn := absurd hn (hnonce e he).ne

theorem Steps.phase_ne_active (h : Steps s s') (hs : s.sm.phase ≠ .active) :
    s'.sm.phase ≠ .active := by
  obtain ⟨_, hcont⟩ := h.continues
  exact fun hactive => hs (hcont.active hactive).1

theorem enterSettlement_closed (env : Env) (hs : Sound B₀ ⟨w.sm, sealed⟩)
    (hb : Bounded ⟨w.sm, sealed⟩) (hnonce : ∀ e ∈ sealed, e.nonce < w.sm.latestNonce) :
    ClosedOutcome sealed w.sm.latestNonce w (enterSettlement env w) := by
  unfold enterSettlement
  split
  · next hdue =>
    have hstep : Step ⟨w.sm, sealed⟩ ⟨{ w.sm with phase := .settlement }, sealed⟩ :=
      Step.settlement hdue.1
    have hqueue : SealQueue sealed { w with sm.phase := .settlement } w.sm.inferences.entries :=
      .of_live hnonce (List.Sublist.refl _)
    unfold drainLiveIntoSealedAcc
    split
    · next hempty =>
      refine ⟨⟨sealed, .single hstep, hb⟩, rfl, fun _ => .inr fun id => ?_, rfl⟩
      show OrdMap.lookup id w.sm.inferences.entries = none
      rw [show w.sm.inferences.entries = [] from hempty]
      rfl
    next hne =>
    have hrun : SealRunOutcome sealed w.sm.sealedAcc { w with sm.phase := .settlement }
        (drainLoop env w.sm.latestNonce w.sm.inferences.entries (sealedAccBytes32 w.sm.sealedAcc)
          { w with sm.phase := .settlement }) :=
      drainLoop_run (hs.steps (.single hstep)) rfl rfl hqueue rfl (.inr hne)
    split
    · next hloop =>
      rw [hloop] at hrun
      exact hrun
    · next hloop =>
      rw [hloop] at hrun
      obtain ⟨sealed', hsteps, hkept⟩ := hrun.steps
      refine ⟨⟨sealed', .head hstep hsteps, hkept hb⟩, hrun.latestNonce,
        fun _ => .inr fun id => ?_, hrun.wrapped⟩
      refine drainLoop_evicts hloop id ?_
      cases hid : w.sm.inferences.get? id with
      | none => exact .inl rfl
      | some => exact .inr (List.mem_map_of_mem (get?_eq_some_iff.mp hid))
  · exact ⟨⟨sealed, .refl, hb⟩, rfl, .inl, rfl⟩

theorem sealAtInterval_closed (env : Env) (hb : Bounded ⟨w.sm, sealed⟩)
    (hnonce : ∀ e ∈ sealed, e.nonce < w.sm.latestNonce) :
    ClosedOutcome sealed w.sm.latestNonce w (sealAtInterval env w.sm.latestNonce w) := by
  have hsame : Closed sealed w.sm.latestNonce w w := ⟨⟨sealed, .refl, hb⟩, rfl, .inl, rfl⟩
  unfold sealAtInterval
  split
  · next hdue =>
    unfold autoSeal
    split
    · exact hsame
    split
    · exact hsame
    dsimp only
    split
    · exact hsame
    next hne =>
    have hstatus : ∀ p ∈ w.sm.inferences.entries.filter (autoSealEligible w.sm.toEscrowState
        w.sm.latestNonce (stateClock w.sm.toEscrowState)), sealEligibleStatus p.2.status := by
      intro p hp
      have hp := (List.mem_filter.mp hp).2
      simp only [autoSealEligible, Bool.and_eq_true] at hp
      exact hp.1.1
    have hrun : SealRunOutcome sealed w.sm.sealedAcc w (autoSealLoop env w.sm.latestNonce _
        (sealedAccBytes32 w.sm.sealedAcc) w) :=
      autoSealLoop_run hdue.1 rfl (.of_live hnonce List.filter_sublist) hstatus rfl (.inr hne)
    split
    · next hloop =>
      rw [hloop] at hrun
      exact hrun
    · next w' hloop =>
      rw [hloop] at hrun
      obtain ⟨sealed', hsteps, hkept⟩ := hrun.steps
      exact ⟨⟨sealed', hsteps, hkept hb⟩, hrun.latestNonce,
        fun hphase => .inl (hrun.phase.symm.trans hphase), hrun.wrapped⟩
  · exact hsame

theorem ClosedOutcome.of_steps {α : Type} {o : Outcome α}
    (hsteps : Steps ⟨w.sm, sealed⟩ ⟨w₁.sm, sealed⟩)
    (hphase : w₁.sm.phase = .settlement → w.sm.phase = .settlement)
    (hwrapped : w₁.wrapped = w.wrapped) (ho : ClosedOutcome sealed nonce w₁ o) :
    ClosedOutcome sealed nonce w o := by
  cases o with
  | ok =>
    obtain ⟨⟨sealed', hsteps', hb⟩, hnonce, hsettled, hwrapped'⟩ := ho
    exact ⟨⟨sealed', hsteps.trans hsteps', hb⟩, hnonce,
      fun h => (hsettled h).imp_left hphase, hwrapped'.trans hwrapped⟩
  | error => exact Eq.trans ho hwrapped

theorem Closed.stateRoot (snap : MutableSnapshot) (h : Closed sealed nonce w w') :
    ClosedOutcome sealed nonce w (orRestore snap .stateRoot (stateRoot w')) := by
  unfold Devshard.stateRoot
  split
  · exact h.wrapped
  · exact h

/-- **Closing a nonce** is a fee, the next nonce and seals: at the interval while
the session is active, all at once when it enters settlement. -/
theorem closeNonce_closed (env : Env) (snap : MutableSnapshot) (hs : Sound B₀ ⟨w.sm, sealed⟩)
    (hnonce : nonce = w.sm.latestNonce + 1) :
    ClosedOutcome sealed nonce w (closeNonce env nonce snap w) := by
  have hfee := chargeFee_within hs.conserved
  unfold closeNonce
  cases hf : chargeFee w with
  | error =>
    rw [hf] at hfee
    exact hfee
  | ok u w₁ =>
    rw [hf] at hfee
    obtain ⟨finalizeNonce, hadvance⟩ := advanceNonce_eq nonce w₁
    have hstep : Step ⟨w₁.sm, sealed⟩ ⟨(advanceNonce nonce w₁).sm, sealed⟩ := by
      rw [hadvance, hnonce, ← hfee.latestNonce]
      exact Step.nonce finalizeNonce
    have hsteps := hfee.steps.tail hstep
    have hs₂ := hs.steps hsteps
    have hn : (advanceNonce nonce w₁).sm.latestNonce = nonce := by rw [hadvance]
    have hsealed : ∀ e ∈ sealed, e.nonce < (advanceNonce nonce w₁).sm.latestNonce := by
      intro e he
      have := hs.consistent.nonces e he
      dsimp only at this
      omega
    have hb : Bounded ⟨(advanceNonce nonce w₁).sm, sealed⟩ := by
      rw [hadvance, hnonce]
      intro id r hr
      have hle := ((hs.steps hfee.steps).consistent.ids id r hr).2
      rwa [hfee.latestNonce] at hle
    refine .of_steps hsteps (by rw [hadvance]; exact hfee.settled)
      (by rw [hadvance]; exact hfee.wrapped) ?_
    dsimp only [orRestore]
    generalize advanceNonce nonce w₁ = w₂ at hs₂ hn hsealed hb
    subst hn
    by_cases hactive : w₂.sm.phase = .active
    · rw [enterSettlement, if_neg (by simp [hactive])]
      have hseal := sealAtInterval_closed env hb hsealed
      dsimp only
      cases hrun : sealAtInterval env w₂.sm.latestNonce w₂ with
      | error =>
        rw [hrun] at hseal
        exact hseal
      | ok =>
        rw [hrun] at hseal
        exact Closed.stateRoot snap hseal
    · -- the session is past its active phase, and so past the seals at the interval
      have hdrain := enterSettlement_closed env hs₂ hb hsealed
      cases hrun : enterSettlement env w₂ with
      | error =>
        rw [hrun] at hdrain
        exact hdrain
      | ok u w₃ =>
        rw [hrun] at hdrain
        obtain ⟨_, hsteps', -⟩ := Closed.steps hdrain
        have hactive' : ¬ w₃.sm.phase = .active := hsteps'.phase_ne_active hactive
        dsimp only
        rw [sealAtInterval, if_neg (by simp [hactive'])]
        exact Closed.stateRoot snap hdrain

theorem checkDiff_ok {sm : StateMachine} {txs : List DevshardTx} {u : Unit}
    (h : checkDiff sm.latestNonce nonce txs = .ok u) :
    nonce = sm.latestNonce + 1 ∧ ∀ tx ∈ txs, StartsAtNext sm tx := by
  unfold checkDiff at h
  split at h
  · cases h
  next hnonce =>
  have hnonce := not_not.mp hnonce
  refine ⟨hnonce, fun tx htx msg hmsg => ?_⟩
  simp only [checkStarts] at h
  split at h
  · cases h
  next hids =>
  rw [← hnonce]
  have hstart : msg ∈ txs.filterMap DevshardTx.getStartInference :=
    List.mem_filterMap.mpr ⟨tx, htx, by rw [hmsg]; rfl⟩
  by_contra hne
  exact hids (List.any_eq_true.mpr ⟨msg, hstart, by simpa using hne⟩)

theorem Within.closeNonce (env : Env) (snap : MutableSnapshot) (hs : Sound B₀ ⟨w.sm, sealed⟩)
    (h : Within sealed w w₁) :
    ClosedOutcome sealed (w.sm.latestNonce + 1) w
      (closeNonce env (w.sm.latestNonce + 1) snap w₁) := by
  have hclose := closeNonce_closed env snap (hs.steps h.steps) rfl
  rw [h.latestNonce] at hclose
  exact hclose.of_steps h.steps h.settled h.wrapped

/-- **The strict pipeline performs steps** of the session, and wraps nothing
whether it succeeds or fails. -/
theorem applyCore_closed (env : Env) (nonce : ℕ) (txs : List DevshardTx) (postStateRoot : Bytes)
    (hs : Sound B₀ ⟨w.sm, sealed⟩) :
    ClosedOutcome sealed (w.sm.latestNonce + 1) w (applyCore env nonce txs postStateRoot w) := by
  unfold applyCore
  split
  · exact rfl
  next hcheck =>
  obtain ⟨rfl, hids⟩ := checkDiff_ok hcheck
  have htxs := applyTxs_within env w.sm.snapshotMutable hs hids
  dsimp only
  split
  · next hrun =>
    rw [hrun] at htxs
    exact htxs
  next hrun =>
  rw [hrun] at htxs
  have hclose := Within.closeNonce env w.sm.snapshotMutable hs htxs
  split
  · next hrun =>
    rw [hrun] at hclose
    exact hclose
  next w₂ hrun =>
  rw [hrun] at hclose
  unfold checkPostStateRoot
  split
  · show w₂.wrapped = w.wrapped
    exact hclose.wrapped
  · exact hclose

/-- **The best-effort pipeline performs steps** of the session, and wraps nothing
whether it succeeds or fails. -/
theorem localBestEffort_closed (env : Env) (nonce : ℕ) (txs : List DevshardTx)
    (hs : Sound B₀ ⟨w.sm, sealed⟩) :
    ClosedOutcome sealed (w.sm.latestNonce + 1) w (localBestEffort env nonce txs w) := by
  unfold localBestEffort
  dsimp only
  split
  · exact rfl
  next hcheck =>
  obtain ⟨rfl, hids⟩ := checkDiff_ok hcheck
  have htxs := applyTxsBestEffort_within env w.sm.snapshotMutable hs hids
  split
  · next hrun =>
    rw [hrun] at htxs
    exact htxs
  next hrun =>
  rw [hrun] at htxs
  have hclose := Within.closeNonce env w.sm.snapshotMutable hs htxs
  split <;> next hrun =>
    rw [hrun] at hclose
    exact hclose

end Devshard
