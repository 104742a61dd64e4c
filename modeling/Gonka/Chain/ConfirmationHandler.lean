/-
What the handler of confirmation events does in a block.

* `Sequenced` — the events of an epoch are numbered without gaps, so that a new one has a new key;
* `Running` — what holds of the active event;
* `Handled` — the four things that the handler may do, and `handleConfirmationPoC_handled`;
* `Triggered.running`, `Running.moved` — a new event is running, and one that is not cleared goes
  on.
-/
import Gonka.Chain.ConfirmationSchedule

namespace Inference

open OrdMap List

/-- The events of each epoch are numbered from 0 without gaps. -/
def Sequenced (m : OrdMap (ℕ ×ₗ ℕ) ConfirmationPoCEvent) : Prop :=
  ∀ i n, toLex (i, n) ∈ m.keys ↔ n < (m.keys.filter fun key => (ofLex key).1 = i).length

theorem length_getAllConfirmationPoCEventsForEpoch (k : Keeper) (i : ℕ) :
    (k.getAllConfirmationPoCEventsForEpoch i).length =
      (k.confirmationPoCEvents.keys.filter fun key => (ofLex key).1 = i).length := by
  unfold Keeper.getAllConfirmationPoCEventsForEpoch OrdMap.keys
  rw [length_map, filter_map, length_map]
  rfl

section

variable {m : OrdMap (ℕ ×ₗ ℕ) ConfirmationPoCEvent} {key : ℕ ×ₗ ℕ} {e : ConfirmationPoCEvent}

theorem Sequenced.insert_of_some (hm : Sequenced m) {e₀ : ConfirmationPoCEvent}
    (hkey : m.get? key = some e₀) : Sequenced (m.insert key e) := by
  unfold Sequenced
  rw [keys_insert_of_some e hkey]
  exact hm

theorem Sequenced.get?_next (hm : Sequenced m) (i : ℕ) :
    m.get? (toLex (i, (m.keys.filter fun key => (ofLex key).1 = i).length)) = none := by
  rw [get?_eq_none_iff, hm]
  exact lt_irrefl _

theorem Sequenced.insert_next (hm : Sequenced m) (i : ℕ) :
    Sequenced (m.insert (toLex (i, (m.keys.filter fun key => (ofLex key).1 = i).length)) e) := by
  intro j n
  have hperm := (entries_insert_perm e (hm.get?_next i)).map Prod.fst
  have hlength := (hperm.filter fun key => decide ((ofLex key).1 = j)).length_eq
  rw [show (m.insert _ e).entries.map Prod.fst = (m.insert _ e).keys from rfl] at hlength hperm
  rw [hperm.mem_iff, hlength, map_cons, mem_cons]
  change toLex (j, n) = toLex (i, _) ∨ toLex (j, n) ∈ m.keys ↔ _
  rw [hm j n, toLex_inj, Prod.mk.injEq]
  rw [filter_cons]
  change _ ↔ n < (if decide (i = j) = true then _ :: m.keys.filter _ else m.keys.filter _).length
  by_cases hj : j = i
  · rw [if_pos (decide_eq_true hj.symm), length_cons, hj]
    omega
  · rw [if_neg fun hno => hj (of_decide_eq_true hno).symm]
    simp only [hj, false_and, false_or]

end

section

variable (env : Env)

structure Running (k : Keeper) (h : ℤ) (e : ConfirmationPoCEvent) : Prop where
  index : 2 ≤ e.epochIndex
  enabled : ∃ confirmationParams, env.params.confirmationPocParams = some confirmationParams ∧
    confirmationParams.expectedConfirmationsPerEpoch ≠ 0
  epoch : ∃ epoch, k.getEffectiveEpoch = some epoch ∧ epoch.index = e.epochIndex ∧
    epoch.pocStartBlockHeight + env.epochParams.stages ≤ e.triggerHeight ∧
    e.triggerHeight + env.epochParams.inferenceValidationCutoff +
        (env.epochParams.pocStageDuration + env.epochParams.pocExchangeDuration +
          env.epochParams.pocValidationDelay + env.epochParams.pocValidationDuration +
          env.epochParams.setNewValidatorsDelay +
          env.epochParams.confirmationPocSafetyWindow) ≤
      epoch.pocStartBlockHeight + env.epochParams.epochLength
  start : e.generationStartHeight =
    e.triggerHeight + max 1 env.epochParams.inferenceValidationCutoff
  since : e.triggerHeight ≤ h
  due : h < e.clearHeight env.epochParams
  phase : e.phase = e.getExpectedPhase env.epochParams h
  stored : k.confirmationPoCEvents.get? e.key = some e

end

section

variable {env : Env} {k k' : Keeper} {h : ℤ} {e : ConfirmationPoCEvent} {block : Block}
  {ec : EpochContext}

variable (hp : env.epochParams.Valid) (hfits : Fits env h) (hk : Epochs env k (h - 1))

include hp in
theorem Running.bounds (hk : Epochs env k h)
    (hr : Running env k h e) : ∃ epoch, k.getEffectiveEpoch = some epoch ∧
      epoch.index = e.epochIndex ∧ 0 ≤ epoch.pocStartBlockHeight ∧ epoch.pocStartBlockHeight ≤ h ∧
      epoch.pocStartBlockHeight + env.epochParams.stages ≤ e.triggerHeight ∧
      0 ≤ e.generationStartHeight ∧ e.triggerHeight < e.generationStartHeight ∧
      e.clearHeight env.epochParams ≤
        epoch.pocStartBlockHeight + env.epochParams.epochLength := by
  obtain ⟨epoch, heffective, hindex, hstart, _⟩ := hr.epoch
  obtain ⟨-, hlow, hhigh⟩ := hk.heights _ epoch heffective
  have hstages := hp.stages_pos
  have hgeneration := hr.start
  have hbounds := hp.bounds
  refine ⟨epoch, heffective, hindex, hlow, hhigh, hstart, by omega, by omega, ?_⟩
  unfold ConfirmationPoCEvent.clearHeight
  omega

include hp hfits in
theorem Running.fits (hk : Epochs env k h) (hr : Running env k h e) : e.Fits env.epochParams := by
  obtain ⟨_, -, -, -, _, -, hgeneration, -, _⟩ := hr.bounds hp hk
  have hspan := hp.stages_add_length_le
  have hstages := hp.stages_pos
  have hlength := hp.epochLength
  unfold Fits at hfits
  exact ⟨hgeneration, by omega⟩

include hp in
variable (block) in
theorem transitions_of_running (he : e.Fits env.epochParams) (hindex : 2 ≤ ec.epochIndex)
    (hactive : k.activeConfirmationPoCEvent = some e) (hr : Running env k (h - 1) e) :
    ∃ seed actions, script e.phase ++ actions = script (e.getExpectedPhase env.epochParams h) ∧
      handleConfirmationPoCPhaseTransitions env block h ec k =
        if h < e.clearHeight env.epochParams then
          { k.record e h actions with
            activeConfirmationPoCEvent := some { e with
              phase := e.getExpectedPhase env.epochParams h, pocSeedBlockHash := seed }
            confirmationPoCEvents := k.confirmationPoCEvents.insert e.key { e with
              phase := e.getExpectedPhase env.epochParams h, pocSeedBlockHash := seed } }
        else ((k.record e h actions).record e h [.clear]).clearActiveConfirmationPoCEvent := by
  obtain ⟨seed, hevent, hscript, hsame⟩ := advance_spec block hp he hr.phase
  refine ⟨seed, (advance env.epochParams block h e).2, hscript, ?_⟩
  have hclear : i64 ((advance env.epochParams block h e).1.getValidationEnd env.epochParams + 1 +
      env.epochParams.setNewValidatorsDelay) = e.clearHeight env.epochParams := by
    rw [hevent]
    change i64 (e.getValidationEnd env.epochParams + 1 + _) = _
    exact clearHeight_eq hp he
  have hkey : (advance env.epochParams block h e).1.key = e.key := by rw [hevent]; rfl
  have hrecord (actions : List Action) (k : Keeper) :
      k.record (advance env.epochParams block h e).1 h actions = k.record e h actions := by
    unfold Keeper.record
    rw [hkey]
  unfold handleConfirmationPoCPhaseTransitions
  simp only [if_neg (show ¬ ec.epochIndex ≤ 1 by omega), hactive, hclear, hrecord]
  by_cases hdue : h < e.clearHeight env.epochParams
  · rw [if_neg fun hno => not_lt.mpr hno.2 hdue, if_pos hdue]
    split
    · unfold Keeper.setConfirmationPoCEvent Keeper.setActiveConfirmationPoCEvent
      rw [hkey, hevent]
      rfl
    · next hnothing =>
      -- nothing changed, and the event is stored as it is
      have hevent' := (hsame (not_not.mp hnothing)).symm.trans hevent
      rw [← hevent', insert_eq_self hr.stored, ← hactive]
      rfl
  · have hcompleted : (advance env.epochParams block h e).1.phase = .completed := by
      rw [hevent]
      exact expected_of_clearHeight_le hp he (not_lt.mp hdue)
    rw [if_pos ⟨hcompleted, not_lt.mp hdue⟩, if_neg hdue]

theorem transitions_of_none (hactive : k.activeConfirmationPoCEvent = none) :
    handleConfirmationPoCPhaseTransitions env block h ec k = k := by
  unfold handleConfirmationPoCPhaseTransitions
  simp only [hactive, ite_self]

variable (env) in
structure Triggered (k k' : Keeper) (h : ℤ) (e : ConfirmationPoCEvent) : Prop where
  enabled : ∃ confirmationParams, env.params.confirmationPocParams = some confirmationParams ∧
    confirmationParams.expectedConfirmationsPerEpoch ≠ 0
  idle : k.activeConfirmationPoCEvent = none
  context : ∃ epoch ec, k.getEffectiveEpoch = some epoch ∧
    newEpochContextFromEffectiveEpoch epoch env.epochParams h = some ec ∧ 2 ≤ ec.epochIndex ∧
    ec.setNewValidators ≤ h ∧ h ≤ triggerWindowEnd env.epochParams ec ∧
    e = triggeredEvent env.epochParams h ec k
  state : k' =
    ((k.setConfirmationPoCEvent e).setActiveConfirmationPoCEvent e).record e h [.enter .gracePeriod]

theorem checkConfirmationPoCTrigger_spec {confirmationParams : ConfirmationPoCParams}
    {epoch : Epoch} (henabled : env.params.confirmationPocParams = some confirmationParams)
    (hexpected : confirmationParams.expectedConfirmationsPerEpoch ≠ 0)
    (heffective : k.getEffectiveEpoch = some epoch)
    (hec : newEpochContextFromEffectiveEpoch epoch env.epochParams h = some ec)
    (hok : checkConfirmationPoCTrigger env block h ec confirmationParams k = .ok k') :
    k' = k ∨ ∃ e, Triggered env k k' h e := by
  simp only [checkConfirmationPoCTrigger] at hok
  split at hok
  · exact .inl (Except.ok.inj hok).symm
  next hindex =>
  split at hok
  · exact .inl (Except.ok.inj hok).symm
  split at hok
  · exact .inl (Except.ok.inj hok).symm
  next hidle =>
  split at hok
  · exact .inl (Except.ok.inj hok).symm
  split at hok
  · exact .inl (Except.ok.inj hok).symm
  next hwindow =>
  split at hok
  · exact .inl (Except.ok.inj hok).symm
  split at hok
  · nomatch hok
  split at hok
  · exact .inl (Except.ok.inj hok).symm
  rw [not_or, not_lt, not_lt] at hwindow
  refine .inr ⟨_, ⟨_, henabled, hexpected⟩, by simpa using hidle,
    ⟨epoch, ec, heffective, hec, by omega, hwindow.1, hwindow.2, rfl⟩,
    (Except.ok.inj hok).symm⟩

def Keeper.cleared (k : Keeper) (e : ConfirmationPoCEvent) (h : ℤ) (actions : List Action) :
    Keeper :=
  ((k.record e h actions).record e h [.clear]).clearActiveConfirmationPoCEvent

inductive Handled (env : Env) (k : Keeper) (h : ℤ) : Keeper → Prop
  | idle (hidle : k.activeConfirmationPoCEvent = none) : Handled env k h k
  | triggered {k' : Keeper} {e : ConfirmationPoCEvent} (ht : Triggered env k k' h e) :
      Handled env k h k'
  | moved {e e' : ConfirmationPoCEvent} {actions : List Action}
      (hactive : k.activeConfirmationPoCEvent = some e)
      (hdue : h < e.clearHeight env.epochParams)
      (hscript : script e.phase ++ actions = script (e.getExpectedPhase env.epochParams h))
      (he' : ∃ seed, e' = { e with
        phase := e.getExpectedPhase env.epochParams h, pocSeedBlockHash := seed }) :
      Handled env k h { k.record e h actions with
        activeConfirmationPoCEvent := some e'
        confirmationPoCEvents := k.confirmationPoCEvents.insert e.key e' }
  | cleared {e : ConfirmationPoCEvent} {actions : List Action} {k' : Keeper}
      (hactive : k.activeConfirmationPoCEvent = some e)
      (hdue : h = e.clearHeight env.epochParams)
      (hscript : script e.phase ++ actions = script .completed)
      (hnext : k' = k.cleared e h actions ∨ ∃ e', Triggered env (k.cleared e h actions) k' h e') :
      Handled env k h k'

include hp hfits hk in
theorem Running.context (hr : Running env k (h - 1) e) :
    ∃ epoch ec, k.getEffectiveEpoch = some epoch ∧
      newEpochContextFromEffectiveEpoch epoch env.epochParams h = some ec ∧ 2 ≤ ec.epochIndex := by
  obtain ⟨epoch, heffective, _, hlow, _, _, -, -, _⟩ := hr.bounds hp hk
  have hge := hr.index
  have hsince := hr.since
  have hdue := hr.due
  have hset := newEpochContext_setNewValidators hp hfits hlow (by omega) (by omega)
  have hnext := nextStart_eq hp hfits hlow (by omega) (by omega)
  have hstages := hp.stages_pos
  by_cases hin : h < nextStart env epoch
  · refine ⟨epoch, newEpochContext epoch env.epochParams, heffective, ?_, ?_⟩
    · simp only [newEpochContextFromEffectiveEpoch]
      exact if_pos ⟨hin, by omega⟩
    · show 2 ≤ epoch.index
      omega
  · refine ⟨epoch, _, heffective, context_of_started hp hfits (by omega) (by omega), ?_⟩
    show 2 ≤ epoch.index + 1
    omega

include hp hfits hk in
theorem handleConfirmationPoC_handled
    (hr : ∀ e, k.activeConfirmationPoCEvent = some e → Running env k (h - 1) e) :
    Handled env k h (handleConfirmationPoC env block h k).1 := by
  cases hactive : k.activeConfirmationPoCEvent with
  | none =>
    simp only [handleConfirmationPoC, transitions_of_none hactive]
    split
    · exact .idle hactive
    next henabled =>
    split
    · exact .idle hactive
    next hexpected =>
    split
    · exact .idle hactive
    next heffective =>
    split
    · exact .idle hactive
    next hec =>
    split
    · exact .idle hactive
    next hok =>
    rcases checkConfirmationPoCTrigger_spec henabled hexpected heffective hec hok with
      rfl | ⟨e, ht⟩
    · exact .idle hactive
    · exact .triggered ht
  | some e =>
    have hr := hr e hactive
    obtain ⟨_, henabled, hexpected⟩ := hr.enabled
    obtain ⟨_, _, heffective, hec, hindex⟩ := hr.context hp hfits hk
    have he := hr.fits hp (by unfold Fits at hfits ⊢; omega) hk
    obtain ⟨seed, _, hscript, htransitions⟩ :=
      transitions_of_running block hp he hindex hactive hr
    have hdue := hr.due
    simp only [handleConfirmationPoC, henabled, if_neg hexpected, heffective, hec, htransitions]
    by_cases hclear : h < e.clearHeight env.epochParams
    · -- the event is still active, so that none is triggered
      simp only [if_pos hclear, checkConfirmationPoCTrigger, Option.isSome_some, if_true, ite_self]
      exact .moved hactive hclear hscript ⟨seed, rfl⟩
    · rw [expected_of_clearHeight_le hp he (not_lt.mp hclear)] at hscript
      simp only [if_neg hclear]
      refine .cleared hactive (by omega) hscript ?_
      split
      · exact .inl rfl
      · next hok =>
        exact checkConfirmationPoCTrigger_spec henabled hexpected heffective hec hok

end

section

variable {env : Env} {k k' : Keeper} {h : ℤ} {e : ConfirmationPoCEvent}

theorem advanceEpoch_frame (env : Env) (h : ℤ) (k : Keeper) :
    (advanceEpoch env h k).activeConfirmationPoCEvent = k.activeConfirmationPoCEvent ∧
      (advanceEpoch env h k).confirmationPoCEvents = k.confirmationPoCEvents ∧
      (advanceEpoch env h k).log = k.log := by
  unfold advanceEpoch
  split
  · exact ⟨rfl, rfl, rfl⟩
  split
  · exact ⟨rfl, rfl, rfl⟩
  · dsimp only
    split <;> split <;> exact ⟨rfl, rfl, rfl⟩

theorem Handled.epochs (hk : Handled env k h k') :
    k'.epochs = k.epochs ∧ k'.effectiveEpochIndex = k.effectiveEpochIndex := by
  cases hk with
  | idle => exact ⟨rfl, rfl⟩
  | triggered ht => rw [ht.state]; exact ⟨rfl, rfl⟩
  | moved => exact ⟨rfl, rfl⟩
  | cleared _ _ _ hnext =>
    rcases hnext with rfl | ⟨_, ht⟩
    · exact ⟨rfl, rfl⟩
    · rw [ht.state]
      exact ⟨rfl, rfl⟩

variable (hp : env.epochParams.Valid) (hfits : Fits env h) (hpos : 0 < h)
  (hk : Epochs env k (h - 1))

include hp hfits hpos hk in
theorem advanceEpoch_records : k.effectiveEpochIndex ≤ (advanceEpoch env h k).effectiveEpochIndex ∧
    ∀ i ≤ k.effectiveEpochIndex, (advanceEpoch env h k).epochs.get? i = k.epochs.get? i := by
  cases heffective : k.getEffectiveEpoch with
  | none =>
    rw [advanceEpoch_of_none heffective]
    exact ⟨le_rfl, fun _ _ => rfl⟩
  | some epoch =>
    obtain ⟨_, hlow, _⟩ := hk.heights _ epoch heffective
    rw [advanceEpoch_eq hp hfits hpos hlow (by omega) heffective]
    split
    · refine ⟨le_rfl, ?_⟩
      intro i hi
      rw [get?_insert, if_neg (by omega)]
    · split
      · exact ⟨by show _ ≤ epoch.index + 1; omega, fun _ _ => rfl⟩
      · exact ⟨le_rfl, fun _ _ => rfl⟩

include hp hfits hpos hk in
theorem advanceEpoch_effective {epoch : Epoch} (heffective : k.getEffectiveEpoch = some epoch)
    (hle : h ≤ nextStart env epoch) :
    (advanceEpoch env h k).effectiveEpochIndex = k.effectiveEpochIndex ∧
      (advanceEpoch env h k).getEffectiveEpoch = some epoch := by
  obtain ⟨_, hlow, _⟩ := hk.heights _ epoch heffective
  have hstages := hp.stages_pos
  have hsame : (advanceEpoch env h k).effectiveEpochIndex = k.effectiveEpochIndex := by
    rw [advanceEpoch_eq hp hfits hpos hlow (by omega) heffective]
    split
    · rfl
    · rw [if_neg (by omega)]
  refine ⟨hsame, ?_⟩
  unfold Keeper.getEffectiveEpoch
  rw [hsame, (advanceEpoch_records hp hfits hpos hk).2 _ le_rfl]
  exact heffective

include hp hfits in
theorem triggerWindowEnd_eq (hnonneg : 0 ≤ h) (ec : EpochContext) (hlow : -2 ^ 62 ≤ ec.nextPoCStart)
    (hhigh : ec.nextPoCStart ≤ h + env.epochParams.epochLength) :
    triggerWindowEnd env.epochParams ec = ec.nextPoCStart -
      env.epochParams.inferenceValidationCutoff - (env.epochParams.pocStageDuration +
        env.epochParams.pocExchangeDuration + env.epochParams.pocValidationDelay +
        env.epochParams.pocValidationDuration + env.epochParams.setNewValidatorsDelay +
        env.epochParams.confirmationPocSafetyWindow) := by
  have hbounds := hp.bounds
  unfold Fits EpochParams.span at hfits
  unfold triggerWindowEnd confirmationWindowDuration
  rw [i64_of_fits (x := env.epochParams.pocStageDuration + _ + _ + _ + _ + _) (by omega) (by omega)]
  exact i64_of_fits (by show -2 ^ 63 ≤ ec.nextPoCStart - _ - _; omega)
    (by show ec.nextPoCStart - _ - _ < 2 ^ 63; omega)

include hp hfits hpos in
theorem Triggered.running_of_epoch (ht : Triggered env k k' h e) {epoch : Epoch} {k₃ : Keeper}
    (hevents : k₃.confirmationPoCEvents = k'.confirmationPoCEvents)
    (heffective : k₃.getEffectiveEpoch = some epoch) {ec : EpochContext}
    (he : e = triggeredEvent env.epochParams h ec k) (hindex : epoch.index = ec.epochIndex)
    (hge : 2 ≤ ec.epochIndex) (hlow : 0 ≤ epoch.pocStartBlockHeight)
    (hhigh : epoch.pocStartBlockHeight ≤ h)
    (hset : epoch.pocStartBlockHeight + env.epochParams.stages ≤ h)
    (hnext : ec.nextPoCStart = epoch.pocStartBlockHeight + env.epochParams.epochLength)
    (hwindow : h ≤ triggerWindowEnd env.epochParams ec) : Running env k₃ h e := by
  have hbounds := hp.bounds
  have htrigger : e.triggerHeight = h := by rw [he]; rfl
  have hstart : e.generationStartHeight = h + max 1 env.epochParams.inferenceValidationCutoff := by
    have hmax : (if env.epochParams.inferenceValidationCutoff < 1 then 1
        else env.epochParams.inferenceValidationCutoff) =
          max 1 env.epochParams.inferenceValidationCutoff := by
      split <;> omega
    unfold Fits EpochParams.span at hfits
    rw [he]
    unfold triggeredEvent
    rw [hmax]
    exact i64_of_fits (by omega) (by omega)
  rw [triggerWindowEnd_eq hp hfits hpos.le ec (by omega) (by omega), hnext] at hwindow
  refine ⟨?_, ht.enabled, ⟨epoch, heffective, ?_, by omega, by omega⟩, by omega, by omega, ?_, ?_,
    ?_⟩
  · rw [he]
    exact hge
  · rw [he]
    exact hindex
  · unfold ConfirmationPoCEvent.clearHeight
    omega
  · rw [expected_gracePeriod (by omega), he]
    rfl
  · rw [hevents, ht.state]
    exact get?_insert_self _ _ _

include hp hfits hpos hk in
theorem Triggered.running (ht : Triggered env k k' h e) : Running env (advanceEpoch env h k') h e ∧
      (advanceEpoch env h k').effectiveEpochIndex = e.epochIndex := by
  obtain ⟨epoch, _, heffective, hec, hindex, hset, hwindow, he⟩ := ht.context
  obtain ⟨hepoch, hlow, _⟩ := hk.heights _ epoch heffective
  have hstages := hp.stages_pos
  have heffective' : k'.getEffectiveEpoch = some epoch := by
    rw [ht.state]
    exact heffective
  have hk' : Epochs env k' (h - 1) := by
    rw [ht.state]
    exact ⟨hk.heights, hk.recorded⟩
  have hevents := (advanceEpoch_frame env h k').2.1
  rcases context_cases hp hfits hpos hlow (by omega) hec with
    ⟨rfl, hpast, hbefore⟩ | ⟨rfl, hsetNew, hnextStart, hle⟩
  · -- in the effective epoch
    change 2 ≤ epoch.index at hindex
    obtain ⟨hsame, hafter⟩ := advanceEpoch_effective hp hfits hpos hk' heffective' hbefore.le
    rw [newEpochContext_setNewValidators hp hfits hlow (by omega) (by omega)] at hset
    have hnext := nextStart_eq hp hfits hlow (by omega) (by omega)
    refine ⟨ht.running_of_epoch hp hfits hpos hevents hafter he rfl hindex hlow (by omega) hset hnext
      hwindow, ?_⟩
    rw [hsame, he, ht.state]
    exact hepoch.symm
  · -- with the new validators of the next epoch, which becomes effective in this block
    change 2 ≤ epoch.index + 1 at hindex
    have hh : h = nextStart env epoch + env.epochParams.stages := by omega
    have hnext := nextStart_eq hp hfits hlow (by omega) (by omega)
    have hlength := hp.epochLength
    have hlong : env.epochParams.stages < env.epochParams.epochLength := by
      have hend := triggerWindowEnd_eq hp hfits hpos.le
        (newEpochContext epoch env.epochParams).nextEpochContext (by omega) (by omega)
      have hbounds := hp.bounds
      omega
    have hrecord := hk'.recorded hlong epoch heffective' (by omega)
    have hadvance : advanceEpoch env h k' = { k' with effectiveEpochIndex := epoch.index + 1 } := by
      rw [advanceEpoch_eq hp hfits hpos hlow (by omega) heffective', if_neg (by omega), if_pos hh]
    have hafter : (advanceEpoch env h k').getEffectiveEpoch =
        some ⟨epoch.index + 1, nextStart env epoch⟩ := by
      rw [hadvance]
      exact hrecord
    refine ⟨ht.running_of_epoch hp hfits hpos hevents hafter he rfl hindex ?_ ?_ ?_ hnextStart
      hwindow, ?_⟩
    · show 0 ≤ nextStart env epoch
      omega
    · show nextStart env epoch ≤ h
      omega
    · show nextStart env epoch + env.epochParams.stages ≤ h
      omega
    · rw [hadvance, he]
      rfl

include hp hfits hpos hk in
theorem Running.moved {e' : ConfirmationPoCEvent} {actions : List Action}
    (hr : Running env k (h - 1) e) (hdue : h < e.clearHeight env.epochParams)
    (he' : ∃ seed, e' = { e with
      phase := e.getExpectedPhase env.epochParams h, pocSeedBlockHash := seed })
    (hk' : k' = { k.record e h actions with
      activeConfirmationPoCEvent := some e'
      confirmationPoCEvents := k.confirmationPoCEvents.insert e.key e' }) :
    Running env (advanceEpoch env h k') h e' := by
  obtain ⟨epoch, heffective, hindex, hlow, _, hstart, -, -, _⟩ := hr.bounds hp hk
  obtain ⟨_, heffective₂, -, -, hwindow⟩ := hr.epoch
  obtain rfl := Option.some.inj (heffective.symm.trans heffective₂)
  have hge := hr.index
  have hsince := hr.since
  have hnext := nextStart_eq hp hfits hlow (by omega) (by omega)
  have hepochs : Epochs env k' (h - 1) := by
    rw [hk']
    exact ⟨hk.heights, hk.recorded⟩
  have heffective' : k'.getEffectiveEpoch = some epoch := by
    rw [hk']
    exact heffective
  obtain ⟨-, hafter⟩ := advanceEpoch_effective hp hfits hpos hepochs heffective' (by omega)
  obtain ⟨_, rfl⟩ := he'
  refine ⟨hge, hr.enabled, ⟨epoch, hafter, hindex, hstart, hwindow⟩, hr.start, ?_, hdue, rfl, ?_⟩
  · show e.triggerHeight ≤ h
    omega
  · rw [(advanceEpoch_frame env h k').2.1, hk']
    exact get?_insert_self _ _ _

theorem Triggered.sequenced (ht : Triggered env k k' h e) (hs : Sequenced k.confirmationPoCEvents) :
    Sequenced k'.confirmationPoCEvents ∧ k.confirmationPoCEvents.get? e.key = none := by
  obtain ⟨_, ec, -, -, -, -, -, he⟩ := ht.context
  have hkey : e.key = toLex (ec.epochIndex,
      (k.confirmationPoCEvents.keys.filter fun key => (ofLex key).1 = ec.epochIndex).length) := by
    rw [he]
    unfold triggeredEvent ConfirmationPoCEvent.key
    rw [length_getAllConfirmationPoCEventsForEpoch]
  refine ⟨?_, hkey ▸ hs.get?_next ec.epochIndex⟩
  rw [ht.state]
  show Sequenced (k.confirmationPoCEvents.insert e.key e)
  rw [hkey]
  exact hs.insert_next ec.epochIndex

end

end Inference
