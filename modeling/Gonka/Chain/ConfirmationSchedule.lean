/-
The schedule of confirmation events and of epochs.

Main results: `advance_spec`, `advanceEpoch_eq`.
-/
import Gonka.Chain.ConfirmationPoC

namespace Inference

open ConfirmationPoCEvent

/-! ### The phases of an event -/

section

variable {p : EpochParams} {e : ConfirmationPoCEvent} {h : ℤ} {block : Block}

def script : ConfirmationPoCPhase → List Action
  | .gracePeriod => [.enter .gracePeriod]
  | .generation => [.enter .gracePeriod, .enter .generation]
  | .validation => [.enter .gracePeriod, .enter .generation, .enter .validation]
  | .completed => [.enter .gracePeriod, .enter .generation, .enter .validation, .enter .completed,
      .updateConfirmationWeights]

def ConfirmationPoCEvent.clearHeight (e : ConfirmationPoCEvent) (p : EpochParams) : ℤ :=
  e.generationStartHeight + p.pocStageDuration + p.pocExchangeDuration + p.pocValidationDelay +
    p.pocValidationDuration + p.setNewValidatorsDelay - 1

structure ConfirmationPoCEvent.Fits (e : ConfirmationPoCEvent) (p : EpochParams) : Prop where
  low : 0 ≤ e.generationStartHeight
  high : e.clearHeight p < 2 ^ 63

theorem getValidationStart_eq (hp : p.Valid) (hfits : e.Fits p) :
    e.getValidationStart p = e.generationStartHeight + p.pocStageDuration - 1 +
      p.pocExchangeDuration + p.pocValidationDelay := by
  have hlow := hfits.low
  have hhigh := hfits.high
  have hbounds := hp.bounds
  unfold clearHeight at hhigh
  unfold getValidationStart getExchangeEnd
    getGenerationEnd
  rw [i64_of_fits (x := e.generationStartHeight + p.pocStageDuration - 1) (by omega) (by omega),
    i64_of_fits (x := e.generationStartHeight + p.pocStageDuration - 1 + p.pocExchangeDuration)
      (by omega) (by omega)]
  exact i64_of_fits (by omega) (by omega)

theorem getValidationEnd_eq (hp : p.Valid) (hfits : e.Fits p) :
    e.getValidationEnd p = e.getValidationStart p + p.pocValidationDuration - 1 := by
  have hlow := hfits.low
  have hhigh := hfits.high
  have hstart := getValidationStart_eq hp hfits
  have hbounds := hp.bounds
  unfold clearHeight at hhigh
  exact i64_of_fits (by omega) (by omega)

theorem clearHeight_eq (hp : p.Valid) (hfits : e.Fits p) :
    i64 (e.getValidationEnd p + 1 + p.setNewValidatorsDelay) = e.clearHeight p := by
  have hlow := hfits.low
  have hhigh := hfits.high
  have hbounds := hp.bounds
  rw [getValidationEnd_eq hp hfits, getValidationStart_eq hp hfits]
  unfold clearHeight at hhigh ⊢
  rw [i64_of_fits (by omega) (by omega)]
  omega

theorem expected_gracePeriod (hh : h < e.generationStartHeight) :
    e.getExpectedPhase p h = .gracePeriod := if_pos hh

theorem expected_generation (hlow : e.generationStartHeight ≤ h) (hh : h < e.getValidationStart p) :
    e.getExpectedPhase p h = .generation := by
  unfold getExpectedPhase
  rw [if_neg (not_lt.mpr hlow), if_pos hh]

theorem expected_validation (hlow : e.generationStartHeight ≤ h)
    (hstart : e.getValidationStart p ≤ h) (hh : h ≤ e.getValidationEnd p) : e.getExpectedPhase p h = .validation := by
  unfold getExpectedPhase
  rw [if_neg (not_lt.mpr hlow), if_neg (not_lt.mpr hstart), if_pos hh]

theorem expected_completed (hlow : e.generationStartHeight ≤ h)
    (hstart : e.getValidationStart p ≤ h) (hh : e.getValidationEnd p < h) : e.getExpectedPhase p h = .completed := by
  unfold getExpectedPhase
  rw [if_neg (not_lt.mpr hlow), if_neg (not_lt.mpr hstart), if_neg (not_le.mpr hh)]

theorem expected_of_clearHeight_le (hp : p.Valid) (hfits : e.Fits p) (hh : e.clearHeight p ≤ h) :
    e.getExpectedPhase p h = .completed := by
  have hend := getValidationEnd_eq hp hfits
  have hstart := getValidationStart_eq hp hfits
  have hbounds := hp.bounds
  unfold clearHeight at hh
  exact expected_completed (by omega) (by omega) (by omega)

/-- An event in the phase that its height asks for stays as it is. -/
theorem advance_eq_self (hnew : e.getExpectedPhase p h = e.phase) :
    advance p block h e = (e, []) := by
  have hno (phase : ConfirmationPoCPhase) (due : Prop) [Decidable due]
      (himp : e.phase = phase → ¬ due) : (decide (e.phase = phase) && decide due) = false := by
    by_cases hphase : e.phase = phase
    · simp [himp hphase]
    · simp [hphase]
  unfold getExpectedPhase at hnew
  have h1 := hno .gracePeriod (e.generationStartHeight ≤ h) fun hphase => by grind
  have h2 := hno .generation (e.getValidationStart p ≤ h) fun hphase => by grind
  have h3 := hno .validation (e.getValidationEnd p < h) fun hphase => by grind
  simp only [advance, shouldTransitionToGeneration, shouldTransitionToValidation,
    shouldTransitionToCompleted, h1, h2, h3, Bool.false_eq_true, if_false]

theorem advance_of_gracePeriod (hphase : e.phase = .gracePeriod) (hh : e.generationStartHeight ≤ h)
    (hend : h ≤ e.getValidationEnd p) :
    advance p block h e = if e.getValidationStart p ≤ h then
        ({ e with phase := .validation, pocSeedBlockHash := block.hash },
          [.enter .generation, .enter .validation])
      else ({ e with phase := .generation, pocSeedBlockHash := block.hash },
        [.enter .generation]) := by
  have hstart' : ({ e with pocSeedBlockHash := block.hash, phase := .generation } :
    ConfirmationPoCEvent).getValidationStart p = e.getValidationStart p := rfl
  have hend' : ¬ ({ e with pocSeedBlockHash := block.hash, phase := .validation } :
    ConfirmationPoCEvent).getValidationEnd p < h := not_lt.mpr hend
  split <;> simp [advance, shouldTransitionToGeneration, shouldTransitionToValidation,
    shouldTransitionToCompleted, *]

theorem advance_of_generation (hphase : e.phase = .generation) (hh : e.getValidationStart p ≤ h)
    (hend : h ≤ e.getValidationEnd p) :
    advance p block h e = ({ e with phase := .validation }, [.enter .validation]) := by
  have hend' : ¬ ({ e with phase := .validation } : ConfirmationPoCEvent).getValidationEnd p < h :=
    not_lt.mpr hend
  simp [advance, shouldTransitionToGeneration, shouldTransitionToValidation,
    shouldTransitionToCompleted, *]

theorem advance_of_validation (hphase : e.phase = .validation) (hh : e.getValidationEnd p < h) :
    advance p block h e =
      ({ e with phase := .completed }, [.enter .completed, .updateConfirmationWeights]) := by
  simp [advance, shouldTransitionToGeneration, shouldTransitionToValidation,
    shouldTransitionToCompleted, *]

variable (block) in
/-- **One block.**  The event was in the phase of the height before. -/
theorem advance_spec (hp : p.Valid) (hfits : e.Fits p)
    (hphase : e.phase = e.getExpectedPhase p (h - 1)) :
    ∃ seed, (advance p block h e).1 =
        { e with phase := e.getExpectedPhase p h, pocSeedBlockHash := seed } ∧
      script e.phase ++ (advance p block h e).2 = script (e.getExpectedPhase p h) ∧
      ((advance p block h e).2 = [] → (advance p block h e).1 = e) := by
  have hend := getValidationEnd_eq hp hfits
  have hstart := getValidationStart_eq hp hfits
  have hbounds := hp.bounds
  -- a height that asks for the same phase as the one before
  have hsame (hnew : e.getExpectedPhase p h = e.phase) :
      ∃ seed, (advance p block h e).1 =
          { e with phase := e.getExpectedPhase p h, pocSeedBlockHash := seed } ∧
        script e.phase ++ (advance p block h e).2 = script (e.getExpectedPhase p h) ∧
        ((advance p block h e).2 = [] → (advance p block h e).1 = e) := by
    rw [advance_eq_self hnew, hnew]
    exact ⟨e.pocSeedBlockHash, rfl, List.append_nil _, fun _ => rfl⟩
  by_cases hgrace : h - 1 < e.generationStartHeight
  · rw [expected_gracePeriod hgrace] at hphase
    by_cases hdue : h < e.generationStartHeight
    · exact hsame ((expected_gracePeriod hdue).trans hphase.symm)
    · rw [advance_of_gracePeriod hphase (by omega) (by omega)]
      split
      · rw [expected_validation (by omega) (by omega) (by omega), hphase]
        exact ⟨block.hash, rfl, rfl, nofun⟩
      · rw [expected_generation (by omega) (by omega), hphase]
        exact ⟨block.hash, rfl, rfl, nofun⟩
  · by_cases hgeneration : h - 1 < e.getValidationStart p
    · rw [expected_generation (by omega) hgeneration] at hphase
      by_cases hdue : h < e.getValidationStart p
      · exact hsame ((expected_generation (by omega) hdue).trans hphase.symm)
      · rw [advance_of_generation hphase (by omega) (by omega),
          expected_validation (by omega) (by omega) (by omega), hphase]
        exact ⟨e.pocSeedBlockHash, rfl, rfl, nofun⟩
    · by_cases hvalidation : h - 1 ≤ e.getValidationEnd p
      · rw [expected_validation (by omega) (by omega) hvalidation] at hphase
        by_cases hdue : h ≤ e.getValidationEnd p
        · exact hsame ((expected_validation (by omega) (by omega) hdue).trans hphase.symm)
        · rw [advance_of_validation hphase (by omega),
            expected_completed (by omega) (by omega) (by omega), hphase]
          exact ⟨e.pocSeedBlockHash, rfl, rfl, nofun⟩
      · rw [expected_completed (by omega) (by omega) (by omega)] at hphase
        exact hsame ((expected_completed (by omega) (by omega) (by omega)).trans hphase.symm)

end

/-! ### The epochs of the chain -/

section

variable {env : Env} {k : Keeper} {h : ℤ} {epoch : Epoch} {ec : EpochContext}

variable (env) in
/-- The heights up to this one, and two epochs more, do not wrap. -/
def Fits (h : ℤ) : Prop := h + 2 * env.epochParams.span < 2 ^ 63

variable (env) in
def nextStart (epoch : Epoch) : ℤ := (newEpochContext epoch env.epochParams).nextPoCStart

variable (hp : env.epochParams.Valid) (hfits : Fits env h) (hpos : 0 < h)
  (hlow : 0 ≤ epoch.pocStartBlockHeight) (hhigh : epoch.pocStartBlockHeight ≤ h)

include hp hfits hlow hhigh in
theorem nextStart_eq (hindex : epoch.index ≠ 0) :
    nextStart env epoch = epoch.pocStartBlockHeight + env.epochParams.epochLength := by
  have hspan := hp.stages_add_length_le
  have hstages := hp.stages_pos
  have hlength := hp.epochLength
  unfold Fits at hfits
  exact nextPoCStart_eq hp hindex (by show -2 ^ 63 ≤ epoch.pocStartBlockHeight; omega)
    (by show epoch.pocStartBlockHeight + env.epochParams.epochLength < 2 ^ 63; omega)

include hp hfits hlow hhigh in
theorem newEpochContext_setNewValidators (hindex : epoch.index ≠ 0) :
    (newEpochContext epoch env.epochParams).setNewValidators =
      epoch.pocStartBlockHeight + env.epochParams.stages := by
  have hspan := hp.stages_add_length_le
  have hstages := hp.stages_pos
  have hlength := hp.epochLength
  unfold Fits at hfits
  exact setNewValidators_eq hp hindex (by show -2 ^ 63 ≤ epoch.pocStartBlockHeight; omega)
    (by show max 0 epoch.pocStartBlockHeight + env.epochParams.stages < 2 ^ 63; omega)

variable (epoch) in
include hp hfits in
/-- The context of the next epoch, where its start is not too far away. -/
theorem nextEpochContext_heights (hnear : nextStart env epoch ≤ h + env.epochParams.epochLength) :
    (newEpochContext epoch env.epochParams).nextEpochContext.setNewValidators =
        nextStart env epoch + env.epochParams.stages ∧
      (newEpochContext epoch env.epochParams).nextEpochContext.nextPoCStart =
        nextStart env epoch + env.epochParams.epochLength := by
  have hspan := hp.stages_add_length_le
  have hstages := hp.stages_pos
  have hlength := hp.epochLength
  have hle : -2 ^ 63 ≤ nextStart env epoch := le_nextPoCStart _
  unfold Fits at hfits
  constructor
  · refine setNewValidators_eq hp (Nat.succ_ne_zero _) hle ?_
    show max 0 (nextStart env epoch) + env.epochParams.stages < 2 ^ 63
    omega
  · refine nextPoCStart_eq hp (Nat.succ_ne_zero _) hle ?_
    show nextStart env epoch + env.epochParams.epochLength < 2 ^ 63
    omega

include hp hfits hpos hlow hhigh in
theorem context_cases (hec : newEpochContextFromEffectiveEpoch epoch env.epochParams h = some ec) :
    ec = newEpochContext epoch env.epochParams ∧ ec.setNewValidators < h ∧
      h < nextStart env epoch ∨
    ec = (newEpochContext epoch env.epochParams).nextEpochContext ∧
      ec.setNewValidators = nextStart env epoch + env.epochParams.stages ∧
      ec.nextPoCStart = nextStart env epoch + env.epochParams.epochLength ∧
      h ≤ nextStart env epoch + env.epochParams.stages := by
  rcases newEpochContextFromEffectiveEpoch_spec hec with ⟨rfl, hset, hnext⟩ | ⟨rfl, hle, hcase⟩
  · exact .inl ⟨rfl, hset, hnext⟩
  have hlength := hp.epochLength
  have hnear : nextStart env epoch ≤ h + env.epochParams.epochLength := by
    rcases hcase with hstarted | _
    · exact le_trans hstarted (by omega)
    by_cases hindex : epoch.index = 0
    · -- nothing comes before the first block
      have hzero : (newEpochContext epoch env.epochParams).setNewValidators = 0 :=
        if_pos hindex
      omega
    · rw [nextStart_eq hp hfits hlow hhigh hindex]
      omega
  obtain ⟨hset, hnext⟩ := nextEpochContext_heights epoch hp hfits hnear
  exact .inr ⟨rfl, hset, hnext, hset ▸ hle⟩

include hp hfits in
theorem context_of_started (hstarted : nextStart env epoch ≤ h)
    (hle : h ≤ nextStart env epoch + env.epochParams.stages) :
    newEpochContextFromEffectiveEpoch epoch env.epochParams h =
      some (newEpochContext epoch env.epochParams).nextEpochContext := by
  have hlength := hp.epochLength
  obtain ⟨hset, -⟩ := nextEpochContext_heights epoch hp hfits (by omega)
  simp only [newEpochContextFromEffectiveEpoch]
  rw [if_neg fun hno => not_lt.mpr hstarted hno.1]
  exact if_pos (hset ▸ hle)

theorem advanceEpoch_eq_self (heffective : k.getEffectiveEpoch = some epoch)
    (hno : ∀ ec, newEpochContextFromEffectiveEpoch epoch env.epochParams h = some ec →
      h ≠ ec.setNewValidators ∧ h ≠ ec.startOfPoC) : advanceEpoch env h k = k := by
  unfold advanceEpoch
  simp only [heffective]
  split
  · rfl
  next ec hec =>
  obtain ⟨hset, hstart⟩ := hno ec hec
  simp only [EpochContext.isSetNewValidatorsStage, EpochContext.isStartOfPocStage, hset, hstart,
    decide_false, Bool.and_false, Bool.false_eq_true, if_false]

include hp hfits hpos hlow hhigh in
/-- The next epoch is recorded when its proof of compute starts, and becomes the effective one with
its new validators. -/
theorem advanceEpoch_eq (heffective : k.getEffectiveEpoch = some epoch) : advanceEpoch env h k =
      if h = nextStart env epoch then
        { k with epochs := k.epochs.insert (epoch.index + 1) ⟨epoch.index + 1, h⟩ }
      else if h = nextStart env epoch + env.epochParams.stages then
        { k with effectiveEpochIndex := epoch.index + 1 }
      else k := by
  have hstages := hp.stages_pos
  have hlength := hp.epochLength
  by_cases hin : nextStart env epoch ≤ h ∧ h ≤ nextStart env epoch + env.epochParams.stages
  · obtain ⟨hset, -⟩ := nextEpochContext_heights epoch hp hfits (by omega)
    have hstart : (newEpochContext epoch env.epochParams).nextEpochContext.startOfPoC =
      nextStart env epoch := rfl
    have hindex : (newEpochContext epoch env.epochParams).nextEpochContext.epochIndex ≠ 0 :=
      Nat.succ_ne_zero _
    unfold advanceEpoch
    simp only [heffective, context_of_started hp hfits hin.1 hin.2,
      EpochContext.isSetNewValidatorsStage, EpochContext.isStartOfPocStage, hset, hstart, ne_eq,
      hindex, not_false_eq_true, decide_true, Bool.true_and, decide_eq_true_eq]
    by_cases hfirst : h = nextStart env epoch
    · rw [if_pos hfirst, if_pos hfirst, if_neg (by omega)]
    · rw [if_neg hfirst, if_neg hfirst]
  · rw [if_neg (by omega), if_neg (by omega)]
    refine advanceEpoch_eq_self heffective ?_
    intro ec hec
    rcases context_cases hp hfits hpos hlow hhigh hec with ⟨rfl, hset, _⟩ | ⟨rfl, hset, -, _⟩
    · -- past the new validators, the start is behind
      refine ⟨by omega, ?_⟩
      intro hstart
      unfold EpochContext.startOfPoC at hstart
      split at hstart
      · omega
      next hindex =>
      rw [newEpochContext_setNewValidators hp hfits hlow hhigh hindex] at hset
      change h = epoch.pocStartBlockHeight at hstart
      omega
    · -- before the start
      refine ⟨by omega, ?_⟩
      intro hstart
      change h = nextStart env epoch at hstart
      omega

theorem advanceEpoch_of_none (heffective : k.getEffectiveEpoch = none) :
    advanceEpoch env h k = k := by
  unfold advanceEpoch
  rw [heffective]

end

variable (env : Env) in
/-- The epochs are those of heights that were reached, and the next one is recorded once its proof
of compute has started. -/
structure Epochs (k : Keeper) (h : ℤ) : Prop where
  heights : ∀ i epoch, k.epochs.get? i = some epoch →
    epoch.index = i ∧ 0 ≤ epoch.pocStartBlockHeight ∧ epoch.pocStartBlockHeight ≤ h
  recorded : env.epochParams.stages < env.epochParams.epochLength →
    ∀ epoch, k.getEffectiveEpoch = some epoch → nextStart env epoch ≤ h →
      k.epochs.get? (epoch.index + 1) = some ⟨epoch.index + 1, nextStart env epoch⟩

theorem Epochs.advance {env : Env} {k : Keeper} {h : ℤ} (hp : env.epochParams.Valid)
    (hfits : Fits env h) (hpos : 0 < h) (hk : Epochs env k (h - 1)) :
    Epochs env (advanceEpoch env h k) h := by
  have hstages := hp.stages_pos
  -- records stay, with a larger bound
  have hheights (i : ℕ) (epoch : Epoch) (hget : k.epochs.get? i = some epoch) :
      epoch.index = i ∧ 0 ≤ epoch.pocStartBlockHeight ∧ epoch.pocStartBlockHeight ≤ h := by
    obtain ⟨hindex, hlow, _⟩ := hk.heights i epoch hget
    exact ⟨hindex, hlow, by omega⟩
  cases heffective : k.getEffectiveEpoch with
  | none =>
    rw [advanceEpoch_of_none heffective]
    exact ⟨hheights, fun _ epoch hsome => nomatch heffective.symm.trans hsome⟩
  | some epoch =>
    obtain ⟨_, hlow, hhigh⟩ := hheights _ epoch heffective
    rw [advanceEpoch_eq hp hfits hpos hlow hhigh heffective]
    split
    · next hstart =>
      refine ⟨?_, ?_⟩
      · intro i epoch' hget
        rw [OrdMap.get?_insert] at hget
        split at hget
        · next hi =>
          obtain rfl := Option.some.inj hget
          exact ⟨hi.symm, hpos.le, le_rfl⟩
        · exact hheights i epoch' hget
      · intro _ epoch' heffective' _
        -- the effective epoch is another one
        have hne : k.effectiveEpochIndex ≠ epoch.index + 1 := by omega
        have hsame : epoch' = epoch := by
          unfold Keeper.getEffectiveEpoch at heffective heffective'
          rw [OrdMap.get?_insert, if_neg hne, heffective] at heffective'
          exact (Option.some.inj heffective').symm
        rw [hsame, OrdMap.get?_insert, if_pos rfl, hstart]
    · next hnostart =>
      split
      · next hset =>
        refine ⟨hheights, ?_⟩
        intro hlong epoch' heffective' hstarted
        have hrecord := hk.recorded hlong epoch heffective (by omega)
        have hsame : epoch' = ⟨epoch.index + 1, nextStart env epoch⟩ :=
          Option.some.inj (heffective'.symm.trans hrecord)
        -- its own next start is a whole epoch later
        have hbounds := hheights _ _ hrecord
        have hnext := nextStart_eq hp hfits hbounds.2.1 hbounds.2.2 (Nat.succ_ne_zero _)
        rw [hsame, hnext] at hstarted
        simp only at hstarted
        omega
      · refine ⟨hheights, ?_⟩
        intro hlong epoch' heffective' hstarted
        obtain rfl := Option.some.inj (heffective'.symm.trans heffective)
        exact hk.recorded hlong epoch' heffective (by omega)

end Inference
