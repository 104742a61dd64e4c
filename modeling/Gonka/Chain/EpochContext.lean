/-
Epochs and their heights.

An epoch is anchored at the height where its proof of compute starts; all other heights follow
from the parameters.  Heights and durations are `int64`, so that every sum may wrap.

Main result: `newEpochContextFromEffectiveEpoch_spec`.
-/
import Mathlib.Algebra.Order.BigOperators.Group.List
import Mathlib.Tactic.Linarith
import Mathlib.Data.Int.Order.Basic

namespace Inference

/-- The `int64` with this value. -/
def i64 (x : ℤ) : ℤ := Int.bmod x (2 ^ 64)

theorem i64_of_fits {x : ℤ} (hlow : -2 ^ 63 ≤ x) (hhigh : x < 2 ^ 63) : i64 x = x := by
  refine Int.bmod_eq_of_le ?_ ?_ <;> norm_num <;> omega

theorem foldl_i64 {l : List ℤ} {t : ℤ} (ht : 0 ≤ t) (hl : ∀ x ∈ l, 0 ≤ x) (hfits : t + l.sum < 2 ^ 63) :
    l.foldl (fun t x => i64 (t + x)) t = t + l.sum := by
  induction l generalizing t with
  | nil => simp
  | cons x l ih =>
    obtain ⟨hx, hl⟩ := List.forall_mem_cons.mp hl
    have hnonneg := List.sum_nonneg hl
    rw [List.sum_cons] at hfits ⊢
    rw [List.foldl_cons, i64_of_fits (by omega) (by omega), ih (by omega) hl (by omega), add_assoc]

theorem le_i64 (x : ℤ) : -2 ^ 63 ≤ i64 x := by
  have h := Int.le_bmod (x := x) (m := 2 ^ 64) (by norm_num)
  unfold i64
  omega

structure EpochParams where
  epochLength : ℤ
  epochMultiplier : ℤ
  epochShift : ℤ
  defaultUnitOfComputePrice : ℤ
  pocStageDuration : ℤ
  pocExchangeDuration : ℤ
  pocValidationDelay : ℤ
  pocValidationDuration : ℤ
  setNewValidatorsDelay : ℤ
  inferenceValidationCutoff : ℤ
  inferencePruningEpochThreshold : ℕ
  confirmationPocSafetyWindow : ℤ

/-- `EpochParams.Validate`; the error, if there is one. -/
def EpochParams.validate (p : EpochParams) : Option String :=
  if p.epochLength ≤ 0 then some "epoch length must be positive"
  else if p.epochMultiplier ≤ 0 then some "epoch multiplier must be positive"
  else if p.defaultUnitOfComputePrice < 0 then
    some "default unit of compute price cannot be negative"
  else if p.pocStageDuration ≤ 0 then some "poc stage duration must be positive"
  else if p.pocExchangeDuration < 0 then some "poc exchange duration cannot be negative"
  else if p.pocValidationDelay < 0 then some "poc validation delay cannot be negative"
  else if p.pocValidationDuration ≤ 0 then some "poc validation duration must be positive"
  else if p.setNewValidatorsDelay < 0 then some "set new validators delay cannot be negative"
  else if p.inferenceValidationCutoff < 0 then some "inference validation cutoff cannot be negative"
  else if p.inferencePruningEpochThreshold < 1 then
    some "inference pruning epoch threshold must be at least 1"
  else if p.confirmationPocSafetyWindow < 0 then some "safety window cannot be negative"
  else none

structure EpochParams.Valid (p : EpochParams) : Prop where
  epochLength : 0 < p.epochLength
  pocStageDuration : 0 < p.pocStageDuration
  pocExchangeDuration : 0 ≤ p.pocExchangeDuration
  pocValidationDelay : 0 ≤ p.pocValidationDelay
  pocValidationDuration : 0 < p.pocValidationDuration
  setNewValidatorsDelay : 0 ≤ p.setNewValidatorsDelay
  inferenceValidationCutoff : 0 ≤ p.inferenceValidationCutoff
  confirmationPocSafetyWindow : 0 ≤ p.confirmationPocSafetyWindow

theorem EpochParams.Valid.bounds {p : EpochParams} (hp : p.Valid) :
    0 < p.epochLength ∧ 0 < p.pocStageDuration ∧ 0 ≤ p.pocExchangeDuration ∧
      0 ≤ p.pocValidationDelay ∧ 0 < p.pocValidationDuration ∧ 0 ≤ p.setNewValidatorsDelay ∧
      0 ≤ p.inferenceValidationCutoff ∧ 0 ≤ p.confirmationPocSafetyWindow :=
  ⟨hp.1, hp.2, hp.3, hp.4, hp.5, hp.6, hp.7, hp.8⟩

theorem check_eq_none_iff {ε : Type*} {bad : Prop} [Decidable bad] {error : ε} {rest : Option ε} :
    (if bad then some error else rest) = none ↔ ¬ bad ∧ rest = none := by
  by_cases h : bad <;> simp [h]

open EpochParams

theorem EpochParams.valid_of_validate {p : EpochParams} (h : p.validate = none) : p.Valid := by
  simp only [validate, check_eq_none_iff] at h
  constructor <;> omega

section

variable (p : EpochParams)

def EpochParams.getEndOfPoCStage : ℤ := p.pocStageDuration

def EpochParams.getPoCExchangeDeadline : ℤ := i64 (p.getEndOfPoCStage + p.pocExchangeDuration)

def EpochParams.getStartOfPoCValidationStage : ℤ :=
  i64 (p.getEndOfPoCStage + p.pocValidationDelay)

def EpochParams.getEndOfPoCValidationStage : ℤ :=
  i64 (p.getStartOfPoCValidationStage + p.pocValidationDuration)

def EpochParams.getSetNewValidatorsStage : ℤ :=
  i64 (p.getEndOfPoCValidationStage + p.setNewValidatorsDelay)

/-- `windDown` is `int64(float64(duration) * 0.8)`, left open. -/
def EpochParams.getPoCWindDownStage (windDown : ℤ → ℤ) : ℤ := windDown p.pocStageDuration

def EpochParams.getPoCValidationWindDownStage (windDown : ℤ → ℤ) : ℤ :=
  i64 (p.getStartOfPoCValidationStage + windDown p.pocValidationDuration)

end

structure Epoch where
  index : ℕ
  pocStartBlockHeight : ℤ
deriving DecidableEq

structure EpochContext where
  epochIndex : ℕ
  pocStartBlockHeight : ℤ
  epochParams : EpochParams

inductive EpochPhase where
  | poCGenerate
  | poCGenerateWindDown
  | poCValidate
  | poCValidateWindDown
  | inference
deriving DecidableEq

def newEpochContext (epoch : Epoch) (params : EpochParams) : EpochContext :=
  ⟨epoch.index, epoch.pocStartBlockHeight, params⟩

namespace EpochContext

variable (ec : EpochContext)

/-- The height at an offset from the start; epoch 0 has no proof of compute. -/
def atOffset (offset : ℤ) : ℤ :=
  if ec.epochIndex = 0 then 0 else i64 (ec.pocStartBlockHeight + offset)

def startOfPoC : ℤ := if ec.epochIndex = 0 then 0 else ec.pocStartBlockHeight

def poCGenerationWindDown (windDown : ℤ → ℤ) : ℤ :=
  ec.atOffset (ec.epochParams.getPoCWindDownStage windDown)

def poCExchangeDeadline : ℤ := ec.atOffset ec.epochParams.getPoCExchangeDeadline

def startOfPoCValidation : ℤ := ec.atOffset ec.epochParams.getStartOfPoCValidationStage

def poCValidationWindDown (windDown : ℤ → ℤ) : ℤ :=
  ec.atOffset (ec.epochParams.getPoCValidationWindDownStage windDown)

def endOfPoCValidation : ℤ := ec.atOffset ec.epochParams.getEndOfPoCValidationStage

def setNewValidators : ℤ := ec.atOffset ec.epochParams.getSetNewValidatorsStage

def nextPoCStart : ℤ :=
  if ec.epochIndex = 0 then i64 (-ec.epochParams.epochShift + ec.epochParams.epochLength)
  else i64 (ec.pocStartBlockHeight + ec.epochParams.epochLength)

def nextEpochContext : EpochContext := ⟨ec.epochIndex + 1, ec.nextPoCStart, ec.epochParams⟩

def getCurrentPhase (windDown : ℤ → ℤ) (blockHeight : ℤ) : EpochPhase :=
  if ec.epochIndex = 0 then .inference
  else if blockHeight < ec.pocStartBlockHeight then .inference
  else if ec.startOfPoC ≤ blockHeight ∧ blockHeight < ec.poCGenerationWindDown windDown then
    .poCGenerate
  else if ec.poCGenerationWindDown windDown ≤ blockHeight ∧
      blockHeight < ec.startOfPoCValidation then
    .poCGenerateWindDown
  else if ec.startOfPoCValidation ≤ blockHeight ∧
      blockHeight < ec.poCValidationWindDown windDown then
    .poCValidate
  else if ec.poCValidationWindDown windDown ≤ blockHeight ∧
      blockHeight < ec.endOfPoCValidation then
    .poCValidateWindDown
  else .inference

def isSetNewValidatorsStage (blockHeight : ℤ) : Bool :=
  decide (ec.epochIndex ≠ 0) && decide (blockHeight = ec.setNewValidators)

def isStartOfPocStage (blockHeight : ℤ) : Bool := decide (blockHeight = ec.startOfPoC)

end EpochContext

/-- `NewEpochContextFromEffectiveEpoch`; there is none for a height beyond the next epoch's. -/
def newEpochContextFromEffectiveEpoch (epoch : Epoch) (epochParams : EpochParams)
    (currentBlockHeight : ℤ) : Option EpochContext :=
  let ec := newEpochContext epoch epochParams
  let nextEc := newEpochContext ⟨epoch.index + 1, ec.nextPoCStart⟩ epochParams
  if currentBlockHeight < ec.nextPoCStart ∧ ec.setNewValidators < currentBlockHeight then some ec
  else if currentBlockHeight ≤ nextEc.setNewValidators then some nextEc
  else none

/-! ### The heights, as long as nothing wraps -/

def EpochParams.span (p : EpochParams) : ℤ :=
  p.epochLength + p.pocStageDuration + p.pocExchangeDuration + p.pocValidationDelay +
    p.pocValidationDuration + p.setNewValidatorsDelay + p.inferenceValidationCutoff +
    p.confirmationPocSafetyWindow

def EpochParams.stages (p : EpochParams) : ℤ :=
  p.pocStageDuration + p.pocValidationDelay + p.pocValidationDuration + p.setNewValidatorsDelay

section

variable {p : EpochParams} {ec : EpochContext}

theorem EpochParams.Valid.stages_pos (hp : p.Valid) : 0 < p.stages := by
  have hbounds := hp.bounds
  unfold stages
  omega

theorem EpochParams.Valid.stages_add_length_le (hp : p.Valid) :
    p.stages + p.epochLength ≤ p.span := by
  have hbounds := hp.bounds
  unfold stages span
  omega

theorem getStartOfPoCValidationStage_eq (hp : p.Valid) (hfits : p.stages < 2 ^ 63) :
    p.getStartOfPoCValidationStage = p.pocStageDuration + p.pocValidationDelay := by
  have hbounds := hp.bounds
  unfold stages at hfits
  show i64 (p.pocStageDuration + _) = _
  exact i64_of_fits (by omega) (by omega)

theorem getEndOfPoCValidationStage_eq (hp : p.Valid) (hfits : p.stages < 2 ^ 63) :
    p.getEndOfPoCValidationStage =
      p.pocStageDuration + p.pocValidationDelay + p.pocValidationDuration := by
  have hbounds := hp.bounds
  unfold getEndOfPoCValidationStage
  rw [getStartOfPoCValidationStage_eq hp hfits]
  unfold stages at hfits
  exact i64_of_fits (by omega) (by omega)

theorem getSetNewValidatorsStage_eq (hp : p.Valid) (hfits : p.stages < 2 ^ 63) :
    p.getSetNewValidatorsStage = p.stages := by
  have hbounds := hp.bounds
  unfold getSetNewValidatorsStage
  rw [getEndOfPoCValidationStage_eq hp hfits]
  unfold stages at hfits ⊢
  exact i64_of_fits (by omega) (by omega)

theorem EpochContext.atOffset_eq (hindex : ec.epochIndex ≠ 0)
    (hlow : -2 ^ 63 ≤ ec.pocStartBlockHeight) {offset : ℤ} (hpos : 0 ≤ offset)
    (hfits : ec.pocStartBlockHeight + offset < 2 ^ 63) :
    ec.atOffset offset = ec.pocStartBlockHeight + offset := by
  unfold EpochContext.atOffset
  rw [if_neg hindex]
  exact i64_of_fits (by omega) hfits

theorem setNewValidators_eq (hp : ec.epochParams.Valid) (hindex : ec.epochIndex ≠ 0)
    (hlow : -2 ^ 63 ≤ ec.pocStartBlockHeight)
    (hfits : max 0 ec.pocStartBlockHeight + ec.epochParams.stages < 2 ^ 63) :
    ec.setNewValidators = ec.pocStartBlockHeight + ec.epochParams.stages := by
  unfold EpochContext.setNewValidators
  rw [getSetNewValidatorsStage_eq hp (by omega)]
  exact EpochContext.atOffset_eq hindex hlow hp.stages_pos.le (by omega)

theorem nextPoCStart_eq (hp : ec.epochParams.Valid) (hindex : ec.epochIndex ≠ 0)
    (hlow : -2 ^ 63 ≤ ec.pocStartBlockHeight)
    (hfits : ec.pocStartBlockHeight + ec.epochParams.epochLength < 2 ^ 63) :
    ec.nextPoCStart = ec.pocStartBlockHeight + ec.epochParams.epochLength := by
  have hpos := hp.epochLength
  unfold EpochContext.nextPoCStart
  rw [if_neg hindex]
  exact i64_of_fits (by omega) hfits

theorem le_nextPoCStart (ec : EpochContext) : -2 ^ 63 ≤ ec.nextPoCStart := by
  unfold EpochContext.nextPoCStart
  split <;> exact le_i64 _

/-- The context is that of the effective epoch, between its new validators and the next start, or
else that of the next epoch. -/
theorem newEpochContextFromEffectiveEpoch_spec {epoch : Epoch} {h : ℤ}
    (hec : newEpochContextFromEffectiveEpoch epoch p h = some ec) :
    ec = newEpochContext epoch p ∧ ec.setNewValidators < h ∧ h < ec.nextPoCStart ∨
    ec = (newEpochContext epoch p).nextEpochContext ∧ h ≤ ec.setNewValidators ∧
      ((newEpochContext epoch p).nextPoCStart ≤ h ∨
        h ≤ (newEpochContext epoch p).setNewValidators) := by
  simp only [newEpochContextFromEffectiveEpoch] at hec
  split at hec
  · next hin =>
    cases hec
    exact .inl ⟨rfl, hin.2, hin.1⟩
  · next hout =>
    split at hec
    · next hle =>
      cases hec
      refine .inr ⟨rfl, hle, ?_⟩
      by_contra hno
      rw [not_or, not_le, not_le] at hno
      exact hout hno
    · nomatch hec

end

end Inference
