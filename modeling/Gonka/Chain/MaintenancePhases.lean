/-
Maintenance windows and the critical phases of epochs.

The check of a new window goes straight to the epoch of its first block and from there epoch by
epoch to its last one.  As long as no height wraps it accepts no window with a critical height, and
refuses no other one that is shorter than 9999 epochs.

Main results: `phase_overlap_exact`, `wrapped_phase_accepted`.
-/
import Gonka.Chain.Maintenance
import Mathlib.Tactic.Ring

namespace Maintenance

open Inference

/-- Where epoch `k` starts: epochs follow each other from the effective one on. -/
def pocStartOf (ep : EpochParams) (effective : Epoch) (k : ℕ) : ℤ :=
  if effective.index = 0 then -ep.epochShift + k * ep.epochLength
  else effective.pocStartBlockHeight + (k - effective.index) * ep.epochLength

/-- The height is in the exchange or the validation of an epoch with this start, or is that of its
new validators. -/
def Critical (ep : EpochParams) (start h : ℤ) : Prop :=
  start ≤ h ∧ h ≤ start + (ep.pocStageDuration + ep.pocExchangeDuration) ∨
  start + (ep.pocStageDuration + ep.pocValidationDelay) ≤ h ∧
    h ≤ start + (ep.pocStageDuration + ep.pocValidationDelay + ep.pocValidationDuration) ∨
  h = start + ep.stages

/-- The start of the window is an `int64`, and so are the heights that the check computes, for epochs
from `first` up to the window. -/
structure HeightsFit (ep : EpochParams) (first startHeight endHeight : ℤ) : Prop where
  start : -2 ^ 63 ≤ startHeight
  low : -2 ^ 63 ≤ first
  distance : startHeight - first < 2 ^ 63
  high : max 0 (max first endHeight) + ep.span < 2 ^ 63

section

variable {ep : EpochParams} {s e P : ℤ} {index : ℕ}

/-- No height of the window is critical in the epochs that follow each other from `P` on. -/
def Clear (ep : EpochParams) (P s e : ℤ) : Prop :=
  ∀ j : ℕ, ∀ h, s ≤ h → h ≤ e → ¬ Critical ep (P + j * ep.epochLength) h

theorem clear_iff : Clear ep P s e ↔
      (∀ h, s ≤ h → h ≤ e → ¬ Critical ep P h) ∧ Clear ep (P + ep.epochLength) s e := by
  have hnext (j : ℕ) : P + ep.epochLength + j * ep.epochLength =
      P + (j + 1 : ℕ) * ep.epochLength := by
    rw [Nat.cast_succ, add_one_mul]
    omega
  constructor
  · intro hclear
    refine ⟨fun h hs he hc => hclear 0 h hs he (by simpa using hc), fun j h hs he hc => ?_⟩
    rw [hnext] at hc
    exact hclear (j + 1) h hs he hc
  · rintro ⟨hfirst, hrest⟩ j h hs he hc
    cases j with
    | zero => exact hfirst h hs he (by simpa using hc)
    | succ j =>
      rw [← hnext] at hc
      exact hrest j h hs he hc

theorem clear_of_lt (hp : ep.Valid) (h : e < P) : Clear ep P s e := by
  intro j h' hs he hc
  have hbounds := hp.bounds
  have hj : 0 ≤ (j : ℤ) * ep.epochLength := mul_nonneg (Int.natCast_nonneg j) hbounds.1.le
  unfold Critical EpochParams.stages at hc
  omega

theorem overlapFrom_succ (hp : ep.Valid) (hlow : -2 ^ 63 ≤ P) (hfits : max 0 P + ep.span < 2 ^ 63)
    (hse : s ≤ e) (n : ℕ) :
    overlapFrom s e (n + 1) ⟨index + 1, P, ep⟩ = none ↔
      (∀ h, s ≤ h → h ≤ e → ¬ Critical ep P h) ∧ (e < P + ep.epochLength ∨
        overlapFrom s e n ⟨index + 2, P + ep.epochLength, ep⟩ = none) := by
  have hbounds := hp.bounds
  have hspan := hfits
  unfold EpochParams.span at hspan
  have hstages : max 0 P + ep.stages < 2 ^ 63 := by
    have hle := hp.stages_add_length_le
    omega
  let ec : EpochContext := ⟨index + 1, P, ep⟩
  have hat {offset : ℤ} (hpos : 0 ≤ offset) (h : P + offset < 2 ^ 63) :
      ec.atOffset offset = P + offset := EpochContext.atOffset_eq (Nat.succ_ne_zero _) hlow hpos h
  have hexchange : ec.poCExchangeDeadline = P + (ep.pocStageDuration + ep.pocExchangeDuration) := by
    unfold EpochContext.poCExchangeDeadline
    rw [show ec.epochParams.getPoCExchangeDeadline = _ from i64_of_fits
      (x := ep.pocStageDuration + ep.pocExchangeDuration) (by omega) (by omega)]
    exact hat (by omega) (by omega)
  have hstart : ec.startOfPoCValidation = P + (ep.pocStageDuration + ep.pocValidationDelay) := by
    unfold EpochContext.startOfPoCValidation
    rw [getStartOfPoCValidationStage_eq hp (by omega)]
    exact hat (by omega) (by omega)
  have hend : ec.endOfPoCValidation =
      P + (ep.pocStageDuration + ep.pocValidationDelay + ep.pocValidationDuration) := by
    unfold EpochContext.endOfPoCValidation
    rw [getEndOfPoCValidationStage_eq hp (by omega)]
    exact hat (by omega) (by omega)
  have hset : ec.setNewValidators = P + ep.stages :=
    setNewValidators_eq hp (Nat.succ_ne_zero _) hlow hstages
  have hnext : ec.nextEpochContext = ⟨index + 2, P + ep.epochLength, ep⟩ := by
    unfold EpochContext.nextEpochContext
    rw [nextPoCStart_eq hp (Nat.succ_ne_zero _) hlow (by show P + ep.epochLength < _; omega)]
  have hindex : ec.epochIndex ≠ 0 := Nat.succ_ne_zero _
  have hPoC : ec.startOfPoC = P := if_neg hindex
  have hwalk : (if (⟨index + 2, P + ep.epochLength, ep⟩ : EpochContext).startOfPoC > e then none
      else overlapFrom s e n ⟨index + 2, P + ep.epochLength, ep⟩) = none ↔
        e < P + ep.epochLength ∨ overlapFrom s e n ⟨index + 2, P + ep.epochLength, ep⟩ = none := by
    show (if P + ep.epochLength > e then _ else _) = _ ↔ _
    split <;> simp_all
  show overlapFrom s e (n + 1) ec = none ↔ _
  simp only [overlapFrom, check_eq_none_iff, hexchange, hstart, hend, hset, hnext, hindex, hPoC,
    hwalk, ne_eq, not_false_eq_true, true_and, ← and_assoc]
  refine and_congr_left fun _ => ?_
  -- a range that meets the window does so at the first height of both
  constructor
  · intro hno h hs he hc
    unfold Critical at hc
    omega
  · intro hno
    have hfirst := hno (max s P) (by omega)
    have hvalidation := hno (max s (P + (ep.pocStageDuration + ep.pocValidationDelay))) (by omega)
    have hvalidators := hno (P + ep.stages)
    unfold Critical at hfirst hvalidation hvalidators
    omega

/-- **The walk** finds nothing only if the window is clear, and if it is clear and not too long. -/
theorem overlapFrom_eq_none (hp : ep.Valid) (hlow : -2 ^ 63 ≤ P)
    (hfits : max 0 (max P e) + ep.span < 2 ^ 63) (hse : s ≤ e) (n : ℕ) :
    (overlapFrom s e n ⟨index + 1, P, ep⟩ = none → Clear ep P s e) ∧
      (Clear ep P s e → e < P + n * ep.epochLength → P ≤ e ∨ 0 < n →
        overlapFrom s e n ⟨index + 1, P, ep⟩ = none) := by
  induction n generalizing P index with
  | zero => exact ⟨nofun, fun _ h h' => by simp at h h'; omega⟩
  | succ n ih =>
    have hlength := hp.epochLength
    have hspan := hp.stages_add_length_le
    have hstages := hp.stages_pos
    rw [overlapFrom_succ hp hlow (by omega) hse, clear_iff]
    by_cases hlast : e < P + ep.epochLength
    · exact ⟨fun h => ⟨h.1, clear_of_lt hp hlast⟩, fun h _ _ => ⟨h.1, .inl hlast⟩⟩
    have hrest := @ih (P + ep.epochLength) (index + 1) (by omega) (by omega)
    refine ⟨fun h => ⟨h.1, hrest.1 (h.2.resolve_left hlast)⟩, fun h hlong _ => ⟨h.1, .inr ?_⟩⟩
    refine hrest.2 h.2 ?_ (.inl (by omega))
    rw [Nat.cast_succ, add_one_mul] at hlong
    omega

theorem clear_skip (hp : ep.Valid) (hstages : ep.stages < ep.epochLength) (hse : s ≤ e) {q : ℕ}
    (hle : P + q * ep.epochLength ≤ s) :
    Clear ep (P + q * ep.epochLength) s e ↔ Clear ep P s e := by
  constructor
  · intro hclear j h hs he hc
    by_cases hj : q ≤ j
    · refine hclear (j - q) h hs he ?_
      rwa [add_assoc, ← add_mul, ← Nat.cast_add, Nat.add_sub_cancel' hj]
    -- the first block is after the exchange of its own epoch, so after that of an earlier one
    have hfirst := (clear_iff.mp hclear).1 s le_rfl hse
    have hnext : ((j + 1 : ℕ) : ℤ) * ep.epochLength ≤ q * ep.epochLength :=
      mul_le_mul_of_nonneg_right (by omega) hp.epochLength.le
    rw [Nat.cast_succ, add_one_mul] at hnext
    have hbounds := hp.bounds
    unfold Critical at hfirst hc
    unfold EpochParams.stages at hstages hc
    omega
  · intro hclear j h hs he hc
    refine hclear (q + j) h hs he ?_
    rwa [Nat.cast_add, add_mul, ← add_assoc]

end

theorem clear_pocStartOf {ep : EpochParams} {effective : Epoch} {k₀ : ℕ} {s e : ℤ} :
    Clear ep (pocStartOf ep effective k₀) s e ↔ ∀ k, k₀ ≤ k → ∀ h, s ≤ h → h ≤ e →
      ¬ Critical ep (pocStartOf ep effective k) h := by
  have hadd (j : ℕ) : pocStartOf ep effective (k₀ + j) =
      pocStartOf ep effective k₀ + j * ep.epochLength := by
    unfold pocStartOf
    split <;> push_cast <;> ring
  constructor
  · intro hclear k hk
    obtain ⟨j, rfl⟩ := Nat.exists_eq_add_of_le hk
    rw [hadd]
    exact hclear j
  · intro h j
    rw [← hadd]
    exact h (k₀ + j) (Nat.le_add_right _ _)

variable {A : Type*}

/-- **The check accepts no window with a critical height**, of the effective epoch or a later one,
**and refuses no other** that is shorter than 9999 epochs, from epoch 1 on. -/
theorem phase_overlap_exact (w : World A) {ep : EpochParams} {effective : Epoch}
    (hparams : w.epochParams = some ep) (hvalid : ep.validate = none)
    (hstages : ep.stages < ep.epochLength)
    (heffective : w.effectiveEpochIndex.bind w.getEpoch = some effective) {s : ℤ} {d : ℕ}
    (hd : 0 < d)
    (hfits : HeightsFit ep (pocStartOf ep effective (max 1 effective.index)) s (s + d - 1)) :
    (checkEpochPhaseOverlap w s d = none → ∀ k, max 1 effective.index ≤ k →
      ∀ h, s ≤ h → h ≤ s + d - 1 → ¬ Critical ep (pocStartOf ep effective k) h) ∧
    (1 ≤ effective.index → d < 9999 * ep.epochLength →
      (∀ k, effective.index ≤ k → ∀ h, s ≤ h → h ≤ s + d - 1 →
        ¬ Critical ep (pocStartOf ep effective k) h) →
      checkEpochPhaseOverlap w s d = none) := by
  have hp := EpochParams.valid_of_validate hvalid
  have hlength := hp.epochLength
  have hspan := hp.stages_add_length_le
  have hpos := hp.stages_pos
  have hse : s ≤ s + d - 1 := by omega
  obtain ⟨hstart, hlow, hdistance, hhigh⟩ := hfits
  rw [← clear_pocStartOf, ← clear_pocStartOf]
  unfold checkEpochPhaseOverlap
  rw [hparams, heffective]
  simp only [not_le.mpr hlength, if_false]
  have hend : i64 (s + d - 1) = s + d - 1 := i64_of_fits (by omega) (by omega)
  rw [hend]
  obtain ⟨e, he⟩ : ∃ e, s + d - 1 = e := ⟨_, rfl⟩
  rw [he] at hse hhigh ⊢
  obtain ⟨index, P⟩ := effective
  cases index with
  | zero =>
    -- epoch 0 has no phases, and the walk goes on with epoch 1
    refine ⟨fun h => ?_, nofun⟩
    have hP : pocStartOf ep ⟨0, P⟩ (max 1 0) = -ep.epochShift + ep.epochLength := by
      simp [pocStartOf]
    rw [hP] at hlow hhigh ⊢
    have hfirst : -ep.epochShift + ep.epochLength < 2 ^ 63 := by omega
    have hnext : (⟨0, P, ep⟩ : EpochContext).nextEpochContext =
        ⟨0 + 1, -ep.epochShift + ep.epochLength, ep⟩ :=
      congrArg (EpochContext.mk 1 · ep) (i64_of_fits hlow hfirst)
    simp only [newEpochContext, lt_irrefl, false_and, if_false] at h
    rw [show 10000 = 9999 + 1 from rfl, overlapFrom, hnext] at h
    simp only [ne_eq, not_true_eq_false, false_and, if_false] at h
    split at h
    · next hlast => exact clear_of_lt hp hlast
    · exact (overlapFrom_eq_none hp hlow hhigh hse _).1 h
  | succ index =>
    rw [Nat.max_eq_right (Nat.succ_pos _)] at hlow hdistance hhigh ⊢
    have hP : pocStartOf ep ⟨index + 1, P⟩ (index + 1) = P := by simp [pocStartOf]
    rw [hP] at hlow hdistance hhigh ⊢
    have hstart : (⟨index + 1, P, ep⟩ : EpochContext).startOfPoC = P := if_neg (Nat.succ_ne_zero _)
    simp only [newEpochContext, hstart, Nat.succ_pos, true_and]
    split
    · next hlater =>
      obtain ⟨q, hq⟩ := Int.eq_ofNat_of_zero_le (Int.ediv_nonneg (sub_pos.mpr hlater).le hlength.le)
      have hdiv := Int.mul_ediv_add_emod (s - P) ep.epochLength
      have hmod := Int.emod_nonneg (s - P) hlength.ne'
      have hmod' := Int.emod_lt_of_pos (s - P) hlength
      have hnonneg : 0 ≤ q * ep.epochLength := mul_nonneg (Int.natCast_nonneg q) hlength.le
      rw [hq, mul_comm] at hdiv
      rw [i64_of_fits (by omega) hdistance, Int.tdiv_eq_ediv_of_nonneg (sub_pos.mpr hlater).le, hq,
        i64_of_fits (x := q * _) (by omega) (by omega), i64_of_fits (by omega) (by omega),
        ← clear_skip hp hstages hse (q := q) (by omega)]
      have hwalk := @overlapFrom_eq_none ep s e (P + q * ep.epochLength) (index + q) hp (by omega)
        (by omega) hse 10000
      rw [show index + q + 1 = index + 1 + q by omega] at hwalk
      exact ⟨hwalk.1, fun _ hlong hclear => hwalk.2 hclear (by omega) (.inr (by decide))⟩
    · have hwalk := @overlapFrom_eq_none ep s e P index hp hlow hhigh hse 10000
      exact ⟨hwalk.1, fun _ hlong hclear => hwalk.2 hclear (by omega) (.inr (by decide))⟩

def phaseParams (stage exchange : ℤ) : EpochParams where
  epochLength := 100
  epochMultiplier := 1
  epochShift := 0
  defaultUnitOfComputePrice := 100
  pocStageDuration := stage
  pocExchangeDuration := exchange
  pocValidationDelay := 2
  pocValidationDuration := 10
  setNewValidatorsDelay := 3
  inferenceValidationCutoff := 0
  inferencePruningEpochThreshold := 1
  confirmationPocSafetyWindow := 0

def phaseWorld (ep : EpochParams) : World Bool where
  hasAccount _ := true
  hasParticipant _ := true
  epochParams := some ep
  effectiveEpochIndex := some 1
  getEpoch _ := some ⟨1, 1000⟩
  getParticipantPower _ := 0
  getTotalConsensusPower := 0

theorem phase_overlap_exact_between :
    checkEpochPhaseOverlap (phaseWorld (phaseParams 10 2)) 1050 10 = none ∧
      ∀ k, 1 ≤ k → ∀ h : ℤ, 1050 ≤ h → h ≤ 1050 + (10 : ℕ) - 1 →
        ¬ Critical (phaseParams 10 2) (pocStartOf (phaseParams 10 2) ⟨1, 1000⟩ k) h := by
  have hnone : checkEpochPhaseOverlap (phaseWorld (phaseParams 10 2)) 1050 10 = none := by decide
  exact ⟨hnone, (@phase_overlap_exact _ _ (phaseParams 10 2) ⟨1, 1000⟩ rfl (by decide) (by decide)
    rfl 1050 10 (by decide) ⟨by decide, by decide, by decide, by decide⟩).1 hnone⟩

/-- The end of an exchange of almost `2 ^ 63` blocks wraps, and the check overlooks it. -/
theorem wrapped_phase_accepted :
    (phaseParams 10 (2 ^ 63 - 100)).validate = none ∧
      (phaseParams 10 (2 ^ 63 - 100)).stages < (phaseParams 10 (2 ^ 63 - 100)).epochLength ∧
      checkEpochPhaseOverlap (phaseWorld (phaseParams 10 (2 ^ 63 - 100))) 1050 10 = none ∧
      Critical (phaseParams 10 (2 ^ 63 - 100))
        (pocStartOf (phaseParams 10 (2 ^ 63 - 100)) ⟨1, 1000⟩ 1) 1050 :=
  ⟨by decide, by decide, by decide, .inl (by decide)⟩

end Maintenance
