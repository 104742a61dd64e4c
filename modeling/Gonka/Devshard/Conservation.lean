/-
Conservation of the escrow, on the transition system.

The escrowed amount is, at any time, the balance, the fees collected, the costs
credited to hosts and the reservations of unfinished inferences (`Conserved.total`).
The refund of an invalidated inference keeps this only because the cost of a
host is, exactly, what its finished and not invalidated inferences earned
(`Conserved.costs`); that second equation ranges over sealed inferences too.

Main result: `Conserved.step`.
-/
import Gonka.Devshard.Session

namespace Devshard

open OrdMap InferenceRecord

def InferenceRecord.outstanding (r : InferenceRecord) : ℕ :=
  if r.status = .pending ∨ r.status = .started then r.reservedCost.toNat else 0

def InferenceRecord.earned (r : InferenceRecord) : ℕ :=
  if r.status = .finished ∨ r.status = .challenged ∨ r.status = .validated then
    r.actualCost.toNat
  else 0

/-- The session holds the escrowed amount `B₀`. -/
structure Conserved (B₀ : ℕ) (s : Session) : Prop where
  bound : B₀ < 2 ^ 64
  total : s.sm.balance.toNat + s.sm.fees.toNat
    + s.sm.hostStats.sum (fun _ hs => hs.cost.toNat)
    + s.sm.inferences.sum (fun _ r => r.outstanding) = B₀
  costs : s.Accounts (fun hs n => hs.cost.toNat = n) InferenceRecord.earned
  slots : ∀ id, (s.sm.hostStats.get? (executorSlotFor s.sm.group id)).isSome
  executors : ∀ id r, s.sm.inferences.get? id = some r →
    (s.sm.hostStats.get? r.executorSlot).isSome

/-- The books of one record and its executor, before and after: `held` is what
the live record still reserves afterwards. -/
structure Balanced (r r' : InferenceRecord) (amount : UInt64) (hs hs' : HostStats) (held : ℕ) :
    Prop where
  total : amount.toNat + hs'.cost.toNat + held = hs.cost.toNat + r.outstanding
  earned : hs'.cost.toNat + r.earned = hs.cost.toNat + r'.earned

/-- The statistics of an executor cover what a record earned, and have room for
what it reserves. -/
structure Covered (r : InferenceRecord) (hs : HostStats) : Prop where
  earned : r.earned ≤ hs.cost.toNat
  room : hs.cost.toNat + r.outstanding < 2 ^ 64

variable {r r' : InferenceRecord} {amount : UInt64} {f : HostStats → HostStats} {hs : HostStats}
  {B₀ : ℕ} {s s' : Session}

theorem Move.balanced {sm : StateMachine} (h : Move sm r r' amount f) (hc : Covered r hs) :
    Balanced r r' amount hs (f hs) r'.outstanding := by
  obtain ⟨hearned, _⟩ := hc
  cases h with
  | confirm _ hstatus =>
    constructor <;> simp [outstanding, earned, hstatus]
  | finish _ _ _ actualCost hstatus hcost =>
    -- the reservation splits into the cost and the surplus
    have hle : actualCost.toNat ≤ r.reservedCost.toNat := UInt64.le_iff_toNat_le.mp hcost
    have hout : r.outstanding = r.reservedCost.toNat := by
      simp [outstanding, hstatus]
    have hadd : (hs.cost + actualCost).toNat = hs.cost.toNat + actualCost.toNat := by
      rw [UInt64.toNat_add]
      omega
    refine ⟨?_, ?_⟩
    · simp only [outstanding, hstatus, UInt64.toNat_sub_of_le _ _ hcost, hadd]
      simp
      omega
    · simp only [earned, hstatus, hadd]
      simp
  | validate slot valid _ _ _ hstatus =>
    have hkept : (recordValidation sm r slot valid).outstanding = r.outstanding ∧
        (recordValidation sm r slot valid).earned = r.earned := by
      rcases hstatus with h | h | h | h <;> cases valid <;>
        simp [outstanding, earned, recordValidation_status, h]
    exact ⟨by simp [hkept.1], by simp [hkept.2]⟩
  | vote _ _ _ _ hstatus | validated _ _ _ _ hstatus =>
    constructor <;> simp [outstanding, earned, hstatus]
  | invalidated _ _ _ _ hstatus =>
    -- the clamp is not taken: the cost covers what this record earned
    have hear : r.earned = r.actualCost.toNat := by simp [earned, hstatus]
    rw [hear] at hearned
    have hle : r.actualCost ≤ hs.cost := UInt64.le_iff_toNat_le.mpr hearned
    have hsub : (if hs.cost < r.actualCost then 0 else hs.cost - r.actualCost).toNat
        = hs.cost.toNat - r.actualCost.toNat := by
      rw [if_neg (UInt64.not_lt.mpr hle), UInt64.toNat_sub_of_le _ _ hle]
    refine ⟨?_, ?_⟩
    · simp only [outstanding, hstatus, hsub]
      simp
      omega
    · simp only [hear, hsub]
      simp only [earned]
      simp
      omega
  | timeout hstatus =>
    have hout : r.outstanding = r.reservedCost.toNat := by
      simp [outstanding, hstatus]
    refine ⟨?_, ?_⟩
    · rw [hout]
      simp [outstanding]
      omega
    · rcases hstatus with h | h <;> simp [earned, h]

theorem Leave.balanced {phase : SessionPhase} (h : Leave phase r r' amount f)
    (hc : Covered r hs) : Balanced r r' amount hs (f hs) 0 := by
  obtain ⟨-, _⟩ := hc
  cases h with
  | autoSealed _ hstatus =>
    have hout : r.outstanding = 0 := by
      unfold outstanding
      rw [if_neg]
      rintro (h | h) <;> simp [h, sealEligibleStatus] at hstatus
    exact ⟨by simp [hout], by simp⟩
  | paid _ hstatus =>
    have hout : r.outstanding = r.reservedCost.toNat := by
      simp [outstanding, hstatus]
    have hadd : (hs.cost + r.reservedCost).toNat = hs.cost.toNat + r.reservedCost.toNat := by
      rw [UInt64.toNat_add]
      omega
    refine ⟨?_, ?_⟩
    · rw [hout]
      simp [hadd]
    · simp [earned, hstatus, hadd]
  | refunded _ hstatus =>
    refine ⟨?_, ?_⟩
    · simp [outstanding, hstatus]
      omega
    · simp [earned, hstatus]
  | drained _ hstarted hpending =>
    have hout : r.outstanding = 0 := by
      unfold outstanding
      rw [if_neg]
      rintro (h | h)
      · exact hpending h
      · exact hstarted h
    exact ⟨by simp [hout], by simp⟩

/-- The books of a session after a record of `slot` has been paid and counted. -/
theorem Conserved.covered (h : Conserved B₀ s) {id : ℕ} (hlive : s.sm.inferences.get? id = some r)
    (hhs : s.sm.hostStats.get? r.executorSlot = some hs) : Covered r hs where
  earned := by
    have hle := Session.le_sum hlive
      fun r' => if r'.executorSlot = r.executorSlot then r'.earned else 0
    rw [if_pos rfl] at hle
    rw [h.costs _ _ hhs]
    exact hle
  room := by
    have h1 := le_sum (fun _ hs => hs.cost.toNat) hhs
    have h2 := le_sum (fun _ r => r.outstanding) hlive
    have := h.total
    have := h.bound
    omega

/-- A credit of the executor of a live record: the balance and the costs do not
wrap. -/
theorem Conserved.credit_toNat (h : Conserved B₀ s) {id : ℕ} {held : ℕ}
    (hlive : s.sm.inferences.get? id = some r) {hs' : HostStats}
    (hhs : s.sm.hostStats.get? r.executorSlot = some hs) (hbal : Balanced r r' amount hs hs' held) :
    s.sm.balance.toNat + amount.toNat < 2 ^ 64 := by
  have h1 := le_sum (fun _ hs => hs.cost.toNat) hhs
  have h2 := le_sum (fun _ r => r.outstanding) hlive
  have h3 := hbal.total
  have := h.total
  have := h.bound
  omega

/-- The total after a balanced move of the record `id` to `r'`; `held` is what the
live records reserve more than without it. -/
theorem Conserved.balanced (h : Conserved B₀ s) {id : ℕ} {held : ℕ}
    (hlive : s.sm.inferences.get? id = some r)
    (hbal : ∀ {hs}, Covered r hs → Balanced r r' amount hs (f hs) held)
    (hbalance : s'.sm.balance = s.sm.balance + amount) (hfees : s'.sm.fees = s.sm.fees)
    (hgroup : s'.sm.group = s.sm.group)
    (hstats : s'.sm.hostStats = s.sm.hostStats.modify r.executorSlot f)
    (houts : s'.sm.inferences.sum (fun _ r => r.outstanding) + r.outstanding
      = s.sm.inferences.sum (fun _ r => r.outstanding) + held)
    (hcosts : s'.Accounts (fun hs n => hs.cost.toNat = n) InferenceRecord.earned)
    (hrest : ∀ id' r₀, s'.sm.inferences.get? id' = some r₀ →
      s.sm.inferences.get? id' = some r₀ ∨ r₀.executorSlot = r.executorSlot) :
    Conserved B₀ s' := by
  obtain ⟨hs, hhs⟩ := Option.isSome_iff_exists.mp (h.executors id r hlive)
  have hb := hbal (h.covered hlive hhs)
  have hno := h.credit_toNat hlive hhs hb
  have hisSome : ∀ slot, (s.sm.hostStats.get? slot).isSome →
      (s'.sm.hostStats.get? slot).isSome := by
    intro slot hslot
    rw [hstats, get?_modify]
    split
    · simp [hhs]
    · exact hslot
  refine ⟨h.bound, ?_, hcosts, fun id' => ?_, fun id' r₀ hr₀ => ?_⟩
  · have hcost := sum_modify (fun _ hs => hs.cost.toNat) f hhs
    have hb' := hb.total
    have ht := h.total
    rw [hbalance, hfees, hstats, UInt64.toNat_add, Nat.mod_eq_of_lt hno]
    omega
  · rw [hgroup]
    exact hisSome _ (h.slots id')
  · rcases hrest id' r₀ hr₀ with hold | hslot
    · exact hisSome _ (h.executors id' r₀ hold)
    · rw [hslot]
      exact hisSome _ (h.executors id r hlive)

theorem Conserved.costs_step (hstep : Step s s') (h : Conserved B₀ s) :
    s'.Accounts (fun hs n => hs.cost.toNat = n) InferenceRecord.earned := by
  refine h.costs.step hstep (fun id r hnew => ?_) (fun hlive hmove hget hP => ?_)
    (fun hlive hleave hget hP => ?_)
  · simp [earned, hnew.status]
  · have := (hmove.balanced (h.covered hlive hget)).earned
    omega
  · have := (hleave.balanced (h.covered hlive hget)).earned
    omega

/-- **Every step keeps the escrowed amount.** -/
theorem Conserved.step (hstep : Step s s') (h : Conserved B₀ s) : Conserved B₀ s' := by
  have hcosts := h.costs_step hstep
  cases hstep with
  | bind => exact { h with }
  | @start id r entry hphase hid hlive hcommitted hsealed hnew hbalance hentry =>
    have hle : r.reservedCost.toNat ≤ s.sm.balance.toNat := UInt64.le_iff_toNat_le.mp hbalance
    have hout : r.outstanding = r.reservedCost.toNat := by
      simp [outstanding, hnew.status]
    refine ⟨h.bound, ?_, hcosts, h.slots, fun id' r₀ hr₀ => ?_⟩
    · have hins := sum_insert_of_none (fun _ r => r.outstanding) r hlive
      have ht := h.total
      dsimp only at hins ⊢
      rw [UInt64.toNat_sub_of_le _ _ hbalance, hins, hout]
      omega
    · rw [get?_insert] at hr₀
      split at hr₀
      · cases hr₀
        rw [hnew.executorSlot]
        exact h.slots id
      · exact h.executors id' r₀ hr₀
  | @move id r r' amount f entry hlive hmove hentry =>
    refine h.balanced hlive (fun hc => hmove.balanced hc) rfl rfl rfl rfl
      (sum_insert_of_some _ r' hlive) hcosts (fun id' r₀ hr₀ => ?_)
    rw [get?_insert] at hr₀
    split at hr₀
    · cases hr₀
      exact .inr hmove.executorSlot
    · exact .inl hr₀
  | finalizeRound => exact { h with }
  | fee _ hbalance =>
    have hle : s.sm.config.feePerNonce.toNat ≤ s.sm.balance.toNat :=
      UInt64.le_iff_toNat_le.mp hbalance
    refine { h with total := ?_ }
    have ht := h.total
    have hb := h.bound
    dsimp only
    rw [UInt64.toNat_sub_of_le _ _ hbalance, UInt64.toNat_add, Nat.mod_eq_of_lt (by omega)]
    omega
  | nonce | settlement => exact { h with }
  | @leave id r r' amount f entry hlive hleave horder hentry =>
    refine h.balanced hlive (fun hc => hleave.balanced hc) rfl rfl rfl rfl
      (sum_erase (fun _ r => r.outstanding) hlive) hcosts (fun id' r₀ hr₀ => .inl ?_)
    replace hr₀ : (s.sm.inferences.erase id).get? id' = some r₀ := hr₀
    rw [get?_erase] at hr₀
    split at hr₀
    · cases hr₀
    · exact hr₀

end Devshard
