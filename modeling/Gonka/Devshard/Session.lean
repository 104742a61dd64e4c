/-
A session as a transition system.

The machine forgets an inference when it seals it; only a hash remains.  A
`Session` is a machine together with the records that have left it, in the order
of their seals, so that properties of all inferences ever created can be stated.

`Step` is the protocol: what can happen to a session, without signatures, stores
and rollbacks.  An inference is started, moves along its life cycle (`Move`), and
leaves the live map for the sealed ones (`Leave`); fees, nonces and phases advance
in between.  Every invariant of the session is proved on `Step`; that the
operations of the machine perform steps is proved separately.
-/
import Mathlib.Logic.Relation
import Gonka.Devshard.Handlers
import Gonka.Devshard.Seal

namespace Devshard

open OrdMap

/-- An inference that has been sealed: at which nonce, and with which record. -/
structure SealedRecord where
  nonce : ℕ
  id : ℕ
  record : InferenceRecord

/-- A machine and the inferences it has sealed so far. -/
structure Session where
  sm : StateMachine
  sealed : List SealedRecord

/-- A move of a live record `r` to another record, with the amount it credits to
the balance and its effect on the executor's statistics. -/
inductive Move (sm : StateMachine) (r : InferenceRecord) :
    InferenceRecord → UInt64 → (HostStats → HostStats) → Prop
  | confirm (confirmedAt : Int64) (hstatus : r.status = .pending) :
      Move sm r { r with status := .started, confirmedAt } 0 id
  | finish (responseHash : Bytes) (inputTokens outputTokens actualCost : UInt64)
      (hstatus : r.status = .started) (hcost : actualCost ≤ r.reservedCost) :
      Move sm r { r with status := .finished, responseHash, inputTokens, outputTokens, actualCost }
        (r.reservedCost - actualCost) (fun hs => { hs with cost := hs.cost + actualCost })
  | validate (slot : ℕ) (valid : Bool)
      (hslot : (sm.slotToAddress.get? slot).isNone = false)
      (hself : slot ≠ r.executorSlot)
      (hnew : addressHasValidated sm r slot = none)
      (hstatus : r.status = .finished ∨ r.status = .challenged ∨ r.status = .validated
        ∨ r.status = .invalidated) :
      Move sm r (recordValidation sm r slot valid) 0 id
  | vote (slot : ℕ) (valid : Bool)
      (hslot : (sm.slotToAddress.get? slot).isNone = false)
      (hnew : addressHasValidated sm r slot = none)
      (hstatus : r.status = .challenged)
      (hinvalid : (recordVote sm r slot valid).votesInvalid ≤ sm.config.voteThreshold)
      (hvalid : (recordVote sm r slot valid).votesValid ≤ sm.config.voteThreshold) :
      Move sm r (recordVote sm r slot valid) 0 id
  | validated (slot : ℕ) (valid : Bool)
      (hslot : (sm.slotToAddress.get? slot).isNone = false)
      (hnew : addressHasValidated sm r slot = none)
      (hstatus : r.status = .challenged)
      (hinvalid : (recordVote sm r slot valid).votesInvalid ≤ sm.config.voteThreshold)
      (hvalid : sm.config.voteThreshold < (recordVote sm r slot valid).votesValid) :
      Move sm r { recordVote sm r slot valid with status := .validated } 0 id
  | invalidated (slot : ℕ) (valid : Bool)
      (hslot : (sm.slotToAddress.get? slot).isNone = false)
      (hnew : addressHasValidated sm r slot = none)
      (hstatus : r.status = .challenged)
      (hinvalid : sm.config.voteThreshold < (recordVote sm r slot valid).votesInvalid) :
      Move sm r { recordVote sm r slot valid with status := .invalidated } r.actualCost
        (fun hs => { hs with
          invalid := hs.invalid + 1
          cost := if hs.cost < r.actualCost then 0 else hs.cost - r.actualCost })
  | timeout (hstatus : r.status = .pending ∨ r.status = .started) :
      Move sm r { r with status := .timedOut } r.reservedCost
        (fun hs => { hs with missed := hs.missed + 1 })

/-- The record with which a live inference leaves: as it is when it is eligible
in the active phase, with its settlement default at the drain. -/
inductive Leave (phase : SessionPhase) (r : InferenceRecord) :
    InferenceRecord → UInt64 → (HostStats → HostStats) → Prop
  | autoSealed (hphase : phase = .active) (hstatus : sealEligibleStatus r.status) :
      Leave phase r r 0 id
  | paid (hphase : phase = .settlement) (hstatus : r.status = .started) :
      Leave phase r { r with actualCost := r.reservedCost, status := .finished } 0
        (fun hs => { hs with cost := hs.cost + r.reservedCost })
  | refunded (hphase : phase = .settlement) (hstatus : r.status = .pending) :
      Leave phase r { r with actualCost := 0, status := .timedOut } r.reservedCost id
  | drained (hphase : phase = .settlement) (hstarted : r.status ≠ .started)
      (hpending : r.status ≠ .pending) :
      Leave phase r r 0 id

structure IsNewRecord (sm : StateMachine) (id : ℕ) (r : InferenceRecord) : Prop where
  status : r.status = .pending
  executorSlot : r.executorSlot = executorSlotFor sm.group id
  actualCost : r.actualCost = 0
  votesValid : r.votesValid = 0
  votesInvalid : r.votesInvalid = 0
  validatedBy : r.validatedBy = {}

/-- Pay and count for a record of `slot`. -/
def StateMachine.credit (sm : StateMachine) (amount : UInt64) (slot : ℕ)
    (f : HostStats → HostStats) : StateMachine :=
  { sm with balance := sm.balance + amount, hostStats := sm.hostStats.modify slot f }

/-- Move the inference `id` from the live ones to the sealed ones. -/
def Session.seal (s : Session) (id : ℕ) (r : InferenceRecord) (entry : Bytes) : Session where
  sm :=
    { s.sm with
      inferences := s.sm.inferences.erase id
      committedEntries := s.sm.committedEntries.erase id
      sealedNonces := s.sm.sealedNonces.insert id s.sm.latestNonce
      sealedAcc := foldSealedAccumulator (sealedAccBytes32 s.sm.sealedAcc) s.sm.latestNonce id
        entry }
  sealed := s.sealed ++ [⟨s.sm.latestNonce, id, r⟩]

inductive Step (s : Session) : Session → Prop
  | bind (keys : OrdMap ℕ Address) : Step s { s with sm.warmKeys := keys }
  | start {id : ℕ} {r : InferenceRecord} {entry : Bytes}
      (hphase : s.sm.phase = .active)
      (hid : id = s.sm.latestNonce + 1)
      (hlive : s.sm.inferences.get? id = none)
      (hcommitted : s.sm.committedEntries.get? id = none)
      (hsealed : s.sm.sealedNonces.get? id = none)
      (hnew : IsNewRecord s.sm id r)
      (hbalance : r.reservedCost ≤ s.sm.balance)
      (hentry : marshalInferenceEntry id r = some entry) :
      Step s { s with
        sm.balance := s.sm.balance - r.reservedCost
        sm.inferences := s.sm.inferences.insert id r
        sm.committedEntries := s.sm.committedEntries.insert id entry }
  | move {id : ℕ} {r r' : InferenceRecord} {amount : UInt64} {f : HostStats → HostStats}
      {entry : Bytes}
      (hlive : s.sm.inferences.get? id = some r)
      (hmove : Move s.sm r r' amount f)
      (hentry : marshalInferenceEntry id r' = some entry) :
      Step s { s with
        sm := { s.sm.credit amount r.executorSlot f with
          inferences := s.sm.inferences.insert id r'
          committedEntries := s.sm.committedEntries.insert id entry } }
  | finalizeRound (hphase : s.sm.phase = .active) : Step s { s with sm.phase := .finalizing }
  | fee (hphase : s.sm.phase = .active) (hbalance : s.sm.config.feePerNonce ≤ s.sm.balance) :
      Step s { s with
        sm.balance := s.sm.balance - s.sm.config.feePerNonce
        sm.fees := s.sm.fees + s.sm.config.feePerNonce }
  | nonce (finalizeNonce : ℕ) :
      Step s { s with
        sm.latestNonce := s.sm.latestNonce + 1
        sm.finalizeNonce := finalizeNonce }
  | settlement (hphase : s.sm.phase = .finalizing) : Step s { s with sm.phase := .settlement }
  | leave {id : ℕ} {r r' : InferenceRecord} {amount : UInt64} {f : HostStats → HostStats}
      {entry : Bytes}
      (hlive : s.sm.inferences.get? id = some r)
      (hleave : Leave s.sm.phase r r' amount f)
      (horder : ∀ e ∈ s.sealed, e.nonce = s.sm.latestNonce → e.id < id)
      (hentry : marshalInferenceEntry id r' = some entry) :
      Step s (({ s with sm := s.sm.credit amount r.executorSlot f } : Session).seal id r' entry)

abbrev Steps : Session → Session → Prop := Relation.ReflTransGen Step

variable {s s' : Session} {r r' : InferenceRecord} {f : HostStats → HostStats}

theorem Steps.invariant {I : Session → Prop} (hstep : ∀ s s', Step s s' → I s → I s')
    (h : Steps s s') (hs : I s) : I s' := by
  induction h with
  | refl => exact hs
  | tail _ hlast ih => exact hstep _ _ hlast ih

theorem Step.sameSession (h : Step s s') : SameSession s.sm s'.sm := by
  cases h <;> exact ⟨rfl, rfl, rfl, rfl, rfl⟩

theorem Steps.sameSession (h : Steps s s') : SameSession s.sm s'.sm :=
  h.invariant (I := fun t => SameSession s.sm t.sm) (fun _ _ hstep ht => ht.trans hstep.sameSession)
    (SameSession.refl _)

theorem Move.executorSlot {sm : StateMachine} {amount : UInt64} (h : Move sm r r' amount f) :
    r'.executorSlot = r.executorSlot := by
  cases h <;> simp

theorem Leave.executorSlot {phase : SessionPhase} {amount : UInt64}
    (h : Leave phase r r' amount f) :
    r'.executorSlot = r.executorSlot := by
  cases h <;> rfl

def Session.sum (s : Session) (f : InferenceRecord → ℕ) : ℕ :=
  s.sm.inferences.sum (fun _ r => f r) + (s.sealed.map fun e => f e.record).sum

theorem Session.sum_seal {id : ℕ} {entry : Bytes} (hlive : s.sm.inferences.get? id = some r)
    (g : InferenceRecord → ℕ) :
    (s.seal id r' entry).sum g + g r = s.sum g + g r' := by
  have herase := sum_erase (fun _ r => g r) hlive
  simp only [Session.sum, Session.seal, List.map_append, List.map_cons, List.map_nil,
    List.sum_append, List.sum_cons, List.sum_nil]
  omega

theorem Session.le_sum {id : ℕ} (hlive : s.sm.inferences.get? id = some r)
    (g : InferenceRecord → ℕ) : g r ≤ s.sum g :=
  le_trans (OrdMap.le_sum (fun _ r => g r) hlive) (Nat.le_add_right _ _)

/-- The statistics of every host agree with the sum of `g` over the inferences it
executes. -/
def Session.Accounts (s : Session) (P : HostStats → ℕ → Prop) (g : InferenceRecord → ℕ) : Prop :=
  ∀ slot hs, s.sm.hostStats.get? slot = some hs →
    P hs (s.sum fun r => if r.executorSlot = slot then g r else 0)

theorem Session.Accounts.update {P : HostStats → ℕ → Prop} {g : InferenceRecord → ℕ}
    (h : s.Accounts P g) {id : ℕ} (hlive : s.sm.inferences.get? id = some r)
    (hslot : r'.executorSlot = r.executorSlot)
    (hP : ∀ hs n, s.sm.hostStats.get? r.executorSlot = some hs → P hs (n + g r) →
      P (f hs) (n + g r')) (hstats : s'.sm.hostStats = s.sm.hostStats.modify r.executorSlot f)
    (hsum : ∀ k : InferenceRecord → ℕ, s'.sum k + k r = s.sum k + k r') : s'.Accounts P g := by
  intro slot hs hget
  have hk := hsum fun r => if r.executorSlot = slot then g r else 0
  rw [hstats, get?_modify] at hget
  by_cases heq : slot = r.executorSlot
  · -- the executor of the record: its sum moves from `g r` to `g r'`
    subst heq
    rw [if_pos rfl, Option.map_eq_some_iff] at hget
    obtain ⟨hs₀, hget, rfl⟩ := hget
    have hold := h _ _ hget
    have hle := Session.le_sum hlive fun r' => if r'.executorSlot = r.executorSlot then g r' else 0
    simp only [hslot, if_true] at hk hle
    obtain ⟨n, hn⟩ := Nat.exists_eq_add_of_le' hle
    rw [hn] at hold hk
    rw [show s'.sum _ = n + g r' by omega]
    exact hP hs₀ n hget hold
  · rw [if_neg heq] at hget
    have hne : ¬ r.executorSlot = slot := fun h => heq h.symm
    simp only [hslot, if_neg hne, Nat.add_zero] at hk
    rw [hk]
    exact h slot hs hget

/-- **Accounts are kept by every step** that keeps them for one record. -/
theorem Session.Accounts.step {P : HostStats → ℕ → Prop} {g : InferenceRecord → ℕ}
    (h : s.Accounts P g) (hstep : Step s s') (hnew : ∀ id r, IsNewRecord s.sm id r → g r = 0)
    (hmove : ∀ {id r r' amount f hs n}, s.sm.inferences.get? id = some r →
      Move s.sm r r' amount f → s.sm.hostStats.get? r.executorSlot = some hs →
      P hs (n + g r) → P (f hs) (n + g r'))
    (hleave : ∀ {id r r' amount f hs n}, s.sm.inferences.get? id = some r →
      Leave s.sm.phase r r' amount f → s.sm.hostStats.get? r.executorSlot = some hs →
      P hs (n + g r) → P (f hs) (n + g r')) :
    s'.Accounts P g := by
  cases hstep with
  | bind => exact h
  | @start id r entry hphase hid hlive hcommitted hsealed hisnew hbalance hentry =>
    intro slot hs hget
    have hins := sum_insert_of_none (fun _ r => if r.executorSlot = slot then g r else 0) r hlive
    have hzero : (if r.executorSlot = slot then g r else 0) = 0 := by
      rw [hnew id r hisnew, ite_self]
    rw [hzero, Nat.add_zero] at hins
    simp only [Session.sum, hins]
    exact h slot hs hget
  | @move id r r' amount f entry hlive hmv hentry =>
    refine h.update hlive hmv.executorSlot (fun hs n hget => hmove hlive hmv hget) rfl (fun k => ?_)
    have hins := sum_insert_of_some (fun _ r => k r) r' hlive
    simp only [Session.sum] at hins ⊢
    omega
  | finalizeRound | fee | nonce | settlement => exact h
  | @leave id r r' amount f entry hlive hlv horder hentry =>
    refine h.update hlive hlv.executorSlot (fun hs n hget => hleave hlive hlv hget) rfl
      (fun k => ?_)
    exact Session.sum_seal (s := { s with sm := s.sm.credit amount r.executorSlot f }) hlive k

end Devshard
