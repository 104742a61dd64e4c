/-
Vote accounting, on the transition system.

The tally of a record is the weight of two disjoint sets of validator addresses,
each of which has left a mark in the bitmap (`Tally`): a validation marks the
emitting slot, a vote marks every slot of the voter, and both look for a mark on
any slot of the address before they count it.  The counters of a host agree with
the statuses of its inferences (`Counted`).

Main results: `Voted.step`, `Counted.step`.
-/
import Mathlib.Algebra.BigOperators.Group.Finset.Piecewise
import Gonka.Devshard.Conservation
import Gonka.Devshard.Lifecycle

namespace Devshard

open List InferenceRecord EscrowState

def weight (group : List SlotAssignment) (addr : Address) : ℕ :=
  group.countP fun s => s.validatorAddress = addr

theorem sum_weight_le (group : List SlotAssignment) (addrs : Finset Address) :
    ∑ a ∈ addrs, weight group a ≤ group.length := by
  induction group with
  | nil => simp [weight]
  | cons s rest =>
    have hone : ∑ a ∈ addrs, (if s.validatorAddress = a then 1 else 0) ≤ 1 := by
      rw [Finset.sum_ite_eq]
      split <;> simp
    have hcons : ∀ a, weight (s :: rest) a
        = weight rest a + if s.validatorAddress = a then 1 else 0 := by
      intro a
      simp only [weight, countP_cons, decide_eq_true_eq]
    simp only [hcons, Finset.sum_add_distrib, length_cons]
    omega

variable {sm : StateMachine} {r : InferenceRecord} {slot : ℕ} {addr : Address}

variable (hg : validateGroup sm.group) (hslot : sm.slotToAddress.get? slot = some addr)

include hg in
theorem addressToSlotCount_toNat (addr : Address) :
    (sm.addressToSlotCount addr).toNat = weight sm.group addr := by
  have hle : weight sm.group addr ≤ 128 :=
    le_trans countP_le_length (validateGroup_le hg)
  unfold addressToSlotCount
  exact Nat.mod_eq_of_lt (by unfold weight at hle; omega)

/-- An address has marked a record: the bit of one of its slots is set. -/
def Marked (sm : StateMachine) (r : InferenceRecord) (addr : Address) : Prop :=
  ∃ slot, sm.slotToAddress.get? slot = some addr ∧ r.validatedBy.isSet slot

include hg hslot in
theorem slot_lt_maxGroupSize : slot < maxGroupSize := by
  obtain ⟨s, hs, rfl, -⟩ := (slotToAddress_get? hg).mp hslot
  exact validateGroup_lt hg hs

include hslot in
theorem slotAddress_of_get? : sm.slotAddress slot = addr := by
  simp [slotAddress, hslot]

include hslot in
theorem addressHasValidated_eq_none :
    addressHasValidated sm r slot = none ↔ ¬ Marked sm r addr := by
  unfold addressHasValidated Marked
  rw [slotAddress_of_get? hslot, find?_eq_none]
  simp only [mem_addressToSlots]
  push Not
  rfl

theorem isSet_foldl_set (slots : List ℕ) (hlt : ∀ s ∈ slots, s < maxGroupSize) (b : Bitmap128)
    (j : ℕ) : (slots.foldl Bitmap128.set b).isSet j = (b.isSet j || decide (j ∈ slots)) := by
  induction slots generalizing b with
  | nil => simp
  | cons s _ ih =>
    rw [foldl_cons, ih (fun s' hs' => hlt s' (mem_cons_of_mem _ hs')),
      Bitmap128.isSet_set _ _ (hlt s mem_cons_self), Bool.or_assoc]
    congr 1
    by_cases hj : s = j
    · simp [hj]
    · have hj' : ¬ j = s := fun h => hj h.symm
      simp [hj, hj']

/-- The two tallies of a record are the weights of two disjoint sets of addresses
that have marked it. -/
structure Tally (sm : StateMachine) (r : InferenceRecord) (valid invalid : Finset Address) :
    Prop where
  disjoint : Disjoint valid invalid
  marked : ∀ a ∈ valid ∪ invalid, Marked sm r a
  votesValid : r.votesValid.toNat = ∑ a ∈ valid, weight sm.group a
  votesInvalid : r.votesInvalid.toNat = ∑ a ∈ invalid, weight sm.group a

variable {valid invalid : Finset Address} {r' : InferenceRecord} {amount : UInt64}
  {f : HostStats → HostStats}

theorem Tally.total_le (h : Tally sm r valid invalid) :
    r.votesValid.toNat + r.votesInvalid.toNat ≤ sm.group.length := by
  rw [h.votesValid, h.votesInvalid, ← Finset.sum_union h.disjoint]
  exact sum_weight_le sm.group _

theorem Tally.add (h : Tally sm r valid invalid) (vote : Bool) (hg : validateGroup sm.group)
    (hslot : sm.slotToAddress.get? slot = some addr) (hnew : ¬ Marked sm r addr)
    (hset : r'.validatedBy.isSet slot) (hkeep : ∀ j, r.validatedBy.isSet j → r'.validatedBy.isSet j)
    (hvalid : r'.votesValid
      = if vote then r.votesValid + sm.addressToSlotCount addr else r.votesValid)
    (hinvalid : r'.votesInvalid
      = if vote then r.votesInvalid else r.votesInvalid + sm.addressToSlotCount addr) :
    ∃ valid' invalid', Tally sm r' valid' invalid' := by
  have hnotmem : addr ∉ valid ∪ invalid := fun hmem => hnew (h.marked addr hmem)
  obtain ⟨hv, hi⟩ : addr ∉ valid ∧ addr ∉ invalid := by simpa using hnotmem
  have hmarked : ∀ a ∈ insert addr (valid ∪ invalid), Marked sm r' a := by
    intro a ha
    rcases Finset.mem_insert.mp ha with rfl | ha
    · exact ⟨slot, hslot, hset⟩
    · obtain ⟨s, hs, hbit⟩ := h.marked a ha
      exact ⟨s, hs, hkeep s hbit⟩
  -- with the new address the tallies still count distinct slots: no overflow
  have hbound : r.votesValid.toNat + r.votesInvalid.toNat + weight sm.group addr ≤ 128 := by
    have hsum := sum_weight_le sm.group (insert addr (valid ∪ invalid))
    rw [Finset.sum_insert hnotmem, Finset.sum_union h.disjoint, ← h.votesValid,
      ← h.votesInvalid] at hsum
    have hle : sm.group.length ≤ 128 := validateGroup_le hg
    omega
  have hadd : ∀ n : UInt32, n.toNat ≤ r.votesValid.toNat + r.votesInvalid.toNat →
      (n + sm.addressToSlotCount addr).toNat = n.toNat + weight sm.group addr := by
    intro n hn
    rw [UInt32.toNat_add, addressToSlotCount_toNat hg]
    omega
  cases vote with
  | true =>
    refine ⟨insert addr valid, invalid, ?_, ?_, ?_, ?_⟩
    · exact Finset.disjoint_insert_left.mpr ⟨hi, h.disjoint⟩
    · rwa [Finset.insert_union]
    · rw [hvalid, if_pos rfl, hadd _ (Nat.le_add_right _ _), Finset.sum_insert hv, h.votesValid]
      omega
    · rw [hinvalid, if_pos rfl]
      exact h.votesInvalid
  | false =>
    refine ⟨valid, insert addr invalid, ?_, ?_, ?_, ?_⟩
    · exact Finset.disjoint_insert_right.mpr ⟨hv, h.disjoint⟩
    · rwa [Finset.union_insert]
    · rw [hvalid, if_neg Bool.false_ne_true]
      exact h.votesValid
    · rw [hinvalid, if_neg Bool.false_ne_true, hadd _ (Nat.le_add_left _ _),
        Finset.sum_insert hi, h.votesInvalid]
      omega

theorem Tally.mono (h : Tally sm r valid invalid)
    (hkeep : ∀ j, r.validatedBy.isSet j → r'.validatedBy.isSet j)
    (hvalid : r'.votesValid = r.votesValid) (hinvalid : r'.votesInvalid = r.votesInvalid) :
    Tally sm r' valid invalid where
  disjoint := h.disjoint
  marked a ha := by
    obtain ⟨s, hs, hbit⟩ := h.marked a ha
    exact ⟨s, hs, hkeep s hbit⟩
  votesValid := by rw [hvalid, h.votesValid]
  votesInvalid := by rw [hinvalid, h.votesInvalid]

/-- The votes of a record and its status agree. -/
structure Voted (sm : StateMachine) (r : InferenceRecord) : Prop where
  tally : ∃ valid invalid, Tally sm r valid invalid
  invalidated : r.status = .invalidated → sm.config.voteThreshold < r.votesInvalid
  validated : r.status = .validated →
    sm.config.voteThreshold < r.votesValid ∧ r.votesInvalid ≤ sm.config.voteThreshold

/-- A record that keeps its votes keeps its account, unless it becomes resolved. -/
theorem Voted.of_sameVotes (h : Voted sm r) (hmarks : r'.validatedBy = r.validatedBy)
    (hvalid : r'.votesValid = r.votesValid) (hinvalid : r'.votesInvalid = r.votesInvalid)
    (hstatus : r'.status = r.status ∨ r'.status ≠ .invalidated ∧ r'.status ≠ .validated) :
    Voted sm r' := by
  obtain ⟨valid, invalid, ht⟩ := h.tally
  refine ⟨⟨valid, invalid, ht.mono (fun j hj => by rwa [hmarks]) hvalid hinvalid⟩, ?_, ?_⟩
  · intro hs
    rcases hstatus with heq | ⟨hne, -⟩
    · rw [hinvalid]
      exact h.invalidated (heq ▸ hs)
    · exact absurd hs hne
  · intro hs
    rcases hstatus with heq | ⟨-, hne⟩
    · rw [hvalid, hinvalid]
      exact h.validated (heq ▸ hs)
    · exact absurd hs hne

theorem recordValidation_validatedBy (valid : Bool) :
    (recordValidation sm r slot valid).validatedBy = r.validatedBy.set slot := by
  unfold recordValidation
  split_ifs <;> rfl

theorem recordValidation_votes_of_ne (sm : StateMachine) (slot : ℕ) (valid : Bool) (h : r.status ≠ .finished) :
    (recordValidation sm r slot valid).votesValid = r.votesValid ∧
      (recordValidation sm r slot valid).votesInvalid = r.votesInvalid := by
  simp [recordValidation, h]

theorem recordVote_tally (valid : Bool) {V I : Finset Address} (hg : validateGroup sm.group)
    (h : Tally sm r V I) (hslot : sm.slotToAddress.get? slot = some addr)
    (hnew : addressHasValidated sm r slot = none) :
    ∃ V' I', Tally sm (recordVote sm r slot valid) V' I' := by
  have haddr := slotAddress_of_get? hslot
  have hmarks : (recordVote sm r slot valid).validatedBy
      = (sm.addressToSlots addr).foldl Bitmap128.set r.validatedBy := by
    unfold recordVote
    rw [haddr]
    split <;> rfl
  have hlt : ∀ s ∈ sm.addressToSlots addr, s < maxGroupSize := fun s hs =>
    slot_lt_maxGroupSize hg (mem_addressToSlots.mp hs)
  refine h.add valid hg hslot ((addressHasValidated_eq_none hslot).mp hnew) ?_
    (fun j hj => ?_) ?_ ?_
  · rw [hmarks, isSet_foldl_set _ hlt]
    simp [mem_addressToSlots.mpr hslot]
  · rw [hmarks, isSet_foldl_set _ hlt, hj, Bool.true_or]
  · unfold recordVote
    rw [haddr]
    cases valid <;> rfl
  · unfold recordVote
    rw [haddr]
    cases valid <;> rfl

include hg in
theorem Move.voted (hmove : Move sm r r' amount f) (h : Voted sm r) : Voted sm r' := by
  have hmember : ∀ {slot}, (sm.slotToAddress.get? slot).isNone = false →
      ∃ addr, sm.slotToAddress.get? slot = some addr := by
    intro slot hslot
    cases hget : sm.slotToAddress.get? slot with
    | none => simp [hget] at hslot
    | some addr => exact ⟨addr, rfl⟩
  obtain ⟨V, I, ht⟩ := h.tally
  cases hmove with
  | confirm | finish => exact h.of_sameVotes rfl rfl rfl (.inr (by simp))
  | validate slot valid hslot _ hnew =>
    obtain ⟨_, haddr⟩ := hmember hslot
    have hlt := slot_lt_maxGroupSize hg haddr
    have hset : ∀ j, (recordValidation sm r slot valid).validatedBy.isSet j
        = (r.validatedBy.isSet j || decide (slot = j)) := by
      intro j
      rw [recordValidation_validatedBy, Bitmap128.isSet_set _ _ hlt]
    by_cases hfin : r.status = .finished
    · -- the weight is counted, and the record is finished or challenged
      have htally : ∃ V' I', Tally sm (recordValidation sm r slot valid) V' I' := by
        refine ht.add valid hg haddr ((addressHasValidated_eq_none haddr).mp hnew)
          (by simp [hset]) (fun j hj => by simp [hset, hj]) ?_ ?_
        · cases valid <;> simp [recordValidation, hfin, slotAddress_of_get? haddr]
        · cases valid <;> simp [recordValidation, hfin, slotAddress_of_get? haddr]
      have hopen : (recordValidation sm r slot valid).status = .finished ∨
          (recordValidation sm r slot valid).status = .challenged := by
        rw [recordValidation_status]
        split
        · exact .inr rfl
        · exact .inl hfin
      refine ⟨htally, fun hs => ?_, fun hs => ?_⟩
      · rcases hopen with ho | ho <;> simp [ho] at hs
      · rcases hopen with ho | ho <;> simp [ho] at hs
    · -- only the mark is left
      obtain ⟨hvv, hvi⟩ := recordValidation_votes_of_ne sm slot valid hfin
      have hsame : (recordValidation sm r slot valid).status = r.status := by
        simp [recordValidation_status, hfin]
      refine ⟨⟨V, I, ht.mono (fun j hj => by simp [hset, hj]) hvv hvi⟩, ?_, ?_⟩
      · rw [hsame, hvi]
        exact h.invalidated
      · rw [hsame, hvv, hvi]
        exact h.validated
  | vote _ valid hslot hnew hstatus =>
    obtain ⟨_, haddr⟩ := hmember hslot
    refine ⟨recordVote_tally valid hg ht haddr hnew, fun hs => ?_, fun hs => ?_⟩
    · simp [hstatus] at hs
    · simp [hstatus] at hs
  | validated _ valid hslot hnew _ hinvalid hvalid =>
    obtain ⟨_, haddr⟩ := hmember hslot
    obtain ⟨V', I', ht'⟩ := recordVote_tally valid hg ht haddr hnew
    exact ⟨⟨V', I', ht'.mono (fun _ hj => hj) rfl rfl⟩, (nofun), fun _ => ⟨hvalid, hinvalid⟩⟩
  | invalidated _ valid hslot hnew _ hinvalid =>
    obtain ⟨_, haddr⟩ := hmember hslot
    obtain ⟨V', I', ht'⟩ := recordVote_tally valid hg ht haddr hnew
    exact ⟨⟨V', I', ht'.mono (fun _ hj => hj) rfl rfl⟩, fun _ => hinvalid, nofun⟩
  | timeout => exact h.of_sameVotes rfl rfl rfl (.inr (by simp))

theorem Leave.voted {phase : SessionPhase} (hleave : Leave phase r r' amount f) (h : Voted sm r) :
    Voted sm r' := by
  cases hleave with
  | autoSealed => exact h
  | paid | refunded => exact h.of_sameVotes rfl rfl rfl (.inr (by simp))
  | drained => exact h

theorem IsNewRecord.voted {id : ℕ} (h : IsNewRecord sm id r) : Voted sm r where
  tally := ⟨∅, ∅, by simp, by simp, by simp [h.votesValid], by simp [h.votesInvalid]⟩
  invalidated hs := by simp [h.status] at hs
  validated hs := by simp [h.status] at hs

theorem Voted.of_sameSession {sm' : StateMachine} (hsame : SameSession sm sm') (h : Voted sm r) :
    Voted sm' r := by
  have hslots : sm'.slotToAddress = sm.slotToAddress := by
    simp only [slotToAddress, hsame.group]
  obtain ⟨⟨V, I, ht⟩, _⟩ := h
  refine ⟨⟨V, I, ht.disjoint, fun a ha => ?_, ?_, ?_⟩, ?_, ?_⟩
  · obtain ⟨s, _, hbit⟩ := ht.marked a ha
    exact ⟨s, by rwa [hslots], hbit⟩
  · rw [hsame.group, ht.votesValid]
  · rw [hsame.group, ht.votesInvalid]
  · rwa [hsame.config]
  · rwa [hsame.config]

/-- **Every step keeps the votes of every inference in account.** -/
theorem Voted.step {s s' : Session} (hg : validateGroup s.sm.group) (hstep : Step s s')
    (h : ∀ id r, s.Holds id r → Voted s.sm r) (id : ℕ) (r : InferenceRecord)
    (hr : s'.Holds id r) : Voted s'.sm r := by
  refine Voted.of_sameSession hstep.sameSession ?_
  cases hstep.origin hr with
  | held hold => exact h id r hold
  | new _ _ hnew => exact hnew.voted
  | move h₀ hmove => exact hmove.voted hg (h id _ h₀)
  | leave h₀ hleave => exact hleave.voted (h id _ h₀)

def InferenceRecord.isIn (status : InferenceStatus) (r : InferenceRecord) : ℕ :=
  if r.status = status then 1 else 0

/-- The counters of every host: `Invalid` counts its invalidated inferences, as
far as 32 bits go, and `Missed` at most its timed-out ones. -/
structure Counted (s : Session) : Prop where
  invalid : s.Accounts (fun hs n => hs.invalid = UInt32.ofNat n)
    (InferenceRecord.isIn .invalidated)
  missed : s.Accounts (fun hs n => hs.missed.toNat ≤ n) (InferenceRecord.isIn .timedOut)

/-- The host counts the inference when it becomes invalid, and at most when it times out. -/
def Counts (r r' : InferenceRecord) (f : HostStats → HostStats) : Prop :=
  ∀ hs, r.isIn .invalidated ≤ r'.isIn .invalidated ∧
    (f hs).invalid = hs.invalid + UInt32.ofNat (r'.isIn .invalidated - r.isIn .invalidated) ∧
    (f hs).missed.toNat + r.isIn .timedOut ≤ hs.missed.toNat + r'.isIn .timedOut

theorem Move.counts (h : Move sm r r' amount f) : Counts r r' f := by
  intro hs
  cases h with
  | confirm _ hstatus => simp [isIn, hstatus]
  | finish _ _ _ _ hstatus => simp [isIn, hstatus]
  | validate _ valid _ _ _ hstatus =>
    rcases hstatus with h | h | h | h <;> cases valid <;>
      simp [isIn, recordValidation_status, h]
  | vote _ _ _ _ hstatus => simp [isIn, hstatus]
  | validated _ _ _ _ hstatus => simp [isIn, hstatus]
  | invalidated _ _ _ _ hstatus => simp [isIn, hstatus]
  | timeout hstatus =>
    -- a counter that wraps only falls
    have hone : (hs.missed + 1).toNat ≤ hs.missed.toNat + 1 := by
      exact Nat.mod_le _ _
    rcases hstatus with h | h <;> simpa [isIn, h] using hone

theorem Leave.counts {phase : SessionPhase} (h : Leave phase r r' amount f) : Counts r r' f := by
  intro hs
  cases h with
  | autoSealed => simp
  | paid _ hstatus => simp [isIn, hstatus]
  | refunded _ hstatus => simp [isIn, hstatus]
  | drained => simp

theorem Counts.invalid_eq (h : Counts r r' f) {hs : HostStats} {n : ℕ}
    (hn : hs.invalid = UInt32.ofNat (n + r.isIn .invalidated)) :
    (f hs).invalid = UInt32.ofNat (n + r'.isIn .invalidated) := by
  obtain ⟨_, heq, -⟩ := h hs
  rw [heq, hn, ← UInt32.ofNat_add]
  congr 1
  omega

theorem Counts.missed_le (h : Counts r r' f) {hs : HostStats} {n : ℕ}
    (hn : hs.missed.toNat ≤ n + r.isIn .timedOut) :
    (f hs).missed.toNat ≤ n + r'.isIn .timedOut := by
  obtain ⟨-, -, _⟩ := h hs
  omega

/-- **Every step keeps the counters.** -/
theorem Counted.step {s s' : Session} (hstep : Step s s') (h : Counted s) : Counted s' where
  invalid := h.invalid.step hstep (fun id r hnew => by simp [isIn, hnew.status])
    (fun _ hmove _ hn => hmove.counts.invalid_eq hn) fun _ hleave _ hn => hleave.counts.invalid_eq hn
  missed := h.missed.step hstep (fun id r hnew => by simp [isIn, hnew.status])
    (fun _ hmove _ hn => hmove.counts.missed_le hn) fun _ hleave _ hn => hleave.counts.missed_le hn

end Devshard
