/-
Vote accounting in every run.

Main results: `votes_accounted`, `invalid_counter_wraps`.
-/
import Gonka.Devshard.Runs

namespace Devshard

open OrdMap List World

theorem Session.sum_eq_records (s : Session) (f : InferenceRecord → ℕ) :
    s.sum f = ((s.sm.inferences.entries.map Prod.snd ++ s.sealed.map SealedRecord.record).map f).sum
    := by
  simp [Session.sum, OrdMap.sum, Function.comp_def]

theorem Sound.sum_costs {B₀ : ℕ} {s : Session} (h : Sound B₀ s) :
    s.sm.hostStats.sum (fun _ hs => hs.cost.toNat) = s.sum InferenceRecord.earned := by
  have hslots : ∀ r ∈ s.sm.inferences.entries.map Prod.snd ++ s.sealed.map SealedRecord.record,
      (s.sm.hostStats.get? r.executorSlot).isSome := by
    intro r hr
    have hholds : ∃ id, s.Holds id r := by
      rcases mem_append.mp hr with hr | hr
      · obtain ⟨⟨id, _⟩, he, rfl⟩ := mem_map.mp hr
        exact ⟨id, .inl (get?_eq_some_iff.mpr he)⟩
      · obtain ⟨e, he, rfl⟩ := mem_map.mp hr
        exact ⟨e.id, .inr ⟨e, he, rfl, rfl⟩⟩
    obtain ⟨id, hid⟩ := hholds
    rw [h.consistent.executors id r hid]
    exact h.conserved.slots id
  rw [s.sum_eq_records, ← sum_fiberwise s.sm.hostStats InferenceRecord.executorSlot
    InferenceRecord.earned hslots]
  refine sum_congr fun slot hs hget => ?_
  rw [h.conserved.costs slot hs hget, s.sum_eq_records]

/-- The escrowed amount, by inference: what unfinished ones reserve and what
finished ones have earned.  An invalidated inference holds neither. -/
theorem Sound.total_by_inference {B₀ : ℕ} {s : Session} (h : Sound B₀ s) :
    s.sm.balance.toNat + s.sm.fees.toNat + s.sm.inferences.sum (fun _ r => r.outstanding)
      + s.sum InferenceRecord.earned = B₀ := by
  have htotal := h.conserved.total
  rw [h.sum_costs] at htotal
  omega

theorem StatusPath.of_invalidated {status : InferenceStatus}
    (h : StatusPath .invalidated status) : status = .invalidated := by
  induction h with
  | refl => rfl
  | tail _ hedge ih =>
    subst ih
    cases hedge

theorem Continues.invalidated {s s' : Session} {new : List SealedRecord}
    (h : Continues s s' new) {id : ℕ} {r : InferenceRecord} (hr : s.Holds id r)
    (hstatus : r.status = .invalidated) : ∃ r', s'.Holds id r' ∧ r'.status = .invalidated := by
  rcases hr with hlive | ⟨e, he, hid, rfl⟩
  · rcases h.kept id r hlive with ⟨r', hr', hpath⟩ | ⟨e, he, hid, hpath⟩
    · rw [hstatus] at hpath
      exact ⟨r', .inl hr', hpath.of_invalidated⟩
    · rw [hstatus] at hpath
      exact ⟨e.record, .inr ⟨e, by rw [h.sealed]; exact mem_append_right _ he, hid, rfl⟩,
        hpath.of_invalidated⟩
  · exact ⟨e.record, .inr ⟨e, by rw [h.sealed]; exact mem_append_left _ he, hid, rfl⟩, hstatus⟩

section
variable {escrowID : Bytes} {config : SessionConfig} {group : List SlotAssignment}
  {balance : UInt64} {userAddress : Address} {version : Bytes} {sm : StateMachine}

theorem newStateMachine_counted (hg : validateGroup group)
    (h : newStateMachine escrowID config group balance userAddress version = .ok sm) :
    Counted (Session.new sm) := by
  obtain ⟨-, -, -, hlive, -⟩ := newStateMachine_ok h
  have hsum : ∀ f, (Session.new sm).sum f = 0 := by
    simp [Session.sum, Session.new, hlive]
  constructor
  · intro slot hs hget
    rw [hsum, ((newStateMachine_hostStats hg h slot hs).mp hget).2]
    rfl
  · intro slot hs hget
    rw [((newStateMachine_hostStats hg h slot hs).mp hget).2]
    exact Nat.zero_le _

theorem newStateMachine_voted (hg : validateGroup group)
    (h : newStateMachine escrowID config group balance userAddress version = .ok sm) {s : Session}
    (hsteps : Steps (Session.new sm) s) :
    (∀ id r, s.Holds id r → Voted s.sm r) ∧ Counted s := by
  obtain ⟨hgroup, -, -, hlive, -⟩ := newStateMachine_ok h
  have hinv := hsteps.invariant
    (I := fun t => validateGroup t.sm.group ∧ (∀ id r, t.Holds id r → Voted t.sm r) ∧ Counted t)
    (fun t t' hstep ht => ⟨by rw [hstep.sameSession.group]; exact ht.1,
      Voted.step ht.1 hstep ht.2.1, ht.2.2.step hstep⟩)
    ⟨by rw [Session.new, hgroup]; exact hg, ?_, newStateMachine_counted hg h⟩
  · exact hinv.2
  · rintro _ _ (hr | ⟨_, he, -⟩)
    · simp [Session.new, hlive] at hr
    · cases he

/-- **Vote accounting.**  In every run the votes of an inference are the weights of two
disjoint sets of addresses that have marked it (`Voted.tally`) and agree with its
status; the counter `Invalid` of a slot is, modulo `2 ^ 32`, the number of its
invalidated inferences, which stay so; and each of them was refunded exactly once. -/
theorem votes_accounted (env : Env) (hg : validateGroup group)
    (hnew : newStateMachine escrowID config group balance userAddress version = .ok sm)
    (ops : List Op) :
    ∃ s, Steps (Session.new sm) s ∧ s.sm = (runOps env ops (Driver.new sm)).world.sm ∧
      (∀ id r, s.Holds id r →
        Voted s.sm r ∧ r.votesValid.toNat + r.votesInvalid.toNat ≤ s.sm.group.length) ∧
      (∀ slot hs, s.sm.hostStats.get? slot = some hs → hs.invalid.toNat
        = (s.sum fun r => if r.executorSlot = slot then r.isIn .invalidated else 0) % 2 ^ 32) ∧
      (∀ t, Steps (Session.new sm) t → Steps t s → ∀ id r, t.Holds id r →
        r.status = .invalidated → ∃ r', s.Holds id r' ∧ r'.status = .invalidated) ∧
      s.sm.balance.toNat + s.sm.fees.toNat + s.sm.inferences.sum (fun _ r => r.outstanding)
        + s.sum InferenceRecord.earned = balance.toNat := by
  obtain ⟨s, hsteps, htracks⟩ := runOps_tracks env ops (newStateMachine_tracks env hg hnew)
  obtain ⟨hvoted, hcounted⟩ := newStateMachine_voted hg hnew hsteps
  refine ⟨s, hsteps, htracks.machine.symm, fun id r hr => ?_, fun slot hs hget => ?_,
    fun t _ hts id r hr hstatus => ?_, htracks.rests.sound.total_by_inference⟩
  · obtain ⟨_, _, htally⟩ := (hvoted id r hr).tally
    exact ⟨hvoted id r hr, htally.total_le⟩
  · rw [hcounted.invalid slot hs hget, UInt32.toNat_ofNat']
  · obtain ⟨_, hcont⟩ := hts.continues
    exact hcont.invalidated hr hstatus

theorem votes_accounted_sample :
    ∃ s, Steps (Session.new sampleMachine) s ∧ s.sm = (runOps sampleEnv
        [.applyLocal 1 sampleInvalidation] (Driver.new sampleMachine)).world.sm ∧
      (s.sm.inferences.get? 1).map (fun r => (r.status, r.votesValid, r.votesInvalid)) =
        some (.invalidated, 0, 2) ∧
      (∀ id r, s.Holds id r →
        Voted s.sm r ∧ r.votesValid.toNat + r.votesInvalid.toNat ≤ s.sm.group.length) ∧
      (∀ slot hs, s.sm.hostStats.get? slot = some hs → hs.invalid.toNat
        = (s.sum fun r => if r.executorSlot = slot then r.isIn .invalidated else 0) % 2 ^ 32) ∧
      (∀ t, Steps (Session.new sampleMachine) t → Steps t s → ∀ id r, t.Holds id r →
        r.status = .invalidated → ∃ r', s.Holds id r' ∧ r'.status = .invalidated) ∧
      s.sm.balance.toNat + s.sm.fees.toNat + s.sm.inferences.sum (fun _ r => r.outstanding)
        + s.sum InferenceRecord.earned = 1000 := by
  obtain ⟨s, hsteps, hs, hrest⟩ := votes_accounted sampleEnv (by decide) sampleMachine_ok
    [.applyLocal 1 sampleInvalidation]
  have hvotes : (s.sm.inferences.get? 1).map (fun r => (r.status, r.votesValid, r.votesInvalid)) =
      some (.invalidated, 0, 2) := by
    rw [hs]
    decide +kernel
  exact ⟨s, hsteps, hs, hvotes, hrest⟩

end

def wrapGroup : List SlotAssignment := [⟨0, [1]⟩, ⟨1, [2]⟩, ⟨2, [3]⟩]

/-- No prices and no fees; two slots of three decide a vote. -/
def wrapConfig : SessionConfig where
  tokenPrice := 0
  createDevshardFee := 0
  feePerNonce := 0
  voteThreshold := 1
  inferenceSealGraceNonces := 0
  inferenceSealGraceSeconds := 0
  autoSealEveryNNonces := 0

/-- An inference of slot `0` that the slots `1` and `2` have found invalid. -/
def invalidatedRecord : InferenceRecord :=
  { status := .invalidated, votesInvalid := 2, validatedBy := (({} : Bitmap128).set 1).set 2 }

/-! The five transactions that take an inference of slot `0` from its start to its
invalidation. -/

def startMsg (id : ℕ) : MsgStartInference :=
  { inferenceId := id, promptHash := [], model := [], inputLength := 0, maxTokens := 0
    startedAt := 0 }

def confirmMsg (id : ℕ) : MsgConfirmStart :=
  { inferenceId := id, executorSig := [1], confirmedAt := 0 }

def finishMsg (id : ℕ) : MsgFinishInference :=
  { inferenceId := id, responseHash := [], inputTokens := 0, outputTokens := 0, executorSlot := 0
    proposerSig := [1], escrowId := [] }

def validationMsg (id : ℕ) : MsgValidation :=
  { inferenceId := id, validatorSlot := 1, valid := false, proposerSig := [2], escrowId := [] }

def voteMsg (id : ℕ) : MsgValidationVote :=
  { inferenceId := id, voterSlot := 2, voteValid := false, proposerSig := [3], escrowId := [] }

def invalidation (id : ℕ) : List DevshardTx :=
  [.startInference (startMsg id), .confirmStart (confirmMsg id), .finishInference (finishMsg id),
    .validation (validationMsg id), .validationVote (voteMsg id)]

/-- Every third nonce is an inference of slot `0`. -/
def invalidationOp (nonce : ℕ) : Op :=
  .applyLocal nonce (if nonce % 3 = 0 then invalidation nonce else [])

/-- The live inferences after `n` nonces. -/
def wrapLive : ℕ → OrdMap ℕ InferenceRecord
  | 0 => ∅
  | n + 1 =>
    if (n + 1) % 3 = 0 then (wrapLive n).insert (n + 1) invalidatedRecord else wrapLive n

def wrapEntries : ℕ → OrdMap ℕ Bytes
  | 0 => ∅
  | n + 1 =>
    if (n + 1) % 3 = 0 then
      (wrapEntries n).insert (n + 1) ((marshalInferenceEntry (n + 1) invalidatedRecord).getD [])
    else wrapEntries n

def wrapMachine (n : ℕ) : StateMachine where
  escrowID := []
  version := []
  config := normalizeSessionConfig wrapConfig wrapGroup.length
  group := wrapGroup
  balance := 0
  fees := 0
  phase := .active
  finalizeNonce := 0
  inferences := wrapLive n
  hostStats := ((∅ : OrdMap ℕ HostStats).insert 0 { invalid := UInt32.ofNat (n / 3) }).insert 1 {}
    |>.insert 2 {}
  warmKeys := ∅
  latestNonce := n
  sealedAcc := []
  userAddress := [9]
  committedEntries := wrapEntries n
  sealedNonces := ∅

theorem wrapMachine_ok :
    newStateMachine [] wrapConfig wrapGroup 0 [9] [] = .ok (wrapMachine 0) := rfl

theorem wrapLive_get? {n id : ℕ} {r : InferenceRecord} (h : (wrapLive n).get? id = some r) :
    id ≤ n ∧ r = invalidatedRecord := by
  induction n with
  | zero => cases h
  | succ n ih =>
    unfold wrapLive at h
    split at h
    · rw [get?_insert] at h
      split at h
      · next heq =>
        cases h
        exact ⟨heq.le, rfl⟩
      · exact ⟨(ih h).1.trans (Nat.le_succ n), (ih h).2⟩
    · exact ⟨(ih h).1.trans (Nat.le_succ n), (ih h).2⟩

theorem wrapEntries_get? {n id : ℕ} {entry : Bytes} (h : (wrapEntries n).get? id = some entry) :
    id ≤ n := by
  induction n with
  | zero => cases h
  | succ n ih =>
    unfold wrapEntries at h
    split at h
    · rw [get?_insert] at h
      split at h
      · next heq => exact heq.le
      · exact (ih h).trans (Nat.le_succ n)
    · exact (ih h).trans (Nat.le_succ n)

theorem wrapLive_count (n : ℕ) :
    (wrapLive n).sum (fun _ r => if r.executorSlot = 0 then r.isIn .invalidated else 0)
      = n / 3 := by
  induction n with
  | zero => rfl
  | succ n ih =>
    unfold wrapLive
    split
    · have hnone : (wrapLive n).get? (n + 1) = none := by
        cases h : (wrapLive n).get? (n + 1) with
        | none => rfl
        | some => have := (wrapLive_get? h).1; omega
      rw [sum_insert_of_none _ _ hnone, ih]
      have hone : (if invalidatedRecord.executorSlot = 0 then invalidatedRecord.isIn .invalidated
        else 0) = 1 := rfl
      omega
    · rw [ih]
      omega

/-- The machine within the nonce `n + 1`, when its inference has the record `r`. -/
def midMachine (n : ℕ) (r : InferenceRecord) : StateMachine :=
  { wrapMachine n with
    inferences := (wrapLive n).insert (n + 1) r
    committedEntries :=
      (wrapEntries n).insert (n + 1) ((marshalInferenceEntry (n + 1) r).getD []) }

theorem midMachine_insert (n : ℕ) (r r' : InferenceRecord) : { midMachine n r with
      inferences := (midMachine n r).inferences.insert (n + 1) r'
      committedEntries := (midMachine n r).committedEntries.insert (n + 1)
        ((marshalInferenceEntry (n + 1) r').getD []) } = midMachine n r' := by
  simp only [midMachine, insert_insert_self]

theorem midMachine_get? (n : ℕ) (r : InferenceRecord) :
    (midMachine n r).inferences.get? (n + 1) = some r :=
  get?_insert_self _ _ _

variable {n : ℕ} {w : World}

theorem marshalInferenceEntry_getD (id : ℕ) {r : InferenceRecord} (h : r.model = []) :
    marshalInferenceEntry id r = some ((marshalInferenceEntry id r).getD []) := by
  have hsome : (marshalInferenceEntry id r).isSome := by
    rw [marshalInferenceEntry_isSome, h]
    rfl
  obtain ⟨_, hentry⟩ := Option.isSome_iff_exists.mp hsome
  rw [hentry]
  rfl

theorem applyTx_of_step {sm : StateMachine} {tx : DevshardTx} {cs : List SigCheck}
    {f : World → World} (hw : w.sm = sm) (hstep : TxStep sampleEnv sm tx cs f)
    (hcold : ∀ c ∈ cs, c.recovered = sm.slotAddress c.slot) :
    applyTx sampleEnv tx w = .ok () (f w) := by
  subst hw
  refine applyTx_ok_iff.mpr ⟨cs, f, w, hstep, ?_, rfl⟩
  clear hstep
  induction cs with
  | nil => rfl
  | cons c _ ih =>
    have hc : c.run sampleEnv w = (true, w) := by
      unfold SigCheck.run acceptSigner
      rw [if_neg (not_not.mpr (hcold c (by simp)))]
    simp only [runChecks, hc]
    exact ih fun c hc => hcold c (by simp [hc])

theorem apply_startMsg (hn : (n + 1) % 3 = 0) (hw : w.sm = wrapMachine n) :
    ∃ w', applyTx sampleEnv (.startInference (startMsg (n + 1))) w = .ok () w' ∧
      w'.sm = midMachine n {} := by
  have hrecord : (startMsg (n + 1)).record (wrapMachine n).group 0 = {} := by
    have hslot : executorSlotFor wrapGroup (n + 1) = 0 := by
      show ((wrapGroup[(n + 1) % 3]?).map SlotAssignment.slotID).getD 0 = 0
      rw [hn]
      rfl
    show ({ executorSlot := executorSlotFor wrapGroup (n + 1) } : InferenceRecord) = {}
    rw [hslot]
  have hnew : (wrapMachine n).isDuplicateInferenceID (n + 1) = false := by
    have hlive : (wrapLive n).get? (n + 1) = none := by
      cases h : (wrapLive n).get? (n + 1) with
      | none => rfl
      | some => have := (wrapLive_get? h).1; omega
    have hentry : (wrapEntries n).get? (n + 1) = none := by
      cases h : (wrapEntries n).get? (n + 1) with
      | none => rfl
      | some => have := wrapEntries_get? h; omega
    simp [StateMachine.isDuplicateInferenceID, wrapMachine, hlive, hentry]
  refine ⟨_, applyTx_of_step hw (.start rfl hnew rfl (UInt64.le_refl 0)
    (by rw [hrecord]; exact marshalInferenceEntry_getD (n + 1) rfl)) (by simp), ?_⟩
  rw [hrecord]
  simp only [putEntry, putInference, subBalance, hw, UInt64.sub_zero]
  rfl

theorem apply_confirmMsg (hw : w.sm = midMachine n {}) :
    ∃ w', applyTx sampleEnv (.confirmStart (confirmMsg (n + 1))) w = .ok () w' ∧
      w'.sm = midMachine n { status := .started } := by
  refine ⟨_, applyTx_of_step hw (.confirm (midMachine_get? n {}) rfl rfl rfl rfl
    (marshalInferenceEntry_getD (n + 1) rfl)) (by simp; rfl), ?_⟩
  rw [← midMachine_insert n {}, ← hw]
  rfl

theorem apply_finishMsg (hw : w.sm = midMachine n { status := .started }) :
    ∃ w', applyTx sampleEnv (.finishInference (finishMsg (n + 1))) w = .ok () w' ∧
      w'.sm = midMachine n { status := .finished } := by
  refine ⟨_, applyTx_of_step hw (.finish (midMachine_get? n _) rfl rfl
    ⟨_, rfl, rfl, fun _ => rfl⟩ rfl rfl rfl (marshalInferenceEntry_getD (n + 1) rfl))
    (by simp; rfl), ?_⟩
  rw [← midMachine_insert n { status := .started }]
  simp only [putEntry, putInference, addBalance, addCost,
    updateHostStats, hw]
  rfl

/-- The record after the validation by slot `1`. -/
def challengedRecord : InferenceRecord :=
  { status := .challenged, votesInvalid := 1, validatedBy := ({} : Bitmap128).set 1 }

theorem apply_validationMsg (hw : w.sm = midMachine n { status := .finished }) :
    ∃ w', applyTx sampleEnv (.validation (validationMsg (n + 1))) w = .ok () w' ∧
      w'.sm = midMachine n challengedRecord := by
  have hrecord : challengedRecord
      = recordValidation (midMachine n { status := .finished }) { status := .finished } 1 false := rfl
  refine ⟨_, applyTx_of_step hw (.validation (midMachine_get? n _) rfl Nat.one_ne_zero rfl
    (.inl rfl) ⟨_, rfl, rfl, fun _ => rfl⟩ rfl hrecord (marshalInferenceEntry_getD (n + 1) rfl))
    (by simp; rfl), ?_⟩
  rw [if_pos ⟨rfl, rfl⟩, putEntry_sm, persistLiveInferenceObsBestEffort_sm,
    ← midMachine_insert n { status := .finished }, ← hw]
  rfl

theorem apply_voteMsg (hw : w.sm = midMachine n challengedRecord) :
    ∃ w', applyTx sampleEnv (.validationVote (voteMsg (n + 1))) w = .ok () w' ∧
      w'.sm = { midMachine n invalidatedRecord with
        hostStats := (wrapMachine n).hostStats.modify 0 fun hs =>
          { hs with invalid := hs.invalid + 1 } } := by
  have hrecord : invalidatedRecord
      = { recordVote (midMachine n challengedRecord) challengedRecord 2 false with
          status := .invalidated } := rfl
  refine ⟨_, applyTx_of_step hw (.vote (midMachine_get? n _) rfl rfl rfl
    ⟨_, rfl, rfl, fun _ => rfl⟩ rfl rfl hrecord (marshalInferenceEntry_getD (n + 1) rfl))
    (by simp; rfl), ?_⟩
  have hquorum : (recordVote (midMachine n challengedRecord) challengedRecord
      (voteMsg (n + 1)).voterSlot (voteMsg (n + 1)).voteValid).votesInvalid
        > (midMachine n challengedRecord).config.voteThreshold :=
    show (1 : UInt32) < 2 by decide
  rw [if_pos hquorum, putEntry_sm,
    persistLiveInferenceObsBestEffort_sm, ← midMachine_insert n challengedRecord]
  have hfree : challengedRecord.actualCost = 0 := rfl
  have hcost : ∀ cost : UInt64, (if cost < 0 then 0 else cost - 0) = cost := by
    intro cost
    rw [if_neg (UInt64.not_lt.mpr UInt64.zero_le), UInt64.sub_zero]
  simp only [putInference, addBalance, refundCost, updateHostStats,
    modify_modify, hw, hfree, hcost, UInt64.add_zero]
  rfl

/-- The whole invalidation, applied at the nonce `n + 1`. -/
theorem applyTxs_invalidation {snap : MutableSnapshot} (hn : (n + 1) % 3 = 0)
    (hw : w.sm = wrapMachine n) :
    ∃ w', applyTxs sampleEnv snap (invalidation (n + 1)) w = .ok () w' ∧
      w'.sm = { wrapMachine (n + 1) with latestNonce := n } := by
  obtain ⟨_, h₁, hw₁⟩ := apply_startMsg hn hw
  obtain ⟨_, h₂, hw₂⟩ := apply_confirmMsg hw₁
  obtain ⟨_, h₃, hw₃⟩ := apply_finishMsg hw₂
  obtain ⟨_, h₄, hw₄⟩ := apply_validationMsg hw₃
  obtain ⟨w₅, h₅, hw₅⟩ := apply_voteMsg hw₄
  refine ⟨w₅, ?_, ?_⟩
  · simp only [invalidation, applyTxs, h₁, h₂, h₃, h₄, h₅, orRestore]
  have hcount : UInt32.ofNat (n / 3) + 1 = UInt32.ofNat ((n + 1) / 3) := by
    rw [show (n + 1) / 3 = n / 3 + 1 by omega, UInt32.ofNat_add]
    rfl
  rw [hw₅, midMachine]
  simp only [wrapMachine, wrapLive, wrapEntries, if_pos hn, ← hcount]
  rfl

theorem stateClock_wrap {st : EscrowState} (h : st.inferences = wrapLive n) : stateClock st = 0 := by
  have hfold : ∀ l : List (ℕ × InferenceRecord), (∀ e ∈ l, e.2 = invalidatedRecord) →
      l.foldl (fun (clock : Int64) e =>
        if e.2.confirmedAt ≤ 0 then clock
        else if clock = 0 then e.2.confirmedAt
        else if e.2.confirmedAt > clock then e.2.confirmedAt else clock) 0 = 0 := by
    intro l hl
    induction l with
    | nil => rfl
    | cons e l ih =>
      rw [foldl_cons, hl e (by simp)]
      exact ih fun e he => hl e (by simp [he])
  refine hfold _ fun e he => ?_
  have hmem := mem_of_mem_drop he
  rw [h] at hmem
  exact (wrapLive_get? (get?_eq_some_iff.mpr hmem)).2

/-- Closing a nonce of the run only counts it: there are no fees, and without
confirmation times nothing is sealed. -/
theorem closeNonce_wrap (snap : MutableSnapshot)
    (hw : w.sm = { wrapMachine (n + 1) with latestNonce := n }) :
    ∃ root w', closeNonce sampleEnv (n + 1) snap w = .ok root w' ∧ w'.sm = wrapMachine (n + 1) := by
  have hphase : w.sm.phase = .active := by rw [hw]; rfl
  have hfee : chargeFee w = .ok () ((w.subBalance 0).addFees 0) := by
    have hprice : w.sm.config.feePerNonce = 0 := by rw [hw]; rfl
    rw [chargeFee, if_pos hphase, hprice, if_neg (UInt64.not_lt.mpr UInt64.zero_le)]
  have hsm : ((w.subBalance 0).addFees 0).sm = w.sm := by
    simp [subBalance, addFees]
  generalize (w.subBalance 0).addFees 0 = w₁ at hfee hsm
  have hphase₁ : w₁.sm.phase = .active := by rw [hsm, hphase]
  have hadvance : advanceNonce (n + 1) w₁ = { w₁ with sm.latestNonce := n + 1 } :=
    if_neg (by simp [hphase₁])
  have hsettle : enterSettlement sampleEnv { w₁ with sm.latestNonce := n + 1 }
      = .ok () { w₁ with sm.latestNonce := n + 1 } := if_neg (by simp [hphase₁])
  have hclock : stateClock ({ w₁ with sm.latestNonce := n + 1 } : World).sm.toEscrowState = 0 :=
    stateClock_wrap (n := n + 1) (by rw [hsm, hw]; rfl)
  have hseal : sealAtInterval sampleEnv (n + 1) { w₁ with sm.latestNonce := n + 1 }
      = .ok () { w₁ with sm.latestNonce := n + 1 } := by
    unfold sealAtInterval autoSeal
    split_ifs <;> rfl
  have hroot : (computeStateRoot
      ({ w₁ with sm.latestNonce := n + 1 } : World).sm.toEscrowState).isSome := by
    refine computeStateRoot_isSome fun e he => ?_
    rw [hsm, hw] at he
    rw [(wrapLive_get? (get?_eq_some_iff.mpr he)).2]
    rfl
  obtain ⟨root, hroot⟩ := Option.isSome_iff_exists.mp hroot
  refine ⟨root, { w₁ with sm.latestNonce := n + 1 }, ?_, ?_⟩
  · simp only [closeNonce, hfee, orRestore, hadvance, hsettle, hseal, stateRoot, hroot]
  · rw [hsm, hw]
    rfl

theorem runOp_invalidationOp {d : Driver} (hd : d.world.sm = wrapMachine n) :
    (runOp sampleEnv (invalidationOp (n + 1)) d).world.sm = wrapMachine (n + 1) := by
  have hnonce : d.world.sm.latestNonce = n := by rw [hd]; rfl
  have hcheck : checkDiff d.world.sm.latestNonce (n + 1)
      (if (n + 1) % 3 = 0 then invalidation (n + 1) else []) = .ok () := by
    rw [checkDiff, hnonce, if_neg (by simp)]
    split
    · simp [checkStarts, invalidation, DevshardTx.getStartInference, startMsg]
    · rfl
  have htxs : ∃ w', applyTxs sampleEnv d.world.sm.snapshotMutable
      (if (n + 1) % 3 = 0 then invalidation (n + 1) else []) d.world = .ok () w' ∧
        w'.sm = { wrapMachine (n + 1) with latestNonce := n } := by
    split
    · next hn => exact applyTxs_invalidation hn hd
    next hn =>
    refine ⟨d.world, rfl, ?_⟩
    rw [hd]
    simp only [wrapMachine, wrapLive, wrapEntries, if_neg hn, show (n + 1) / 3 = n / 3 by omega]
  obtain ⟨_, htxs, hw'⟩ := htxs
  obtain ⟨root, w'', hclose, hw''⟩ := closeNonce_wrap d.world.sm.snapshotMutable hw'
  have hrun : applyLocal sampleEnv (n + 1)
      (if (n + 1) % 3 = 0 then invalidation (n + 1) else []) d.world = .ok root w'' := by
    simp only [applyLocal, applyCore, hcheck, htxs, hclose]
    rfl
  show (applyLocal sampleEnv (n + 1)
    (if (n + 1) % 3 = 0 then invalidation (n + 1) else []) d.world).world.sm = _
  rw [hrun]
  exact hw''

theorem runOps_invalidationOp (n : ℕ) :
    (runOps sampleEnv ((List.range n).map fun i => invalidationOp (i + 1))
      (Driver.new (wrapMachine 0))).world.sm = wrapMachine n := by
  induction n with
  | zero => rfl
  | succ n ih =>
    rw [range_succ, map_append, runOps, foldl_append]
    exact runOp_invalidationOp ih

/-- **The counter wraps.**  A run in which `2 ^ 32` inferences of slot `0` are live
and invalidated, and the counter of the slot is back at zero. -/
theorem invalid_counter_wraps :
    validateGroup wrapGroup ∧
    newStateMachine [] wrapConfig wrapGroup 0 [9] [] = .ok (wrapMachine 0) ∧
    ∃ ops,
      let sm := (runOps sampleEnv ops (Driver.new (wrapMachine 0))).world.sm
      sm.inferences.sum (fun _ r => if r.executorSlot = 0 then r.isIn .invalidated else 0) = 2 ^ 32 ∧
      (sm.hostStats.get? 0).map HostStats.invalid = some 0 := by
  refine ⟨by decide, wrapMachine_ok,
    (List.range (3 * 2 ^ 32)).map fun i => invalidationOp (i + 1), ?_⟩
  have hcount : 3 * 2 ^ 32 / 3 = 2 ^ 32 := Nat.mul_div_cancel_left _ (by decide)
  generalize 3 * 2 ^ 32 = n at hcount
  rw [runOps_invalidationOp n]
  constructor
  · show (wrapLive n).sum _ = _
    rw [wrapLive_count, hcount]
  · show some (UInt32.ofNat (n / 3)) = some 0
    rw [hcount]
    rfl

end Devshard
