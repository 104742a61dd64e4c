/-
The data model of a devshard session (`devshard/types`).

An escrow session is served by a group of slots; the user advances it by signed
diffs, each a list of transactions at the next nonce.  This module has the
records the state machine works on, the transactions, the errors, the
validator bitmap and the session configuration.

Conventions: amounts, token counts and prices are `UInt64` and per-host counters
are `UInt32`, as in the code; nonces, inference ids and slot ids are natural
numbers (a nonce counts the applied diffs one by one, and an inference id is the
nonce that started it); a Go string is its sequence of bytes.

Main result: `Bitmap128.isSet_set`.
-/
import Gonka.Lib.OrdMap
import Gonka.Lib.Wire

namespace Devshard

abbrev Address := Bytes

/-! ### Sessions and inferences -/

inductive SessionPhase where
  | active
  | finalizing
  | settlement
  deriving DecidableEq, Repr

def SessionPhase.toByte : SessionPhase → UInt8
  | .active => 0
  | .finalizing => 1
  | .settlement => 2

inductive InferenceStatus where
  | pending
  | started
  | finished
  | challenged
  | validated
  | invalidated
  | timedOut
  deriving DecidableEq, Repr

def InferenceStatus.code : InferenceStatus → ℕ
  | .pending => 0
  | .started => 1
  | .finished => 2
  | .challenged => 3
  | .validated => 4
  | .invalidated => 5
  | .timedOut => 6

def maxGroupSize : ℕ := 128

structure Bitmap128 where
  word0 : UInt64 := 0
  word1 : UInt64 := 0
  deriving DecidableEq, Repr

namespace Bitmap128

/-- Set the bit at position `bit`; no effect from `maxGroupSize` on. -/
def set (b : Bitmap128) (bit : ℕ) : Bitmap128 :=
  if bit ≥ maxGroupSize then b
  else if bit / 64 = 0 then { b with word0 := b.word0 ||| (1 <<< UInt64.ofNat (bit % 64)) }
  else { b with word1 := b.word1 ||| (1 <<< UInt64.ofNat (bit % 64)) }

/-- Whether the bit at position `bit` is set; false from `maxGroupSize` on. -/
def isSet (b : Bitmap128) (bit : ℕ) : Bool :=
  if bit ≥ maxGroupSize then false
  else if bit / 64 = 0 then (b.word0 >>> UInt64.ofNat (bit % 64)) &&& 1 == 1
  else (b.word1 >>> UInt64.ofNat (bit % 64)) &&& 1 == 1

def bytes (b : Bitmap128) : Bytes :=
  (Wire.beBytes 8 b.word0.toNat).reverse ++ (Wire.beBytes 8 b.word1.toNat).reverse

end Bitmap128

structure InferenceRecord where
  status : InferenceStatus := .pending
  executorSlot : ℕ := 0
  model : Bytes := []
  promptHash : Bytes := []
  responseHash : Bytes := []
  inputLength : UInt64 := 0
  maxTokens : UInt64 := 0
  inputTokens : UInt64 := 0
  outputTokens : UInt64 := 0
  reservedCost : UInt64 := 0
  actualCost : UInt64 := 0
  startedAt : Int64 := 0
  confirmedAt : Int64 := 0
  votesValid : UInt32 := 0
  votesInvalid : UInt32 := 0
  validatedBy : Bitmap128 := {}
  deriving DecidableEq

structure HostStats where
  missed : UInt32 := 0
  invalid : UInt32 := 0
  cost : UInt64 := 0
  requiredValidations : UInt32 := 0
  completedValidations : UInt32 := 0
  deriving DecidableEq

structure SlotAssignment where
  slotID : ℕ
  validatorAddress : Address
  deriving DecidableEq

/-- The session parameters the state machine reads. -/
structure SessionConfig where
  tokenPrice : UInt64
  createDevshardFee : UInt64
  feePerNonce : UInt64
  voteThreshold : UInt32
  inferenceSealGraceNonces : ℕ
  inferenceSealGraceSeconds : ℕ
  autoSealEveryNNonces : ℕ
  deriving DecidableEq

/-- `types.EscrowState`: the full state of a session. -/
structure EscrowState where
  escrowID : Bytes
  /-- The protocol tag stamped at creation, hashed into every state root. -/
  version : Bytes
  config : SessionConfig
  group : List SlotAssignment
  balance : UInt64
  /-- Total fees collected: the creation fee and one fee per active nonce. -/
  fees : UInt64
  phase : SessionPhase
  finalizeNonce : ℕ
  inferences : OrdMap ℕ InferenceRecord
  hostStats : OrdMap ℕ HostStats
  /-- Slot to warm-key address, filled in as signatures are checked. -/
  warmKeys : OrdMap ℕ Address
  latestNonce : ℕ
  /-- The accumulator over sealed inferences: empty or 32 bytes. -/
  sealedAcc : Bytes
  deriving DecidableEq

/-! ### Transactions and diffs -/

/-- The proto enum is open: a wire value outside the declared ones decodes to
itself. -/
inductive TimeoutReason where
  | unspecified
  | refused
  | execution
  | unrecognized (code : Int32)
  deriving DecidableEq

structure MsgStartInference where
  inferenceId : ℕ
  promptHash : Bytes
  model : Bytes
  inputLength : UInt64
  maxTokens : UInt64
  startedAt : Int64
  deriving DecidableEq

structure MsgConfirmStart where
  inferenceId : ℕ
  executorSig : Bytes
  confirmedAt : Int64
  deriving DecidableEq

structure MsgFinishInference where
  inferenceId : ℕ
  responseHash : Bytes
  inputTokens : UInt64
  outputTokens : UInt64
  executorSlot : ℕ
  proposerSig : Bytes
  escrowId : Bytes
  deriving DecidableEq

structure TimeoutVote where
  voterSlot : ℕ
  accept : Bool
  signature : Bytes
  deriving DecidableEq

structure MsgTimeoutInference where
  inferenceId : ℕ
  reason : TimeoutReason
  votes : List TimeoutVote
  deriving DecidableEq

structure MsgValidation where
  inferenceId : ℕ
  validatorSlot : ℕ
  valid : Bool
  proposerSig : Bytes
  escrowId : Bytes
  deriving DecidableEq

structure MsgValidationVote where
  inferenceId : ℕ
  voterSlot : ℕ
  voteValid : Bool
  proposerSig : Bytes
  escrowId : Bytes
  deriving DecidableEq

structure MsgRevealSeed where
  slotId : ℕ
  signature : Bytes
  proposerSig : Bytes
  escrowId : Bytes
  deriving DecidableEq

/-- The oneof of the eight transaction kinds; `empty` is a transaction with no
message set. -/
inductive DevshardTx where
  | startInference (msg : MsgStartInference)
  | confirmStart (msg : MsgConfirmStart)
  | finishInference (msg : MsgFinishInference)
  | timeoutInference (msg : MsgTimeoutInference)
  | validation (msg : MsgValidation)
  | validationVote (msg : MsgValidationVote)
  | revealSeed (msg : MsgRevealSeed)
  | finalizeRound
  | empty
  deriving DecidableEq

def DevshardTx.getStartInference : DevshardTx → Option MsgStartInference
  | .startInference msg => some msg
  | _ => none

structure Diff where
  nonce : ℕ
  txs : List DevshardTx
  userSig : Bytes
  postStateRoot : Bytes
  deriving DecidableEq

/-- The status an operation asked for, in the words of its error. -/
inductive WantedStatus where
  | pending
  | started
  | finishedOrLater
  | challenged
  deriving DecidableEq

inductive Marshalled where
  | diffContent
  | inferenceEntry
  | executorReceipt
  | proposerSig
  | timeoutVote
  deriving DecidableEq

/-- The errors the state machine returns, with the values their texts show. -/
inductive Err where
  | invalidNonce (expected got : ℕ)
  | invalidUserSig
  | wrongUserSig (expected got : Address)
  | invalidProposerSig
  | wrongProposerSig (expected got : Address)
  | invalidExecutorSig
  | wrongExecutorSig (expected : Address) (slot : ℕ) (got : Address)
  | insufficientBalance
  | multipleStartMsgs
  | sessionFinalizing
  | inferenceNotFound (id : ℕ)
  | inferenceSealed (id : ℕ)
  | sealedTransition (id : ℕ)
  | invalidTransition (wanted : WantedStatus) (got : InferenceStatus)
  | selfValidation
  | wrongExecutorSlot (expected got : ℕ)
  | insufficientVotes (threshold accepted : UInt32)
  | invalidTimeoutReason (reason : TimeoutReason) (got : InferenceStatus)
  | duplicateVote (slot : ℕ)
  | duplicateAddressVote (slot : ℕ) (address : Address) (existingSlot : ℕ)
  | alreadyFinalizing
  | emptyTx
  | duplicateInferenceID
  | invalidVoteSig (slot : ℕ)
  | wrongVoteSig (slot : ℕ) (expected got : Address)
  | invalidInferenceID
  | costOverflow
  | slotNotInGroup (slot : ℕ)
  | postStateRootMismatch (diff computed : Bytes)
  | escrowIDMismatch (expected got : Bytes)
  /-- The protobuf marshaller refuses the message. -/
  | marshal (msg : Marshalled)
  /-- `mandatory start inference: …` -/
  | mandatoryStart (cause : Err)
  /-- `persist sealed inference … during drain: …` -/
  | persistSealed (id : ℕ)
  /-- `drain live inference …: …` -/
  | drainLiveInference (id : ℕ) (cause : Err)
  /-- `auto-seal inference …: …` -/
  | autoSealInference (id : ℕ) (cause : Err)
  /-- `drain live into sealed_acc: …` -/
  | drain (cause : Err)
  /-- `auto-seal: …` -/
  | autoSeal (cause : Err)
  /-- `compute state root: …` -/
  | stateRoot (cause : Err)
  deriving DecidableEq

namespace Bitmap128

private theorem shift_amount {i : ℕ} (hi : i < 64) : (UInt64.ofNat i).toNat % 64 = i := by
  rw [UInt64.toNat_ofNat']
  omega

private theorem word_bit (w : UInt64) (i : ℕ) (hi : i < 64) :
    ((w >>> UInt64.ofNat i) &&& 1 == 1) = w.toNat.testBit i := by
  have hmod := shift_amount hi
  have hval : ((w >>> UInt64.ofNat i) &&& 1).toNat = (w.toNat.testBit i).toNat := by
    rw [UInt64.toNat_and, UInt64.toNat_shiftRight, hmod, UInt64.toNat_one, Nat.testBit,
      Nat.and_one_is_mod, Nat.one_and_eq_mod_two]
    rcases Nat.mod_two_eq_zero_or_one (w.toNat >>> i) with h | h <;> simp [h]
  cases hb : w.toNat.testBit i
  · rw [hb] at hval
    rw [beq_eq_false_iff_ne]
    intro heq
    rw [heq] at hval
    simp at hval
  · rw [hb] at hval
    rw [beq_iff_eq]
    exact UInt64.toNat_inj.mp (by simpa using hval)

private theorem word_set (w : UInt64) (i j : ℕ) (hi : i < 64) :
    (w ||| (1 <<< UInt64.ofNat i)).toNat.testBit j = (w.toNat.testBit j || decide (i = j)) := by
  have hmod := shift_amount hi
  have hone : ((1 : UInt64) <<< UInt64.ofNat i).toNat = 2 ^ i := by
    rw [UInt64.toNat_shiftLeft, hmod, UInt64.toNat_one, Nat.one_shiftLeft]
    exact Nat.mod_eq_of_lt (Nat.pow_lt_pow_right (by omega) hi)
  rw [UInt64.toNat_or, hone, Nat.testBit_or, Nat.testBit_two_pow]

/-- **The bitmap is a set of slots**: setting a bit below `128` adds exactly
that slot. -/
theorem isSet_set (b : Bitmap128) {i : ℕ} (j : ℕ) (hi : i < maxGroupSize) :
    (b.set i).isSet j = (b.isSet j || decide (i = j)) := by
  unfold maxGroupSize at hi
  by_cases hj : j ≥ 128
  · have hij : i ≠ j := by omega
    simp [isSet, maxGroupSize, hj, hij]
  have hni : ¬ i ≥ 128 := by omega
  simp only [set, isSet, maxGroupSize, ge_iff_le, if_neg hj, if_neg hni]
  by_cases h0 : i / 64 = 0 <;> by_cases h1 : j / 64 = 0
  · have hmods : i % 64 = j % 64 ↔ i = j := by omega
    simp only [if_pos h0, if_pos h1]
    rw [word_bit _ _ (Nat.mod_lt _ (by omega)), word_bit _ _ (Nat.mod_lt _ (by omega)),
      word_set _ _ _ (Nat.mod_lt _ (by omega))]
    simp [hmods]
  · have hij : i ≠ j := by omega
    simp only [if_pos h0, if_neg h1, hij, decide_false, Bool.or_false]
  · have hij : i ≠ j := by omega
    simp only [if_neg h0, if_pos h1, hij, decide_false, Bool.or_false]
  · have hmods : i % 64 = j % 64 ↔ i = j := by omega
    simp only [if_neg h0, if_neg h1]
    rw [word_bit _ _ (Nat.mod_lt _ (by omega)), word_bit _ _ (Nat.mod_lt _ (by omega)),
      word_set _ _ _ (Nat.mod_lt _ (by omega))]
    simp [hmods]

end Bitmap128

/-! ### Groups and configuration -/

/-- `types.ValidateGroup`: the group is not empty, has at most `maxGroupSize`
slots, and numbers them by position. -/
def validateGroup (group : List SlotAssignment) : Bool :=
  group.length ≠ 0 && group.length ≤ maxGroupSize
    && (group.zipIdx.all fun p => p.1.slotID == p.2)

variable {group : List SlotAssignment} {s : SlotAssignment}

section

variable (h : validateGroup group)
include h

theorem validateGroup_pos : 0 < group.length := by
  simp only [validateGroup, Bool.and_eq_true, decide_eq_true_eq] at h
  omega

theorem validateGroup_le : group.length ≤ maxGroupSize := by
  simp only [validateGroup, Bool.and_eq_true, decide_eq_true_eq] at h
  exact h.1.2

theorem validateGroup_getElem {i : ℕ} (hi : group[i]? = some s) : s.slotID = i := by
  simp only [validateGroup, Bool.and_eq_true, List.all_eq_true, beq_iff_eq] at h
  exact h.2 (s, i) (List.mem_zipIdx_iff_getElem?.mpr (by simpa using hi))

theorem validateGroup_nodup : (group.map SlotAssignment.slotID).Nodup := by
  have hids : group.map SlotAssignment.slotID = List.range group.length := by
    refine List.ext_getElem (by simp) fun i hi hi' => ?_
    have hg : group[i]? = some (group.get ⟨i, by simpa using hi⟩) := by simp
    simpa using validateGroup_getElem h hg
  rw [hids]
  exact List.nodup_range

theorem validateGroup_slotID_lt (hs : s ∈ group) : s.slotID < group.length := by
  obtain ⟨i, hi, rfl⟩ := List.mem_iff_getElem.mp hs
  rw [validateGroup_getElem h (List.getElem?_eq_getElem hi)]
  exact hi

theorem validateGroup_lt (hs : s ∈ group) : s.slotID < maxGroupSize :=
  (validateGroup_slotID_lt h hs).trans_le (validateGroup_le h)

end

def defaultInferenceSealGraceNonces (groupSize : ℕ) : ℕ := max groupSize 20

def defaultInferenceSealGraceSeconds : ℕ := 3600

def defaultAutoSealEveryNNonces : ℕ := 150

/-- `NormalizeSessionConfig`: fields whose zero value means "use the canonical
default" are filled in once, at creation. -/
def normalizeSessionConfig (cfg : SessionConfig) (groupSize : ℕ) : SessionConfig :=
  { cfg with
    inferenceSealGraceNonces :=
      if cfg.inferenceSealGraceNonces = 0 then defaultInferenceSealGraceNonces groupSize
      else cfg.inferenceSealGraceNonces
    inferenceSealGraceSeconds :=
      if cfg.inferenceSealGraceSeconds = 0 then defaultInferenceSealGraceSeconds
      else cfg.inferenceSealGraceSeconds
    autoSealEveryNNonces :=
      if cfg.autoSealEveryNNonces = 0 then defaultAutoSealEveryNNonces
      else cfg.autoSealEveryNNonces }

end Devshard
