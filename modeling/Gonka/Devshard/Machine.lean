/-
The state machine of a session and the world it acts on (`devshard/state/machine.go`).

A `StateMachine` is the escrow state together with the two side maps that
survive a diff: the canonical entries of the live inferences and the seal nonces
of the evicted ones.  A `World` adds what a call reaches outside the machine:
the observability store, the warm-key resolver, and the buffer that redirects
store writes during a trial apply.

Store and resolver are parameters (`Env`).  Both answer as functions of the
calls made before, so that every pattern of failures and of changing answers is
some environment.

The amounts of a session are `UInt64` and every operation on them may wrap;
`World.wrapped` is a ghost flag that records whether one ever did.  Nothing in
the program reads it.
-/
import Gonka.Devshard.Hash

namespace Devshard

open Wire

structure StateMachine extends EscrowState where
  userAddress : Address
  /-- Canonical entry bytes, by inference id. -/
  committedEntries : OrdMap ℕ Bytes
  /-- The nonce at which each evicted inference was sealed. -/
  sealedNonces : OrdMap ℕ ℕ
  deriving DecidableEq

def EscrowState.slotToAddress (st : EscrowState) : OrdMap ℕ Address :=
  st.group.foldl (fun m s => m.insert s.slotID s.validatorAddress) ∅

/-- The address a lookup in `slotToAddress` yields: empty when the slot is not
in the group. -/
def EscrowState.slotAddress (st : EscrowState) (slot : ℕ) : Address :=
  (st.slotToAddress.get? slot).getD []

def EscrowState.addressToSlotCount (st : EscrowState) (addr : Address) : UInt32 :=
  UInt32.ofNat (st.group.countP fun s => s.validatorAddress = addr)

/-- `addressToSlots`: the slots of an address, ascending. -/
def EscrowState.addressToSlots (st : EscrowState) (addr : Address) : List ℕ :=
  (st.slotToAddress.entries.filter fun e => e.2 = addr).map Prod.fst

theorem EscrowState.slotToAddress_get? {st : EscrowState} (hg : validateGroup st.group)
    {slot : ℕ} {addr : Address} : st.slotToAddress.get? slot = some addr ↔
      ∃ s ∈ st.group, s.slotID = slot ∧ s.validatorAddress = addr := by
  unfold EscrowState.slotToAddress
  rw [OrdMap.get?_foldl_insert SlotAssignment.slotID SlotAssignment.validatorAddress
    (validateGroup_nodup hg)]
  simp

theorem EscrowState.mem_addressToSlots {st : EscrowState} {addr : Address} {slot : ℕ} :
    slot ∈ st.addressToSlots addr ↔ st.slotToAddress.get? slot = some addr := by
  unfold EscrowState.addressToSlots
  rw [OrdMap.get?_eq_some_iff, List.mem_map]
  constructor
  · rintro ⟨_, hmem, rfl⟩
    obtain ⟨_, haddr⟩ := List.mem_filter.mp hmem
    rwa [← of_decide_eq_true haddr]
  · intro hmem
    exact ⟨(slot, addr), List.mem_filter.mpr ⟨hmem, by simp⟩, rfl⟩

/-- `NewStateMachine`: the creation fee is charged at once. -/
def newStateMachine (escrowID : Bytes) (config : SessionConfig) (group : List SlotAssignment)
    (balance : UInt64) (userAddress : Address) (version : Bytes) : Except Err StateMachine :=
  let config := normalizeSessionConfig config group.length
  if balance < config.createDevshardFee then .error .insufficientBalance
  else .ok
    { escrowID, version, config, group, userAddress
      balance := balance - config.createDevshardFee
      fees := config.createDevshardFee
      phase := .active
      finalizeNonce := 0
      inferences := ∅
      hostStats := group.foldl (fun m s => m.insert s.slotID {}) ∅
      warmKeys := ∅
      latestNonce := 0
      sealedAcc := []
      committedEntries := ∅
      sealedNonces := ∅ }

structure MutableSnapshot where
  balance : UInt64
  fees : UInt64
  phase : SessionPhase
  finalizeNonce : ℕ
  latestNonce : ℕ
  inferences : OrdMap ℕ InferenceRecord
  committed : OrdMap ℕ Bytes
  hostStats : OrdMap ℕ HostStats
  warmKeys : OrdMap ℕ Address
  sealedAcc : Bytes
  sealedNonces : OrdMap ℕ ℕ
  deriving DecidableEq

def StateMachine.snapshotMutable (sm : StateMachine) : MutableSnapshot where
  balance := sm.balance
  fees := sm.fees
  phase := sm.phase
  finalizeNonce := sm.finalizeNonce
  latestNonce := sm.latestNonce
  inferences := sm.inferences
  committed := sm.committedEntries
  hostStats := sm.hostStats
  warmKeys := sm.warmKeys
  sealedAcc := sm.sealedAcc
  sealedNonces := sm.sealedNonces

def StateMachine.restoreMutable (sm : StateMachine) (snap : MutableSnapshot) : StateMachine :=
  { sm with
    balance := snap.balance
    fees := snap.fees
    phase := snap.phase
    finalizeNonce := snap.finalizeNonce
    latestNonce := snap.latestNonce
    inferences := snap.inferences
    committedEntries := snap.committed
    hostStats := snap.hostStats
    warmKeys := snap.warmKeys
    sealedAcc := snap.sealedAcc
    sealedNonces := snap.sealedNonces }

def StateMachine.isDuplicateInferenceID (sm : StateMachine) (id : ℕ) : Bool :=
  (sm.inferences.get? id).isSome || (sm.committedEntries.get? id).isSome
    || (sm.sealedNonces.get? id).isSome

/-- Whether an id is known but no longer live. -/
def StateMachine.isInferenceEvictedFromLive (sm : StateMachine) (id : ℕ) : Bool :=
  if (sm.inferences.get? id).isSome then false
  else (sm.committedEntries.get? id).isSome || (sm.sealedNonces.get? id).isSome

/-- Two states of one session: what no operation changes. -/
structure SameSession (sm sm' : StateMachine) : Prop where
  escrowID : sm'.escrowID = sm.escrowID
  version : sm'.version = sm.version
  config : sm'.config = sm.config
  group : sm'.group = sm.group
  userAddress : sm'.userAddress = sm.userAddress

@[simp] theorem SameSession.refl (sm : StateMachine) : SameSession sm sm := ⟨rfl, rfl, rfl, rfl, rfl⟩

theorem SameSession.symm {sm sm' : StateMachine} (h : SameSession sm sm') : SameSession sm' sm :=
  ⟨h.escrowID.symm, h.version.symm, h.config.symm, h.group.symm, h.userAddress.symm⟩

theorem SameSession.trans {sm sm₁ sm₂ : StateMachine} (h : SameSession sm sm₁)
    (h' : SameSession sm₁ sm₂) : SameSession sm sm₂ where
  escrowID := h'.escrowID.trans h.escrowID
  version := h'.version.trans h.version
  config := h'.config.trans h.config
  group := h'.group.trans h.group
  userAddress := h'.userAddress.trans h.userAddress

/-- **The snapshot holds everything that can change**: restored within the same
session, it gives the machine back. -/
theorem restoreMutable_snapshotMutable {sm sm' : StateMachine} (h : SameSession sm sm') :
    sm'.restoreMutable sm.snapshotMutable = sm := by
  obtain ⟨h1, h2, h3, h4, h5⟩ := h
  simp only [StateMachine.restoreMutable, StateMachine.snapshotMutable] at *
  rw [h1, h2, h3, h4, h5]

/-! ### The world around it -/

/-- `storage.InferenceRow`: the observability row of an inference. -/
structure InferenceRow where
  inferenceID : ℕ
  sealedNonce : ℕ
  obsPresent : Bool
  sealedStatus : ℕ
  sealedExecutorSlot : ℕ
  sealedVotesValid : UInt32
  sealedVotesInvalid : UInt32
  sealedValidatedBy : Bytes
  sealedModel : Bytes
  sealedPromptHash : Bytes
  sealedResponseHash : Bytes
  sealedInputLength : UInt64
  sealedMaxTokens : UInt64
  sealedInputTokens : UInt64
  sealedOutputTokens : UInt64
  sealedReservedCost : UInt64
  sealedActualCost : UInt64
  sealedStartedAt : Int64
  sealedConfirmedAt : Int64
  deriving DecidableEq

def inferenceObsRow (id sealedNonce : ℕ) (r : InferenceRecord) : InferenceRow where
  inferenceID := id
  sealedNonce := sealedNonce
  obsPresent := true
  sealedStatus := r.status.code
  sealedExecutorSlot := r.executorSlot
  sealedVotesValid := r.votesValid
  sealedVotesInvalid := r.votesInvalid
  sealedValidatedBy := r.validatedBy.bytes
  sealedModel := r.model
  sealedPromptHash := r.promptHash
  sealedResponseHash := r.responseHash
  sealedInputLength := r.inputLength
  sealedMaxTokens := r.maxTokens
  sealedInputTokens := r.inputTokens
  sealedOutputTokens := r.outputTokens
  sealedReservedCost := r.reservedCost
  sealedActualCost := r.actualCost
  sealedStartedAt := r.startedAt
  sealedConfirmedAt := r.confirmedAt

/-- The writes the machine issues to the inference store. -/
inductive StoreCall where
  | insertSealedInference (escrowID : Bytes) (row : InferenceRow)
  | drainInferenceValidationObs (escrowID : Bytes) (id : ℕ)
  deriving DecidableEq

/-- `deferredObsWrite`: a store write captured during a trial apply. -/
structure DeferredObsWrite where
  id : ℕ
  row : InferenceRow
  drain : Bool
  deriving DecidableEq

/-- What a machine is given: signature recovery, the warm-key resolver and the
inference store. -/
structure Env where
  /-- `RecoverAddress`: the signer of a message, unless the signature is malformed. -/
  recoverAddress : Bytes → Bytes → Option Address
  /-- Whether a warm address may act for a cold one, given the earlier queries;
  an error counts as a refusal. -/
  warmResolver : Option (List (Address × Address) → Address → Address → Bool)
  /-- Whether the store accepts a call, given the earlier ones. -/
  store : List StoreCall → StoreCall → Bool

/-- A machine with the traces of its outside calls. -/
structure World where
  sm : StateMachine
  /-- The buffer that store writes go to during a trial apply. -/
  obsDeferred : Option (List DeferredObsWrite) := none
  storeCalls : List StoreCall := []
  warmQueries : List (Address × Address) := []
  /-- Ghost: an operation on an amount wrapped, or a cost was clamped. -/
  wrapped : Bool := false
  deriving DecidableEq

/-- The result of a fallible call, with the world it leaves in either case. -/
abbrev Outcome (α : Type) := EStateM.Result Err World α

def Outcome.world {α : Type} : Outcome α → World
  | .ok _ w => w
  | .error _ w => w

@[simp] theorem Outcome.world_ok {α : Type} (a : α) (w : World) :
    Outcome.world (.ok a w) = w := rfl

namespace World

def restore (w : World) (snap : MutableSnapshot) : World :=
  { w with sm := w.sm.restoreMutable snap }

def addBalance (w : World) (x : UInt64) : World :=
  { w with
    sm.balance := w.sm.balance + x
    wrapped := w.wrapped || decide (2 ^ 64 ≤ w.sm.balance.toNat + x.toNat) }

def subBalance (w : World) (x : UInt64) : World :=
  { w with
    sm.balance := w.sm.balance - x
    wrapped := w.wrapped || decide (w.sm.balance.toNat < x.toNat) }

def addFees (w : World) (x : UInt64) : World :=
  { w with
    sm.fees := w.sm.fees + x
    wrapped := w.wrapped || decide (2 ^ 64 ≤ w.sm.fees.toNat + x.toNat) }

def cost (w : World) (slot : ℕ) : UInt64 := ((w.sm.hostStats.get? slot).map HostStats.cost).getD 0

/-- `HostStats[slot].f`: the entry of a slot of the group always exists. -/
def updateHostStats (w : World) (slot : ℕ) (f : HostStats → HostStats) : World :=
  { w with sm.hostStats := w.sm.hostStats.modify slot f }

def addCost (w : World) (slot : ℕ) (x : UInt64) : World :=
  { w.updateHostStats slot (fun hs => { hs with cost := hs.cost + x }) with
    wrapped := w.wrapped || decide (2 ^ 64 ≤ (w.cost slot).toNat + x.toNat) }

/-- `HostStats[slot].Cost -= x`, clamped at zero. -/
def refundCost (w : World) (slot : ℕ) (x : UInt64) : World :=
  { w.updateHostStats slot
      (fun hs => { hs with cost := if hs.cost < x then 0 else hs.cost - x }) with
    wrapped := w.wrapped || decide (w.cost slot < x) }

/-- `Inferences[id] = rec`, and every write through the record's pointer. -/
def putInference (w : World) (id : ℕ) (r : InferenceRecord) : World :=
  { w with sm.inferences := w.sm.inferences.insert id r }

def putEntry (w : World) (id : ℕ) (entry : Bytes) : World :=
  { w with sm.committedEntries := w.sm.committedEntries.insert id entry }

/-- `sealedNonces[id] = sealNonce` and `delete(committedEntries, id)`. -/
def markSealed (w : World) (id sealNonce : ℕ) : World :=
  { w with
    sm.committedEntries := w.sm.committedEntries.erase id
    sm.sealedNonces := w.sm.sealedNonces.insert id sealNonce }

def deleteInference (w : World) (id : ℕ) : World :=
  { w with sm.inferences := w.sm.inferences.erase id }

end World

def updateCommittedEntry (id : ℕ) (r : InferenceRecord) (w : World) : Outcome Unit :=
  match marshalInferenceEntry id r with
  | none => .error (.marshal .inferenceEntry) w
  | some entry => .ok () (w.putEntry id entry)

def callStore (env : Env) (c : StoreCall) (w : World) : Bool × World :=
  (env.store w.storeCalls c, { w with storeCalls := w.storeCalls ++ [c] })

/-- `InsertSealedInference`, followed by `DrainInferenceValidationObs` when the
row is a sealed one. -/
def writeObs (env : Env) (write : DeferredObsWrite) (w : World) : Bool × World :=
  match callStore env (.insertSealedInference w.sm.escrowID write.row) w with
  | (false, w) => (false, w)
  | (true, w) =>
    if write.drain then callStore env (.drainInferenceValidationObs w.sm.escrowID write.id) w
    else (true, w)

/-- `upsertInferenceObsLocked`: whether the write went through.  During a trial
apply it is buffered. -/
def upsertInferenceObs (env : Env) (id sealedNonce : ℕ) (r : InferenceRecord) (w : World) :
    Bool × World :=
  let write : DeferredObsWrite :=
    { id, row := inferenceObsRow id sealedNonce r, drain := sealedNonce > 0 }
  match w.obsDeferred with
  | some buf => (true, { w with obsDeferred := some (buf ++ [write]) })
  | none => writeObs env write w

def persistLiveInferenceObsBestEffort (env : Env) (id : ℕ) (r : InferenceRecord) (w : World) :
    World :=
  (upsertInferenceObs env id ((w.sm.sealedNonces.get? id).getD 0) r w).2

/-- `flushDeferredObsLocked`: replay buffered writes, whatever the store says. -/
def flushDeferredObs (env : Env) : List DeferredObsWrite → World → World
  | [], w => w
  | write :: writes, w => flushDeferredObs env writes (writeObs env write w).2

@[simp] theorem writeObs_sm (env : Env) (write : DeferredObsWrite) (w : World) :
    (writeObs env write w).2.sm = w.sm := by
  unfold writeObs callStore
  split
  · next h => rw [← (Prod.mk.inj h).2]
  · next h =>
    rw [← (Prod.mk.inj h).2]
    split <;> rfl

@[simp] theorem upsertInferenceObs_sm (env : Env) (id sealedNonce : ℕ) (r : InferenceRecord)
    (w : World) : (upsertInferenceObs env id sealedNonce r w).2.sm = w.sm := by
  unfold upsertInferenceObs
  split
  · rfl
  · exact writeObs_sm env _ w

@[simp] theorem persistLiveInferenceObsBestEffort_sm (env : Env) (id : ℕ) (r : InferenceRecord)
    (w : World) : (persistLiveInferenceObsBestEffort env id r w).sm = w.sm :=
  upsertInferenceObs_sm env id _ r w

@[simp] theorem flushDeferredObs_sm (env : Env) (writes : List DeferredObsWrite) (w : World) :
    (flushDeferredObs env writes w).sm = w.sm := by
  induction writes generalizing w with
  | nil => rfl
  | cons _ _ ih => rw [flushDeferredObs, ih, writeObs_sm]

/-- `ResolveWarmKey`: a bound slot accepts its warm key only; the first key the
resolver accepts is bound. -/
def resolveWarmKey (env : Env) (slotID : ℕ) (recovered expected : Address) (w : World) :
    Bool × World :=
  match w.sm.warmKeys.get? slotID with
  | some warm => (warm == recovered, w)
  | none =>
    match env.warmResolver with
    | none => (false, w)
    | some resolver =>
      let asked := { w with warmQueries := w.warmQueries ++ [(recovered, expected)] }
      if resolver w.warmQueries recovered expected then
        (true, { asked with sm.warmKeys := asked.sm.warmKeys.insert slotID recovered })
      else (false, asked)

def acceptSigner (env : Env) (slotID : ℕ) (recovered expected : Address) (w : World) :
    Bool × World :=
  if recovered ≠ expected then resolveWarmKey env slotID recovered expected w else (true, w)

/-- `math.MaxUint32`, the slot that skips warm keys. -/
def maxUint32 : ℕ := 4294967295

/-- `verifyProposerSig`, on a message already marshalled without its signature. -/
def verifyProposerSig (env : Env) (msgWithoutSig : Option Bytes) (sig : Bytes)
    (expectedAddress : Address) (slotID : ℕ) (w : World) : Outcome Unit :=
  match msgWithoutSig with
  | none => .error (.marshal .proposerSig) w
  | some data =>
    match env.recoverAddress data sig with
    | none => .error .invalidProposerSig w
    | some recovered =>
      if recovered ≠ expectedAddress then
        if slotID = maxUint32 then .error (.wrongProposerSig expectedAddress recovered) w
        else
          match resolveWarmKey env slotID recovered expectedAddress w with
          | (true, w) => .ok () w
          | (false, w) => .error (.wrongProposerSig expectedAddress recovered) w
      else .ok () w

def safeMul (a b : UInt64) : Option UInt64 :=
  if a = 0 ∨ b = 0 then some 0
  else if a * b / a ≠ b then none
  else some (a * b)

def safeAdd (a b : UInt64) : Option UInt64 :=
  if a + b < a then none else some (a + b)

/-- `(a + b) * price` with overflow checks. -/
def tokenCost (a b price : UInt64) : Option UInt64 :=
  (safeAdd a b).bind fun sum => safeMul sum price

end Devshard
