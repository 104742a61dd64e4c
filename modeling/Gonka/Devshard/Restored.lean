/-
Machines restored from a snapshot.

A snapshot carries the escrow state, and in its full form the committed entries
and the seal nonces.  A session that is recovered by its user restores the state
only: the committed entries are rebuilt from the live records, and the seal
nonces are lost.

Main result: `applyCore_sameUpTo`.
-/
import Gonka.Devshard.Replay

namespace Devshard

open OrdMap Option List

variable {env host : Env} {w w' v : World} {calls : List StoreCall}
  {S : OrdMap ℕ ℕ → OrdMap ℕ ℕ → Prop}

/-! ### The snapshot codec -/

def Bitmap128.ofBytes (data : Bytes) : Bitmap128 :=
  if 16 ≤ data.length then
    { word0 := UInt64.ofNat (Wire.beNat (data.take 8).reverse)
      word1 := UInt64.ofNat (Wire.beNat ((data.drop 8).take 8).reverse) }
  else {}

theorem Bitmap128.ofBytes_bytes (b : Bitmap128) : Bitmap128.ofBytes b.bytes = b := by
  have hlen : (Wire.beBytes 8 b.word0.toNat).reverse.length = 8 := by simp
  have hword : ∀ x : UInt64, UInt64.ofNat (Wire.beNat (Wire.beBytes 8 x.toNat)) = x := by
    intro x
    have hlt : x.toNat < 256 ^ 8 := x.toNat_lt
    rw [Wire.beNat_beBytes, Nat.mod_eq_of_lt hlt, UInt64.ofNat_toNat]
  unfold Bitmap128.ofBytes Bitmap128.bytes
  rw [if_pos (by simp), take_left' hlen, drop_left' hlen, take_of_length_le (by simp),
    reverse_reverse, reverse_reverse, hword, hword]

/-- `SessionPhase` of a wire value; the model has no other phases. -/
def SessionPhase.ofCode : ℕ → Option SessionPhase
  | 0 => some .active
  | 1 => some .finalizing
  | 2 => some .settlement
  | _ => none

/-- `InferenceStatus` of a wire value. -/
def InferenceStatus.ofCode : ℕ → Option InferenceStatus
  | 0 => some .pending
  | 1 => some .started
  | 2 => some .finished
  | 3 => some .challenged
  | 4 => some .validated
  | 5 => some .invalidated
  | 6 => some .timedOut
  | _ => none

structure InferenceRecordProto where
  inferenceId : ℕ
  status : ℕ
  executorSlot : ℕ
  model : Bytes
  promptHash : Bytes
  responseHash : Bytes
  inputLength : UInt64
  maxTokens : UInt64
  inputTokens : UInt64
  outputTokens : UInt64
  reservedCost : UInt64
  actualCost : UInt64
  startedAt : Int64
  confirmedAt : Int64
  votesValid : UInt32
  votesInvalid : UInt32
  validatedBy : Bytes
  deriving DecidableEq

structure HostStatsProto where
  slotId : ℕ
  missed : UInt32
  invalid : UInt32
  cost : UInt64
  requiredValidations : UInt32
  completedValidations : UInt32
  deriving DecidableEq

structure EscrowStateProto where
  escrowId : Bytes
  stateRootAndProtocolVersion : Bytes
  config : SessionConfig
  group : List SlotAssignment
  balance : UInt64
  fees : UInt64
  phase : ℕ
  finalizeNonce : ℕ
  inferences : OrdMap ℕ InferenceRecordProto
  hostStats : OrdMap ℕ HostStatsProto
  warmKeys : OrdMap ℕ Address
  latestNonce : ℕ
  sealedAcc : Bytes
  deriving DecidableEq

structure StateSnapshotProto where
  state : EscrowStateProto
  committedEntries : OrdMap ℕ Bytes
  sealedNonces : OrdMap ℕ ℕ
  deriving DecidableEq

def inferenceRecordToProto (id : ℕ) (r : InferenceRecord) : InferenceRecordProto where
  inferenceId := id
  status := r.status.code
  executorSlot := r.executorSlot
  model := r.model
  promptHash := r.promptHash
  responseHash := r.responseHash
  inputLength := r.inputLength
  maxTokens := r.maxTokens
  inputTokens := r.inputTokens
  outputTokens := r.outputTokens
  reservedCost := r.reservedCost
  actualCost := r.actualCost
  startedAt := r.startedAt
  confirmedAt := r.confirmedAt
  votesValid := r.votesValid
  votesInvalid := r.votesInvalid
  validatedBy := r.validatedBy.bytes

def inferenceRecordFromProto (msg : InferenceRecordProto) : Option InferenceRecord :=
  (InferenceStatus.ofCode msg.status).map fun status =>
    { status
      executorSlot := msg.executorSlot
      model := msg.model
      promptHash := msg.promptHash
      responseHash := msg.responseHash
      inputLength := msg.inputLength
      maxTokens := msg.maxTokens
      inputTokens := msg.inputTokens
      outputTokens := msg.outputTokens
      reservedCost := msg.reservedCost
      actualCost := msg.actualCost
      startedAt := msg.startedAt
      confirmedAt := msg.confirmedAt
      votesValid := msg.votesValid
      votesInvalid := msg.votesInvalid
      validatedBy := Bitmap128.ofBytes msg.validatedBy }

def hostStatsToProto (slotID : ℕ) (hs : HostStats) : HostStatsProto where
  slotId := slotID
  missed := hs.missed
  invalid := hs.invalid
  cost := hs.cost
  requiredValidations := hs.requiredValidations
  completedValidations := hs.completedValidations

def hostStatsFromProto (msg : HostStatsProto) : HostStats where
  missed := msg.missed
  invalid := msg.invalid
  cost := msg.cost
  requiredValidations := msg.requiredValidations
  completedValidations := msg.completedValidations

def escrowStateToProto (st : EscrowState) : EscrowStateProto where
  escrowId := st.escrowID
  stateRootAndProtocolVersion := st.version
  config := st.config
  group := st.group
  balance := st.balance
  fees := st.fees
  phase := st.phase.toByte.toNat
  finalizeNonce := st.finalizeNonce
  inferences := st.inferences.filterMap fun id r => some (inferenceRecordToProto id r)
  hostStats := st.hostStats.filterMap fun slotID hs => some (hostStatsToProto slotID hs)
  warmKeys := st.warmKeys
  latestNonce := st.latestNonce
  sealedAcc := st.sealedAcc

def escrowStateFromProto (msg : EscrowStateProto) : Option EscrowState :=
  (SessionPhase.ofCode msg.phase).map fun phase =>
    { escrowID := msg.escrowId
      version := msg.stateRootAndProtocolVersion
      config := msg.config
      group := msg.group
      balance := msg.balance
      fees := msg.fees
      phase
      finalizeNonce := msg.finalizeNonce
      inferences := msg.inferences.filterMap fun _ r => inferenceRecordFromProto r
      hostStats := msg.hostStats.filterMap fun _ hs => some (hostStatsFromProto hs)
      warmKeys := msg.warmKeys
      latestNonce := msg.latestNonce
      sealedAcc := msg.sealedAcc }

/-- The message that `MarshalStateSnapshotProto` writes. -/
def marshalStateSnapshotProto (st : EscrowState) (committedEntries : OrdMap ℕ Bytes)
    (sealedNonces : OrdMap ℕ ℕ) : StateSnapshotProto where
  state := escrowStateToProto st
  committedEntries := committedEntries
  sealedNonces := sealedNonces

def unmarshalStateSnapshotProto (msg : StateSnapshotProto) :
    Option (EscrowState × OrdMap ℕ Bytes × OrdMap ℕ ℕ) :=
  (escrowStateFromProto msg.state).map fun st => (st, msg.committedEntries, msg.sealedNonces)

theorem inferenceRecordFromProto_toProto (id : ℕ) (r : InferenceRecord) :
    inferenceRecordFromProto (inferenceRecordToProto id r) = some r := by
  have hstatus : InferenceStatus.ofCode r.status.code = some r.status := by
    cases r.status <;> rfl
  simp only [inferenceRecordFromProto, inferenceRecordToProto, hstatus, map_some,
    Bitmap128.ofBytes_bytes]

theorem escrowStateFromProto_toProto (st : EscrowState) :
    escrowStateFromProto (escrowStateToProto st) = some st := by
  have hphase : SessionPhase.ofCode st.phase.toByte.toNat = some st.phase := by
    cases st.phase <;> rfl
  have hrecords : (st.inferences.filterMap fun id r => some (inferenceRecordToProto id r)).filterMap
      (fun _ r => inferenceRecordFromProto r) = st.inferences := by
    refine ext_get? fun id => ?_
    rw [get?_filterMap, get?_filterMap]
    cases st.inferences.get? id with
    | none => rfl
    | some r => exact inferenceRecordFromProto_toProto id r
  have hstats : (st.hostStats.filterMap fun slot hs => some (hostStatsToProto slot hs)).filterMap
      (fun _ hs => some (hostStatsFromProto hs)) = st.hostStats := by
    refine ext_get? fun slot => ?_
    rw [get?_filterMap, get?_filterMap]
    cases st.hostStats.get? slot with
    | none => rfl
    | some => rfl
  simp only [escrowStateFromProto, escrowStateToProto, hphase, map_some, hrecords, hstats]

/-- **A snapshot is read back as it was written.** -/
theorem unmarshalStateSnapshotProto_marshal (st : EscrowState) (committedEntries : OrdMap ℕ Bytes)
    (sealedNonces : OrdMap ℕ ℕ) :
    unmarshalStateSnapshotProto (marshalStateSnapshotProto st committedEntries sealedNonces)
      = some (st, committedEntries, sealedNonces) := by
  simp only [unmarshalStateSnapshotProto, marshalStateSnapshotProto, escrowStateFromProto_toProto,
    map_some]

/-! ### Restoring a machine -/

/-- `rebuildCommittedEntriesLocked`: a record that cannot be marshalled is left out. -/
def EscrowState.rebuildCommittedEntries (st : EscrowState) : OrdMap ℕ Bytes :=
  st.inferences.filterMap marshalInferenceEntry

def StateMachine.restoreState (sm : StateMachine) (st : EscrowState) : StateMachine :=
  { sm with toEscrowState := st, committedEntries := st.rebuildCommittedEntries }

/-- `RestoreCommittedEntries`: the entries of live records are written anew. -/
def StateMachine.restoreCommittedEntries (sm : StateMachine) (entries : OrdMap ℕ Bytes) :
    StateMachine :=
  if entries = ∅ then { sm with committedEntries := sm.rebuildCommittedEntries }
  else { sm with committedEntries := sm.rebuildCommittedEntries.addMissing entries }

def StateMachine.restoreSealedNonces (sm : StateMachine) (nonces : OrdMap ℕ ℕ) : StateMachine :=
  { sm with sealedNonces := nonces }

structure RestoreOptions where
  committedEntries : Bool
  sealedNonces : Bool
  deriving DecidableEq

/-- What `RecoverSession` restores. -/
def RestoreOptions.stateOnly : RestoreOptions := ⟨false, false⟩

/-- The snapshot `msg`, restored into a fresh machine. -/
def restoreSnapshot (fresh : StateMachine) (msg : StateSnapshotProto) (opts : RestoreOptions) :
    Option StateMachine :=
  (unmarshalStateSnapshotProto msg).map fun snap =>
    let sm := fresh.restoreState snap.1
    let sm := if opts.committedEntries then sm.restoreCommittedEntries snap.2.1 else sm
    if opts.sealedNonces then sm.restoreSealedNonces snap.2.2 else sm

def StateMachine.exportSnapshot (sm : StateMachine) : StateSnapshotProto :=
  marshalStateSnapshotProto sm.toEscrowState sm.committedEntries sm.sealedNonces

/-- Every inference that the second map calls sealed is sealed in the first. -/
def SealsLost (m m' : OrdMap ℕ ℕ) : Prop := ∀ id, m'.get? id ≠ none → m.get? id ≠ none

theorem sealClosed_sealsLost : SealClosed SealsLost := by
  intro m m' id n h id' hsealed
  rw [get?_insert] at hsealed ⊢
  split
  · exact some_ne_none n
  · next hne =>
    rw [if_neg hne] at hsealed
    exact h id' hsealed

theorem sealClosed_swap (h : SealClosed S) : SealClosed (Function.swap S) :=
  fun _ _ id n hS => h id n hS

theorem Consistent.rebuilds {s : Session} (h : Consistent s) :
    s.sm.rebuildCommittedEntries = s.sm.committedEntries := by
  refine ext_get? fun id => ?_
  unfold EscrowState.rebuildCommittedEntries
  rw [get?_filterMap]
  cases hlive : s.sm.inferences.get? id with
  | none => exact (h.noEntry id hlive).symm
  | some r => exact (h.entries id r hlive).2.symm

/-- **A restored machine is the exported one**, but for lost seal nonces. -/
theorem restoreSnapshot_sameUpTo {s : Session} {fresh : StateMachine} (hs : Consistent s)
    (huser : fresh.userAddress = s.sm.userAddress) (hfresh : fresh.sealedNonces = ∅)
    (opts : RestoreOptions) :
    ∃ sm, restoreSnapshot fresh s.sm.exportSnapshot opts = some sm ∧
      SameUpTo SealsLost s.sm sm := by
  have hself : s.sm.rebuildCommittedEntries.addMissing s.sm.committedEntries
      = s.sm.committedEntries := by
    rw [hs.rebuilds]
    refine ext_get? fun id => ?_
    rw [get?_addMissing, Option.or_self]
  have hstate : fresh.restoreState s.sm.toEscrowState = { s.sm with sealedNonces := ∅ } := by
    unfold StateMachine.restoreState
    rw [hs.rebuilds, huser, hfresh]
  have hentries : ({ s.sm with sealedNonces := ∅ } : StateMachine).restoreCommittedEntries
      s.sm.committedEntries = { s.sm with sealedNonces := ∅ } := by
    unfold StateMachine.restoreCommittedEntries
    split
    · rw [hs.rebuilds]
    · rw [hself]
  refine ⟨_, by
    rw [restoreSnapshot, StateMachine.exportSnapshot, unmarshalStateSnapshotProto_marshal]
    rfl, ?_⟩
  dsimp only
  rw [hstate, hentries, ite_self]
  split
  · exact ⟨s.sm.sealedNonces, fun _ h => h, rfl⟩
  · exact ⟨∅, fun _ h => absurd rfl h, rfl⟩

section
variable {answers : Option (Address → Address → Bool)} {seals : OrdMap ℕ ℕ}

variable {w₁ : World} {txs : List DevshardTx} {nonce : ℕ} {root : Bytes}

theorem applyTxs_sealedNonces {snap : MutableSnapshot} (snap' : MutableSnapshot)
    (hans : SameAnswers answers env host) (hv : v.sm = { w.sm with sealedNonces := seals })
    (hnew : ∀ msg, .startInference msg ∈ txs → seals.get? msg.inferenceId = none)
    (h : applyTxs env snap txs w = .ok () w') :
    ∃ v', applyTxs host snap' txs v = .ok () v' ∧ v'.sm = { w'.sm with sealedNonces := seals } ∧
      w'.sm.sealedNonces = w.sm.sealedNonces := by
  induction txs generalizing w v with
  | nil =>
    cases h
    exact ⟨v, rfl, hv, rfl⟩
  | cons tx _ ih =>
    obtain ⟨_, htx, hrest⟩ := applyTxs_cons h
    obtain ⟨_, htx', hv₁, hkept⟩ := applyTx_sealedNonces hans hv
      (fun msg hmsg _ => hnew msg (hmsg ▸ mem_cons_self)) htx
    obtain ⟨v', hrest', hv', hkept'⟩ := ih hv₁
      (fun msg hmsg => hnew msg (mem_cons_of_mem tx hmsg)) hrest
    refine ⟨v', ?_, hv', hkept'.trans hkept⟩
    rw [applyTxs, htx']
    exact hrest'

/-- **Seal nonces do not matter to a diff**, as long as none is of an inference
that the diff could start. -/
theorem applyCore_sameUpTo (hS : SealClosed S) (hans : SameAnswers answers env host) {post : Bytes}
    (h : applyCore env nonce txs post w = .ok root w') (hv : SameUpTo S w.sm v.sm)
    (hpast : ∀ id, v.sm.sealedNonces.get? id ≠ none → id ≤ v.sm.latestNonce)
    (hb : v.Buffers calls) :
    ∃ v', applyCore host nonce txs post v = .ok root v' ∧ SameUpTo S w'.sm v'.sm := by
  obtain ⟨seals, hseals, hsm⟩ := hv
  obtain ⟨hcheck, ⟨_, htxs, hclose⟩, hroot⟩ := applyCore_ok_iff.mp h
  have hlatest : v.sm.latestNonce = w.sm.latestNonce := by rw [hsm]
  have hnew : ∀ msg, .startInference msg ∈ txs → seals.get? msg.inferenceId = none := by
    intro msg hmsg
    by_contra hsealed
    have hid := (checkDiff_ok hcheck).2 _ hmsg msg rfl
    have hle := hpast msg.inferenceId (by rw [hsm]; exact hsealed)
    omega
  obtain ⟨v₁, htxs', hv₁, hkept⟩ :=
    applyTxs_sealedNonces v.sm.snapshotMutable hans hsm hnew htxs
  have hb₁ := (applyTxs_deferrable host v.sm.snapshotMutable txs v hb).2
  rw [htxs'] at hb₁
  obtain ⟨v', hclose', hsame⟩ := closeNonce_sameUpTo hS host v.sm.snapshotMutable hclose hb₁
    ⟨seals, hkept ▸ hseals, hv₁⟩
  refine ⟨v', applyCore_ok_iff.mpr ⟨?_, ⟨v₁, htxs', hclose'⟩, hroot⟩, hsame⟩
  rw [hlatest]
  exact hcheck

end

end Devshard
