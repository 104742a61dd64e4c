/-
Maintenance windows of participants.

A participant earns credit and spends it on a reservation: a window of blocks in which it is excused.
A reservation is scheduled, then active from its first block on, then completed after its last one;
until it is active it can be canceled, by its participant or because the feature was disabled.  Its
changes are kept as rows under the height where they are due.  Rows of a height are worked through
once, when its block begins, before the block's messages.

What one reservation is, is written in five places: the record, two indexes, the state of its
participant and the rows.  The state of a participant is found by its address, which several
strings may stand for; the codec is left open.
-/
import Gonka.Lib.Along
import Gonka.Lib.OrdMap
import Gonka.Chain.EpochContext
import Mathlib.Data.Prod.Lex

namespace Maintenance

open Inference (i64 EpochParams Epoch EpochContext newEpochContext)

structure MaintenanceParams where
  maintenanceEnabled : Bool
  maintenanceMinScheduleLeadBlocks : ℕ
  maintenanceMaxWindowBlocks : ℕ
  maintenanceMaxConcurrentValidators : ℕ
  maintenanceMaxConcurrentPowerBps : ℕ
  maintenanceCreditCapBlocks : ℕ
  maintenanceCreditEarnPerSuccessfulEpochBlocks : ℕ
deriving DecidableEq

def defaultMaintenanceParams : MaintenanceParams where
  maintenanceEnabled := false
  maintenanceMinScheduleLeadBlocks := 100
  maintenanceMaxWindowBlocks := 200
  maintenanceMaxConcurrentValidators := 3
  maintenanceMaxConcurrentPowerBps := 1000
  maintenanceCreditCapBlocks := 400
  maintenanceCreditEarnPerSuccessfulEpochBlocks := 20

def maxMaintenanceBlocksParam : ℕ := 10 ^ 15

/-- `MaintenanceParams.Validate`; the error, if there is one. -/
def MaintenanceParams.validate (p : MaintenanceParams) : Option String :=
  if p.maintenanceMaxWindowBlocks = 0 then some "maintenance max window blocks must be positive"
  else if p.maintenanceMaxWindowBlocks > maxMaintenanceBlocksParam then
    some <| s!"maintenance max window blocks ({p.maintenanceMaxWindowBlocks}) exceeds safe upper " ++
      s!"bound {maxMaintenanceBlocksParam}"
  else if p.maintenanceMinScheduleLeadBlocks > maxMaintenanceBlocksParam then
    some <| s!"maintenance min schedule lead blocks ({p.maintenanceMinScheduleLeadBlocks}) exceeds " ++
      s!"safe upper bound {maxMaintenanceBlocksParam}"
  else if p.maintenanceCreditCapBlocks = 0 then
    some "maintenance credit cap blocks must be positive"
  else if p.maintenanceCreditCapBlocks > maxMaintenanceBlocksParam then
    some <| s!"maintenance credit cap blocks ({p.maintenanceCreditCapBlocks}) exceeds safe upper " ++
      s!"bound {maxMaintenanceBlocksParam}"
  else if p.maintenanceMaxConcurrentValidators = 0 then
    some "maintenance max concurrent validators must be positive"
  else if p.maintenanceMaxConcurrentPowerBps > 10000 then
    some "maintenance max concurrent power bps cannot exceed 10000"
  else if p.maintenanceCreditEarnPerSuccessfulEpochBlocks = 0 then
    some <| "maintenance credit earn per successful epoch blocks must be positive " ++
      "(set maintenance_enabled=false to disable maintenance windows)"
  else if p.maintenanceCreditEarnPerSuccessfulEpochBlocks > p.maintenanceCreditCapBlocks then
    some <| s!"maintenance credit earn per successful epoch blocks " ++
      s!"({p.maintenanceCreditEarnPerSuccessfulEpochBlocks}) must not exceed credit cap " ++
      s!"({p.maintenanceCreditCapBlocks})"
  else none

inductive MaintenanceReservationStatus where
  | scheduled
  | active
  | completed
  | canceled
deriving DecidableEq

inductive MaintenanceTransitionType where
  | activate
  | complete
deriving DecidableEq

structure MaintenanceReservation where
  reservationId : ℕ
  participant : String
  startHeight : ℤ
  durationBlocks : ℕ
  createdBy : String
  status : MaintenanceReservationStatus
  activationWarning : String
deriving DecidableEq

def MaintenanceReservation.completeHeight (r : MaintenanceReservation) : ℤ :=
  r.startHeight + r.durationBlocks

/-- No reservation has the id 0, which stands for none. -/
structure MaintenanceState where
  participant : String
  creditBlocks : ℕ := 0
  lastMaintenanceEpoch : ℕ := 0
  activeReservationId : ℕ := 0
  scheduledReservationId : ℕ := 0
  lastMaintenanceEndEpoch : ℕ := 0
deriving DecidableEq

structure Bech32 (A : Type*) where
  accAddressFromBech32 : String → Option A
  string : A → String
  accAddressFromBech32_string : ∀ a, accAddressFromBech32 (string a) = some a

def sampleCodec : Bech32 Bool where
  accAddressFromBech32 text := if text = "a" then some false else if text = "b" then some true else none
  string addr := if addr then "b" else "a"
  accAddressFromBech32_string addr := by cases addr <;> decide

structure Keeper (A : Type*) [LinearOrder A] where
  maintenanceParams : Option MaintenanceParams
  maintenanceReservations : OrdMap ℕ MaintenanceReservation
  maintenanceReservationCounter : ℕ
  maintenanceStates : OrdMap A MaintenanceState
  /-- By height and reservation. -/
  maintenanceTransitions : OrdMap (ℤ ×ₗ ℕ) MaintenanceTransitionType
  maintenanceScheduledIndex : OrdMap ℕ Unit
  maintenanceActiveIndex : OrdMap ℕ Unit

/-- What the rest of the chain holds when a message or a block is worked on. -/
structure World (A : Type*) where
  hasAccount : A → Bool
  hasParticipant : A → Bool
  epochParams : Option EpochParams
  effectiveEpochIndex : Option ℕ
  getEpoch : ℕ → Option Epoch
  /-- The bonded tokens; 0 for who is no validator. -/
  getParticipantPower : A → ℤ
  getTotalConsensusPower : ℤ

inductive MaintenanceError where
  | invalidAddress
  | accountNotFound
  | invalidPermission
  | maintenanceDisabled
  | maintenanceInvalidParticipant
  | participantNotFound
  | maintenanceZeroDuration
  | maintenanceDurationExceeded
  | maintenanceCompletionHeightOverflow
  | maintenanceInsufficientLeadTime
  | maintenanceAlreadyScheduled
  | maintenanceInsufficientCredit
  | maintenanceOverlapsPoCPhase
  | maintenanceOverlapsDKGPhase
  | maintenanceConcurrentCountExceeded
  | maintenanceConcurrentPowerExceeded
  | maintenanceOverlap
  | maintenanceReservationNotFound
  | maintenanceNotScheduled
  | reservationOverflow
deriving DecidableEq

/-- The `uint64` with this value. -/
def u64 (n : ℕ) : ℕ := n % 2 ^ 64

def maxInt64 : ℤ := 2 ^ 63 - 1

/-- The windows `[s, s + d - 1]` and `[s', s' + d' - 1]` meet. -/
def meets (s : ℤ) (d : ℕ) (s' : ℤ) (d' : ℕ) : Prop := s ≤ s' + d' - 1 ∧ s' ≤ s + d - 1

instance (s : ℤ) (d : ℕ) (s' : ℤ) (d' : ℕ) : Decidable (meets s d s' d') :=
  inferInstanceAs (Decidable (_ ∧ _))

/-- The reservation covers blocks of the window. -/
def MaintenanceReservation.Overlaps (r : MaintenanceReservation) (startHeight : ℤ)
    (durationBlocks : ℕ) : Prop :=
  meets r.startHeight r.durationBlocks startHeight durationBlocks

instance (r : MaintenanceReservation) (s : ℤ) (d : ℕ) : Decidable (r.Overlaps s d) :=
  inferInstanceAs (Decidable (meets _ _ _ _))

variable {A : Type*} [LinearOrder A] (codec : Bech32 A)

namespace Keeper

variable (k : Keeper A)

def getMaintenanceParams : MaintenanceParams :=
  k.maintenanceParams.getD defaultMaintenanceParams

def setMaintenanceReservation (r : MaintenanceReservation) : Keeper A :=
  { k with maintenanceReservations := k.maintenanceReservations.insert r.reservationId r }

/-- `SetMaintenanceState`, which reads the address from the state's own string. -/
def setMaintenanceState (state : MaintenanceState) : Except MaintenanceError (Keeper A) :=
  match codec.accAddressFromBech32 state.participant with
  | none => .error .invalidAddress
  | some addr => .ok { k with maintenanceStates := k.maintenanceStates.insert addr state }

def getOrCreateMaintenanceState (participant : A) : MaintenanceState :=
  (k.maintenanceStates.get? participant).getD { participant := codec.string participant }

def setMaintenanceTransition (height : ℤ) (id : ℕ) (t : MaintenanceTransitionType) : Keeper A :=
  { k with maintenanceTransitions := k.maintenanceTransitions.insert (toLex (height, id)) t }

def deleteMaintenanceTransition (height : ℤ) (id : ℕ) : Keeper A :=
  { k with maintenanceTransitions := k.maintenanceTransitions.erase (toLex (height, id)) }

def maintenanceTransitionsAtHeight (height : ℤ) : List (ℕ × MaintenanceTransitionType) :=
  (k.maintenanceTransitions.entries.filter fun e => (ofLex e.1).1 = height).map
    fun e => ((ofLex e.1).2, e.2)

/-- `iterateIndexedReservations`: at most ten thousand entries; one without a record is skipped. -/
def indexedReservations (index : OrdMap ℕ Unit) : List MaintenanceReservation :=
  (index.keys.take 10000).filterMap k.maintenanceReservations.get?

def collectActiveAndScheduledReservations : List MaintenanceReservation :=
  k.indexedReservations k.maintenanceActiveIndex ++
    k.indexedReservations k.maintenanceScheduledIndex

end Keeper

/-- The epochs from `ec` on, as far as the window reaches; ten thousand at most. -/
def overlapFrom (startHeight endHeight : ℤ) : ℕ → EpochContext → Option MaintenanceError
  | 0, _ => some .maintenanceDurationExceeded
  | n + 1, ec =>
    if ec.epochIndex ≠ 0 ∧ startHeight ≤ ec.poCExchangeDeadline ∧ ec.startOfPoC ≤ endHeight then
      some .maintenanceOverlapsPoCPhase
    else if ec.epochIndex ≠ 0 ∧ startHeight ≤ ec.endOfPoCValidation ∧
        ec.startOfPoCValidation ≤ endHeight then
      some .maintenanceOverlapsPoCPhase
    else if ec.epochIndex ≠ 0 ∧ startHeight ≤ ec.setNewValidators ∧
        ec.setNewValidators ≤ endHeight then
      some .maintenanceOverlapsDKGPhase
    else if ec.nextEpochContext.startOfPoC > endHeight then none
    else overlapFrom startHeight endHeight n ec.nextEpochContext

def checkEpochPhaseOverlap (w : World A) (startHeight : ℤ) (durationBlocks : ℕ) :
    Option MaintenanceError :=
  match w.epochParams, w.effectiveEpochIndex.bind w.getEpoch with
  | some ep, some effectiveEpoch =>
    if ep.epochLength ≤ 0 then none
    else
      let ec := newEpochContext effectiveEpoch ep
      -- straight to the epoch of the first block
      let steps := (i64 (startHeight - ec.startOfPoC)).tdiv ep.epochLength
      let ec := if 0 < ec.epochIndex ∧ ec.startOfPoC < startHeight then
          { ec with
            epochIndex := ec.epochIndex + steps.toNat
            pocStartBlockHeight := i64 (ec.pocStartBlockHeight + i64 (steps * ep.epochLength)) }
        else ec
      overlapFrom startHeight (i64 (startHeight + durationBlocks - 1)) 10000 ec
  | _, _ => none

/-- How many of the reservations cover blocks of the window, and the power of their
participants. -/
def concurrent (w : World A) (rs : List MaintenanceReservation) (startHeight : ℤ)
    (durationBlocks : ℕ) : ℕ × ℤ :=
  let rs := rs.filter fun r => r.Overlaps startHeight durationBlocks
  (rs.length, ((rs.filterMap fun r => codec.accAddressFromBech32 r.participant).map
    w.getParticipantPower).sum)

/-- The power that may be in maintenance at a time; there is no bound without validators or for
the parameter 0. -/
def maxConcurrentPower (w : World A) (mp : MaintenanceParams) : Option ℤ :=
  if 0 < w.getTotalConsensusPower ∧ 0 < mp.maintenanceMaxConcurrentPowerBps then
    some ((w.getTotalConsensusPower * mp.maintenanceMaxConcurrentPowerBps).tdiv 10000)
  else none

def checkConcurrencyLimits (w : World A) (k : Keeper A) (startHeight : ℤ) (durationBlocks : ℕ)
    (participant : A) (mp : MaintenanceParams) : Option MaintenanceError :=
  let (concurrentCount, concurrentPower) :=
    concurrent codec w k.collectActiveAndScheduledReservations startHeight durationBlocks
  if concurrentCount + 1 > mp.maintenanceMaxConcurrentValidators then
    some .maintenanceConcurrentCountExceeded
  else if (maxConcurrentPower w mp).any
      (· < concurrentPower + w.getParticipantPower participant) then
    some .maintenanceConcurrentPowerExceeded
  else none

def Keeper.overlapsReservation (k : Keeper A) (id : ℕ) (startHeight : ℤ) (durationBlocks : ℕ) :
    Bool :=
  id ≠ 0 && (k.maintenanceReservations.get? id).any
    fun r => r.Overlaps startHeight durationBlocks

def checkParticipantOverlap (k : Keeper A) (participant : A) (startHeight : ℤ)
    (durationBlocks : ℕ) : Option MaintenanceError :=
  match k.maintenanceStates.get? participant with
  | none => none
  | some state =>
    if k.overlapsReservation state.activeReservationId startHeight durationBlocks then
      some .maintenanceOverlap
    else if k.overlapsReservation state.scheduledReservationId startHeight durationBlocks then
      some .maintenanceOverlap
    else none

structure MsgScheduleMaintenance where
  creator : String
  participant : String
  startHeight : ℤ
  durationBlocks : ℕ
deriving DecidableEq

structure MsgCancelMaintenance where
  creator : String
  reservationId : ℕ
deriving DecidableEq

/-- `CheckPermission` with `AccountPermission`. -/
def checkPermission (w : World A) (creator : String) : Option MaintenanceError :=
  match codec.accAddressFromBech32 creator with
  | none => some .invalidAddress
  | some addr => if w.hasAccount addr then none else some .accountNotFound

/-- The first of the checks of `ScheduleMaintenance`, up to the state of the participant. -/
def checkRequest (w : World A) (blockHeight : ℤ) (mp : MaintenanceParams) (participant : A)
    (msg : MsgScheduleMaintenance) : Option MaintenanceError :=
  if ¬ w.hasParticipant participant then some .participantNotFound
  else if msg.durationBlocks = 0 then some .maintenanceZeroDuration
  else if msg.durationBlocks > mp.maintenanceMaxWindowBlocks then
    some .maintenanceDurationExceeded
  else if msg.durationBlocks > maxInt64 ∨ msg.startHeight > maxInt64 - msg.durationBlocks then
    some .maintenanceCompletionHeightOverflow
  else if msg.startHeight < i64 (blockHeight + mp.maintenanceMinScheduleLeadBlocks) then
    some .maintenanceInsufficientLeadTime
  else none

def checkState (w : World A) (k : Keeper A) (mp : MaintenanceParams) (participant : A)
    (msg : MsgScheduleMaintenance) : Option MaintenanceError :=
  let state := k.getOrCreateMaintenanceState codec participant
  if state.scheduledReservationId ≠ 0 then some .maintenanceAlreadyScheduled
  else if state.creditBlocks < msg.durationBlocks then some .maintenanceInsufficientCredit
  else checkEpochPhaseOverlap w msg.startHeight msg.durationBlocks <|>
    checkConcurrencyLimits codec w k msg.startHeight msg.durationBlocks participant mp <|>
    checkParticipantOverlap k participant msg.startHeight msg.durationBlocks

/-- What `ScheduleMaintenance` writes when all checks have passed. -/
def Keeper.createReservation (k : Keeper A) (participant : A) (msg : MsgScheduleMaintenance) :
    Except MaintenanceError (Keeper A × ℕ) :=
  let state := k.getOrCreateMaintenanceState codec participant
  let reservationId := k.maintenanceReservationCounter + 1
  let k := { k with maintenanceReservationCounter := reservationId }
  let k := k.setMaintenanceReservation
    { reservationId
      participant := msg.participant
      startHeight := msg.startHeight
      durationBlocks := msg.durationBlocks
      createdBy := msg.creator
      status := .scheduled
      activationWarning := "" }
  let k := { k with
    maintenanceScheduledIndex := k.maintenanceScheduledIndex.insert reservationId () }
  match k.setMaintenanceState codec { state with
      creditBlocks := state.creditBlocks - msg.durationBlocks
      scheduledReservationId := reservationId } with
  | .error e => .error e
  | .ok k =>
    .ok (((k.setMaintenanceTransition msg.startHeight reservationId
      .activate).setMaintenanceTransition (msg.startHeight + msg.durationBlocks) reservationId
      .complete), reservationId)

/-- `ScheduleMaintenance`: the id of the new reservation. -/
def scheduleMaintenance (w : World A) (blockHeight : ℤ) (k : Keeper A)
    (msg : MsgScheduleMaintenance) : Except MaintenanceError (Keeper A × ℕ) :=
  match checkPermission codec w msg.creator with
  | some e => .error e
  | none =>
    if msg.creator ≠ msg.participant then .error .invalidPermission
    else
      let mp := k.getMaintenanceParams
      if ¬ mp.maintenanceEnabled then .error .maintenanceDisabled
      else
        match codec.accAddressFromBech32 msg.participant with
        | none => .error .maintenanceInvalidParticipant
        | some participant =>
          match checkRequest w blockHeight mp participant msg <|>
              checkState codec w k mp participant msg with
          | some e => .error e
          | none => k.createReservation codec participant msg

/-- The state of a participant when `r` is given up: the credit is restored, up to the cap. -/
def MaintenanceState.restore (state : MaintenanceState) (r : MaintenanceReservation)
    (mp : MaintenanceParams) : MaintenanceState :=
  { state with
    creditBlocks := min (u64 (state.creditBlocks + r.durationBlocks)) mp.maintenanceCreditCapBlocks
    scheduledReservationId := 0 }

def Keeper.markCanceled (k : Keeper A) (r : MaintenanceReservation) (id : ℕ) : Keeper A :=
  let k := k.setMaintenanceReservation { r with status := .canceled }
  { k with maintenanceScheduledIndex := k.maintenanceScheduledIndex.erase id }

/-- The completion height does not fit. -/
def MaintenanceReservation.Overflows (r : MaintenanceReservation) : Prop :=
  (r.durationBlocks : ℤ) > maxInt64 ∨ r.startHeight > maxInt64 - r.durationBlocks

instance (r : MaintenanceReservation) : Decidable r.Overflows :=
  inferInstanceAs (Decidable (_ ∨ _))

def cancelMaintenance (w : World A) (k : Keeper A) (msg : MsgCancelMaintenance) :
    Except MaintenanceError (Keeper A) :=
  match checkPermission codec w msg.creator with
  | some e => .error e
  | none =>
    match k.maintenanceReservations.get? msg.reservationId with
    | none => .error .maintenanceReservationNotFound
    | some r =>
      if r.status ≠ .scheduled then .error .maintenanceNotScheduled
      else if msg.creator ≠ r.participant then .error .invalidPermission
      else
        let k := k.markCanceled r r.reservationId
        match codec.accAddressFromBech32 r.participant with
        | none => .error .invalidAddress
        | some participant =>
          let state := k.getOrCreateMaintenanceState codec participant
          match k.setMaintenanceState codec (state.restore r k.getMaintenanceParams) with
          | .error e => .error e
          | .ok k =>
            if r.Overflows then .error .reservationOverflow
            else
              .ok ((k.deleteMaintenanceTransition r.startHeight
                r.reservationId).deleteMaintenanceTransition r.completeHeight r.reservationId)

/-- `cancelScheduledReservationOnDisabled`; the row of the activation is deleted by the caller. -/
def cancelScheduledReservationOnDisabled (k : Keeper A) (reservationId : ℕ) : Keeper A :=
  match k.maintenanceReservations.get? reservationId with
  | none => k
  | some r =>
    if r.status ≠ .scheduled then k
    else
      let k := k.markCanceled r reservationId
      match codec.accAddressFromBech32 r.participant with
      | none => k
      | some participant =>
        let state := k.getOrCreateMaintenanceState codec participant
        match k.setMaintenanceState codec (state.restore r k.getMaintenanceParams) with
        | .error _ => k
        | .ok k =>
          if r.Overflows then k
          else k.deleteMaintenanceTransition r.completeHeight reservationId

/-- `checkActivationTimeConcurrency`: a text if the caps of now would not admit the reservation. -/
def checkActivationTimeConcurrency (w : World A) (k : Keeper A) (r : MaintenanceReservation)
    (mp : MaintenanceParams) : String :=
  let others := k.collectActiveAndScheduledReservations.filter
    fun other => other.reservationId ≠ r.reservationId
  let (concurrentCount, concurrentPower) :=
    concurrent codec w others r.startHeight r.durationBlocks
  match codec.accAddressFromBech32 r.participant with
  | none => ""
  | some participant =>
    let used := concurrentPower + w.getParticipantPower participant
    let countWarning :=
      if concurrentCount + 1 > mp.maintenanceMaxConcurrentValidators then
        [s!"concurrent count {concurrentCount + 1} exceeds cap " ++
          s!"{mp.maintenanceMaxConcurrentValidators}"]
      else []
    let powerWarning :=
      match maxConcurrentPower w mp with
      | none => []
      | some maxPower =>
        if used > maxPower then
          [s!"concurrent power {used} exceeds cap {maxPower} " ++
            s!"(cap_bps={mp.maintenanceMaxConcurrentPowerBps} total={w.getTotalConsensusPower})"]
        else []
    -- "concurrent count …" is before "concurrent power …" also when sorted
    match countWarning ++ powerWarning with
    | [] => ""
    | warnings => "activation-time concurrency advisory: " ++ "; ".intercalate warnings

def activateMaintenanceReservation (w : World A) (k : Keeper A) (reservationId : ℕ)
    (mp : MaintenanceParams) : Keeper A :=
  match k.maintenanceReservations.get? reservationId with
  | none => k
  | some r =>
    if r.status ≠ .scheduled then k
    else
      let warning := checkActivationTimeConcurrency codec w k r mp
      let r := if warning ≠ "" then { r with activationWarning := warning } else r
      let k := k.setMaintenanceReservation { r with status := .active }
      let k := { k with
        maintenanceActiveIndex := k.maintenanceActiveIndex.insert reservationId ()
        maintenanceScheduledIndex := k.maintenanceScheduledIndex.erase reservationId }
      match codec.accAddressFromBech32 r.participant with
      | none => k
      | some participant =>
        let state := k.getOrCreateMaintenanceState codec participant
        let state := { state with activeReservationId := reservationId, scheduledReservationId := 0 }
        let state := match w.effectiveEpochIndex with
          | some epochIndex => { state with
              lastMaintenanceEpoch := epochIndex
              lastMaintenanceEndEpoch := epochIndex }
          | none => state
        match k.setMaintenanceState codec state with
        | .error _ => k
        | .ok k => k

def completeMaintenanceReservation (w : World A) (k : Keeper A) (reservationId : ℕ) : Keeper A :=
  match k.maintenanceReservations.get? reservationId with
  | none => k
  | some r =>
    if r.status ≠ .active then k
    else
      let k := k.setMaintenanceReservation { r with status := .completed }
      let k := { k with
        maintenanceActiveIndex := k.maintenanceActiveIndex.erase reservationId }
      match codec.accAddressFromBech32 r.participant with
      | none => k
      | some participant =>
        let state := k.getOrCreateMaintenanceState codec participant
        let state := { state with activeReservationId := 0 }
        let state := match w.effectiveEpochIndex with
          | some epochIndex => { state with lastMaintenanceEndEpoch := epochIndex }
          | none => state
        match k.setMaintenanceState codec state with
        | .error _ => k
        | .ok k => k

/-- One row of `ProcessMaintenanceTransitions`, which is deleted whatever came of it. -/
def processTransition (w : World A) (blockHeight : ℤ) (mp : MaintenanceParams) (k : Keeper A)
    (t : ℕ × MaintenanceTransitionType) : Keeper A :=
  let k := match t.2 with
    | .activate =>
      if ¬ mp.maintenanceEnabled then cancelScheduledReservationOnDisabled codec k t.1
      else activateMaintenanceReservation codec w k t.1 mp
    | .complete => completeMaintenanceReservation codec w k t.1
  k.deleteMaintenanceTransition blockHeight t.1

def processMaintenanceTransitions (w : World A) (blockHeight : ℤ) (k : Keeper A) : Keeper A :=
  (k.maintenanceTransitionsAtHeight blockHeight).foldl
    (processTransition codec w blockHeight k.getMaintenanceParams) k

def activeReservationCoversEpoch (w : World A) (r : MaintenanceReservation) (epochIndex : ℕ) :
    Bool :=
  match w.getEpoch epochIndex with
  | none => true
  | some epoch =>
    let epochEnd := match w.getEpoch (epochIndex + 1) with
      | some next => if 0 < next.pocStartBlockHeight then next.pocStartBlockHeight - 1 else maxInt64
      | none => maxInt64
    r.startHeight ≤ epochEnd && epoch.pocStartBlockHeight ≤ r.completeHeight - 1

def maintenanceStateCoversEpoch (w : World A) (k : Keeper A) (state : MaintenanceState)
    (epochIndex : ℕ) : Bool :=
  (state.activeReservationId ≠ 0 &&
    (k.maintenanceReservations.get? state.activeReservationId).any fun r =>
      r.status = .active && activeReservationCoversEpoch w r epochIndex) ||
  (epochIndex ≠ 0 && state.lastMaintenanceEpoch ≤ epochIndex &&
    epochIndex ≤ state.lastMaintenanceEndEpoch)

def grantMaintenanceCredit (w : World A) (k : Keeper A) (participant : String)
    (epochIndex : ℕ) : Except MaintenanceError (Keeper A) :=
  let mp := k.getMaintenanceParams
  if ¬ mp.maintenanceEnabled ∨ mp.maintenanceCreditEarnPerSuccessfulEpochBlocks = 0 then .ok k
  else
    match codec.accAddressFromBech32 participant with
    | none => .error .invalidAddress
    | some participantAddr =>
      let state := k.getOrCreateMaintenanceState codec participantAddr
      if maintenanceStateCoversEpoch w k state epochIndex then .ok k
      else
        k.setMaintenanceState codec { state with
          creditBlocks := min
            (u64 (state.creditBlocks + mp.maintenanceCreditEarnPerSuccessfulEpochBlocks))
            mp.maintenanceCreditCapBlocks }

/-- The chain: the height of the block, and what is stored. -/
structure Chain (A : Type*) [LinearOrder A] where
  height : ℤ
  keeper : Keeper A

inductive Op (A : Type*) where
  /-- The next block begins. -/
  | beginBlock (w : World A)
  | schedule (w : World A) (msg : MsgScheduleMaintenance)
  | cancel (w : World A) (msg : MsgCancelMaintenance)
  | grant (w : World A) (participant : String) (epochIndex : ℕ)
  /-- Governance sets parameters, if they are accepted. -/
  | setParams (mp : Option MaintenanceParams)

def Chain.commit (s : Chain A) : Except MaintenanceError (Keeper A) → Chain A
  | .ok k => { s with keeper := k }
  | .error _ => s

def step (op : Op A) (s : Chain A) : Chain A :=
  match op with
  | .beginBlock w =>
    ⟨s.height + 1, processMaintenanceTransitions codec w (s.height + 1) s.keeper⟩
  | .schedule w msg =>
    s.commit ((scheduleMaintenance codec w s.height s.keeper msg).map Prod.fst)
  | .cancel w msg => s.commit (cancelMaintenance codec w s.keeper msg)
  | .grant w participant epochIndex =>
    s.commit (grantMaintenanceCredit codec w s.keeper participant epochIndex)
  | .setParams mp =>
    if mp.all fun mp => mp.validate.isNone then
      { s with keeper := { s.keeper with maintenanceParams := mp } }
    else s

end Maintenance
