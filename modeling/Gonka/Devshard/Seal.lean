/-
Sealing: how live inferences leave the state (`devshard/state/seal.go`).

A sealed inference is folded into the sealed accumulator with the nonce of its
seal and leaves the live map for good.  The periodic `autoSeal` does so for
records whose grace gates have cleared; `drainLiveIntoSealedAcc` does so for
every live record when the session enters settlement, after giving unfinished
ones their settlement default (`settleLiveRecord`).

The two differ in one more respect: a store that refuses the observability row
is logged by `autoSeal` and fails the drain.
-/
import Gonka.Devshard.Machine

namespace Devshard

open Wire

/-- `settleLiveRecordLocked`: the record with its settlement default, and the
payment or refund that goes with it. -/
def settleLiveRecord (id : ℕ) (r : InferenceRecord) (w : World) : InferenceRecord × World :=
  match r.status with
  | .started =>
    -- the host committed by a signed receipt: it is paid the reservation
    let r' := { r with actualCost := r.reservedCost, status := .finished }
    (r', (w.putInference id r').addCost r.executorSlot r.reservedCost)
  | .pending =>
    let r' := { r with actualCost := 0, status := .timedOut }
    (r', (w.addBalance r.reservedCost).putInference id r')
  | _ => (r, w)

/-- The loop of `drainLiveIntoSealedAccLocked` over the live records, by
ascending id, with the running accumulator. -/
def drainLoop (env : Env) (sealNonce : ℕ) :
    List (ℕ × InferenceRecord) → Bytes → World → Outcome Bytes
  | [], cur, w => .ok cur w
  | (id, r) :: rest, cur, w =>
    let settled := settleLiveRecord id r w
    let r := settled.1
    let w := settled.2
    match marshalInferenceEntry id r with
    | none => .error (.drainLiveInference id (.marshal .inferenceEntry)) w
    | some entry =>
      match upsertInferenceObs env id sealNonce r (w.markSealed id sealNonce) with
      | (false, w) => .error (.persistSealed id) w
      | (true, w) =>
        drainLoop env sealNonce rest (foldSealedAccumulator cur sealNonce id entry)
          (w.deleteInference id)

def drainLiveIntoSealedAcc (env : Env) (sealNonce : ℕ) (w : World) : Outcome Unit :=
  if w.sm.inferences.entries = [] then .ok () w
  else
    match drainLoop env sealNonce w.sm.inferences.entries (sealedAccBytes32 w.sm.sealedAcc) w with
    | .error e w => .error e w
    | .ok cur w => .ok () { w with sm.sealedAcc := cur }

def sealEligibleStatus : InferenceStatus → Bool
  | .finished | .validated | .invalidated | .timedOut => true
  | _ => false

def terminalAutoSealStatus : InferenceStatus → Bool
  | .validated | .invalidated | .timedOut => true
  | _ => false

def autoSealInterval (cfg : SessionConfig) : ℕ :=
  if cfg.autoSealEveryNNonces = 0 then defaultAutoSealEveryNNonces else cfg.autoSealEveryNNonces

def shouldAutoSealAtNonce (interval nonce : ℕ) : Bool :=
  if interval = 0 then true else nonce % interval == 0

def stateClockWindowFactor : ℕ := 3

/-- The clock of `stateClockLocked`: the latest confirmation among the confirmed
records of the tail window, `0` when there is none. -/
def stateClock (st : EscrowState) : Int64 :=
  let window := st.group.length * stateClockWindowFactor
  let window := if window = 0 then stateClockWindowFactor else window
  let tail := st.inferences.entries.drop (st.inferences.entries.length - window)
  tail.foldl
    (fun clock e =>
      if e.2.confirmedAt ≤ 0 then clock
      else if clock = 0 then e.2.confirmedAt
      else if e.2.confirmedAt > clock then e.2.confirmedAt else clock)
    0

/-- Whether a live record clears its gates at `sealNonce`: the nonce gate always,
the clock gate only for a finished record. -/
def autoSealEligible (st : EscrowState) (sealNonce : ℕ) (clock : Int64)
    (e : ℕ × InferenceRecord) : Bool :=
  sealEligibleStatus e.2.status
    && decide (sealNonce ≥ e.1 + st.config.inferenceSealGraceNonces)
    && (terminalAutoSealStatus e.2.status
      || decide (Int64.ofNat st.config.inferenceSealGraceSeconds - (clock - e.2.confirmedAt) ≤ 0))

/-- The loop of `autoSealLocked` over the eligible records, by ascending id. -/
def autoSealLoop (env : Env) (sealNonce : ℕ) :
    List (ℕ × InferenceRecord) → Bytes → World → Outcome Bytes
  | [], cur, w => .ok cur w
  | (id, r) :: rest, cur, w =>
    match marshalInferenceEntry id r with
    | none => .error (.autoSealInference id (.marshal .inferenceEntry)) w
    | some entry =>
      -- a refused row never blocks the seal
      let w := (upsertInferenceObs env id sealNonce r (w.markSealed id sealNonce)).2
      autoSealLoop env sealNonce rest (foldSealedAccumulator cur sealNonce id entry)
        (w.deleteInference id)

def autoSeal (env : Env) (sealNonce : ℕ) (w : World) : Outcome Unit :=
  if w.sm.inferences.entries = [] then .ok () w
  else if stateClock w.sm.toEscrowState = 0 then .ok () w
  else
    let eligible := w.sm.inferences.entries.filter
      (autoSealEligible w.sm.toEscrowState sealNonce (stateClock w.sm.toEscrowState))
    if eligible = [] then .ok () w
    else
      match autoSealLoop env sealNonce eligible (sealedAccBytes32 w.sm.sealedAcc) w with
      | .error e w => .error e w
      | .ok cur w => .ok () { w with sm.sealedAcc := cur }

end Devshard
