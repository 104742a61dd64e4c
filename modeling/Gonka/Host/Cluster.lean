/-
Hosts of one escrow over one store (`devshard/host/host.go`, `reconcile.go`).

A host applies the diffs of a request under its mutex, persist-first: validate on a
trial, append the record to the store, commit the trial.  The mutex is released
while a failed append waits to be tried again and while the records of a nonce gap
are read, so requests of one host interleave there; requests of different hosts
interleave everywhere.

`Request.step` is one step of one request, up to the next point at which the code
gives the mutex away or talks to the store.  `Cluster.step` lets any request of any
host take its next step, with any answer of the outside world (`Outside`), starts
and crashes hosts, and recovers them from the store.
-/
import Gonka.Devshard.Replay
import Gonka.Lib.Journal

namespace Devshard

def finalizeNonceReserve (groupSize : ℕ) : ℕ := groupSize + 1

/-- `MaxActiveNonce`; no limit is `^uint64(0)`. -/
def maxActiveNonce (maxNonce groupSize : ℕ) : ℕ :=
  if maxNonce = 0 then 2 ^ 64 - 1
  else if maxNonce ≤ finalizeNonceReserve groupSize then 0
  else maxNonce - finalizeNonceReserve groupSize

def diffHasActiveCompletionWork (diff : Diff) : Bool :=
  diff.txs.any fun tx =>
    match tx with
    | .startInference _ | .timeoutInference _ | .validation _ | .validationVote _ => true
    | _ => false

inductive HostErr where
  | requestsDisabled
  | nonceExceedsMaximum (nonce maxNonce : ℕ)
  | nonceExceedsActiveCap (nonce activeCap reserve : ℕ)
  | validateDiff (nonce : ℕ) (err : Err)
  | persistCancelled (nonce : ℕ)
  | diffFork (nonce : ℕ)
  | persistExhausted (nonce : ℕ)
  | getDiffs (lo hi : ℕ)
  | reconcileGap (lo hi records : ℕ)
  | invalidNonce (expected got : ℕ)
  | applyDurable (nonce : ℕ) (err : Err)
  | stateHashMismatch (nonce : ℕ)
  | computeStateRoot
  | signState
  deriving DecidableEq

/-- `checkDiffNonceLimitLocked`; a maximum of zero is none. -/
def checkDiffNonceLimit (maxNonce : ℕ) (diff : Diff) (sm : StateMachine) : Except HostErr Unit :=
  if diff.nonce ≤ sm.latestNonce then .ok ()
  else if maxNonce = 0 then .ok ()
  else if diff.nonce > maxNonce then .error (.nonceExceedsMaximum diff.nonce maxNonce)
  else if sm.phase ≠ .active then .ok ()
  else if diffHasActiveCompletionWork diff = false then .ok ()
  else if diff.nonce > maxActiveNonce maxNonce sm.group.length then
    .error (.nonceExceedsActiveCap diff.nonce (maxActiveNonce maxNonce sm.group.length)
      (finalizeNonceReserve sm.group.length))
  else .ok ()

/-- What the store does with a call, beside answering it. -/
inductive Fault where
  | none
  /-- The call fails and had no effect. -/
  | before
  /-- The call fails after its effect. -/
  | after
  deriving DecidableEq

/-- `AppendDiff`: whether the record is durable now, and the diffs after it.  A
record under a nonce that is taken must be the one that is there. -/
def appendDiff (diffs : OrdMap ℕ DiffRecord) (rec : DiffRecord) : Bool × OrdMap ℕ DiffRecord :=
  ((diffs.get? rec.diff.nonce).all fun existing => decide (existing = rec),
    Journal.offer diffs rec.diff.nonce rec)

theorem appendDiff_true {diffs diffs' : OrdMap ℕ DiffRecord} {rec : DiffRecord}
    (h : appendDiff diffs rec = (true, diffs')) : diffs'.get? rec.diff.nonce = some rec := by
  obtain ⟨hsame, rfl⟩ := Prod.mk.inj h
  unfold Journal.offer
  cases hget : diffs.get? rec.diff.nonce with
  | none => exact OrdMap.get?_insert_self _ _ _
  | some existing =>
    rw [hget] at hsame
    obtain rfl : existing = rec := of_decide_eq_true hsame
    exact hget

/-- `GetDiffs`: the records of a range, in order. -/
def getDiffs (diffs : OrdMap ℕ DiffRecord) (lo hi : ℕ) : List DiffRecord :=
  (diffs.entries.filter fun e => lo ≤ e.1 ∧ e.1 ≤ hi).map Prod.snd

def filterDiffRecordsFrom (records : List DiffRecord) (lo : ℕ) : List DiffRecord :=
  records.filter fun rec => rec.diff.nonce ≥ lo

/-- Whether the records are those of `lo, …, hi`, in order. -/
def durableRangeComplete (records : List DiffRecord) (lo hi : ℕ) : Bool :=
  decide (lo > hi) ||
    decide (records.map (fun rec => rec.diff.nonce) = List.range' lo (hi + 1 - lo))

def persistMaxAttempts : ℕ := 4

inductive Call where
  | handleRequest
  | applyCatchUpDiffs
  | applyRecoveredDiffs
  | challengeReceipt
  deriving DecidableEq

inductive Point where
  /-- Waiting for the mutex at its start. -/
  | lock
  /-- About to take its next diff. -/
  | next
  /-- At the head of the reconciliation loop. -/
  | reconcile (diff : Diff)
  /-- Reading a nonce gap from the store, without the mutex. -/
  | getDiffs (diff : Diff) (lo hi : ℕ)
  /-- Waiting for the mutex with what it has read. -/
  | relock (diff : Diff) (lo hi : ℕ) (records : Option (List DiffRecord))
  /-- Applying durable records. -/
  | replay (diff : Diff) (records : List DiffRecord)
  /-- About to append a record, for the `attempt`-th time. -/
  | append (vd : ValidatedDiff) (rec : DiffRecord) (attempt : ℕ)
  /-- Waiting for the next attempt, without the mutex. -/
  | backoff (vd : ValidatedDiff) (rec : DiffRecord) (attempt : ℕ)
  /-- Its record is durable. -/
  | commit (vd : ValidatedDiff)
  | sign
  | done (err : Option HostErr)
  deriving DecidableEq

def Point.holds : Point → Bool
  | .next | .reconcile _ | .replay _ _ | .append _ _ _ | .commit _ | .sign => true
  | _ => false

def Point.waits : Point → Bool
  | .lock | .relock _ _ _ _ | .backoff _ _ _ => true
  | _ => false

structure Request where
  call : Call
  /-- The diffs still to take. -/
  diffs : List Diff
  point : Point
  deriving DecidableEq

inductive Signing where
  | signs
  | withholds
  | fails
  deriving DecidableEq

structure Outside where
  warmResolver : Option (List (Address × Address) → Address → Address → Bool) := none
  obsStore : List StoreCall → StoreCall → Bool := fun _ _ => true
  /-- `chainMaxNonce`. -/
  maxNonce : ℕ := 0
  /-- What the diff store does. -/
  fault : Fault := .none
  /-- The context of the request is cancelled. -/
  cancelled : Bool := false
  available : Bool := true
  signing : Signing := .signs
  /-- The stored session is active, and not settled. -/
  active : Bool := true
  /-- The host is bound to the version of the stored session. -/
  sameVersion : Bool := true
  /-- `RebuildValidationObsFromDiffs` works. -/
  rebuilds : Bool := true
  /-- `NewHost` and `NewServer` work. -/
  creates : Bool := true

def Outside.env (recoverAddress : Bytes → Bytes → Option Address) (out : Outside) : Env where
  recoverAddress := recoverAddress
  warmResolver := out.warmResolver
  store := out.obsStore

/-- The state of a request's step: the request, the machine of its host, the store
and the signature it gives, if any. -/
structure Progress where
  request : Request
  world : World
  diffs : OrdMap ℕ DiffRecord
  signed : Option (ℕ × Bytes) := none

namespace Request

def goto (r : Request) (point : Point) : Request := { r with point }

def finish (r : Request) : Request :=
  match r.call with
  | .applyRecoveredDiffs => r.goto .sign
  | _ => r.goto .next

/-- The current diff is refused.  `ApplyCatchUpDiffs` goes on regardless. -/
def fail (r : Request) (err : HostErr) : Request :=
  match r.call with
  | .applyCatchUpDiffs => r.goto .next
  | _ => r.goto (.done (some err))

end Request

section
variable (recoverAddress : Bytes → Bytes → Option Address) (out : Outside)

/-- The first half of `applyAndPersist`: the limit, the trial, the record. -/
def validateForPersist (diff : Diff) (w : World) : Except HostErr (ValidatedDiff × DiffRecord) × World :=
  match checkDiffNonceLimit out.maxNonce diff w.sm with
  | .error e => (.error e, w)
  | .ok _ =>
    match validateDiff (out.env recoverAddress) diff w with
    | .error e w' => (.error (.validateDiff diff.nonce e), w')
    | .ok vd w' => (.ok (vd, vd.record diff w.sm), w')

def applyDurableRecord (rec : DiffRecord) (w : World) : Except HostErr Unit × World :=
  if rec.diff.nonce ≤ w.sm.latestNonce then (.ok (), w)
  else if rec.diff.nonce ≠ w.sm.latestNonce + 1 then
    (.error (.invalidNonce (w.sm.latestNonce + 1) rec.diff.nonce), w)
  else
    match checkDiffNonceLimit out.maxNonce rec.diff w.sm with
    | .error e => (.error e, w)
    | .ok _ =>
      match applyDiff (out.env recoverAddress) rec.diff (injectWarmKeys rec.warmKeyDelta w) with
      | .error e w' => (.error (.applyDurable rec.diff.nonce e), w')
      | .ok root w' =>
        if rec.stateHash.length > 0 ∧ root.length > 0 ∧ root ≠ rec.stateHash then
          (.error (.stateHashMismatch rec.diff.nonce), w')
        else (.ok (), w')

/-- `applyAndPersist`, up to its first append. -/
def Request.persist (r : Request) (diff : Diff) (w : World) (diffs : OrdMap ℕ DiffRecord) :
    Progress :=
  match validateForPersist recoverAddress out diff w with
  | (.error e, w') => { request := r.fail e, world := w', diffs }
  | (.ok (vd, rec), w') => { request := r.goto (.append vd rec 1), world := w', diffs }

/-- The loop head of `applyAndPersistReconciling`. -/
def Request.reconcile (r : Request) (diff : Diff) (w : World) (diffs : OrdMap ℕ DiffRecord) :
    Progress :=
  if diff.nonce ≤ w.sm.latestNonce then { request := r.finish, world := w, diffs }
  else if diff.nonce = w.sm.latestNonce + 1 then r.persist recoverAddress out diff w diffs
  else
    { request := r.goto (.getDiffs diff (w.sm.latestNonce + 1) (diff.nonce - 1)), world := w, diffs }

def Request.reconciled (r : Request) (diff : Diff) (records : List DiffRecord) (w : World)
    (diffs : OrdMap ℕ DiffRecord) : Progress :=
  if diff.nonce ≤ w.sm.latestNonce then { request := r.finish, world := w, diffs }
  else if diff.nonce = w.sm.latestNonce + 1 then r.persist recoverAddress out diff w diffs
  else
    let lo := w.sm.latestNonce + 1
    let hi := diff.nonce - 1
    let records := filterDiffRecordsFrom records lo
    if durableRangeComplete records lo hi = false then
      { request := r.fail (.reconcileGap lo hi records.length), world := w, diffs }
    else { request := r.goto (.replay diff records), world := w, diffs }

/-- One attempt of `AppendDiffWithRetryUnlocked`. -/
def Request.append (r : Request) (vd : ValidatedDiff) (rec : DiffRecord) (attempt : ℕ) (w : World)
    (diffs : OrdMap ℕ DiffRecord) : Progress :=
  let retry : Request :=
    if attempt = persistMaxAttempts then r.fail (.persistExhausted rec.diff.nonce)
    else r.goto (.backoff vd rec attempt)
  if out.cancelled then { request := r.fail (.persistCancelled rec.diff.nonce), world := w, diffs }
  else
    match out.fault with
    | .none =>
      match appendDiff diffs rec with
      | (true, diffs') => { request := r.goto (.commit vd), world := w, diffs := diffs' }
      | (false, diffs') =>
        { request := r.fail (.diffFork rec.diff.nonce), world := w, diffs := diffs' }
    | .before => { request := retry, world := w, diffs }
    | .after => { request := retry, world := w, diffs := (appendDiff diffs rec).2 }

/-- `signIfAccepted`, and what its callers do after it. -/
def Request.sign (r : Request) (w : World) (diffs : OrdMap ℕ DiffRecord) : Progress :=
  let signed : Request :=
    match r.call with
    | .applyRecoveredDiffs => r.goto .next
    | _ => r.goto (.done none)
  match computeStateRoot w.sm.toEscrowState with
  | none => { request := r.goto (.done (some .computeStateRoot)), world := w, diffs }
  | some root =>
    match out.signing with
    | .signs => { request := signed, world := w, diffs, signed := some (w.sm.latestNonce, root) }
    | .withholds => { request := signed, world := w, diffs }
    | .fails => { request := r.goto (.done (some .signState)), world := w, diffs }

def Request.takeNext (r : Request) (w : World) (diffs : OrdMap ℕ DiffRecord) : Progress :=
  match r.diffs, r.call with
  | [], .handleRequest => { request := r.goto .sign, world := w, diffs }
  | [], _ => { request := r.goto (.done none), world := w, diffs }
  | diff :: rest, .handleRequest =>
    match checkDiffNonceLimit out.maxNonce diff w.sm with
    | .error e => { request := r.goto (.done (some e)), world := w, diffs }
    | .ok _ => { request := { r with diffs := rest, point := .reconcile diff }, world := w, diffs }
  | diff :: rest, _ =>
    { request := { r with diffs := rest, point := .reconcile diff }, world := w, diffs }

def Request.step (r : Request) (w : World) (diffs : OrdMap ℕ DiffRecord) : Progress :=
  match r.point with
  | .lock =>
    if r.call = .handleRequest ∧ out.available = false then
      { request := r.goto (.done (some .requestsDisabled)), world := w, diffs }
    else { request := r.goto .next, world := w, diffs }
  | .next => r.takeNext out w diffs
  | .reconcile diff => r.reconcile recoverAddress out diff w diffs
  | .getDiffs diff lo hi =>
    let records := if out.fault = .none then some (Devshard.getDiffs diffs lo hi) else none
    { request := r.goto (.relock diff lo hi records), world := w, diffs }
  | .relock _ lo hi none => { request := r.fail (.getDiffs lo hi), world := w, diffs }
  | .relock diff _ _ (some records) => r.reconciled recoverAddress out diff records w diffs
  | .replay diff [] => { request := r.goto (.reconcile diff), world := w, diffs }
  | .replay diff (rec :: records) =>
    match applyDurableRecord recoverAddress out rec w with
    | (.error e, w') => { request := r.fail e, world := w', diffs }
    | (.ok _, w') => { request := r.goto (.replay diff records), world := w', diffs }
  | .append vd rec attempt => r.append out vd rec attempt w diffs
  | .backoff vd rec attempt =>
    if out.cancelled then { request := r.fail (.persistCancelled rec.diff.nonce), world := w, diffs }
    else { request := r.goto (.append vd rec (attempt + 1)), world := w, diffs }
  | .commit vd =>
    { request := r.finish, world := (commitValidated (out.env recoverAddress) vd w).2, diffs }
  | .sign => r.sign out w diffs
  | .done _ => { request := r, world := w, diffs }

end

/-- A running host: its machine, the request that holds its mutex, its requests. -/
structure Host where
  world : World
  holder : Option ℕ := none
  requests : List Request := []

structure StateSignature where
  host : ℕ
  nonce : ℕ
  root : Bytes
  deriving DecidableEq

structure Cluster where
  /-- The durable diffs. -/
  diffs : OrdMap ℕ DiffRecord := ∅
  /-- The hosts that are running. -/
  hosts : OrdMap ℕ Host := ∅
  /-- Every state signature given so far. -/
  signed : List StateSignature := []

inductive Event where
  /-- A host starts with a fresh machine. -/
  | start (host : ℕ)
  | crash (host : ℕ)
  /-- A host starts with the records up to a nonce it has read from the store. -/
  | recover (host : ℕ) (latestNonce : ℕ) (out : Outside)
  | request (host : ℕ) (call : Call) (diffs : List Diff)
  /-- The `i`-th request of a host takes its next step. -/
  | step (host : ℕ) (i : ℕ) (out : Outside)

section
variable (recoverAddress : Bytes → Bytes → Option Address)

/-- The replay of `recoverStoredSession`. -/
def recoverRecords (env : Env) : List DiffRecord → World → Option World
  | [], w => some w
  | rec :: records, w =>
    match applyLocal env rec.diff.nonce rec.diff.txs (injectWarmKeys rec.warmKeyDelta w) with
    | .error _ _ => none
    | .ok root w' =>
      if rec.stateHash.length > 0 ∧ root.length > 0 ∧ root ≠ rec.stateHash then none
      else recoverRecords env records w'

/-- `recoverStoredSession`, with the latest nonce of the session's metadata.  A fault is one of the
reads of the metadata and of the diffs; the observability is rebuilt only where there are diffs. -/
def recoverStoredSession (out : Outside) (sm₀ : StateMachine) (latestNonce : ℕ)
    (diffs : OrdMap ℕ DiffRecord) : Option World :=
  if out.fault ≠ .none then none
  else if out.active = false then none
  else if out.sameVersion = false then none
  else
    match recoverRecords (out.env recoverAddress) (getDiffs diffs 1 latestNonce) { sm := sm₀ } with
    | none => none
    | some w =>
      if latestNonce > 0 ∧ out.rebuilds = false then none
      else if out.creates = false then none
      else some w

/-- The mutex after a step to `point`, if request `i` made it with the mutex. -/
def Host.holderAfter (h : Host) (i : ℕ) (before after : Point) : Option ℕ :=
  if before.holds || before.waits then (if after.holds then some i else none) else h.holder

/-- One step of request `i`, unless it waits for a mutex that is taken. -/
def Cluster.stepRequest (out : Outside) (name : ℕ) (h : Host) (i : ℕ) (c : Cluster) : Cluster :=
  match h.requests[i]? with
  | none => c
  | some r =>
    if r.point.waits = true ∧ h.holder ≠ none then c
    else
      let p := r.step recoverAddress out h.world c.diffs
      { diffs := p.diffs
        hosts := c.hosts.insert name
          { world := p.world
            holder := h.holderAfter i r.point p.request.point
            requests := h.requests.set i p.request }
        signed := c.signed ++ (p.signed.map fun s => ⟨name, s.1, s.2⟩).toList }

variable (sm₀ : StateMachine)

def Cluster.step (ev : Event) (c : Cluster) : Cluster :=
  match ev with
  | .start name =>
    match c.hosts.get? name with
    | some _ => c
    | none => { c with hosts := c.hosts.insert name { world := { sm := sm₀ } } }
  | .crash name => { c with hosts := c.hosts.erase name }
  | .recover name latestNonce out =>
    match c.hosts.get? name with
    | some _ => c
    | none =>
      match recoverStoredSession recoverAddress out sm₀ latestNonce c.diffs with
      | none => c
      | some w => { c with hosts := c.hosts.insert name { world := w } }
  | .request name call diffs =>
    match c.hosts.get? name with
    | none => c
    | some h =>
      let h := { h with requests := h.requests ++ [⟨call, diffs, .lock⟩] }
      { c with hosts := c.hosts.insert name h }
  | .step name i out =>
    match c.hosts.get? name with
    | none => c
    | some h => c.stepRequest recoverAddress out name h i

/-- A run, from no hosts and no diffs. -/
def Cluster.run (events : List Event) (c : Cluster) : Cluster :=
  events.foldl (fun c ev => c.step recoverAddress sm₀ ev) c

end

end Devshard
