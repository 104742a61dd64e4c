/-
Threshold signing requests, as the BLS module keeps them.

A request collects partial signatures of the slots of an epoch until `t + 1` slots are
covered.  One that expires, or whose signatures do not aggregate, starts over as its next
attempt, with the same message hash, as long as there are attempts left.  Then it ends as
EXPIRED or FAILED, and a hook of another module may close it, which makes it CANCELLED.

The module keeps four stores: the requests, one entry for each submitter of a partial
signature, an index of the collecting requests by deadline, and a queue of completion hooks
to run again.  The hooks work on the state `β` of the other module only.

The cryptography is left open: `Crypto` has the hash, the check of one signature share and
the interpolation, and the code around them is here as it stands.  Logging and events are
left out, and so are the inline signatures of requests stored before the split into
sub-keys, which a store that starts empty never has.
-/
import Gonka.Lib.Along
import Gonka.Lib.OrdMap
import Gonka.Lib.Wire
import Mathlib.Data.Prod.Lex

namespace ThresholdSigning

abbrev RequestId := Bytes
abbrev Address := Bytes

inductive DKGPhase where
  | undefined | dealing | verifying | completed | failed | signed | disputing
  deriving DecidableEq

/-- The slots of a participant, both ends included. -/
structure BLSParticipantInfo where
  address : Address
  slotStartIndex : ℕ
  slotEndIndex : ℕ

structure EpochBLSData where
  tSlotsDegree : ℕ
  participants : List BLSParticipantInfo
  dkgPhase : DKGPhase
  groupPublicKey : Bytes
  slotPublicKeys : List Bytes
  disputingPhaseDeadlineBlock : ℤ

/-- The parameters that signing reads; `Params.Validate` asks for a positive deadline. -/
structure Params where
  signingDeadlineBlocks : ℕ
  maxSigningAttempts : ℕ
  completedFallbackBlocks : ℤ
  signingDeadlineBlocks_pos : 0 < signingDeadlineBlocks

/-- `Params.MaxSigningAttempts`, with its default for the stores that lack it. -/
def Params.maxAttempts (p : Params) : ℕ :=
  if p.maxSigningAttempts = 0 then 3 else p.maxSigningAttempts

theorem Params.maxAttempts_pos (p : Params) : 1 ≤ p.maxAttempts := by
  unfold Params.maxAttempts
  split <;> omega

/-- What is taken from the cryptographic libraries. -/
structure Crypto where
  keccak256 : Bytes → Bytes
  /-- one share of 48 bytes against the message hash and the public key of its slot -/
  checkShare : Bytes → Bytes → Bytes → Bool
  /-- a share is a valid point -/
  validPoint : Bytes → Bool
  /-- the shares, combined with the Lagrange coefficients of their slots -/
  interpolate : List (ℕ × Bytes) → Option Bytes

structure Env where
  params : Params
  epochs : ℕ → Option EpochBLSData
  crypto : Crypto

/-! ### Requests and their stores -/

inductive Status where
  | collecting | completed | failed | expired | cancelled
  deriving DecidableEq

structure PartialSignature where
  participantAddress : Address
  slotIndices : List ℕ
  signature : Bytes
  deriving DecidableEq

structure SigningData where
  currentEpochId : ℕ
  chainId : Bytes
  requestId : RequestId
  data : List Bytes

structure ThresholdSigningRequest where
  requestId : RequestId
  currentEpochId : ℕ
  chainId : Bytes
  data : List Bytes
  encodedData : Bytes
  messageHash : Bytes
  status : Status
  finalSignature : Bytes
  createdBlockHeight : ℕ
  deadlineBlockHeight : ℕ
  attempt : ℕ
  deriving DecidableEq

/-- A partial signature that was accepted, with the attempt and the message it was for. -/
structure Acceptance where
  requestId : RequestId
  attempt : ℕ
  messageHash : Bytes
  partialSig : PartialSignature
  deriving DecidableEq

/-- The stores of the module.  `accepted` is no part of them: it is what the blocks of the
chain show, all partial signatures ever accepted. -/
structure Store where
  requests : OrdMap RequestId ThresholdSigningRequest := ∅
  partials : OrdMap RequestId (OrdMap Address PartialSignature) := ∅
  expirations : OrdMap (ℕ ×ₗ RequestId) Unit := ∅
  completedRetries : OrdMap RequestId Unit := ∅
  accepted : List Acceptance := []

/-- The state of this module and of the one that listens to its hooks. -/
structure World (β : Type*) where
  store : Store
  app : β

/-- The hooks; `none` is an error, whose effects are dropped with the cache they were made
in. -/
structure Hooks (β : Type*) where
  afterThresholdSigningCompleted : RequestId → ℕ → β → Option β
  afterThresholdSigningFailed : RequestId → ℕ → β → Option (Bool × β)

/-- The errors of the messages, one for each text. -/
inductive SigningError where
  | epochNotFound
  | fallbackMissingDeadline
  | fallbackDisabled
  | fallbackNotYet
  | epochNotSigned
  | noGroupPublicKey
  | alreadyExists (status : Status)
  | payloadMismatch
  | maxAttemptsReached (attempt : ℕ)
  | notFound
  | notCancellable (status : Status)
  | notCollecting (status : Status)
  | duplicateSlot
  | notParticipant
  | slotNotOwned
  | verificationFailed
  | alreadySubmitted
  | missingAddress
  deriving DecidableEq

namespace Store

def removeFromExpirationIndex (deadline : ℕ) (id : RequestId) (s : Store) : Store :=
  { s with expirations := s.expirations.erase (toLex (deadline, id)) }

/-- The entry that is set under `ExpirationIndexKey`. -/
def setExpiration (deadline : ℕ) (id : RequestId) (s : Store) : Store :=
  { s with expirations := s.expirations.insert (toLex (deadline, id)) () }

/-- `storeThresholdSigningRequest`, of a request without inline signatures. -/
def storeRequest (request : ThresholdSigningRequest) (s : Store) : Store :=
  { s with requests := s.requests.insert request.requestId request }

/-- The sub-keys under `ThresholdPartialSigRequestPrefix`. -/
def partialsOf (id : RequestId) (s : Store) : OrdMap Address PartialSignature :=
  (s.partials.get? id).getD ∅

/-- `ListThresholdPartialSignatures`. -/
def listPartials (id : RequestId) (s : Store) : List PartialSignature :=
  (s.partialsOf id).entries.map (·.2)

/-- `DeleteThresholdPartialSignaturesForRequest`. -/
def deletePartials (id : RequestId) (s : Store) : Store :=
  { s with partials := s.partials.erase id }

/-- `SetThresholdPartialSignature` for a request, on the record. -/
def setPartial (request : ThresholdSigningRequest) (ps : PartialSignature) (s : Store) : Store :=
  { s with
    partials := s.partials.insert request.requestId
      ((s.partialsOf request.requestId).insert ps.participantAddress ps)
    accepted := ⟨request.requestId, request.attempt, request.messageHash, ps⟩ :: s.accepted }

end Store

section

variable (env : Env)

def validateThresholdSigningEpochPhase (height : ℕ) (epoch : EpochBLSData) :
    Except SigningError Unit :=
  match epoch.dkgPhase with
  | .signed => .ok ()
  | .completed =>
    if epoch.disputingPhaseDeadlineBlock ≤ 0 then .error .fallbackMissingDeadline
    else if env.params.completedFallbackBlocks = 0 then .error .fallbackDisabled
    else if (height : ℤ) < epoch.disputingPhaseDeadlineBlock + env.params.completedFallbackBlocks then
      .error .fallbackNotYet
    else .ok ()
  | _ => .error .epochNotSigned

/-- `encodeSigningData`: abi.encodePacked of epoch, chain, request and data. -/
def encodeSigningData (data : SigningData) : Bytes :=
  Wire.beBytes 8 data.currentEpochId ++ data.chainId ++ data.requestId ++ data.data.flatten

/-- The request that `RequestThresholdSignature` stores. -/
def newRequest (height attempt : ℕ) (data : SigningData) : ThresholdSigningRequest where
  requestId := data.requestId
  currentEpochId := data.currentEpochId
  chainId := data.chainId
  data := data.data
  encodedData := encodeSigningData data
  messageHash := env.crypto.keccak256 (encodeSigningData data)
  status := .collecting
  finalSignature := []
  createdBlockHeight := height
  deadlineBlockHeight := height + env.params.signingDeadlineBlocks
  attempt := attempt

def createRequest (height attempt : ℕ) (data : SigningData) (s : Store) : Store :=
  let request := newRequest env height attempt data
  (s.storeRequest request).setExpiration request.deadlineBlockHeight request.requestId

def requestThresholdSignature (height : ℕ) (data : SigningData) (s : Store) :
    Except SigningError Store :=
  match env.epochs data.currentEpochId with
  | none => .error .epochNotFound
  | some epoch =>
    match validateThresholdSigningEpochPhase env height epoch with
    | .error e => .error e
    | .ok () =>
      if epoch.groupPublicKey = [] then .error .noGroupPublicKey
      else match s.requests.get? data.requestId with
        | none => .ok (createRequest env height 1 data s)
        | some existing =>
          -- a retry is for requests that ended without a signature
          if existing.status ≠ .failed ∧ existing.status ≠ .expired then
            .error (.alreadyExists existing.status)
          else if existing.chainId ≠ data.chainId ∨ existing.data ≠ data.data then
            .error .payloadMismatch
          else if env.params.maxAttempts ≤ existing.attempt then
            .error (.maxAttemptsReached existing.attempt)
          else
            .ok (createRequest env height (existing.attempt + 1) data
              ((s.removeFromExpirationIndex existing.deadlineBlockHeight data.requestId).deletePartials
                data.requestId))

def cancelThresholdSignature (id : RequestId) (s : Store) : Except SigningError Store :=
  match s.requests.get? id with
  | none => .error .notFound
  | some request =>
    if request.status = .cancelled then .ok s
    else if request.status ≠ .failed ∧ request.status ≠ .expired then
      .error (.notCancellable request.status)
    else .ok (s.storeRequest { request with status := .cancelled })

/-- The request that `maybeAutoRetryThresholdSigningRequest` stores: the next attempt at the
same message. -/
def retryRequest (height : ℕ) (request : ThresholdSigningRequest) : ThresholdSigningRequest :=
  { request with
    attempt := request.attempt + 1
    status := .collecting
    finalSignature := []
    deadlineBlockHeight := height +
      (if env.params.signingDeadlineBlocks = 0 then 10 else env.params.signingDeadlineBlocks) }

/-- `maybeAutoRetryThresholdSigningRequest`; `none` when no attempt is left. -/
def maybeAutoRetryThresholdSigningRequest (height : ℕ) (request : ThresholdSigningRequest)
    (s : Store) : Option Store :=
  if env.params.maxAttempts ≤ request.attempt then none
  else
    let retryReq := retryRequest env height request
    some ((((s.deletePartials request.requestId).removeFromExpirationIndex
      request.deadlineBlockHeight request.requestId).setExpiration
        retryReq.deadlineBlockHeight retryReq.requestId).storeRequest retryReq)

variable {β : Type*} (hooks : Hooks β)

/-- `maybeCloseRetryAfterFailedPostProcess`: the hook runs in a cache that an error drops. -/
def maybeCloseRetryAfterFailedPostProcess (request : ThresholdSigningRequest) (w : World β) :
    World β :=
  match hooks.afterThresholdSigningFailed request.requestId request.currentEpochId w.app with
  | none => w
  | some (true, app) => ⟨w.store.storeRequest { request with status := .cancelled }, app⟩
  | some (false, app) => ⟨w.store, app⟩

def finalizeFailedThresholdSigningRequest (request : ThresholdSigningRequest) (status : Status)
    (w : World β) : World β :=
  let request := { request with status := status, finalSignature := [] }
  maybeCloseRetryAfterFailedPostProcess hooks request
    ⟨(w.store.removeFromExpirationIndex request.deadlineBlockHeight request.requestId).storeRequest
      request, w.app⟩

def retryOrFinalize (height : ℕ) (request : ThresholdSigningRequest) (status : Status)
    (w : World β) : World β :=
  match maybeAutoRetryThresholdSigningRequest env height request w.store with
  | some store => ⟨store, w.app⟩
  | none => finalizeFailedThresholdSigningRequest hooks request status w

/-! ### Partial signatures -/

/-- The `i`-th share of 48 bytes. -/
def share (signature : Bytes) (i : ℕ) : Bytes := (signature.drop (48 * i)).take 48

def shares (slots : List ℕ) (signature : Bytes) : List (ℕ × Bytes) :=
  slots.zipIdx.map fun (slot, i) => (slot, share signature i)

def wellSized (slots : List ℕ) (signature : Bytes) : Bool :=
  signature.length % 48 == 0 && signature.length / 48 == slots.length

def validateSlotOwnership (submitter : Address) (slots : List ℕ) (epoch : EpochBLSData) :
    Except SigningError Unit :=
  match epoch.participants.find? (fun p => p.address == submitter) with
  | none => .error .notParticipant
  | some p =>
    if slots.all (fun slot => decide (p.slotStartIndex ≤ slot ∧ slot ≤ p.slotEndIndex)) then .ok ()
    else .error .slotNotOwned

def verifyBLSPartialSignatureBlst (signature messageHash : Bytes) (epoch : EpochBLSData)
    (slots : List ℕ) : Bool :=
  wellSized slots signature && (shares slots signature).all fun (slot, sig) =>
    match epoch.slotPublicKeys[slot]? with
    | none => false
    | some key => env.crypto.checkShare sig messageHash key

def verifyPartialSignature (signature messageHash : Bytes) (slots : List ℕ)
    (epoch : EpochBLSData) : Bool :=
  messageHash.length == 32 && !slots.isEmpty &&
    verifyBLSPartialSignatureBlst env signature messageHash epoch slots

def coveredSlots (partials : List PartialSignature) : List ℕ := partials.flatMap (·.slotIndices)

/-- `aggregatePartialSignatures` with `aggregateBLSPartialSignaturesBlst`: the slots must be
pairwise distinct. -/
def aggregatePartialSignatures (partials : List PartialSignature) : Option Bytes :=
  if !partials.all (fun ps => wellSized ps.slotIndices ps.signature) then none
  else if ¬ (coveredSlots partials).Nodup then none
  else
    let slotSigs := partials.flatMap fun ps => shares ps.slotIndices ps.signature
    if !slotSigs.all (fun slotSig => env.crypto.validPoint slotSig.2) then none
    else if coveredSlots partials = [] then none
    else env.crypto.interpolate slotSigs

def enqueueCompletedPostProcessRetry (id : RequestId) (s : Store) : Store :=
  if id = [] then s else { s with completedRetries := s.completedRetries.insert id () }

def completedPostProcess (request : ThresholdSigningRequest) (w : World β) : World β :=
  match hooks.afterThresholdSigningCompleted request.requestId request.currentEpochId w.app with
  | some app => ⟨w.store, app⟩
  | none => ⟨enqueueCompletedPostProcessRetry request.requestId w.store, w.app⟩

def checkThresholdAndAggregate (height : ℕ) (request : ThresholdSigningRequest)
    (partials : List PartialSignature) (epoch : EpochBLSData) (w : World β) : World β :=
  if (coveredSlots partials).length < epoch.tSlotsDegree + 1 then w
  else match aggregatePartialSignatures env partials with
    | none => retryOrFinalize env hooks height request .failed w
    | some finalSignature =>
      let request := { request with status := .completed, finalSignature := finalSignature }
      completedPostProcess hooks request
        ⟨(w.store.removeFromExpirationIndex request.deadlineBlockHeight request.requestId).storeRequest
          request, w.app⟩

def addPartialSignature (height : ℕ) (id : RequestId) (slots : List ℕ) (signature : Bytes)
    (submitter : Address) (w : World β) : Except SigningError (World β) :=
  match w.store.requests.get? id with
  | none => .error .notFound
  | some request =>
    if request.status ≠ .collecting then .error (.notCollecting request.status)
    -- a late signature ends the attempt, and is not an error
    else if request.deadlineBlockHeight < height then
      .ok (retryOrFinalize env hooks height request .expired w)
    else match env.epochs request.currentEpochId with
      | none => .error .epochNotFound
      | some epoch =>
        if ¬ slots.Nodup then .error .duplicateSlot
        else match validateSlotOwnership submitter slots epoch with
          | .error e => .error e
          | .ok () =>
            if ¬ verifyPartialSignature env signature request.messageHash slots epoch then
              .error .verificationFailed
            else if ((w.store.partialsOf request.requestId).get? submitter).isSome then
              .error .alreadySubmitted
            else if submitter = [] then .error .missingAddress
            else
              let newPartial : PartialSignature := ⟨submitter, slots, signature⟩
              .ok (checkThresholdAndAggregate env hooks height request
                (w.store.listPartials request.requestId ++ [newPartial]) epoch
                ⟨(w.store.setPartial request newPartial).storeRequest request, w.app⟩)

/-- The loop of `ProcessThresholdSigningDeadlines` over the index, up to the limit: the due
entries, and the keys that `parseExpirationIndexEntry` rejects, which are those without an
id. -/
def collectExpired (height : ℕ) : ℕ → List (ℕ ×ₗ RequestId) →
    List (ℕ × RequestId) × List (ℕ × RequestId)
  | 0, _ => ([], [])
  | _ + 1, [] => ([], [])
  | room + 1, key :: keys =>
    let item := ofLex key
    if item.2 = [] then
      let rest := collectExpired height room keys
      (rest.1, item :: rest.2)
    else if height < item.1 then ([], [])
    else
      let rest := collectExpired height room keys
      (item :: rest.1, rest.2)

def maxExpiredRequestsPerBlock : ℕ := 200

def maxCompletedPostProcessRetriesPerBlock : ℕ := 100

/-- The body of the second loop of `ProcessThresholdSigningDeadlines`. -/
def processExpired (height : ℕ) (w : World β) (item : ℕ × RequestId) : World β :=
  match w.store.requests.get? item.2 with
  | none => { w with store := w.store.removeFromExpirationIndex item.1 item.2 }
  | some request =>
    if request.status ≠ .collecting ∨ request.deadlineBlockHeight ≠ item.1 then
      { w with store := w.store.removeFromExpirationIndex item.1 item.2 }
    else retryOrFinalize env hooks height request .expired w

def processThresholdSigningDeadlines (height : ℕ) (w : World β) : World β :=
  let due := collectExpired height maxExpiredRequestsPerBlock w.store.expirations.keys
  let cleaned := due.2.foldl (fun s item => s.removeFromExpirationIndex item.1 item.2) w.store
  due.1.foldl (processExpired env hooks height) ⟨cleaned, w.app⟩

/-- The body of the loop of `ProcessCompletedPostProcessRetries`. -/
def processCompletedRetry (w : World β) (id : RequestId) : World β :=
  let dequeued := { w.store with completedRetries := w.store.completedRetries.erase id }
  if id = [] then ⟨dequeued, w.app⟩
  else match w.store.requests.get? id with
    | none => ⟨dequeued, w.app⟩
    | some request =>
      if request.status ≠ .completed then ⟨dequeued, w.app⟩
      else match hooks.afterThresholdSigningCompleted request.requestId request.currentEpochId w.app with
        | none => w
        | some app => ⟨dequeued, app⟩

def processCompletedPostProcessRetries (w : World β) : World β :=
  (w.store.completedRetries.keys.take maxCompletedPostProcessRetriesPerBlock).foldl
    (processCompletedRetry hooks) w

/-- `EndBlock` of the module, as far as signing goes. -/
def endBlock (height : ℕ) (w : World β) : World β :=
  processCompletedPostProcessRetries hooks (processThresholdSigningDeadlines env hooks height w)

structure Chain (β : Type*) where
  world : World β
  height : ℕ

/-- What happens: messages of the block, and its end, after which the height grows by
`1 + skipped`.  The hooks may do anything to the state of their module, each time. -/
inductive Event (β : Type*) where
  | request (data : SigningData)
  | addPartial (hooks : Hooks β) (id : RequestId) (slots : List ℕ) (signature : Bytes)
      (submitter : Address)
  | cancel (id : RequestId)
  | endBlock (hooks : Hooks β) (skipped : ℕ)

def commit {α : Type*} (s : α) : Except SigningError α → α
  | .ok s' => s'
  | .error _ => s

def step : Event β → Chain β → Chain β
  | .request data, c =>
    { c with world.store :=
        commit c.world.store (requestThresholdSignature env c.height data c.world.store) }
  | .addPartial hooks id slots signature submitter, c =>
    { c with world :=
        commit c.world (addPartialSignature env hooks c.height id slots signature submitter c.world) }
  | .cancel id, c =>
    { c with world.store := commit c.world.store (cancelThresholdSignature id c.world.store) }
  | .endBlock hooks skipped, c =>
    ⟨endBlock env hooks c.height c.world, c.height + 1 + skipped⟩

end

end ThresholdSigning
