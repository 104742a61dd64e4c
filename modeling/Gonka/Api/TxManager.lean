/-
Transactions of an API node (`tx_manager`).

An API node hands its duty transactions to a transaction manager.  A transaction that
cannot be broadcast goes to the stream `txs_to_send`, from where the sender loop takes
it; one that was broadcast goes to `txs_to_observe`, until the observer loop finds it on
chain or puts it back.  PoC validations are first collected by a batch consumer, which
merges them by height.

A message of a stream is pending until its handler acknowledges or terminates it.  One
call of a handler or of the API is one step; what the chain, the clock and the streams
answer to it is its `Env`.  Raw bytes are modelled by what they unpack to, and an id by a
number, where 0 is the empty string.
-/
import Mathlib.Data.Nat.Basic
import Mathlib.Data.UInt
import Mathlib.Algebra.Order.Ring.Int
import Gonka.Lib.Crash
import Gonka.Lib.OrdMap

namespace TxManager

open Crash (Fault)

/-! ### Messages and gas -/

/-- Times and durations in nanoseconds; 0 is the zero time. -/
abbrev Time := ℕ

def second : Time := 1000000000

structure PoCValidationEntryV2 where
  participantAddress : String
  validatedWeight : ℤ
  modelId : String
  deriving DecidableEq

structure MsgSubmitPocValidationsV2 where
  creator : String
  pocStageStartBlockHeight : ℤ
  validations : List PoCValidationEntryV2
  deriving DecidableEq

/-- The message types whose gas does not depend on their contents. -/
inductive MsgType where
  | submitPocBatch
  | submitHardwareDiff
  | claimRewards
  | submitSeed
  | submitNewParticipant
  | submitNewUnfundedParticipant
  | bridgeExchange
  | submitDealerPart
  | submitVerificationVector
  | submitGroupKeyValidationSignature
  | respondDealerComplaints
  | requestThresholdSignature
  | submitPartialSignature
  | depositCollateral
  /-- Any type that `lookupMsgGas` does not list. -/
  | other
  deriving DecidableEq

/-- `sdk.Msg`.  Contents that nothing here reads are a text. -/
inductive Msg where
  | submitPocValidationsV2 (msg : MsgSubmitPocValidationsV2)
  /-- The counts of the entries. -/
  | poCV2StoreCommit (counts : List UInt32) (rest : String)
  /-- The numbers of weights of the entries. -/
  | mlNodeWeightDistribution (weights : List ℕ) (rest : String)
  | plain (type : MsgType) (body : String)
  deriving DecidableEq

def MsgType.gas : MsgType → UInt64
  | .submitPocBatch => 500000
  | .submitHardwareDiff => 500000
  | .claimRewards => 700000
  | .submitSeed => 80000
  | .submitNewParticipant => 150000
  | .submitNewUnfundedParticipant => 150000
  | .bridgeExchange => 500000
  | .submitDealerPart => 140000000
  | .submitVerificationVector => 140000000
  | .submitGroupKeyValidationSignature => 160000000
  | .respondDealerComplaints => 150000000
  | .requestThresholdSignature => 2000000
  | .submitPartialSignature => 5000000
  | .depositCollateral => 100000
  | .other => 500000

def estimateMsgGas : Msg → UInt64
  | .submitPocValidationsV2 _ => 250000
  | .poCV2StoreCommit counts _ => 600000 + (counts.map (·.toUInt64)).sum * 150
  | .mlNodeWeightDistribution weights _ => 100000 + (weights.map (·.toUInt64)).sum * 50000
  | .plain type _ => type.gas

def batchGasLimit : UInt64 := 1000000000

def txOverheadGas : UInt64 := 50000

/-- `uint64(float64(gas) * 2.0)`.  It is exact up to the limit; above it only matters that
the result is above it too. -/
def doubleGas (gas : UInt64) : UInt64 := if batchGasLimit < gas then gas else gas * 2

/-- The loop of `estimateBatchGas`. -/
def raiseGas : ℕ → UInt64 → UInt64
  | 0, gas => gas
  | i + 1, gas => if batchGasLimit < doubleGas gas then doubleGas gas else raiseGas i (doubleGas gas)

def estimateBatchGas (msgs : List Msg) (attempt : ℕ) : UInt64 :=
  let gas := raiseGas attempt (txOverheadGas + (msgs.map estimateMsgGas).sum)
  if batchGasLimit < gas then batchGasLimit else gas

def defaultMaxBlocks : ℤ := 30

def getMaxBlocksForType : Msg → ℤ
  | .submitPocValidationsV2 _ => 240
  | _ => defaultMaxBlocks

structure TxResponse where
  code : ℕ := 0
  rawLog : String := ""
  txHash : String := ""
  deriving DecidableEq

inductive TxResponseAction where
  | observe
  | retry
  | fail
  deriving DecidableEq

def contains (pattern : List Char) : List Char → Bool
  | [] => pattern.isEmpty
  | c :: rest => pattern.isPrefixOf (c :: rest) || contains pattern rest

def retryablePatterns : List String :=
  ["connection refused", "connection reset", "i/o timeout", "context deadline exceeded",
    "broken pipe", "eof", "no such host", "network is unreachable", "no route to host",
    "certificate", "post failed", "bad gateway", "service unavailable", "gateway timeout",
    "rpc error", "aborted", "too many open files", "mempool is full",
    "account sequence mismatch", "incorrect account sequence",
    "unordered transaction has a timeout_timestamp that has already passed",
    "unordered tx ttl exceeds", "out of gas"]

/-- `unicode.ToLower`, as far as it yields a letter of the patterns: two characters outside
ASCII do. -/
def toLower (c : Char) : Char :=
  if c.toNat = 0x130 then 'i' else if c.toNat = 0x212a then 'k' else c.toLower

def isRetryableRawLog (rawLog : String) : Bool :=
  retryablePatterns.any fun pattern => contains pattern.toList (rawLog.toList.map toLower)

def isRetryableBroadcastError (err : String) : Bool := isRetryableRawLog err

def classifyBroadcastResponse : Option TxResponse → TxResponseAction
  | none => .retry
  | some resp =>
    if resp.code = 0 then .observe
    else if resp.code = 19 then .observe
    else if resp.code = 20 then .retry
    else if isRetryableRawLog resp.rawLog then .retry
    else .fail

/-- What all callers do with a broadcast: an error is retried or final, and a response is
classified. -/
def actionOf : Except String (Option TxResponse) → TxResponseAction
  | .error err => if isRetryableBroadcastError err then .retry else .fail
  | .ok resp => classifyBroadcastResponse resp

/-! ### Streams and their contents -/

structure TxInfo where
  id : ℕ
  /-- What `RawTx` unpacks to. -/
  rawTx : Option Msg := none
  /-- What each element of `RawBatch` unpacks to. -/
  rawBatch : List (Option Msg) := []
  txHash : String := ""
  timeout : Time := 0
  attempts : ℕ := 0
  deadlineBlock : ℤ := 0
  deriving DecidableEq

structure TxToSend where
  txInfo : TxInfo
  sent : Bool
  attempts : ℕ
  requeueTime : Time := 0
  deriving DecidableEq

/-- A transaction has one message, or several. -/
inductive Payload where
  | tx (rawTx : Msg)
  | batch (msgs : List Msg)
  deriving DecidableEq

def Payload.msgs : Payload → List Msg
  | .tx rawTx => [rawTx]
  | .batch msgs => msgs

def unpackTx (raw : Option Msg) : Option Msg := raw

/-- Elements that do not unpack are skipped; some element has to. -/
def unpackBatch (rawBatch : List (Option Msg)) : Option (List Msg) :=
  match rawBatch.filterMap unpackTx with
  | [] => none
  | msg :: msgs => some (msg :: msgs)

def TxInfo.isBatch (info : TxInfo) : Bool := 0 < info.rawBatch.length

def TxInfo.unpack (info : TxInfo) : Option Payload :=
  if info.isBatch then (unpackBatch info.rawBatch).map .batch else (unpackTx info.rawTx).map .tx

structure SyncInfo where
  latestBlockTime : Time
  catchingUp : Bool

/-- The order in which Go walks a map of messages, which may be any. -/
structure MapOrder where
  walk : List Msg → List Msg
  perm : ∀ msgs, (walk msgs).Perm msgs

structure Env where
  now : Time
  /-- `getLatestBlockHeight`. -/
  height : ℤ := 0
  /-- `client.Status`, and what it answers if signing asks again. -/
  status : Except String SyncInfo
  signStatus : Except String SyncInfo := .error ""
  /-- `getJitteredDelay`. -/
  jitteredDelay : Time := 0
  /-- An error of `getFactory` or `BuildUnsignedTx`, and of signing and encoding. -/
  build : Option String := none
  sign : Option String := none
  /-- `BroadcastTxSync`. -/
  broadcast : Except String TxResponse := .ok {}
  /-- `PublishMsg`.  An error of `Marshal` is a failure before the effect. -/
  publish : Fault := .none
  /-- `Client.Tx`, which finds the transaction or fails. -/
  query : Except String Unit := .ok ()
  order : MapOrder := ⟨id, List.Perm.refl⟩

inductive Reply where
  | ack
  | term
  | nak
  deriving DecidableEq

def publish {α : Type} (w : Fault) (a : α) (stream : List α) : Bool × List α :=
  match w with
  | .none => (true, stream ++ [a])
  | .before => (false, stream)
  | .after => (false, stream ++ [a])

/-! ### The manager -/

structure BlockTimeTracker where
  latestBlockTime : Time := 0
  lastUpdatedAt : Time := 0
  pauseSending : Bool := false

def maxBlockTimeout : Time := 10 * second

def maxBlockTimeDrift : Time := 120 * second

def maxAttempts : ℕ := 100

/-- Ghost: one call of `broadcastMessagesAtAttempt`. -/
structure Attempt where
  id : ℕ
  msgs : List Msg
  gasWanted : UInt64
  /-- It came to `BroadcastTxSync`. -/
  sent : Bool
  action : TxResponseAction
  deriving DecidableEq

/-- `uuid.New`, call by call: never the empty id, and no id twice. -/
structure UuidSource where
  new : ℕ → ℕ
  ne_zero : ∀ n, new n ≠ 0
  injective : Function.Injective new

structure Manager where
  defaultTimeout : Time
  blockTimeTracker : BlockTimeTracker := {}
  lastNanos : ℕ := 0
  /-- The pending messages of `txs_to_send`; `none` is one that does not unmarshal. -/
  toSend : List (Option TxToSend) := []
  /-- The pending messages of `txs_to_observe`. -/
  toObserve : List (Option TxInfo) := []
  uuid : UuidSource
  /-- The ids that `uuid.New` has given. -/
  issued : ℕ := 0
  /-- Ghost: what was handed to the manager. -/
  handed : List (ℕ × List Msg) := []
  /-- Ghost: the broadcasts. -/
  log : List Attempt := []
  /-- Ghost: the hashes that were found on chain. -/
  found : List String := []

def isNodeBehind (now : Time) (syncInfo : SyncInfo) : Bool :=
  syncInfo.catchingUp || maxBlockTimeDrift < now - syncInfo.latestBlockTime

def BlockTimeTracker.update (now : Time) (status : Except String SyncInfo) (t : BlockTimeTracker) :
    Except String Bool × BlockTimeTracker :=
  if now - t.lastUpdatedAt < 3 * second then (.ok t.pauseSending, t)
  else
    match status with
    | .error err => (.error err, t)
    | .ok syncInfo =>
      if syncInfo.latestBlockTime = t.latestBlockTime ∧ t.lastUpdatedAt ≠ 0 ∧
          maxBlockTimeout < now - t.lastUpdatedAt then
        (.ok true, { t with pauseSending := true, lastUpdatedAt := now })
      else if isNodeBehind now syncInfo then
        (.ok true, ⟨syncInfo.latestBlockTime, now, true⟩)
      else (.ok false, ⟨max t.latestBlockTime syncInfo.latestBlockTime, now, false⟩)

namespace Manager

def updateChainHalt (now : Time) (status : Except String SyncInfo) (m : Manager) :
    Except String Bool × Manager :=
  let r := m.blockTimeTracker.update now status
  (r.1, { m with blockTimeTracker := r.2 })

def nextId (m : Manager) : ℕ := m.uuid.new m.issued

def newId (m : Manager) : ℕ × Manager := (m.nextId, { m with issued := m.issued + 1 })

/-- `nowNanoUnique` and the timeout added to it. -/
def getTimestamp (m : Manager) : Time × Manager :=
  let nanos := max m.blockTimeTracker.latestBlockTime (m.lastNanos + 1)
  (nanos + m.defaultTimeout, { m with lastNanos := nanos })

def getSignedBytes (env : Env) (m : Manager) : Except String Time × Manager :=
  let r :=
    if m.blockTimeTracker.latestBlockTime = 0 then m.updateChainHalt env.now env.signStatus
    else (.ok false, m)
  match r.1 with
  | .error err => (.error err, r.2)
  | .ok _ =>
    match env.sign with
    | some err => (.error err, r.2.getTimestamp.2)
    | none => (.ok r.2.getTimestamp.1, r.2.getTimestamp.2)

/-- Everything ahead of `BroadcastTxSync`. -/
def prepare (env : Env) (m : Manager) : Except String Time × Manager :=
  match env.build with
  | some err => (.error err, m)
  | none => m.getSignedBytes env

def record (attempt : Attempt) (m : Manager) : Manager := { m with log := m.log ++ [attempt] }

def broadcastMessagesAtAttempt (env : Env) (id attempt : ℕ) (msgs : List Msg) (m : Manager) :
    Except String (Option TxResponse) × Time × Manager :=
  if msgs = [] then (.ok none, 0, m)
  else
    let gasWanted := estimateBatchGas msgs attempt
    match m.prepare env with
    | (.error err, m) =>
      (.error err, 0, m.record ⟨id, msgs, gasWanted, false, actionOf (.error err)⟩)
    | (.ok timestamp, m) =>
      match env.broadcast with
      | .error err => (.error err, 0, m.record ⟨id, msgs, gasWanted, true, actionOf (.error err)⟩)
      | .ok resp =>
        (.ok (some resp), timestamp, m.record ⟨id, msgs, gasWanted, true, actionOf (.ok (some resp))⟩)

/-- The common part of `putOnRetry` and `putBatchOnRetry`, whether it succeeds. -/
def putInfoOnRetry (env : Env) (info : TxInfo) (attempts : ℕ) (sent : Bool) (m : Manager) :
    Bool × Manager :=
  if maxAttempts ≤ attempts then (true, m)
  else
    let r := if info.id = 0 then m.newId else (info.id, m)
    let q := publish env.publish (some ⟨{ info with id := r.1 }, sent, attempts, 0⟩) r.2.toSend
    (q.1, { r.2 with toSend := q.2 })

def putOnRetry (env : Env) (id : ℕ) (txHash : String) (timeout : Time) (rawTx : Msg)
    (attempts : ℕ) (sent : Bool) (deadlineBlock : ℤ) : Manager → Bool × Manager :=
  putInfoOnRetry env { id, rawTx := some rawTx, txHash, timeout, deadlineBlock } attempts sent

def putBatchOnRetry (env : Env) (id : ℕ) (msgs : List Msg) (txHash : String) (timeout : Time)
    (attempts : ℕ) (sent : Bool) (deadlineBlock : ℤ) : Manager → Bool × Manager :=
  putInfoOnRetry env { id, rawBatch := msgs.map some, txHash, timeout, deadlineBlock } attempts sent

/-- `putOnRetry` for one message, `putBatchOnRetry` for a batch. -/
def putPayloadOnRetry (env : Env) (id : ℕ) (txHash : String) (timeout : Time) (payload : Payload)
    (attempts : ℕ) (sent : Bool) (deadlineBlock : ℤ) : Manager → Bool × Manager :=
  match payload with
  | .tx rawTx => putOnRetry env id txHash timeout rawTx attempts sent deadlineBlock
  | .batch msgs => putBatchOnRetry env id msgs txHash timeout attempts sent deadlineBlock

def putInfoToObserve (env : Env) (info : TxInfo) (m : Manager) : Bool × Manager :=
  let q := publish env.publish (some info) m.toObserve
  (q.1, { m with toObserve := q.2 })

def requeue (env : Env) (tx : TxToSend) (m : Manager) : Bool × TxToSend × Manager :=
  let tx := { tx with attempts := tx.attempts + 1, requeueTime := env.now }
  if maxAttempts ≤ tx.attempts then (true, tx, m)
  else
    let q := publish env.publish (some tx) m.toSend
    (q.1, tx, { m with toSend := q.2 })

end Manager

inductive SendErr where
  | retryEnqueueFailed
  | queuedForRetry
  /-- A broadcast error that is not retried. -/
  | broadcast (err : String)
  /-- `NewTransactionErrorFromResponse`. -/
  | transaction (resp : TxResponse)

/-- The error of a broadcast whose action is `fail`. -/
def failure : Except String (Option TxResponse) → SendErr
  | .error err => .broadcast err
  | .ok resp => .transaction (resp.getD {})

/-- The response of a broadcast whose action is `observe`. -/
def respOf : Except String (Option TxResponse) → TxResponse
  | .ok (some resp) => resp
  | _ => {}

namespace Manager

/-- The common part of `SendTransactionAsyncWithRetry` and `SendBatchAsyncWithRetry`.  A
failure to track what was broadcast is only logged. -/
def sendAsyncWithRetry (env : Env) (payload : Payload) (deadlineBlock : ℤ) (m : Manager) :
    Except SendErr TxResponse × Manager :=
  let (id, m) := m.newId
  let m := { m with handed := m.handed ++ [(id, payload.msgs)] }
  match m.updateChainHalt env.now env.status with
  | (.ok false, m) =>
    let (result, timeout, m) := m.broadcastMessagesAtAttempt env id 0 payload.msgs
    match actionOf result with
    | .fail => (.error (failure result), m)
    | .retry =>
      let (ok, m) := m.putPayloadOnRetry env id "" timeout payload 1 false deadlineBlock
      (.error (if ok then .queuedForRetry else .retryEnqueueFailed), m)
    | .observe =>
      let (_, m) := m.putPayloadOnRetry env id (respOf result).txHash timeout payload 1 true deadlineBlock
      (.ok (respOf result), m)
  | (_, m) =>
    let (ok, m) := m.putPayloadOnRetry env id "" 0 payload 0 false deadlineBlock
    (if ok then .ok {} else .error .retryEnqueueFailed, m)

def sendTransactionAsyncWithRetry (env : Env) (rawTx : Msg) (deadlineBlock : Option ℤ)
    (m : Manager) : Except SendErr TxResponse × Manager :=
  let deadlineBlock := (deadlineBlock.filter (0 < ·)).getD (env.height + getMaxBlocksForType rawTx)
  m.sendAsyncWithRetry env (.tx rawTx) deadlineBlock

def sendBatchAsyncWithRetry (env : Env) (msgs : List Msg) (deadlineBlock : Option ℤ)
    (m : Manager) : Except SendErr TxResponse × Manager :=
  let minBlocks := (msgs.map getMaxBlocksForType).foldl min defaultMaxBlocks
  let deadlineBlock := (deadlineBlock.filter (0 < ·)).getD (env.height + minBlocks)
  match msgs with
  | [] => (.ok {}, m)
  | [rawTx] => m.sendTransactionAsyncWithRetry env rawTx (some deadlineBlock)
  | _ => m.sendAsyncWithRetry env (.batch msgs) deadlineBlock

end Manager

def Env.expired (env : Env) (info : TxInfo) : Bool :=
  0 < info.deadlineBlock && info.deadlineBlock < env.height

def Env.early (env : Env) (tx : TxToSend) : Bool :=
  tx.requeueTime ≠ 0 && env.now - tx.requeueTime < env.jitteredDelay

namespace Manager

/-- The end of the handler.  A failure to publish is only logged. -/
def passToObserver (env : Env) (tx : TxToSend) (m : Manager) : Reply × TxToSend × Manager :=
  (.ack, tx, (m.putInfoToObserve env tx.txInfo).2)

/-- The handler, once the message is unmarshalled.  A failure to requeue is only logged.
Also returns the local `tx`. -/
def sendTx (env : Env) (tx : TxToSend) (m : Manager) : Reply × TxToSend × Manager :=
  if maxAttempts ≤ tx.attempts then (.term, tx, m)
  else if env.early tx then (.nak, tx, m)
  else if env.expired tx.txInfo then (.term, tx, m)
  else
    match tx.txInfo.unpack with
    | none => (.term, tx, m)
    | some payload =>
      if tx.sent then m.passToObserver env tx
      else
        let (result, timeout, m) :=
          m.broadcastMessagesAtAttempt env tx.txInfo.id tx.txInfo.attempts payload.msgs
        match actionOf result with
        | .fail => (.term, tx, m)
        | .retry =>
          let (_, tx, m) := m.requeue env tx
          (.ack, tx, m)
        | .observe =>
          let txInfo := { tx.txInfo with timeout, txHash := (respOf result).txHash }
          m.passToObserver env { tx with txInfo, sent := true }

/-- The handler of the sender loop.  A status that cannot be read does not pause it. -/
def sendTxs (env : Env) (data : Option TxToSend) (m : Manager) :
    Reply × Option TxToSend × Manager :=
  match m.updateChainHalt env.now env.status, data with
  | (.ok true, m), data => (.nak, data, m)
  | (_, m), none => (.term, none, m)
  | (_, m), some tx =>
    let (reply, tx, m) := m.sendTx env tx
    (reply, some tx, m)

end Manager

inductive CheckErr where
  | decodingTxHash
  | txNotFound
  | other (err : String)

def isHexDigit (c : Char) : Bool :=
  ('0' ≤ c && c ≤ '9') || ('a' ≤ c && c ≤ 'f') || ('A' ≤ c && c ≤ 'F')

/-- `hex.DecodeString` succeeds. -/
def isHex (hash : String) : Bool := hash.toList.length % 2 = 0 && hash.toList.all isHexDigit

def checkTxStatus (env : Env) (hash : String) : Except CheckErr Unit :=
  if isHex hash then
    match env.query with
    | .ok _ => .ok ()
    | .error err => .error (if contains "not found".toList err.toList then .txNotFound else .other err)
  else .error .decodingTxHash

namespace Manager

def putObservedOnRetry (env : Env) (payload : Payload) (tx : TxInfo) (m : Manager) :
    Reply × TxInfo × Manager :=
  let tx := { tx with attempts := tx.attempts + 1 }
  let (ok, m) := m.putPayloadOnRetry env tx.id "" 0 payload tx.attempts false tx.deadlineBlock
  (if ok then .ack else .nak, tx, m)

/-- The handler, once the message is unmarshalled.  Also returns the local `tx`. -/
def observeTx (env : Env) (tx : TxInfo) (m : Manager) : Reply × TxInfo × Manager :=
  if env.expired tx then (.term, tx, m)
  else
    match tx.unpack with
    | none => (.term, tx, m)
    | some payload =>
      if tx.txHash = "" then m.putObservedOnRetry env payload tx
      else
        match checkTxStatus env tx.txHash with
        | .ok _ => (.ack, tx, { m with found := tx.txHash :: m.found })
        | .error .decodingTxHash => (.term, tx, m)
        | .error .txNotFound =>
          if tx.timeout < m.blockTimeTracker.latestBlockTime then m.putObservedOnRetry env payload tx
          else (.nak, tx, m)
        | .error (.other _) => (.nak, tx, m)

def observeTxs (env : Env) (data : Option TxInfo) (m : Manager) : Reply × Option TxInfo × Manager :=
  match m.updateChainHalt env.now env.status, data with
  | (.ok true, m), data => (.nak, data, m)
  | (_, m), none => (.term, none, m)
  | (_, m), some tx =>
    let (reply, tx, m) := m.observeTx env tx
    (reply, some tx, m)

end Manager

structure BatchConsumer where
  validationV2FlushSize : ℕ
  validationV2FlushTimeout : Time
  validationV2Batch : List Msg := []
  validationV2CreatedAt : Time := 0

def mergeByHeight (byHeight : OrdMap ℤ MsgSubmitPocValidationsV2) :
    Msg → OrdMap ℤ MsgSubmitPocValidationsV2
  | .submitPocValidationsV2 msg =>
    let height := msg.pocStageStartBlockHeight
    match byHeight.get? height with
    | none => byHeight.insert height msg
    | some existing =>
      byHeight.insert height { existing with validations := existing.validations ++ msg.validations }
  | _ => byHeight

def aggregateValidationV2Messages (order : MapOrder) (batch : List Msg) : List Msg :=
  order.walk ((batch.foldl mergeByHeight ∅).entries.map fun e => .submitPocValidationsV2 e.2)

structure Node where
  manager : Manager
  consumer : BatchConsumer

namespace Node

/-- The messages that are acknowledged, and the node.  An error of the manager is only
logged. -/
def flushValidationV2 (env : Env) (n : Node) : List Msg × Node :=
  match n.consumer.validationV2Batch with
  | [] => ([], n)
  | batch =>
    let aggregated := aggregateValidationV2Messages env.order batch
    (batch, {
      manager := (n.manager.sendBatchAsyncWithRetry env aggregated none).2
      consumer := { n.consumer with validationV2Batch := [], validationV2CreatedAt := 0 } })

/-- A message of `txs_batch_validation_v2`; one that does not unmarshal is terminated. -/
def handleValidationV2Msg (env : Env) (data : Option Msg) (n : Node) : List Msg × Node :=
  match data with
  | none => ([], n)
  | some msg =>
    let c := n.consumer
    let batch := c.validationV2Batch ++ [msg]
    let createdAt := if c.validationV2Batch = [] then env.now else c.validationV2CreatedAt
    let n := { n with consumer := { c with validationV2Batch := batch, validationV2CreatedAt := createdAt } }
    if c.validationV2FlushSize ≤ batch.length then n.flushValidationV2 env else ([], n)

def checkAndFlushValidationV2 (env : Env) (n : Node) : List Msg × Node :=
  if n.consumer.validationV2Batch ≠ [] ∧
      n.consumer.validationV2FlushTimeout ≤ env.now - n.consumer.validationV2CreatedAt then
    n.flushValidationV2 env
  else ([], n)

def deliverToSender (env : Env) (i : ℕ) (n : Node) : Node :=
  match n.manager.toSend[i]? with
  | none => n
  | some data =>
    let (reply, _, m) := n.manager.sendTxs env data
    { n with manager := if reply = .nak then m else { m with toSend := m.toSend.eraseIdx i } }

def deliverToObserver (env : Env) (i : ℕ) (n : Node) : Node :=
  match n.manager.toObserve[i]? with
  | none => n
  | some data =>
    let (reply, _, m) := n.manager.observeTxs env data
    { n with manager := if reply = .nak then m else { m with toObserve := m.toObserve.eraseIdx i } }

def restart (n : Node) : Node where
  manager := { n.manager with blockTimeTracker := {}, lastNanos := 0 }
  consumer := { n.consumer with validationV2Batch := [], validationV2CreatedAt := 0 }

end Node

inductive Event where
  | sendTransaction (rawTx : Msg) (deadlineBlock : Option ℤ)
  | sendBatch (msgs : List Msg) (deadlineBlock : Option ℤ)
  | sender (i : ℕ)
  | observer (i : ℕ)
  | validationMsg (data : Option Msg)
  | flushTick
  | restart

def Node.step (e : Event × Env) (n : Node) : Node :=
  match e with
  | (.sendTransaction rawTx deadlineBlock, env) =>
    { n with manager := (n.manager.sendTransactionAsyncWithRetry env rawTx deadlineBlock).2 }
  | (.sendBatch msgs deadlineBlock, env) =>
    { n with manager := (n.manager.sendBatchAsyncWithRetry env msgs deadlineBlock).2 }
  | (.sender i, env) => n.deliverToSender env i
  | (.observer i, env) => n.deliverToObserver env i
  | (.validationMsg data, env) => (n.handleValidationV2Msg env data).2
  | (.flushTick, env) => (n.checkAndFlushValidationV2 env).2
  | (.restart, _) => n.restart

end TxManager
