/-
What one step of the transaction manager can do.

Each handler is described once, by an inductive relation with one case per way through
it; what holds of runs is then proved by cases.
-/
import Gonka.Api.TxManager

namespace TxManager

open Payload

variable (env : Env)

/-- What `putOnRetry` or `putBatchOnRetry` writes. -/
def Payload.info (payload : Payload) (id : ℕ) (txHash : String) (timeout : Time)
    (deadlineBlock : ℤ) : TxInfo :=
  match payload with
  | .tx rawTx => { id, rawTx := some rawTx, txHash, timeout, deadlineBlock }
  | .batch msgs => { id, rawBatch := msgs.map some, txHash, timeout, deadlineBlock }

theorem unpackBatch_map_some {msgs : List Msg} (h : msgs ≠ []) :
    unpackBatch (msgs.map some) = some msgs := by
  have hmsgs : (msgs.map some).filterMap unpackTx = msgs := by
    rw [List.filterMap_map]
    exact List.filterMap_some
  unfold unpackBatch
  rw [hmsgs]
  cases msgs with
  | nil => exact absurd rfl h
  | cons => rfl

theorem Payload.unpack_info {payload : Payload} (h : payload.msgs ≠ []) (id : ℕ) (txHash : String)
    (timeout : Time) (deadlineBlock : ℤ) :
    (payload.info id txHash timeout deadlineBlock).unpack = some payload := by
  cases payload with
  | tx => rfl
  | batch msgs =>
    have hlen : 0 < msgs.length := List.length_pos_iff.mpr h
    have hunpack : unpackBatch (msgs.map some) = some msgs := unpackBatch_map_some h
    simp only [info, TxInfo.unpack, TxInfo.isBatch, List.length_map, hlen, decide_true,
      if_true, hunpack, Option.map_some]

theorem unpackBatch_ne_nil {rawBatch : List (Option Msg)} {msgs : List Msg}
    (h : unpackBatch rawBatch = some msgs) : msgs ≠ [] := by
  unfold unpackBatch at h
  split at h
  · exact nomatch h
  · rw [← Option.some.inj h]
    exact List.cons_ne_nil _ _

theorem TxInfo.msgs_ne_nil {info : TxInfo} {payload : Payload} (h : info.unpack = some payload) :
    payload.msgs ≠ [] := by
  unfold TxInfo.unpack at h
  split at h
  · obtain ⟨_, hmsgs, rfl⟩ := Option.map_eq_some_iff.mp h
    exact unpackBatch_ne_nil hmsgs
  · obtain ⟨_, -, rfl⟩ := Option.map_eq_some_iff.mp h
    exact List.cons_ne_nil _ _

namespace Manager

def logged (t : BlockTimeTracker) (nanos : ℕ) (a : Attempt) (m : Manager) : Manager :=
  { m with blockTimeTracker := t, lastNanos := nanos, log := m.log ++ [a] }

def outcome (env : Env) (m : Manager) : TxResponseAction :=
  match ((m.updateChainHalt env.now env.status).2.prepare env).1 with
  | .error err => actionOf (.error err)
  | .ok _ => actionOf (env.broadcast.map some)

/-- A broadcast comes to `BroadcastTxSync`. -/
def reaches (env : Env) (m : Manager) : Bool :=
  match ((m.updateChainHalt env.now env.status).2.prepare env).1 with
  | .error _ => false
  | .ok _ => true

/-- `updateChainHalt` reports a halt. -/
def halted (env : Env) (m : Manager) : Bool :=
  match (m.updateChainHalt env.now env.status).1 with
  | .ok true => true
  | _ => false

/-- `updateChainHalt` reports neither a halt nor an error. -/
def running (env : Env) (m : Manager) : Bool :=
  match (m.updateChainHalt env.now env.status).1 with
  | .ok false => true
  | _ => false

theorem getSignedBytes_manager (m : Manager) :
    ∃ t nanos, (m.getSignedBytes env).2 = { m with blockTimeTracker := t, lastNanos := nanos } := by
  have hasked : ∃ t, (if m.blockTimeTracker.latestBlockTime = 0 then
      m.updateChainHalt env.now env.signStatus else (.ok false, m)).2 =
        { m with blockTimeTracker := t } := by
    split <;> exact ⟨_, rfl⟩
  obtain ⟨t, ht⟩ := hasked
  unfold getSignedBytes
  simp only [ht]
  split
  · exact ⟨_, _, rfl⟩
  · split <;> exact ⟨_, _, rfl⟩

theorem prepare_manager (m : Manager) :
    ∃ t nanos, (m.prepare env).2 = { m with blockTimeTracker := t, lastNanos := nanos } := by
  unfold prepare
  split
  · exact ⟨_, _, rfl⟩
  · exact getSignedBytes_manager env m

end Manager

/-- The broadcast is one of the transaction, sized for an attempt. -/
structure Attempt.Of (env : Env) (id attempt : ℕ) (msgs : List Msg) (m : Manager) (a : Attempt) :
    Prop where
  id_eq : a.id = id
  msgs_eq : a.msgs = msgs
  gas_eq : a.gasWanted = estimateBatchGas msgs attempt
  sent_eq : a.sent = m.reaches env
  action_eq : a.action = m.outcome env

namespace Manager

theorem broadcast_spec (id attempt : ℕ) {msgs : List Msg} (h : msgs ≠ [])
    (m : Manager) : ∃ result timeout t nanos a,
      (m.updateChainHalt env.now env.status).2.broadcastMessagesAtAttempt env id attempt msgs =
        (result, timeout, m.logged t nanos a) ∧
      a.Of env id attempt msgs m ∧ actionOf result = m.outcome env := by
  obtain ⟨_, _, hprep⟩ := prepare_manager env (m.updateChainHalt env.now env.status).2
  rcases hp : (m.updateChainHalt env.now env.status).2.prepare env with ⟨ready, _⟩
  rw [hp] at hprep
  subst hprep
  unfold broadcastMessagesAtAttempt
  rw [if_neg h, hp]
  cases ready with
  | error err =>
    have hreaches : m.reaches env = false := by unfold reaches; rw [hp]
    have hout : m.outcome env = actionOf (.error err) := by unfold outcome; rw [hp]
    exact ⟨_, _, _, _, _, rfl, ⟨rfl, rfl, rfl, hreaches.symm, hout.symm⟩, hout.symm⟩
  | ok =>
    have hreaches : m.reaches env = true := by unfold reaches; rw [hp]
    have hout : m.outcome env = actionOf (env.broadcast.map some) := by unfold outcome; rw [hp]
    cases hb : env.broadcast with
    | error | ok =>
      rw [hb] at hout
      exact ⟨_, _, _, _, _, rfl, ⟨rfl, rfl, rfl, hreaches.symm, hout.symm⟩, hout.symm⟩

end Manager

def TxToSend.again (env : Env) (tx : TxToSend) : TxToSend :=
  { tx with attempts := tx.attempts + 1, requeueTime := env.now }

def TxToSend.accepted (timeout : Time) (txHash : String) (tx : TxToSend) : TxToSend :=
  { tx with txInfo := { tx.txInfo with timeout, txHash }, sent := true }

/-- The sender loop neither keeps the message nor gives up the transaction unasked. -/
structure Due (env : Env) (tx : TxToSend) (payload : Payload) (m : Manager) : Prop where
  running : m.halted env = false
  attempts : tx.attempts < maxAttempts
  late : env.early tx = false
  alive : env.expired tx.txInfo = false
  unpacks : tx.txInfo.unpack = some payload

/-- The ways through the handler of the sender loop: its reply, the local `tx`, and the
manager. -/
inductive SenderStep (env : Env) (tx : TxToSend) (m : Manager) :
    Reply → TxToSend → Manager → Prop where
  | waits (t : BlockTimeTracker) (h : m.halted env = true ∨ env.early tx = true) :
    SenderStep env tx m .nak tx { m with blockTimeTracker := t }
  | closes (t : BlockTimeTracker)
      (h : maxAttempts ≤ tx.attempts ∨ env.expired tx.txInfo = true ∨ tx.txInfo.unpack = none) :
    SenderStep env tx m .term tx { m with blockTimeTracker := t }
  | tracks (t : BlockTimeTracker) (payload : Payload) (hdue : Due env tx payload m)
      (hsent : tx.sent = true) :
    SenderStep env tx m .ack tx { m with
      blockTimeTracker := t
      toObserve := (publish env.publish (some tx.txInfo) m.toObserve).2 }
  | rejected (t : BlockTimeTracker) (nanos : ℕ) (a : Attempt) (payload : Payload)
      (hdue : Due env tx payload m) (hsent : tx.sent = false)
      (ha : a.Of env tx.txInfo.id tx.txInfo.attempts payload.msgs m)
      (hfail : m.outcome env = .fail) :
    SenderStep env tx m .term tx (m.logged t nanos a)
  | exhausted (t : BlockTimeTracker) (nanos : ℕ) (a : Attempt) (payload : Payload)
      (hdue : Due env tx payload m) (hsent : tx.sent = false)
      (ha : a.Of env tx.txInfo.id tx.txInfo.attempts payload.msgs m)
      (hretry : m.outcome env = .retry) (hmax : maxAttempts ≤ tx.attempts + 1) :
    SenderStep env tx m .ack (tx.again env) (m.logged t nanos a)
  | requeues (t : BlockTimeTracker) (nanos : ℕ) (a : Attempt) (payload : Payload)
      (hdue : Due env tx payload m) (hsent : tx.sent = false)
      (ha : a.Of env tx.txInfo.id tx.txInfo.attempts payload.msgs m)
      (hretry : m.outcome env = .retry) (hmax : tx.attempts + 1 < maxAttempts) :
    SenderStep env tx m .ack (tx.again env) { m.logged t nanos a with
      toSend := (publish env.publish (some (tx.again env)) m.toSend).2 }
  | observes (t : BlockTimeTracker) (nanos : ℕ) (a : Attempt) (payload : Payload)
      (timeout : Time) (txHash : String) (hdue : Due env tx payload m) (hsent : tx.sent = false)
      (ha : a.Of env tx.txInfo.id tx.txInfo.attempts payload.msgs m)
      (hobserve : m.outcome env = .observe) :
    SenderStep env tx m .ack (tx.accepted timeout txHash) { m.logged t nanos a with
      toObserve := (publish env.publish (some (tx.accepted timeout txHash).txInfo) m.toObserve).2 }

namespace Manager

theorem sendTxs_eq (tx : TxToSend) (m : Manager) : m.sendTxs env (some tx) =
      let m' := (m.updateChainHalt env.now env.status).2
      if m.halted env then (.nak, some tx, m')
      else ((m'.sendTx env tx).1, some (m'.sendTx env tx).2.1, (m'.sendTx env tx).2.2) := by
  unfold sendTxs halted
  rcases m.updateChainHalt env.now env.status with ⟨_ | (_ | _), m'⟩ <;> rfl

theorem sendTx_step {env : Env} {m : Manager} (hrun : m.halted env = false) (tx : TxToSend) :
    ∃ reply tx' m', (m.updateChainHalt env.now env.status).2.sendTx env tx = (reply, tx', m') ∧
      SenderStep env tx m reply tx' m' := by
  unfold sendTx
  by_cases hmax : maxAttempts ≤ tx.attempts
  · rw [if_pos hmax]
    exact ⟨_, _, _, rfl, .closes _ (.inl hmax)⟩
  rw [if_neg hmax]
  cases hearly : env.early tx with
  | true => exact ⟨_, _, _, rfl, .waits _ (.inr hearly)⟩
  | false =>
  cases hexp : env.expired tx.txInfo with
  | true => exact ⟨_, _, _, rfl, .closes _ (.inr (.inl hexp))⟩
  | false =>
  cases hunpack : tx.txInfo.unpack with
  | none => exact ⟨_, _, _, rfl, .closes _ (.inr (.inr hunpack))⟩
  | some payload =>
  have hdue : Due env tx payload m := ⟨hrun, Nat.lt_of_not_le hmax, hearly, hexp, hunpack⟩
  cases hsent : tx.sent with
  | true => exact ⟨_, _, _, rfl, .tracks _ payload hdue hsent⟩
  | false =>
    obtain ⟨_, timeout, t, nanos, a, hb, ha, hresult⟩ :=
      broadcast_spec env tx.txInfo.id tx.txInfo.attempts (TxInfo.msgs_ne_nil hunpack) m
    simp only [Bool.false_eq_true, if_false, hb, hresult]
    cases hout : m.outcome env with
    | fail => exact ⟨_, _, _, rfl, .rejected t nanos a payload hdue hsent ha hout⟩
    | observe =>
      exact ⟨_, _, _, rfl, .observes t nanos a payload timeout _ hdue hsent ha hout⟩
    | retry =>
      by_cases hlast : maxAttempts ≤ tx.attempts + 1
      · simp only [requeue, if_pos hlast]
        exact ⟨_, _, _, rfl, .exhausted t nanos a payload hdue hsent ha hout hlast⟩
      · simp only [requeue, if_neg hlast]
        exact ⟨_, _, _, rfl,
          .requeues t nanos a payload hdue hsent ha hout (Nat.lt_of_not_le hlast)⟩

theorem sendTxs_step (tx : TxToSend) (m : Manager) :
    ∃ reply tx' m', m.sendTxs env (some tx) = (reply, some tx', m') ∧
      SenderStep env tx m reply tx' m' := by
  rw [sendTxs_eq]
  cases h : m.halted env with
  | true => exact ⟨_, _, _, rfl, .waits _ (.inl h)⟩
  | false =>
    obtain ⟨_, _, _, heq, hstep⟩ := sendTx_step h tx
    simp only [Bool.false_eq_true, if_false, heq]
    exact ⟨_, _, _, rfl, hstep⟩

theorem sendTxs_malformed (m : Manager) :
    ∃ reply t, m.sendTxs env none = (reply, none, { m with blockTimeTracker := t }) := by
  simp only [sendTxs, updateChainHalt]
  rcases (m.blockTimeTracker.update env.now env.status).1 with _ | (_ | _) <;> exact ⟨_, _, rfl⟩

end Manager

/-- The ways through the handler of the observer loop. -/
inductive ObserverStep (env : Env) (info : TxInfo) (m : Manager) :
    Reply → TxInfo → Manager → Prop where
  | waits (t : BlockTimeTracker) : ObserverStep env info m .nak info { m with blockTimeTracker := t }
  | closes (t : BlockTimeTracker)
      (h : env.expired info = true ∨ info.unpack = none ∨ isHex info.txHash = false) :
    ObserverStep env info m .term info { m with blockTimeTracker := t }
  | found (t : BlockTimeTracker) :
    ObserverStep env info m .ack info { m with
      blockTimeTracker := t
      found := info.txHash :: m.found }
  | exhausted (t : BlockTimeTracker) (hmax : maxAttempts ≤ info.attempts + 1) :
    ObserverStep env info m .ack { info with attempts := info.attempts + 1 }
      { m with blockTimeTracker := t }
  /-- The transaction is published for the sender loop; the counter in it is dropped. -/
  | returns (t : BlockTimeTracker) (issued : ℕ) (payload : Payload) (tx : TxToSend) (reply : Reply)
      (hreply : reply = .nak ∨ env.publish = .none)
      (hunpack : info.unpack = some payload) (htx : tx.txInfo.unpack = some payload)
      (hattempts : tx.txInfo.attempts = 0)
      (hid : tx.txInfo.id = info.id ∧ issued = m.issued ∨ info.id = 0) :
    ObserverStep env info m reply { info with attempts := info.attempts + 1 } { m with
      blockTimeTracker := t
      issued := issued
      toSend := (publish env.publish (some tx) m.toSend).2 }

namespace Manager

theorem putPayloadOnRetry_eq (id : ℕ) (txHash : String) (timeout : Time)
    (payload : Payload) (attempts : ℕ) (sent : Bool) (deadlineBlock : ℤ) (m : Manager) :
    m.putPayloadOnRetry env id txHash timeout payload attempts sent deadlineBlock =
      m.putInfoOnRetry env (payload.info id txHash timeout deadlineBlock) attempts sent := by
  cases payload with
  | tx | batch => rfl

theorem publish_ok {α : Type} {w : Crash.Fault} {a : α} {stream : List α}
    (h : (publish w a stream).1 = true) : w = .none := by
  cases w with
  | none => rfl
  | before | after => exact nomatch h

end Manager

theorem Payload.info_id (payload : Payload) (id : ℕ) (txHash : String) (timeout : Time)
    (deadlineBlock : ℤ) : (payload.info id txHash timeout deadlineBlock).id = id := by
  cases payload with
  | tx | batch => rfl

theorem Payload.info_attempts (payload : Payload) (id : ℕ) (txHash : String) (timeout : Time)
    (deadlineBlock : ℤ) : (payload.info id txHash timeout deadlineBlock).attempts = 0 := by
  cases payload with
  | tx | batch => rfl

theorem TxInfo.unpack_with_id (info : TxInfo) (id : ℕ) :
    ({ info with id } : TxInfo).unpack = info.unpack := rfl

namespace Manager

theorem putObservedOnRetry_step {env : Env} {info : TxInfo} {payload : Payload}
    (hunpack : info.unpack = some payload) (t : BlockTimeTracker) (m : Manager) :
    ∃ reply info' m',
      ({ m with blockTimeTracker := t } : Manager).putObservedOnRetry env payload info =
        (reply, info', m') ∧ ObserverStep env info m reply info' m' := by
  have hmsgs := TxInfo.msgs_ne_nil hunpack
  simp only [putObservedOnRetry, putPayloadOnRetry_eq, putInfoOnRetry, info_id]
  by_cases hmax : maxAttempts ≤ info.attempts + 1
  · simp only [if_pos hmax, if_true]
    exact ⟨_, _, _, rfl, .exhausted t hmax⟩
  simp only [if_neg hmax]
  refine ⟨_, _, _, rfl, ?_⟩
  by_cases hid : info.id = 0
  · rw [if_pos hid]
    refine .returns t _ payload _ _ ?_ hunpack
      ((TxInfo.unpack_with_id _ _).trans (unpack_info hmsgs ..)) (info_attempts ..) (.inr hid)
    split
    · next hok => exact .inr (publish_ok hok)
    · exact .inl rfl
  · rw [if_neg hid]
    refine .returns t m.issued payload _ _ ?_ hunpack
      ((TxInfo.unpack_with_id _ _).trans (unpack_info hmsgs ..)) (info_attempts ..)
      (.inl ⟨rfl, rfl⟩)
    split
    · next hok => exact .inr (publish_ok hok)
    · exact .inl rfl

theorem observeTx_step (info : TxInfo) (t : BlockTimeTracker) (m : Manager) :
    ∃ reply info' m', ({ m with blockTimeTracker := t } : Manager).observeTx env info =
      (reply, info', m') ∧ ObserverStep env info m reply info' m' := by
  unfold observeTx
  cases hexp : env.expired info with
  | true => exact ⟨_, _, _, rfl, .closes t (.inl hexp)⟩
  | false =>
  simp only [Bool.false_eq_true, if_false]
  cases hunpack : info.unpack with
  | none => exact ⟨_, _, _, rfl, .closes t (.inr (.inl hunpack))⟩
  | some =>
  simp only
  by_cases hhash : info.txHash = ""
  · rw [if_pos hhash]
    exact putObservedOnRetry_step hunpack t m
  rw [if_neg hhash]
  cases hcheck : checkTxStatus env info.txHash with
  | ok _ => exact ⟨_, _, _, rfl, .found t⟩
  | error err =>
    cases err with
    | decodingTxHash =>
      refine ⟨_, _, _, rfl, .closes t (.inr (.inr ?_))⟩
      unfold checkTxStatus at hcheck
      split at hcheck
      · split at hcheck
        · exact nomatch hcheck
        · split at hcheck
          · exact nomatch hcheck
          · exact nomatch hcheck
      · next hhex => exact Bool.eq_false_iff.mpr hhex
    | txNotFound =>
      simp only
      split
      · exact putObservedOnRetry_step hunpack t m
      · exact ⟨_, _, _, rfl, .waits t⟩
    | other => exact ⟨_, _, _, rfl, .waits t⟩

theorem observeTxs_eq (info : TxInfo) (m : Manager) : m.observeTxs env (some info) =
      let m' := (m.updateChainHalt env.now env.status).2
      if m.halted env then (.nak, some info, m')
      else ((m'.observeTx env info).1, some (m'.observeTx env info).2.1,
        (m'.observeTx env info).2.2) := by
  unfold observeTxs halted
  rcases m.updateChainHalt env.now env.status with ⟨_ | (_ | _), m'⟩ <;> rfl

theorem observeTxs_step (info : TxInfo) (m : Manager) :
    ∃ reply info' m', m.observeTxs env (some info) = (reply, some info', m') ∧
      ObserverStep env info m reply info' m' := by
  obtain ⟨reply, info', m', heq, hstep⟩ :=
    observeTx_step env info (m.updateChainHalt env.now env.status).2.blockTimeTracker m
  rw [observeTxs_eq]
  split
  · exact ⟨_, _, _, rfl, .waits _⟩
  · exact ⟨reply, info', m', congrArg (fun p => (p.1, some p.2.1, p.2.2)) heq, hstep⟩

theorem observeTxs_malformed (m : Manager) :
    ∃ reply t, m.observeTxs env none = (reply, none, { m with blockTimeTracker := t }) := by
  simp only [observeTxs, updateChainHalt]
  rcases (m.blockTimeTracker.update env.now env.status).1 with _ | (_ | _) <;> exact ⟨_, _, rfl⟩

def handedOver (msgs : List Msg) (m : Manager) : Manager :=
  { m with issued := m.issued + 1, handed := m.handed ++ [(m.nextId, msgs)] }

end Manager

/-- The ways through `SendTransactionAsyncWithRetry` and `SendBatchAsyncWithRetry`. -/
inductive HandOff (env : Env) (payload : Payload) (m : Manager) : Manager → Prop where
  | deferred (t : BlockTimeTracker) (tx : TxToSend) (hrun : m.running env = false)
      (hid : tx.txInfo.id = m.nextId) (hattempts : tx.txInfo.attempts = 0)
      (htx : tx.txInfo.unpack = some payload) :
    HandOff env payload m { m.handedOver payload.msgs with
      blockTimeTracker := t
      toSend := (publish env.publish (some tx) m.toSend).2 }
  | rejected (t : BlockTimeTracker) (nanos : ℕ) (a : Attempt) (hrun : m.running env = true)
      (ha : a.Of env m.nextId 0 payload.msgs m)
      (hfail : m.outcome env = .fail) :
    HandOff env payload m ((m.handedOver payload.msgs).logged t nanos a)
  | enqueued (t : BlockTimeTracker) (nanos : ℕ) (a : Attempt) (tx : TxToSend)
      (hrun : m.running env = true) (ha : a.Of env m.nextId 0 payload.msgs m)
      (hout : m.outcome env ≠ .fail)
      (hid : tx.txInfo.id = m.nextId) (hattempts : tx.txInfo.attempts = 0)
      (htx : tx.txInfo.unpack = some payload) :
    HandOff env payload m { (m.handedOver payload.msgs).logged t nanos a with
      toSend := (publish env.publish (some tx) m.toSend).2 }

namespace Manager

theorem getSignedBytes_congr {m m' : Manager}
    (ht : m'.blockTimeTracker = m.blockTimeTracker) (hn : m'.lastNanos = m.lastNanos)
    (hd : m'.defaultTimeout = m.defaultTimeout) :
    (m'.getSignedBytes env).1 = (m.getSignedBytes env).1 := by
  simp only [getSignedBytes, updateChainHalt, ht]
  by_cases hzero : m.blockTimeTracker.latestBlockTime = 0
  · simp only [if_pos hzero]
    cases (m.blockTimeTracker.update env.now env.signStatus).1 with
    | error => rfl
    | ok => cases env.sign <;> simp only [getTimestamp, hn, hd]
  · simp only [if_neg hzero]
    cases env.sign <;> simp only [getTimestamp, ht, hn, hd]

theorem prepare_handedOver (msgs : List Msg) (m : Manager) :
    (((m.handedOver msgs).updateChainHalt env.now env.status).2.prepare env).1 =
      ((m.updateChainHalt env.now env.status).2.prepare env).1 := by
  unfold prepare
  cases env.build with
  | some => rfl
  | none => exact getSignedBytes_congr env rfl rfl rfl

theorem outcome_handedOver (msgs : List Msg) (m : Manager) :
    (m.handedOver msgs).outcome env = m.outcome env := by
  unfold outcome
  rw [prepare_handedOver]

theorem reaches_handedOver (msgs : List Msg) (m : Manager) :
    (m.handedOver msgs).reaches env = m.reaches env := by
  unfold reaches
  rw [prepare_handedOver]

theorem putInfoOnRetry_eq {info : TxInfo} {attempts : ℕ} (sent : Bool) (m : Manager)
    (hid : info.id ≠ 0) (hattempts : attempts < maxAttempts) :
    (m.putInfoOnRetry env info attempts sent).2 =
      { m with toSend := (publish env.publish (some ⟨info, sent, attempts, 0⟩) m.toSend).2 } := by
  unfold putInfoOnRetry
  rw [if_neg (Nat.not_le.mpr hattempts), if_neg hid]

theorem putPayloadOnRetry_snd {id : ℕ} (hid : id ≠ 0) (txHash : String)
    (timeout : Time) (payload : Payload) {attempts : ℕ} (hattempts : attempts < maxAttempts)
    (sent : Bool) (deadlineBlock : ℤ) (m : Manager) :
    (m.putPayloadOnRetry env id txHash timeout payload attempts sent deadlineBlock).2 =
      { m with toSend := (publish env.publish
        (some ⟨payload.info id txHash timeout deadlineBlock, sent, attempts, 0⟩) m.toSend).2 } := by
  rw [putPayloadOnRetry_eq]
  refine putInfoOnRetry_eq env sent m ?_ hattempts
  rw [info_id]
  exact hid

theorem sendAsyncWithRetry_step {payload : Payload} (hmsgs : payload.msgs ≠ [])
    (deadlineBlock : ℤ) (m : Manager) :
    HandOff env payload m (m.sendAsyncWithRetry env payload deadlineBlock).2 := by
  have hid : m.nextId ≠ 0 := m.uuid.ne_zero _
  have hnew : ({ m with issued := m.issued + 1, handed := m.handed ++ [(m.nextId, payload.msgs)] } :
      Manager) = m.handedOver payload.msgs := rfl
  have hrun : (m.handedOver payload.msgs).running env = m.running env := rfl
  unfold sendAsyncWithRetry
  simp only [newId, hnew]
  cases hr : m.running env with
  | true =>
    have hupdate : (m.handedOver payload.msgs).updateChainHalt env.now env.status =
        (.ok false, ((m.handedOver payload.msgs).updateChainHalt env.now env.status).2) := by
      rw [hr] at hrun
      unfold running at hrun
      split at hrun
      · next h => rw [← h]
      · exact nomatch hrun
    obtain ⟨_, _, t, nanos, a, hb, ha, hresult⟩ :=
      broadcast_spec env m.nextId 0 hmsgs (m.handedOver payload.msgs)
    replace ha : a.Of env m.nextId 0 payload.msgs m :=
      ⟨ha.id_eq, ha.msgs_eq, ha.gas_eq, ha.sent_eq.trans (reaches_handedOver ..),
        ha.action_eq.trans (outcome_handedOver ..)⟩
    rw [outcome_handedOver] at hresult
    rw [hupdate]
    simp only [hb, hresult]
    cases hout : m.outcome env with
    | fail => exact .rejected t nanos a hr ha hout
    | retry | observe =>
      simp only [putPayloadOnRetry_snd env hid _ _ payload (by decide : 1 < maxAttempts)]
      exact .enqueued t nanos a _ hr ha (by rw [hout]; decide) (info_id ..)
        (info_attempts ..) (unpack_info hmsgs ..)
  | false =>
    have hdefer : ∃ m', m' = ((m.handedOver payload.msgs).updateChainHalt env.now env.status).2 ∧
        HandOff env payload m (m'.putPayloadOnRetry env m.nextId "" 0 payload 0 false
          deadlineBlock).2 := by
      refine ⟨_, rfl, ?_⟩
      rw [putPayloadOnRetry_snd env hid _ _ payload (by decide : 0 < maxAttempts)]
      exact .deferred _ _ hr (info_id ..) (info_attempts ..) (unpack_info hmsgs ..)
    obtain ⟨_, hm', hstep⟩ := hdefer
    split
    · next h =>
      rw [hr] at hrun
      unfold running at hrun
      rw [h] at hrun
      exact nomatch hrun
    · next h =>
      rw [h] at hm'
      rw [hm'] at hstep
      exact hstep

end Manager

end TxManager
