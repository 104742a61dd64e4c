/-
What the acknowledgements of the transaction manager lose.

A handler acknowledges a message when the next hop has its transaction, or when nothing
more is to be done for it.  The observer loop keeps its message when it cannot publish;
the sender loop and the batch consumer log the failure and acknowledge all the same.

Main results: `acknowledged_kept_iff`, `failed_publish_loses`.
-/
import Gonka.Api.Steps

namespace TxManager

open OrdMap List Manager

open Crash (Fault)
open Along

def MsgSubmitPocValidationsV2.pairs (msg : MsgSubmitPocValidationsV2) :
    List (ℤ × PoCValidationEntryV2) :=
  msg.validations.map (msg.pocStageStartBlockHeight, ·)

def Msg.pairs : Msg → List (ℤ × PoCValidationEntryV2)
  | .submitPocValidationsV2 msg => msg.pairs
  | _ => []

def pairsOf (msgs : List Msg) : List (ℤ × PoCValidationEntryV2) := msgs.flatMap Msg.pairs

def ByHeight (byHeight : OrdMap ℤ MsgSubmitPocValidationsV2) : Prop :=
  ∀ height msg, byHeight.get? height = some msg → msg.pocStageStartBlockHeight = height

variable {byHeight : OrdMap ℤ MsgSubmitPocValidationsV2} {α : Type} {w : Fault}

theorem mergeByHeight_byHeight (h : ByHeight byHeight)
    (msg : Msg) : ByHeight (mergeByHeight byHeight msg) := by
  cases msg with
  | submitPocValidationsV2 =>
    intro height' msg' hget
    simp only [mergeByHeight] at hget
    split at hget
    · rw [get?_insert] at hget
      split at hget
      · next heq => rw [← Option.some.inj hget, heq]
      · exact h _ _ hget
    · next existing hexisting =>
      rw [get?_insert] at hget
      split at hget
      · next heq =>
        rw [← Option.some.inj hget, heq]
        exact h _ existing hexisting
      · exact h _ _ hget
  | poCV2StoreCommit | mlNodeWeightDistribution | plain => exact h

def countIn (p : ℤ × PoCValidationEntryV2) (byHeight : OrdMap ℤ MsgSubmitPocValidationsV2) : ℕ :=
  byHeight.sum fun _ msg => msg.pairs.count p

theorem countIn_mergeByHeight (p : ℤ × PoCValidationEntryV2) (h : ByHeight byHeight) (msg : Msg) :
    countIn p (mergeByHeight byHeight msg) = countIn p byHeight + msg.pairs.count p := by
  cases msg with
  | submitPocValidationsV2 msg =>
    simp only [mergeByHeight]
    split
    · next hnone => exact sum_insert_of_none _ msg hnone
    next existing hsome =>
    -- The merged message has the pairs of both, as they are of the same height.
    have hpairs : ({ existing with
          validations := existing.validations ++ msg.validations } :
          MsgSubmitPocValidationsV2).pairs = existing.pairs ++ msg.pairs := by
      simp only [MsgSubmitPocValidationsV2.pairs, h _ _ hsome, map_append]
    have hsum := sum_insert_of_some (fun _ msg => msg.pairs.count p)
      { existing with validations := existing.validations ++ msg.validations } hsome
    rw [hpairs, count_append] at hsum
    simp only [countIn, Msg.pairs]
    omega
  | poCV2StoreCommit | mlNodeWeightDistribution | plain => rfl

theorem countIn_foldl (p : ℤ × PoCValidationEntryV2) (batch : List Msg) (h : ByHeight byHeight) :
    countIn p (batch.foldl mergeByHeight byHeight) = countIn p byHeight + (pairsOf batch).count p := by
  induction batch generalizing byHeight with
  | nil => rfl
  | cons msg _ ih =>
    rw [foldl_cons, ih (mergeByHeight_byHeight h msg), countIn_mergeByHeight p h msg]
    simp only [pairsOf, flatMap_cons, count_append]
    omega

theorem pairs_aggregate (order : MapOrder) (batch : List Msg) :
    (pairsOf (aggregateValidationV2Messages order batch)).Perm (pairsOf batch) := by
  refine ((order.perm _).flatMap_right Msg.pairs).trans ?_
  rw [perm_iff_count]
  intro p
  have hempty : ByHeight ∅ := fun _ _ hget => nomatch hget
  have hcount := countIn_foldl p batch hempty
  rw [countIn, countIn, sum_empty, Nat.zero_add] at hcount
  rw [← hcount, count_flatMap, map_map]
  rfl

namespace Manager

/-- A pending message of either stream has it. -/
def Pending (P : TxInfo → Prop) (m : Manager) : Prop :=
  (∃ tx, some tx ∈ m.toSend ∧ P tx.txInfo) ∨ ∃ info, some info ∈ m.toObserve ∧ P info

end Manager

/-- The same transaction; one without an id gets one. -/
def SameTx (info info' : TxInfo) : Prop :=
  info'.unpack = info.unpack ∧ (info'.id = info.id ∨ info.id = 0)

namespace Manager

/-- The transaction is in a stream, was rejected as non-retryable, or found on chain. -/
def Traced (info : TxInfo) (m : Manager) : Prop :=
  m.Pending (SameTx info) ∨
    (∃ a ∈ m.log, a.action = .fail ∧ a.id = info.id ∧ info.unpack.map Payload.msgs = some a.msgs) ∨
      info.txHash ∈ m.found

/-- The validation is in a transaction that was accepted or rejected, or in a stream. -/
def Covered (p : ℤ × PoCValidationEntryV2) (m : Manager) : Prop :=
  (∃ a ∈ m.log, a.action ≠ .retry ∧ p ∈ pairsOf a.msgs) ∨
    m.Pending fun info => ∃ payload, info.unpack = some payload ∧ p ∈ pairsOf payload.msgs

/-- The transaction is malformed, traced, past its deadline or out of attempts. -/
def Accounted (env : Env) (info : TxInfo) (attempts : ℕ) (m : Manager) : Prop :=
  info.unpack = none ∨ m.Traced info ∨ env.expired info = true ∨ maxAttempts ≤ attempts

end Manager

/-- What the messages that a step acknowledges or terminates need to be: their validations
are covered, and their transactions are accounted for. -/
def Kept (n : Node) (e : Event × Env) : Prop :=
  match e with
  | (.sender i, env) =>
    ∀ tx tx' reply m, n.manager.toSend[i]? = some (some tx) →
      n.manager.sendTxs env (some tx) = (reply, some tx', m) → reply ≠ .nak →
        (n.step e).manager.Accounted env tx.txInfo tx'.attempts
  | (.observer i, env) =>
    ∀ info info' reply m, n.manager.toObserve[i]? = some (some info) →
      n.manager.observeTxs env (some info) = (reply, some info', m) → reply ≠ .nak →
        (n.step e).manager.Accounted env info info'.attempts ∨ isHex info.txHash = false
  | (.validationMsg data, env) =>
    ∀ p ∈ pairsOf (n.handleValidationV2Msg env data).1, (n.step e).manager.Covered p
  | (.flushTick, env) =>
    ∀ p ∈ pairsOf (n.checkAndFlushValidationV2 env).1, (n.step e).manager.Covered p
  | _ => True

/-- The sender loop gets as far as to publish the transaction, to either stream. -/
def Publishes (env : Env) (tx : TxToSend) (m : Manager) : Prop :=
  ∃ payload, Due env tx payload m ∧ (tx.sent = true ∨ m.outcome env = .observe ∨
    m.outcome env = .retry ∧ tx.attempts + 1 < maxAttempts)

/-- A hand-off needs the stream: the chain is halted or unknown, or the broadcast is to be
retried. -/
def Defers (env : Env) (m : Manager) : Prop := m.running env = false ∨ m.outcome env = .retry

/-- The batch is flushed, cannot be enqueued, and nothing else has all its validations. -/
def LosesBatch (env : Env) (acked : List Msg) (m : Manager) : Prop :=
  env.publish = .before ∧ Defers env m ∧ ∃ p ∈ pairsOf acked, ¬ m.Covered p

/-- The step publishes and fails to, and nothing else has the transaction. -/
def Loses (n : Node) (e : Event × Env) : Prop :=
  match e with
  | (.sender i, env) =>
    ∃ tx, n.manager.toSend[i]? = some (some tx) ∧ Publishes env tx n.manager ∧
      env.publish = .before ∧
        ¬ ({ n.manager with toSend := n.manager.toSend.eraseIdx i } : Manager).Traced tx.txInfo
  | (.validationMsg data, env) => LosesBatch env (n.handleValidationV2Msg env data).1 n.manager
  | (.flushTick, env) => LosesBatch env (n.checkAndFlushValidationV2 env).1 n.manager
  | _ => False

theorem publish_before (h : w = .before) (a : α) (stream : List α) :
    (publish w a stream).2 = stream := by
  rw [h]
  rfl

theorem publish_stored (h : w ≠ .before) (a : α) (stream : List α) :
    (publish w a stream).2 = stream ++ [a] := by
  cases w with
  | none => rfl
  | before => exact absurd rfl h
  | after => rfl

theorem mem_publish (h : w ≠ .before) (a : α) (stream : List α) : a ∈ (publish w a stream).2 := by
  rw [publish_stored h]
  exact mem_append_right _ mem_cons_self

theorem exists_mem_concat {P : α → Prop} {a : α} {l : List α} (h : ¬ P a) :
    (∃ b ∈ l ++ [a], P b) ↔ ∃ b ∈ l, P b := by
  simp [or_and_right, exists_or, h]

theorem kept_iff_not_lost {needs kept other : Prop} (hneeds : needs) (hstored : w ≠ .before → kept)
    (hbefore : w = .before → (kept ↔ other)) :
    kept ↔ ¬ (needs ∧ w = .before ∧ ¬ other) := by
  by_cases hw : w = .before
  · rw [hbefore hw]
    exact ⟨fun hother hlost => hlost.2.2 hother,
      fun h => Classical.byContradiction fun hother => h ⟨hneeds, hw, hother⟩⟩
  · exact iff_of_true (hstored hw) fun hlost => hw hlost.2.1

namespace Manager

theorem traced_logged {a : Attempt} (h : a.action ≠ .fail) (info : TxInfo) (t : BlockTimeTracker)
    (nanos : ℕ) (m : Manager) : (m.logged t nanos a).Traced info ↔ m.Traced info := by
  refine or_congr Iff.rfl (or_congr ?_ Iff.rfl)
  exact exists_mem_concat fun ⟨hfail, _⟩ => h hfail

theorem accounted_iff_traced {env : Env} {tx : TxToSend} {payload : Payload} {m m' : Manager}
    (hdue : Due env tx payload m) {attempts : ℕ} (hattempts : attempts < maxAttempts) :
    m'.Accounted env tx.txInfo attempts ↔ m'.Traced tx.txInfo := by
  unfold Accounted
  rw [hdue.unpacks, hdue.alive]
  constructor
  · rintro (h | h | h | h)
    · exact nomatch h
    · exact h
    · exact nomatch h
    · omega
  · exact fun h => .inr (.inl h)

end Manager

/-- The message at a position is no longer pending for the sender loop. -/
def settleSend (i : ℕ) (m : Manager) : Manager := { m with toSend := m.toSend.eraseIdx i }

theorem mem_eraseIdx_publish (h : w ≠ .before) (a : α) {b : α} {stream : List α} {i : ℕ}
    (hi : stream[i]? = some b) : a ∈ (publish w a stream).2.eraseIdx i := by
  rw [publish_stored h, List.eraseIdx_append_of_lt_length (List.getElem?_eq_some_iff.mp hi).1]
  exact List.mem_append_right _ List.mem_cons_self

theorem senderStep_accounted_iff {env : Env} {tx tx' : TxToSend} {m m' : Manager} {reply : Reply}
    {i : ℕ} (hi : m.toSend[i]? = some (some tx)) (hstep : SenderStep env tx m reply tx' m')
    (hreply : reply ≠ .nak) :
    (settleSend i m').Accounted env tx.txInfo tx'.attempts ↔
      ¬ (Publishes env tx m ∧ env.publish = .before ∧ ¬ (settleSend i m).Traced tx.txInfo) := by
  cases hstep with
  | waits => exact absurd rfl hreply
  | closes t h =>
    refine iff_of_true ?_ ?_
    · rcases h with h | h | h
      · exact .inr (.inr (.inr h))
      · exact .inr (.inr (.inl h))
      · exact .inl h
    · rintro ⟨⟨_, hdue, -⟩, -⟩
      rcases h with h | h | h
      · exact absurd hdue.attempts (Nat.not_lt.mpr h)
      · exact nomatch hdue.alive.symm.trans h
      · exact nomatch hdue.unpacks.symm.trans h
  | tracks t payload hdue hsent =>
    rw [accounted_iff_traced hdue hdue.attempts]
    refine kept_iff_not_lost ⟨payload, hdue, .inl hsent⟩ (fun hw => ?_) (fun hw => ?_)
    · exact .inl (.inr ⟨tx.txInfo, mem_publish hw _ _, rfl, .inl rfl⟩)
    · rw [publish_before hw]
      exact Iff.rfl
  | rejected _ _ a _ hdue hsent ha hfail =>
    refine iff_of_true (.inr (.inl (.inr (.inl ⟨a, ?_, ha.action_eq.trans hfail, ha.id_eq, ?_⟩)))) ?_
    · exact mem_append_right _ mem_cons_self
    · rw [hdue.unpacks, ha.msgs_eq]
      rfl
    rintro ⟨⟨_, -, h | h | h⟩, -⟩
    · exact nomatch hsent.symm.trans h
    · exact nomatch hfail.symm.trans h
    · exact nomatch hfail.symm.trans h.1
  | exhausted _ _ _ _ _ hsent _ hretry hmax =>
    refine iff_of_true (.inr (.inr (.inr hmax))) ?_
    rintro ⟨⟨_, -, h | h | h⟩, -⟩
    · exact nomatch hsent.symm.trans h
    · exact nomatch hretry.symm.trans h
    · exact absurd h.2 (Nat.not_lt.mpr hmax)
  | requeues t nanos a payload hdue _ ha hretry hmax =>
    have hattempts : (tx.again env).attempts < maxAttempts := hmax
    rw [accounted_iff_traced hdue hattempts]
    refine kept_iff_not_lost ⟨payload, hdue, .inr (.inr ⟨hretry, hmax⟩)⟩ (fun hw => ?_) (fun hw => ?_)
    · exact .inl (.inl ⟨tx.again env, mem_eraseIdx_publish hw _ hi, rfl, .inl rfl⟩)
    · rw [publish_before hw]
      have hlog : a.action ≠ .fail := by rw [ha.action_eq, hretry]; decide
      exact traced_logged hlog tx.txInfo t nanos (settleSend i m)
  | observes t nanos a payload timeout txHash hdue _ ha hobserve =>
    have hattempts : (tx.accepted timeout txHash).attempts < maxAttempts := hdue.attempts
    rw [accounted_iff_traced hdue hattempts]
    refine kept_iff_not_lost ⟨payload, hdue, .inr (.inl hobserve)⟩ (fun hw => ?_) (fun hw => ?_)
    · exact .inl (.inr ⟨(tx.accepted timeout txHash).txInfo, mem_publish hw _ _, rfl, .inl rfl⟩)
    · rw [publish_before hw]
      have hlog : a.action ≠ .fail := by rw [ha.action_eq, hobserve]; decide
      exact traced_logged hlog tx.txInfo t nanos (settleSend i m)

theorem sender_kept_iff (i : ℕ) (env : Env) (n : Node) :
    Kept n (.sender i, env) ↔ ¬ Loses n (.sender i, env) := by
  constructor
  · rintro hkept ⟨tx, hi, hpub, hbefore, htraced⟩
    obtain ⟨reply, tx', m', hsend, hstep⟩ := sendTxs_step env tx n.manager
    have hreply : reply ≠ .nak := by
      rintro rfl
      obtain ⟨_, hdue, -⟩ := hpub
      cases hstep with
      | waits t h =>
        rcases h with h | h
        · exact nomatch hdue.running.symm.trans h
        · exact nomatch hdue.late.symm.trans h
    have hacc := hkept tx tx' reply m' hi hsend hreply
    simp only [Node.step, Node.deliverToSender, hi, hsend, if_neg hreply] at hacc
    exact (senderStep_accounted_iff hi hstep hreply).mp hacc ⟨hpub, hbefore, htraced⟩
  · intro hloses tx tx' reply m hi hsend hreply
    obtain ⟨_, _, _, hsend', hstep⟩ := sendTxs_step env tx n.manager
    rw [hsend] at hsend'
    obtain ⟨rfl, rfl, rfl⟩ := hsend'
    simp only [Node.step, Node.deliverToSender, hi, hsend, if_neg hreply]
    exact (senderStep_accounted_iff hi hstep hreply).mpr
      fun ⟨hpub, hbefore, htraced⟩ => hloses ⟨tx, hi, hpub, hbefore, htraced⟩

theorem observer_kept (i : ℕ) (env : Env) (n : Node) : Kept n (.observer i, env) := by
  intro info info' reply m hi hobserve hreply
  obtain ⟨_, _, _, hobserve', hstep⟩ := observeTxs_step env info n.manager
  rw [hobserve] at hobserve'
  obtain ⟨rfl, rfl, rfl⟩ := hobserve'
  simp only [Node.step, Node.deliverToObserver, hi, hobserve, if_neg hreply]
  cases hstep with
  | waits => exact absurd rfl hreply
  | closes t h =>
    rcases h with h | h | h
    · exact .inl (.inr (.inr (.inl h)))
    · exact .inl (.inl h)
    · exact .inr h
  | found => exact .inl (.inr (.inl (.inr (.inr mem_cons_self))))
  | exhausted t hmax => exact .inl (.inr (.inr (.inr hmax)))
  | returns _ _ _ tx _ hrep hunpack htx _ hid =>
    have hstored : env.publish ≠ .before := by
      rw [hrep.resolve_left hreply]
      nofun
    have hsame : SameTx info tx.txInfo := by
      refine ⟨htx.trans hunpack.symm, ?_⟩
      rcases hid with hid | hid
      · exact .inl hid.1
      · exact .inr hid
    exact .inl (.inr (.inl (.inl (.inl ⟨tx, mem_publish hstored _ _, hsame⟩))))

namespace Manager

theorem covered_logged {a : Attempt} (h : a.action = .retry) (p : ℤ × PoCValidationEntryV2)
    (t : BlockTimeTracker) (nanos : ℕ) (m : Manager) :
    (m.logged t nanos a).Covered p ↔ m.Covered p := by
  exact or_congr (exists_mem_concat fun ⟨hact, _⟩ => hact h) Iff.rfl

end Manager

/-- A hand-off covers its validations, unless it is deferred and cannot be published. -/
theorem handOff_covered_iff {env : Env} {payload : Payload} {m m' : Manager}
    (hstep : HandOff env payload m m') {p : ℤ × PoCValidationEntryV2} (hp : p ∈ pairsOf payload.msgs) :
    m'.Covered p ↔ ¬ (Defers env m ∧ env.publish = .before ∧ ¬ m.Covered p) := by
  cases hstep with
  | deferred _ tx hrun _ _ htx =>
    refine kept_iff_not_lost (.inl hrun) (fun hw => ?_) (fun hw => ?_)
    · exact .inr (.inl ⟨tx, mem_publish hw _ _, payload, htx, hp⟩)
    · rw [publish_before hw]
      exact Iff.rfl
  | rejected _ _ a hrun ha hfail =>
    refine iff_of_true (.inl ⟨a, mem_append_right _ mem_cons_self, ?_, ?_⟩) ?_
    · rw [ha.action_eq, hfail]
      decide
    · rw [ha.msgs_eq]
      exact hp
    · rintro ⟨h | h, -⟩
      · exact nomatch hrun.symm.trans h
      · exact nomatch hfail.symm.trans h
  | enqueued t nanos a tx hrun ha hout _ _ htx =>
    cases hcase : m.outcome env with
    | fail => exact absurd hcase hout
    | observe =>
      refine iff_of_true (.inl ⟨a, mem_append_right _ mem_cons_self, ?_, ?_⟩) ?_
      · rw [ha.action_eq, hcase]
        decide
      · rw [ha.msgs_eq]
        exact hp
      · rintro ⟨h | h, -⟩
        · exact nomatch hrun.symm.trans h
        · exact nomatch hcase.symm.trans h
    | retry =>
      refine kept_iff_not_lost (.inr hcase) (fun hw => ?_) (fun hw => ?_)
      · exact .inr (.inl ⟨tx, mem_publish hw _ _, payload, htx, hp⟩)
      · rw [publish_before hw]
        exact covered_logged (ha.action_eq.trans hcase) p t nanos m

theorem sendBatchAsyncWithRetry_step (env : Env) {msgs : List Msg} (h : msgs ≠ [])
    (deadlineBlock : Option ℤ) (m : Manager) : ∃ payload : Payload, payload.msgs = msgs ∧
      HandOff env payload m (m.sendBatchAsyncWithRetry env msgs deadlineBlock).2 := by
  unfold sendBatchAsyncWithRetry
  split
  · exact absurd rfl h
  · next rawTx =>
    have hmsgs : (Payload.tx rawTx).msgs ≠ [] := h
    exact ⟨.tx rawTx, rfl, sendAsyncWithRetry_step env hmsgs _ m⟩
  · have hmsgs : (Payload.batch msgs).msgs ≠ [] := h
    exact ⟨.batch msgs, rfl, sendAsyncWithRetry_step env hmsgs _ m⟩

theorem aggregated_handOff (env : Env) (m : Manager) {batch : List Msg}
    {p : ℤ × PoCValidationEntryV2} (hp : p ∈ pairsOf batch) :
    ∃ payload : Payload, p ∈ pairsOf payload.msgs ∧ HandOff env payload m
      (m.sendBatchAsyncWithRetry env (aggregateValidationV2Messages env.order batch) none).2 := by
  have hagg : p ∈ pairsOf (aggregateValidationV2Messages env.order batch) :=
    (pairs_aggregate env.order batch).mem_iff.mpr hp
  have hne : aggregateValidationV2Messages env.order batch ≠ [] := by
    intro hnil
    rw [hnil] at hagg
    exact nomatch hagg
  obtain ⟨payload, hmsgs, hstep⟩ := sendBatchAsyncWithRetry_step env hne none m
  exact ⟨payload, hmsgs ▸ hagg, hstep⟩

theorem flush_covered_iff (env : Env) (n : Node) :
    (∀ p ∈ pairsOf (n.flushValidationV2 env).1, (n.flushValidationV2 env).2.manager.Covered p) ↔
      ¬ LosesBatch env (n.flushValidationV2 env).1 n.manager := by
  rcases hbatch : n.consumer.validationV2Batch with - | _
  · simp only [Node.flushValidationV2, hbatch, LosesBatch, pairsOf, flatMap_nil,
      not_mem_nil, false_and, exists_false, and_false, not_false_eq_true, false_implies,
      implies_true]
  simp only [Node.flushValidationV2, hbatch]
  constructor
  · rintro hcov ⟨hbefore, hdefers, p, hp, hpre⟩
    obtain ⟨_, hpay, hstep⟩ := aggregated_handOff env n.manager hp
    exact (handOff_covered_iff hstep hpay).mp (hcov p hp) ⟨hdefers, hbefore, hpre⟩
  · intro hloses p hp
    obtain ⟨_, hpay, hstep⟩ := aggregated_handOff env n.manager hp
    exact (handOff_covered_iff hstep hpay).mpr
      fun ⟨hdefers, hbefore, hpre⟩ => hloses ⟨hbefore, hdefers, p, hp, hpre⟩

theorem not_losesBatch_nil (env : Env) (m : Manager) : ¬ LosesBatch env [] m :=
  fun ⟨_, _, _, hp, _⟩ => nomatch hp

theorem validationMsg_kept_iff (data : Option Msg) (env : Env) (n : Node) :
    Kept n (.validationMsg data, env) ↔ ¬ Loses n (.validationMsg data, env) := by
  simp only [Kept, Loses, Node.step]
  cases data with
  | none => exact iff_of_true (fun _ hp => nomatch hp) (not_losesBatch_nil env _)
  | some =>
    simp only [Node.handleValidationV2Msg]
    split
    · exact flush_covered_iff env _
    · exact iff_of_true (fun _ hp => nomatch hp) (not_losesBatch_nil env _)

theorem flushTick_kept_iff (env : Env) (n : Node) :
    Kept n (.flushTick, env) ↔ ¬ Loses n (.flushTick, env) := by
  simp only [Kept, Loses, Node.step, Node.checkAndFlushValidationV2]
  split
  · exact flush_covered_iff env n
  · exact iff_of_true (fun _ hp => nomatch hp) (not_losesBatch_nil env _)

theorem kept_iff (n : Node) (e : Event × Env) : Kept n e ↔ ¬ Loses n e := by
  obtain ⟨event, env⟩ := e
  cases event with
  | sendTransaction | sendBatch => exact iff_of_true trivial not_false
  | sender i => exact sender_kept_iff i env n
  | observer i => exact iff_of_true (observer_kept i env n) not_false
  | validationMsg data => exact validationMsg_kept_iff data env n
  | flushTick => exact flushTick_kept_iff env n
  | restart => exact iff_of_true trivial not_false

/-- **Aggregation keeps every validation, and in every run, from any state and whatever
fails, the messages that are acknowledged or terminated are accounted for exactly as long
as no step loses one.** -/
theorem acknowledged_kept_iff (events : List (Event × Env)) (n : Node) :
    (∀ order batch, (pairsOf (aggregateValidationV2Messages order batch)).Perm (pairsOf batch)) ∧
      (EachStep Node.step Kept events n ↔ EachStep Node.step (fun n e => ¬ Loses n e) events n) :=
  ⟨pairs_aggregate, eachStep_congr kept_iff events n⟩

def counted : UuidSource := ⟨(· + 1), fun n => Nat.succ_ne_zero n, fun _ _ => Nat.succ.inj⟩

def eagerNode : Node where
  manager := { uuid := counted, defaultTimeout := 60 * second }
  consumer := { validationV2FlushSize := 1, validationV2FlushTimeout := second }

def oneValidation : Msg := .submitPocValidationsV2 ⟨"host", 100, [⟨"peer", 1, "model"⟩]⟩

def cutOff : Env where
  now := 1000 * second
  status := .error "connection refused"
  publish := .before

def mempoolFull (w : Fault) : Env where
  now := 1000 * second
  height := 10
  status := .ok ⟨999 * second, false⟩
  broadcast := .ok { code := 20, rawLog := "mempool is full" }
  publish := w

/-- A validation that cannot be enqueued is acknowledged, and so is a queued transaction
that meets a full mempool and cannot be requeued. -/
theorem failed_publish_loses :
    ¬ EachStep Node.step Kept [(.validationMsg (some oneValidation), cutOff)] eagerNode ∧
      ¬ EachStep Node.step Kept
        [(.sendTransaction (.plain .claimRewards "epoch 7") none, mempoolFull .none),
          (.sender 0, mempoolFull .before)] eagerNode := by
  constructor
  · rintro ⟨hkept, -⟩
    refine (kept_iff _ _).mp hkept ⟨rfl, .inl rfl, (100, ⟨"peer", 1, "model"⟩), ?_, ?_⟩
    · exact List.mem_cons_self
    rintro (⟨_, ha, -⟩ | ⟨_, htx, -⟩ | ⟨_, hinfo, -⟩)
    · exact nomatch ha
    · exact nomatch htx
    · exact nomatch hinfo
  · rintro ⟨-, hkept, -⟩
    refine (kept_iff _ _).mp hkept ⟨⟨(Payload.tx (.plain .claimRewards "epoch 7")).info 1 "" (1059 * second) 40,
      false, 1, 0⟩, rfl, ⟨.tx (.plain .claimRewards "epoch 7"), ⟨rfl, by decide, rfl, rfl, rfl⟩,
        .inr (.inr ⟨rfl, by decide⟩)⟩, rfl, ?_⟩
    rintro ((⟨_, htx, -⟩ | ⟨_, hinfo, -⟩) | ⟨_, ha, hfail, -⟩ | hfound)
    · exact nomatch htx
    · exact nomatch hinfo
    · rw [List.mem_singleton.mp ha] at hfail
      exact nomatch hfail
    · exact nomatch hfound

end TxManager
