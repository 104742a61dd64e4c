/-
How often and with how much gas a transaction is broadcast.

A transaction has two counters: one in its envelope in `txs_to_send`, and one inside,
which sizes the gas.  The sender loop raises the first and reads the second; the observer
loop raises the second, copies it to the envelope, and writes a new transaction without it.
So the second is always 0 when a broadcast reads it, and each time through the observer
loop the first starts again.

Main results: `escalates_throughout_iff`, `retries_stay_cheap`.
-/
import Gonka.Api.Delivery

namespace TxManager

open Along List Option Manager

namespace Manager

/-- The calls of `BroadcastTxSync` for a transaction, in order. -/
def broadcasts (id : ℕ) (m : Manager) : List Attempt := m.log.filter fun a => a.sent && a.id = id

/-- A transaction that was handed over is broadcast at most `maxAttempts` times, and the
gas of each time is the estimate for its number. -/
def Escalates (m : Manager) : Prop :=
  ∀ id msgs, (id, msgs) ∈ m.handed → (m.broadcasts id).length ≤ maxAttempts ∧
    ∀ k a, (m.broadcasts id)[k]? = some a → a.gasWanted = estimateBatchGas msgs k

/-- The sender loop's broadcasts of this transaction stand in the log. -/
def Known (m : Manager) (info : TxInfo) : Prop :=
  info.attempts = 0 ∧ ∃ payload, info.unpack = some payload ∧ (info.id, payload.msgs) ∈ m.handed

end Manager

/-- The transactions in the streams and in the log were handed over, and the counter inside
them is 0. -/
structure Ledger (m : Manager) : Prop where
  bound : ∀ id msgs, (id, msgs) ∈ m.handed → ∃ n < m.issued, m.uuid.new n = id
  unique : ∀ id msgs msgs', (id, msgs) ∈ m.handed → (id, msgs') ∈ m.handed → msgs = msgs'
  toSend : ∀ tx, some tx ∈ m.toSend → m.Known tx.txInfo
  toObserve : ∀ info, some info ∈ m.toObserve → m.Known info
  log : ∀ a ∈ m.log, (a.id, a.msgs) ∈ m.handed ∧ a.gasWanted = estimateBatchGas a.msgs 0

theorem mem_of_mem_publish {α : Type} {w : Crash.Fault} {a b : α} {stream : List α}
    (h : b ∈ (publish w a stream).2) : b ∈ stream ∨ b = a := by
  by_cases hw : w = .before
  · rw [publish_before hw] at h
    exact .inl h
  rw [publish_stored hw] at h
  rcases mem_append.mp h with h | h
  · exact .inl h
  · exact .inr (mem_singleton.mp h)

namespace Ledger

variable {m : Manager}

theorem settleSend (hm : Ledger m) (i : ℕ) : Ledger (settleSend i m) :=
  { hm with toSend := fun tx htx => hm.toSend tx (mem_of_mem_eraseIdx htx) }

theorem settleObserve (hm : Ledger m) (i : ℕ) :
    Ledger { m with toObserve := m.toObserve.eraseIdx i } :=
  { hm with toObserve := fun info hinfo => hm.toObserve info (mem_of_mem_eraseIdx hinfo) }

theorem logged (hm : Ledger m) (t : BlockTimeTracker) (nanos : ℕ) {a : Attempt}
    (ha : (a.id, a.msgs) ∈ m.handed ∧ a.gasWanted = estimateBatchGas a.msgs 0) :
    Ledger (m.logged t nanos a) := by
  refine { hm with log := fun b hb => ?_ }
  rcases mem_append.mp hb with hb | hb
  · exact hm.log b hb
  · rw [mem_singleton.mp hb]
    exact ha

variable {tx : TxToSend} {env : Env} {m' : Manager}

theorem publishSend (hm : Ledger m) (w : Crash.Fault) (t : BlockTimeTracker)
    (htx : m.Known tx.txInfo) :
    Ledger { m with blockTimeTracker := t, toSend := (publish w (some tx) m.toSend).2 } := by
  refine { hm with toSend := fun tx' htx' => ?_ }
  rcases mem_of_mem_publish htx' with h | h
  · exact hm.toSend tx' h
  · rw [some.inj h]
    exact htx

theorem publishObserve (hm : Ledger m) (w : Crash.Fault) (t : BlockTimeTracker) {info : TxInfo}
    (hinfo : m.Known info) :
    Ledger { m with
      blockTimeTracker := t, toObserve := (publish w (some info) m.toObserve).2 } := by
  refine { hm with toObserve := fun info' hinfo' => ?_ }
  rcases mem_of_mem_publish hinfo' with h | h
  · exact hm.toObserve info' h
  · rw [some.inj h]
    exact hinfo

theorem ne_nextId (hm : Ledger m) {id : ℕ} {msgs : List Msg} (h : (id, msgs) ∈ m.handed) :
    id ≠ m.nextId := by
  obtain ⟨n, hn, rfl⟩ := hm.bound id msgs h
  exact fun heq => absurd (m.uuid.injective heq) hn.ne

theorem handedOver (hm : Ledger m) (msgs : List Msg) : Ledger (m.handedOver msgs) where
  bound id msgs' h := by
    rcases mem_append.mp h with h | h
    · obtain ⟨n, hn, hid⟩ := hm.bound id msgs' h
      exact ⟨n, Nat.lt_succ_of_lt hn, hid⟩
    · rw [(Prod.mk.inj (mem_singleton.mp h)).1]
      exact ⟨m.issued, Nat.lt_succ_self _, rfl⟩
  unique id msgs₁ msgs₂ h₁ h₂ := by
    rcases mem_append.mp h₁ with h₁ | h₁
    · rcases mem_append.mp h₂ with h₂ | h₂
      · exact hm.unique id msgs₁ msgs₂ h₁ h₂
      · rw [(Prod.mk.inj (mem_singleton.mp h₂)).1] at h₁
        exact absurd rfl (hm.ne_nextId h₁)
    · rcases mem_append.mp h₂ with h₂ | h₂
      · rw [(Prod.mk.inj (mem_singleton.mp h₁)).1] at h₂
        exact absurd rfl (hm.ne_nextId h₂)
      · rw [(Prod.mk.inj (mem_singleton.mp h₁)).2, (Prod.mk.inj (mem_singleton.mp h₂)).2]
  toSend tx htx := by
    obtain ⟨hattempts, payload, hunpack, hmem⟩ := hm.toSend tx htx
    exact ⟨hattempts, payload, hunpack, mem_append_left _ hmem⟩
  toObserve info hinfo := by
    obtain ⟨hattempts, payload, hunpack, hmem⟩ := hm.toObserve info hinfo
    exact ⟨hattempts, payload, hunpack, mem_append_left _ hmem⟩
  log a ha := ⟨mem_append_left _ (hm.log a ha).1, (hm.log a ha).2⟩

theorem known_attempt {payload : Payload} {a : Attempt} (htx : m.Known tx.txInfo)
    (hunpack : tx.txInfo.unpack = some payload)
    (ha : a.Of env tx.txInfo.id tx.txInfo.attempts payload.msgs m) :
    (a.id, a.msgs) ∈ m.handed ∧ a.gasWanted = estimateBatchGas a.msgs 0 := by
  obtain ⟨hattempts, _, hunpack', hmem⟩ := htx
  have hpay := some.inj (hunpack.symm.trans hunpack')
  rw [ha.id_eq, ha.msgs_eq, ha.gas_eq, hattempts, hpay]
  exact ⟨hmem, rfl⟩

theorem senderStep (hm : Ledger m) {tx' : TxToSend} {reply : Reply} (htx : m.Known tx.txInfo)
    (hstep : SenderStep env tx m reply tx' m') : Ledger m' := by
  cases hstep with
  | waits | closes => exact { hm with }
  | tracks t => exact hm.publishObserve env.publish t htx
  | rejected t nanos _ _ hdue _ ha =>
    exact hm.logged t nanos (known_attempt htx hdue.unpacks ha)
  | exhausted t nanos _ _ hdue _ ha =>
    exact hm.logged t nanos (known_attempt htx hdue.unpacks ha)
  | requeues t nanos a _ hdue _ ha =>
    have hm' := hm.logged t nanos (known_attempt htx hdue.unpacks ha)
    have hknown : (m.logged t nanos a).Known (tx.again env).txInfo := htx
    exact hm'.publishSend env.publish t hknown
  | observes t nanos a _ timeout txHash hdue _ ha =>
    have hm' := hm.logged t nanos (known_attempt htx hdue.unpacks ha)
    have hknown : (m.logged t nanos a).Known (tx.accepted timeout txHash).txInfo := htx
    exact hm'.publishObserve env.publish t hknown

theorem observerStep (hm : Ledger m) {info info' : TxInfo} {reply : Reply} (hinfo : m.Known info)
    (hstep : ObserverStep env info m reply info' m') : Ledger m' := by
  cases hstep with
  | waits | closes | found | exhausted => exact { hm with }
  | returns t _ payload _ _ _ hunpack htx hattempts hid =>
    obtain ⟨-, _, hunpack', hmem⟩ := hinfo
    -- A known transaction has an id, so it keeps it.
    rcases hid with ⟨hid, hlast⟩ | hid
    · subst hlast
      refine hm.publishSend env.publish t ⟨hattempts, payload, htx, ?_⟩
      rw [hid, some.inj (hunpack.symm.trans hunpack')]
      exact hmem
    · obtain ⟨n, -, hn⟩ := hm.bound _ _ hmem
      exact absurd (hn.trans hid) (m.uuid.ne_zero n)

theorem handOff (hm : Ledger m) {payload : Payload}
    (hstep : HandOff env payload m m') : Ledger m' := by
  have hnew : (m.nextId, payload.msgs) ∈ (m.handedOver payload.msgs).handed :=
    mem_append_right _ mem_cons_self
  have hattempt : ∀ a : Attempt, a.Of env m.nextId 0 payload.msgs m →
      (a.id, a.msgs) ∈ (m.handedOver payload.msgs).handed ∧
        a.gasWanted = estimateBatchGas a.msgs 0 := by
    intro a ha
    rw [ha.id_eq, ha.msgs_eq, ha.gas_eq]
    exact ⟨hnew, rfl⟩
  cases hstep with
  | deferred t _ _ hid hattempts htx =>
    exact (hm.handedOver payload.msgs).publishSend env.publish t
      ⟨hattempts, payload, htx, hid ▸ hnew⟩
  | rejected t nanos a _ ha =>
    exact (hm.handedOver payload.msgs).logged t nanos (hattempt a ha)
  | enqueued t nanos a _ _ ha _ hid hattempts htx =>
    exact ((hm.handedOver payload.msgs).logged t nanos (hattempt a ha)).publishSend env.publish t
      ⟨hattempts, payload, htx, hid ▸ hnew⟩

end Ledger

/-- What a step of the node does to the manager. -/
inductive ManagerStep (e : Event × Env) (m : Manager) : Manager → Prop where
  /-- Nothing is broadcast or published; a malformed message may go. -/
  | quiet (t : BlockTimeTracker) (nanos : ℕ) (toSend : List (Option TxToSend))
      (toObserve : List (Option TxInfo)) (hsend : toSend ⊆ m.toSend)
      (hobserve : toObserve ⊆ m.toObserve)
      (he : ∀ i tx, e.1 = .sender i → m.toSend[i]? ≠ some (some tx)) :
    ManagerStep e m { m with blockTimeTracker := t, lastNanos := nanos, toSend, toObserve }
  | sends (i : ℕ) (tx tx' : TxToSend) (reply : Reply) (m' : Manager) (he : e.1 = .sender i)
      (hi : m.toSend[i]? = some (some tx)) (hstep : SenderStep e.2 tx m reply tx' m') :
    ManagerStep e m (if reply = .nak then m' else settleSend i m')
  | observes (i : ℕ) (info info' : TxInfo) (reply : Reply) (m' : Manager) (he : e.1 = .observer i)
      (hi : m.toObserve[i]? = some (some info)) (hstep : ObserverStep e.2 info m reply info' m') :
    ManagerStep e m
      (if reply = .nak then m' else { m' with toObserve := m'.toObserve.eraseIdx i })
  | hands (payload : Payload) (m' : Manager) (he : ∀ i, e.1 ≠ .sender i)
      (hstep : HandOff e.2 payload m m') : ManagerStep e m m'

variable {e : Event × Env} {m' : Manager} {env : Env}

theorem ManagerStep.same (m : Manager)
    (he : ∀ i tx, e.1 = .sender i → m.toSend[i]? ≠ some (some tx)) : ManagerStep e m m :=
  .quiet m.blockTimeTracker m.lastNanos m.toSend m.toObserve (Subset.refl _)
    (Subset.refl _) he

theorem sendBatch_managerStep {event : Event} (he : ∀ i, event ≠ .sender i) (env : Env)
    (msgs : List Msg) (deadlineBlock : Option ℤ) (m : Manager) :
    ManagerStep (event, env) m (m.sendBatchAsyncWithRetry env msgs deadlineBlock).2 := by
  by_cases hmsgs : msgs = []
  · subst hmsgs
    exact .same m fun i _ h => absurd h (he i)
  · obtain ⟨payload, -, hstep⟩ := sendBatchAsyncWithRetry_step env hmsgs deadlineBlock m
    exact .hands payload _ he hstep

theorem flush_managerStep {event : Event} (he : ∀ i, event ≠ .sender i) (env : Env) (m : Manager)
    (c : BatchConsumer) :
    ManagerStep (event, env) m ((⟨m, c⟩ : Node).flushValidationV2 env).2.manager := by
  unfold Node.flushValidationV2
  split
  · exact .same m fun i _ h => absurd h (he i)
  · exact sendBatch_managerStep he env _ none m

theorem sender_managerStep (i : ℕ) (env : Env) (n : Node) :
    ManagerStep (.sender i, env) n.manager (n.deliverToSender env i).manager := by
  unfold Node.deliverToSender
  cases hi : n.manager.toSend[i]? with
  | none =>
    refine .same n.manager fun j tx hj htx => ?_
    obtain rfl := Event.sender.inj hj
    exact nomatch hi.symm.trans htx
  | some data =>
    cases data with
    | none =>
      have hmalformed : ∀ j tx, Event.sender i = .sender j → n.manager.toSend[j]? ≠ some (some tx) := by
        intro j tx hj htx
        obtain rfl := Event.sender.inj hj
        exact nomatch hi.symm.trans htx
      obtain ⟨_, _, hsend⟩ := sendTxs_malformed env n.manager
      simp only [hsend]
      split
      · exact .quiet _ _ _ _ (Subset.refl _) (Subset.refl _) hmalformed
      · exact .quiet _ _ _ _ eraseIdx_subset (Subset.refl _) hmalformed
    | some tx =>
      obtain ⟨reply, tx', m', hsend, hstep⟩ := sendTxs_step env tx n.manager
      simp only [hsend]
      exact .sends i tx tx' reply m' rfl hi hstep

theorem observer_managerStep (i : ℕ) (env : Env) (n : Node) :
    ManagerStep (.observer i, env) n.manager (n.deliverToObserver env i).manager := by
  unfold Node.deliverToObserver
  have hnot : ∀ j tx, Event.observer i = .sender j → n.manager.toSend[j]? ≠ some (some tx) :=
    fun _ _ h => nomatch h
  cases hi : n.manager.toObserve[i]? with
  | none => exact .same n.manager hnot
  | some data =>
    cases data with
    | none =>
      obtain ⟨_, _, hobserve⟩ := observeTxs_malformed env n.manager
      simp only [hobserve]
      split
      · exact .quiet _ _ _ _ (Subset.refl _) (Subset.refl _) hnot
      · exact .quiet _ _ _ _ (Subset.refl _) eraseIdx_subset hnot
    | some info =>
      obtain ⟨reply, info', m', hobserve, hstep⟩ := observeTxs_step env info n.manager
      simp only [hobserve]
      exact .observes i info info' reply m' rfl hi hstep

theorem Node.step_manager (e : Event × Env) (n : Node) :
    ManagerStep e n.manager (n.step e).manager := by
  obtain ⟨event, env⟩ := e
  cases event with
  | sendTransaction rawTx =>
    have hmsgs : (Payload.tx rawTx).msgs ≠ [] := cons_ne_nil _ _
    exact .hands (.tx rawTx) _ (fun _ h => by cases h) (sendAsyncWithRetry_step env hmsgs _ _)
  | sendBatch msgs deadlineBlock =>
    have hnot : ∀ i, Event.sendBatch msgs deadlineBlock ≠ .sender i := fun _ h => by cases h
    exact sendBatch_managerStep hnot env msgs deadlineBlock n.manager
  | sender i => exact sender_managerStep i env n
  | observer i => exact observer_managerStep i env n
  | validationMsg data =>
    have hnot : ∀ i, Event.validationMsg data ≠ .sender i := fun _ h => by cases h
    cases data with
    | none => exact .same n.manager fun i _ h => absurd h (hnot i)
    | some =>
      simp only [Node.step, Node.handleValidationV2Msg]
      split
      · exact flush_managerStep hnot env n.manager _
      · exact .same n.manager fun i _ h => absurd h (hnot i)
  | flushTick =>
    have hnot : ∀ i, Event.flushTick ≠ .sender i := fun _ h => by cases h
    simp only [Node.step, Node.checkAndFlushValidationV2]
    split
    · exact flush_managerStep hnot env n.manager n.consumer
    · exact .same n.manager fun i _ h => absurd h (hnot i)
  | restart =>
    exact .quiet {} 0 _ _ (Subset.refl _) (Subset.refl _) fun _ _ h => by cases h

theorem Ledger.managerStep {m : Manager} (hm : Ledger m)
    (hstep : ManagerStep e m m') : Ledger m' := by
  cases hstep with
  | quiet _ _ _ _ hsend hobserve =>
    exact ⟨hm.bound, hm.unique, fun tx htx => hm.toSend tx (hsend htx),
      fun info hinfo => hm.toObserve info (hobserve hinfo), hm.log⟩
  | sends i tx _ _ _ _ hi hstep =>
    have hm' := hm.senderStep (hm.toSend tx (mem_of_getElem? hi)) hstep
    split
    · exact hm'
    · exact hm'.settleSend i
  | observes i info _ _ _ _ hi hstep =>
    have hm' := hm.observerStep (hm.toObserve info (mem_of_getElem? hi)) hstep
    split
    · exact hm'
    · exact hm'.settleObserve i
  | hands _ _ _ hstep => exact hm.handOff hstep

namespace Manager

variable {m m' : Manager}

theorem broadcasts_append {a : Attempt} (h : m'.log = m.log ++ [a]) (id : ℕ) :
    m'.broadcasts id = m.broadcasts id ++ if a.sent ∧ a.id = id then [a] else [] := by
  unfold broadcasts
  rw [h, filter_append]
  congr 1
  by_cases hc : a.sent = true ∧ a.id = id
  · rw [if_pos hc, filter_cons_of_pos (by simpa using hc), filter_nil]
  · rw [if_neg hc, filter_cons_of_neg (by simpa using hc), filter_nil]

theorem escalates_congr (hh : m'.handed = m.handed) (hl : m'.log = m.log) :
    m'.Escalates ↔ m.Escalates := by
  unfold Escalates broadcasts
  rw [hh, hl]

/-- One more broadcast, with the gas of a first one, is as it should be if the transaction
has attempts left and its gas has not grown. -/
theorem escalates_append (hm : Ledger m) (hesc : m.Escalates) {a : Attempt}
    (ha : (a.id, a.msgs) ∈ m.handed) (hgas : a.gasWanted = estimateBatchGas a.msgs 0)
    (hh : m'.handed = m.handed) (hl : m'.log = m.log ++ [a]) :
    m'.Escalates ↔ (a.sent = true → (m.broadcasts a.id).length < maxAttempts ∧
      estimateBatchGas a.msgs 0 = estimateBatchGas a.msgs (m.broadcasts a.id).length) := by
  constructor
  · intro h hsent
    obtain ⟨hlen, hall⟩ := h a.id a.msgs (hh ▸ ha)
    rw [broadcasts_append hl, if_pos ⟨hsent, rfl⟩, List.length_append, List.length_singleton] at hlen
    refine ⟨hlen, hgas.symm.trans (hall _ a ?_)⟩
    rw [broadcasts_append hl, if_pos ⟨hsent, rfl⟩, List.getElem?_append_right (Nat.le_refl _),
      Nat.sub_self]
    rfl
  · intro h id msgs hmem
    rw [hh] at hmem
    obtain ⟨hlen, hall⟩ := hesc id msgs hmem
    rw [broadcasts_append hl]
    by_cases hc : a.sent = true ∧ a.id = id
    · rw [if_pos hc]
      obtain ⟨hsent, rfl⟩ := hc
      obtain ⟨hlt, hest⟩ := h hsent
      obtain rfl := hm.unique _ _ _ hmem ha
      refine ⟨by rw [List.length_append, List.length_singleton]; exact hlt, fun k b hk => ?_⟩
      rcases Nat.lt_or_ge k (m.broadcasts a.id).length with hlt' | hge
      · rw [List.getElem?_append_left hlt'] at hk
        exact hall k b hk
      rw [List.getElem?_append_right hge] at hk
      -- The new broadcast is the last one.
      obtain ⟨hzero, hb⟩ := List.getElem?_eq_some_iff.mp hk
      rw [List.length_singleton] at hzero
      have hkeq : k = (m.broadcasts a.id).length := by omega
      subst hkeq
      rw [← hb, List.getElem_singleton, hgas]
      exact hest
    · rw [if_neg hc, List.append_nil]
      exact ⟨hlen, hall⟩

theorem broadcasts_new (hm : Ledger m) : m.broadcasts m.nextId = [] := by
  unfold broadcasts
  rw [filter_eq_nil_iff]
  intro a ha h
  rw [Bool.and_eq_true, decide_eq_true_iff] at h
  exact hm.ne_nextId (hm.log a ha).1 h.2

theorem escalates_handedOver (hm : Ledger m) (hesc : m.Escalates) (msgs : List Msg) :
    (m.handedOver msgs).Escalates := by
  intro id msgs' hmem
  have hsame : (m.handedOver msgs).broadcasts id = m.broadcasts id := rfl
  rw [hsame]
  rcases mem_append.mp hmem with hmem | hmem
  · exact hesc id msgs' hmem
  · rw [(Prod.mk.inj (mem_singleton.mp hmem)).1, broadcasts_new hm]
    exact ⟨Nat.zero_le _, fun k a hk => nomatch hk⟩

end Manager

/-- The sender loop broadcasts a transaction that has no attempts left, or whose gas should
have grown by now. -/
def Overdraws (n : Node) (e : Event × Env) : Prop :=
  match e with
  | (.sender i, env) =>
    ∃ tx payload, n.manager.toSend[i]? = some (some tx) ∧ Due env tx payload n.manager ∧
      tx.sent = false ∧ n.manager.reaches env = true ∧
        (maxAttempts ≤ (n.manager.broadcasts tx.txInfo.id).length ∨
          estimateBatchGas payload.msgs 0 ≠
            estimateBatchGas payload.msgs (n.manager.broadcasts tx.txInfo.id).length)
  | _ => False

theorem senderStep_escalates_iff {tx tx' : TxToSend} {reply : Reply} {m : Manager} (hm : Ledger m)
    (hesc : m.Escalates) (htx : m.Known tx.txInfo) (hstep : SenderStep env tx m reply tx' m') :
    m'.Escalates ↔ ¬ ∃ payload, Due env tx payload m ∧ tx.sent = false ∧ m.reaches env = true ∧
      (maxAttempts ≤ (m.broadcasts tx.txInfo.id).length ∨ estimateBatchGas payload.msgs 0 ≠
        estimateBatchGas payload.msgs (m.broadcasts tx.txInfo.id).length) := by
  -- All ways with a broadcast are alike.
  have hbroadcast : ∀ {payload : Payload} {a : Attempt}, Due env tx payload m → tx.sent = false →
      a.Of env tx.txInfo.id tx.txInfo.attempts payload.msgs m → m'.handed = m.handed →
        m'.log = m.log ++ [a] →
          (m'.Escalates ↔ ¬ ∃ payload, Due env tx payload m ∧ tx.sent = false ∧
            m.reaches env = true ∧ (maxAttempts ≤ (m.broadcasts tx.txInfo.id).length ∨
              estimateBatchGas payload.msgs 0 ≠
                estimateBatchGas payload.msgs (m.broadcasts tx.txInfo.id).length)) := by
    intro payload a hdue hsent ha hh hl
    obtain ⟨hmem, hgas⟩ := Ledger.known_attempt htx hdue.unpacks ha
    rw [escalates_append hm hesc hmem hgas hh hl, ha.id_eq, ha.msgs_eq, ha.sent_eq]
    constructor
    · rintro h ⟨_, hdue', -, hreaches, hover⟩
      cases hdue.unpacks.symm.trans hdue'.unpacks
      obtain ⟨hlt, hest⟩ := h hreaches
      rcases hover with hover | hover
      · exact absurd hlt (Nat.not_lt.mpr hover)
      · exact hover hest
    · intro h hreaches
      refine ⟨Nat.lt_of_not_le fun hle => h ⟨payload, hdue, hsent, hreaches, .inl hle⟩, ?_⟩
      exact Classical.byContradiction fun hne => h ⟨payload, hdue, hsent, hreaches, .inr hne⟩
  cases hstep with
  | waits t h =>
    refine iff_of_true ((escalates_congr rfl rfl).mpr hesc) ?_
    rintro ⟨_, hdue, -⟩
    rcases h with h | h
    · exact nomatch hdue.running.symm.trans h
    · exact nomatch hdue.late.symm.trans h
  | closes t h =>
    refine iff_of_true ((escalates_congr rfl rfl).mpr hesc) ?_
    rintro ⟨_, hdue, -⟩
    rcases h with h | h | h
    · exact absurd hdue.attempts (Nat.not_lt.mpr h)
    · exact nomatch hdue.alive.symm.trans h
    · exact nomatch hdue.unpacks.symm.trans h
  | tracks _ _ _ hsent =>
    refine iff_of_true ((escalates_congr rfl rfl).mpr hesc) ?_
    rintro ⟨_, -, hnot, -⟩
    exact nomatch hsent.symm.trans hnot
  | rejected _ _ _ _ hdue hsent ha => exact hbroadcast hdue hsent ha rfl rfl
  | exhausted _ _ _ _ hdue hsent ha => exact hbroadcast hdue hsent ha rfl rfl
  | requeues _ _ _ _ hdue hsent ha => exact hbroadcast hdue hsent ha rfl rfl
  | observes _ _ _ _ _ _ hdue hsent ha =>
    exact hbroadcast hdue hsent ha rfl rfl

theorem handOff_escalates {payload : Payload} {m : Manager} (hm : Ledger m) (hesc : m.Escalates)
    (hstep : HandOff env payload m m') : m'.Escalates := by
  have hesc' := escalates_handedOver hm hesc payload.msgs
  -- A first broadcast has the gas of a first one.
  have hfirst : ∀ {a : Attempt}, a.Of env m.nextId 0 payload.msgs m →
      m'.handed = (m.handedOver payload.msgs).handed →
        m'.log = (m.handedOver payload.msgs).log ++ [a] → m'.Escalates := by
    intro a ha hh hl
    refine (escalates_append (hm.handedOver payload.msgs) hesc' ?_ ?_ hh hl).mpr fun _ => ?_
    · rw [ha.id_eq, ha.msgs_eq]
      exact mem_append_right _ mem_cons_self
    · rw [ha.gas_eq, ha.msgs_eq]
    have hnone : (m.handedOver payload.msgs).broadcasts a.id = [] := by
      rw [ha.id_eq]
      exact broadcasts_new hm
    rw [hnone]
    exact ⟨by decide, rfl⟩
  cases hstep with
  | deferred => exact (escalates_congr rfl rfl).mpr hesc'
  | rejected _ _ _ _ ha => exact hfirst ha rfl rfl
  | enqueued _ _ _ _ _ ha => exact hfirst ha rfl rfl

theorem observerStep_log {info info' : TxInfo} {reply : Reply} {m : Manager}
    (hstep : ObserverStep env info m reply info' m') : m'.handed = m.handed ∧ m'.log = m.log := by
  cases hstep <;> exact ⟨rfl, rfl⟩

theorem managerStep_escalates_iff {n : Node} (hn : Ledger n.manager) (hesc : n.manager.Escalates)
    (hstep : ManagerStep e n.manager m') :
    m'.Escalates ↔ ¬ Overdraws n e := by
  obtain ⟨event, env⟩ := e
  have hnot : (∀ i tx, event = .sender i → n.manager.toSend[i]? ≠ some (some tx)) →
      ¬ Overdraws n (event, env) := by
    intro h hover
    cases event with
    | sender i =>
      obtain ⟨tx, -, hi, -⟩ := hover
      exact h i tx rfl hi
    | _ => exact hover
  cases hstep with
  | quiet _ _ _ _ _ _ he =>
    exact iff_of_true ((escalates_congr rfl rfl).mpr hesc) (hnot he)
  | sends i tx _ reply m' he hi hstep =>
    have hif : (if reply = .nak then m' else settleSend i m').Escalates ↔ m'.Escalates := by
      split
      · exact Iff.rfl
      · exact escalates_congr rfl rfl
    obtain rfl : event = .sender i := he
    rw [hif, senderStep_escalates_iff hn hesc (hn.toSend tx (mem_of_getElem? hi)) hstep]
    refine not_congr ⟨fun ⟨payload, h⟩ => ⟨tx, payload, hi, h⟩, fun ⟨tx₁, payload, hi₁, h⟩ => ?_⟩
    cases some.inj (hi.symm.trans hi₁)
    exact ⟨payload, h⟩
  | observes i _ _ _ _ he _ hstep =>
    obtain ⟨hh, hl⟩ := observerStep_log hstep
    have hobserver : event = .observer i := he
    refine iff_of_true ?_ (hnot fun j tx hj => nomatch hobserver.symm.trans hj)
    split <;> exact (escalates_congr hh hl).mpr hesc
  | hands _ _ he hstep =>
    exact iff_of_true (handOff_escalates hn hesc hstep) (hnot fun i _ h => absurd h (he i))

def Node.start (uuid : UuidSource) (defaultTimeout : Time) (consumer : BatchConsumer) : Node :=
  ⟨{ uuid, defaultTimeout }, consumer⟩

/-- **Nothing is sent that was not handed over**, in any run and whatever fails. -/
theorem run_ledger (events : List (Event × Env)) (uuid : UuidSource) (defaultTimeout : Time)
    (consumer : BatchConsumer) :
    Ledger (run Node.step events (Node.start uuid defaultTimeout consumer)).manager :=
  run_invariant (P := fun n : Node => Ledger n.manager) (s := Node.start uuid defaultTimeout consumer)
    (fun n e hn => hn.managerStep (Node.step_manager e n))
    ⟨fun _ _ h => (nomatch h), fun _ _ _ h => (nomatch h), fun _ h => (nomatch h),
      fun _ h => (nomatch h), fun _ h => (nomatch h)⟩ events

/-- **In every run the retries are bounded and escalate exactly as long as no step
overdraws.** -/
theorem escalates_throughout_iff (events : List (Event × Env)) (uuid : UuidSource)
    (defaultTimeout : Time) (consumer : BatchConsumer) :
    Throughout Node.step (fun n => n.manager.Escalates) events
        (Node.start uuid defaultTimeout consumer) ↔
      EachStep Node.step (fun n e => ¬ Overdraws n e) events
        (Node.start uuid defaultTimeout consumer) := by
  have hledger : Ledger (Node.start uuid defaultTimeout consumer).manager :=
    ⟨fun _ _ h => (nomatch h), fun _ _ _ h => (nomatch h), fun _ h => (nomatch h),
      fun _ h => (nomatch h), fun _ h => (nomatch h)⟩
  refine throughout_iff_eachStep (I := fun n => Ledger n.manager) (fun n e hn _ => ?_)
    (fun n e hn hesc => ?_) hledger (fun _ _ h => nomatch h)
  · exact hn.managerStep (Node.step_manager e n)
  · exact managerStep_escalates_iff hn hesc (Node.step_manager e n)

def outOfGas : Env where
  now := 1000 * second
  height := 10
  status := .ok ⟨999 * second, false⟩
  broadcast := .ok { code := 11, rawLog := "out of gas in location: ReadFlat" }

def acceptedOnly (round : ℕ) : Env where
  now := (1000 + 100 * round) * second
  height := 10
  status := .ok ⟨(999 + 100 * round) * second, false⟩
  broadcast := .ok { txHash := "AB" }
  query := .error "tx not found"

/-- The observer loop gives the transaction back, the sender loop broadcasts it, and a
hundred seconds pass. -/
def roundTrips : ℕ → List (Event × Env)
  | 0 => [(.sendTransaction (.plain .claimRewards "epoch 7") none, acceptedOnly 0),
      (.sender 0, acceptedOnly 0)]
  | k + 1 => roundTrips k ++ [(.observer 0, acceptedOnly (k + 1)), (.sender 0, acceptedOnly (k + 1))]

/-- The second broadcast after an out of gas has the gas of the first, and a transaction
that is never included is broadcast 101 times below its deadline. -/
theorem retries_stay_cheap :
    ¬ Throughout Node.step (fun n => n.manager.Escalates)
        [(.sendTransaction (.plain .claimRewards "epoch 7") none, outOfGas), (.sender 0, outOfGas)]
        (Node.start counted (60 * second) ⟨1, second, [], 0⟩) ∧
      (∀ e ∈ roundTrips 100, e.2.height = 10) ∧
      ((run Node.step (roundTrips 100)
        (Node.start counted (60 * second) ⟨1, second, [], 0⟩)).manager.broadcasts 1).length = 101 := by
  refine ⟨?_, ?_, ?_⟩
  · rintro ⟨-, -, hesc⟩
    have hgas := (hesc 1 [.plain .claimRewards "epoch 7"] List.mem_cons_self).2 1 _ rfl
    exact absurd hgas (by decide +kernel)
  · decide +kernel
  · decide +kernel

end TxManager
