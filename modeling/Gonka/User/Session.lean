/-
The pending transactions of a user session (`user/session.go`).

The user queues what the hosts propose, one transaction per key, and composes diffs
from the queue by best effort: a candidate that the machine refuses is left out.
The queue is then cleared; its keys are kept, so that what was applied is not queued
again from another host.

Main results: `pendingTxKeys_accounted`, `bad_receipt_blocks_good`.
-/
import Mathlib.Data.List.Sort
import Gonka.User.Recovery

namespace Devshard

open Wire List

/-- The dedup key of a host-proposed transaction, one constructor for each format. -/
inductive TxKey where
  | finish (id : ℕ)
  | confirm (id : ℕ)
  | validation (id slot : ℕ)
  | vote (id slot : ℕ)
  | revealSeed (slot : ℕ)
  deriving DecidableEq

/-- `devshardTxKey`: none for user-proposed kinds. -/
def devshardTxKey : DevshardTx → Option TxKey
  | .finishInference msg => some (.finish msg.inferenceId)
  | .confirmStart msg => some (.confirm msg.inferenceId)
  | .validation msg => some (.validation msg.inferenceId msg.validatorSlot)
  | .validationVote msg => some (.vote msg.inferenceId msg.voterSlot)
  | .revealSeed msg => some (.revealSeed msg.slotId)
  | _ => none

def txPriority : DevshardTx → ℕ
  | .confirmStart _ => 0
  | .finishInference _ => 1
  | .validation _ => 2
  | .validationVote _ => 3
  | _ => 4

/-- `sort.SliceStable` by priority. -/
def sortByPriority (txs : List DevshardTx) : List DevshardTx :=
  txs.insertionSort fun a b => txPriority a ≤ txPriority b

/-- A user session, as far as composing diffs goes. -/
structure UserSession where
  world : World
  nonce : ℕ := 0
  diffs : List Diff := []
  pendingTxs : List DevshardTx := []
  /-- The dedup set. -/
  pendingTxKeys : List TxKey := []
  hasStore : Bool

def UserSession.new (sm : StateMachine) (hasStore : Bool) : UserSession :=
  { world := { sm }, hasStore }

namespace UserSession

/-- `addPendingTx`: a transaction with a known key is refused. -/
def addPendingTx (s : UserSession) (tx : DevshardTx) : UserSession :=
  match devshardTxKey tx with
  | none => { s with pendingTxs := s.pendingTxs ++ [tx] }
  | some key =>
    if key ∈ s.pendingTxKeys then s
    else
      { s with
        pendingTxKeys := s.pendingTxKeys ++ [key]
        pendingTxs := s.pendingTxs ++ [tx] }

def maxPendingTxKeys : ℕ := 100000

/-- `clearPendingTxs`: the keys are kept, up to a cap. -/
def clearPendingTxs (s : UserSession) : UserSession :=
  { s with
    pendingTxs := []
    pendingTxKeys := if s.pendingTxKeys.length > maxPendingTxKeys then [] else s.pendingTxKeys }

/-- `signDiff`; `signature` is what the signer returns. -/
def signDiff (s : UserSession) (nonce : ℕ) (txs : List DevshardTx) (postStateRoot : Bytes)
    (signature : Option Bytes) : Option Diff :=
  match diffContent s.world.sm.escrowID nonce txs postStateRoot with
  | none => none
  | some _ => signature.map fun userSig => { nonce, txs, userSig, postStateRoot }

/-- `composeDiffLocked`; `stored` is whether `AppendDiff` succeeds.  Also on failure
the queue has been sorted. -/
def composeDiff (env : Env) (extraTxs : List DevshardTx) (signature : Option Bytes) (stored : Bool)
    (s : UserSession) : Option Diff × UserSession :=
  let nonce := s.nonce + 1
  let s := { s with pendingTxs := sortByPriority s.pendingTxs }
  let candidates := s.pendingTxs ++ extraTxs
  if s.hasStore then
    match previewLocalBestEffort env nonce candidates s.world with
    | .error _ w => (none, { s with world := w })
    | .ok vd w =>
      match s.signDiff nonce vd.applied vd.root signature with
      | none => (none, { s with world := w })
      | some diff =>
        if stored then
          match commitValidated env vd w with
          | (false, w) => (none, { s with world := w })
          | (true, w) =>
            (some diff, ({ s with world := w, diffs := s.diffs ++ [diff], nonce }).clearPendingTxs)
        else (none, { s with world := w })
  else
    match applyLocalBestEffort env nonce candidates s.world with
    | .error _ w => (none, { s with world := w })
    | .ok (root, applied) w =>
      match s.signDiff nonce applied root signature with
      | none => (none, { s with world := w })
      | some diff =>
        (some diff, ({ s with world := w, diffs := s.diffs ++ [diff], nonce }).clearPendingTxs)

end UserSession

structure HostResponse where
  nonce : ℕ
  stateHash : Bytes := []
  stateSig : Option Bytes := none
  receipt : Option Bytes := none
  confirmedAt : Int64 := 0
  mempool : List DevshardTx := []

/-- `CheckWarmKey`: the resolver is asked, and nothing is bound. -/
def checkWarmKey (env : Env) (warm cold : Address) (w : World) : Bool × World :=
  match env.warmResolver with
  | none => (false, w)
  | some resolver =>
    (resolver w.warmQueries warm cold, { w with warmQueries := w.warmQueries ++ [(warm, cold)] })

/-- `StateSignatureContent`, marshalled. -/
def sessionSignatureContent (stateRoot escrowID : Bytes) (nonce : ℕ) : Option Bytes := do
  let escrow ← fieldString 2 escrowID
  return fieldBytes 1 stateRoot ++ escrow ++ fieldVarint 3 nonce

def verifyStateSignature (env : Env) (nonce : ℕ) (postRoot signature : Bytes)
    (expectedAddr : Address) (w : World) : Bool × World :=
  match sessionSignatureContent postRoot w.sm.escrowID nonce with
  | none => (false, w)
  | some data =>
    match env.recoverAddress data signature with
    | none => (false, w)
    | some recovered =>
      if recovered ≠ expectedAddr then checkWarmKey env recovered expectedAddr w else (true, w)

/-- `postStateRootForNonce`: by position if the diffs are contiguous, else by search. -/
def postStateRootForNonce (diffs : List Diff) (nonce : ℕ) : Option Bytes :=
  match diffs with
  | [] => none
  | first :: _ =>
    let direct := if first.nonce ≤ nonce then
        (diffs[nonce - first.nonce]?).filter fun diff => diff.nonce == nonce
      else none
    (direct.or (diffs.find? fun diff => diff.nonce == nonce)).map Diff.postStateRoot

namespace UserSession

/-- The state hash that a response at `nonce` must carry. -/
def expectedStateHash (s : UserSession) (nonce : ℕ) : Option Bytes :=
  match postStateRootForNonce s.diffs nonce with
  | some root => some root
  | none => if nonce = s.nonce then computeStateRoot s.world.sm.toEscrowState else none

/-- The checks at the head of `processResponse`. -/
def checkResponse (env : Env) (hostIdx : ℕ) (resp : HostResponse) (s : UserSession) :
    Bool × World :=
  if resp.stateHash.length > 0 ∧ s.expectedStateHash resp.nonce ≠ some resp.stateHash then
    (false, s.world)
  else
    match resp.stateSig, s.world.sm.group[hostIdx]? with
    | none, _ => (true, s.world)
    | some _, none => (false, s.world)
    | some sig, some slot =>
      verifyStateSignature env resp.nonce resp.stateHash sig slot.validatorAddress s.world

def receiptTxs (resp : HostResponse) (inferenceNonce : ℕ) : List DevshardTx :=
  match resp.receipt with
  | none => []
  | some receipt => [.confirmStart ⟨inferenceNonce, receipt, resp.confirmedAt⟩]

/-- `processResponse`: a response that passes the checks has its receipt and its
mempool queued. -/
def processResponse (env : Env) (hostIdx : ℕ) (resp : HostResponse) (inferenceNonce : ℕ)
    (s : UserSession) : UserSession :=
  match s.checkResponse env hostIdx resp with
  | (false, w) => { s with world := w }
  | (true, w) =>
    (receiptTxs resp inferenceNonce ++ resp.mempool).foldl addPendingTx { s with world := w }

end UserSession

inductive UserOp where
  | processResponse (hostIdx : ℕ) (resp : HostResponse) (inferenceNonce : ℕ)
  /-- `AddPendingTimeoutTx`. -/
  | addTimeout (msg : MsgTimeoutInference)
  | composeDiff (extraTxs : List DevshardTx) (signature : Option Bytes) (stored : Bool)

namespace UserSession

def step (env : Env) (s : UserSession) : UserOp → UserSession
  | .processResponse hostIdx resp inferenceNonce => s.processResponse env hostIdx resp inferenceNonce
  | .addTimeout msg => s.addPendingTx (.timeoutInference msg)
  | .composeDiff extraTxs signature stored => (s.composeDiff env extraTxs signature stored).2

def run (env : Env) (ops : List UserOp) (s : UserSession) : UserSession :=
  ops.foldl (fun s op => s.step env op) s

end UserSession

def Carries (txs : List DevshardTx) (key : TxKey) : Prop := ∃ tx ∈ txs, devshardTxKey tx = some key

instance (txs : List DevshardTx) (key : TxKey) : Decidable (Carries txs key) :=
  inferInstanceAs (Decidable (∃ tx ∈ txs, devshardTxKey tx = some key))

namespace UserSession

/-- A diff of the session has a transaction with the key. -/
def Composed (s : UserSession) (key : TxKey) : Prop := ∃ diff ∈ s.diffs, Carries diff.txs key

instance (s : UserSession) (key : TxKey) : Decidable (s.Composed key) :=
  inferInstanceAs (Decidable (∃ diff ∈ s.diffs, Carries diff.txs key))

/-- Every key that shuts out further transactions is that of a transaction which is
queued or was included in a diff. -/
def Accounted (s : UserSession) : Prop :=
  ∀ key ∈ s.pendingTxKeys, Carries s.pendingTxs key ∨ s.Composed key

instance (s : UserSession) : Decidable s.Accounted :=
  inferInstanceAs (Decidable (∀ key ∈ s.pendingTxKeys, Carries s.pendingTxs key ∨ s.Composed key))

/-- The world that the best-effort pass of `composeDiff` begins in. -/
def passWorld (s : UserSession) : World := if s.hasStore then s.world.buffering else s.world

end UserSession

/-- Whether the machine takes the transaction. -/
def takesTx (env : Env) (tx : DevshardTx) (w : World) : Bool :=
  match applyTx env tx w with
  | .ok _ _ => true
  | .error _ _ => false

namespace UserSession

/-- A diff is composed only from a queue that the machine takes: each transaction with a
key, in the state it meets, unless the key is in a diff already.  It does not matter
when no diff comes of it, or when the keys are dropped with the queue. -/
def KeepsQueued (env : Env) (s : UserSession) : UserOp → Prop
  | .composeDiff _ signature stored =>
    signature.isSome → (s.hasStore = true → stored = true) →
      s.pendingTxKeys.length ≤ maxPendingTxKeys →
      Along.EachStep (fun tx w => (applyTx env tx w).world)
        (fun w tx => ∀ key ∈ devshardTxKey tx, s.Composed key ∨ takesTx env tx w = true)
        (sortByPriority s.pendingTxs) s.passWorld
  | _ => True

instance (env : Env) (s : UserSession) (op : UserOp) : Decidable (s.KeepsQueued env op) := by
  unfold KeepsQueued
  split <;> infer_instance

end UserSession

theorem carries_append {txs txs' : List DevshardTx} {key : TxKey} :
    Carries (txs ++ txs') key ↔ Carries txs key ∨ Carries txs' key := by
  simp only [Carries, mem_append, or_and_right, exists_or]

theorem carries_sortByPriority {txs : List DevshardTx} {key : TxKey} :
    Carries (sortByPriority txs) key ↔ Carries txs key := by
  simp only [Carries, sortByPriority, mem_insertionSort]

namespace UserSession

variable {env : Env} {s : UserSession}

theorem addPendingTx_accounted (h : s.Accounted) (tx : DevshardTx) :
    (s.addPendingTx tx).Accounted := by
  unfold addPendingTx
  split
  · intro key hkey
    rcases h key hkey with hqueued | hcomposed
    · exact .inl (carries_append.mpr (.inl hqueued))
    · exact .inr hcomposed
  next htx =>
  split
  · exact h
  intro key' hkey'
  rcases mem_append.mp hkey' with hold | hnew
  · rcases h key' hold with hqueued | hcomposed
    · exact .inl (carries_append.mpr (.inl hqueued))
    · exact .inr hcomposed
  · rw [mem_singleton.mp hnew]
    exact .inl (carries_append.mpr (.inr ⟨tx, mem_singleton_self tx, htx⟩))

theorem addPendingTxs_accounted (h : s.Accounted) (txs : List DevshardTx) :
    (txs.foldl addPendingTx s).Accounted := by
  induction txs generalizing s with
  | nil => exact h
  | cons tx _ ih => exact ih (addPendingTx_accounted h tx)

theorem processResponse_accounted (h : s.Accounted) (hostIdx : ℕ) (resp : HostResponse)
    (inferenceNonce : ℕ) : (s.processResponse env hostIdx resp inferenceNonce).Accounted := by
  unfold processResponse
  split
  · exact h
  · next w _ =>
    have hsame : ({ s with world := w } : UserSession).Accounted := h
    exact addPendingTxs_accounted hsame _

theorem signDiff_txs {nonce : ℕ} {txs : List DevshardTx} {root : Bytes} {signature : Option Bytes}
    {diff : Diff} (h : s.signDiff nonce txs root signature = some diff) :
    signature.isSome ∧ diff.txs = txs := by
  unfold signDiff at h
  split at h
  · cases h
  · obtain ⟨_, rfl, rfl⟩ := Option.map_eq_some_iff.mp h
    exact ⟨rfl, rfl⟩

/-- A composition fails, or its diff has the transactions that the pass applied. -/
theorem composeDiff_spec (extraTxs : List DevshardTx) (signature : Option Bytes) (stored : Bool) :
    (∃ w, s.composeDiff env extraTxs signature stored
        = (none, { s with world := w, pendingTxs := sortByPriority s.pendingTxs })) ∨
    ∃ diff w nonce, s.composeDiff env extraTxs signature stored
        = (some diff, ({ s with world := w, diffs := s.diffs ++ [diff], nonce } :
            UserSession).clearPendingTxs) ∧
      signature.isSome ∧ (s.hasStore = true → stored = true) ∧
      ∃ root w', localBestEffort env nonce (sortByPriority s.pendingTxs ++ extraTxs) s.passWorld
        = .ok (root, diff.txs) w' := by
  unfold composeDiff passWorld
  dsimp only
  split
  · split
    · next w _ => exact .inl ⟨w, rfl⟩
    next w hpreview =>
    split
    · exact .inl ⟨w, rfl⟩
    next diff hdiff =>
    split
    · next hstored =>
      split
      · next w' _ => exact .inl ⟨w', rfl⟩
      · next w' _ =>
        obtain ⟨hsig, htxs⟩ := signDiff_txs hdiff
        obtain ⟨⟨root, _⟩, w₂, hrun, rfl⟩ := trialApply_ok hpreview
        exact .inr ⟨diff, w', s.nonce + 1, rfl, hsig, fun _ => hstored, root, w₂, htxs ▸ hrun⟩
    · exact .inl ⟨w, rfl⟩
  · next hstore =>
    split
    · next w _ => exact .inl ⟨w, rfl⟩
    next root _ w hrun =>
    split
    · exact .inl ⟨w, rfl⟩
    · next diff hdiff =>
      obtain ⟨hsig, htxs⟩ := signDiff_txs hdiff
      exact .inr ⟨diff, w, s.nonce + 1, rfl, hsig, fun h => absurd h hstore, root, w, htxs ▸ hrun⟩

/-- What the machine takes of the first candidates is among the applied ones. -/
theorem applyTxsBestEffort_takes {K : TxKey → Prop} {snap : MutableSnapshot}
    {txs extraTxs applied : List DevshardTx} {w w' : World}
    (h : Along.EachStep (fun tx w => (applyTx env tx w).world)
      (fun w tx => ∀ key ∈ devshardTxKey tx, K key ∨ takesTx env tx w = true) txs w)
    (hrun : applyTxsBestEffort env snap (txs ++ extraTxs) w = .ok applied w') {key : TxKey}
    (hkey : Carries txs key) : K key ∨ Carries applied key := by
  induction txs generalizing w applied with
  | nil =>
    obtain ⟨_, hnone, -⟩ := hkey
    cases hnone
  | cons tx txs ih =>
    obtain ⟨hthis, hlater⟩ := h
    obtain ⟨tx', hmem, htx'⟩ := hkey
    dsimp only at hlater
    rw [cons_append, applyTxsBestEffort] at hrun
    cases htx : applyTx env tx w with
    | error e w₁ =>
      rw [htx] at hrun hlater
      dsimp only at hrun
      split at hrun
      · cases hrun
      rcases mem_cons.mp hmem with rfl | hmem
      · refine .inl ((hthis key htx').resolve_right ?_)
        rw [takesTx, htx]
        exact Bool.false_ne_true
      · exact ih hlater hrun ⟨tx', hmem, htx'⟩
    | ok u w₁ =>
      rw [htx] at hrun hlater
      dsimp only at hrun
      split at hrun
      · cases hrun
      next hrest =>
      cases hrun
      rcases mem_cons.mp hmem with rfl | hmem
      · exact .inr ⟨tx', mem_cons_self, htx'⟩
      · refine (ih hlater hrest ⟨tx', hmem, htx'⟩).imp_right ?_
        rintro ⟨tx'', hmem', htx''⟩
        exact ⟨tx'', mem_cons_of_mem tx hmem', htx''⟩

/-- **One operation.** -/
theorem step_accounted (h : s.Accounted) {op : UserOp} (hkeeps : s.KeepsQueued env op) :
    (s.step env op).Accounted := by
  cases op with
  | processResponse hostIdx resp inferenceNonce =>
    exact processResponse_accounted h hostIdx resp inferenceNonce
  | addTimeout => exact addPendingTx_accounted h _
  | composeDiff extraTxs signature stored =>
    unfold step
    dsimp only
    rcases composeDiff_spec extraTxs signature stored with
      ⟨_, heq⟩ | ⟨diff, _, _, heq, hsig, hstored, _, _, hrun⟩
    · -- nothing is composed
      rw [heq]
      exact fun key hkey => (h key hkey).imp_left carries_sortByPriority.mpr
    · rw [heq]
      intro key hkey
      replace hkey : key ∈ (if s.pendingTxKeys.length > maxPendingTxKeys then []
          else s.pendingTxKeys) := hkey
      split at hkey
      · cases hkey
      next hcap =>
      refine .inr ?_
      obtain ⟨-, _, htxs, -⟩ := localBestEffort_ok hrun
      have hcarried : s.Composed key ∨ Carries diff.txs key := by
        rcases h key hkey with hqueued | hcomposed
        · exact applyTxsBestEffort_takes (hkeeps hsig hstored (Nat.not_lt.mp hcap)) htxs
            (carries_sortByPriority.mpr hqueued)
        · exact .inl hcomposed
      rcases hcarried with ⟨d, hd, hcarries⟩ | hcarries
      · exact ⟨d, mem_append_left _ hd, hcarries⟩
      · exact ⟨diff, mem_append_right _ (mem_singleton_self diff), hcarries⟩

/-- A transaction is refused when its key is in the dedup set. -/
theorem addPendingTx_eq_self_iff {tx : DevshardTx} {key : TxKey} (hkey : devshardTxKey tx = some key) :
    s.addPendingTx tx = s ↔ key ∈ s.pendingTxKeys := by
  unfold addPendingTx
  rw [hkey]
  dsimp only
  constructor
  · intro h
    by_contra hnew
    rw [if_neg hnew] at h
    have hkeys := congrArg (fun s => s.pendingTxKeys.length) h
    simp at hkeys
  · exact fun hmem => if_pos hmem

end UserSession

/-- **No pending transaction is censored.**  In a run of responses and compositions in
which the machine takes what is queued, every key of the dedup set stays accounted for,
by a queued transaction or by a composed diff, and a transaction is only refused in
favour of one that is queued or was included. -/
theorem pendingTxKeys_accounted (env : Env) (sm : StateMachine) (hasStore : Bool)
    (ops : List UserOp)
    (hkeeps : Along.EachStep (fun op s => UserSession.step env s op)
      (fun s op => s.KeepsQueued env op) ops (UserSession.new sm hasStore)) :
    Along.Throughout (fun op s => UserSession.step env s op) UserSession.Accounted ops
        (UserSession.new sm hasStore) ∧
      let s := (UserSession.new sm hasStore).run env ops
      ∀ tx key, devshardTxKey tx = some key → s.addPendingTx tx = s →
        Carries s.pendingTxs key ∨ s.Composed key := by
  have hnew : (UserSession.new sm hasStore).Accounted := nofun
  refine ⟨Along.throughout_of_eachStep (I := fun _ => True) (fun _ _ _ => trivial)
    (fun _ _ _ h hk => UserSession.step_accounted h hk) trivial hnew hkeeps, ?_⟩
  intro s tx key hkey hrefused
  have hs := Along.run_of_eachStep (P := UserSession.Accounted)
    (fun _ _ h hk => UserSession.step_accounted h hk) hnew hkeeps
  exact hs key ((UserSession.addPendingTx_eq_self_iff hkey).mp hrefused)

/-- Inference 1 is started; host 0 answers with the receipt `receipt`; the next diff
is composed. -/
def receiptOps (receipt : Bytes) : List UserOp :=
  [.composeDiff [sampleStart 1] (some [9]) true,
    .processResponse 0 { nonce := 1, receipt := some receipt, confirmedAt := 6 } 1,
    .composeDiff [] (some [9]) true]

def goodReceipt : DevshardTx := .confirmStart ⟨1, [1], 6⟩

/-- The receipt is the executor's: its key refuses it a second time, because it is in
the second diff. -/
theorem pendingTxKeys_accounted_good :
    let s := (UserSession.new soloMachine true).run (recoveryEnv fun _ _ => true) (receiptOps [1])
    s.addPendingTx goodReceipt = s ∧
      (Carries s.pendingTxs (.confirm 1) ∨ s.Composed (.confirm 1)) := by
  intro s
  have hkeys : TxKey.confirm 1 ∈ s.pendingTxKeys := by decide +kernel
  have hrefused : s.addPendingTx goodReceipt = s :=
    (UserSession.addPendingTx_eq_self_iff rfl).mpr hkeys
  exact ⟨hrefused, (pendingTxKeys_accounted (recoveryEnv fun _ _ => true) soloMachine true
    (receiptOps [1]) (by decide +kernel)).2 goodReceipt (.confirm 1) rfl hrefused⟩

/-- The session after a receipt that is not signed by the executor. -/
def forgedSession : UserSession :=
  (UserSession.new soloMachine true).run (recoveryEnv fun _ _ => true) (receiptOps [3])

def UserSession.censors (s : UserSession) : Bool :=
  decide (¬ s.Accounted) && decide ((s.addPendingTx goodReceipt).pendingTxs = []) &&
    match applyTx (recoveryEnv fun _ _ => true) goodReceipt s.world with
    | .ok _ _ => true
    | .error _ _ => false

/-- A forged receipt is queued and left out of the next diff; its key then refuses the
good receipt, which the machine would take. -/
theorem bad_receipt_blocks_good :
    ¬ forgedSession.Accounted ∧ (forgedSession.addPendingTx goodReceipt).pendingTxs = [] ∧
      ∃ w, applyTx (recoveryEnv fun _ _ => true) goodReceipt forgedSession.world = .ok () w := by
  have hcensors : forgedSession.censors = true := by decide +kernel
  unfold UserSession.censors at hcensors
  rw [Bool.and_eq_true, Bool.and_eq_true, decide_eq_true_iff, decide_eq_true_iff] at hcensors
  obtain ⟨⟨hnot, hqueue⟩, haccepted⟩ := hcensors
  refine ⟨hnot, hqueue, ?_⟩
  split at haccepted
  · next w hrun => exact ⟨w, hrun⟩
  · cases haccepted

end Devshard
