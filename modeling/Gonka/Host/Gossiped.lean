/-
What gossiped transactions do to the decisions of a host (`HandleGossipTxs`).

A peer's transactions enter the mempool as they are: no signature is checked, and
they leave it only when a diff includes them.  Two runs of a host are compared that
get the same requests, the second one with extra gossip.

Main results: `same_decisions_iff`, `forged_finish_blocks_timeout`.
-/
import Gonka.Host.Mempool

namespace Devshard

open OrdMap List DevshardTx

/-! ### A live host -/

inductive Decision where
  | timeoutRefused (id : ℕ) (verdict : Except VerifyErr Bool)
  | timeoutExecution (id : ℕ) (verdict : Except VerifyErr Bool)
  | validationJobs (jobs : List ValidateJob)
  | challenge (id : ℕ) (starts : Bool)
  deriving DecidableEq

structure LiveHost where
  world : World
  mempool : Mempool := ∅
  executing : Finset ℕ := ∅
  completedResponses : OrdMap ℕ Bytes := ∅
  validating : Finset ℕ := ∅
  /-- Picked and not yet offered to the queue. -/
  collected : List ValidateJob := []
  queue : List ValidateJob := []
  /-- Jobs that a worker has taken. -/
  running : List ValidateJob := []
  /-- Between `Start` and `Close`. -/
  queueOpen : Bool := false
  validationClosed : Bool := false
  /-- Ghost: what the host has decided so far. -/
  decisions : List Decision := []

structure HostRequest where
  diffs : List Diff
  nonce : ℕ
  payload : Option InferencePayload

structure ExecuteResult where
  responseHash : Bytes
  inputTokens : UInt64
  outputTokens : UInt64
  responseBody : Bytes

/-- One lock section of a host, with what it reads outside. -/
inductive HostOp where
  | start
  | close
  /-- A diff of a request, a catch-up or a challenge. -/
  | apply (out : Outside) (op : HostApply)
  | signReceipt (req : HostRequest) (now : Int64)
  | collectValidationJobs (enabled : Bool) (order : List ℕ)
  | enqueueValidation
  /-- A worker takes the next job. -/
  | takeJob
  /-- `validateAsync` of the `i`-th running job ends. -/
  | validateAsync (i : ℕ) (valid : Option Bool) (allowed : Bool)
  /-- `submitValidationToMempool`. -/
  | submitValidation (id : ℕ) (valid : Bool)
  /-- `RunExecution` ends; it began at `diffNonce`. -/
  | runExecution (id diffNonce : ℕ) (result : Option ExecuteResult)
  | challengeReceipt (id : ℕ) (payload : Option InferencePayload) (now : Int64)
  | verifyRefused (id : ℕ) (payload : Option InferencePayload) (answer : ChallengeAnswer)
      (now : Int64)
  | verifyExecution (id : ℕ) (answer : MempoolAnswer) (now : Int64)
  /-- `HandleGossipTxs`; `bridge` is the answer on an unknown sender. -/
  | gossipTxs (sender : Address) (bridge : Bool) (txs : List DevshardTx)

namespace LiveHost

variable (s : HostSetup) (recoverAddress : Bytes → Bytes → Option Address)

/-- Whether `applyAndPersist` or `applyDurableRecordLocked` gets as far as
`RemoveIncluded`. -/
def takes (out : Outside) (op : HostApply) (w : World) : Bool :=
  match op with
  | .persist diff stored =>
    if diff.nonce ≤ w.sm.latestNonce then false
    else
      match validateForPersist recoverAddress out diff w with
      | (.error _, _) => false
      | (.ok (vd, _), w') => stored && (commitValidated (out.env recoverAddress) vd w').1
  | .direct diff =>
    if diff.nonce ≤ w.sm.latestNonce then false
    else
      match checkDiffNonceLimit out.maxNonce diff w.sm with
      | .error _ => false
      | .ok _ =>
        match applyDiff (out.env recoverAddress) diff w with
        | .error _ _ => false
        | .ok _ _ => true
  | .durable rec =>
    if rec.diff.nonce ≤ w.sm.latestNonce then false
    else
      match (applyDurableRecord recoverAddress out rec w).1 with
      | .error _ => false
      | .ok _ => true

/-- A finished or timed-out inference needs no cached response. -/
def evictResponses (txs : List DevshardTx) (responses : OrdMap ℕ Bytes) : OrdMap ℕ Bytes :=
  txs.foldl (fun responses tx =>
    match tx with
    | .finishInference msg => responses.erase msg.inferenceId
    | .timeoutInference msg => responses.erase msg.inferenceId
    | _ => responses) responses

def apply (out : Outside) (op : HostApply) (h : LiveHost) : LiveHost :=
  let world := hostApply recoverAddress out op h.world
  if takes recoverAddress out op h.world then
    { h with
      world
      mempool := h.mempool.removeIncluded op.diff.txs
      completedResponses := evictResponses op.diff.txs h.completedResponses }
  else { h with world }

def receipt (req : HostRequest) (now : Int64) (h : LiveHost) : Option Bytes :=
  match req.payload with
  | none => none
  | some p =>
    if req.diffs.all fun diff => diff.nonce ≠ req.nonce then none
    else if s.slotIDs.contains (executorSlotFor h.world.sm.group req.nonce) = false then none
    else
      match h.world.sm.inferences.get? req.nonce with
      | none => none
      | some r =>
        match verifyPayload s p r with
        | .error _ => none
        | .ok _ =>
          if r.status ≠ .pending ∧ req.nonce ∉ h.executing ∧
              h.completedResponses.get? req.nonce = none then none
          else (executorReceiptContent h.world.sm.escrowID req.nonce r now).bind s.sign

/-- The receipt goes into the mempool; the execution starts unless it runs or has
run. -/
def signReceipt (req : HostRequest) (now : Int64) (h : LiveHost) : LiveHost :=
  match h.receipt s req now with
  | none => h
  | some sig =>
    { h with
      mempool := h.mempool.add ⟨.confirmStart ⟨req.nonce, sig, now⟩, h.world.sm.latestNonce⟩
      executing :=
        if req.nonce ∈ h.executing ∨ (h.completedResponses.get? req.nonce).isSome then h.executing
        else insert req.nonce h.executing }

def collectValidationJobs (enabled : Bool) (order : List ℕ) (h : LiveHost) : LiveHost :=
  if s.hasValidator = false ∨ h.queueOpen = false ∨ enabled = false ∨
      s.queueSize - h.queue.length = 0 then
    { h with decisions := h.decisions ++ [.validationJobs []] }
  else
    let (jobs, validating) :=
      collectLoop s h.world.sm h.mempool order (s.queueSize - h.queue.length) h.validating
    { h with
      validating
      collected := h.collected ++ jobs
      decisions := h.decisions ++ [.validationJobs jobs] }

def enqueueValidation (h : LiveHost) : LiveHost :=
  match h.collected with
  | [] => h
  | job :: rest =>
    if h.queueOpen = false ∨ s.queueSize ≤ h.queue.length then
      { h with collected := rest, validating := h.validating.erase job.inferenceID }
    else { h with collected := rest, queue := h.queue ++ [job] }

def takeJob (h : LiveHost) : LiveHost :=
  match h.queue with
  | [] => h
  | job :: rest => { h with queue := rest, running := h.running ++ [job] }

/-- The transaction that `validateAsync` proposes, by the status of the inference at
that time. -/
def validationTx (job : ValidateJob) (valid : Bool) (sm : StateMachine) : Option DevshardTx := do
  let r ← sm.inferences.get? job.inferenceID
  match r.status with
  | .finished =>
    let msg : MsgValidation := ⟨job.inferenceID, job.validatorSlot, valid, [], sm.escrowID⟩
    let sig ← msg.marshal.bind s.sign
    return .validation { msg with proposerSig := sig }
  | .challenged =>
    let msg : MsgValidationVote := ⟨job.inferenceID, job.validatorSlot, valid, [], sm.escrowID⟩
    let sig ← msg.marshal.bind s.sign
    return .validationVote { msg with proposerSig := sig }
  | _ => none

def validateAsync (i : ℕ) (valid : Option Bool) (allowed : Bool) (h : LiveHost) : LiveHost :=
  match h.running[i]? with
  | none => h
  | some job =>
    let done := { h with
      running := h.running.eraseIdx i
      validating := h.validating.erase job.inferenceID }
    match valid.bind fun valid => validationTx s job valid h.world.sm with
    | none => done
    | some tx =>
      if allowed then
        { done with mempool := h.mempool.add ⟨tx, h.world.sm.latestNonce⟩ }
      else done

def submitValidation (id : ℕ) (valid : Bool) (h : LiveHost) : LiveHost :=
  let msg : MsgValidation := ⟨id, s.slotIDs.headD 0, valid, [], h.world.sm.escrowID⟩
  match msg.marshal.bind s.sign with
  | none => h
  | some sig =>
    { h with
      mempool := h.mempool.add ⟨.validation { msg with proposerSig := sig }, h.world.sm.latestNonce⟩ }

def runExecution (id diffNonce : ℕ) (result : Option ExecuteResult) (h : LiveHost) : LiveHost :=
  if id ∈ h.executing then
    let released := { h with executing := h.executing.erase id }
    match result with
    | none => released
    | some result =>
      let msg : MsgFinishInference :=
        { inferenceId := id
          responseHash := result.responseHash
          inputTokens := result.inputTokens
          outputTokens := result.outputTokens
          executorSlot := executorSlotFor h.world.sm.group id
          proposerSig := []
          escrowId := h.world.sm.escrowID }
      match msg.marshal.bind s.sign with
      | none => released
      | some sig =>
        { released with
          mempool := h.mempool.add ⟨.finishInference { msg with proposerSig := sig }, diffNonce⟩
          completedResponses :=
            if result.responseBody.length > 0 then h.completedResponses.insert id result.responseBody
            else h.completedResponses }
  else h

/-- The lock section of `challengeReceiptLocked` behind the diffs. -/
def challenge (id : ℕ) (payload : Option InferencePayload) (now : Int64) (h : LiveHost) :
    LiveHost :=
  let starts := challengeStarts s h.world.sm h.executing h.mempool id payload now
  { h with
    executing := if starts then insert id h.executing else h.executing
    decisions := h.decisions ++ [.challenge id starts] }

/-- `isGroupMember`: a validator of the group, a bound warm key, or a key the bridge
knows. -/
def isGroupMember (sender : Address) (bridge : Bool) (sm : StateMachine) : Bool :=
  sm.group.any (fun slot => slot.validatorAddress = sender) ||
    sm.warmKeys.entries.any (fun e => e.2 = sender) || bridge

def gossipTxs (sender : Address) (bridge : Bool) (txs : List DevshardTx) (h : LiveHost) :
    LiveHost :=
  if isGroupMember sender bridge h.world.sm then
    { h with mempool := txs.foldl Mempool.addTx h.mempool }
  else h

def step (op : HostOp) (h : LiveHost) : LiveHost :=
  match op with
  | .start => { h with queueOpen := s.hasValidator && !h.validationClosed }
  | .close => { h with queueOpen := false, validationClosed := true }
  | .apply out op => h.apply recoverAddress out op
  | .signReceipt req now => h.signReceipt s req now
  | .collectValidationJobs enabled order => h.collectValidationJobs s enabled order
  | .enqueueValidation => h.enqueueValidation s
  | .takeJob => h.takeJob
  | .validateAsync i valid allowed => h.validateAsync s i valid allowed
  | .submitValidation id valid => h.submitValidation s id valid
  | .runExecution id diffNonce result => h.runExecution s id diffNonce result
  | .challengeReceipt id payload now => h.challenge s id payload now
  | .verifyRefused id payload answer now =>
    let verdict := verifyRefusedTimeout s h.world.sm id payload h.mempool answer now
    { h with decisions := h.decisions ++ [.timeoutRefused id verdict] }
  | .verifyExecution id answer now =>
    let verdict := verifyExecutionTimeout s h.world.sm id h.mempool answer now
    { h with decisions := h.decisions ++ [.timeoutExecution id verdict] }
  | .gossipTxs sender bridge txs => h.gossipTxs sender bridge txs

end LiveHost

inductive MempoolEdit where
  | keep
  | add (entry : MempoolEntry)
  | addTxs (txs : List DevshardTx)
  | removeIncluded (txs : List DevshardTx)

def MempoolEdit.edit : MempoolEdit → Mempool → Mempool
  | .keep, m => m
  | .add entry, m => m.add entry
  | .addTxs txs, m => txs.foldl Mempool.addTx m
  | .removeIncluded txs, m => m.removeIncluded txs

def HostOp.decides : HostOp → Bool
  | .collectValidationJobs .. => true
  | .challengeReceipt .. => true
  | .verifyRefused .. => true
  | .verifyExecution .. => true
  | _ => false

section
variable (s : HostSetup) (recoverAddress : Bytes → Bytes → Option Address)

open LiveHost

/-- A step that does not decide edits the mempool and does not read it. -/
theorem LiveHost.step_edit (op : HostOp) (hop : op.decides = false) (h : LiveHost) :
    ∃ e : MempoolEdit, ∀ m : Mempool, LiveHost.step s recoverAddress op { h with mempool := m }
      = { step s recoverAddress op h with mempool := e.edit m } := by
  cases op with
  | start | close => exact ⟨.keep, fun _ => rfl⟩
  | apply out op =>
    unfold step apply
    dsimp only
    by_cases htakes : takes recoverAddress out op h.world = true
    · rw [if_pos htakes]
      exact ⟨.removeIncluded op.diff.txs, fun m => by rw [if_pos htakes]; rfl⟩
    · rw [if_neg htakes]
      exact ⟨.keep, fun m => by rw [if_neg htakes]; rfl⟩
  | signReceipt req now =>
    have hreceipt : ∀ m, receipt s req now { h with mempool := m }
        = h.receipt s req now := fun _ => rfl
    unfold step signReceipt
    simp only [hreceipt]
    cases h.receipt s req now with
    | none => exact ⟨.keep, fun _ => rfl⟩
    | some => exact ⟨.add _, fun _ => rfl⟩
  | enqueueValidation =>
    refine ⟨.keep, fun m => ?_⟩
    unfold step enqueueValidation
    dsimp only
    split
    · rfl
    · split <;> rfl
  | takeJob =>
    refine ⟨.keep, fun m => ?_⟩
    unfold step takeJob
    dsimp only
    split <;> rfl
  | validateAsync i valid allowed =>
    unfold step validateAsync
    dsimp only
    cases h.running[i]? with
    | none => exact ⟨.keep, fun _ => rfl⟩
    | some job =>
      dsimp only
      cases valid.bind fun valid => validationTx s job valid h.world.sm with
      | none => exact ⟨.keep, fun _ => rfl⟩
      | some =>
        cases allowed with
        | false => exact ⟨.keep, fun _ => rfl⟩
        | true => exact ⟨.add _, fun _ => rfl⟩
  | submitValidation =>
    unfold step submitValidation
    dsimp only
    generalize Option.bind _ s.sign = sig
    cases sig with
    | none => exact ⟨.keep, fun _ => rfl⟩
    | some => exact ⟨.add _, fun _ => rfl⟩
  | runExecution id _ result =>
    unfold step runExecution
    dsimp only
    by_cases hrunning : id ∈ h.executing
    · rw [if_pos hrunning]
      cases result with
      | none => exact ⟨.keep, fun m => by rw [if_pos hrunning]; rfl⟩
      | some =>
        dsimp only
        generalize Option.bind _ s.sign = sig
        cases sig with
        | none => exact ⟨.keep, fun m => by rw [if_pos hrunning]; rfl⟩
        | some => exact ⟨.add _, fun m => by rw [if_pos hrunning]; rfl⟩
    · rw [if_neg hrunning]
      exact ⟨.keep, fun m => by rw [if_neg hrunning]; rfl⟩
  | gossipTxs sender bridge txs =>
    unfold step gossipTxs
    dsimp only
    by_cases hmember : isGroupMember sender bridge h.world.sm = true
    · rw [if_pos hmember]
      exact ⟨.addTxs txs, fun m => by rw [if_pos hmember]; rfl⟩
    · rw [if_neg hmember]
      exact ⟨.keep, fun m => by rw [if_neg hmember]; rfl⟩
  | collectValidationJobs | challengeReceipt | verifyRefused | verifyExecution => cases hop

end

/-! ### Two runs -/

/-- A run, and one that gets extra gossip; `extras` is what it got. -/
structure Pair where
  plain : LiveHost
  gossiped : LiveHost
  extras : List DevshardTx := []

inductive PairOp where
  /-- Both runs do it. -/
  | both (op : HostOp)
  /-- The second run gets transactions by gossip. -/
  | extra (sender : Address) (bridge : Bool) (txs : List DevshardTx)

def Pair.step (s : HostSetup) (recoverAddress : Bytes → Bytes → Option Address) (op : PairOp)
    (p : Pair) : Pair :=
  match op with
  | .both op =>
    { p with
      plain := p.plain.step s recoverAddress op
      gossiped := p.gossiped.step s recoverAddress op }
  | .extra sender bridge txs =>
    { p with
      gossiped := p.gossiped.gossipTxs sender bridge txs
      extras := p.extras ++ txs }

/-- The two mempools agree but for extra transactions in the second. -/
def Linked (extras : List DevshardTx) (m m' : Mempool) : Prop :=
  ∀ k, m'.get? k = m.get? k ∨ ∃ entry, m'.get? k = some entry ∧ entry.tx ∈ extras

/-- The two runs differ in the mempool only, and there by extra gossip. -/
structure Twins (p : Pair) : Prop where
  same : p.gossiped = { p.plain with mempool := p.gossiped.mempool }
  linked : Linked p.extras p.plain.mempool p.gossiped.mempool

section
variable {extras : List DevshardTx} {m m' : Mempool}

theorem Mempool.mem_txs {tx : DevshardTx} :
    tx ∈ m.txs ↔ ∃ k entry, m.get? k = some entry ∧ entry.tx = tx := by
  unfold Mempool.txs
  rw [mem_map]
  constructor
  · rintro ⟨⟨k, entry⟩, hmem, rfl⟩
    exact ⟨k, entry, get?_eq_some_iff.mpr hmem, rfl⟩
  · rintro ⟨k, entry, hget, rfl⟩
    exact ⟨(k, entry), get?_eq_some_iff.mp hget, rfl⟩

variable (h : Linked extras m m')
include h

theorem Linked.add (entry : MempoolEntry) : Linked extras (m.add entry) (m'.add entry) := by
  intro k
  unfold Mempool.add
  rw [get?_insert, get?_insert]
  split
  · exact .inl rfl
  · exact h k

theorem Linked.foldl_addTx (txs : List DevshardTx) :
    Linked extras (txs.foldl Mempool.addTx m) (txs.foldl Mempool.addTx m') := by
  induction txs generalizing m m' with
  | nil => exact h
  | cons tx _ ih => exact ih (h.add ⟨tx, 0⟩)

theorem Linked.removeIncluded (txs : List DevshardTx) :
    Linked extras (m.removeIncluded txs) (m'.removeIncluded txs) := by
  induction txs generalizing m m' with
  | nil => exact h
  | cons _ _ ih =>
    refine ih fun k => ?_
    rw [get?_erase, get?_erase]
    split
    · exact .inl rfl
    · exact h k

theorem Linked.edit (e : MempoolEdit) : Linked extras (e.edit m) (e.edit m') := by
  cases e with
  | keep => exact h
  | add entry => exact h.add entry
  | addTxs txs => exact h.foldl_addTx txs
  | removeIncluded txs => exact h.removeIncluded txs

theorem Linked.mono {more : List DevshardTx} : Linked (extras ++ more) m m' := by
  intro k
  rcases h k with heq | ⟨entry, hentry, hextra⟩
  · exact .inl heq
  · exact .inr ⟨entry, hentry, mem_append_left _ hextra⟩

theorem Linked.extra {txs : List DevshardTx} (htxs : txs ⊆ extras) :
    Linked extras m (txs.foldl Mempool.addTx m') := by
  induction txs generalizing m' with
  | nil => exact h
  | cons _ _ ih =>
    refine ih (fun k => ?_) fun x hx => htxs (mem_cons_of_mem _ hx)
    show (m'.insert _ _).get? k = _ ∨ ∃ entry, (m'.insert _ _).get? k = some entry ∧ _
    rw [get?_insert]
    split
    · exact .inr ⟨_, rfl, htxs mem_cons_self⟩
    · exact h k

end

/-- The scan finds an extra transaction and, without the extra gossip, none; or it
finds none because an extra transaction has taken the place, under the same hash, of
the one it would have found. -/
def Tips (p : Pair) (matters : DevshardTx → Bool) : Prop :=
  (p.plain.mempool.any matters = false ∧
    ∃ tx ∈ p.extras, tx ∈ p.gossiped.mempool.txs ∧ matters tx = true) ∨
  (p.plain.mempool.any matters = true ∧ p.gossiped.mempool.any matters = false)

theorem tips_iff {p : Pair} (h : Twins p) (matters : DevshardTx → Bool) :
    Tips p matters ↔ p.plain.mempool.any matters ≠ p.gossiped.mempool.any matters := by
  unfold Tips
  cases hplain : p.plain.mempool.any matters with
  | true =>
    cases hgossiped : p.gossiped.mempool.any matters with
    | true => simp
    | false => simp
  | false =>
    constructor
    · rintro (⟨-, tx, -, hmem, hmatters⟩ | ⟨habs, -⟩)
      · have hany : p.gossiped.mempool.any matters = true := any_eq_true.mpr ⟨tx, hmem, hmatters⟩
        rw [hany]
        exact Bool.false_ne_true
      · cases habs
    · intro hne
      have hany : p.gossiped.mempool.any matters = true := by
        rw [← Bool.not_eq_false]
        exact Ne.symm hne
      obtain ⟨_, hmem, hmatters⟩ := any_eq_true.mp hany
      obtain ⟨k, entry, hget, rfl⟩ := Mempool.mem_txs.mp hmem
      refine .inl ⟨rfl, entry.tx, ?_, hmem, hmatters⟩
      rcases h.linked k with heq | ⟨_, hget', hextra⟩
      · -- it would be in the first mempool too
        have hin : entry.tx ∈ p.plain.mempool.txs := Mempool.mem_txs.mpr ⟨k, entry, heq ▸ hget, rfl⟩
        have := any_eq_true.mpr ⟨entry.tx, hin, hmatters⟩
        exact absurd this (by rw [show p.plain.mempool.txs.any matters = false from hplain]; decide)
      · rw [hget'] at hget
        cases hget
        exact hextra

/-! ### Decisions that hang on gossip -/

/-- The loop gets to the inference with room left, and all checks but the one of the
mempool let it pass. -/
def Reaches (s : HostSetup) (sm : StateMachine) (m : Mempool) (order : List ℕ) (available : ℕ)
    (validating : Finset ℕ) (id : ℕ) : Prop :=
  ∃ before after, order = before ++ id :: after ∧
    (collectLoop s sm m before available validating).1.length < available ∧
    (candidate s sm (collectLoop s sm m before available validating).2 id).isSome = true

/-- The decision of the step hangs on an extra transaction: everything else lets it
go to the scan, and the scan tips it. -/
def Sways (s : HostSetup) (p : Pair) : PairOp → Prop
  | .both (.verifyRefused id payload answer now) =>
    (∃ r, p.plain.world.sm.inferences.get? id = some r ∧ r.status = .pending ∧
      ¬ now - r.startedAt < s.refusalTimeout ∧ refusedVerdict s r payload answer ≠ .ok false) ∧
      Tips p (DevshardTx.confirmsOrFinishes id)
  | .both (.verifyExecution id answer now) =>
    (∃ r, p.plain.world.sm.inferences.get? id = some r ∧ r.status = .started ∧
      ¬ now - r.confirmedAt < s.executionTimeout ∧ executionVerdict id answer ≠ .ok false) ∧
      Tips p (DevshardTx.finishes id)
  | .both (.challengeReceipt id payload now) =>
    ((challengeReceipt s p.plain.world.sm id payload now).isSome = true ∧
      id ∉ p.plain.executing) ∧ Tips p (DevshardTx.finishes id)
  | .both (.collectValidationJobs enabled order) =>
    (s.hasValidator = true ∧ p.plain.queueOpen = true ∧ enabled = true) ∧
      ∃ id, Reaches s p.plain.world.sm p.plain.mempool order
          (s.queueSize - p.plain.queue.length) p.plain.validating id ∧
        Tips p (DevshardTx.validatesFor s.slotIDs id)
  | _ => False

section
variable {s : HostSetup} {sm : StateMachine} {m m' : Mempool}

theorem verdict_ne_iff {α : Type*} {b b' : Bool} {v w : α} :
    ((if b then v else w) = if b' then v else w) ↔ ¬ (w ≠ v ∧ b ≠ b') := by
  cases b <;> cases b' <;> simp [eq_comm]

variable {validating : Finset ℕ} {payload : Option InferencePayload} {order : List ℕ}
  {available : ℕ} {now : Int64}

theorem verifyRefusedTimeout_eq_iff {id : ℕ} {answer : ChallengeAnswer} :
    verifyRefusedTimeout s sm id payload m answer now
        = verifyRefusedTimeout s sm id payload m' answer now ↔
      ¬ ((∃ r, sm.inferences.get? id = some r ∧ r.status = .pending ∧
          ¬ now - r.startedAt < s.refusalTimeout ∧ refusedVerdict s r payload answer ≠ .ok false) ∧
        m.any (DevshardTx.confirmsOrFinishes id) ≠ m'.any (DevshardTx.confirmsOrFinishes id)) := by
  unfold verifyRefusedTimeout
  cases sm.inferences.get? id with
  | none => simp
  | some r =>
    by_cases hstatus : r.status = .pending
    · by_cases hearly : now - r.startedAt < s.refusalTimeout
      · simp [hstatus, hearly]
      · simp only [hstatus, hearly, ne_eq, not_true_eq_false, if_false, verdict_ne_iff,
          Option.some.injEq, exists_eq_left', not_false_eq_true, true_and]
    · simp [hstatus]

theorem verifyExecutionTimeout_eq_iff {id : ℕ} {answer : MempoolAnswer} :
    verifyExecutionTimeout s sm id m answer now = verifyExecutionTimeout s sm id m' answer now ↔
      ¬ ((∃ r, sm.inferences.get? id = some r ∧ r.status = .started ∧
          ¬ now - r.confirmedAt < s.executionTimeout ∧ executionVerdict id answer ≠ .ok false) ∧
        m.any (DevshardTx.finishes id) ≠ m'.any (DevshardTx.finishes id)) := by
  unfold verifyExecutionTimeout
  cases sm.inferences.get? id with
  | none => simp
  | some r =>
    by_cases hstatus : r.status = .started
    · by_cases hearly : now - r.confirmedAt < s.executionTimeout
      · simp [hstatus, hearly]
      · simp only [hstatus, hearly, ne_eq, not_true_eq_false, if_false, verdict_ne_iff,
          Option.some.injEq, exists_eq_left', not_false_eq_true, true_and]
    · simp [hstatus]

theorem challengeStarts_eq_iff {executing : Finset ℕ} {id : ℕ} :
    challengeStarts s sm executing m id payload now
        = challengeStarts s sm executing m' id payload now ↔
      ¬ (((challengeReceipt s sm id payload now).isSome = true ∧ id ∉ executing) ∧
        m.any (DevshardTx.finishes id) ≠ m'.any (DevshardTx.finishes id)) := by
  unfold challengeStarts
  cases challengeReceipt s sm id payload now with
  | none => simp
  | some =>
    by_cases hexecuting : id ∈ executing
    · simp [hexecuting]
    · simp only [hexecuting, if_false, verdict_ne_iff, Option.isSome_some, not_false_eq_true,
        and_self, ne_eq, true_and, Bool.true_eq_false]

theorem candidate_inferenceID {id : ℕ} {job : ValidateJob}
    (h : candidate s sm validating id = some job) : job.inferenceID = id := by
  unfold candidate at h
  cases hget : sm.inferences.get? id with
  | none =>
    rw [hget] at h
    cases h
  | some =>
    rw [hget] at h
    dsimp only at h
    iterate 5
      split at h
      · cases h
    rw [← Option.some_inj.mp h]

section
variable {id : ℕ} {order : List ℕ} {available : ℕ} {validating : Finset ℕ}

theorem collectLoop_skip
    (h : candidate s sm validating id = none ∨ m.any (DevshardTx.validatesFor s.slotIDs id) = true) :
    collectLoop s sm m (id :: order) available validating
      = collectLoop s sm m order available validating := by
  rw [collectLoop]
  cases hcandidate : candidate s sm validating id with
  | none => rfl
  | some job =>
    have hany := h.resolve_left (by rw [hcandidate]; exact Option.some_ne_none job)
    dsimp only
    rw [if_pos hany]

theorem collectLoop_pick {job : ValidateJob} (hcandidate : candidate s sm validating id = some job)
    (hany : m.any (DevshardTx.validatesFor s.slotIDs id) = false) :
    collectLoop s sm m (id :: order) available validating
      = if available ≤ 1 then ([job], insert id validating)
        else (job :: (collectLoop s sm m order (available - 1) (insert id validating)).1,
          (collectLoop s sm m order (available - 1) (insert id validating)).2) := by
  rw [collectLoop, hcandidate]
  dsimp only
  rw [if_neg (Bool.eq_false_iff.mp hany)]

end

/-- What the loop picks is not in the mempool. -/
theorem collectLoop_not_any {job : ValidateJob}
    (hjob : job ∈ (collectLoop s sm m order available validating).1) :
    m.any (DevshardTx.validatesFor s.slotIDs job.inferenceID) = false := by
  induction order generalizing available validating with
  | nil => cases hjob
  | cons id _ ih =>
    cases hcandidate : candidate s sm validating id with
    | none =>
      rw [collectLoop_skip (.inl hcandidate)] at hjob
      exact ih hjob
    | some picked =>
      cases hany : m.any (validatesFor s.slotIDs id) with
      | true =>
        rw [collectLoop_skip (.inr hany)] at hjob
        exact ih hjob
      | false =>
        have hpicked : m.any (validatesFor s.slotIDs picked.inferenceID) = false := by
          rw [candidate_inferenceID hcandidate]
          exact hany
        rw [collectLoop_pick hcandidate hany] at hjob
        split at hjob
        · rw [mem_singleton.mp hjob]
          exact hpicked
        · rcases mem_cons.mp hjob with rfl | hjob
          · exact hpicked
          · exact ih hjob

theorem collectLoop_validating (order : List ℕ) (available : ℕ) (validating : Finset ℕ) :
    (collectLoop s sm m order available validating).2
      = (collectLoop s sm m order available validating).1.foldl
          (fun validating job => insert job.inferenceID validating) validating := by
  induction order generalizing available validating with
  | nil => rfl
  | cons id _ ih =>
    cases hcandidate : candidate s sm validating id with
    | none =>
      rw [collectLoop_skip (.inl hcandidate)]
      exact ih available validating
    | some =>
      cases hany : m.any (validatesFor s.slotIDs id) with
      | true =>
        rw [collectLoop_skip (.inr hany)]
        exact ih available validating
      | false =>
        rw [collectLoop_pick hcandidate hany]
        have hid := candidate_inferenceID hcandidate
        split
        · rw [← hid]
          rfl
        · dsimp only [foldl_cons]
          rw [hid]
          exact ih (available - 1) (insert id validating)

/-- Where one mempool blocks a candidate and the other does not, the picks differ: the
one who picks it picks it now, and the other one never does. -/
theorem collectLoop_ne {id : ℕ} {job : ValidateJob}
    (hcandidate : candidate s sm validating id = some job)
    (hany : m.any (DevshardTx.validatesFor s.slotIDs id) = false)
    (hany' : m'.any (DevshardTx.validatesFor s.slotIDs id) = true) :
    (collectLoop s sm m (id :: order) available validating).1
      ≠ (collectLoop s sm m' (id :: order) available validating).1 := by
  intro heq
  have hmem : job ∈ (collectLoop s sm m (id :: order) available validating).1 := by
    rw [collectLoop_pick hcandidate hany]
    split
    · exact mem_singleton_self job
    · exact mem_cons_self
  rw [heq] at hmem
  have hnot := collectLoop_not_any hmem
  rw [candidate_inferenceID hcandidate, hany'] at hnot
  cases hnot

theorem collectLoop_eq_of_jobs (h : (collectLoop s sm m order available validating).1
      = (collectLoop s sm m' order available validating).1) :
    collectLoop s sm m order available validating
      = collectLoop s sm m' order available validating := by
  refine Prod.ext h ?_
  rw [collectLoop_validating, collectLoop_validating, h]

theorem reaches_cons {id id' : ℕ} : Reaches s sm m (id :: order) available validating id' ↔
      (id' = id ∧ 0 < available ∧ (candidate s sm validating id).isSome = true) ∨
      ∃ before after, order = before ++ id' :: after ∧
        (collectLoop s sm m (id :: before) available validating).1.length < available ∧
        (candidate s sm (collectLoop s sm m (id :: before) available validating).2 id').isSome
          = true := by
  constructor
  · rintro ⟨before, after, horder, hroom, hcandidate⟩
    cases before with
    | nil =>
      obtain ⟨rfl, -⟩ := List.cons.inj horder
      exact .inl ⟨rfl, hroom, hcandidate⟩
    | cons _ before =>
      obtain ⟨rfl, hrest⟩ := List.cons.inj horder
      exact .inr ⟨before, after, hrest, hroom, hcandidate⟩
  · rintro (⟨rfl, hroom, hcandidate⟩ | ⟨before, after, horder, hroom, hcandidate⟩)
    · exact ⟨[], order, rfl, hroom, hcandidate⟩
    · exact ⟨id :: before, after, by rw [horder]; rfl, hroom, hcandidate⟩

/-- **Two mempools pick the same inferences exactly when they agree on every inference
that the loop gets to.** -/
theorem collectLoop_eq_iff (hroom : 0 < available) :
    (collectLoop s sm m order available validating).1
        = (collectLoop s sm m' order available validating).1 ↔
      ¬ ∃ id, Reaches s sm m order available validating id ∧
        m.any (DevshardTx.validatesFor s.slotIDs id)
          ≠ m'.any (DevshardTx.validatesFor s.slotIDs id) := by
  induction order generalizing available validating with
  | nil =>
    refine iff_of_true rfl ?_
    rintro ⟨id, ⟨before, after, horder, -⟩, -⟩
    exact append_ne_nil_of_right_ne_nil before (cons_ne_nil id after) horder.symm
  | cons id order ih =>
    cases hcandidate : candidate s sm validating id with
    | none =>
      rw [collectLoop_skip (.inl hcandidate), collectLoop_skip (.inl hcandidate), ih hroom]
      refine not_congr (exists_congr fun id' => and_congr_left fun _ => ?_)
      rw [reaches_cons, hcandidate]
      simp only [collectLoop_skip (.inl hcandidate), Option.isSome_none, Bool.false_eq_true,
        and_false, false_or]
      rfl
    | some =>
      by_cases hsame : m.any (validatesFor s.slotIDs id)
          = m'.any (validatesFor s.slotIDs id)
      · -- the inference at hand is no difference, whatever the loops make of it
        have hrest : ∀ {R : ℕ → Prop}, (∀ id', R id' ↔ ∃ before after, order = before ++ id' :: after ∧
            (collectLoop s sm m (id :: before) available validating).1.length < available ∧
            (candidate s sm (collectLoop s sm m (id :: before) available validating).2 id').isSome
              = true) →
            ((∃ id', R id' ∧ m.any (validatesFor s.slotIDs id')
              ≠ m'.any (validatesFor s.slotIDs id')) ↔
            ∃ id', Reaches s sm m (id :: order) available validating id' ∧
              m.any (validatesFor s.slotIDs id')
                ≠ m'.any (validatesFor s.slotIDs id')) := by
          intro R hR
          refine exists_congr fun id' => and_congr_left fun hdiff => ?_
          rw [reaches_cons, hR]
          constructor
          · exact .inr
          · rintro (⟨rfl, -⟩ | h)
            · exact absurd hsame hdiff
            · exact h
        cases hany : m.any (validatesFor s.slotIDs id) with
        | true =>
          rw [collectLoop_skip (.inr hany), collectLoop_skip (.inr (hsame ▸ hany)), ih hroom]
          refine not_congr (hrest fun id' => ?_)
          simp only [collectLoop_skip (.inr hany)]
          rfl
        | false =>
          rw [collectLoop_pick hcandidate hany, collectLoop_pick hcandidate (hsame ▸ hany)]
          by_cases hlast : available ≤ 1
          · rw [if_pos hlast, if_pos hlast]
            refine iff_of_true rfl ?_
            rw [← hrest (R := fun _ => False)]
            · rintro ⟨-, h, -⟩
              exact h
            intro id'
            simp only [collectLoop_pick hcandidate hany, if_pos hlast, length_singleton]
            refine iff_of_false not_false ?_
            omega
          · rw [if_neg hlast, if_neg hlast]
            rw [List.cons.injEq, and_iff_right rfl, ih (by omega)]
            refine not_congr (hrest fun id' => ?_)
            simp only [collectLoop_pick hcandidate hany, if_neg hlast, length_cons]
            refine exists_congr fun before => exists_congr fun after => and_congr_right fun _ =>
              and_congr_left fun _ => ?_
            omega
      · -- one loop picks the inference, and the other one never does
        refine iff_of_false (fun heq => ?_) (not_not.mpr ⟨id, ?_, hsame⟩)
        · cases hany : m.any (validatesFor s.slotIDs id) with
          | true =>
            have hany' := Bool.eq_false_iff.mpr fun h => hsame (hany.trans h.symm)
            exact collectLoop_ne hcandidate hany' hany heq.symm
          | false =>
            have hany' := (Bool.not_eq_false _).mp fun h => hsame (hany.trans h.symm)
            exact collectLoop_ne hcandidate hany hany' heq
        · exact reaches_cons.mpr (.inl ⟨rfl, hroom, by rw [hcandidate]; rfl⟩)

end

section
variable (s : HostSetup) (recoverAddress : Bytes → Bytes → Option Address)

section
variable {s} {p : Pair} (h : Twins p)
include h

theorem not_sways_verifyRefused {id : ℕ} {answer : ChallengeAnswer} :
    ¬ Sways s p (.both (.verifyRefused id payload answer now)) ↔
      verifyRefusedTimeout s p.plain.world.sm id payload p.plain.mempool answer now
        = verifyRefusedTimeout s p.plain.world.sm id payload p.gossiped.mempool answer now := by
  rw [verifyRefusedTimeout_eq_iff, ← tips_iff h]
  rfl

theorem not_sways_verifyExecution {id : ℕ} {answer : MempoolAnswer} :
    ¬ Sways s p (.both (.verifyExecution id answer now)) ↔
      verifyExecutionTimeout s p.plain.world.sm id p.plain.mempool answer now
        = verifyExecutionTimeout s p.plain.world.sm id p.gossiped.mempool answer now := by
  rw [verifyExecutionTimeout_eq_iff, ← tips_iff h]
  rfl

theorem not_sways_challengeReceipt {id : ℕ} :
    ¬ Sways s p (.both (.challengeReceipt id payload now)) ↔
      challengeStarts s p.plain.world.sm p.plain.executing p.plain.mempool id payload now
        = challengeStarts s p.plain.world.sm p.plain.executing p.gossiped.mempool id payload now := by
  rw [challengeStarts_eq_iff, ← tips_iff h]
  rfl

theorem not_sways_collectValidationJobs {enabled : Bool}
    (hopen : s.hasValidator = true ∧ p.plain.queueOpen = true ∧ enabled = true)
    (hroom : 0 < s.queueSize - p.plain.queue.length) :
    ¬ Sways s p (.both (.collectValidationJobs enabled order)) ↔
      (collectLoop s p.plain.world.sm p.plain.mempool order (s.queueSize - p.plain.queue.length)
        p.plain.validating).1
      = (collectLoop s p.plain.world.sm p.gossiped.mempool order
          (s.queueSize - p.plain.queue.length) p.plain.validating).1 := by
  rw [collectLoop_eq_iff hroom]
  simp only [← tips_iff h]
  exact not_congr (and_iff_right hopen)

end

/-- Twins that take a step decide the same exactly when it does not sway, and then
they are twins again. -/
theorem twins_step {p : Pair} (h : Twins p) (op : PairOp) :
    ((p.step s recoverAddress op).plain.decisions = (p.step s recoverAddress op).gossiped.decisions →
      ¬ Sways s p op) ∧
    (¬ Sways s p op → Twins (p.step s recoverAddress op) ∧
      (p.step s recoverAddress op).plain.decisions
        = (p.step s recoverAddress op).gossiped.decisions) := by
  obtain ⟨plain, gossiped, extras⟩ := p
  obtain ⟨hhost, hlinked⟩ := id h
  dsimp only at hhost hlinked
  generalize gossiped.mempool = m' at hhost hlinked
  subst hhost
  cases op with
  | extra _ _ txs =>
    refine ⟨fun _ => id, fun _ => ?_⟩
    unfold Pair.step LiveHost.gossipTxs
    dsimp only
    split
    · exact ⟨⟨rfl, hlinked.mono.extra (subset_append_right extras txs)⟩, rfl⟩
    · exact ⟨⟨rfl, hlinked.mono⟩, rfl⟩
  | both op =>
    by_cases hdecides : op.decides = false
    · refine ⟨fun _ => ?_, fun _ => ?_⟩
      · cases op <;> first | exact id | cases hdecides
      obtain ⟨e, hedit⟩ := LiveHost.step_edit s recoverAddress op hdecides plain
      have hplain : (plain.step s recoverAddress op).mempool = e.edit plain.mempool :=
        congrArg LiveHost.mempool (hedit plain.mempool)
      unfold Pair.step
      dsimp only
      rw [hedit m']
      refine ⟨⟨rfl, ?_⟩, rfl⟩
      rw [hplain]
      exact hlinked.edit e
    · cases op with
      | verifyRefused =>
        rw [not_sways_verifyRefused h]
        constructor
        · intro hdecisions
          exact (Decision.timeoutRefused.inj (List.cons.inj (append_cancel_left hdecisions)).1).2
        intro heq
        unfold Pair.step LiveHost.step
        dsimp only at heq ⊢
        rw [heq]
        exact ⟨⟨rfl, hlinked⟩, rfl⟩
      | verifyExecution =>
        rw [not_sways_verifyExecution h]
        constructor
        · intro hdecisions
          exact (Decision.timeoutExecution.inj (List.cons.inj (append_cancel_left hdecisions)).1).2
        intro heq
        unfold Pair.step LiveHost.step
        dsimp only at heq ⊢
        rw [heq]
        exact ⟨⟨rfl, hlinked⟩, rfl⟩
      | challengeReceipt =>
        rw [not_sways_challengeReceipt h]
        constructor
        · intro hdecisions
          exact (Decision.challenge.inj (List.cons.inj (append_cancel_left hdecisions)).1).2
        intro heq
        unfold Pair.step LiveHost.step LiveHost.challenge
        dsimp only at heq ⊢
        rw [heq]
        exact ⟨⟨rfl, hlinked⟩, rfl⟩
      | collectValidationJobs enabled =>
        unfold Pair.step LiveHost.step LiveHost.collectValidationJobs
        dsimp only
        by_cases hclosed : s.hasValidator = false ∨ plain.queueOpen = false ∨ enabled = false ∨
            s.queueSize - plain.queue.length = 0
        · rw [if_pos hclosed, if_pos hclosed]
          refine ⟨fun _ => ?_, fun _ => ⟨⟨rfl, hlinked⟩, rfl⟩⟩
          rintro ⟨⟨hvalidator, hopen, henabled⟩, _, ⟨_, _, -, hroom, -⟩, -⟩
          dsimp only at hopen hroom
          rw [hvalidator, hopen, henabled] at hclosed
          have hzero : s.queueSize - plain.queue.length = 0 := by simpa using hclosed
          omega
        · rw [if_neg hclosed, if_neg hclosed]
          simp only [not_or, Bool.not_eq_false] at hclosed
          obtain ⟨hvalidator, hopen, henabled, hroom⟩ := hclosed
          rw [not_sways_collectValidationJobs h ⟨hvalidator, hopen, henabled⟩ (Nat.pos_of_ne_zero hroom)]
          constructor
          · intro hdecisions
            exact Decision.validationJobs.inj (List.cons.inj (append_cancel_left hdecisions)).1
          intro heq
          have hboth := collectLoop_eq_of_jobs heq
          rw [hboth]
          exact ⟨⟨rfl, hlinked⟩, rfl⟩
      | _ => exact absurd rfl hdecides

/-- **The two runs decide the same exactly as long as no decision hangs on an extra
transaction.** -/
theorem same_decisions_iff (h : LiveHost) (ops : List PairOp) :
    Along.Throughout (Pair.step s recoverAddress)
        (fun p => p.plain.decisions = p.gossiped.decisions) ops ⟨h, h, []⟩ ↔
      Along.EachStep (Pair.step s recoverAddress) (fun p op => ¬ Sways s p op) ops ⟨h, h, []⟩ := by
  refine Along.throughout_iff_eachStep (I := Twins) (fun p op htwins hsame => ?_)
    (fun p op htwins _ => ?_) ⟨rfl, fun k => .inl rfl⟩ rfl
  · obtain ⟨hstays, hkeeps⟩ := twins_step s recoverAddress htwins op
    exact (hkeeps (hstays hsame)).1
  · obtain ⟨hstays, hkeeps⟩ := twins_step s recoverAddress htwins op
    exact ⟨hstays, fun hnot => (hkeeps hnot).2⟩

end

def trioMachine : StateMachine :=
  { sampleMachine with
    config := normalizeSessionConfig sampleConfig 3
    group := [⟨0, [1]⟩, ⟨1, [2]⟩, ⟨2, [3]⟩]
    hostStats := (((∅ : OrdMap ℕ HostStats).insert 0 {}).insert 1 {}).insert 2 {} }

def trioSetup : HostSetup where
  slotIDs := [0]
  epochID := 1
  ownSeed := 1
  refusalTimeout := 60
  executionTimeout := 1920
  validationRate := 5000
  hasValidator := true
  queueSize := 20000
  sign := fun _ => some [1]
  canonicalPromptHash := some
  effectiveMaxTokens := fun _ => some 0

def forgedFinish : DevshardTx := .finishInference ⟨1, [], 0, 0, 1, [3], []⟩

/-- Inference 1 is started and confirmed; its executor never answers; after the
deadline the host is asked for its vote. -/
def timeoutOps : List PairOp :=
  [.both (.apply {} (.persist ⟨1, [sampleStart 1], [9], []⟩ true)),
    .both (.apply {} (.persist ⟨2, [.confirmStart ⟨1, [2], 6⟩], [9], []⟩ true)),
    .extra [3] false [forgedFinish],
    .both (.verifyExecution 1 .failed 100000)]

def timeoutPair : Pair :=
  Along.run (Pair.step trioSetup namedSigner) timeoutOps
    ⟨{ world := { sm := trioMachine } }, { world := { sm := trioMachine } }, []⟩

/-- The owner of slot 2 gossips a finish for the executor of slot 1.  The machine
refuses it, and the host that has it refuses the timeout. -/
theorem forged_finish_blocks_timeout :
    (∃ w, applyTx (Outside.env namedSigner {}) forgedFinish timeoutPair.gossiped.world
      = .error (.wrongProposerSig [2] [3]) w) ∧
    timeoutPair.plain.decisions = [.timeoutExecution 1 (.ok true)] ∧
    timeoutPair.gossiped.decisions = [.timeoutExecution 1 (.ok false)] := by
  refine ⟨⟨_, rfl⟩, ?_⟩
  decide +kernel

end Devshard
