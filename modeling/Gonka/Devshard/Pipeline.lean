/-
The operations of the state machine (`devshard/state/machine.go`).

A diff goes through one pipeline: nonce and start checks, the transactions, the
per-nonce fee, the phase bookkeeping with the settlement drain, the periodic
auto-seal, the state root.  `applyCore` runs it with every transaction mandatory;
`localBestEffort` skips the transactions that fail.  Every exit after the first
change goes through `orRestore`, the model of "restore the snapshot and return
the error".

`validateDiff` and `previewLocalBestEffort` run the pipeline as a trial and
return a `ValidatedDiff` that `commitValidated` installs later.

`Op` lists the operations a session is driven by, and `runOps` runs any sequence
of them; trial results are kept, so that a commit may come at any later time or
not at all.
-/
import Gonka.Devshard.Handlers
import Gonka.Devshard.Seal

namespace Devshard

open Wire

/-- `if err != nil { sm.restoreMutable(snap); return … }`, with the context the
error is wrapped in. -/
def orRestore {α : Type} (snap : MutableSnapshot) (wrap : Err → Err) : Outcome α → Outcome α
  | .ok a w => .ok a w
  | .error e w => .error (wrap e) (w.restore snap)

/-- The start transactions of a diff: each has the nonce as its id, and there is
at most one. -/
def checkStarts (nonce : ℕ) (txs : List DevshardTx) : Except Err Unit :=
  let starts := txs.filterMap DevshardTx.getStartInference
  if starts.any fun start => start.inferenceId ≠ nonce then .error .invalidInferenceID
  else if starts.length > 1 then .error .multipleStartMsgs
  else .ok ()

def checkDiff (latestNonce nonce : ℕ) (txs : List DevshardTx) : Except Err Unit :=
  if nonce ≠ latestNonce + 1 then .error (.invalidNonce (latestNonce + 1) nonce)
  else checkStarts nonce txs

/-- The fee of an applied nonce, in the active phase only. -/
def chargeFee (w : World) : Outcome Unit :=
  if w.sm.phase = .active then
    if w.sm.balance < w.sm.config.feePerNonce then .error .insufficientBalance w
    else .ok () ((w.subBalance w.sm.config.feePerNonce).addFees w.sm.config.feePerNonce)
  else .ok () w

/-- `LatestNonce = nonce`, and `FinalizeNonce` at the first finalizing nonce. -/
def advanceNonce (nonce : ℕ) (w : World) : World :=
  let w := { w with sm.latestNonce := nonce }
  if w.sm.phase = .finalizing ∧ w.sm.finalizeNonce = 0 then { w with sm.finalizeNonce := nonce }
  else w

def deadlinePassed (sm : StateMachine) : Prop :=
  sm.latestNonce ≥ sm.finalizeNonce + sm.group.length

instance (sm : StateMachine) : Decidable (deadlinePassed sm) :=
  inferInstanceAs (Decidable (_ ≥ _))

def enterSettlement (env : Env) (w : World) : Outcome Unit :=
  if w.sm.phase = .finalizing ∧ deadlinePassed w.sm then
    drainLiveIntoSealedAcc env w.sm.latestNonce { w with sm.phase := .settlement }
  else .ok () w

/-- The periodic seal, in the active phase only. -/
def sealAtInterval (env : Env) (nonce : ℕ) (w : World) : Outcome Unit :=
  if w.sm.phase = .active ∧ shouldAutoSealAtNonce (autoSealInterval w.sm.config) nonce then
    autoSeal env nonce w
  else .ok () w

/-- `computeStateRootLocked`. -/
def stateRoot (w : World) : Outcome Bytes :=
  match computeStateRoot w.sm.toEscrowState with
  | none => .error (.marshal .inferenceEntry) w
  | some root => .ok root w

/-- The second half of a diff, which the strict and the best-effort path write
out alike: fee, nonce, phase, seal and state root. -/
def closeNonce (env : Env) (nonce : ℕ) (snap : MutableSnapshot) (w : World) : Outcome Bytes :=
  match orRestore snap id (chargeFee w) with
  | .error e w => .error e w
  | .ok _ w =>
    match orRestore snap .drain (enterSettlement env (advanceNonce nonce w)) with
    | .error e w => .error e w
    | .ok _ w =>
      match orRestore snap .autoSeal (sealAtInterval env nonce w) with
      | .error e w => .error e w
      | .ok _ w => orRestore snap .stateRoot (stateRoot w)

def applyTxs (env : Env) (snap : MutableSnapshot) : List DevshardTx → World → Outcome Unit
  | [], w => .ok () w
  | tx :: txs, w =>
    match orRestore snap id (applyTx env tx w) with
    | .error e w => .error e w
    | .ok _ w => applyTxs env snap txs w

def checkPostStateRoot (postStateRoot root : Bytes) (w : World) : Outcome Bytes :=
  if postStateRoot.length > 0 ∧ root ≠ postStateRoot then
    .error (.postStateRootMismatch postStateRoot root) w
  else .ok root w

def applyCore (env : Env) (nonce : ℕ) (txs : List DevshardTx) (postStateRoot : Bytes)
    (w : World) : Outcome Bytes :=
  match checkDiff w.sm.latestNonce nonce txs with
  | .error e => .error e w
  | .ok _ =>
    let snap := w.sm.snapshotMutable
    match applyTxs env snap txs w with
    | .error e w => .error e w
    | .ok _ w =>
      match closeNonce env nonce snap w with
      | .error e w => .error e w
      | .ok root w => orRestore snap id (checkPostStateRoot postStateRoot root w)

/-- A transaction that fails is skipped, unless it starts an inference.  Returns
the applied transactions. -/
def applyTxsBestEffort (env : Env) (snap : MutableSnapshot) :
    List DevshardTx → World → Outcome (List DevshardTx)
  | [], w => .ok [] w
  | tx :: txs, w =>
    match applyTx env tx w with
    | .error e w =>
      if tx.getStartInference.isSome then .error (.mandatoryStart e) (w.restore snap)
      else applyTxsBestEffort env snap txs w
    | .ok _ w =>
      match applyTxsBestEffort env snap txs w with
      | .error e w => .error e w
      | .ok applied w => .ok (tx :: applied) w

def localBestEffort (env : Env) (nonce : ℕ) (txs : List DevshardTx) (w : World) :
    Outcome (Bytes × List DevshardTx) :=
  let snap := w.sm.snapshotMutable
  match checkDiff w.sm.latestNonce nonce txs with
  | .error e => .error e w
  | .ok _ =>
    match applyTxsBestEffort env snap txs w with
    | .error e w => .error e w
    | .ok applied w =>
      match closeNonce env nonce snap w with
      | .error e w => .error e w
      | .ok root w => .ok (root, applied) w

def verifyDiffUserSig (env : Env) (diff : Diff) (sm : StateMachine) : Except Err Unit :=
  match diffContent sm.escrowID diff.nonce diff.txs diff.postStateRoot with
  | none => .error (.marshal .diffContent)
  | some data =>
    match env.recoverAddress data diff.userSig with
    | none => .error .invalidUserSig
    | some recovered =>
      if recovered ≠ sm.userAddress then .error (.wrongUserSig sm.userAddress recovered)
      else .ok ()

def applyDiff (env : Env) (diff : Diff) (w : World) : Outcome Bytes :=
  match verifyDiffUserSig env diff w.sm with
  | .error e => .error e w
  | .ok _ => applyCore env diff.nonce diff.txs diff.postStateRoot w

/-- The user's own apply: no signature, no root to match. -/
def applyLocal (env : Env) (nonce : ℕ) (txs : List DevshardTx) (w : World) : Outcome Bytes :=
  applyCore env nonce txs [] w

def applyLocalBestEffort (env : Env) (nonce : ℕ) (txs : List DevshardTx) (w : World) :
    Outcome (Bytes × List DevshardTx) :=
  localBestEffort env nonce txs w

structure ValidatedDiff where
  root : Bytes
  warmAfter : OrdMap ℕ Address
  /-- The applied transactions, on the best-effort path. -/
  applied : List DevshardTx
  nonce : ℕ
  post : MutableSnapshot
  obs : List DeferredObsWrite
  deriving DecidableEq

/-- A trial apply: run with the store writes buffered, capture the state after
it, and put the state before it back. -/
def trialApply {α : Type} (run : World → Outcome α)
    (handle : α → MutableSnapshot → OrdMap ℕ Address → List DeferredObsWrite → ValidatedDiff)
    (w : World) : Outcome ValidatedDiff :=
  let pre := w.sm.snapshotMutable
  match run { w with obsDeferred := some [] } with
  | .error e w => .error e { w with obsDeferred := none }
  | .ok a w =>
    let obs := w.obsDeferred.getD []
    let w := { w with obsDeferred := none }
    .ok (handle a w.sm.snapshotMutable w.sm.warmKeys obs) (w.restore pre)

def validateDiff (env : Env) (diff : Diff) (w : World) : Outcome ValidatedDiff :=
  match verifyDiffUserSig env diff w.sm with
  | .error e => .error e w
  | .ok _ =>
    trialApply (applyCore env diff.nonce diff.txs diff.postStateRoot)
      (fun root post warmAfter obs =>
        { root, warmAfter, applied := [], nonce := diff.nonce, post, obs }) w

def previewLocalBestEffort (env : Env) (nonce : ℕ) (txs : List DevshardTx) (w : World) :
    Outcome ValidatedDiff :=
  trialApply (localBestEffort env nonce txs)
    (fun result post warmAfter obs =>
      { root := result.1, warmAfter, applied := result.2, nonce, post, obs }) w

/-- `CommitValidated`: false, without effect, unless the machine is still one
nonce before the validated diff. -/
def commitValidated (env : Env) (vd : ValidatedDiff) (w : World) : Bool × World :=
  if vd.nonce ≠ w.sm.latestNonce + 1 then (false, w)
  else (true, flushDeferredObs env vd.obs (w.restore vd.post))

inductive Op where
  | applyDiff (diff : Diff)
  | applyLocal (nonce : ℕ) (txs : List DevshardTx)
  | applyLocalBestEffort (nonce : ℕ) (txs : List DevshardTx)
  | validateDiff (diff : Diff)
  | previewLocalBestEffort (nonce : ℕ) (txs : List DevshardTx)
  /-- Commit the `i`-th handle a trial has returned so far. -/
  | commitValidated (i : ℕ)

/-- A world with the handles its trials have returned. -/
structure Driver where
  world : World
  handles : List ValidatedDiff := []

/-- One operation.  Its error, if any, is the caller's to see; the driver keeps
the world. -/
def runOp (env : Env) (op : Op) (d : Driver) : Driver :=
  match op with
  | .applyDiff diff => { d with world := (applyDiff env diff d.world).world }
  | .applyLocal nonce txs => { d with world := (applyLocal env nonce txs d.world).world }
  | .applyLocalBestEffort nonce txs =>
    { d with world := (applyLocalBestEffort env nonce txs d.world).world }
  | .validateDiff diff =>
    match validateDiff env diff d.world with
    | .error _ w => { d with world := w }
    | .ok vd w => { world := w, handles := d.handles ++ [vd] }
  | .previewLocalBestEffort nonce txs =>
    match previewLocalBestEffort env nonce txs d.world with
    | .error _ w => { d with world := w }
    | .ok vd w => { world := w, handles := d.handles ++ [vd] }
  | .commitValidated i =>
    match d.handles[i]? with
    | none => d
    | some vd => { d with world := (commitValidated env vd d.world).2 }

def runOps (env : Env) (ops : List Op) (d : Driver) : Driver :=
  ops.foldl (fun d op => runOp env op d) d

end Devshard
