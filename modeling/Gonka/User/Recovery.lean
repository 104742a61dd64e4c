/-
Recovering a session from its stored diffs (`user/recover.go`).

A session stores a record for every diff it commits: the diff, the state hash and
the warm keys that its checks have bound.  `recoverSession` starts from a fresh
machine, or from a snapshot, injects the bindings of each record and applies its
transactions, with no resolver that would grant a key again.

Main results: `recovery_equals_run`, `recovery_stops_at_drain`.
-/
import Gonka.Devshard.Restored
import Gonka.Host.Persistence

namespace Devshard

open List

/-- One attempt to extend the session.  `stored` is whether `AppendDiff` succeeds. -/
inductive SessionOp where
  /-- A host is given a diff: `ValidateDiff`, `AppendDiff`, `CommitValidated`. -/
  | takeDiff (diff : Diff) (stored : Bool)
  /-- The user composes one: `PreviewLocalBestEffort`, `AppendDiff`, `CommitValidated`. -/
  | composeDiff (nonce : ℕ) (candidates : List DevshardTx) (userSig : Bytes) (stored : Bool)

/-- A session with the records it has stored, oldest first, each with the machine
after it. -/
structure SessionLog where
  world : World
  entries : List (DiffRecord × StateMachine) := []

def SessionLog.new (sm : StateMachine) : SessionLog := { world := { sm } }

def SessionLog.records (s : SessionLog) : List DiffRecord := s.entries.map Prod.fst

/-- The end of an attempt: the trial has failed, is stored and committed, or is
dropped because it could not be stored. -/
def SessionLog.store (env : Env) (s : SessionLog) (stored : Bool) (diff : ValidatedDiff → Diff) :
    Outcome ValidatedDiff → SessionLog
  | .error _ w => { s with world := w }
  | .ok vd w =>
    if stored then
      let w' := (commitValidated env vd w).2
      { world := w', entries := s.entries ++ [(vd.record (diff vd) s.world.sm, w'.sm)] }
    else { s with world := w }

def SessionLog.step (env : Env) (s : SessionLog) : SessionOp → SessionLog
  | .takeDiff diff stored => s.store env stored (fun _ => diff) (validateDiff env diff s.world)
  | .composeDiff nonce candidates userSig stored =>
    s.store env stored (fun vd => ⟨nonce, vd.applied, userSig, vd.root⟩)
      (previewLocalBestEffort env nonce candidates s.world)

def SessionLog.run (env : Env) (ops : List SessionOp) (s : SessionLog) : SessionLog :=
  ops.foldl (fun s op => s.step env op) s

/-- The machine after the first `k` of the entries, from `sm` on. -/
def machineAt : StateMachine → List (DiffRecord × StateMachine) → ℕ → StateMachine
  | sm, _, 0 => sm
  | sm, [], _ + 1 => sm
  | _, (_, sm) :: rest, k + 1 => machineAt sm rest k

def validateDiffRange : List DiffRecord → ℕ → ℕ → Bool
  | [], expected, last => decide (last < expected)
  | rec :: records, expected, last =>
    decide (rec.diff.nonce = expected) && validateDiffRange records (expected + 1) last

def replayRecords (env : Env) : List DiffRecord → World → Option (List Bytes × World)
  | [], w => some ([], w)
  | rec :: records, w =>
    match applyLocal env rec.diff.nonce rec.diff.txs (injectWarmKeys rec.warmKeyDelta w) with
    | .error _ _ => none
    | .ok root w' =>
      if rec.stateHash.length > 0 ∧ root.length > 0 ∧ root ≠ rec.stateHash then none
      else (replayRecords env records w').map fun p => (root :: p.1, p.2)

/-- The machine to replay on, and the first nonce to replay.  A snapshot is used
if it is of a stored nonce and can be read. -/
def startingPoint (fresh : StateMachine) (latestNonce : ℕ)
    (snapshot : Option (ℕ × StateSnapshotProto)) (opts : RestoreOptions) : StateMachine × ℕ :=
  match snapshot with
  | none => (fresh, 1)
  | some (snapNonce, msg) =>
    if 0 < snapNonce ∧ snapNonce ≤ latestNonce then
      match restoreSnapshot fresh msg opts with
      | none => (fresh, 1)
      | some sm => (sm, snapNonce + 1)
    else (fresh, 1)

/-- `GetDiffs`. -/
def storedFrom (records : List DiffRecord) (lo hi : ℕ) : List DiffRecord :=
  records.filter fun rec => decide (lo ≤ rec.diff.nonce ∧ rec.diff.nonce ≤ hi)

/-- `RecoverSession`, as far as the machine is concerned; `opts` is
`RestoreOptions.stateOnly` there. -/
def recoverSession (env : Env) (fresh : StateMachine) (latestNonce : ℕ)
    (snapshot : Option (ℕ × StateSnapshotProto)) (opts : RestoreOptions)
    (records : List DiffRecord) : Option (List Bytes × World) :=
  if latestNonce = 0 then some ([], { sm := fresh })
  else
    let start := startingPoint fresh latestNonce snapshot opts
    if start.2 > latestNonce then some ([], { sm := start.1 })
    else
      let records := storedFrom records start.2 latestNonce
      if validateDiffRange records start.2 latestNonce then
        replayRecords env records { sm := start.1 }
      else none

/-- The roots with which a machine accepts the diffs it is given, one after the
other; `none` where it refuses. -/
def responses (env : Env) : List Diff → World → List (Option Bytes)
  | [], _ => []
  | diff :: diffs, w =>
    match validateDiff env diff w with
    | .error _ w' => none :: responses env diffs w'
    | .ok vd w' => some vd.root :: responses env diffs (commitValidated env vd w').2

variable {env host : Env} {w w' v : World} {calls : List StoreCall} {vd : ValidatedDiff}

/-- A machine between two diffs of a run from a machine of the user `user`. -/
structure Settles (B₀ : ℕ) (user : Address) (sm : StateMachine) : Prop where
  rests : ∃ sealed, Rests B₀ ⟨sm, sealed⟩
  user : sm.userAddress = user

variable {B₀ : ℕ} {user : Address}

theorem Settles.liveWritable (h : Settles B₀ user w.sm) : LiveWritable w.sm := by
  obtain ⟨_, hrests⟩ := h.rests
  exact hrests.sound.liveWritable

theorem Settles.applyCore {nonce : ℕ} {txs : List DevshardTx} {post root : Bytes}
    (h : Settles B₀ user w.sm) (hrun : applyCore env nonce txs post w = .ok root w') :
    Settles B₀ user w'.sm := by
  obtain ⟨_, hrests⟩ := h.rests
  have hclosed := applyCore_closed env nonce txs post hrests.sound
  have hroll := applyCore_rolledBack env nonce txs post w
  rw [hrun] at hclosed hroll
  obtain ⟨sealed', hadv⟩ := Closed.advances hrests hclosed (.core rfl hrun)
  exact ⟨⟨sealed', hadv.rests⟩, (SameSession.userAddress hroll).trans h.user⟩

theorem Settles.localBestEffort {nonce : ℕ} {txs applied : List DevshardTx} {root : Bytes}
    (h : Settles B₀ user w.sm) (hrun : localBestEffort env nonce txs w = .ok (root, applied) w') :
    Settles B₀ user w'.sm := by
  obtain ⟨_, hrests⟩ := h.rests
  have hclosed := localBestEffort_closed env nonce txs hrests.sound
  have hroll := localBestEffort_rolledBack env nonce txs w
  rw [hrun] at hclosed hroll
  obtain ⟨sealed', hadv⟩ := Closed.advances hrests hclosed (.bestEffort rfl hrun)
  exact ⟨⟨sealed', hadv.rests⟩, (SameSession.userAddress hroll).trans h.user⟩

/-! ### Stored records -/

/-- The record `rec`, replayed on the machine `sm` with its bindings, gives `sm'`. -/
structure Reproduces (recoverAddress : Bytes → Bytes → Option Address) (rec : DiffRecord)
    (sm sm' : StateMachine) : Prop where
  nonce : rec.diff.nonce = sm.latestNonce + 1
  advances : sm'.latestNonce = rec.diff.nonce
  replays : ∀ {host : Env} {v : World} {calls : List StoreCall},
    host.recoverAddress = recoverAddress → v.sm = sm → v.Buffers calls →
    ∃ v', Devshard.applyCore host rec.diff.nonce rec.diff.txs []
      (injectWarmKeys rec.warmKeyDelta v) = .ok rec.stateHash v' ∧ v'.sm = sm'

variable (hnamed : ∀ data sig addr, env.recoverAddress data sig = some addr → addr ≠ [])

include hnamed in
theorem injectWarmKeys_delta {after : World} (hbinds : BindsSigners env w after)
    (hv : v.sm = w.sm) :
    (injectWarmKeys (computeWarmKeyDelta w.sm.warmKeys after.sm.warmKeys) v).sm
      = { w.sm with warmKeys := after.sm.warmKeys } := by
  have hinject : w.sm.warmKeys.addMissing (computeWarmKeyDelta w.sm.warmKeys after.sm.warmKeys)
      = after.sm.warmKeys := by
    refine addMissing_computeWarmKeyDelta hbinds.keeps fun hnone hkey => ?_
    obtain ⟨-, data, sig, hsigner⟩ := hbinds.signed hnone hkey
    exact hnamed data sig _ hsigner
  unfold injectWarmKeys
  rw [hv, hinject]

section
variable (hnamed : ∀ data sig addr, env.recoverAddress data sig = some addr → addr ≠ [])
include hnamed

theorem reproduces_validateDiff {diff : Diff} (h : validateDiff env diff w = .ok vd w') :
    Reproduces env.recoverAddress (vd.record diff w.sm) w.sm (commitValidated env vd w').2.sm := by
  obtain ⟨-, -, _, hrun, hwarm, hcommit⟩ := validateDiff_ok h
  obtain ⟨hnonce, hlatest⟩ := applyCore_latestNonce hrun
  rw [hcommit]
  refine ⟨hnonce, hlatest, fun {host v calls} hrec hv hb => ?_⟩
  unfold ValidatedDiff.record
  rw [hwarm]
  have hinjected := injectWarmKeys_delta (w := w.buffering) hnamed (applyCore_bindsSigners hrun) hv
  exact applyCore_buffered_again hrec (.inl rfl) hrun hinjected
    (show (injectWarmKeys _ v).Buffers calls from hb)

theorem reproduces_preview {nonce : ℕ} {txs : List DevshardTx} {userSig : Bytes}
    (hlive : LiveWritable w.sm) (h : previewLocalBestEffort env nonce txs w = .ok vd w') :
    Reproduces env.recoverAddress (vd.record ⟨nonce, vd.applied, userSig, vd.root⟩ w.sm) w.sm
      (commitValidated env vd w').2.sm := by
  obtain ⟨-, _, hrun, hwarm, hcommit⟩ := previewLocalBestEffort_ok h
  have hnonce : nonce = w.buffering.sm.latestNonce + 1 := localBestEffort_nonce hrun
  obtain ⟨-, _, -, hclose⟩ := localBestEffort_ok hrun
  rw [hcommit]
  refine ⟨hnonce, (closeNonce_keys hclose).2, fun {host v calls} hrec hv hb => ?_⟩
  unfold ValidatedDiff.record
  rw [hwarm]
  have hbinds := localBestEffort_bindsSigners (w := w.buffering) hlive hrun
  have hinjected := injectWarmKeys_delta (w := w.buffering) hnamed hbinds hv
  exact localBestEffort_buffered_again (w := w.buffering) hrec hlive hrun hinjected
    (show (injectWarmKeys _ v).Buffers calls from hb)

end

/-- The entries lead from the machine `sm` on, each record reproducing its machine. -/
def Trail (recoverAddress : Bytes → Bytes → Option Address) (B₀ : ℕ) (user : Address) :
    StateMachine → List (DiffRecord × StateMachine) → Prop
  | sm, [] => Settles B₀ user sm
  | sm, (rec, sm') :: rest =>
    Settles B₀ user sm ∧ Reproduces recoverAddress rec sm sm' ∧
      Trail recoverAddress B₀ user sm' rest

section
variable {recoverAddress : Bytes → Bytes → Option Address} {sm sm' : StateMachine}
  {entries : List (DiffRecord × StateMachine)} {rec : DiffRecord}

variable (h : Trail recoverAddress B₀ user sm entries)

include h in
theorem Trail.settles : Settles B₀ user sm := by
  cases entries with
  | nil => exact h
  | cons => exact h.1

@[simp] theorem machineAt_zero : machineAt sm entries 0 = sm := by
  cases entries <;> rfl

theorem machineAt_length_append :
    machineAt sm (entries ++ [(rec, sm')]) (entries.length + 1) = sm' := by
  induction entries generalizing sm with
  | nil => rfl
  | cons _ _ ih => exact ih

include h in
theorem Trail.append
    (hrec : Reproduces recoverAddress rec (machineAt sm entries entries.length) sm')
    (hsettles : Settles B₀ user sm') : Trail recoverAddress B₀ user sm (entries ++ [(rec, sm')]) := by
  induction entries generalizing sm with
  | nil => exact ⟨h, hrec, hsettles⟩
  | cons _ _ ih => exact ⟨h.1, h.2.1, ih h.2.2 hrec⟩

variable {k : ℕ}

include h in
theorem Trail.drop (hk : k ≤ entries.length) :
    Trail recoverAddress B₀ user (machineAt sm entries k) (entries.drop k) := by
  induction entries generalizing sm k with
  | nil =>
    obtain rfl : k = 0 := Nat.le_zero.mp hk
    exact h
  | cons _ _ ih =>
    cases k with
    | zero => exact h
    | succ => exact ih h.2.2 (Nat.le_of_succ_le_succ hk)

theorem machineAt_drop (hk : k ≤ entries.length) :
    machineAt (machineAt sm entries k) (entries.drop k) (entries.drop k).length
      = machineAt sm entries entries.length := by
  induction entries generalizing sm k with
  | nil =>
    obtain rfl : k = 0 := Nat.le_zero.mp hk
    rfl
  | cons _ _ ih =>
    cases k with
    | zero => rfl
    | succ => exact ih (Nat.le_of_succ_le_succ hk)

section

include h

theorem Trail.latestNonce
    (hk : k ≤ entries.length) : (machineAt sm entries k).latestNonce = sm.latestNonce + k := by
  induction entries generalizing sm k with
  | nil =>
    obtain rfl : k = 0 := Nat.le_zero.mp hk
    rfl
  | cons e rest ih =>
    cases k with
    | zero => rfl
    | succ k =>
      have hnonce := h.2.1.nonce
      have hadvances := h.2.1.advances
      have hlatest := ih h.2.2 (Nat.le_of_succ_le_succ hk)
      show (machineAt e.2 rest k).latestNonce = _
      omega

theorem Trail.nonces : ∀ rec ∈ entries.map Prod.fst,
      sm.latestNonce + 1 ≤ rec.diff.nonce ∧ rec.diff.nonce ≤ sm.latestNonce + entries.length := by
  induction entries generalizing sm with
  | nil => exact nofun
  | cons _ _ ih =>
    have hnonce := h.2.1.nonce
    have hadvances := h.2.1.advances
    intro rec hrec
    rw [length_cons]
    rcases mem_cons.mp hrec with rfl | hrec
    · omega
    · have hlater := ih h.2.2 rec hrec
      omega

theorem Trail.validateDiffRange :
    Devshard.validateDiffRange (entries.map Prod.fst) (sm.latestNonce + 1)
      (sm.latestNonce + entries.length) = true := by
  induction entries generalizing sm with
  | nil => exact decide_eq_true (Nat.lt_succ_self _)
  | cons e rest ih =>
    have hrest := ih h.2.2
    rw [h.2.1.advances, h.2.1.nonce] at hrest
    show (decide (e.1.diff.nonce = _) && _) = true
    rw [h.2.1.nonce, decide_eq_true rfl, Bool.true_and, length_cons]
    rwa [show sm.latestNonce + (rest.length + 1) = sm.latestNonce + 1 + rest.length by omega]

/-- The stored diffs after the first `k`. -/
theorem Trail.storedFrom (hk : k ≤ entries.length) :
    Devshard.storedFrom (entries.map Prod.fst) (sm.latestNonce + k + 1)
      (sm.latestNonce + entries.length) = (entries.drop k).map Prod.fst := by
  induction entries generalizing sm k with
  | nil =>
    obtain rfl : k = 0 := Nat.le_zero.mp hk
    rfl
  | cons e rest ih =>
    cases k with
    | zero =>
      refine filter_eq_self.mpr fun rec hrec => decide_eq_true ?_
      exact h.nonces rec hrec
    | succ =>
      have hnonce := h.2.1.nonce
      have hrest := ih h.2.2 (Nat.le_of_succ_le_succ hk)
      rw [h.2.1.advances, hnonce] at hrest
      show List.filter _ (e.1 :: rest.map Prod.fst) = _
      rw [filter_cons_of_neg (by rw [decide_eq_true_iff]; omega), drop_succ_cons, ← hrest,
        length_cons]
      congr 1
      funext rec
      rw [decide_eq_decide]
      omega

end

end

/-- The store takes the rows of the inferences that a record drains, seen from the
machine `sm` of the session before the entries. -/
def DrainsTaken (env : Env) : StateMachine → List (DiffRecord × StateMachine) → Prop
  | _, [] => True
  | sm, (rec, sm') :: rest =>
    DrainTaken env rec.diff.nonce rec.diff.txs sm ∧ DrainsTaken env sm' rest

section
variable {sm sm' : StateMachine} {entries : List (DiffRecord × StateMachine)} {rec : DiffRecord}

theorem Settles.sealed_le (h : Settles B₀ user sm) {id : ℕ}
    (hsealed : sm.sealedNonces.get? id ≠ none) : id ≤ sm.latestNonce := by
  obtain ⟨_, hrests⟩ := h.rests
  obtain ⟨n, hn⟩ := Option.ne_none_iff_exists'.mp hsealed
  obtain ⟨e, he, hid, -⟩ := (hrests.sound.consistent.sealedNonces id n).mp hn
  exact hrests.bounded id e.record (.inr ⟨e, he, hid, rfl⟩)

theorem Settles.past (h : Settles B₀ user sm) (hv : SameUpTo SealsLost sm sm') :
    ∀ id, sm'.sealedNonces.get? id ≠ none → id ≤ sm'.latestNonce := by
  obtain ⟨_, hseals, rfl⟩ := hv
  exact fun id hsealed => h.sealed_le (hseals id hsealed)

theorem SameUpTo.injectWarmKeys (h : SameUpTo SealsLost w.sm v.sm) (delta : OrdMap ℕ Address) :
    SameUpTo SealsLost (Devshard.injectWarmKeys delta w).sm (Devshard.injectWarmKeys delta v).sm := by
  obtain ⟨seals, hseals, hsm⟩ := h
  refine ⟨seals, hseals, ?_⟩
  unfold Devshard.injectWarmKeys
  rw [hsm]

theorem Reproduces.replay (hrejects : host.warmResolver = some fun _ _ _ => false)
    (h : Reproduces host.recoverAddress rec sm sm') (hsettles : Settles B₀ user sm)
    (htaken : DrainTaken host rec.diff.nonce rec.diff.txs sm)
    (hv : SameUpTo SealsLost sm v.sm) (hidle : v.obsDeferred = none) :
    ∃ v', applyLocal host rec.diff.nonce rec.diff.txs (injectWarmKeys rec.warmKeyDelta v)
      = .ok rec.stateHash v' ∧ SameUpTo SealsLost sm' v'.sm ∧ v'.obsDeferred = none := by
  -- the record on the machine it was stored for, with its writes buffered
  let u : World := { v.buffering with sm := sm }
  have hu : u.Buffers v.storeCalls := ⟨rfl, rfl⟩
  obtain ⟨_, hrun, hsm'⟩ := h.replays rfl (show u.sm = sm from rfl) hu
  -- then on the recovering machine, which has the same bindings
  have hans : SameAnswers (some fun _ _ => false) host host := ⟨rfl, hrejects, hrejects⟩
  have hinjected : SameUpTo SealsLost (injectWarmKeys rec.warmKeyDelta u).sm
      (injectWarmKeys rec.warmKeyDelta v).buffering.sm :=
    SameUpTo.injectWarmKeys (w := u) hv rec.warmKeyDelta
  have hpast := hsettles.past hv
  obtain ⟨v₁, htrial, hsame⟩ := applyCore_sameUpTo sealClosed_sealsLost hans hrun hinjected hpast
    (injectWarmKeys rec.warmKeyDelta v).buffering_buffers
  rw [hsm'] at hsame
  -- and at last with its writes made at once
  have htaken' : DrainTaken host rec.diff.nonce rec.diff.txs
      (injectWarmKeys rec.warmKeyDelta v).sm := by
    obtain ⟨_, -, hsm⟩ := hv
    unfold injectWarmKeys
    rw [hsm]
    exact htaken
  exact ⟨v₁.direct host, applyCore_of_trial hidle htaken' htrial, hsame, rfl⟩

/-- **A replay of stored records** gives every stored hash and the machine of the
session. -/
theorem replayRecords_trail (hrejects : host.warmResolver = some fun _ _ _ => false)
    (h : Trail host.recoverAddress B₀ user sm entries) (htaken : DrainsTaken host sm entries)
    (hv : SameUpTo SealsLost sm v.sm) (hidle : v.obsDeferred = none) :
    ∃ v', replayRecords host (entries.map Prod.fst) v
        = some ((entries.map Prod.fst).map DiffRecord.stateHash, v') ∧
      SameUpTo SealsLost (machineAt sm entries entries.length) v'.sm := by
  induction entries generalizing sm v with
  | nil => exact ⟨v, rfl, hv⟩
  | cons e rest ih =>
    obtain ⟨rec, _⟩ := e
    obtain ⟨hsettles, hrec, hrest⟩ := h
    obtain ⟨v₁, hrun, hv₁, hidle₁⟩ := hrec.replay hrejects hsettles htaken.1 hv hidle
    obtain ⟨v', hreplay, hsame⟩ := ih hrest htaken.2 hv₁ hidle₁
    refine ⟨v', ?_, hsame⟩
    rw [map_cons, replayRecords, hrun]
    dsimp only
    rw [if_neg fun hne => hne.2.2 rfl, hreplay]
    rfl

end

theorem SameAnswers.symm {answers : Option (Address → Address → Bool)}
    (h : SameAnswers answers env host) : SameAnswers answers host env :=
  ⟨h.recoverAddress.symm, h.right, h.left⟩

theorem SameUpTo.symm {S : OrdMap ℕ ℕ → OrdMap ℕ ℕ → Prop} {sm sm' : StateMachine}
    (h : SameUpTo S sm sm') : SameUpTo (Function.swap S) sm' sm := by
  obtain ⟨_, hseals, rfl⟩ := h
  exact ⟨sm.sealedNonces, hseals, rfl⟩

section
variable {answers : Option (Address → Address → Bool)}

theorem SameUpTo.verifyDiffUserSig {S : OrdMap ℕ ℕ → OrdMap ℕ ℕ → Prop} {sm sm' : StateMachine}
    (hrec : host.recoverAddress = env.recoverAddress) (h : SameUpTo S sm sm') (diff : Diff) :
    Devshard.verifyDiffUserSig host diff sm' = Devshard.verifyDiffUserSig env diff sm := by
  obtain ⟨_, -, rfl⟩ := h
  exact verifyDiffUserSig_congr hrec rfl rfl

theorem validateDiff_sameUpTo {S : OrdMap ℕ ℕ → OrdMap ℕ ℕ → Prop} (hS : SealClosed S)
    (hans : SameAnswers answers env host) (h : SameUpTo S w.sm v.sm)
    (hpast : ∀ id, v.sm.sealedNonces.get? id ≠ none → id ≤ v.sm.latestNonce) {diff : Diff}
    (hvalid : validateDiff env diff w = .ok vd w') :
    ∃ vd' v', validateDiff host diff v = .ok vd' v' ∧ vd'.root = vd.root ∧
      SameUpTo S (commitValidated env vd w').2.sm (commitValidated host vd' v').2.sm := by
  obtain ⟨hsig, -, _, hrun, -, hcommit⟩ := validateDiff_ok hvalid
  obtain ⟨_, hrun', _⟩ := applyCore_sameUpTo hS hans hrun
    (show SameUpTo S w.buffering.sm v.buffering.sm from h) hpast v.buffering_buffers
  have hsig' : Devshard.verifyDiffUserSig host diff v.sm = .ok () :=
    (h.verifyDiffUserSig hans.recoverAddress diff).trans hsig
  obtain ⟨vd', v', hvalid', hroot⟩ := validateDiff_isOk hsig' hrun'
  obtain ⟨-, -, _, hrun₃, -, hcommit'⟩ := validateDiff_ok hvalid'
  rw [hrun'] at hrun₃
  injection hrun₃ with _ hworld
  subst hworld
  exact ⟨vd', v', hvalid', hroot, by rwa [hcommit, hcommit']⟩

/-- **Lost seal nonces do not show**: the two machines accept the same diffs with
the same roots, for ever after. -/
theorem responses_sameUpTo (hans : SameAnswers answers env host) (hsettles : Settles B₀ user w.sm)
    (h : SameUpTo SealsLost w.sm v.sm) (diffs : List Diff) :
    responses host diffs v = responses env diffs w := by
  induction diffs generalizing w v with
  | nil => rfl
  | cons diff _ ih =>
    unfold responses
    have hpast := hsettles.past h
    have hpast' : ∀ id, w.sm.sealedNonces.get? id ≠ none → id ≤ w.sm.latestNonce :=
      fun _ => hsettles.sealed_le
    cases hvalid : validateDiff env diff w with
    | ok vd w₁ =>
      obtain ⟨_, _, hvalid', hroot, hsame⟩ :=
        validateDiff_sameUpTo sealClosed_sealsLost hans h hpast hvalid
      obtain ⟨-, -, _, hrun, -, hcommit⟩ := validateDiff_ok hvalid
      have hsettles' : Settles B₀ user (commitValidated env vd w₁).2.sm := by
        rw [hcommit]
        exact Settles.applyCore (w := w.buffering) hsettles hrun
      rw [hvalid']
      dsimp only
      rw [hroot, ih hsettles' hsame]
    | error =>
      cases hvalid' : validateDiff host diff v with
      | ok =>
        -- what the other machine accepts, this one would too
        obtain ⟨_, _, hvalid₂, -, -⟩ := validateDiff_sameUpTo
          (sealClosed_swap sealClosed_sealsLost) hans.symm h.symm hpast' hvalid'
        rw [hvalid] at hvalid₂
        cases hvalid₂
      | error =>
        have hw := validateDiff_error hvalid
        have hv := validateDiff_error hvalid'
        dsimp only
        rw [ih (hw ▸ hsettles) (by rwa [hw, hv])]

end

/-! ### Recovery equals the run -/

section
variable {escrowID : Bytes} {config : SessionConfig} {group : List SlotAssignment}
  {balance : UInt64} {userAddress : Address} {version : Bytes} {sm₀ : StateMachine}

theorem newStateMachine_settles (hg : validateGroup group)
    (h : newStateMachine escrowID config group balance userAddress version = .ok sm₀) :
    Settles balance.toNat sm₀.userAddress sm₀ :=
  ⟨⟨[], newStateMachine_rests hg h⟩, rfl⟩

/-- The log of a run is a trail that ends at the machine of the session. -/
structure SessionLog.Sound (recoverAddress : Bytes → Bytes → Option Address) (B₀ : ℕ)
    (sm₀ : StateMachine) (s : SessionLog) : Prop where
  trail : Trail recoverAddress B₀ sm₀.userAddress sm₀ s.entries
  machine : machineAt sm₀ s.entries s.entries.length = s.world.sm

variable {recoverAddress : Bytes → Bytes → Option Address} {s : SessionLog}

theorem SessionLog.Sound.settles
    (h : s.Sound recoverAddress B₀ sm₀) : Settles B₀ sm₀.userAddress s.world.sm := by
  rw [← h.machine]
  exact (h.trail.drop (Nat.le_refl _)).settles

theorem SessionLog.Sound.store (h : s.Sound recoverAddress B₀ sm₀) (stored : Bool)
    (diff : ValidatedDiff → Diff) {o : Outcome ValidatedDiff}
    (herror : ∀ {e w'}, o = .error e w' → w'.sm = s.world.sm)
    (hok : ∀ {vd w'}, o = .ok vd w' → w'.sm = s.world.sm ∧
      Reproduces recoverAddress (vd.record (diff vd) s.world.sm) s.world.sm
        (commitValidated env vd w').2.sm ∧
      Settles B₀ sm₀.userAddress (commitValidated env vd w').2.sm) :
    (s.store env stored diff o).Sound recoverAddress B₀ sm₀ := by
  cases o with
  | error => exact ⟨h.trail, h.machine.trans (herror rfl).symm⟩
  | ok =>
    obtain ⟨hsm, hrec, hsettles⟩ := hok rfl
    cases stored with
    | true =>
      refine ⟨h.trail.append (by rw [h.machine]; exact hrec) hsettles, ?_⟩
      show machineAt sm₀ (s.entries ++ [_]) (s.entries ++ [_]).length = _
      rw [length_append]
      exact machineAt_length_append
    | false => exact ⟨h.trail, h.machine.trans hsm.symm⟩

include hnamed in
theorem SessionLog.step_sound (h : s.Sound env.recoverAddress B₀ sm₀) (op : SessionOp) :
    (s.step env op).Sound env.recoverAddress B₀ sm₀ := by
  have hsettles := h.settles
  cases op with
  | takeDiff _ stored =>
    refine h.store stored _ validateDiff_error fun {vd w'} hvalid => ?_
    obtain ⟨-, hsm, _, hrun, -, hcommit⟩ := validateDiff_ok hvalid
    refine ⟨hsm, reproduces_validateDiff hnamed hvalid, ?_⟩
    rw [hcommit]
    exact Settles.applyCore (w := s.world.buffering) hsettles hrun
  | composeDiff _ _ _ stored =>
    refine h.store stored _ previewLocalBestEffort_error fun {vd w'} hpreview => ?_
    obtain ⟨hsm, _, hrun, -, hcommit⟩ := previewLocalBestEffort_ok hpreview
    refine ⟨hsm, reproduces_preview hnamed hsettles.liveWritable hpreview, ?_⟩
    rw [hcommit]
    exact Settles.localBestEffort (w := s.world.buffering) hsettles hrun

include hnamed in
theorem SessionLog.run_trail (h : s.Sound env.recoverAddress B₀ sm₀) (ops : List SessionOp) :
    (s.run env ops).Sound env.recoverAddress B₀ sm₀ := by
  induction ops generalizing s with
  | nil => exact h
  | cons op _ ih => exact ih (SessionLog.step_sound hnamed h op)

/-- The snapshot of nonce `k`, as a session stores it. -/
def SessionLog.snapshot (sm₀ : StateMachine) (s : SessionLog) (k : ℕ) : ℕ × StateSnapshotProto :=
  (k, (machineAt sm₀ s.entries k).exportSnapshot)

theorem startingPoint_spec (h : s.Sound recoverAddress B₀ sm₀) (hsealed : sm₀.sealedNonces = ∅)
    (snapshot : Option ℕ) (hk : ∀ k ∈ snapshot, k ≤ s.entries.length) (opts : RestoreOptions) :
    ∃ sm, startingPoint sm₀ s.entries.length (snapshot.map (s.snapshot sm₀)) opts
        = (sm, snapshot.getD 0 + 1) ∧
      SameUpTo SealsLost (machineAt sm₀ s.entries (snapshot.getD 0)) sm := by
  have hfresh : SameUpTo SealsLost sm₀ sm₀ := ⟨sm₀.sealedNonces, fun _ h => h, rfl⟩
  cases snapshot with
  | none => exact ⟨sm₀, rfl, by rwa [Option.getD_none, machineAt_zero]⟩
  | some k =>
    have hle : k ≤ s.entries.length := hk k rfl
    cases k with
    | zero => exact ⟨sm₀, rfl, by rwa [Option.getD_some, machineAt_zero]⟩
    | succ k =>
      have hsettles := (h.trail.drop hle).settles
      obtain ⟨_, hrests⟩ := hsettles.rests
      obtain ⟨sm, hrestore, hsame⟩ := restoreSnapshot_sameUpTo hrests.sound.consistent
        hsettles.user.symm hsealed opts
      refine ⟨sm, ?_, hsame⟩
      show (if 0 < k + 1 ∧ k + 1 ≤ s.entries.length then
        match restoreSnapshot sm₀ (machineAt sm₀ s.entries (k + 1)).exportSnapshot opts with
        | none => (sm₀, 1)
        | some sm => (sm, k + 1 + 1)
        else (sm₀, 1)) = (sm, k + 1 + 1)
      rw [if_pos ⟨Nat.succ_pos k, hle⟩, show restoreSnapshot sm₀ _ opts = some sm from hrestore]

theorem startingPoint_zero (fresh : StateMachine) (snapshot : Option (ℕ × StateSnapshotProto))
    (opts : RestoreOptions) : startingPoint fresh 0 snapshot opts = (fresh, 1) := by
  unfold startingPoint
  split
  · rfl
  · rw [if_neg]
    omega

theorem recoverSession_eq (host : Env) (h : s.Sound recoverAddress B₀ sm₀)
    (hzero : sm₀.latestNonce = 0) {saved : Option (ℕ × StateSnapshotProto)} {opts : RestoreOptions}
    {sm : StateMachine} {k : ℕ} (hk : k ≤ s.entries.length)
    (hstart : startingPoint sm₀ s.entries.length saved opts = (sm, k + 1)) :
    recoverSession host sm₀ s.entries.length saved opts s.records
      = replayRecords host ((s.entries.drop k).map Prod.fst) { sm } := by
  have hstored := h.trail.storedFrom hk
  have hrange := (h.trail.drop hk).validateDiffRange
  rw [h.trail.latestNonce hk, length_drop] at hrange
  rw [hzero, Nat.zero_add, Nat.zero_add] at hstored
  rw [hzero, Nat.zero_add, Nat.add_sub_cancel' hk] at hrange
  unfold recoverSession
  split
  · -- nothing is stored: the fresh machine
    next hnone =>
    rw [hnone, startingPoint_zero] at hstart
    obtain ⟨rfl, _⟩ := Prod.mk.inj hstart
    rw [eq_nil_of_length_eq_zero hnone, drop_nil]
    rfl
  · rw [hstart]
    dsimp only
    split
    · -- the snapshot is of the last nonce
      next hlast =>
      rw [drop_eq_nil_of_le (Nat.lt_succ_iff.mp hlast)]
      rfl
    · show (if validateDiffRange (storedFrom s.records (k + 1) s.entries.length) (k + 1)
        s.entries.length = true then _ else _) = _
      rw [show storedFrom s.records (k + 1) s.entries.length = _ from hstored, if_pos hrange]

/-- `recovered` has the stored hashes after nonce `k`, and a machine that from then on
accepts the same diffs with the same roots as the session does. -/
def SessionLog.ContinuesAs (s : SessionLog) (k : ℕ) (recovered : Option (List Bytes × World)) :
    Prop :=
  ∃ v, recovered = some ((s.records.drop k).map DiffRecord.stateHash, v) ∧
    ∀ {answers : Option (Address → Address → Bool)} {env host : Env}, SameAnswers answers env host →
      ∀ diffs, responses host diffs v = responses env diffs s.world

/-- **Recovery equals the original run.**  After every run of a session a recovery from
nothing or from the snapshot of any nonce, with a resolver that rejects every key,
computes the stored hash at every nonce and gives a machine that goes on as the one
that never restarted, when the store takes the rows of the inferences that the session
drained after that nonce. -/
theorem recovery_equals_run (env host : Env) (hg : validateGroup group)
    (hnew : newStateMachine escrowID config group balance userAddress version = .ok sm₀)
    (hnamed : ∀ data sig addr, env.recoverAddress data sig = some addr → addr ≠ [])
    (hrec : host.recoverAddress = env.recoverAddress)
    (hrejects : host.warmResolver = some fun _ _ _ => false) (ops : List SessionOp)
    (snapshot : Option ℕ) (opts : RestoreOptions) :
    let s := (SessionLog.new sm₀).run env ops
    let k := snapshot.getD 0
    k ≤ s.records.length → DrainsTaken host (machineAt sm₀ s.entries k) (s.entries.drop k) →
      s.ContinuesAs k (recoverSession host sm₀ s.records.length (snapshot.map (s.snapshot sm₀)) opts
        s.records) := by
  intro s k hk htaken
  obtain ⟨-, -, hzero, -, -, hsealed, -⟩ := newStateMachine_ok hnew
  have hfresh : (SessionLog.new sm₀).Sound env.recoverAddress balance.toNat sm₀ :=
    ⟨newStateMachine_settles hg hnew, machineAt_zero⟩
  have hsound : s.Sound env.recoverAddress balance.toNat sm₀ :=
    SessionLog.run_trail hnamed hfresh ops
  have hlen : s.records.length = s.entries.length := List.length_map ..
  rw [hlen] at hk ⊢
  have hsaved : ∀ k' ∈ snapshot, k' ≤ s.entries.length := by
    rintro k' hk'
    rwa [show k = k' by rw [show k = snapshot.getD 0 from rfl, hk']; rfl] at hk
  obtain ⟨sm, hstart, hsame⟩ := startingPoint_spec hsound hsealed snapshot hsaved opts
  have htrail := hsound.trail.drop hk
  rw [← hrec] at htrail
  obtain ⟨v, hreplay, hv⟩ := replayRecords_trail hrejects htrail htaken (v := { sm }) hsame rfl
  refine ⟨v, ?_, fun hans diffs => ?_⟩
  · rw [recoverSession_eq host hsound hzero hk hstart, hreplay]
    exact congrArg (fun records => some (records.map DiffRecord.stateHash, v)) List.map_drop
  · rw [(machineAt_drop hk).trans hsound.machine] at hv
    exact responses_sameUpTo hans hsound.settles hv diffs

end

/-- The services of a recovery: no key is granted, and `store` answers the rows. -/
def recoveryEnv (store : List StoreCall → StoreCall → Bool) : Env where
  recoverAddress := namedSigner
  warmResolver := some fun _ _ _ => false
  store := store

/-- An inference is started in the diff that finalizes the round, and drained by the
next diff. -/
def drainedOps : List SessionOp := [.takeDiff startedDiff true, .takeDiff ⟨2, [], [9], []⟩ true]

def drainedLog : SessionLog :=
  (SessionLog.new soloMachine).run (recoveryEnv fun _ _ => true) drainedOps

/-- The recovery writes the row of the drained inference, and goes on as the session. -/
theorem recovery_equals_run_drained :
    drainedLog.records.length = 2 ∧
      drainedLog.ContinuesAs 0 (recoverSession (recoveryEnv fun _ _ => true) soloMachine
        drainedLog.records.length none .stateOnly drainedLog.records) := by
  refine ⟨by decide +kernel, recovery_equals_run (recoveryEnv fun _ _ => true)
    (recoveryEnv fun _ _ => true) (by decide) soloMachine_ok namedSigner_ne_nil rfl rfl drainedOps
    none .stateOnly (Nat.zero_le _) ?_⟩
  generalize (List.drop _ _ : List (DiffRecord × StateMachine)) = entries
  generalize machineAt soloMachine _ _ = sm
  induction entries generalizing sm with
  | nil => trivial
  | cons _ _ ih => exact ⟨fun _ _ _ _ _ _ => rfl, ih _⟩

/-- Whether two diffs are stored and cannot be recovered from by `store`. -/
def SessionLog.stuck (s : SessionLog) (store : List StoreCall → StoreCall → Bool) : Bool :=
  s.records.length == 2 &&
    (recoverSession (recoveryEnv store) soloMachine 2 none .stateOnly s.records).isNone

/-- Both diffs were stored, and a store that refuses the row of the drained inference
stops the recovery. -/
theorem recovery_stops_at_drain :
    drainedLog.records.length = 2 ∧
      recoverSession (recoveryEnv fun _ _ => false) soloMachine 2 none .stateOnly
        drainedLog.records = none := by
  have hstuck : drainedLog.stuck (fun _ _ => false) = true := by decide +kernel
  rw [SessionLog.stuck, Bool.and_eq_true, beq_iff_eq, Option.isNone_iff_eq_none] at hstuck
  exact hstuck

end Devshard
