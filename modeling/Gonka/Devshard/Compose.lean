/-
What the user composes, and what a host makes of it.

The user runs its candidates best-effort and signs the root of the state it ends
in; a host replays the applied ones strictly.  The two machines can drift apart
in one way only: a skipped candidate may have bound a warm key before a later test
refused it; the key stays in the user's state, and the host never sees it.

Main results: `composed_accepted`, `composed_diff_rejected`.
-/
import Gonka.Lib.Along
import Gonka.Devshard.PersistFirst

namespace Devshard

open OrdMap List

variable {env host : Env} {w w' v : World} {calls : List StoreCall}
  {S : OrdMap ℕ ℕ → OrdMap ℕ ℕ → Prop}

/-! ### Closing a nonce on another machine -/

variable {u : Unit} {snap : MutableSnapshot} {slot : ℕ} {cs : List SigCheck}
  {tx : DevshardTx} {f : World → World}

section
variable {w₁ : World} {nonce : ℕ} {root : Bytes} {applied txs : List DevshardTx}

theorem chargeFee_sameUpTo (h : SameUpTo S w.sm v.sm)
    (hfee : chargeFee w = .ok u w₁) : ∃ v₁, chargeFee v = .ok () v₁ ∧ SameUpTo S w₁.sm v₁.sm := by
  obtain ⟨seals, hseals, hsm⟩ := h
  unfold chargeFee at hfee ⊢
  rw [hsm]
  split at hfee
  · next hactive =>
    rw [if_pos hactive]
    split at hfee
    · cases hfee
    next hbalance =>
    cases hfee
    rw [if_neg hbalance]
    refine ⟨_, rfl, seals, hseals, ?_⟩
    simp only [World.subBalance, World.addFees, hsm]
  · next hactive =>
    cases hfee
    rw [if_neg hactive]
    exact ⟨v, rfl, seals, hseals, hsm⟩

theorem advanceNonce_sameUpTo (nonce : ℕ) (h : SameUpTo S w.sm v.sm) :
    SameUpTo S (advanceNonce nonce w).sm (advanceNonce nonce v).sm := by
  obtain ⟨sm, _⟩ := w
  obtain ⟨sm', _⟩ := v
  obtain ⟨seals, hseals, hsm⟩ := h
  obtain rfl : sm' = { sm with sealedNonces := seals } := hsm
  unfold advanceNonce
  dsimp only
  split <;> exact ⟨seals, hseals, rfl⟩

theorem autoSealLoop_sameUpTo (hS : SealClosed S) (env host : Env) (sealNonce : ℕ)
    (entries : List (ℕ × InferenceRecord)) (cur : Bytes) (h : SameUpTo S w.sm v.sm) {acc : Bytes}
    (hloop : autoSealLoop env sealNonce entries cur w = .ok acc w₁) :
    ∃ v₁, autoSealLoop host sealNonce entries cur v = .ok acc v₁ ∧ SameUpTo S w₁.sm v₁.sm := by
  induction entries generalizing cur w v with
  | nil =>
    cases hloop
    exact ⟨v, rfl, h⟩
  | cons e _ ih =>
    obtain ⟨id, r⟩ := e
    unfold autoSealLoop at hloop ⊢
    cases hentry : marshalInferenceEntry id r with
    | none => rw [hentry] at hloop; cases hloop
    | some =>
      rw [hentry] at hloop
      exact ih _ (h.evict hS id sealNonce (upsertInferenceObs_sm env id sealNonce r _)
        (upsertInferenceObs_sm host id sealNonce r _)) hloop

theorem sealAtInterval_sameUpTo (hS : SealClosed S) (env host : Env) (nonce : ℕ)
    (h : SameUpTo S w.sm v.sm) (hseal : sealAtInterval env nonce w = .ok u w₁) :
    ∃ v₁, sealAtInterval host nonce v = .ok () v₁ ∧ SameUpTo S w₁.sm v₁.sm := by
  obtain ⟨seals, hseals, hsm⟩ := h
  unfold sealAtInterval autoSeal at hseal ⊢
  rw [hsm]
  split at hseal
  · next hactive =>
    rw [if_pos hactive]
    split at hseal
    · next hempty =>
      cases hseal
      rw [if_pos hempty]
      exact ⟨v, rfl, seals, hseals, hsm⟩
    next hlive =>
    rw [if_neg hlive]
    split at hseal
    · next hclock =>
      cases hseal
      rw [if_pos hclock]
      exact ⟨v, rfl, seals, hseals, hsm⟩
    next hclock =>
    rw [if_neg hclock]
    dsimp only at hseal
    split at hseal
    · next hnone =>
      cases hseal
      rw [if_pos hnone]
      exact ⟨v, rfl, seals, hseals, hsm⟩
    next hsome =>
    rw [if_neg hsome]
    split at hseal
    · cases hseal
    next hrun =>
    cases hseal
    obtain ⟨_, hrun', seals₂, hseals₂, hsm₂⟩ :=
      autoSealLoop_sameUpTo hS env host nonce _ _ ⟨seals, hseals, hsm⟩ hrun
    rw [hrun']
    exact ⟨_, rfl, seals₂, hseals₂, by dsimp only; rw [hsm₂]⟩
  · next hactive =>
    cases hseal
    rw [if_neg hactive]
    exact ⟨v, rfl, seals, hseals, hsm⟩

theorem closeNonce_ok_iff : closeNonce env nonce snap w = .ok root w' ↔
      ∃ w₁ w₂, chargeFee w = .ok () w₁ ∧ enterSettlement env (advanceNonce nonce w₁) = .ok () w₂ ∧
        sealAtInterval env nonce w₂ = .ok () w' ∧
        computeStateRoot w'.sm.toEscrowState = some root := by
  unfold closeNonce
  constructor
  · intro h
    cases hfee : chargeFee w with
    | error => rw [hfee] at h; cases h
    | ok u w₁ =>
      rw [hfee] at h
      dsimp only [orRestore] at h
      cases hdrain : enterSettlement env (advanceNonce nonce w₁) with
      | error => rw [hdrain] at h; cases h
      | ok u w₂ =>
        rw [hdrain] at h
        dsimp only [orRestore] at h
        cases hseal : sealAtInterval env nonce w₂ with
        | error => rw [hseal] at h; cases h
        | ok u w₃ =>
          rw [hseal] at h
          dsimp only [orRestore, stateRoot] at h
          cases hroot : computeStateRoot w₃.sm.toEscrowState with
          | none => rw [hroot] at h; cases h
          | some =>
            rw [hroot] at h
            cases h
            exact ⟨w₁, w₂, rfl, hdrain, hseal, hroot⟩
  · rintro ⟨_, _, hfee, hdrain, hseal, hroot⟩
    simp only [hfee, hdrain, hseal, orRestore, stateRoot, hroot]

/-- A nonce that one machine closes is closed by every buffering machine in the
same state up to the seal nonces, with the same root and the same state after it. -/
theorem closeNonce_sameUpTo (hS : SealClosed S) (host : Env) (snap' : MutableSnapshot)
    (hclose : closeNonce env nonce snap w = .ok root w₁) (hv : v.Buffers calls)
    (h : SameUpTo S w.sm v.sm) :
    ∃ v₁, closeNonce host nonce snap' v = .ok root v₁ ∧ SameUpTo S w₁.sm v₁.sm := by
  obtain ⟨_, _, hfee, hdrain, hseal, hroot⟩ := closeNonce_ok_iff.mp hclose
  obtain ⟨v₂, hfee', h₂⟩ := chargeFee_sameUpTo h hfee
  have hb := (chargeFee_deferrable host v hv).2
  rw [hfee'] at hb
  have hb₂ : v₂.Buffers calls := hb
  obtain ⟨v₃, hdrain', h₃⟩ := enterSettlement_buffered hS host hdrain
    (advanceNonce_buffers nonce hb₂) (advanceNonce_sameUpTo nonce h₂)
  obtain ⟨v₁, hseal', h₁⟩ := sealAtInterval_sameUpTo hS env host nonce h₃ hseal
  refine ⟨v₁, closeNonce_ok_iff.mpr ⟨v₂, v₃, hfee', hdrain', hseal', ?_⟩, h₁⟩
  obtain ⟨_, -, hsm⟩ := h₁
  rw [hsm]
  exact hroot

theorem closeNonce_buffered (host : Env) (snap' : MutableSnapshot)
    (h : closeNonce env nonce snap w = .ok root w₁) (hv : v.Buffers calls) (hsm : v.sm = w.sm) :
    ∃ v₁, closeNonce host nonce snap' v = .ok root v₁ ∧ v₁.sm = w₁.sm := by
  obtain ⟨v₁, hclose, hsame⟩ :=
    closeNonce_sameUpTo sealClosed_eq host snap' h hv (sameUpTo_eq.mpr hsm)
  exact ⟨v₁, hclose, sameUpTo_eq.mp hsame⟩

/-- The group, the warm keys, the nonces and the phase are left alone. -/
structure KeepsKeys (sm sm' : StateMachine) : Prop where
  group : sm'.group = sm.group
  warmKeys : sm'.warmKeys = sm.warmKeys
  latestNonce : sm'.latestNonce = sm.latestNonce
  finalizeNonce : sm'.finalizeNonce = sm.finalizeNonce
  phase : sm'.phase = sm.phase

theorem KeepsKeys.refl (sm : StateMachine) : KeepsKeys sm sm := ⟨rfl, rfl, rfl, rfl, rfl⟩

theorem KeepsKeys.trans {sm sm₁ sm₂ : StateMachine} (h : KeepsKeys sm sm₁)
    (h' : KeepsKeys sm₁ sm₂) : KeepsKeys sm sm₂ :=
  ⟨h'.group.trans h.group, h'.warmKeys.trans h.warmKeys, h'.latestNonce.trans h.latestNonce,
    h'.finalizeNonce.trans h.finalizeNonce, h'.phase.trans h.phase⟩

theorem keptBySeal_keepsKeys (sm : StateMachine) : KeptBySeal (KeepsKeys sm) where
  settle {id r w} h := by
    unfold settleLiveRecord
    split <;> exact h.trans ⟨rfl, rfl, rfl, rfl, rfl⟩
  mark h := h.trans ⟨rfl, rfl, rfl, rfl, rfl⟩
  evict h := h.trans ⟨rfl, rfl, rfl, rfl, rfl⟩
  acc h := h.trans ⟨rfl, rfl, rfl, rfl, rfl⟩

def phaseAfterDeadline (sm : StateMachine) : SessionPhase :=
  if sm.phase = .finalizing ∧ deadlinePassed sm then .settlement else sm.phase

theorem enterSettlement_keepsKeys (h : enterSettlement env w = .ok u w₁) :
    KeepsKeys { w.sm with phase := phaseAfterDeadline w.sm } w₁.sm := by
  unfold enterSettlement at h
  unfold phaseAfterDeadline
  split at h
  · next hpassed =>
    rw [if_pos hpassed]
    have hkeys := (keptBySeal_keepsKeys { w.sm with phase := .settlement }).drainLiveIntoSealedAcc
      (w := { w with sm.phase := .settlement }) env w.sm.latestNonce (.refl _)
    rw [h] at hkeys
    exact hkeys
  · next hnot =>
    rw [if_neg hnot]
    cases h
    exact .refl _

theorem sealAtInterval_keepsKeys
    (h : sealAtInterval env nonce w = .ok u w₁) : KeepsKeys w.sm w₁.sm := by
  have hkeys := (keptBySeal_keepsKeys w.sm).sealAtInterval env nonce (.refl _)
  rw [h] at hkeys
  exact hkeys

theorem chargeFee_keepsKeys (h : chargeFee w = .ok u w₁) : KeepsKeys w.sm w₁.sm := by
  unfold chargeFee at h
  split at h
  · split at h
    · cases h
    · cases h
      exact ⟨rfl, rfl, rfl, rfl, rfl⟩
  · cases h
    exact .refl _

/-- Closing a nonce, as far as the warm keys, the nonces and the phase go: the nonce
is advanced, and the deadline checked. -/
theorem closeNonce_keepsKeys (h : closeNonce env nonce snap w = .ok root w₁) :
    ∃ w₂, KeepsKeys w.sm w₂.sm ∧
      KeepsKeys { (advanceNonce nonce w₂).sm with
        phase := phaseAfterDeadline (advanceNonce nonce w₂).sm } w₁.sm := by
  obtain ⟨w₂, _, hfee, hdrain, hseal, -⟩ := closeNonce_ok_iff.mp h
  exact ⟨w₂, chargeFee_keepsKeys hfee,
    (enterSettlement_keepsKeys hdrain).trans (sealAtInterval_keepsKeys hseal)⟩

theorem closeNonce_keys (h : closeNonce env nonce snap w = .ok root w₁) :
    w₁.sm.warmKeys = w.sm.warmKeys ∧ w₁.sm.latestNonce = nonce := by
  obtain ⟨w₂, hfee, hclosed⟩ := closeNonce_keepsKeys h
  obtain ⟨_, hadvance⟩ := advanceNonce_eq nonce w₂
  constructor
  · calc w₁.sm.warmKeys = (advanceNonce nonce w₂).sm.warmKeys := hclosed.warmKeys
      _ = w₂.sm.warmKeys := by rw [hadvance]
      _ = w.sm.warmKeys := hfee.warmKeys
  · calc w₁.sm.latestNonce = (advanceNonce nonce w₂).sm.latestNonce := hclosed.latestNonce
      _ = nonce := by rw [hadvance]

/-- The two environments recover the same signers, and their resolvers give the
same answers: those of `answers`, if there is a resolver at all. -/
structure SameAnswers (answers : Option (Address → Address → Bool)) (env host : Env) : Prop where
  recoverAddress : host.recoverAddress = env.recoverAddress
  left : env.warmResolver = answers.map fun f _ => f
  right : host.warmResolver = answers.map fun f _ => f

variable {answers : Option (Address → Address → Bool)}

theorem resolveWarmKey_true_iff (hres : env.warmResolver = answers.map fun f _ => f)
    {recovered expected : Address} :
    resolveWarmKey env slot recovered expected w = (true, w₁) ↔
      (w.sm.warmKeys.get? slot = some recovered ∧ w₁ = w) ∨
      (w.sm.warmKeys.get? slot = none ∧ (∃ f, answers = some f ∧ f recovered expected = true) ∧
        w₁ = { w with
          sm.warmKeys := w.sm.warmKeys.insert slot recovered
          warmQueries := w.warmQueries ++ [(recovered, expected)] }) := by
  unfold resolveWarmKey
  rw [hres]
  cases hkey : w.sm.warmKeys.get? slot with
  | some => simp [eq_comm (b := w₁)]
  | none =>
    cases answers with
    | none => simp
    | some f =>
      cases hgrant : f recovered expected with
      | true => simp [hgrant, eq_comm (b := w₁)]
      | false => simp [hgrant]

section
variable (hans : SameAnswers answers env host) {seals : OrdMap ℕ ℕ}
  (hv : v.sm = { w.sm with sealedNonces := seals })
include hans hv

theorem SigCheck.run_sealedNonces {c : SigCheck} (h : c.run env w = (true, w₁)) :
    ∃ v₁, c.run host v = (true, v₁) ∧ v₁.sm = { w₁.sm with sealedNonces := seals } := by
  have haddr : v.sm.slotAddress c.slot = w.sm.slotAddress c.slot := by rw [hv]
  have hkeys : v.sm.warmKeys = w.sm.warmKeys := by rw [hv]
  unfold SigCheck.run acceptSigner at h ⊢
  rw [haddr]
  split at h
  · next hwarm =>
    rw [if_pos hwarm]
    rcases (resolveWarmKey_true_iff hans.left).mp h with ⟨hbound, rfl⟩ | ⟨hnone, hgranted, rfl⟩
    · exact ⟨v, (resolveWarmKey_true_iff hans.right).mpr (.inl ⟨hkeys ▸ hbound, rfl⟩), hv⟩
    refine ⟨_, (resolveWarmKey_true_iff hans.right).mpr (.inr ⟨hkeys ▸ hnone, hgranted, rfl⟩), ?_⟩
    rw [hv]
  · next hcold =>
    cases h
    rw [if_neg hcold]
    exact ⟨v, rfl, hv⟩

theorem runChecks_sealedNonces {cs : List SigCheck} (h : runChecks env cs w = some w₁) :
    ∃ v₁, runChecks host cs v = some v₁ ∧ v₁.sm = { w₁.sm with sealedNonces := seals } := by
  induction cs generalizing w v with
  | nil =>
    cases h
    exact ⟨v, rfl, hv⟩
  | cons c _ ih =>
    unfold runChecks at h ⊢
    cases hc : c.run env w with
    | mk passed =>
      rw [hc] at h
      cases passed with
      | false => cases h
      | true =>
        obtain ⟨_, hc', hv₂⟩ := SigCheck.run_sealedNonces hans hv hc
        rw [hc']
        exact ih hv₂ h

end

/-! ### Applied transactions -/

theorem timeoutChecks_mirror (hrec : host.recoverAddress = env.recoverAddress) (sm : StateMachine)
    (id : ℕ) (reason : TimeoutReason) (votes : List TimeoutVote) (seen : List Address)
    (n : UInt32) :
    timeoutChecks host sm id reason votes seen n = timeoutChecks env sm id reason votes seen n := by
  induction votes generalizing seen n with
  | nil => rfl
  | cons _ _ ih => simp only [timeoutChecks, ih, hrec]

/-- The effect `g` does to a machine what `f` does, whatever its warm keys and seal
nonces, which both leave alone. -/
def MirrorsEffect (f g : World → World) : Prop :=
  ∀ w v : World, v.sm = { w.sm with warmKeys := v.sm.warmKeys, sealedNonces := v.sm.sealedNonces } →
    (g v).sm = { (f w).sm with warmKeys := v.sm.warmKeys, sealedNonces := v.sm.sealedNonces } ∧
      (f w).sm.warmKeys = w.sm.warmKeys ∧ (f w).sm.sealedNonces = w.sm.sealedNonces

theorem TxStep.mirror {sm : StateMachine} (hrec : host.recoverAddress = env.recoverAddress)
    (h : TxStep env sm tx cs f) : ∃ g, TxStep host sm tx cs g ∧ MirrorsEffect f g := by
  have hsigned : ∀ {msg sig slot recovered}, ProposerSigned env sm msg sig slot recovered →
      ProposerSigned host sm msg sig slot recovered := by
    intro msg sig slot recovered hs
    unfold ProposerSigned at hs ⊢
    rwa [hrec]
  suffices hstep : ∃ g, TxStep host sm tx cs g ∧ ∀ w, (g w).sm = (f w).sm by
    obtain ⟨g, hg, hsame⟩ := hstep
    obtain ⟨e, -, heffect⟩ := h.edit
    refine ⟨g, hg, fun w v hv => ?_⟩
    rw [hsame, heffect, heffect, hv]
    exact ⟨rfl, rfl, rfl⟩
  cases h with
  | start hphase hnew hcost hbalance hentry =>
    exact ⟨_, .start hphase hnew hcost hbalance hentry, fun w => rfl⟩
  | confirm hlive hstatus hdata hsigner hrecord hentry =>
    exact ⟨_, .confirm hlive hstatus hdata (hrec ▸ hsigner) hrecord hentry, fun w => rfl⟩
  | finish hlive hstatus hslot hsigner hescrow hcost hrecord hentry =>
    exact ⟨_, .finish hlive hstatus hslot (hsigned hsigner) hescrow hcost hrecord hentry,
      fun w => rfl⟩
  | validationDuplicate hlive hslot hself hseen =>
    exact ⟨_, .validationDuplicate hlive hslot hself hseen, fun w => rfl⟩
  | validation hlive hslot hself hnew hstatus hsigner hescrow hrecord hentry =>
    refine ⟨_, .validation hlive hslot hself hnew hstatus (hsigned hsigner) hescrow hrecord hentry,
      fun w => ?_⟩
    split
    · simp only [World.putEntry, persistLiveInferenceObsBestEffort_sm]
    · rfl
  | voteResolved hlive hslot hstatus =>
    exact ⟨_, .voteResolved hlive hslot hstatus, fun w => rfl⟩
  | vote hlive hslot hstatus hnew hsigner hescrow hcounted hrecord hentry =>
    refine ⟨_, .vote hlive hslot hstatus hnew (hsigned hsigner) hescrow hcounted hrecord hentry,
      fun w => ?_⟩
    split_ifs
    · simp only [World.putEntry, persistLiveInferenceObsBestEffort_sm]
    · simp only [World.putEntry, persistLiveInferenceObsBestEffort_sm]
    · rfl
  | timeout hlive hreason hvotes hquorum hrecord hentry =>
    exact ⟨_, .timeout hlive hreason ((timeoutChecks_mirror hrec ..).trans hvotes) hquorum hrecord
      hentry, fun w => rfl⟩
  | revealSeed => exact ⟨_, .revealSeed, fun w => rfl⟩
  | finalizeRound hphase => exact ⟨_, .finalizeRound hphase, fun w => rfl⟩

/-- A transaction does not see the seal nonces, but for the id of a start. -/
theorem applyTx_sealedNonces {seals : OrdMap ℕ ℕ} (hans : SameAnswers answers env host)
    (hv : v.sm = { w.sm with sealedNonces := seals })
    (hnew : ∀ msg, tx = .startInference msg → w.sm.sealedNonces.get? msg.inferenceId = none →
      seals.get? msg.inferenceId = none) (h : applyTx env tx w = .ok () w') :
    ∃ v', applyTx host tx v = .ok () v' ∧ v'.sm = { w'.sm with sealedNonces := seals } ∧
      w'.sm.sealedNonces = w.sm.sealedNonces := by
  obtain ⟨cs, f, w₂, hstep, hchecks, rfl⟩ := applyTx_ok_iff.mp h
  obtain ⟨v₂, hchecks', hv₂⟩ := runChecks_sealedNonces hans hv hchecks
  have hstep' : TxStep env { w.sm with sealedNonces := seals } tx cs f := by
    refine hstep.congr w.sm.warmKeys fun msg htx hdup => ?_
    simp only [StateMachine.isDuplicateInferenceID, Bool.or_eq_false_iff, Option.isSome_eq_false_iff,
      Option.isNone_iff_eq_none] at hdup ⊢
    exact ⟨hdup.1, hnew msg htx hdup.2⟩
  rw [← hv] at hstep'
  obtain ⟨g, hstep', hmirror⟩ := hstep'.mirror hans.recoverAddress
  obtain ⟨hsame, hkeys, hseals⟩ := hmirror w₂ v₂ (by rw [hv₂])
  refine ⟨g v₂, hstep'.applyTx_eq hchecks', hsame.trans ?_, hseals.trans ?_⟩
  · rw [hv₂, ← hkeys]
  · rw [(runChecks_growth hchecks).same]

theorem applyTx_same (hans : SameAnswers answers env host) (hv : v.sm = w.sm)
    (h : applyTx env tx w = .ok () w') : ∃ v', applyTx host tx v = .ok () v' ∧ v'.sm = w'.sm := by
  have hsame : v.sm = { w.sm with sealedNonces := w.sm.sealedNonces } := hv
  obtain ⟨v', hrun, hv', hkept⟩ := applyTx_sealedNonces hans hsame (fun _ _ hnone => hnone) h
  rw [← hkept] at hv'
  exact ⟨v', hrun, hv'⟩

/-! ### Candidates that leave no trace -/

def Env.grants (env : Env) (warm cold : Address) : Bool :=
  env.warmResolver.elim false fun resolver => resolver [] warm cold

/-- The check binds its slot to a key that the resolver grants. -/
def SigCheck.binds (env : Env) (sm : StateMachine) (c : SigCheck) : Bool :=
  decide (c.recovered ≠ sm.slotAddress c.slot) && (sm.warmKeys.get? c.slot).isNone &&
    env.grants c.recovered (sm.slotAddress c.slot)

def SigCheck.passes (env : Env) (sm : StateMachine) (c : SigCheck) : Bool :=
  decide (c.recovered = sm.slotAddress c.slot) || decide (sm.warmKeys.get? c.slot = some c.recovered) ||
    c.binds env sm

/-- The check of a proposer signature, if it comes to one. -/
def proposerChecks (env : Env) (sm : StateMachine) (msgWithoutSig : Option Bytes) (sig : Bytes)
    (slot : ℕ) : List SigCheck :=
  match msgWithoutSig.bind (env.recoverAddress · sig) with
  | none => []
  | some recovered =>
    if slot = maxUint32 ∧ recovered ≠ sm.slotAddress slot then [] else [⟨slot, recovered⟩]

local instance votes_lawfulBEq : LawfulBEq (List UInt8) := inferInstance

/-- The checks of the votes, up to the first vote that is refused for another reason. -/
def timeoutSigners (env : Env) (sm : StateMachine) (id : ℕ) (reason : TimeoutReason) :
    List TimeoutVote → List Address → List SigCheck
  | [], _ => []
  | vote :: votes, seenAddrs =>
    match sm.slotToAddress.get? vote.voterSlot with
    | none => []
    | some voterAddr =>
      if voterAddr ∈ seenAddrs then []
      else
        match (timeoutVoteContent sm.escrowID id reason vote.accept).bind
            (env.recoverAddress · vote.signature) with
        | none => []
        | some recovered =>
          ⟨vote.voterSlot, recovered⟩ :: timeoutSigners env sm id reason votes (voterAddr :: seenAddrs)

/-- The signature checks that the candidate comes to and that other tests follow: a
confirmation has its signature checked last. -/
def checksBeforeTests (env : Env) (sm : StateMachine) : DevshardTx → List SigCheck
  | .finishInference msg =>
    match sm.inferences.get? msg.inferenceId with
    | none => []
    | some r =>
      if r.status = .started ∧ msg.executorSlot = r.executorSlot then
        proposerChecks env sm { msg with proposerSig := [] }.marshal msg.proposerSig r.executorSlot
      else []
  | .validation msg =>
    match sm.inferences.get? msg.inferenceId with
    | none => []
    | some r =>
      if (sm.slotToAddress.get? msg.validatorSlot).isSome ∧ msg.validatorSlot ≠ r.executorSlot ∧
          addressHasValidated sm r msg.validatorSlot = none ∧
          (r.status = .finished ∨ r.status = .challenged ∨ r.status = .validated
            ∨ r.status = .invalidated) then
        proposerChecks env sm { msg with proposerSig := [] }.marshal msg.proposerSig msg.validatorSlot
      else []
  | .validationVote msg =>
    match sm.inferences.get? msg.inferenceId with
    | none => []
    | some r =>
      if (sm.slotToAddress.get? msg.voterSlot).isSome ∧ r.status = .challenged ∧
          addressHasValidated sm r msg.voterSlot = none then
        proposerChecks env sm { msg with proposerSig := [] }.marshal msg.proposerSig msg.voterSlot
      else []
  | .timeoutInference msg =>
    match sm.inferences.get? msg.inferenceId with
    | none => []
    | some r =>
      if msg.reason.requires = some r.status then
        timeoutSigners env sm msg.inferenceId msg.reason msg.votes []
      else []
  | _ => []

/-- The tests that come after the signature checks: the escrow id, the cost, and the
quorum of a timeout with all its votes in order. -/
def testsAfterChecks (env : Env) (sm : StateMachine) : DevshardTx → Bool
  | .finishInference msg => decide (msg.escrowId = sm.escrowID) &&
      (tokenCost msg.inputTokens msg.outputTokens sm.config.tokenPrice).isSome
  | .validation msg => decide (msg.escrowId = sm.escrowID)
  | .validationVote msg => decide (msg.escrowId = sm.escrowID)
  | .timeoutInference msg =>
    match timeoutChecks env sm msg.inferenceId msg.reason msg.votes [] 0 with
    | none => false
    | some (checks, acceptCount) =>
      (runChecks env checks { sm }).isSome && decide (sm.config.voteThreshold < acceptCount)
  | _ => true

/-- The candidate binds a key by one of its checks and is refused by a later test. -/
def leavesBinding (env : Env) (sm : StateMachine) (tx : DevshardTx) : Bool :=
  (((checksBeforeTests env sm tx).takeWhile (SigCheck.passes env sm)).any (SigCheck.binds env sm)) &&
    !testsAfterChecks env sm tx

/-- The machine after a candidate, applied or skipped. -/
def tryTx (env : Env) (tx : DevshardTx) (sm : StateMachine) : StateMachine :=
  (applyTx env tx { sm }).world.sm

section
variable (hres : env.warmResolver = answers.map fun f _ => f)
include hres

theorem SigCheck.run_eq (c : SigCheck) (w : World) :
    (c.run env w).1 = c.passes env w.sm ∧
      (c.binds env w.sm = false → (c.run env w).2.sm = w.sm) := by
  unfold SigCheck.run acceptSigner resolveWarmKey SigCheck.passes SigCheck.binds Env.grants
  rw [hres]
  by_cases hcold : c.recovered = w.sm.slotAddress c.slot
  · simp [hcold]
  cases hkey : w.sm.warmKeys.get? c.slot with
  | some key => simp [hcold, Bool.beq_eq_decide_eq]
  | none =>
    cases answers with
    | none => simp [hcold]
    | some f =>
      cases hgrant : f c.recovered (w.sm.slotAddress c.slot) <;> simp [hcold, hgrant]

/-- A failed check binds nothing. -/
theorem SigCheck.run_false {c : SigCheck} (h : c.run env w = (false, w₁)) : w₁.sm = w.sm := by
  obtain ⟨hpasses, hquiet⟩ := c.run_eq hres w
  rw [h] at hpasses hquiet
  refine hquiet ?_
  have hfails : c.passes env w.sm = false := hpasses.symm
  unfold SigCheck.passes at hfails
  simp only [Bool.or_eq_false_iff] at hfails
  exact hfails.2

theorem verifyProposerSig_error {msg : Option Bytes} {sig : Bytes} {e : Err}
    (h : verifyProposerSig env msg sig (w.sm.slotAddress slot) slot w = .error e w₁) :
    w₁.sm = w.sm := by
  unfold verifyProposerSig at h
  split at h
  · cases h; rfl
  split at h
  · cases h; rfl
  next recovered _ =>
  split at h
  · next hwarm =>
    split at h
    · cases h; rfl
    split at h
    · cases h
    · next hfails =>
      cases h
      exact SigCheck.run_false hres (c := ⟨slot, recovered⟩) ((if_pos hwarm).trans hfails)
  · cases h

theorem verifyProposerSig_quiet {msg : Option Bytes} {sig : Bytes}
    (h : verifyProposerSig env msg sig (w.sm.slotAddress slot) slot w = .ok () w₁) :
    WarmGrowth env w w₁ ∧ (w₁.sm = w.sm ∨ ((proposerChecks env w.sm msg sig slot).takeWhile
      (SigCheck.passes env w.sm)).any (SigCheck.binds env w.sm) = true) := by
  obtain ⟨recovered, ⟨data, rfl, hrec, hmax⟩, hchecks⟩ := verifyProposerSig_ok_iff.mp h
  refine ⟨runChecks_growth hchecks, ?_⟩
  have hone : proposerChecks env w.sm (some data) sig slot = [⟨slot, recovered⟩] := by
    unfold proposerChecks
    rw [Option.bind_some, hrec]
    exact if_neg fun h => h.2 (hmax h.1)
  obtain ⟨hpasses, hquiet⟩ := (SigCheck.mk slot recovered).run_eq hres w
  rw [runChecks_singleton.mp hchecks] at hpasses hquiet
  rw [hone, List.takeWhile_cons, ← hpasses]
  cases hbinds : (SigCheck.mk slot recovered).binds env w.sm with
  | false => exact .inl (hquiet hbinds)
  | true => exact .inr (by simp [hbinds])

theorem countTimeoutVotes_quiet (id : ℕ) (reason : TimeoutReason) (votes : List TimeoutVote)
    (seen : List Address) (n : UInt32) {sm : StateMachine} (hsm : w.sm = sm) :
    (countTimeoutVotes env id reason votes seen n w).world.sm = sm ∨
      ((timeoutSigners env sm id reason votes seen).takeWhile (SigCheck.passes env sm)).any
        (SigCheck.binds env sm) = true := by
  subst hsm
  induction votes generalizing seen n w with
  | nil => exact .inl rfl
  | cons vote _ ih =>
    unfold countTimeoutVotes timeoutSigners
    cases haddr : w.sm.slotToAddress.get? vote.voterSlot with
    | none => exact .inl rfl
    | some voterAddr =>
      dsimp only
      split
      · exact .inl rfl
      cases timeoutVoteContent w.sm.escrowID id reason vote.accept with
      | none => exact .inl rfl
      | some data =>
        dsimp only [Option.bind_some]
        cases env.recoverAddress data vote.signature with
        | none => exact .inl rfl
        | some recovered =>
          have hslot : w.sm.slotAddress vote.voterSlot = voterAddr := by
            simp [EscrowState.slotAddress, haddr]
          obtain ⟨hpasses, hquiet⟩ := (SigCheck.mk vote.voterSlot recovered).run_eq hres w
          have hrun : (SigCheck.mk vote.voterSlot recovered).run env w
              = acceptSigner env vote.voterSlot recovered voterAddr w := by rw [← hslot]; rfl
          dsimp only
          generalize acceptSigner env vote.voterSlot recovered voterAddr w = accepted at hrun ⊢
          obtain ⟨passed, w₂⟩ := accepted
          cases passed with
          | false => exact .inl (SigCheck.run_false hres hrun)
          | true =>
            rw [hrun] at hpasses hquiet
            dsimp only
            rw [List.takeWhile_cons, ← hpasses]
            cases hbinds : (SigCheck.mk vote.voterSlot recovered).binds env w.sm with
            | true => exact .inr (by simp [hbinds])
            | false =>
              rw [← show w₂.sm = w.sm from hquiet hbinds]
              refine (ih (voterAddr :: seen) _).imp_right fun hlater => ?_
              rw [if_pos rfl, List.any_cons, hlater, Bool.or_true]

/-- A candidate that is refused, and leaves no binding by `leavesBinding`, leaves the
machine as it was. -/
theorem applyTx_error_quiet {e : Err} (hlive : LiveWritable w.sm)
    (hstart : tx.getStartInference = none) (hquiet : leavesBinding env w.sm tx = false)
    (h : applyTx env tx w = .error e w') : w'.sm = w.sm := by
  -- a record that is written can be marshalled
  have hwritten : ∀ {id r r' w₁ e w'}, w.sm.inferences.get? id = some r →
      r'.model = r.model → updateCommittedEntry id r' w₁ ≠ .error e w' := by
    intro id r r' w₁ e w' hr hmodel herr
    refine (updateCommittedEntry_error herr).2 ?_
    rw [hmodel]
    exact hlive id r hr
  -- after a check that binds a key, the other tests pass
  have htests {cs : List SigCheck} (hreach : checksBeforeTests env w.sm tx = cs)
      (hbinds : (cs.takeWhile (SigCheck.passes env w.sm)).any (SigCheck.binds env w.sm) = true) :
      testsAfterChecks env w.sm tx = true := by
    unfold leavesBinding at hquiet
    rwa [hreach, hbinds, Bool.true_and, Bool.not_eq_false'] at hquiet
  cases tx with
  | startInference => cases hstart
  | confirmStart msg =>
    simp only [applyTx, applyConfirmStart] at h
    split at h
    · cases h; rfl
    next r hr =>
    split at h
    · cases h; rfl
    split at h
    · cases h; rfl
    split at h
    · cases h; rfl
    next recovered _ =>
    split at h
    · next hfails =>
      cases h
      exact SigCheck.run_false hres (c := ⟨r.executorSlot, recovered⟩) hfails
    · exact absurd h (hwritten hr rfl)
  | finishInference msg =>
    simp only [applyTx, applyFinishInference] at h
    split at h
    · cases h; rfl
    next r hr =>
    split at h
    · cases h; rfl
    next hstatus =>
    split at h
    · cases h; rfl
    next hslot =>
    split at h
    · next hverify => cases h; exact verifyProposerSig_error hres hverify
    next w₂ hverify =>
    obtain ⟨hgrow, hsame⟩ := verifyProposerSig_quiet hres hverify
    replace hsame := hsame.imp_right <| htests <| by
      simp only [checksBeforeTests, hr]
      exact if_pos ⟨not_not.mp hstatus, not_not.mp hslot⟩
    simp only [testsAfterChecks, Bool.and_eq_true, decide_eq_true_iff] at hsame
    split at h
    · next hescrow =>
      cases h
      rw [hgrow.escrowID_eq] at hescrow
      exact hsame.resolve_right fun hpass => hescrow hpass.1
    split at h
    · next hcost =>
      cases h
      rw [hgrow.config_eq] at hcost
      exact hsame.resolve_right fun hpass => by simp [hcost] at hpass
    · exact absurd h (hwritten hr rfl)
  | validation msg =>
    simp only [applyTx, applyValidation] at h
    split at h
    · cases h; rfl
    next r hr =>
    split at h
    · cases h; rfl
    next hslot =>
    split at h
    · cases h; rfl
    next hself =>
    split at h
    · cases h
    next hnew =>
    split at h
    · cases h; rfl
    next hstatus =>
    split at h
    · next hverify => cases h; exact verifyProposerSig_error hres hverify
    next w₂ hverify =>
    obtain ⟨hgrow, hsame⟩ := verifyProposerSig_quiet hres hverify
    split at h
    · next hescrow =>
      cases h
      rw [hgrow.escrowID_eq] at hescrow
      refine hsame.resolve_right fun hbinds => hescrow (of_decide_eq_true (htests ?_ hbinds))
      simp only [checksBeforeTests, hr]
      exact if_pos ⟨Option.isSome_iff_ne_none.mpr (by simpa using hslot), hself,
        by simpa using hnew, not_not.mp hstatus⟩
    · exact absurd h (hwritten hr (recordValidation_model ..))
  | validationVote msg =>
    simp only [applyTx, applyValidationVote] at h
    split at h
    · cases h; rfl
    next r hr =>
    split at h
    · cases h; rfl
    next hslot =>
    split at h
    · cases h
    split at h
    · cases h; rfl
    next hstatus =>
    split at h
    · cases h; rfl
    next hnew =>
    split at h
    · next hverify => cases h; exact verifyProposerSig_error hres hverify
    next w₂ hverify =>
    obtain ⟨hgrow, hsame⟩ := verifyProposerSig_quiet hres hverify
    split at h
    · next hescrow =>
      cases h
      rw [hgrow.escrowID_eq] at hescrow
      refine hsame.resolve_right fun hbinds => hescrow (of_decide_eq_true (htests ?_ hbinds))
      simp only [checksBeforeTests, hr]
      exact if_pos ⟨Option.isSome_iff_ne_none.mpr (by simpa using hslot), not_not.mp hstatus, hnew⟩
    · split_ifs at h
      all_goals exact absurd h (hwritten hr (recordVote_model ..))
  | timeoutInference msg =>
    simp only [applyTx, applyTimeout] at h
    split at h
    · cases h; rfl
    next r hr =>
    split at h
    · cases h; rfl
    next hreason =>
    rcases countTimeoutVotes_quiet hres msg.inferenceId msg.reason msg.votes [] 0
      (Eq.refl w.sm) with hsm | hbinds
    · split at h
      · next hcount =>
        rw [hcount] at hsm
        cases h; exact hsm
      next hcount =>
      rw [hcount] at hsm
      split at h
      · cases h; exact hsm
      · exact absurd h (hwritten hr rfl)
    · -- the votes are in order, and the quorum is reached
      replace htests := htests (by
        simp only [checksBeforeTests, hr]
        exact if_pos (not_not.mp hreason)) hbinds
      simp only [testsAfterChecks] at htests
      split at htests
      · cases htests
      next checks acceptCount hvotes =>
      rw [Bool.and_eq_true, decide_eq_true_iff, Option.isSome_iff_exists] at htests
      obtain ⟨⟨_, hchecks⟩, hquorum⟩ := htests
      have hself : SameAnswers answers env env := ⟨rfl, hres, hres⟩
      have hsame : w.sm = { w.sm with sealedNonces := w.sm.sealedNonces } := rfl
      obtain ⟨w₂, hchecks', -⟩ := runChecks_sealedNonces (w := { sm := w.sm }) hself hsame hchecks
      rw [countTimeoutVotes_ok_iff.mpr ⟨checks, hvotes, hchecks'⟩] at h
      dsimp only at h
      rw [(runChecks_growth hchecks').config_eq, if_neg (UInt32.not_le.mpr hquorum)] at h
      exact absurd h (hwritten hr rfl)
  | revealSeed => cases h
  | finalizeRound =>
    simp only [applyTx, applyFinalizeRound] at h
    split at h
    · cases h; rfl
    · cases h
  | empty => cases h; rfl

end

/-! ### The composed diff -/

theorem checkDiff_sublist {latest : ℕ} (hsub : applied.Sublist txs)
    (h : checkDiff latest nonce txs = .ok u) :
    checkDiff latest nonce applied = .ok () := by
  unfold checkDiff checkStarts at h ⊢
  split at h
  · cases h
  next hnonce =>
  rw [if_neg hnonce]
  dsimp only at h ⊢
  split at h
  · cases h
  next hids =>
  split at h
  · cases h
  next hone =>
  have hstarts := hsub.filterMap DevshardTx.getStartInference
  rw [if_neg, if_neg]
  · exact fun hmany => hone (lt_of_lt_of_le hmany hstarts.length_le)
  · intro hany
    obtain ⟨start, hmem, hne⟩ := any_eq_true.mp hany
    exact hids (any_eq_true.mpr ⟨start, hstarts.subset hmem, hne⟩)

theorem localBestEffort_ok (h : localBestEffort env nonce txs w = .ok (root, applied) w₁) :
    checkDiff w.sm.latestNonce nonce txs = .ok () ∧
      ∃ w₂, applyTxsBestEffort env w.sm.snapshotMutable txs w = .ok applied w₂ ∧
        closeNonce env nonce w.sm.snapshotMutable w₂ = .ok root w₁ := by
  unfold localBestEffort at h
  dsimp only at h
  split at h
  · cases h
  next hcheck =>
  split at h
  · cases h
  next w₂ htxs =>
  split at h
  · cases h
  · next hclose =>
    cases h
    exact ⟨hcheck, w₂, htxs, hclose⟩

theorem applyCore_ok_iff {postStateRoot : Bytes} :
    applyCore env nonce txs postStateRoot w = .ok root w' ↔
      checkDiff w.sm.latestNonce nonce txs = .ok () ∧
        (∃ w₁, applyTxs env w.sm.snapshotMutable txs w = .ok () w₁ ∧
          closeNonce env nonce w.sm.snapshotMutable w₁ = .ok root w') ∧
        ¬ (postStateRoot.length > 0 ∧ root ≠ postStateRoot) := by
  unfold applyCore
  constructor
  · intro h
    split at h
    · cases h
    next u hcheck =>
    dsimp only at h
    split at h
    · cases h
    next w₁ htxs =>
    split at h
    · cases h
    next hclose =>
    unfold checkPostStateRoot at h
    split at h
    · cases h
    · next hroot =>
      cases h
      exact ⟨hcheck, ⟨w₁, htxs, hclose⟩, hroot⟩
  · rintro ⟨hcheck, ⟨_, htxs, hclose⟩, hroot⟩
    simp only [hcheck, htxs, hclose, checkPostStateRoot, if_neg hroot, orRestore]

/-- **The pass, replayed**: the applied candidates, one after the other on the machine
that the pass began on, lead to where it ended, if the skipped ones leave no binding. -/
theorem applyTxsBestEffort_quiet (snap' : MutableSnapshot) (hans : SameAnswers answers env host)
    (hlive : LiveWritable w.sm) (hv : v.sm = w.sm)
    (hquiet : Along.EachStep (tryTx env) (fun sm tx => leavesBinding env sm tx = false) txs w.sm)
    (hrun : applyTxsBestEffort env snap txs w = .ok applied w') :
    applied.Sublist txs ∧ ∃ v', applyTxs host snap' applied v = .ok () v' ∧ v'.sm = w'.sm := by
  have hself : SameAnswers answers env env := ⟨rfl, hans.left, hans.left⟩
  induction txs generalizing w v applied with
  | nil =>
    cases hrun
    exact ⟨.refl _, v, rfl, hv⟩
  | cons tx _ ih =>
    obtain ⟨hthis, hlater⟩ := hquiet
    obtain ⟨w₂, _, hlive₂, hrest, ⟨htx, rfl⟩ | ⟨_, htx, rfl, hstart, -⟩⟩ :=
      applyTxsBestEffort_cons hlive hrun
    · obtain ⟨_, htx', hv₂⟩ := applyTx_same hans hv htx
      obtain ⟨u, htry, hu⟩ := applyTx_same hself (w := w) (v := { sm := w.sm }) rfl htx
      rw [show tryTx env tx w.sm = w₂.sm by rw [tryTx, htry]; exact hu] at hlater
      obtain ⟨hsub, v', hreplay, hv'⟩ := ih hlive₂ hv₂ hlater hrest
      refine ⟨hsub.cons_cons tx, v', ?_, hv'⟩
      rw [applyTxs, htx']
      exact hreplay
    · have hw₂ := applyTx_error_quiet hans.left hlive hstart hthis htx
      -- the candidate is refused in whichever world
      have htry : tryTx env tx w.sm = w.sm := by
        unfold tryTx
        cases htx' : applyTx env tx { sm := w.sm } with
        | error => exact applyTx_error_quiet (w := { sm := w.sm }) hans.left hlive hstart hthis htx'
        | ok =>
          obtain ⟨_, hok, -⟩ := applyTx_same hself (w := { sm := w.sm }) (v := w) rfl htx'
          rw [htx] at hok
          cases hok
      rw [htry, ← hw₂] at hlater
      obtain ⟨hsub, hreplay⟩ := ih hlive₂ (hv.trans hw₂.symm) hlater hrest
      exact ⟨hsub.cons tx, hreplay⟩

theorem DrainTaken.sublist {sm : StateMachine} (h : DrainTaken env nonce txs sm)
    (hsub : applied.Sublist txs) : DrainTaken env nonce applied sm := by
  rintro ⟨hphase, hdeadline⟩ id hid
  refine h ⟨hphase.imp_right fun ⟨hactive, hmem⟩ => ⟨hactive, hsub.subset hmem⟩, hdeadline⟩ id ?_
  exact hid.imp_right fun ⟨msg, hmem, hmsg⟩ => ⟨msg, hsub.subset hmem, hmsg⟩

theorem composed_applies (hans : SameAnswers answers env host) (hlive : LiveWritable w.sm)
    (hv : v.sm = w.sm) (hidle : v.obsDeferred = none)
    (hquiet : Along.EachStep (tryTx env) (fun sm tx => leavesBinding env sm tx = false) txs w.sm)
    (htaken : DrainTaken host nonce txs v.sm)
    (hrun : localBestEffort env nonce txs w = .ok (root, applied) w₁) :
    ∃ v₁, applyCore host nonce applied root v = .ok root v₁ ∧ v₁.sm = w₁.sm := by
  obtain ⟨hcheck, _, htxs, hclose⟩ := localBestEffort_ok hrun
  have hv' : v.buffering.sm = w.sm := hv
  obtain ⟨hsub, v₂, htxs', hv₂⟩ := applyTxsBestEffort_quiet v.buffering.sm.snapshotMutable hans
    hlive hv' hquiet htxs
  have hb := (applyTxs_deferrable host v.buffering.sm.snapshotMutable applied v.buffering
    v.buffering_buffers).2
  rw [htxs'] at hb
  obtain ⟨v₁, hclose', hsm⟩ :=
    closeNonce_buffered host v.buffering.sm.snapshotMutable hclose hb hv₂
  have htrial : applyCore host nonce applied root v.buffering = .ok root v₁ := by
    refine applyCore_ok_iff.mpr ⟨?_, ⟨v₂, htxs', hclose'⟩, fun h => h.2 rfl⟩
    rw [hv']
    exact checkDiff_sublist hsub hcheck
  -- with its rows written at once, too: the store takes them
  exact ⟨v₁.direct host, applyCore_of_trial hidle (htaken.sublist hsub) htrial, hsm⟩

end

/-- The user composes a diff: it runs the candidates best-effort, or previews them
and commits the handle later.  `sm'` is the state of its machine after that. -/
inductive Composes (env : Env) (nonce : ℕ) (txs : List DevshardTx) (w : World) :
    Bytes → List DevshardTx → StateMachine → Prop
  | apply {root applied w₁} (h : applyLocalBestEffort env nonce txs w = .ok (root, applied) w₁) :
      Composes env nonce txs w root applied w₁.sm
  | preview {vd w₁} (h : previewLocalBestEffort env nonce txs w = .ok vd w₁) :
      Composes env nonce txs w vd.root vd.applied (w.sm.restoreMutable vd.post)

theorem Composes.trial {nonce : ℕ} {root : Bytes} {applied txs : List DevshardTx}
    {sm' : StateMachine} (h : Composes env nonce txs w root applied sm') :
    ∃ u u₁, u.sm = w.sm ∧ localBestEffort env nonce txs u = .ok (root, applied) u₁ ∧ u₁.sm = sm' := by
  cases h with
  | apply h => exact ⟨w, _, rfl, h, rfl⟩
  | preview h =>
    obtain ⟨_, u₁, hrun, rfl⟩ := trialApply_ok h
    refine ⟨w.buffering, u₁, rfl, hrun, ?_⟩
    have hroll := localBestEffort_rolledBack env nonce txs w.buffering
    rw [hrun] at hroll
    exact (restoreMutable_snapshotMutable (SameSession.symm hroll)).symm

section
variable {escrowID : Bytes} {config : SessionConfig} {group : List SlotAssignment}
  {balance : UInt64} {userAddress : Address} {version : Bytes} {sm : StateMachine}

/-- **What the user composes, hosts accept**, at every point of every run, and end
in the same state: if no candidate, in the state it meets, binds a key and is then
refused, and the host's store takes the rows of the inferences the diff drains. -/
theorem composed_accepted (hg : validateGroup group)
    (hnew : newStateMachine escrowID config group balance userAddress version = .ok sm)
    (ops : List Op) (hans : SameAnswers answers env host)
    (hv : v.sm = (runOps env ops (Driver.new sm)).world.sm) (hidle : v.obsDeferred = none)
    {nonce : ℕ} {txs applied : List DevshardTx} {root sig : Bytes} {sm' : StateMachine}
    (hcomposed : Composes env nonce txs (runOps env ops (Driver.new sm)).world root applied sm')
    (hsig : verifyDiffUserSig host ⟨nonce, applied, sig, root⟩ v.sm = .ok ())
    (hquiet : Along.EachStep (tryTx env) (fun sm tx => leavesBinding env sm tx = false) txs v.sm)
    (htaken : DrainTaken host nonce txs v.sm) :
    ∃ v₁, applyDiff host ⟨nonce, applied, sig, root⟩ v = .ok root v₁ ∧ v₁.sm = sm' := by
  obtain ⟨_, _, hsm, hrun, rfl⟩ := hcomposed.trial
  have hlive := runOps_liveWritable env hg hnew ops
  rw [← hsm] at hlive hv
  rw [hv] at hquiet
  rw [applyDiff, hsig]
  exact composed_applies hans hlive hv hidle hquiet htaken hrun

def warmEnv : Env := { sampleEnv with warmResolver := some fun _ _ _ => true }

def pendingStart : Driver :=
  runOps warmEnv [.applyLocal 1 [sampleStart 1]] (Driver.new sampleMachine)

def warmConfirm : DevshardTx := .confirmStart { inferenceId := 1, executorSig := [7], confirmedAt := 6 }

/-- A timeout of inference 1 with the one vote of slot 0, by the key `key`. -/
def lonelyTimeout (key : Address) : DevshardTx :=
  .timeoutInference
    { inferenceId := 1, reason := .refused
      votes := [{ voterSlot := 0, accept := true, signature := key }] }

/-- Inference 1 is started.  A timeout by a cold key is refused for want of votes; the
executor confirms with a warm key, which is bound, and once more in vain. -/
theorem composed_accepted_three :
    ∃ root w₁, applyLocalBestEffort warmEnv 2 [lonelyTimeout [1], warmConfirm, warmConfirm]
        pendingStart.world = .ok (root, [warmConfirm]) w₁ ∧
      w₁.sm.warmKeys.get? 1 = some [7] ∧
      ∃ v₁, applyDiff warmEnv ⟨2, [warmConfirm], [9], root⟩ pendingStart.world = .ok root v₁ ∧
        v₁.sm = w₁.sm := by
  obtain ⟨⟨root, applied⟩, w₁, hrun, happlied⟩ := Outcome.exists_of_holds
    (p := fun result : Bytes × List DevshardTx => result.2 = [warmConfirm])
    (o := applyLocalBestEffort warmEnv 2 [lonelyTimeout [1], warmConfirm, warmConfirm] pendingStart.world)
    (by decide +kernel)
  obtain rfl : applied = [warmConfirm] := of_decide_eq_true happlied
  have hbound : (applyLocalBestEffort warmEnv 2 [lonelyTimeout [1], warmConfirm, warmConfirm]
      pendingStart.world).world.sm.warmKeys.get? 1 = some [7] := by decide +kernel
  rw [hrun] at hbound
  have hans : SameAnswers (some fun _ _ => true) warmEnv warmEnv := ⟨rfl, rfl, rfl⟩
  refine ⟨root, w₁, hrun, hbound, ?_⟩
  exact composed_accepted (by decide) sampleMachine_ok [.applyLocal 1 [sampleStart 1]] hans rfl
    (by decide +kernel) (.apply hrun) rfl (by decide +kernel) fun _ _ _ _ _ _ => rfl

/-- **A skipped candidate leaves a trace in the state the user signs**: the diff it
is composed into takes no machine to that state. -/
theorem composed_diff_rejected :
    newStateMachine [] sampleConfig sampleGroup 1000 [9] [] = .ok sampleMachine ∧
    ∃ root w₁, applyLocalBestEffort warmEnv 2 [lonelyTimeout [7]] pendingStart.world
        = .ok (root, []) w₁ ∧
      verifyDiffUserSig warmEnv ⟨2, [], [9], root⟩ pendingStart.world.sm = .ok () ∧
      ¬ ∃ v₁, applyDiff warmEnv ⟨2, [], [9], root⟩ pendingStart.world = .ok root v₁ ∧
        v₁.sm = w₁.sm := by
  refine ⟨sampleMachine_ok, ?_⟩
  obtain ⟨⟨root, applied⟩, w₁, hrun, happlied⟩ := Outcome.exists_of_holds
    (p := fun result : Bytes × List DevshardTx => result.2 = [])
    (o := applyLocalBestEffort warmEnv 2 [lonelyTimeout [7]] pendingStart.world) (by decide +kernel)
  obtain rfl : applied = [] := of_decide_eq_true happlied
  have hsig : verifyDiffUserSig warmEnv ⟨2, [], [9], root⟩ pendingStart.world.sm = .ok () := rfl
  refine ⟨root, w₁, hrun, hsig, ?_⟩
  rintro ⟨v₁, haccepted, hsm⟩
  rw [applyDiff, hsig] at haccepted
  obtain ⟨-, ⟨_, htxs, hclose⟩, -⟩ := applyCore_ok_iff.mp haccepted
  cases htxs
  -- the key of slot 0 is bound for the user only
  have huser : (applyLocalBestEffort warmEnv 2 [lonelyTimeout [7]] pendingStart.world).world.sm.warmKeys.get?
      0 = some [7] := by decide +kernel
  have hhost : pendingStart.world.sm.warmKeys.get? 0 = none := by decide +kernel
  rw [hrun, Outcome.world_ok, ← hsm, (closeNonce_keys hclose).1, hhost] at huser
  cases huser

end

end Devshard
