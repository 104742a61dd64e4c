/-
The nonces that a host reserves for settlement (`types/max_nonce.go`,
`checkDiffNonceLimitLocked`).

The chain settles a session up to a maximal nonce.  A host keeps the last nonces
free: one for `MsgFinalizeRound` and one for every slot of the group, after which the
session is in settlement.  The cap is checked for diffs with completion work only,
while every diff takes a nonce.

Main results: `settles_within_limit_iff`, `empty_diffs_exhaust_nonces`.
-/
import Gonka.Host.Persistence
import Gonka.Lib.Along

namespace Devshard

/-! ### The phase automaton -/

/-- The phase of a session and the nonces it depends on. -/
structure PhaseClock where
  phase : SessionPhase
  finalizeNonce : ℕ
  latestNonce : ℕ
  deriving DecidableEq

/-- `MsgFinalizeRound`, if the diff has one. -/
def PhaseClock.finalizeRound (finalize : Bool) (c : PhaseClock) : PhaseClock :=
  { c with phase := if finalize ∧ c.phase = .active then .finalizing else c.phase }

def PhaseClock.advance (groupSize : ℕ) (c : PhaseClock) : PhaseClock :=
  let nonce := c.latestNonce + 1
  let finalizeNonce :=
    if c.phase = .finalizing ∧ c.finalizeNonce = 0 then nonce else c.finalizeNonce
  { phase :=
      if c.phase = .finalizing ∧ nonce ≥ finalizeNonce + groupSize then .settlement else c.phase
    finalizeNonce
    latestNonce := nonce }

def PhaseClock.tick (groupSize : ℕ) (finalize : Bool) (c : PhaseClock) : PhaseClock :=
  (c.finalizeRound finalize).advance groupSize

variable {maxNonce : ℕ} {sm : StateMachine} {c : PhaseClock}

open PhaseClock

theorem PhaseClock.tick_active (hphase : c.phase = .active) (groupSize : ℕ) :
    c.tick groupSize false = { c with latestNonce := c.latestNonce + 1 } := by
  have hkeep : c.finalizeRound false = c := by
    unfold finalizeRound
    rw [if_neg (by rintro ⟨h, -⟩; cases h)]
  unfold tick advance
  simp only [hkeep, hphase, reduceCtorEq, false_and, if_false]

theorem PhaseClock.tick_finalizing (hphase : c.phase = .finalizing) (hfinal : c.finalizeNonce ≠ 0)
    (groupSize : ℕ) (finalize : Bool) :
    c.tick groupSize finalize =
      ⟨if c.latestNonce + 1 ≥ c.finalizeNonce + groupSize then .settlement else .finalizing,
        c.finalizeNonce, c.latestNonce + 1⟩ := by
  have hkeep : c.finalizeRound finalize = c := by
    unfold finalizeRound
    rw [if_neg (by rintro ⟨-, h⟩; rw [hphase] at h; cases h)]
  unfold tick advance
  simp only [hkeep, hphase, hfinal, and_false, if_false, true_and]

theorem PhaseClock.tick_finalize (hphase : c.phase = .active) (hfinal : c.finalizeNonce = 0)
    (groupSize : ℕ) :
    c.tick groupSize true =
      ⟨if groupSize = 0 then .settlement else .finalizing, c.latestNonce + 1, c.latestNonce + 1⟩ := by
  have hstart : c.finalizeRound true = { c with phase := .finalizing } := by
    unfold finalizeRound
    rw [if_pos ⟨rfl, hphase⟩]
  unfold tick advance
  simp only [hstart, hfinal, and_self, if_true, true_and]
  congr 1
  refine if_congr ?_ rfl rfl
  omega

theorem PhaseClock.active_of_tick {groupSize : ℕ} {finalize : Bool}
    (h : (c.tick groupSize finalize).phase = .active) : c.phase = .active ∧ finalize = false := by
  have hround : (c.finalizeRound finalize).phase = .active := by
    unfold tick at h
    generalize c.finalizeRound finalize = c' at h
    unfold advance at h
    dsimp only at h
    by_cases hdue : c'.phase = .finalizing ∧ c'.latestNonce + 1
        ≥ (if c'.phase = .finalizing ∧ c'.finalizeNonce = 0 then c'.latestNonce + 1
            else c'.finalizeNonce) + groupSize
    · rw [if_pos hdue] at h
      cases h
    · rwa [if_neg hdue] at h
  unfold finalizeRound at hround
  split at hround
  · cases hround
  next hnot =>
  refine ⟨hround, ?_⟩
  rw [← Bool.not_eq_true]
  exact fun hfinalize => hnot ⟨hfinalize, hround⟩

def StateMachine.clock (sm : StateMachine) : PhaseClock :=
  ⟨sm.phase, sm.finalizeNonce, sm.latestNonce⟩

/-- Whether the diff has a `MsgFinalizeRound`. -/
def finalizes (txs : List DevshardTx) : Bool := decide (.finalizeRound ∈ txs)

variable {env : Env} {w w' : World}

theorem TxStep.phase_eq {tx : DevshardTx} {cs : List SigCheck} {f : World → World}
    (h : TxStep env sm tx cs f) (w : World) :
    (f w).sm.clock = { w.sm.clock with
      phase := if tx = .finalizeRound then .finalizing else w.sm.phase } ∧
      (tx = .finalizeRound → sm.phase = .active) := by
  obtain ⟨e, -, heffect⟩ := h.edit
  rw [heffect]
  refine ⟨rfl, ?_⟩
  rintro rfl
  cases h with
  | finalizeRound hphase => exact hphase

/-- Only `MsgFinalizeRound` moves the phase, and only from the active one. -/
theorem applyTx_clock {tx : DevshardTx} (h : applyTx env tx w = .ok () w') :
    w'.sm.clock = { w.sm.clock with
      phase := if tx = .finalizeRound then .finalizing else w.sm.phase } ∧
      (tx = .finalizeRound → w.sm.phase = .active) := by
  obtain ⟨_, _, w₁, hstep, hchecks, rfl⟩ := applyTx_ok_iff.mp h
  have hgrow := runChecks_growth hchecks
  have hclock : w₁.sm.clock = w.sm.clock := by
    rw [hgrow.same]
    rfl
  have hphase : w₁.sm.phase = w.sm.phase := congrArg phase hclock
  obtain ⟨heffect, hactive⟩ := hstep.phase_eq w₁
  rw [hclock, hphase] at heffect
  exact ⟨heffect, hactive⟩

theorem applyTxs_clock {snap : MutableSnapshot} {txs : List DevshardTx}
    (h : applyTxs env snap txs w = .ok () w') :
    w'.sm.clock = w.sm.clock.finalizeRound (finalizes txs) := by
  induction txs generalizing w with
  | nil =>
    cases h
    rfl
  | cons tx txs ih =>
    obtain ⟨_, htx, hrest⟩ := applyTxs_cons h
    obtain ⟨hclock, hactive⟩ := applyTx_clock htx
    rw [ih hrest, hclock]
    unfold finalizeRound StateMachine.clock
    by_cases hfin : tx = .finalizeRound
    · -- a second one would be refused
      have hhere : finalizes (tx :: txs) = true := by
        rw [hfin]
        exact decide_eq_true List.mem_cons_self
      rw [if_pos hfin, if_neg (by rintro ⟨-, h⟩; cases h), hhere, if_pos ⟨rfl, hactive hfin⟩]
    · have hlater : finalizes (tx :: txs) = finalizes txs := by
        unfold finalizes
        rw [decide_eq_decide, List.mem_cons]
        exact ⟨fun h => h.resolve_left (Ne.symm hfin), .inr⟩
      rw [if_neg hfin, hlater]

theorem advanceNonce_clock (nonce : ℕ) (w : World) : (advanceNonce nonce w).sm.clock
        = ⟨w.sm.phase, if w.sm.phase = .finalizing ∧ w.sm.finalizeNonce = 0 then nonce
            else w.sm.finalizeNonce, nonce⟩ ∧
      (advanceNonce nonce w).sm.group = w.sm.group := by
  unfold advanceNonce StateMachine.clock
  dsimp only
  split <;> exact ⟨rfl, rfl⟩

theorem closeNonce_clock {nonce : ℕ} {snap : MutableSnapshot} {root : Bytes}
    (h : closeNonce env nonce snap w = .ok root w') (hnonce : nonce = w.sm.latestNonce + 1) :
    w'.sm.clock = w.sm.clock.advance w.sm.group.length := by
  subst hnonce
  obtain ⟨w₁, hfee, hclosed⟩ := closeNonce_keepsKeys h
  obtain ⟨hadvance, hgroup⟩ := advanceNonce_clock (w.sm.latestNonce + 1) w₁
  rw [hfee.phase, hfee.finalizeNonce] at hadvance
  have hphase := congrArg phase hadvance
  have hfinalize := congrArg finalizeNonce hadvance
  have hlatest := congrArg latestNonce hadvance
  generalize advanceNonce (w.sm.latestNonce + 1) w₁ = w₂ at hclosed hadvance hgroup hphase hfinalize hlatest
  have hclock : w'.sm.clock
      = ⟨phaseAfterDeadline w₂.sm, w₂.sm.finalizeNonce, w₂.sm.latestNonce⟩ := by
    unfold StateMachine.clock
    rw [hclosed.phase, hclosed.finalizeNonce, hclosed.latestNonce]
  dsimp only [StateMachine.clock] at hphase hfinalize hlatest
  rw [hclock]
  simp only [phaseAfterDeadline, deadlinePassed, hphase, hfinalize, hlatest, hgroup, hfee.group]
  rfl

/-- **The phase of a machine follows the automaton.** -/
theorem applyCore_clock {nonce : ℕ} {txs : List DevshardTx} {post root : Bytes}
    (h : applyCore env nonce txs post w = .ok root w') :
    w'.sm.clock = w.sm.clock.tick w.sm.group.length (finalizes txs) ∧
      w'.sm.group = w.sm.group := by
  have hroll := applyCore_rolledBack env nonce txs post w
  rw [h] at hroll
  refine ⟨?_, SameSession.group hroll⟩
  have hnonce := applyCore_nonce h
  obtain ⟨-, ⟨w₁, htxs, hclose⟩, -⟩ := applyCore_ok_iff.mp h
  have hclock := applyTxs_clock htxs
  have hsame := applyTxs_rolledBack env txs (SameSession.refl w.sm)
  rw [htxs] at hsame
  have hlatest : w₁.sm.latestNonce = w.sm.latestNonce := congrArg latestNonce hclock
  rw [closeNonce_clock hclose (hlatest ▸ hnonce), SameSession.group hsame, hclock]
  rfl

inductive HostApply where
  /-- `applyAndPersist` with a store; `stored` is whether the diff becomes durable. -/
  | persist (diff : Diff) (stored : Bool)
  /-- `applyAndPersist` without a store. -/
  | direct (diff : Diff)
  /-- `applyDurableRecordLocked`. -/
  | durable (rec : DiffRecord)

def HostApply.diff : HostApply → Diff
  | .persist diff _ => diff
  | .direct diff => diff
  | .durable rec => rec.diff

section
variable (recoverAddress : Bytes → Bytes → Option Address) (out : Outside)

/-- The machine of a host after it was given a diff, accepted or not. -/
def hostApply (op : HostApply) (w : World) : World :=
  match op with
  | .persist diff stored =>
    if diff.nonce ≤ w.sm.latestNonce then w
    else
      match validateForPersist recoverAddress out diff w with
      | (.error _, w') => w'
      | (.ok (vd, _), w') => if stored then (commitValidated (out.env recoverAddress) vd w').2 else w'
  | .direct diff =>
    if diff.nonce ≤ w.sm.latestNonce then w
    else
      match checkDiffNonceLimit out.maxNonce diff w.sm with
      | .error _ => w
      | .ok _ => (applyDiff (out.env recoverAddress) diff w).world
  | .durable rec => (applyDurableRecord recoverAddress out rec w).2

end

variable {recoverAddress : Bytes → Bytes → Option Address} {out : Outside}

/-- The clock stands still, or the diff has passed the limit and the clock ticks. -/
def AcceptedOrNot (maxNonce : ℕ) (diff : Diff) (sm sm' : StateMachine) : Prop :=
  sm'.group = sm.group ∧
    (sm'.clock = sm.clock ∨
      diff.nonce = sm.latestNonce + 1 ∧ checkDiffNonceLimit maxNonce diff sm = .ok () ∧
        sm'.clock = sm.clock.tick sm.group.length (finalizes diff.txs))

theorem AcceptedOrNot.of_eq {diff : Diff} {sm' : StateMachine} (h : sm' = sm) :
    AcceptedOrNot maxNonce diff sm sm' := by
  rw [h]
  exact ⟨rfl, .inl rfl⟩

theorem AcceptedOrNot.of_applyCore {diff : Diff} {root : Bytes}
    (hlimit : checkDiffNonceLimit maxNonce diff w.sm = .ok ())
    (h : applyCore env diff.nonce diff.txs diff.postStateRoot w = .ok root w') :
    AcceptedOrNot maxNonce diff w.sm w'.sm :=
  ⟨(applyCore_clock h).2, .inr ⟨applyCore_nonce h, hlimit, (applyCore_clock h).1⟩⟩

theorem AcceptedOrNot.of_applyDiff {diff : Diff}
    (hlimit : checkDiffNonceLimit maxNonce diff w.sm = .ok ()) :
    AcceptedOrNot maxNonce diff w.sm (applyDiff env diff w).world.sm := by
  have hroll := applyDiff_rolledBack env diff w
  cases happly : applyDiff env diff w with
  | error =>
    rw [happly] at hroll
    exact .of_eq hroll
  | ok => exact .of_applyCore hlimit (applyDiff_ok_iff.mp happly).2

/-- **A host accepts within the limit, one nonce at a time.** -/
theorem hostApply_clock (op : HostApply) (w : World) :
    AcceptedOrNot out.maxNonce op.diff w.sm (hostApply recoverAddress out op w).sm := by
  cases op with
  | persist diff stored =>
    unfold hostApply validateForPersist
    dsimp only
    split
    · exact .of_eq rfl
    cases hlimit : checkDiffNonceLimit out.maxNonce diff w.sm with
    | error => exact .of_eq rfl
    | ok =>
      cases hvalid : validateDiff (out.env recoverAddress) diff w with
      | error => exact .of_eq (validateDiff_error hvalid)
      | ok vd w' =>
        obtain ⟨-, hkept, _, hrun, -, hcommit⟩ := validateDiff_ok hvalid
        cases stored with
        | false => exact .of_eq hkept
        | true =>
          show AcceptedOrNot _ diff w.buffering.sm (commitValidated _ vd w').2.sm
          rw [hcommit]
          exact .of_applyCore hlimit hrun
  | direct diff =>
    unfold hostApply
    dsimp only
    split
    · exact .of_eq rfl
    cases hlimit : checkDiffNonceLimit out.maxNonce diff w.sm with
    | error => exact .of_eq rfl
    | ok => exact .of_applyDiff hlimit
  | durable rec =>
    unfold hostApply applyDurableRecord
    dsimp only
    split
    · exact .of_eq rfl
    split
    · exact .of_eq rfl
    cases hlimit : checkDiffNonceLimit out.maxNonce rec.diff w.sm with
    | error => exact .of_eq rfl
    | ok =>
      -- the injected keys are none of the clock's business
      have happly : AcceptedOrNot out.maxNonce rec.diff w.sm
          (applyDiff (out.env recoverAddress) rec.diff (injectWarmKeys rec.warmKeyDelta w)).world.sm :=
        AcceptedOrNot.of_applyDiff (w := injectWarmKeys rec.warmKeyDelta w) hlimit
      generalize applyDiff (out.env recoverAddress) rec.diff (injectWarmKeys rec.warmKeyDelta w)
        = result at happly
      cases result with
      | error => exact happly
      | ok =>
        dsimp only
        split <;> exact happly

/-- The next diffs pass the limit one after the other, and once the machine has taken
them the session is in settlement at a nonce that the chain takes. -/
def Admitted (env : Env) (maxNonce : ℕ) : List Diff → World → Prop
  | [], w => w.sm.phase = .settlement ∧ w.sm.latestNonce ≤ maxNonce
  | diff :: diffs, w =>
    (diff.nonce = w.sm.latestNonce + 1 → checkDiffNonceLimit maxNonce diff w.sm = .ok ()) ∧
      ∀ root w', applyDiff env diff w = .ok root w' → Admitted env maxNonce diffs w'

/-- What the limit is for: an active session is at or below the cap, and a finalizing
diff and one diff for every slot bring it into settlement. -/
def SettlesWithin (maxNonce : ℕ) (w : World) : Prop :=
  w.sm.phase = .active →
    w.sm.latestNonce ≤ maxNonce - finalizeNonceReserve w.sm.group.length ∧
    ∀ (env : Env) (final : Diff) (rest : List Diff),
      finalizes final.txs = true → diffHasActiveCompletionWork final = false →
      rest.length = w.sm.group.length → Admitted env maxNonce (final :: rest) w

theorem checkDiffNonceLimit_of_le {diff : Diff} (hle : diff.nonce ≤ maxNonce)
    (hwork : sm.phase = .active → diffHasActiveCompletionWork diff = false) :
    checkDiffNonceLimit maxNonce diff sm = .ok () := by
  unfold checkDiffNonceLimit
  split
  · rfl
  split
  · rfl
  rw [if_neg (by omega)]
  split
  · rfl
  next hactive =>
  rw [if_pos (hwork (not_not.mp hactive))]

/-- A session that finalizes with `diffs.length` nonces to go settles at the last of
them. -/
theorem admitted_finalizing {env : Env} {diffs : List Diff} {w : World}
    (hphase : w.sm.phase = if diffs = [] then .settlement else .finalizing)
    (hfinal : w.sm.finalizeNonce ≠ 0)
    (hcount : w.sm.latestNonce + diffs.length = w.sm.finalizeNonce + w.sm.group.length)
    (hfits : w.sm.finalizeNonce + w.sm.group.length ≤ maxNonce) : Admitted env maxNonce diffs w := by
  induction diffs generalizing w with
  | nil =>
    exact ⟨hphase, by omega⟩
  | cons _ _ ih =>
    rw [List.length_cons] at hcount
    refine ⟨fun hnonce => checkDiffNonceLimit_of_le (by omega)
      (fun h => by rw [hphase] at h; cases h), fun root w' happly => ?_⟩
    obtain ⟨hclock, hgroup⟩ := applyCore_clock (applyDiff_ok_iff.mp happly).2
    rw [tick_finalizing hphase hfinal] at hclock
    have hlatest : w'.sm.latestNonce = w.sm.latestNonce + 1 := congrArg latestNonce hclock
    have hbegin : w'.sm.finalizeNonce = w.sm.finalizeNonce := congrArg finalizeNonce hclock
    have hphase' : w'.sm.phase = if w.sm.latestNonce + 1 ≥ w.sm.finalizeNonce + w.sm.group.length
        then .settlement else .finalizing := congrArg phase hclock
    refine ih ?_ (hbegin ▸ hfinal) (by rw [hlatest, hbegin, hgroup]; omega)
      (by rw [hbegin, hgroup]; exact hfits)
    rw [hphase']
    refine if_congr ?_ rfl rfl
    rw [← List.length_eq_zero_iff]
    omega

/-- **Within the reserve, finalization fits.**  The finalizing diff takes one nonce and
the finalizing phase one for every slot. -/
theorem finalization_fits {env : Env} {final : Diff} {rest : List Diff} {w : World}
    (hphase : w.sm.phase = .active) (hfresh : w.sm.finalizeNonce = 0)
    (hmax : maxNonce > w.sm.group.length + 1)
    (hcap : w.sm.latestNonce ≤ maxNonce - finalizeNonceReserve w.sm.group.length)
    (hfinal : finalizes final.txs = true) (hwork : diffHasActiveCompletionWork final = false)
    (hrest : rest.length = w.sm.group.length) : Admitted env maxNonce (final :: rest) w := by
  unfold finalizeNonceReserve at hcap
  refine ⟨fun hnonce => checkDiffNonceLimit_of_le (by omega) (fun _ => hwork),
    fun root w' happly => ?_⟩
  obtain ⟨hclock, hgroup⟩ := applyCore_clock (applyDiff_ok_iff.mp happly).2
  rw [hfinal, tick_finalize hphase hfresh] at hclock
  have hlatest : w'.sm.latestNonce = w.sm.latestNonce + 1 := congrArg latestNonce hclock
  have hbegin : w'.sm.finalizeNonce = w.sm.latestNonce + 1 := congrArg finalizeNonce hclock
  have hphase' : w'.sm.phase = if w.sm.group.length = 0 then .settlement else .finalizing :=
    congrArg phase hclock
  refine admitted_finalizing ?_ (by omega) (by rw [hlatest, hbegin, hgroup, hrest])
    (by rw [hbegin, hgroup]; omega)
  rw [hphase']
  refine if_congr ?_ rfl rfl
  rw [← List.length_eq_zero_iff, hrest]

/-! ### Runs of a host -/

/-- One diff that a host is given, with what the host finds outside at that time; the
chain's limit stays the same. -/
def hostStep (recoverAddress : Bytes → Bytes → Option Address) (maxNonce : ℕ)
    (input : Outside × HostApply) (w : World) : World :=
  hostApply recoverAddress { input.1 with maxNonce } input.2 w

/-- The host accepts, in the active phase, a diff above the cap that does not
finalize.  Such a diff has no completion work, so its nonce is checked against
`maxNonce` only. -/
def Overruns (recoverAddress : Bytes → Bytes → Option Address) (maxNonce : ℕ) (w : World)
    (input : Outside × HostApply) : Prop :=
  w.sm.phase = .active ∧ finalizes input.2.diff.txs = false ∧
    diffHasActiveCompletionWork input.2.diff = false ∧
    input.2.diff.nonce > maxActiveNonce maxNonce w.sm.group.length ∧
    (hostStep recoverAddress maxNonce input w).sm.latestNonce = input.2.diff.nonce

/-- What the phase automaton keeps, whatever the diffs. -/
structure Unfinalized (m : ℕ) (w : World) : Prop where
  groupSize : w.sm.group.length = m
  fresh : w.sm.phase = .active → w.sm.finalizeNonce = 0

theorem settlesWithin_iff {m : ℕ} {w : World} (h : Unfinalized m w) (hmax : maxNonce > m + 1) :
    SettlesWithin maxNonce w ↔
      (w.sm.phase = .active → w.sm.latestNonce ≤ maxNonce - finalizeNonceReserve m) := by
  rw [← h.groupSize] at hmax ⊢
  constructor
  · intro hsettles hactive
    exact (hsettles hactive).1
  · intro hcap hactive
    refine ⟨hcap hactive, fun env final rest hfinal hwork hrest => ?_⟩
    exact finalization_fits hactive (h.fresh hactive) hmax (hcap hactive) hfinal hwork hrest

section
variable {recoverAddress : Bytes → Bytes → Option Address} {maxNonce m : ℕ}

theorem hostStep_clock (recoverAddress : Bytes → Bytes → Option Address) (maxNonce : ℕ)
    (input : Outside × HostApply) (w : World) :
    AcceptedOrNot maxNonce input.2.diff w.sm (hostStep recoverAddress maxNonce input w).sm :=
  hostApply_clock input.2 w

theorem unfinalized_hostStep (w : World) (input : Outside × HostApply) (h : Unfinalized m w) :
    Unfinalized m (hostStep recoverAddress maxNonce input w) := by
  obtain ⟨hgroup, hsame | ⟨-, -, htick⟩⟩ := hostStep_clock recoverAddress maxNonce input w
  · refine ⟨hgroup ▸ h.groupSize, fun hactive => ?_⟩
    have hphase := congrArg phase hsame
    exact (congrArg finalizeNonce hsame).trans (h.fresh (hphase.symm.trans hactive))
  · refine ⟨hgroup ▸ h.groupSize, fun hactive => ?_⟩
    obtain ⟨hbefore, hfinalize⟩ :=
      active_of_tick ((congrArg phase htick).symm.trans hactive)
    rw [hfinalize, tick_active hbefore] at htick
    exact (congrArg finalizeNonce htick).trans (h.fresh hbefore)

theorem maxActiveNonce_eq (hmax : maxNonce > m + 1) :
    maxActiveNonce maxNonce m = maxNonce - finalizeNonceReserve m := by
  unfold maxActiveNonce
  rw [if_neg (by omega), if_neg (by unfold finalizeNonceReserve; omega)]

theorem noWork_of_checkDiffNonceLimit {diff : Diff}
    (h : checkDiffNonceLimit maxNonce diff sm = .ok ()) (hmax : maxNonce ≠ 0)
    (hnext : diff.nonce > sm.latestNonce) (hactive : sm.phase = .active)
    (hover : diff.nonce > maxActiveNonce maxNonce sm.group.length) :
    diffHasActiveCompletionWork diff = false := by
  by_contra hwork
  unfold checkDiffNonceLimit at h
  rw [if_neg (Nat.not_le.mpr hnext), if_neg hmax] at h
  by_cases habove : diff.nonce > maxNonce
  · rw [if_pos habove] at h
    cases h
  · rw [if_neg habove, if_neg (not_not.mpr hactive), if_neg hwork, if_pos hover] at h
    cases h

theorem hostStep_reserve_iff (hmax : maxNonce > m + 1) (w : World) (input : Outside × HostApply)
    (h : Unfinalized m w)
    (hcap : w.sm.phase = .active → w.sm.latestNonce ≤ maxNonce - finalizeNonceReserve m) :
    ((hostStep recoverAddress maxNonce input w).sm.phase = .active →
      (hostStep recoverAddress maxNonce input w).sm.latestNonce
        ≤ maxNonce - finalizeNonceReserve m) ↔ ¬ Overruns recoverAddress maxNonce w input := by
  have hcapEq : maxActiveNonce maxNonce w.sm.group.length = maxNonce - finalizeNonceReserve m := by
    rw [h.groupSize]
    exact maxActiveNonce_eq hmax
  obtain ⟨-, hsame | ⟨hnonce, hlimit, htick⟩⟩ := hostStep_clock recoverAddress maxNonce input w
  · -- the diff was refused
    have hphase : (hostStep recoverAddress maxNonce input w).sm.phase = w.sm.phase :=
      congrArg phase hsame
    have hlatest : (hostStep recoverAddress maxNonce input w).sm.latestNonce = w.sm.latestNonce :=
      congrArg latestNonce hsame
    refine iff_of_true (fun hactive => ?_) ?_
    · have := hcap (hphase.symm.trans hactive)
      exact hlatest.trans_le this
    rintro ⟨hactive, -, -, _⟩
    have := hcap hactive
    omega
  · have hlatest : (hostStep recoverAddress maxNonce input w).sm.latestNonce
        = w.sm.latestNonce + 1 := congrArg latestNonce htick
    constructor
    · rintro hkeeps ⟨hactive, hfinalize, -, hover, _⟩
      rw [hfinalize, tick_active hactive] at htick
      have hphase : _ = w.sm.phase := congrArg phase htick
      have := hkeeps (hphase.trans hactive)
      omega
    · intro hnot hactive
      obtain ⟨hbefore, hfinalize⟩ :=
        active_of_tick ((congrArg phase htick).symm.trans hactive)
      by_contra hover
      have hover' : input.2.diff.nonce > maxActiveNonce maxNonce w.sm.group.length := by
        omega
      have hwork := noWork_of_checkDiffNonceLimit hlimit (by omega) (by omega) hbefore hover'
      exact hnot ⟨hbefore, hfinalize, hwork, hover', hlatest.trans hnonce.symm⟩

/-- **A session can settle within the chain's limit as long as its host accepts no
diff above the cap that does not finalize**, and no longer: for every run of a host
from the begin of the session. -/
theorem settles_within_limit_iff (recoverAddress : Bytes → Bytes → Option Address) {escrowID : Bytes}
    {config : SessionConfig} {group : List SlotAssignment} {balance : UInt64}
    {userAddress : Address} {version : Bytes} {w : World}
    (hnew : newStateMachine escrowID config group balance userAddress version = .ok w.sm)
    (hmax : maxNonce > group.length + 1) (inputs : List (Outside × HostApply)) :
    Along.Throughout (hostStep recoverAddress maxNonce) (SettlesWithin maxNonce) inputs w ↔
      Along.EachStep (hostStep recoverAddress maxNonce)
        (fun w input => ¬ Overruns recoverAddress maxNonce w input) inputs w := by
  have hgroup := (newStateMachine_ok hnew).1
  rw [← hgroup] at hmax
  have hstart : Unfinalized w.sm.group.length w := by
    refine ⟨rfl, fun _ => ?_⟩
    unfold newStateMachine at hnew
    dsimp only at hnew
    split at hnew
    · cases hnew
    · rw [← Except.ok.inj hnew]
  refine Along.throughout_iff_eachStep (fun w' input hw' _ => unfinalized_hostStep w' input hw')
    (fun w' input hw' hsettles => ?_) hstart ?_
  · rw [settlesWithin_iff (unfinalized_hostStep w' input hw') hmax]
    exact hostStep_reserve_iff hmax w' input hw' ((settlesWithin_iff hw' hmax).mp hsettles)
  · rw [settlesWithin_iff hstart hmax, (newStateMachine_ok hnew).2.2.1]
    exact fun _ => Nat.zero_le _

end

instance {recoverAddress : Bytes → Bytes → Option Address} {maxNonce : ℕ} {w : World}
    {input : Outside × HostApply} : Decidable (Overruns recoverAddress maxNonce w input) :=
  inferInstanceAs (Decidable (_ ∧ _ ∧ _ ∧ _ ∧ _))

def soloDiff (nonce : ℕ) (txs : List DevshardTx) : Outside × HostApply :=
  ({}, .persist ⟨nonce, txs, [9], []⟩ true)

/-- One active diff, the finalizing one and one for the slot take the three nonces. -/
theorem settles_within_limit_solo :
    Along.Throughout (hostStep namedSigner 3) (SettlesWithin 3)
      [soloDiff 1 [], soloDiff 2 [.finalizeRound], soloDiff 3 []] { sm := soloMachine } :=
  (settles_within_limit_iff namedSigner (w := { sm := soloMachine }) soloMachine_ok (by decide)
    _).mpr (by decide +kernel)

/-- A user sends three empty diffs to the session of one slot, whose cap is 1.  The
host accepts them; the session is active, and no diff is accepted any more. -/
theorem empty_diffs_exhaust_nonces :
    let w := Along.run (hostStep namedSigner 3) [soloDiff 1 [], soloDiff 2 [], soloDiff 3 []]
      { sm := soloMachine }
    maxActiveNonce 3 soloMachine.group.length = 1 ∧ w.sm.phase = .active ∧ w.sm.latestNonce = 3 ∧
      ¬ SettlesWithin 3 w ∧
      ∀ diff, diff.nonce = 4 →
        checkDiffNonceLimit 3 diff w.sm = .error (.nonceExceedsMaximum 4 3) := by
  intro w
  have hclock : w.sm.phase = .active ∧ w.sm.latestNonce = 3 ∧ w.sm.group.length = 1 := by
    decide +kernel
  obtain ⟨hphase, hlatest, _⟩ := hclock
  refine ⟨rfl, hphase, hlatest, fun h => ?_, fun diff hnonce => ?_⟩
  · have hcap := (h hphase).1
    exact absurd hcap (by decide)
  · unfold checkDiffNonceLimit
    rw [hlatest, hnonce]
    rfl

end Devshard
