/-
Persistence under interleaving.

Whatever the schedule, the faults of the store, the crashes and the diffs that
users sign, the machine of every host is the fold of the durable diffs up to its
nonce, and so no nonce is ever signed with two roots.  The one exception is a
reconciliation that is cut short: `applyDurableRecordLocked` injects the bindings of
a record and keeps them when the record itself is then refused by the observability
store (`LeavesBindings`).

Main results: `hosts_persist_safely`, `reconcile_keeps_bindings`, `hosts_recover`.
-/
import Gonka.Host.Cluster

namespace Devshard

open OrdMap

section
variable (recoverAddress : Bytes → Bytes → Option Address) (sm₀ : StateMachine)

/-- The fold of the durable diffs `1, …, n` from the initial state. -/
def durableState (diffs : OrdMap ℕ DiffRecord) (n : ℕ) : Option StateMachine :=
  Journal.fold (replayRecord recoverAddress) sm₀ diffs n

/-- The durable diffs are under their nonces and can be replayed. -/
structure StoreSafe (diffs : OrdMap ℕ DiffRecord) : Prop where
  nonces : ∀ n rec, diffs.get? n = some rec → rec.diff.nonce = n
  replayable : Journal.Replayable (replayRecord recoverAddress) sm₀ diffs

/-- The machine is the fold of the durable diffs up to its nonce. -/
structure AtDurable (diffs : OrdMap ℕ DiffRecord) (w : World) : Prop where
  machine : durableState recoverAddress sm₀ diffs w.sm.latestNonce = some w.sm
  idle : w.obsDeferred = none

/-- The record extends the durable diffs before it, to the state of the handle. -/
def Pending (diffs : OrdMap ℕ DiffRecord) (vd : ValidatedDiff) (rec : DiffRecord) : Prop :=
  ∃ sm, durableState recoverAddress sm₀ diffs sm.latestNonce = some sm ∧
    vd.nonce = sm.latestNonce + 1 ∧ rec.diff.nonce = vd.nonce ∧
    replayRecord recoverAddress rec sm = some (sm.restoreMutable vd.post)

/-- What a request carries from one step to the next. -/
def PointSafe (diffs : OrdMap ℕ DiffRecord) : Point → Prop
  | .relock _ _ _ (some records) => ∀ rec ∈ records, diffs.get? rec.diff.nonce = some rec
  | .replay _ records => ∀ rec ∈ records, diffs.get? rec.diff.nonce = some rec
  | .append vd rec _ => Pending recoverAddress sm₀ diffs vd rec
  | .backoff vd rec _ => Pending recoverAddress sm₀ diffs vd rec
  | .commit vd => ∃ rec, Pending recoverAddress sm₀ diffs vd rec ∧
      diffs.get? rec.diff.nonce = some rec
  | _ => True

/-- The root is that of the durable state at the nonce. -/
def SignedSafe (diffs : OrdMap ℕ DiffRecord) (nonce : ℕ) (root : Bytes) : Prop :=
  ∃ sm, durableState recoverAddress sm₀ diffs nonce = some sm ∧
    computeStateRoot sm.toEscrowState = some root

/-- What a step from the durable diffs `diffs` leaves. -/
structure StepSafe (diffs : OrdMap ℕ DiffRecord) (p : Progress) : Prop where
  grows : Journal.Extends diffs p.diffs
  store : StoreSafe recoverAddress sm₀ p.diffs
  world : AtDurable recoverAddress sm₀ p.diffs p.world
  point : PointSafe recoverAddress sm₀ p.diffs p.request.point
  signed : ∀ s ∈ p.signed, SignedSafe recoverAddress sm₀ p.diffs s.1 s.2

end

section
variable {recoverAddress : Bytes → Bytes → Option Address} {sm₀ : StateMachine}
  {diffs diffs' : OrdMap ℕ DiffRecord} {w w' : World} {vd : ValidatedDiff} {rec : DiffRecord}
  {out : Outside} {r : Request}

theorem AtDurable.grow (h : AtDurable recoverAddress sm₀ diffs w)
    (hgrow : Journal.Extends diffs diffs') : AtDurable recoverAddress sm₀ diffs' w :=
  ⟨Journal.fold_extends hgrow h.machine, h.idle⟩

theorem Pending.grow (h : Pending recoverAddress sm₀ diffs vd rec)
    (hgrow : Journal.Extends diffs diffs') : Pending recoverAddress sm₀ diffs' vd rec := by
  obtain ⟨sm, hsm, hrest⟩ := h
  exact ⟨sm, Journal.fold_extends hgrow hsm, hrest⟩

theorem PointSafe.grow {point : Point} (h : PointSafe recoverAddress sm₀ diffs point)
    (hgrow : Journal.Extends diffs diffs') : PointSafe recoverAddress sm₀ diffs' point := by
  cases point with
  | relock _ _ _ records =>
    cases records with
    | none => trivial
    | some => exact fun rec hrec => hgrow _ _ (h rec hrec)
  | replay => exact fun rec hrec => hgrow _ _ (h rec hrec)
  | append | backoff => exact Pending.grow h hgrow
  | commit =>
    obtain ⟨rec, hpending, hrec⟩ := h
    exact ⟨rec, hpending.grow hgrow, hgrow _ _ hrec⟩
  | lock | next | reconcile | getDiffs | sign | done => trivial

theorem SignedSafe.grow {nonce : ℕ} {root : Bytes}
    (h : SignedSafe recoverAddress sm₀ diffs nonce root) (hgrow : Journal.Extends diffs diffs') :
    SignedSafe recoverAddress sm₀ diffs' nonce root := by
  obtain ⟨sm, hsm, hroot⟩ := h
  exact ⟨sm, Journal.fold_extends hgrow hsm, hroot⟩

open Request

theorem pointSafe_finish (r : Request) : PointSafe recoverAddress sm₀ diffs r.finish.point := by
  unfold finish
  split <;> trivial

theorem pointSafe_fail (r : Request) (e : HostErr) :
    PointSafe recoverAddress sm₀ diffs (r.fail e).point := by
  unfold fail
  split <;> trivial

variable (hnamed : ∀ data sig addr, recoverAddress data sig = some addr → addr ≠ [])
  (hstore : StoreSafe recoverAddress sm₀ diffs) (hw : AtDurable recoverAddress sm₀ diffs w)

include hstore in
theorem StepSafe.stay {p : Progress} (hw : AtDurable recoverAddress sm₀ diffs p.world)
    (hdiffs : p.diffs = diffs) (hpoint : PointSafe recoverAddress sm₀ diffs p.request.point)
    (hsigned : p.signed = none) :
    StepSafe recoverAddress sm₀ diffs p := by
  subst hdiffs
  refine ⟨.refl _, hstore, hw, hpoint, fun s hs => ?_⟩
  rw [hsigned] at hs
  cases hs

/-! ### The steps of a request -/

include hnamed hw in
theorem validateForPersist_safe {diff : Diff} {result : Except HostErr (ValidatedDiff × DiffRecord)}
    (h : validateForPersist recoverAddress out diff w = (result, w')) :
    AtDurable recoverAddress sm₀ diffs w' ∧
      ∀ vd rec, result = .ok (vd, rec) → Pending recoverAddress sm₀ diffs vd rec := by
  unfold validateForPersist at h
  split at h
  · cases h
    exact ⟨hw, fun vd rec h => by cases h⟩
  have hsm := validateDiff_sm (out.env recoverAddress) diff w
  have hidle := validateDiff_obsDeferred (out.env recoverAddress) diff hw.idle
  split at h
  · next w₁ hrun =>
    cases h
    rw [hrun] at hsm hidle
    refine ⟨⟨?_, hidle⟩, fun vd rec h => by cases h⟩
    rw [show w'.sm = w.sm from hsm]
    exact hw.machine
  · next hrun =>
    cases h
    rw [hrun] at hsm hidle
    refine ⟨⟨?_, hidle⟩, fun vd' rec' heq => ?_⟩
    · rw [show w'.sm = w.sm from hsm]
      exact hw.machine
    · cases heq
      obtain ⟨hreplay, hnonce, hdiff⟩ := validateDiff_replays hnamed hrun
      exact ⟨w.sm, hw.machine, hnonce, hdiff, hreplay⟩

include hnamed hstore hw in
theorem Request.persist_safe {diff : Diff} :
    StepSafe recoverAddress sm₀ diffs (r.persist recoverAddress out diff w diffs) := by
  unfold persist
  split
  · next e w₁ h =>
    exact .stay hstore (validateForPersist_safe hnamed hw h).1 rfl (pointSafe_fail r e) rfl
  · next vd rec _ h =>
    obtain ⟨hw₁, hpending⟩ := validateForPersist_safe hnamed hw h
    exact .stay hstore hw₁ rfl (hpending vd rec rfl) rfl

theorem Pending.append (h : Pending recoverAddress sm₀ diffs vd rec)
    (hstore : StoreSafe recoverAddress sm₀ diffs) :
    Journal.Extends diffs (appendDiff diffs rec).2 ∧
      StoreSafe recoverAddress sm₀ (appendDiff diffs rec).2 := by
  obtain ⟨_, hsm, hnonce, hrec, hreplay⟩ := h
  refine ⟨Journal.extends_offer _ _ _, fun n rec' hrec' => ?_, ?_⟩
  · rcases Journal.get?_offer hrec' with hold | ⟨rfl, rfl⟩
    · exact hstore.nonces n rec' hold
    · rfl
  · show Journal.Replayable _ _ (Journal.offer diffs rec.diff.nonce rec)
    rw [hrec, hnonce]
    exact hstore.replayable.offer hsm hreplay

include hstore hw in
theorem Request.append_safe {attempt : ℕ} (hpending : Pending recoverAddress sm₀ diffs vd rec) :
    StepSafe recoverAddress sm₀ diffs (r.append out vd rec attempt w diffs) := by
  have hretry : ∀ {diffs' : OrdMap ℕ DiffRecord}, Pending recoverAddress sm₀ diffs' vd rec →
      PointSafe recoverAddress sm₀ diffs' (if attempt = persistMaxAttempts then
        r.fail (.persistExhausted rec.diff.nonce) else r.goto (.backoff vd rec attempt)).point := by
    intro diffs' h
    split
    · exact pointSafe_fail r _
    · exact h
  obtain ⟨hgrow, hstore'⟩ := hpending.append hstore
  unfold append
  dsimp only
  split
  · exact .stay hstore hw rfl (pointSafe_fail r _) rfl
  split
  · -- the store answers: the record is there now, or another one was first
    split
    · next diffs' happend =>
      rw [happend] at hgrow hstore'
      exact ⟨hgrow, hstore', hw.grow hgrow,
        ⟨rec, hpending.grow hgrow, appendDiff_true happend⟩, nofun⟩
    · next happend =>
      rw [happend] at hgrow hstore'
      exact ⟨hgrow, hstore', hw.grow hgrow, pointSafe_fail r _, nofun⟩
  · exact .stay hstore hw rfl (hretry hpending) rfl
  · exact ⟨hgrow, hstore', hw.grow hgrow, hretry (hpending.grow hgrow), nofun⟩

/-- **A commit installs the fold of the durable diffs**, or nothing. -/
theorem commitValidated_safe (env : Env) (hw : AtDurable recoverAddress sm₀ diffs w)
    (hpending : Pending recoverAddress sm₀ diffs vd rec)
    (hdurable : diffs.get? rec.diff.nonce = some rec) :
    AtDurable recoverAddress sm₀ diffs (commitValidated env vd w).2 := by
  obtain ⟨sm, hsm, hnonce, hrec, hreplay⟩ := hpending
  unfold commitValidated
  split
  · exact hw
  next hstale =>
  have hlatest : w.sm.latestNonce = sm.latestNonce := by omega
  -- the machine is where the trial started
  have hsame : w.sm = sm := by
    have h := hw.machine
    rw [hlatest, hsm] at h
    exact (Option.some_inj.mp h).symm
  have hafter := (replayRecord_latestNonce hreplay).2
  rw [hrec, hnonce] at hdurable
  constructor
  · rw [flushDeferredObs_sm]
    show durableState recoverAddress sm₀ diffs (w.sm.restoreMutable vd.post).latestNonce
      = some (w.sm.restoreMutable vd.post)
    rw [hsame, hafter, hrec, hnonce]
    exact Journal.fold_succ.mpr ⟨sm, rec, hsm, hdurable, hreplay⟩
  · rw [flushDeferredObs_eq]
    exact hw.idle

variable (recoverAddress) in
/-- The observability store refuses a row of the settlement drain while a durable
record that brings bindings is replayed. -/
def ReplayCut (out : Outside) (rec : DiffRecord) (w : World) : Prop :=
  rec.warmKeyDelta ≠ ∅ ∧ ∃ root, ApplyRefused (out.env recoverAddress) rec.diff.nonce rec.diff.txs
    rec.diff.postStateRoot (injectWarmKeys rec.warmKeyDelta w) root

include hstore hw in
/-- **A durable record takes the machine to the next durable state**, or leaves it
where it is. -/
theorem applyDurableRecord_safe {result : Except HostErr Unit}
    (hdurable : diffs.get? rec.diff.nonce = some rec) (hcut : ¬ ReplayCut recoverAddress out rec w)
    (h : applyDurableRecord recoverAddress out rec w = (result, w')) :
    AtDurable recoverAddress sm₀ diffs w' := by
  unfold applyDurableRecord at h
  split at h
  · cases h
    exact hw
  split at h
  · cases h
    exact hw
  next hnext =>
  split at h
  · cases h
    exact hw
  have hnonce : rec.diff.nonce = w.sm.latestNonce + 1 := not_not.mp hnext
  rw [hnonce] at hdurable
  obtain ⟨_, hreplay, hfold⟩ := hstore.replayable.next hw.machine hdurable
  have hidle : (injectWarmKeys rec.warmKeyDelta w).obsDeferred = none := hw.idle
  have hidle' := applyDiff_obsDeferred (out.env recoverAddress) rec.diff hidle
  have hroll := applyDiff_rolledBack (out.env recoverAddress) rec.diff
    (injectWarmKeys rec.warmKeyDelta w)
  have hrec : (out.env recoverAddress).recoverAddress = recoverAddress := rfl
  rcases replayRecord_applyDiff hrec hreplay rfl hw.idle with ⟨w₁, hrun, hsm⟩ | ⟨⟨e, w₁, hrun⟩, href⟩
  · rw [hrun] at h hidle'
    have hafter := (replayRecord_latestNonce hreplay).2
    have hthere : AtDurable recoverAddress sm₀ diffs w₁ := by
      refine ⟨?_, hidle'⟩
      rw [hsm, hafter, hnonce]
      exact hfold
    dsimp only at h
    split at h
    · next hmismatch => exact absurd rfl hmismatch.2.2
    · cases h
      exact hthere
  · -- refused: nothing was injected, and the failed apply is rolled back
    rw [hrun] at h hidle' hroll
    have hnone : rec.warmKeyDelta = ∅ := by
      by_contra hne
      exact hcut ⟨hne, _, href⟩
    cases h
    refine ⟨?_, hidle'⟩
    have hsame : w'.sm = w.sm := by
      rw [show w'.sm = (injectWarmKeys rec.warmKeyDelta w).sm from hroll, hnone]
      rfl
    rw [hsame]
    exact hw.machine

open List

include hnamed hstore hw in
theorem Request.reconciled_safe {diff : Diff} {records : List DiffRecord}
    (hrecords : ∀ rec ∈ records, diffs.get? rec.diff.nonce = some rec) :
    StepSafe recoverAddress sm₀ diffs (r.reconciled recoverAddress out diff records w diffs) := by
  unfold reconciled
  split
  · exact .stay hstore hw rfl (pointSafe_finish r) rfl
  split
  · exact persist_safe hnamed hstore hw
  dsimp only
  split
  · exact .stay hstore hw rfl (pointSafe_fail r _) rfl
  · exact .stay hstore hw rfl (fun rec hrec => hrecords rec (mem_filter.mp hrec).1) rfl

include hnamed hstore hw in
theorem Request.reconcile_safe {diff : Diff} :
    StepSafe recoverAddress sm₀ diffs (r.reconcile recoverAddress out diff w diffs) := by
  unfold reconcile
  split
  · exact .stay hstore hw rfl (pointSafe_finish r) rfl
  split
  · exact persist_safe hnamed hstore hw
  · exact .stay hstore hw rfl trivial rfl

include hstore hw in
theorem Request.takeNext_safe : StepSafe recoverAddress sm₀ diffs (r.takeNext out w diffs) := by
  unfold takeNext
  split
  · exact .stay hstore hw rfl trivial rfl
  · exact .stay hstore hw rfl trivial rfl
  · split <;> exact .stay hstore hw rfl trivial rfl
  · exact .stay hstore hw rfl trivial rfl

include hstore hw in
theorem Request.sign_safe : StepSafe recoverAddress sm₀ diffs (r.sign out w diffs) := by
  unfold sign
  dsimp only
  split
  · exact .stay hstore hw rfl trivial rfl
  next hroot =>
  split
  · refine ⟨.refl _, hstore, hw, ?_, fun s hs => ?_⟩
    · dsimp only
      split <;> trivial
    · cases hs
      exact ⟨w.sm, hw.machine, hroot⟩
  · refine .stay hstore hw rfl ?_ rfl
    dsimp only
    split <;> trivial
  · exact .stay hstore hw rfl trivial rfl

include hstore in
theorem mem_getDiffs {lo hi : ℕ}
    (h : rec ∈ getDiffs diffs lo hi) : diffs.get? rec.diff.nonce = some rec := by
  obtain ⟨⟨n, rec'⟩, hmem, rfl⟩ := mem_map.mp h
  have hget := get?_eq_some_iff.mpr (mem_filter.mp hmem).1
  rw [hstore.nonces n rec' hget]
  exact hget

variable (recoverAddress) in
/-- The next step of the request is a replay that is cut short. -/
def Point.Cut (out : Outside) (w : World) : Point → Prop
  | .replay _ (rec :: _) => ReplayCut recoverAddress out rec w
  | _ => False

include hnamed hstore hw in
theorem Request.step_safe (hpoint : PointSafe recoverAddress sm₀ diffs r.point)
    (hcut : ¬ r.point.Cut recoverAddress out w) :
    StepSafe recoverAddress sm₀ diffs (r.step recoverAddress out w diffs) := by
  unfold step
  split
  · split <;> exact .stay hstore hw rfl trivial rfl
  · exact takeNext_safe hstore hw
  · exact reconcile_safe hnamed hstore hw
  · refine .stay hstore hw rfl ?_ rfl
    split
    · exact fun rec hrec => mem_getDiffs hstore hrec
    · trivial
  · exact .stay hstore hw rfl (pointSafe_fail r _) rfl
  · next diff _ _ records heq =>
    rw [heq] at hpoint
    exact reconciled_safe hnamed hstore hw hpoint
  · exact .stay hstore hw rfl trivial rfl
  · next rec _ heq =>
    rw [heq] at hpoint hcut
    have hdurable := hpoint rec mem_cons_self
    split
    · next w₁ hrun =>
      exact .stay hstore (applyDurableRecord_safe hstore hw hdurable hcut hrun) rfl
        (pointSafe_fail r _) rfl
    · next hrun =>
      exact .stay hstore (applyDurableRecord_safe hstore hw hdurable hcut hrun) rfl
        (fun rec' hrec' => hpoint rec' (mem_cons_of_mem rec hrec')) rfl
  · next vd rec attempt heq =>
    rw [heq] at hpoint
    exact append_safe hstore hw hpoint
  · next vd rec _ heq =>
    rw [heq] at hpoint
    split
    · exact .stay hstore hw rfl (pointSafe_fail r _) rfl
    · exact .stay hstore hw rfl hpoint rfl
  · next heq =>
    rw [heq] at hpoint
    obtain ⟨_, hpending, hdurable⟩ := hpoint
    exact .stay hstore (commitValidated_safe _ hw hpending hdurable) rfl (pointSafe_finish r) rfl
  · exact sign_safe hstore hw
  · exact .stay hstore hw rfl hpoint rfl

theorem recoverRecords_safe {env : Env} (hrec : env.recoverAddress = recoverAddress)
    {records : List DiffRecord} (hstore : StoreSafe recoverAddress sm₀ diffs)
    (hw : AtDurable recoverAddress sm₀ diffs w)
    (hrecords : ∀ rec ∈ records, diffs.get? rec.diff.nonce = some rec)
    (h : recoverRecords env records w = some w') : AtDurable recoverAddress sm₀ diffs w' := by
  induction records generalizing w with
  | nil =>
    cases h
    exact hw
  | cons rec _ ih =>
    unfold recoverRecords at h
    have hidle := (applyCore_deferrable env rec.diff.nonce rec.diff.txs []).obsDeferred
      (show (injectWarmKeys rec.warmKeyDelta w).obsDeferred = none from hw.idle)
    split at h
    · cases h
    next root w₁ hrun =>
    split at h
    · cases h
    have hcore : applyCore env rec.diff.nonce rec.diff.txs [] (injectWarmKeys rec.warmKeyDelta w)
        = .ok root w₁ := hrun
    rw [hcore] at hidle
    have hnonce : rec.diff.nonce = (injectWarmKeys rec.warmKeyDelta w).sm.latestNonce + 1 :=
      applyCore_nonce hcore
    have hdurable := hrecords rec mem_cons_self
    rw [hnonce] at hdurable
    obtain ⟨_, hreplay, hfold⟩ := hstore.replayable.next hw.machine hdurable
    have hthere : AtDurable recoverAddress sm₀ diffs w₁ := by
      refine ⟨?_, hidle⟩
      rcases replayRecord_again hrec hreplay rfl hw.idle (.inl rfl) with
        ⟨w₂, hrun', hsm⟩ | ⟨⟨e, w₂, hrun'⟩, -⟩
      · rw [hcore] at hrun'
        cases hrun'
        rw [hsm, (replayRecord_latestNonce hreplay).2, hnonce]
        exact hfold
      · rw [hcore] at hrun'
        cases hrun'
    exact ih hthere (fun rec' hrec' => hrecords rec' (mem_cons_of_mem rec hrec')) h

theorem recoverStoredSession_records {out : Outside} {n : ℕ}
    (h : recoverStoredSession recoverAddress out sm₀ n diffs = some w) :
    recoverRecords (out.env recoverAddress) (getDiffs diffs 1 n) { sm := sm₀ } = some w := by
  unfold recoverStoredSession at h
  split at h
  · nomatch h
  split at h
  · nomatch h
  split at h
  · nomatch h
  split at h
  · nomatch h
  next hrecords =>
  split at h
  · nomatch h
  split at h
  · nomatch h
  · exact hrecords.trans h

/-- `l` are the entries of the store from the machine's nonce up to `n`. -/
theorem recoverRecords_complete {env : Env} (hrec : env.recoverAddress = recoverAddress)
    (haccepts : ∀ calls c, env.store calls c = true) (hstore : StoreSafe recoverAddress sm₀ diffs)
    {n : ℕ} {sm : StateMachine} (hn : durableState recoverAddress sm₀ diffs n = some sm)
    {l : List (ℕ × DiffRecord)} (hsorted : l.Pairwise fun e e' => e.1 < e'.1)
    (hw : AtDurable recoverAddress sm₀ diffs w) (hle : w.sm.latestNonce ≤ n)
    (hl : ∀ e, e ∈ l ↔ diffs.get? e.1 = some e.2 ∧ w.sm.latestNonce < e.1 ∧ e.1 ≤ n) :
    ∃ w', recoverRecords env (l.map Prod.snd) w = some w' ∧
      durableState recoverAddress sm₀ diffs n = some w'.sm := by
  induction l generalizing w with
  | nil =>
    have hend : w.sm.latestNonce = n := hle.antisymm <| not_lt.mp fun hlt => by
      obtain ⟨rec, hget⟩ := Journal.get?_of_fold hn hlt
      exact not_mem_nil ((hl (_, rec)).mpr ⟨hget, Nat.lt_succ_self _, hlt⟩)
    exact ⟨w, rfl, hend ▸ hw.machine⟩
  | cons e l ih =>
    obtain ⟨-, hlt, hen⟩ := (hl e).mp mem_cons_self
    obtain ⟨hfirst, hrest⟩ := pairwise_cons.mp hsorted
    -- the store has no gaps, so the first entry is the next one
    obtain ⟨rec, hnext⟩ := Journal.get?_of_fold hn (hlt.trans_le hen)
    obtain rfl : (w.sm.latestNonce + 1, rec) = e := by
      rcases mem_cons.mp ((hl (_, rec)).mpr ⟨hnext, Nat.lt_succ_self _, hlt.trans_le hen⟩) with
        heq | hlater
      · exact heq
      · exact absurd (hfirst _ hlater) (not_lt.mpr hlt)
    obtain ⟨_, hreplay, hfold⟩ := hstore.replayable.next hw.machine hnext
    obtain ⟨hnonce, hlatest⟩ := replayRecord_latestNonce hreplay
    rcases replayRecord_again hrec hreplay rfl hw.idle (.inl rfl) with
      ⟨w₁, hrun, rfl⟩ | ⟨-, hrefused⟩
    · have hidle := (applyCore_deferrable env rec.diff.nonce rec.diff.txs []).obsDeferred
        (show (injectWarmKeys rec.warmKeyDelta w).obsDeferred = none from hw.idle)
      rw [hrun] at hidle
      rw [hnonce] at hlatest
      obtain ⟨w', hw', hend⟩ := ih (w := w₁) hrest ⟨hlatest ▸ hfold, hidle⟩ (hlatest ▸ hen) fun e => by
        have hmem := hl e
        rw [mem_cons] at hmem
        rw [hlatest]
        constructor
        · intro he
          exact ⟨(hmem.mp (.inr he)).1, hfirst e he, (hmem.mp (.inr he)).2.2⟩
        · rintro ⟨hget, hgt, hen⟩
          refine (hmem.mpr ⟨hget, Nat.lt_of_succ_lt hgt, hen⟩).resolve_left ?_
          rintro rfl
          exact lt_irrefl _ hgt
      refine ⟨w', ?_, hend⟩
      rw [map_cons, recoverRecords, applyLocal, hrun]
      simp [hw']
    · exact absurd hrefused (not_applyRefused haccepts)

variable (recoverAddress sm₀) in
structure Cluster.Safe (c : Cluster) : Prop where
  store : StoreSafe recoverAddress sm₀ c.diffs
  machines : ∀ name h, c.hosts.get? name = some h → AtDurable recoverAddress sm₀ c.diffs h.world
  requests : ∀ name h, c.hosts.get? name = some h →
    ∀ r ∈ h.requests, PointSafe recoverAddress sm₀ c.diffs r.point
  signed : ∀ s ∈ c.signed, SignedSafe recoverAddress sm₀ c.diffs s.nonce s.root

variable (recoverAddress) in
/-- The event is a replay that is cut short and leaves the bindings it has injected. -/
def Cluster.LeavesBindings (c : Cluster) : Event → Prop
  | .step name i out => ∃ h r, c.hosts.get? name = some h ∧ h.requests[i]? = some r ∧
      r.point.Cut recoverAddress out h.world
  | _ => False

theorem Cluster.Safe.insert {c : Cluster} (hc : c.Safe recoverAddress sm₀) (name : ℕ) {h : Host}
    (hworld : AtDurable recoverAddress sm₀ c.diffs h.world)
    (hrequests : ∀ r ∈ h.requests, PointSafe recoverAddress sm₀ c.diffs r.point) :
    ({ c with hosts := c.hosts.insert name h } : Cluster).Safe recoverAddress sm₀ := by
  refine ⟨hc.store, fun name' h' hget => ?_, fun name' h' hget => ?_, hc.signed⟩
  · replace hget : (c.hosts.insert name h).get? name' = some h' := hget
    rw [get?_insert] at hget
    split at hget
    · cases hget
      exact hworld
    · exact hc.machines name' h' hget
  · replace hget : (c.hosts.insert name h).get? name' = some h' := hget
    rw [get?_insert] at hget
    split at hget
    · cases hget
      exact hrequests
    · exact hc.requests name' h' hget

theorem Cluster.Safe.grow {c : Cluster} (hc : c.Safe recoverAddress sm₀)
    (hgrow : Journal.Extends c.diffs diffs') (hstore : StoreSafe recoverAddress sm₀ diffs')
    {signed : List StateSignature}
    (hsigned : ∀ s ∈ signed, SignedSafe recoverAddress sm₀ diffs' s.nonce s.root) :
    ({ c with diffs := diffs', signed := c.signed ++ signed } : Cluster).Safe recoverAddress sm₀ := by
  refine ⟨hstore, fun name h hget => (hc.machines name h hget).grow hgrow,
    fun name h hget r hr => (hc.requests name h hget r hr).grow hgrow, fun s hs => ?_⟩
  rcases mem_append.mp hs with hold | hnew
  · exact (hc.signed s hold).grow hgrow
  · exact hsigned s hnew

open Cluster

include hnamed in
theorem Cluster.stepRequest_safe {c : Cluster} (hc : c.Safe recoverAddress sm₀) {name i : ℕ}
    {h : Host} (hh : c.hosts.get? name = some h)
    (hcut : ¬ c.LeavesBindings recoverAddress (.step name i out)) :
    (c.stepRequest recoverAddress out name h i).Safe recoverAddress sm₀ := by
  unfold stepRequest
  split
  · exact hc
  next r hr =>
  split
  · exact hc
  have hmem : r ∈ h.requests := mem_of_getElem? hr
  have hstep : StepSafe recoverAddress sm₀ c.diffs (r.step recoverAddress out h.world c.diffs) :=
    step_safe hnamed hc.store (hc.machines name h hh) (hc.requests name h hh r hmem)
      fun hpoint => hcut ⟨h, r, hh, hr, hpoint⟩
  generalize r.step recoverAddress out h.world c.diffs = p at hstep ⊢
  have hsigned : ∀ s ∈ (p.signed.map fun s => (⟨name, s.1, s.2⟩ : StateSignature)).toList,
      SignedSafe recoverAddress sm₀ p.diffs s.nonce s.root := by
    intro s hs
    obtain ⟨s', hs', rfl⟩ := Option.map_eq_some_iff.mp (Option.mem_toList.mp hs)
    exact hstep.signed s' hs'
  refine (hc.grow hstep.grows hstep.store hsigned).insert name hstep.world fun r' hr' => ?_
  rcases mem_or_eq_of_mem_set hr' with hold | rfl
  · exact (hc.requests name h hh r' hold).grow hstep.grows
  · exact hstep.point

include hnamed in
theorem Cluster.step_safe (hzero : sm₀.latestNonce = 0) {c : Cluster}
    (hc : c.Safe recoverAddress sm₀) {ev : Event} (hcut : ¬ c.LeavesBindings recoverAddress ev) :
    (c.step recoverAddress sm₀ ev).Safe recoverAddress sm₀ := by
  have hfresh : AtDurable recoverAddress sm₀ c.diffs { sm := sm₀ } := by
    refine ⟨?_, rfl⟩
    show durableState recoverAddress sm₀ c.diffs sm₀.latestNonce = some sm₀
    rw [hzero]
    rfl
  unfold step
  split
  · split
    · exact hc
    · exact hc.insert _ hfresh nofun
  · next name =>
    refine ⟨hc.store, fun name' h hget => ?_, fun name' h hget => ?_, hc.signed⟩
    · replace hget : (c.hosts.erase name).get? name' = some h := hget
      rw [get?_erase] at hget
      split at hget
      · cases hget
      · exact hc.machines name' h hget
    · replace hget : (c.hosts.erase name).get? name' = some h := hget
      rw [get?_erase] at hget
      split at hget
      · cases hget
      · exact hc.requests name' h hget
  · split
    · exact hc
    split
    · exact hc
    · next hrun =>
      exact hc.insert _ (recoverRecords_safe rfl hc.store hfresh
        (fun rec hrec => mem_getDiffs hc.store hrec) (recoverStoredSession_records hrun)) nofun
  · split
    · exact hc
    next h hh =>
    refine hc.insert _ (hc.machines _ h hh) fun r hr => ?_
    rcases mem_append.mp hr with hold | hnew
    · exact hc.requests _ h hh r hold
    · rw [mem_singleton.mp hnew]
      trivial
  · split
    · exact hc
    · next hh => exact stepRequest_safe hnamed hc hh hcut

variable (recoverAddress sm₀) in
/-- No event of the run leaves bindings behind. -/
def Cluster.NoBindingsLeft : List Event → Cluster → Prop
  | [], _ => True
  | ev :: events, c => ¬ c.LeavesBindings recoverAddress ev ∧
      NoBindingsLeft events (c.step recoverAddress sm₀ ev)

include hnamed in
theorem Cluster.run_safe (hzero : sm₀.latestNonce = 0) {events : List Event} {c : Cluster}
    (hc : c.Safe recoverAddress sm₀) (hrun : c.NoBindingsLeft recoverAddress sm₀ events) :
    (c.run recoverAddress sm₀ events).Safe recoverAddress sm₀ := by
  induction events generalizing c with
  | nil => exact hc
  | cons _ _ ih => exact ih (step_safe hnamed hzero hc hrun.1) hrun.2

theorem Cluster.empty_safe : ({} : Cluster).Safe recoverAddress sm₀ := by
  refine ⟨⟨?_, ?_⟩, ?_, ?_, ?_⟩
  · intro n rec h
    cases h
  · intro n rec h
    cases h
  · intro name h hget
    cases hget
  · intro name h hget
    cases hget
  · intro s hs
    cases hs

theorem Request.step_diffs (out : Outside) (r : Request) (w : World) (diffs : OrdMap ℕ DiffRecord) :
    (r.step recoverAddress out w diffs).diffs = diffs ∨
      ∃ vd rec attempt, r.point = .append vd rec attempt ∧
        (r.step recoverAddress out w diffs).diffs = (appendDiff diffs rec).2 := by
  have hpersist : ∀ diff, (r.persist recoverAddress out diff w diffs).diffs = diffs := by
    intro diff
    unfold persist
    split <;> rfl
  unfold step
  split
  · split <;> exact .inl rfl
  · unfold takeNext
    split
    · exact .inl rfl
    · exact .inl rfl
    · split <;> exact .inl rfl
    · exact .inl rfl
  · unfold reconcile
    split
    · exact .inl rfl
    split
    · exact .inl (hpersist _)
    · exact .inl rfl
  · exact .inl rfl
  · exact .inl rfl
  · unfold reconciled
    split
    · exact .inl rfl
    split
    · exact .inl (hpersist _)
    dsimp only
    split <;> exact .inl rfl
  · exact .inl rfl
  · split <;> exact .inl rfl
  · next vd rec attempt heq =>
    unfold append
    dsimp only
    split
    · exact .inl rfl
    split
    · split <;> next happend => exact .inr ⟨vd, rec, attempt, heq, by rw [happend]⟩
    · exact .inl rfl
    · exact .inr ⟨vd, rec, attempt, heq, rfl⟩
  · split <;> exact .inl rfl
  · exact .inl rfl
  · unfold sign
    dsimp only
    split
    · exact .inl rfl
    · split <;> exact .inl rfl
  · exact .inl rfl

theorem Cluster.step_diffs (ev : Event) (c : Cluster) :
    (c.step recoverAddress sm₀ ev).diffs = c.diffs ∨
      ∃ name h r vd rec attempt, c.hosts.get? name = some h ∧ r ∈ h.requests ∧
        r.point = .append vd rec attempt ∧
        (c.step recoverAddress sm₀ ev).diffs = (appendDiff c.diffs rec).2 := by
  unfold step
  split
  · split <;> exact .inl rfl
  · exact .inl rfl
  · split
    · exact .inl rfl
    · split <;> exact .inl rfl
  · split <;> exact .inl rfl
  · split
    · exact .inl rfl
    next h hh =>
    unfold stepRequest
    split
    · exact .inl rfl
    next r hr =>
    split
    · exact .inl rfl
    · rcases Request.step_diffs _ r h.world c.diffs with hsame | ⟨vd, rec, attempt, hpoint, hdiffs⟩
      · exact .inl hsame
      · exact .inr ⟨_, h, r, vd, rec, attempt, hh, mem_of_getElem? hr, hpoint, hdiffs⟩

theorem Cluster.step_extends (ev : Event) (c : Cluster) :
    Journal.Extends c.diffs (c.step recoverAddress sm₀ ev).diffs := by
  rcases step_diffs ev c with hsame | ⟨-, -, -, -, _, -, -, -, -, hdiffs⟩
  · rw [hsame]
    exact .refl _
  · rw [hdiffs]
    exact Journal.extends_offer _ _ _

theorem Cluster.run_extends (events : List Event) (c : Cluster) :
    Journal.Extends c.diffs (c.run recoverAddress sm₀ events).diffs := by
  induction events generalizing c with
  | nil => exact .refl _
  | cons ev _ ih => exact (step_extends ev c).trans (ih _)

end

def Event.accepts : Event → Prop
  | .step _ _ out => ∀ calls c, out.obsStore calls c = true
  | _ => True

theorem Cluster.not_leavesBindings_of_accepts {recoverAddress : Bytes → Bytes → Option Address}
    {ev : Event} (h : ev.accepts) (c : Cluster) : ¬ c.LeavesBindings recoverAddress ev := by
  intro hleft
  cases ev with
  | step _ _ out =>
    obtain ⟨_, _, -, -, hcut⟩ := hleft
    unfold Point.Cut at hcut
    split at hcut
    · obtain ⟨-, _, href⟩ := hcut
      have hrows : ∀ calls c, (out.env recoverAddress).store calls c = true := h
      exact not_applyRefused hrows href
    · exact hcut
  | start | crash | recover | request => exact hleft

theorem Cluster.noBindingsLeft_of_accepts {recoverAddress : Bytes → Bytes → Option Address}
    {sm₀ : StateMachine} {events : List Event} (h : ∀ ev ∈ events, ev.accepts) (c : Cluster) :
    c.NoBindingsLeft recoverAddress sm₀ events := by
  induction events generalizing c with
  | nil => trivial
  | cons ev _ ih =>
    exact ⟨not_leavesBindings_of_accepts (h ev List.mem_cons_self) c,
      ih (fun ev' hev' => h ev' (List.mem_cons_of_mem ev hev')) _⟩

/-! ### Two hosts -/

def namedSigner (_ sig : Bytes) : Option Address := if sig = [] then none else some sig

theorem namedSigner_ne_nil (data sig : Bytes) (addr : Address)
    (h : namedSigner data sig = some addr) : addr ≠ [] := by
  unfold namedSigner at h
  split at h
  · cases h
  · next hne =>
    cases h
    exact hne

def soloMachine : StateMachine :=
  { sampleMachine with
    config := normalizeSessionConfig sampleConfig 1
    group := [⟨0, [1]⟩]
    hostStats := (∅ : OrdMap ℕ HostStats).insert 0 {} }

theorem soloMachine_ok :
    newStateMachine [] sampleConfig [⟨0, [1]⟩] 1000 [9] [] = .ok soloMachine := rfl

def startedDiff : Diff := ⟨1, [sampleStart 1, .finalizeRound], [9], []⟩

def confirmedDiff : Diff := ⟨2, [.confirmStart ⟨1, [7], 6⟩], [9], []⟩

def granting : Outside := { warmResolver := some fun _ _ _ => true }

def earlyHost : List Event :=
  [.start 0, .request 0 .handleRequest [startedDiff]] ++ List.replicate 7 (.step 0 0 granting)
    ++ [.request 0 .handleRequest [confirmedDiff]] ++ List.replicate 6 (.step 0 1 granting)

/-- Host 1 starts late, replays the durable diffs for a third, the second of them with
the outside `second`, and then signs what it has. -/
def lateHost (second : Outside) : List Event :=
  [.start 1, .request 1 .handleRequest [⟨3, [], [9], []⟩]] ++ List.replicate 6 (.step 1 0 granting)
    ++ [.step 1 0 second, .request 1 .handleRequest []] ++ List.replicate 3 (.step 1 1 granting)

theorem twoHosts_accept : ∀ ev ∈ earlyHost ++ lateHost granting, ev.accepts := by
  simp [earlyHost, lateHost, granting, Event.accepts, or_imp, forall_and]

section
variable {escrowID : Bytes} {config : SessionConfig} {group : List SlotAssignment}
  {balance : UInt64} {userAddress : Address} {version : Bytes} {sm₀ : StateMachine}

/-- **Persistence safety.**  In every run of any number of hosts over one store in
which no replay is cut short: a durable diff never changes; the machine of every host
is the fold of the durable diffs up to its nonce; and no nonce is signed with two
roots, by whichever hosts, before or after recoveries. -/
theorem hosts_persist_safely {recoverAddress : Bytes → Bytes → Option Address}
    (hnamed : ∀ data sig addr, recoverAddress data sig = some addr → addr ≠ [])
    (hnew : newStateMachine escrowID config group balance userAddress version = .ok sm₀)
    (events : List Event) (hrun : ({} : Cluster).NoBindingsLeft recoverAddress sm₀ events) :
    (∀ later n rec, (({} : Cluster).run recoverAddress sm₀ events).diffs.get? n = some rec →
      (({} : Cluster).run recoverAddress sm₀ (events ++ later)).diffs.get? n = some rec) ∧
    (∀ name h, (({} : Cluster).run recoverAddress sm₀ events).hosts.get? name = some h →
      durableState recoverAddress sm₀ (({} : Cluster).run recoverAddress sm₀ events).diffs
        h.world.sm.latestNonce = some h.world.sm) ∧
    ∀ s ∈ (({} : Cluster).run recoverAddress sm₀ events).signed,
      ∀ s' ∈ (({} : Cluster).run recoverAddress sm₀ events).signed,
        s.nonce = s'.nonce → s.root = s'.root := by
  have hzero : sm₀.latestNonce = 0 := (newStateMachine_ok hnew).2.2.1
  have hsafe := Cluster.run_safe hnamed hzero Cluster.empty_safe hrun
  refine ⟨fun later n rec hrec => ?_, fun name h hh => (hsafe.machines name h hh).machine, ?_⟩
  · rw [Cluster.run, List.foldl_append]
    exact Cluster.run_extends later _ n rec hrec
  intro s hs s' hs' hnonce
  obtain ⟨_, hsm, hroot⟩ := hsafe.signed s hs
  obtain ⟨_, hsm', hroot'⟩ := hsafe.signed s' hs'
  rw [hnonce, hsm'] at hsm
  cases hsm
  exact Option.some_inj.mp (hroot.symm.trans hroot')

theorem hosts_persist_safely_sample :
    ({} : Cluster).NoBindingsLeft namedSigner soloMachine (earlyHost ++ lateHost granting) ∧
    ∀ s ∈ (({} : Cluster).run namedSigner soloMachine (earlyHost ++ lateHost granting)).signed,
      ∀ s' ∈ (({} : Cluster).run namedSigner soloMachine (earlyHost ++ lateHost granting)).signed,
        s.nonce = s'.nonce → s.root = s'.root :=
  ⟨Cluster.noBindingsLeft_of_accepts twoHosts_accept _,
    (hosts_persist_safely namedSigner_ne_nil soloMachine_ok (earlyHost ++ lateHost granting)
      (Cluster.noBindingsLeft_of_accepts twoHosts_accept _)).2.2⟩

/-- Nothing else stands against a recovery: the store answers and takes the rows, the session is
active and of the host's version, and the host can be made. -/
structure Outside.Recovers (out : Outside) : Prop where
  reads : out.fault = .none
  active : out.active = true
  sameVersion : out.sameVersion = true
  accepts : ∀ calls row, out.obsStore calls row = true
  rebuilds : out.rebuilds = true
  creates : out.creates = true

/-- **A host that is down can start again**, at any durable diff, as long as nothing but the replay
can fail, and is then in the state of that diff. -/
theorem hosts_recover {recoverAddress : Bytes → Bytes → Option Address}
    (hnamed : ∀ data sig addr, recoverAddress data sig = some addr → addr ≠ [])
    (hnew : newStateMachine escrowID config group balance userAddress version = .ok sm₀)
    {events : List Event} (hrun : ({} : Cluster).NoBindingsLeft recoverAddress sm₀ events)
    {c : Cluster} (hc : ({} : Cluster).run recoverAddress sm₀ events = c) {name n : ℕ}
    (hdown : c.hosts.get? name = none) (hn : (c.diffs.get? n).isSome)
    {out : Outside} (hout : out.Recovers) :
    ∃ h, (c.step recoverAddress sm₀ (.recover name n out)).hosts.get? name = some h ∧
      durableState recoverAddress sm₀ c.diffs n = some h.world.sm := by
  have hzero : sm₀.latestNonce = 0 := (newStateMachine_ok hnew).2.2.1
  have hstore := (Cluster.run_safe hnamed hzero Cluster.empty_safe hrun).store
  rw [hc] at hstore
  have hfresh : AtDurable recoverAddress sm₀ c.diffs { sm := sm₀ } := by
    refine ⟨?_, rfl⟩
    dsimp only
    rw [hzero]
    rfl
  obtain ⟨rec, hrec⟩ := Option.isSome_iff_exists.mp hn
  obtain ⟨_, hsm⟩ := hstore.replayable n rec hrec
  have henv : (out.env recoverAddress).recoverAddress = recoverAddress := rfl
  obtain ⟨w, hw, hend⟩ := recoverRecords_complete henv hout.accepts hstore hsm
    (c.diffs.sorted.filter fun e => 1 ≤ e.1 ∧ e.1 ≤ n) hfresh (hzero ▸ Nat.zero_le n) fun e => by
      rw [List.mem_filter, ← get?_eq_some_iff, decide_eq_true_iff, hzero]
      exact Iff.rfl
  refine ⟨{ world := w }, ?_, hend⟩
  have hrun : recoverStoredSession recoverAddress out sm₀ n c.diffs = some w := by
    unfold recoverStoredSession getDiffs
    rw [hw]
    simp [hout.reads, hout.active, hout.sameVersion, hout.rebuilds, hout.creates]
  simp only [Cluster.step, hdown, hrun, get?_insert_self]

theorem hosts_recover_sample :
    ∃ h, ((({} : Cluster).run namedSigner soloMachine earlyHost).step namedSigner soloMachine
        (.recover 1 2 granting)).hosts.get? 1 = some h ∧
      durableState namedSigner soloMachine
        (({} : Cluster).run namedSigner soloMachine earlyHost).diffs 2 = some h.world.sm :=
  hosts_recover namedSigner_ne_nil soloMachine_ok
    (Cluster.noBindingsLeft_of_accepts (fun ev hev => twoHosts_accept ev (List.mem_append_left _ hev)) _)
    rfl (Option.isNone_iff_eq_none.mp (by decide +kernel)) (by decide +kernel)
    ⟨rfl, rfl, rfl, fun _ _ => rfl, rfl, rfl⟩

end

def Cluster.forked (c : Cluster) : Bool :=
  match c.signed with
  | s :: s' :: _ => s.nonce == s'.nonce && s.root != s'.root
  | _ => false

theorem Cluster.forked_spec {c : Cluster} (h : c.forked = true) :
    ∃ s ∈ c.signed, ∃ s' ∈ c.signed, s.nonce = s'.nonce ∧ s.root ≠ s'.root := by
  unfold forked at h
  split at h
  · next s s' _ heq =>
    rw [Bool.and_eq_true, beq_iff_eq, bne_iff_ne] at h
    rw [heq]
    exact ⟨s, List.mem_cons_self, s', List.mem_cons_of_mem _ List.mem_cons_self, h⟩
  · cases h

/-- The observability store of host 1 is down when the second diff is replayed.
The host keeps the warm key of that diff without the diff, and signs another root
for nonce 1 than host 0 has. -/
theorem reconcile_keeps_bindings :
    ∃ s ∈ (({} : Cluster).run namedSigner soloMachine
        (earlyHost ++ lateHost { obsStore := fun _ _ => false })).signed,
      ∃ s' ∈ (({} : Cluster).run namedSigner soloMachine
        (earlyHost ++ lateHost { obsStore := fun _ _ => false })).signed,
        s.nonce = s'.nonce ∧ s.root ≠ s'.root :=
  Cluster.forked_spec (by decide +kernel)

end Devshard
