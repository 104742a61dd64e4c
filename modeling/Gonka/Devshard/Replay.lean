/-
Replaying durable diffs.

A host persists a diff together with the warm keys that its application has bound.
A replay injects those keys first.  Every signature check then passes without a
question to the resolver, so the replay ends where the first application did,
whatever the resolver of the replaying host would answer.

Main result: `validateDiff_replays`.
-/
import Gonka.Devshard.Compose

namespace Devshard

open Wire OrdMap

variable {env host : Env} {w w' v : World} {calls : List StoreCall}

/-- `types.DiffRecord`, as far as records are compared and replayed. -/
structure DiffRecord where
  diff : Diff
  stateHash : Bytes
  warmKeyDelta : OrdMap ℕ Address
  deriving DecidableEq

/-- `ComputeWarmKeyDelta`: a slot that is not bound reads as the empty address. -/
def computeWarmKeyDelta (before after : OrdMap ℕ Address) : OrdMap ℕ Address :=
  after.filter fun slot addr => decide ((before.get? slot).getD [] ≠ addr)

/-- `InjectWarmKeys`: existing bindings are not overwritten. -/
def injectWarmKeys (delta : OrdMap ℕ Address) (w : World) : World :=
  { w with sm.warmKeys := w.sm.warmKeys.addMissing delta }

/-- Injecting a delta gives the bindings it was computed from, if none was lost
and no new one is the empty address. -/
theorem addMissing_computeWarmKeyDelta {before after : OrdMap ℕ Address}
    (hkeeps : ∀ {slot key}, before.get? slot = some key → after.get? slot = some key)
    (hnew : ∀ {slot key}, before.get? slot = none → after.get? slot = some key → key ≠ []) :
    before.addMissing (computeWarmKeyDelta before after) = after := by
  refine ext_get? fun slot => ?_
  unfold computeWarmKeyDelta
  rw [get?_addMissing, get?_filter]
  cases hbefore : before.get? slot with
  | some =>
    rw [hkeeps hbefore]
    rfl
  | none =>
    cases hafter : after.get? slot with
    | none => rfl
    | some key =>
      have hkey : [] ≠ key := (hnew hbefore hafter).symm
      simp [Option.filter, hkey]

/-! ### The bindings of an apply -/

/-- From `w` to `w'` bindings are kept, and the new ones are of recovered signers
that a resolver has granted. -/
structure BindsSigners (env : Env) (w w' : World) : Prop where
  keeps : ∀ {slot key}, w.sm.warmKeys.get? slot = some key → w'.sm.warmKeys.get? slot = some key
  signed : ∀ {slot key}, w.sm.warmKeys.get? slot = none → w'.sm.warmKeys.get? slot = some key →
    env.warmResolver ≠ none ∧ ∃ data sig, env.recoverAddress data sig = some key

theorem BindsSigners.refl (env : Env) (w : World) : BindsSigners env w w where
  keeps h := h
  signed hnone h := by
    rw [hnone] at h
    cases h

variable {w₁ v₁ : World} {cs : List SigCheck} {sm : StateMachine} {tx : DevshardTx}
  {snap : MutableSnapshot} {txs applied : List DevshardTx} {nonce : ℕ} {post root : Bytes}

theorem BindsSigners.trans {w₂ : World} (h : BindsSigners env w w₁)
    (h' : BindsSigners env w₁ w₂) : BindsSigners env w w₂ where
  keeps hkey := h'.keeps (h.keeps hkey)
  signed := by
    intro slot key hnone hkey
    cases hmid : w₁.sm.warmKeys.get? slot with
    | none => exact h'.signed hmid hkey
    | some key' =>
      obtain rfl : key' = key := Option.some_inj.mp ((h'.keeps hmid).symm.trans hkey)
      exact h.signed hnone hmid

theorem BindsSigners.congr (h : BindsSigners env w w₁) (hkeys : w'.sm.warmKeys = w₁.sm.warmKeys) :
    BindsSigners env w w' where
  keeps hkey := by
    rw [hkeys]
    exact h.keeps hkey
  signed hnone hkey := by
    rw [hkeys] at hkey
    exact h.signed hnone hkey

theorem resolveWarmKey_true {slot : ℕ} {recovered expected : Address}
    (h : resolveWarmKey env slot recovered expected w = (true, w₁)) :
    (w.sm.warmKeys.get? slot = some recovered ∧ w₁ = w) ∨
      (w.sm.warmKeys.get? slot = none ∧
        w₁.sm.warmKeys = w.sm.warmKeys.insert slot recovered) := by
  unfold resolveWarmKey at h
  split at h
  · next hbound =>
    obtain ⟨hwarm, rfl⟩ := Prod.mk.inj h
    obtain rfl := beq_iff_eq.mp hwarm
    exact .inl ⟨hbound, rfl⟩
  · next hnone =>
    split at h
    · cases h
    split at h
    · cases h
      exact .inr ⟨hnone, rfl⟩
    · cases h

theorem SigCheck.run_true {c : SigCheck} (h : c.run env w = (true, w₁)) :
    c.recovered = w.sm.slotAddress c.slot ∨ w₁.sm.warmKeys.get? c.slot = some c.recovered := by
  unfold SigCheck.run acceptSigner at h
  split at h
  · rcases resolveWarmKey_true h with ⟨hbound, rfl⟩ | ⟨-, hinsert⟩
    · exact .inr hbound
    · rw [hinsert, get?_insert_self]
      exact .inr rfl
  · next hcold =>
    exact .inl (not_not.mp hcold)

theorem SigCheck.run_binds (env : Env) (c : SigCheck) {slot : ℕ} {key : Address}
    (hnone : w.sm.warmKeys.get? slot = none)
    (hkey : (c.run env w).2.sm.warmKeys.get? slot = some key) : key = c.recovered := by
  have hcases : (c.run env w).2.sm.warmKeys = w.sm.warmKeys ∨
      (c.run env w).2.sm.warmKeys = w.sm.warmKeys.insert c.slot c.recovered := by
    unfold SigCheck.run acceptSigner resolveWarmKey
    repeat' split
    all_goals first | exact .inl rfl | exact .inr rfl
  rcases hcases with hsame | hinsert
  · rw [hsame, hnone] at hkey
    cases hkey
  · rw [hinsert, get?_insert, hnone] at hkey
    split at hkey
    · exact (Option.some_inj.mp hkey).symm
    · cases hkey

theorem Checked.bindsSigners (h : Checked env w w') : BindsSigners env w w' := by
  induction h with
  | refl => exact .refl env w
  | @run w₁ data sig c _ hsigned ih =>
    have hgrow := c.run_growth env w₁
    refine ih.trans ⟨hgrow.keeps, fun {slot key} hnone hkey => ?_⟩
    obtain ⟨-, _, -, hresolver, -⟩ := hgrow.sound hkey hnone
    refine ⟨by rw [hresolver]; exact Option.some_ne_none _, data, sig, ?_⟩
    rw [c.run_binds env hnone hkey]
    exact hsigned

theorem runChecks_checked
    (hsigned : ∀ c ∈ cs, ∃ data sig, env.recoverAddress data sig = some c.recovered)
    (h : runChecks env cs w = some w₁) : Checked env w w₁ := by
  induction cs generalizing w with
  | nil =>
    cases h
    exact .refl
  | cons c _ ih =>
    obtain ⟨_, _, hc⟩ := hsigned c List.mem_cons_self
    have hfirst := Checked.run c (Checked.refl (w := w)) hc
    unfold runChecks at h
    split at h
    · next hrun =>
      rw [hrun] at hfirst
      exact hfirst.trans (ih (fun c' hc' => hsigned c' (List.mem_cons_of_mem c hc')) h)
    · cases h

theorem timeoutChecks_signed {id : ℕ} {reason : TimeoutReason} {votes : List TimeoutVote}
    {seen : List Address} {n m : UInt32}
    (h : timeoutChecks env sm id reason votes seen n = some (cs, m)) :
    ∀ c ∈ cs, ∃ data sig, env.recoverAddress data sig = some c.recovered := by
  induction votes generalizing seen n cs with
  | nil =>
    cases h
    intro c hc
    cases hc
  | cons vote _ ih =>
    unfold timeoutChecks at h
    iterate 3
      split at h
      · cases h
    next data _ =>
    split at h
    · cases h
    next hrecovered =>
    obtain ⟨_, hrest, heq⟩ := Option.map_eq_some_iff.mp h
    cases heq
    intro c hc
    rcases List.mem_cons.mp hc with rfl | hc
    · exact ⟨data, vote.signature, hrecovered⟩
    · exact ih hrest c hc

theorem TxStep.signed {f : World → World} (h : TxStep env sm tx cs f) :
    ∀ c ∈ cs, ∃ data sig, env.recoverAddress data sig = some c.recovered := by
  have hone : ∀ {slot recovered data sig}, env.recoverAddress data sig = some recovered →
      ∀ c ∈ [(⟨slot, recovered⟩ : SigCheck)],
        ∃ data sig, env.recoverAddress data sig = some c.recovered := by
    intro slot recovered data sig hsigner c hc
    rw [List.mem_singleton.mp hc]
    exact ⟨data, sig, hsigner⟩
  cases h with
  | start => exact nofun
  | confirm _ _ _ hsigner => exact hone hsigner
  | finish _ _ _ hsigner =>
    obtain ⟨_, -, hsigner, -⟩ := hsigner
    exact hone hsigner
  | validationDuplicate => exact nofun
  | validation _ _ _ _ _ hsigner =>
    obtain ⟨_, -, hsigner, -⟩ := hsigner
    exact hone hsigner
  | voteResolved => exact nofun
  | vote _ _ _ _ hsigner =>
    obtain ⟨_, -, hsigner, -⟩ := hsigner
    exact hone hsigner
  | timeout _ _ hvotes => exact timeoutChecks_signed hvotes
  | revealSeed | finalizeRound => exact nofun

theorem applyTx_bindsSigners (h : applyTx env tx w = .ok () w') : BindsSigners env w w' := by
  obtain ⟨_, _, w₁, hstep, hchecks, rfl⟩ := applyTx_ok_iff.mp h
  obtain ⟨g, -, hmirror⟩ := hstep.mirror (Eq.refl env.recoverAddress)
  exact (runChecks_checked hstep.signed hchecks).bindsSigners.congr (hmirror w₁ w₁ rfl).2.1

theorem applyTxs_bindsSigners
    (h : applyTxs env snap txs w = .ok () w') : BindsSigners env w w' := by
  induction txs generalizing w with
  | nil =>
    cases h
    exact .refl env _
  | cons _ _ ih =>
    obtain ⟨_, htx, hrest⟩ := applyTxs_cons h
    exact (applyTx_bindsSigners htx).trans (ih hrest)

theorem applyTxsBestEffort_bindsSigners (hlive : LiveWritable w.sm)
    (h : applyTxsBestEffort env snap txs w = .ok applied w') :
    BindsSigners env w w' := by
  induction txs generalizing w applied with
  | nil =>
    cases h
    exact .refl env _
  | cons _ _ ih =>
    obtain ⟨_, _, hlive₁, hrest, ⟨htx, -⟩ | ⟨_, -, -, -, hchecked⟩⟩ :=
      applyTxsBestEffort_cons hlive h
    · exact (applyTx_bindsSigners htx).trans (ih hlive₁ hrest)
    · exact hchecked.bindsSigners.trans (ih hlive₁ hrest)

/-- The machine of `v` is that of `w` with the bindings `final`, among them those
of `w`. -/
structure Ahead (final : OrdMap ℕ Address) (w v : World) : Prop where
  same : v.sm = { w.sm with warmKeys := final }
  keeps : ∀ {slot key}, w.sm.warmKeys.get? slot = some key → final.get? slot = some key

variable {final : OrdMap ℕ Address}

theorem SigCheck.run_ahead (host : Env) {c : SigCheck} (hrun : c.run env w = (true, w₁))
    (h : Ahead final w v) (h₁ : Ahead final w₁ v) :
    c.run host v = (true, v) := by
  have haddr : v.sm.slotAddress c.slot = w.sm.slotAddress c.slot := by
    rw [h.same]
    rfl
  unfold SigCheck.run acceptSigner
  rw [haddr]
  split
  · next hwarm =>
    rcases SigCheck.run_true hrun with hcold | hbound
    · exact absurd hcold hwarm
    have hkey : v.sm.warmKeys.get? c.slot = some c.recovered := by
      rw [h.same]
      exact h₁.keeps hbound
    simp only [resolveWarmKey, hkey, beq_self_eq_true]
  · rfl

theorem runChecks_ahead (host : Env) (hrun : runChecks env cs w = some w₁) (h : Ahead final w v)
    (hfinal : ∀ {slot key}, w₁.sm.warmKeys.get? slot = some key → final.get? slot = some key) :
    runChecks host cs v = some v ∧ Ahead final w₁ v := by
  induction cs generalizing w with
  | nil =>
    cases hrun
    exact ⟨rfl, h⟩
  | cons c _ ih =>
    unfold runChecks at hrun ⊢
    have hgrow := c.run_growth env w
    cases hc : c.run env w with
    | mk passed w₂ =>
      rw [hc] at hrun hgrow
      cases passed with
      | false => cases hrun
      | true =>
        have hrest := runChecks_growth hrun
        have h₂ : Ahead final w₂ v := by
          refine ⟨?_, fun hkey => hfinal (hrest.keeps hkey)⟩
          rw [h.same, show w₂ = _ from hgrow.same]
        rw [SigCheck.run_ahead host hc h h₂]
        exact ih hrun h₂

variable (hrec : host.recoverAddress = env.recoverAddress)

section

include hrec

theorem applyTx_ahead (hrun : applyTx env tx w = .ok () w') (h : Ahead final w v)
    (hfinal : ∀ {slot key}, w'.sm.warmKeys.get? slot = some key → final.get? slot = some key) :
    ∃ v', applyTx host tx v = .ok () v' ∧ Ahead final w' v' := by
  obtain ⟨_, _, w₁, hstep, hchecks, rfl⟩ := applyTx_ok_iff.mp hrun
  have hstep' := hstep.of_sameButWarm final
  rw [← h.same] at hstep'
  obtain ⟨g, hstep', hmirror⟩ := hstep'.mirror hrec
  obtain ⟨-, hkeys, hseals⟩ := hmirror w₁ w₁ rfl
  obtain ⟨hchecks', h₁⟩ := runChecks_ahead host hchecks h (by rwa [hkeys] at hfinal)
  obtain ⟨hsame, -⟩ := hmirror w₁ v (by rw [h₁.same])
  refine ⟨g v, hstep'.applyTx_eq hchecks', hsame.trans ?_, hfinal⟩
  rw [h₁.same, ← hseals]

theorem applyTxs_ahead (snap' : MutableSnapshot) (hrun : applyTxs env snap txs w = .ok () w')
    (h : Ahead final w v) (hfinal : w'.sm.warmKeys = final) :
    ∃ v', applyTxs host snap' txs v = .ok () v' ∧ v'.sm = w'.sm := by
  induction txs generalizing w v with
  | nil =>
    cases hrun
    refine ⟨v, rfl, ?_⟩
    rw [h.same, ← hfinal]
  | cons _ _ ih =>
    obtain ⟨_, htx, hrest⟩ := applyTxs_cons hrun
    have hlater := applyTxs_bindsSigners hrest
    obtain ⟨_, htx', h₁⟩ := applyTx_ahead hrec htx h fun hkey => by
      rw [← hfinal]
      exact hlater.keeps hkey
    obtain ⟨v', hrest', hsm⟩ := ih hrest h₁
    refine ⟨v', ?_, hsm⟩
    rw [applyTxs, htx']
    exact hrest'

/-- What a best-effort pass has applied, applies where all its bindings are made
already, and leaves the same machine. -/
theorem applyTxsBestEffort_ahead (snap' : MutableSnapshot) (hlive : LiveWritable w.sm)
    (hrun : applyTxsBestEffort env snap txs w = .ok applied w') (h : Ahead final w v)
    (hfinal : w'.sm.warmKeys = final) :
    applied.Sublist txs ∧ ∃ v', applyTxs host snap' applied v = .ok () v' ∧ v'.sm = w'.sm := by
  induction txs generalizing w v applied with
  | nil =>
    cases hrun
    refine ⟨.refl _, v, rfl, ?_⟩
    rw [h.same, ← hfinal]
  | cons tx _ ih =>
    obtain ⟨w₁, _, hlive₁, hrest, hfirst⟩ := applyTxsBestEffort_cons hlive hrun
    have hlater : ∀ {slot key}, w₁.sm.warmKeys.get? slot = some key →
        final.get? slot = some key := by
      intro slot key hkey
      rw [← hfinal]
      exact (applyTxsBestEffort_bindsSigners hlive₁ hrest).keeps hkey
    rcases hfirst with ⟨htx, rfl⟩ | ⟨e, htx, rfl, -, hchecked⟩
    · obtain ⟨_, htx', h₁⟩ := applyTx_ahead hrec htx h hlater
      obtain ⟨hsub, v', hrest', hsm⟩ := ih hlive₁ hrest h₁
      refine ⟨hsub.cons_cons tx, v', ?_, hsm⟩
      rw [applyTxs, htx']
      exact hrest'
    · -- a skipped candidate has only made bindings, which `v` has
      have h₁ : Ahead final w₁ v := by
        refine ⟨?_, hlater⟩
        rw [h.same, show w₁ = _ from hchecked.growth.same]
      obtain ⟨hsub, hreplay⟩ := ih hlive₁ hrest h₁
      exact ⟨hsub.cons tx, hreplay⟩

end

theorem applyCore_bindsSigners
    (h : applyCore env nonce txs post w = .ok root w') : BindsSigners env w w' := by
  obtain ⟨-, ⟨_, htxs, hclose⟩, -⟩ := applyCore_ok_iff.mp h
  exact (applyTxs_bindsSigners htxs).congr (closeNonce_keys hclose).1

theorem applyCore_latestNonce (h : applyCore env nonce txs post w = .ok root w') :
    nonce = w.sm.latestNonce + 1 ∧ w'.sm.latestNonce = nonce := by
  obtain ⟨-, ⟨_, -, hclose⟩, -⟩ := applyCore_ok_iff.mp h
  exact ⟨applyCore_nonce h, (closeNonce_keys hclose).2⟩

theorem applyCore_of_closeNonce (hcheck : checkDiff v.sm.latestNonce nonce txs = .ok ())
    (htxs : applyTxs host v.sm.snapshotMutable txs v = .ok () v₁)
    (hclose : closeNonce env nonce snap w₁ = .ok root w') (hsm : v₁.sm = w₁.sm)
    (hb : v.Buffers calls) (hroot : ¬ (post.length > 0 ∧ root ≠ post)) :
    ∃ v', applyCore host nonce txs post v = .ok root v' ∧ v'.sm = w'.sm := by
  have hb₁ := (applyTxs_deferrable host v.sm.snapshotMutable txs v hb).2
  rw [htxs] at hb₁
  obtain ⟨v', hclose', hsm'⟩ := closeNonce_buffered host v.sm.snapshotMutable hclose hb₁ hsm
  exact ⟨v', applyCore_ok_iff.mpr ⟨hcheck, ⟨v₁, htxs, hclose'⟩, hroot⟩, hsm'⟩

include hrec in
theorem applyCore_buffered_again {post' : Bytes} (hpost : post' = [] ∨ post' = post)
    (h : applyCore env nonce txs post w = .ok root w')
    (hv : v.sm = { w.sm with warmKeys := w'.sm.warmKeys }) (hb : v.Buffers calls) :
    ∃ v', applyCore host nonce txs post' v = .ok root v' ∧ v'.sm = w'.sm := by
  have hbinds := applyCore_bindsSigners h
  obtain ⟨hcheck, ⟨_, htxs, hclose⟩, hroot⟩ := applyCore_ok_iff.mp h
  obtain ⟨_, htxs', hsm⟩ := applyTxs_ahead hrec v.sm.snapshotMutable htxs ⟨hv, hbinds.keeps⟩
    (closeNonce_keys hclose).1.symm
  refine applyCore_of_closeNonce ?_ htxs' hclose hsm hb ?_
  · rw [hv]
    exact hcheck
  · rcases hpost with rfl | rfl
    · exact fun hlen => absurd hlen.1 (Nat.lt_irrefl 0)
    · exact hroot

theorem localBestEffort_bindsSigners (hlive : LiveWritable w.sm)
    (h : localBestEffort env nonce txs w = .ok (root, applied) w') :
    BindsSigners env w w' := by
  obtain ⟨-, _, htxs, hclose⟩ := localBestEffort_ok h
  exact (applyTxsBestEffort_bindsSigners hlive htxs).congr (closeNonce_keys hclose).1

include hrec in
/-- What was composed by best effort is taken by a strict trial on a machine that has
the bindings, those of skipped candidates among them. -/
theorem localBestEffort_buffered_again (hlive : LiveWritable w.sm)
    (h : localBestEffort env nonce txs w = .ok (root, applied) w')
    (hv : v.sm = { w.sm with warmKeys := w'.sm.warmKeys }) (hb : v.Buffers calls) :
    ∃ v', applyCore host nonce applied [] v = .ok root v' ∧ v'.sm = w'.sm := by
  have hbinds := localBestEffort_bindsSigners hlive h
  obtain ⟨hcheck, _, htxs, hclose⟩ := localBestEffort_ok h
  obtain ⟨hsub, _, htxs', hsm⟩ := applyTxsBestEffort_ahead hrec v.sm.snapshotMutable hlive htxs
    ⟨hv, hbinds.keeps⟩ (closeNonce_keys hclose).1.symm
  refine applyCore_of_closeNonce ?_ htxs' hclose hsm hb ?_
  · rw [hv]
    exact checkDiff_sublist hsub hcheck
  · exact fun hlen => absurd hlen.1 (Nat.lt_irrefl 0)

include hrec in
/-- **An apply that has succeeded succeeds again** with its bindings injected, on
every host, and ends in the same state, unless the store of that host refuses a
row of the settlement drain. -/
theorem applyCore_again {post' : Bytes} (hpost : post' = [] ∨ post' = post)
    (h : applyCore env nonce txs post w = .ok root w')
    (hv : v.sm = { w.sm with warmKeys := w'.sm.warmKeys }) (hidle : v.obsDeferred = none) :
    (∃ v', applyCore host nonce txs post' v = .ok root v' ∧ v'.sm = w'.sm) ∨
      ((∃ e v', applyCore host nonce txs post' v = .error e v') ∧
        ApplyRefused host nonce txs post' v root) := by
  obtain ⟨v₁, htrial, hsm⟩ := applyCore_buffered_again hrec hpost h
    (show v.buffering.sm = _ from hv) v.buffering_buffers
  exact ((applyCore_deferrable host nonce txs post').direct hidle htrial).imp_left fun hok =>
    ⟨v₁.direct host, hok, hsm⟩

theorem not_applyRefused (haccepts : ∀ calls c, env.store calls c = true) :
    ¬ ApplyRefused env nonce txs post w root :=
  not_applyRefused_of_drainTaken fun _ _ _ calls c _ => haccepts calls c

section
variable {vd : ValidatedDiff}

theorem commitValidated_sm {w₂ : World} (hnonce : vd.nonce = w.sm.latestNonce + 1)
    (hpost : vd.post = w₂.sm.snapshotMutable) (hsame : SameSession w₂.sm w.sm) :
    (commitValidated env vd w).2.sm = w₂.sm := by
  unfold commitValidated
  rw [if_neg (not_not.mpr hnonce)]
  rw [flushDeferredObs_sm, hpost]
  exact restoreMutable_snapshotMutable hsame

variable {diff : Diff}

theorem validateDiff_ok (h : validateDiff env diff w = .ok vd w') :
    verifyDiffUserSig env diff w.sm = .ok () ∧ w'.sm = w.sm ∧
      ∃ w₂, applyCore env diff.nonce diff.txs diff.postStateRoot w.buffering = .ok vd.root w₂ ∧
        vd.warmAfter = w₂.sm.warmKeys ∧ (commitValidated env vd w').2.sm = w₂.sm := by
  have hw' := validateDiff_sm env diff w
  rw [h] at hw'
  change w'.sm = w.sm at hw'
  unfold validateDiff at h
  split at h
  · cases h
  next hsig =>
  refine ⟨hsig, ?_⟩
  obtain ⟨_, w₂, hrun, hvd⟩ := trialApply_ok h
  have hroll := applyCore_rolledBack env diff.nonce diff.txs diff.postStateRoot w.buffering
  rw [hrun] at hroll
  have hnonce : diff.nonce = w.buffering.sm.latestNonce + 1 := applyCore_nonce hrun
  subst hvd
  refine ⟨hw', w₂, hrun, rfl, commitValidated_sm ?_ rfl ?_⟩
  · rw [hw']
    exact hnonce
  · rw [hw']
    exact SameSession.symm hroll

theorem validateDiff_error {e : Err} (h : validateDiff env diff w = .error e w') :
    w'.sm = w.sm := by
  have hsm := validateDiff_sm env diff w
  rw [h] at hsm
  exact hsm

theorem validateDiff_isOk {root : Bytes} {w₂ : World}
    (hsig : verifyDiffUserSig env diff w.sm = .ok ())
    (hrun : applyCore env diff.nonce diff.txs diff.postStateRoot w.buffering = .ok root w₂) :
    ∃ vd w', validateDiff env diff w = .ok vd w' ∧ vd.root = root := by
  unfold validateDiff trialApply
  rw [hsig]
  rw [show ({ w with obsDeferred := some [] } : World) = w.buffering from rfl, hrun]
  exact ⟨_, _, rfl, rfl⟩

theorem previewLocalBestEffort_ok {nonce : ℕ} {txs : List DevshardTx}
    (h : previewLocalBestEffort env nonce txs w = .ok vd w') :
    w'.sm = w.sm ∧
      ∃ w₂, localBestEffort env nonce txs w.buffering = .ok (vd.root, vd.applied) w₂ ∧
        vd.warmAfter = w₂.sm.warmKeys ∧ (commitValidated env vd w').2.sm = w₂.sm := by
  have hw' := previewLocalBestEffort_sm env nonce txs w
  rw [h] at hw'
  obtain ⟨_, w₂, hrun, hvd⟩ := trialApply_ok h
  have hroll := localBestEffort_rolledBack env nonce txs w.buffering
  rw [hrun] at hroll
  have hnonce : nonce = w.buffering.sm.latestNonce + 1 := localBestEffort_nonce hrun
  change w'.sm = w.sm at hw'
  subst hvd
  refine ⟨hw', w₂, hrun, rfl, commitValidated_sm ?_ rfl ?_⟩
  · rw [hw']
    exact hnonce
  · rw [hw']
    exact SameSession.symm hroll

theorem previewLocalBestEffort_error {nonce : ℕ} {txs : List DevshardTx} {e : Err}
    (h : previewLocalBestEffort env nonce txs w = .error e w') : w'.sm = w.sm := by
  have hsm := previewLocalBestEffort_sm env nonce txs w
  rw [h] at hsm
  exact hsm

end

/-! ### Durable records -/

/-- Services that refuse no row and know no warm key. -/
def Env.quiet (recoverAddress : Bytes → Bytes → Option Address) : Env where
  recoverAddress := recoverAddress
  warmResolver := none
  store := fun _ _ => true

/-- The state after a durable record: its bindings, then its diff, which must give
the recorded state hash. -/
def replayRecord (recoverAddress : Bytes → Bytes → Option Address) (rec : DiffRecord)
    (sm : StateMachine) : Option StateMachine :=
  match applyDiff (Env.quiet recoverAddress) rec.diff
      (injectWarmKeys rec.warmKeyDelta { sm := sm }) with
  | .error _ _ => none
  | .ok root w => if root = rec.stateHash then some w.sm else none

include hrec in
theorem verifyDiffUserSig_congr {diff : Diff} {sm' : StateMachine}
    (hid : sm'.escrowID = sm.escrowID) (huser : sm'.userAddress = sm.userAddress) :
    verifyDiffUserSig host diff sm' = verifyDiffUserSig env diff sm := by
  unfold verifyDiffUserSig
  rw [hrec, hid, huser]

theorem applyDiff_ok_iff {diff : Diff} :
    applyDiff env diff w = .ok root w' ↔ verifyDiffUserSig env diff w.sm = .ok () ∧
      applyCore env diff.nonce diff.txs diff.postStateRoot w = .ok root w' := by
  unfold applyDiff
  cases verifyDiffUserSig env diff w.sm with
  | error =>
    constructor
    · intro h
      cases h
    · rintro ⟨h, -⟩
      cases h
  | ok => exact ⟨fun h => ⟨rfl, h⟩, fun h => h.2⟩

theorem replayRecord_eq_some {recoverAddress : Bytes → Bytes → Option Address} {rec : DiffRecord}
    {sm' : StateMachine} :
    replayRecord recoverAddress rec sm = some sm' ↔
      ∃ w₁, verifyDiffUserSig (Env.quiet recoverAddress) rec.diff sm = .ok () ∧
        applyCore (Env.quiet recoverAddress) rec.diff.nonce rec.diff.txs rec.diff.postStateRoot
          (injectWarmKeys rec.warmKeyDelta { sm := sm }) = .ok rec.stateHash w₁ ∧ w₁.sm = sm' := by
  have hsig : verifyDiffUserSig (Env.quiet recoverAddress) rec.diff
      (injectWarmKeys rec.warmKeyDelta { sm := sm }).sm
      = verifyDiffUserSig (Env.quiet recoverAddress) rec.diff sm :=
    verifyDiffUserSig_congr rfl rfl rfl
  unfold replayRecord
  constructor
  · intro h
    split at h
    · cases h
    next w₁ hrun =>
    split at h
    · next hroot =>
      obtain ⟨hok, hcore⟩ := applyDiff_ok_iff.mp hrun
      rw [hroot] at hcore
      exact ⟨w₁, hok, hcore, Option.some_inj.mp h⟩
    · cases h
  · rintro ⟨_, hok, hcore, rfl⟩
    rw [applyDiff_ok_iff.mpr ⟨hsig.trans hok, hcore⟩]
    exact if_pos rfl

theorem quiet_warmKeys {recoverAddress : Bytes → Bytes → Option Address}
    (h : applyCore (Env.quiet recoverAddress) nonce txs post w = .ok root w') :
    w'.sm.warmKeys = w.sm.warmKeys := by
  have hbinds := applyCore_bindsSigners h
  refine ext_get? fun slot => ?_
  cases hkey : w.sm.warmKeys.get? slot with
  | some => exact hbinds.keeps hkey
  | none =>
    cases hkey' : w'.sm.warmKeys.get? slot with
    | none => rfl
    | some => exact absurd rfl (hbinds.signed hkey hkey').1

section
variable {diff : Diff} {vd : ValidatedDiff} {rec : DiffRecord} {sm' : StateMachine}

def ValidatedDiff.record (vd : ValidatedDiff) (diff : Diff) (sm : StateMachine) : DiffRecord where
  diff := diff
  stateHash := vd.root
  warmKeyDelta := computeWarmKeyDelta sm.warmKeys vd.warmAfter

/-- **What a host persists, replays to what it commits**, provided that a recovered
address is never empty. -/
theorem validateDiff_replays
    (hnamed : ∀ data sig addr, env.recoverAddress data sig = some addr → addr ≠ [])
    (h : validateDiff env diff w = .ok vd w') :
    replayRecord env.recoverAddress (vd.record diff w.sm) w.sm
        = some (w.sm.restoreMutable vd.post) ∧
      vd.nonce = w.sm.latestNonce + 1 ∧ diff.nonce = vd.nonce := by
  unfold validateDiff at h
  cases hsig : verifyDiffUserSig env diff w.sm with
  | error => rw [hsig] at h; cases h
  | ok =>
    rw [hsig] at h
    obtain ⟨_, w₁, hrun, rfl⟩ := trialApply_ok h
    have hnonce : diff.nonce = w.buffering.sm.latestNonce + 1 := applyCore_nonce hrun
    refine ⟨?_, hnonce, rfl⟩
    have hbinds := applyCore_bindsSigners hrun
    have hinject : w.sm.warmKeys.addMissing (computeWarmKeyDelta w.sm.warmKeys w₁.sm.warmKeys)
        = w₁.sm.warmKeys := by
      refine addMissing_computeWarmKeyDelta hbinds.keeps fun hnone hkey => ?_
      obtain ⟨-, data, sig, hsigner⟩ := hbinds.signed hnone hkey
      exact hnamed data sig _ hsigner
    have hv : (injectWarmKeys (computeWarmKeyDelta w.sm.warmKeys w₁.sm.warmKeys) { sm := w.sm }).sm
        = { w.buffering.sm with warmKeys := w₁.sm.warmKeys } := by
      unfold injectWarmKeys
      rw [hinject]
      rfl
    have hrec : (Env.quiet env.recoverAddress).recoverAddress = env.recoverAddress := rfl
    rcases applyCore_again hrec (.inr rfl) hrun hv rfl with ⟨v', hagain, hsm⟩ | ⟨-, hrefused⟩
    · refine replayRecord_eq_some.mpr ⟨v', ?_, hagain, ?_⟩
      · exact (verifyDiffUserSig_congr rfl rfl rfl).trans hsig
      have hroll := applyCore_rolledBack env diff.nonce diff.txs diff.postStateRoot w.buffering
      rw [hrun] at hroll
      rw [hsm]
      exact (restoreMutable_snapshotMutable (SameSession.symm hroll)).symm
    · exact absurd hrefused (not_applyRefused fun _ _ => rfl)

variable {sm : StateMachine} {recoverAddress : Bytes → Bytes → Option Address}

theorem injectWarmKeys_sm {delta : OrdMap ℕ Address} (hw : w.sm = sm) :
    (injectWarmKeys delta w).sm = (injectWarmKeys delta { sm := sm }).sm := by
  subst hw
  rfl

/-- **A durable record, replayed by a host**: with the signature and the root
checked, or without either, as in a recovery. -/
theorem replayRecord_again (hrec : host.recoverAddress = recoverAddress)
    (h : replayRecord recoverAddress rec sm = some sm') (hw : w.sm = sm)
    (hidle : w.obsDeferred = none) {post : Bytes}
    (hpost : post = [] ∨ post = rec.diff.postStateRoot) :
    (∃ w', applyCore host rec.diff.nonce rec.diff.txs post (injectWarmKeys rec.warmKeyDelta w)
        = .ok rec.stateHash w' ∧ w'.sm = sm') ∨
      ((∃ e w', applyCore host rec.diff.nonce rec.diff.txs post
          (injectWarmKeys rec.warmKeyDelta w) = .error e w') ∧
        ApplyRefused host rec.diff.nonce rec.diff.txs post (injectWarmKeys rec.warmKeyDelta w)
          rec.stateHash) := by
  obtain ⟨_, -, hrun, rfl⟩ := replayRecord_eq_some.mp h
  refine applyCore_again hrec hpost hrun ?_ hidle
  rw [injectWarmKeys_sm hw, quiet_warmKeys hrun]

theorem replayRecord_applyDiff (hrec : host.recoverAddress = recoverAddress)
    (h : replayRecord recoverAddress rec sm = some sm') (hw : w.sm = sm)
    (hidle : w.obsDeferred = none) :
    (∃ w', applyDiff host rec.diff (injectWarmKeys rec.warmKeyDelta w) = .ok rec.stateHash w' ∧
        w'.sm = sm') ∨
      ((∃ e w', applyDiff host rec.diff (injectWarmKeys rec.warmKeyDelta w) = .error e w') ∧
        ApplyRefused host rec.diff.nonce rec.diff.txs rec.diff.postStateRoot
          (injectWarmKeys rec.warmKeyDelta w) rec.stateHash) := by
  obtain ⟨-, hsig, -, -⟩ := replayRecord_eq_some.mp h
  have hsig' : verifyDiffUserSig host rec.diff (injectWarmKeys rec.warmKeyDelta w).sm = .ok () := by
    subst hw
    exact (verifyDiffUserSig_congr hrec rfl rfl).trans hsig
  have happly : applyDiff host rec.diff (injectWarmKeys rec.warmKeyDelta w)
      = applyCore host rec.diff.nonce rec.diff.txs rec.diff.postStateRoot
          (injectWarmKeys rec.warmKeyDelta w) := by
    rw [applyDiff, hsig']
  rw [happly]
  exact replayRecord_again hrec h hw hidle (.inr rfl)

theorem replayRecord_latestNonce (h : replayRecord recoverAddress rec sm = some sm') :
    rec.diff.nonce = sm.latestNonce + 1 ∧ sm'.latestNonce = rec.diff.nonce := by
  obtain ⟨_, -, hrun, rfl⟩ := replayRecord_eq_some.mp h
  exact applyCore_latestNonce hrun

end

end Devshard
