/-
Runs of a machine.

`Tracks env B₀ s d` relates a driver to a session: the driver's machine is the
session's, the session holds `B₀`, and every handle a trial has returned is stale
or leads, by steps, to a session of its own.  Each operation performs steps of the
session it tracks (`runOp_tracks`), so every invariant of `Step` holds along every
run of operations from a new machine (`runOps_tracks`).

Main results: `escrow_conserved`, `lifecycle`.
-/
import Gonka.Devshard.Closing

namespace Devshard

open OrdMap

variable {env : Env} {B₀ : ℕ} {s s' : Session} {d : Driver} {w w' : World}

def Session.new (sm : StateMachine) : Session := ⟨sm, []⟩

/-- A session as it is between two operations. -/
structure Rests (B₀ : ℕ) (s : Session) : Prop where
  sound : Sound B₀ s
  settled : s.sm.phase = .settlement → ∀ id, s.sm.inferences.get? id = none
  bounded : Bounded s

section New
variable {escrowID : Bytes} {config : SessionConfig} {group : List SlotAssignment}
  {balance : UInt64} {userAddress : Address} {version : Bytes} {sm : StateMachine}

theorem newStateMachine_ok
    (h : newStateMachine escrowID config group balance userAddress version = .ok sm) :
    sm.group = group ∧ sm.phase = .active ∧ sm.latestNonce = 0 ∧ sm.inferences = ∅ ∧
      sm.committedEntries = ∅ ∧ sm.sealedNonces = ∅ ∧ sm.sealedAcc = [] ∧
      sm.hostStats = group.foldl (fun m s => m.insert s.slotID {}) ∅ ∧
      sm.balance.toNat + sm.fees.toNat = balance.toNat := by
  unfold newStateMachine at h
  dsimp only at h
  split at h
  · cases h
  next hfee =>
  have hle := UInt64.not_lt.mp hfee
  cases h
  refine ⟨rfl, rfl, rfl, rfl, rfl, rfl, rfl, rfl, ?_⟩
  rw [UInt64.toNat_sub_of_le _ _ hle, Nat.sub_add_cancel (UInt64.le_iff_toNat_le.mp hle)]

theorem newStateMachine_hostStats (hg : validateGroup group)
    (h : newStateMachine escrowID config group balance userAddress version = .ok sm)
    (slot : ℕ) (hs : HostStats) :
    sm.hostStats.get? slot = some hs ↔ (∃ s ∈ group, s.slotID = slot) ∧ hs = {} := by
  obtain ⟨-, -, -, -, -, -, -, hstats, -⟩ := newStateMachine_ok h
  rw [hstats, get?_foldl_insert SlotAssignment.slotID (fun _ => ({} : HostStats))
    (validateGroup_nodup hg)]
  simp only [get?_empty, reduceCtorEq, and_false, or_false]
  constructor
  · rintro ⟨s, hs, hid, rfl⟩
    exact ⟨⟨s, hs, hid⟩, rfl⟩
  · rintro ⟨⟨s, hs, hid⟩, rfl⟩
    exact ⟨s, hs, hid, rfl⟩

theorem executorSlotFor_mem (hg : validateGroup group) (id : ℕ) :
    ∃ s ∈ group, s.slotID = executorSlotFor group id := by
  have hlt : id % group.length < group.length := Nat.mod_lt _ (validateGroup_pos hg)
  refine ⟨group.get ⟨id % group.length, hlt⟩, List.get_mem _ _, ?_⟩
  simp [executorSlotFor, hlt]

theorem newStateMachine_rests (hg : validateGroup group)
    (h : newStateMachine escrowID config group balance userAddress version = .ok sm) :
    Rests balance.toNat (Session.new sm) := by
  have hstats := newStateMachine_hostStats hg h
  obtain ⟨hgroup, -, _, hlive, hentries, hsealed, hacc, -, htotal⟩ := newStateMachine_ok h
  have hnone : ∀ id r, ¬ (Session.new sm).Holds id r := by
    rintro _ _ (hr | ⟨_, he, -⟩)
    · simp [Session.new, hlive] at hr
    · cases he
  have hsum : ∀ f, (Session.new sm).sum f = 0 := by
    simp [Session.sum, Session.new, hlive]
  refine ⟨⟨⟨balance.toNat_lt, ?_, ?_, fun id => ?_, fun id r hr => absurd (.inl hr) (hnone id r)⟩, ?_⟩,
    fun _ id => by rw [Session.new, hlive, get?_empty], fun id r hr => absurd hr (hnone id r)⟩
  · have hcosts : sm.hostStats.sum (fun _ hs => hs.cost.toNat) = 0 := by
      refine sum_eq_zero fun slot hs hget => ?_
      rw [((hstats slot hs).mp hget).2]
      rfl
    simp only [Session.new, hlive, hcosts, sum_empty, htotal, Nat.add_zero]
  · intro slot hs hget
    rw [hsum, ((hstats slot hs).mp hget).2]
    rfl
  · rw [Session.new, hgroup, (hstats _ {}).mpr ⟨executorSlotFor_mem hg id, rfl⟩]
    rfl
  · exact
      { entries := fun id r hr => absurd (.inl hr) (hnone id r)
        noEntry := fun id _ => by simp [Session.new, hentries]
        evicted := fun _ h => by cases h
        sealedNonces := fun id n => by simp [Session.new, hsealed]
        once := List.nodup_nil
        order := List.Pairwise.nil
        nonces := fun _ h => by cases h
        written := fun _ h => by cases h
        accumulator := hacc
        ids := fun id r hr => absurd hr (hnone id r)
        executors := fun id r hr => absurd hr (hnone id r) }

end New

/-- One of the two pipelines takes the machine `sm` to `sm'`. -/
inductive Applied (env : Env) (sm : StateMachine) : StateMachine → Prop
  | core {w w' : World} {nonce : ℕ} {txs : List DevshardTx} {postStateRoot root : Bytes}
      (hw : w.sm = sm) (h : applyCore env nonce txs postStateRoot w = .ok root w') :
      Applied env sm w'.sm
  | bestEffort {w w' : World} {nonce : ℕ} {txs : List DevshardTx}
      {result : Bytes × List DevshardTx} (hw : w.sm = sm)
      (h : localBestEffort env nonce txs w = .ok result w') : Applied env sm w'.sm

structure Advances (env : Env) (B₀ : ℕ) (s s' : Session) : Prop where
  steps : Steps s s'
  rests : Rests B₀ s'
  latestNonce : s'.sm.latestNonce = s.sm.latestNonce + 1
  applied : Applied env s.sm s'.sm

theorem Steps.no_live (hsteps : Steps s s') (hphase : s.sm.phase ≠ .active)
    (hempty : ∀ id, s.sm.inferences.get? id = none) (hc : Consistent s') (id : ℕ) :
    s'.sm.inferences.get? id = none := by
  obtain ⟨_, hcont⟩ := hsteps.continues
  by_contra hlive
  obtain ⟨r, hr⟩ := Option.ne_none_iff_exists'.mp hlive
  rcases hcont.came id r (.inl hr) with ⟨_, hold | ⟨e, he, hid, -⟩, -⟩ | ⟨hactive, -⟩
  · rw [hempty id] at hold
    cases hold
  · -- a sealed inference stays evicted
    rw [← hid, hc.evicted e (by rw [hcont.sealed]; exact List.mem_append_left _ he)] at hr
    cases hr
  · exact hphase hactive

theorem Closed.advances {sealed : List SealedRecord} (hs : Rests B₀ ⟨w.sm, sealed⟩)
    (h : Closed sealed (w.sm.latestNonce + 1) w w') (happ : Applied env w.sm w'.sm) :
    ∃ sealed', Advances env B₀ ⟨w.sm, sealed⟩ ⟨w'.sm, sealed'⟩ := by
  obtain ⟨sealed', hsteps, hb⟩ := h.steps
  have hsound := hs.sound.steps hsteps
  refine ⟨sealed', hsteps, ⟨hsound, fun hphase => ?_, hb⟩, h.latestNonce, happ⟩
  rcases h.settled hphase with hold | hempty
  · have hne : w.sm.phase ≠ .active := by
      rw [hold]
      decide
    exact hsteps.no_live hne (hs.settled hold) hsound.consistent
  · exact hempty

/-- A handle that a commit would install from the session `s`, or refuse. -/
def Installs (env : Env) (B₀ : ℕ) (s : Session) (vd : ValidatedDiff) : Prop :=
  vd.nonce ≤ s.sm.latestNonce ∨
    vd.nonce = s.sm.latestNonce + 1 ∧ ∃ s', Advances env B₀ s s' ∧ vd.post = s'.sm.snapshotMutable

/-- The driver `d` is in the session `s`. -/
structure Tracks (env : Env) (B₀ : ℕ) (s : Session) (d : Driver) : Prop where
  machine : d.world.sm = s.sm
  rests : Rests B₀ s
  wrapped : d.world.wrapped = false
  handles : ∀ vd ∈ d.handles, Installs env B₀ s vd

theorem Installs.stale {vd : ValidatedDiff} (hadv : Advances env B₀ s s') (h : Installs env B₀ s vd) :
    Installs env B₀ s' vd := by
  have hnonce := hadv.latestNonce
  rcases h with _ | ⟨_, -⟩
  · exact .inl (by omega)
  · exact .inl (by omega)

theorem Tracks.apply {α : Type} {o : Outcome α} (h : Tracks env B₀ s d)
    (hclosed : ClosedOutcome s.sealed (d.world.sm.latestNonce + 1) d.world o)
    (hroll : RolledBack d.world.sm o)
    (happ : ∀ a w', o = .ok a w' → Applied env d.world.sm w'.sm) :
    ∃ s', (s' = s ∨ Advances env B₀ s s') ∧ Tracks env B₀ s' { d with world := o.world } := by
  obtain ⟨sm, sealed⟩ := s
  obtain ⟨rfl, hrests, hwrapped, hhandles⟩ := h
  cases o with
  | error =>
    exact ⟨_, .inl rfl, hroll, hrests, Eq.trans hclosed hwrapped, hhandles⟩
  | ok a w' =>
    obtain ⟨_, hadv⟩ := Closed.advances hrests hclosed (happ a w' rfl)
    exact ⟨_, .inr hadv, rfl, hadv.rests, (Closed.wrapped hclosed).trans hwrapped,
      fun vd hvd => (hhandles vd hvd).stale hadv⟩

theorem Tracks.trial {α : Type} {run : World → Outcome α}
    (handle : α → MutableSnapshot → OrdMap ℕ Address → List DeferredObsWrite → ValidatedDiff)
    (h : Tracks env B₀ s d)
    (hclosed : ∀ w, w.sm = s.sm → ClosedOutcome s.sealed (w.sm.latestNonce + 1) w (run w))
    (hroll : ∀ w, RolledBack w.sm (run w))
    (happ : ∀ {w a w'}, run w = .ok a w' → Applied env w.sm w'.sm)
    (hpost : ∀ a post warm obs, (handle a post warm obs).post = post)
    (hnonce : ∀ w a w', run w = .ok a w' → ∀ post warm obs,
      (handle a post warm obs).nonce = w.sm.latestNonce + 1) :
    match trialApply run handle d.world with
    | .error _ w => Tracks env B₀ s { d with world := w }
    | .ok vd w => Tracks env B₀ s { world := w, handles := d.handles ++ [vd] } := by
  have hsm : (trialApply run handle d.world).world.sm = d.world.sm := trialApply_sm hroll d.world
  obtain ⟨sm, sealed⟩ := s
  obtain ⟨rfl, hrests, hwrapped, hhandles⟩ := h
  have hrun := hclosed { d.world with obsDeferred := some [] } rfl
  unfold trialApply at hsm ⊢
  cases ho : run { d.world with obsDeferred := some [] } with
  | error =>
    rw [ho] at hrun hsm
    exact ⟨hsm, hrests, Eq.trans hrun hwrapped, hhandles⟩
  | ok =>
    rw [ho] at hrun hsm
    obtain ⟨_, hadv⟩ :=
      Closed.advances (w := { d.world with obsDeferred := some [] }) hrests hrun (happ ho)
    refine ⟨hsm, hrests, (Closed.wrapped hrun).trans hwrapped, fun vd hvd => ?_⟩
    rcases List.mem_append.mp hvd with hvd | hvd
    · exact hhandles vd hvd
    · rw [List.mem_singleton.mp hvd]
      exact .inr ⟨hnonce _ _ _ ho _ _ _, _, hadv, hpost _ _ _ _⟩

theorem flushDeferredObs_wrapped (env : Env) (writes : List DeferredObsWrite) (w : World) :
    (flushDeferredObs env writes w).wrapped = w.wrapped := by
  induction writes generalizing w with
  | nil => rfl
  | cons _ _ ih => rw [flushDeferredObs, ih, writeObs_wrapped]

theorem Tracks.commit {vd : ValidatedDiff} (h : Tracks env B₀ s d) (hvd : vd ∈ d.handles) :
    ∃ s', (s' = s ∨ Advances env B₀ s s') ∧
      Tracks env B₀ s' { d with world := (commitValidated env vd d.world).2 } := by
  unfold commitValidated
  split
  · exact ⟨s, .inl rfl, h⟩
  next hnonce =>
  rw [not_not, h.machine] at hnonce
  rcases h.handles vd hvd with _ | ⟨-, s', hadv, hpost⟩
  · omega
  have hsame : SameSession s'.sm d.world.sm := by
    rw [h.machine]
    exact hadv.steps.sameSession.symm
  refine ⟨s', .inr hadv, ?_, hadv.rests, ?_, fun vd hvd => (h.handles vd hvd).stale hadv⟩
  · dsimp only
    rw [flushDeferredObs_sm, hpost]
    exact restoreMutable_snapshotMutable hsame
  · dsimp only
    rw [flushDeferredObs_wrapped]
    exact h.wrapped

theorem applyCore_nonce {nonce : ℕ} {txs : List DevshardTx} {psr root : Bytes}
    (h : applyCore env nonce txs psr w = .ok root w') : nonce = w.sm.latestNonce + 1 := by
  unfold applyCore at h
  split at h
  · cases h
  · next hcheck => exact (checkDiff_ok hcheck).1

theorem localBestEffort_nonce {nonce : ℕ} {txs : List DevshardTx} {a : Bytes × List DevshardTx}
    (h : localBestEffort env nonce txs w = .ok a w') : nonce = w.sm.latestNonce + 1 := by
  unfold localBestEffort at h
  split at h
  · cases h
  · next hcheck => exact (checkDiff_ok hcheck).1

/-- **Every operation advances the session** it is in, or leaves it. -/
theorem runOp_tracks (env : Env) (op : Op) (h : Tracks env B₀ s d) :
    ∃ s', (s' = s ∨ Advances env B₀ s s') ∧ Tracks env B₀ s' (runOp env op d) := by
  have hsound : ∀ w : World, w.sm = s.sm → Sound B₀ ⟨w.sm, s.sealed⟩ := by
    intro w hw
    rw [hw]
    exact h.rests.sound
  cases op with
  | applyDiff diff =>
    refine h.apply ?_ (applyDiff_rolledBack env diff d.world) fun a w' hok => ?_
    · unfold applyDiff
      split
      · exact rfl
      · exact applyCore_closed env _ _ _ (hsound _ h.machine)
    · unfold applyDiff at hok
      split at hok
      · cases hok
      · exact .core rfl hok
  | applyLocal =>
    exact h.apply (applyCore_closed env _ _ _ (hsound _ h.machine))
      (applyCore_rolledBack env _ _ _ d.world) fun a w' hok => .core rfl hok
  | applyLocalBestEffort =>
    exact h.apply (localBestEffort_closed env _ _ (hsound _ h.machine))
      (localBestEffort_rolledBack env _ _ d.world) fun a w' hok => .bestEffort rfl hok
  | validateDiff diff =>
    refine ⟨s, .inl rfl, ?_⟩
    cases hsig : verifyDiffUserSig env diff d.world.sm with
    | error =>
      simp only [runOp, validateDiff, hsig]
      exact h
    | ok =>
      have htrial := h.trial (fun root post warmAfter obs =>
          { root, warmAfter, applied := [], nonce := diff.nonce, post, obs })
        (fun w hw => applyCore_closed env diff.nonce diff.txs diff.postStateRoot (hsound w hw))
        (fun w => applyCore_rolledBack env _ _ _ w) (fun hok => .core rfl hok)
        (fun _ _ _ _ => rfl) (fun w a w' hok _ _ _ => applyCore_nonce hok)
      simp only [runOp, validateDiff, hsig]
      split <;> next hrun =>
        rw [hrun] at htrial
        exact htrial
  | previewLocalBestEffort nonce txs =>
    refine ⟨s, .inl rfl, ?_⟩
    have htrial := h.trial (fun result post warmAfter obs =>
        { root := result.1, warmAfter, applied := result.2, nonce, post, obs })
      (fun w hw => localBestEffort_closed env nonce txs (hsound w hw))
      (fun w => localBestEffort_rolledBack env nonce txs w) (fun hok => .bestEffort rfl hok)
      (fun _ _ _ _ => rfl) (fun w a w' hok _ _ _ => localBestEffort_nonce hok)
    simp only [runOp, previewLocalBestEffort]
    split <;> next hrun =>
      rw [hrun] at htrial
      exact htrial
  | commitValidated =>
    unfold runOp
    dsimp only
    split
    · exact ⟨s, .inl rfl, h⟩
    · next hvd => exact h.commit (List.mem_of_getElem? hvd)

def Driver.new (sm : StateMachine) : Driver := { world := { sm } }

theorem runOps_tracks (env : Env) (ops : List Op) (h : Tracks env B₀ s d) :
    ∃ s', Steps s s' ∧ Tracks env B₀ s' (runOps env ops d) := by
  induction ops generalizing s d with
  | nil => exact ⟨s, .refl, h⟩
  | cons op _ ih =>
    obtain ⟨_, hs₁, h₁⟩ := runOp_tracks env op h
    obtain ⟨s', hsteps', h'⟩ := ih h₁
    rcases hs₁ with rfl | hadv
    · exact ⟨s', hsteps', h'⟩
    · exact ⟨s', hadv.steps.trans hsteps', h'⟩

def sampleGroup : List SlotAssignment := [⟨0, [1]⟩, ⟨1, [2]⟩]

def sampleConfig : SessionConfig where
  tokenPrice := 1
  createDevshardFee := 1
  feePerNonce := 1
  voteThreshold := 1
  inferenceSealGraceNonces := 0
  inferenceSealGraceSeconds := 0
  autoSealEveryNNonces := 0

def sampleMachine : StateMachine where
  escrowID := []
  version := []
  config := normalizeSessionConfig sampleConfig sampleGroup.length
  group := sampleGroup
  balance := 999
  fees := 1
  phase := .active
  finalizeNonce := 0
  inferences := ∅
  hostStats := sampleGroup.foldl (fun m s => m.insert s.slotID {}) ∅
  warmKeys := ∅
  latestNonce := 0
  sealedAcc := []
  userAddress := [9]
  committedEntries := ∅
  sealedNonces := ∅

theorem sampleMachine_ok :
    newStateMachine [] sampleConfig sampleGroup 1000 [9] [] = .ok sampleMachine := rfl

/-- A signature is the address of its signer; there are no warm keys, and the
store accepts everything. -/
def sampleEnv : Env where
  recoverAddress _ sig := some sig
  warmResolver := none
  store _ _ := true

def sampleStart (nonce : ℕ) : DevshardTx :=
  .startInference
    { inferenceId := nonce, promptHash := [], model := [], inputLength := 10, maxTokens := 20
      startedAt := 5 }

/-- Inference 1 is finished by slot 1, challenged by slot 0 and voted down. -/
def sampleInvalidation : List DevshardTx :=
  [sampleStart 1, .confirmStart ⟨1, [2], 6⟩, .finishInference ⟨1, [], 5, 5, 1, [2], []⟩,
    .validation ⟨1, 0, false, [1], []⟩, .validationVote ⟨1, 1, false, [2], []⟩]

/-- The nonce of the first operation is used, and then the session settles. -/
def sampleSettling : List Op :=
  [.applyLocal 1 [sampleStart 1], .applyLocal 2 [.finalizeRound], .applyLocal 3 [], .applyLocal 4 []]

section Runs
variable {escrowID : Bytes} {config : SessionConfig} {group : List SlotAssignment}
  {balance : UInt64} {userAddress : Address} {version : Bytes} {sm : StateMachine}

theorem newStateMachine_tracks (env : Env) (hg : validateGroup group)
    (h : newStateMachine escrowID config group balance userAddress version = .ok sm) :
    Tracks env balance.toNat (Session.new sm) (Driver.new sm) :=
  ⟨rfl, newStateMachine_rests hg h, rfl, nofun⟩

/-- **Escrow conservation.**  In every run of operations from a new machine, with
any successes and failures, the balance, the fees, the costs of the hosts and the
reservations of unfinished inferences add up to the escrowed amount; no operation
on an amount wraps, and no cost is clamped. -/
theorem escrow_conserved (env : Env) (hg : validateGroup group)
    (hnew : newStateMachine escrowID config group balance userAddress version = .ok sm)
    (ops : List Op) :
    let w := (runOps env ops (Driver.new sm)).world
    w.sm.balance.toNat + w.sm.fees.toNat + w.sm.hostStats.sum (fun _ hs => hs.cost.toNat)
        + w.sm.inferences.sum (fun _ r =>
          if r.status = .pending ∨ r.status = .started then r.reservedCost.toNat else 0)
      = balance.toNat ∧ w.wrapped = false := by
  obtain ⟨s, -, htracks⟩ := runOps_tracks env ops (newStateMachine_tracks env hg hnew)
  refine ⟨?_, htracks.wrapped⟩
  rw [htracks.machine]
  exact htracks.rests.sound.conserved.total

theorem escrow_conserved_sample :
    let w := (runOps sampleEnv (.applyLocal 1 sampleInvalidation :: sampleSettling)
      (Driver.new sampleMachine)).world
    w.sm.latestNonce = 4 ∧ (w.sm.hostStats.get? 1).map HostStats.invalid = some 1 ∧
    w.sm.balance.toNat + w.sm.fees.toNat + w.sm.hostStats.sum (fun _ hs => hs.cost.toNat)
        + w.sm.inferences.sum (fun _ r =>
          if r.status = .pending ∨ r.status = .started then r.reservedCost.toNat else 0)
      = 1000 ∧ w.wrapped = false :=
  ⟨by decide +kernel, by decide +kernel, escrow_conserved sampleEnv (by decide) sampleMachine_ok _⟩

/-- **The life of an inference.**  Any two points of a run are points of one
history of steps.  At every moment `t` of it the live map, the committed entries,
the seal nonces and the accumulator agree, and what follows continues it: sealed
records stay, live ones move along their life cycle, and every inference there
ever was is live or sealed, and not both. -/
theorem lifecycle (env : Env) (hg : validateGroup group)
    (hnew : newStateMachine escrowID config group balance userAddress version = .ok sm)
    (ops₁ ops₂ : List Op) :
    ∃ s₁ s₂, s₁.sm = (runOps env ops₁ (Driver.new sm)).world.sm ∧
      s₂.sm = (runOps env ops₂ (runOps env ops₁ (Driver.new sm))).world.sm ∧
      Steps (Session.new sm) s₁ ∧ Steps s₁ s₂ ∧
      ∀ t, Steps (Session.new sm) t → Steps t s₂ →
        Consistent t ∧ (∃ sealed, Continues t s₂ sealed) ∧
        ∀ id r, t.Holds id r →
          Xor (s₂.sm.inferences.get? id).isSome (s₂.sm.sealedNonces.get? id).isSome := by
  have htracks := newStateMachine_tracks env hg hnew
  obtain ⟨s₁, hsteps₁, h₁⟩ := runOps_tracks env ops₁ htracks
  obtain ⟨s₂, hsteps₂, h₂⟩ := runOps_tracks env ops₂ h₁
  refine ⟨s₁, s₂, h₁.machine.symm, h₂.machine.symm, hsteps₁, hsteps₂, fun t ht ht₂ => ?_⟩
  obtain ⟨sealed, hcont⟩ := ht₂.continues
  refine ⟨(htracks.rests.sound.steps ht).consistent, ⟨sealed, hcont⟩, fun id r hr => ?_⟩
  obtain ⟨_, hr'⟩ := hcont.holds hr
  exact h₂.rests.sound.consistent.live_xor_sealed hr'

theorem lifecycle_sample :
    let d := runOps sampleEnv [.applyLocal 1 sampleInvalidation] (Driver.new sampleMachine)
    ∃ s₁ s₂, s₁.sm = d.world.sm ∧ s₂.sm = (runOps sampleEnv sampleSettling d).world.sm ∧
      s₂.sm.sealedNonces.get? 1 = some 4 ∧ Steps (Session.new sampleMachine) s₁ ∧ Steps s₁ s₂ ∧
      ∀ t, Steps (Session.new sampleMachine) t → Steps t s₂ →
        Consistent t ∧ (∃ sealed, Continues t s₂ sealed) ∧
        ∀ id r, t.Holds id r →
          Xor (s₂.sm.inferences.get? id).isSome (s₂.sm.sealedNonces.get? id).isSome := by
  obtain ⟨s₁, s₂, h₁, h₂, hrest⟩ := lifecycle sampleEnv (by decide) sampleMachine_ok
    [.applyLocal 1 sampleInvalidation] sampleSettling
  have hsealed : s₂.sm.sealedNonces.get? 1 = some 4 := by
    rw [h₂]
    decide +kernel
  exact ⟨s₁, s₂, h₁, h₂, hsealed, hrest⟩

end Runs

end Devshard
