/-
The timetable of confirmation events.

Main result: `timeline_iff`.
-/
import Gonka.Chain.ConfirmationHandler
import Gonka.Lib.Along

namespace Inference

open OrdMap Option List Keeper

def Keeper.entriesOf (k : Keeper) (key : ℕ ×ₗ ℕ) : List Entry :=
  k.log.filter fun entry => entry.event = key

def Keeper.actionsOf (k : Keeper) (key : ℕ ×ₗ ℕ) : List Action :=
  (k.entriesOf key).map Entry.action

theorem entriesOf_record_self (k : Keeper) (e : ConfirmationPoCEvent) (h : ℤ)
    (actions : List Action) : (k.record e h actions).entriesOf e.key =
      k.entriesOf e.key ++ actions.map fun action => ⟨e.key, h, action⟩ := by
  unfold entriesOf record
  simp

theorem entriesOf_record_of_ne (k : Keeper) {e : ConfirmationPoCEvent} (h : ℤ)
    (actions : List Action) {key : ℕ ×ₗ ℕ} (hkey : e.key ≠ key) :
    (k.record e h actions).entriesOf key = k.entriesOf key := by
  unfold entriesOf record
  simp [hkey]

theorem actionsOf_record_self (k : Keeper) (e : ConfirmationPoCEvent) (h : ℤ)
    (actions : List Action) :
    (k.record e h actions).actionsOf e.key = k.actionsOf e.key ++ actions := by
  unfold actionsOf
  rw [entriesOf_record_self, List.map_append, List.map_map]
  congr 1
  exact List.map_id _

section

variable (env : Env)

/-- **The timetable is kept.** -/
structure Timeline (c : Chain) : Prop where
  /-- the active event is in its phase, has come there step by step, and its epoch is not over -/
  active : ∀ e, c.keeper.activeConfirmationPoCEvent = some e →
    e.phase = e.getExpectedPhase env.epochParams c.height ∧
      c.keeper.actionsOf e.key = script e.phase ∧
      ∃ epoch, c.keeper.epochs.get? e.epochIndex = some epoch ∧ c.height < nextStart env epoch
  /-- any other event went through all phases, was cleared in time and is stored as completed -/
  cleared : ∀ key, c.keeper.actionsOf key ≠ [] →
    (∀ e, c.keeper.activeConfirmationPoCEvent = some e → e.key ≠ key) →
    c.keeper.actionsOf key = script .completed ++ [.clear] ∧
      (∃ e, c.keeper.confirmationPoCEvents.get? key = some e ∧ e.phase = .completed) ∧
      ∃ epoch, c.keeper.epochs.get? (ofLex key).1 = some epoch ∧
        ∀ entry ∈ c.keeper.entriesOf key, entry.action = .clear →
          entry.height < nextStart env epoch

/-- If the next block clears the event, it was completed before, and there was time to spare. -/
def ClearsWell (c : Chain) (_ : Block) : Prop :=
  ∀ e, c.keeper.activeConfirmationPoCEvent = some e →
    c.height + 1 = e.clearHeight env.epochParams →
    env.epochParams.setNewValidatorsDelay ≠ 0 ∧
      (env.epochParams.inferenceValidationCutoff ≠ 0 ∨
        env.epochParams.confirmationPocSafetyWindow ≠ 0 ∨
        ∀ epoch, c.keeper.epochs.get? e.epochIndex = some epoch →
          e.triggerHeight ≠ triggerWindowEnd env.epochParams
            (newEpochContext epoch env.epochParams))

structure InStep (c : Chain) : Prop where
  height : 0 ≤ c.height
  epochs : Epochs env c.keeper c.height
  running : ∀ e, c.keeper.activeConfirmationPoCEvent = some e → Running env c.keeper c.height e
  logged : ∀ key, c.keeper.actionsOf key ≠ [] →
    (ofLex key).1 ≤ c.keeper.effectiveEpochIndex ∧
      ∃ e, c.keeper.confirmationPoCEvents.get? key = some e
  sequenced : Sequenced c.keeper.confirmationPoCEvents

end

section

variable {env : Env} {k k' : Keeper} {h : ℤ} {e : ConfirmationPoCEvent}

/-- The block has nothing to do with the event. -/
structure Untouched (k k' : Keeper) (key : ℕ ×ₗ ℕ) : Prop where
  entries : k'.entriesOf key = k.entriesOf key
  stored : k'.confirmationPoCEvents.get? key = k.confirmationPoCEvents.get? key

variable {key : ℕ ×ₗ ℕ} {c : Chain}

theorem Untouched.actions (hu : Untouched k k' key) : k'.actionsOf key = k.actionsOf key := by
  unfold actionsOf
  rw [hu.entries]

theorem Triggered.untouched (ht : Triggered env k k' h e) (hkey : e.key ≠ key) :
    Untouched k k' key := by
  rw [ht.state]
  exact ⟨entriesOf_record_of_ne _ h _ hkey, get?_insert_of_ne _ _ (Ne.symm hkey)⟩

theorem untouched_cleared {actions : List Action} (hkey : e.key ≠ key) :
    Untouched k (k.cleared e h actions) key :=
  ⟨(entriesOf_record_of_ne _ h _ hkey).trans (entriesOf_record_of_ne _ h _ hkey), rfl⟩

variable (block : Block) (hp : env.epochParams.Valid) (hfits : Fits env (c.height + 1))
  (hc : InStep env c) (ht : Timeline env c) (hk : Handled env k h k')

section

include hk

theorem Handled.untouched (hbefore : ∀ e, k.activeConfirmationPoCEvent = some e → e.key ≠ key)
    (hafter : ∀ e, k'.activeConfirmationPoCEvent = some e → e.key ≠ key) : Untouched k k' key := by
  cases hk with
  | idle => exact ⟨rfl, rfl⟩
  | triggered ht => exact ht.untouched (hafter _ (by rw [ht.state]; rfl))
  | moved hactive =>
    have hkey := hbefore _ hactive
    exact ⟨entriesOf_record_of_ne _ h _ hkey, get?_insert_of_ne _ _ (Ne.symm hkey)⟩
  | @cleared e actions _ hactive _ _ hnext =>
    have hcleared : Untouched k (k.cleared e h actions) key := untouched_cleared (hbefore _ hactive)
    rcases hnext with rfl | ⟨_, ht⟩
    · exact hcleared
    · have hrest := ht.untouched (hafter _ (by rw [ht.state]; rfl))
      exact ⟨hrest.entries.trans hcleared.entries, hrest.stored.trans hcleared.stored⟩

theorem Handled.entries_cases (hne : k'.actionsOf key ≠ []) :
    k.actionsOf key ≠ [] ∨ (∃ e, k.activeConfirmationPoCEvent = some e ∧ e.key = key) ∨
      ∃ e, k'.activeConfirmationPoCEvent = some e ∧ e.key = key := by
  by_contra hno
  rw [not_or, not_or, not_not] at hno
  obtain ⟨hnone, hbefore, hafter⟩ := hno
  rw [(hk.untouched (fun e he hkey => hbefore ⟨e, he, hkey⟩)
    fun e he hkey => hafter ⟨e, he, hkey⟩).actions] at hne
  exact hne hnone

theorem Handled.stored (hget : ∃ e, k.confirmationPoCEvents.get? key = some e) :
    ∃ e, k'.confirmationPoCEvents.get? key = some e := by
  obtain ⟨e₀, hget⟩ := hget
  have hinsert (m : OrdMap (ℕ ×ₗ ℕ) ConfirmationPoCEvent) (hm : m.get? key = some e₀)
      (key' : ℕ ×ₗ ℕ) (e' : ConfirmationPoCEvent) : ∃ e, (m.insert key' e').get? key = some e := by
    rw [get?_insert]
    split
    · exact ⟨e', rfl⟩
    · exact ⟨e₀, hm⟩
  cases hk with
  | idle => exact ⟨e₀, hget⟩
  | triggered ht => rw [ht.state]; exact hinsert _ hget _ _
  | moved => exact hinsert _ hget _ _
  | cleared _ _ _ hnext =>
    rcases hnext with rfl | ⟨_, ht⟩
    · exact ⟨e₀, hget⟩
    · rw [ht.state]
      exact hinsert _ hget _ _

end

include hp in
theorem Handled.running (hfits : Fits env h) (hpos : 0 < h) (hepochs : Epochs env k (h - 1))
    (hr : ∀ e, k.activeConfirmationPoCEvent = some e → Running env k (h - 1) e)
    (hk : Handled env k h k') (hactive : k'.activeConfirmationPoCEvent = some e) :
    Running env (advanceEpoch env h k') h e := by
  cases hk with
  | idle hidle => exact nomatch hidle.symm.trans hactive
  | @triggered _ e' ht =>
    have he : e' = e := by
      rw [ht.state] at hactive
      exact some.inj hactive
    exact he ▸ (ht.running hp hfits hpos hepochs).1
  | @moved e₀ e' actions hactive₀ hdue _ he' =>
    cases hactive
    exact (hr e₀ hactive₀).moved hp hfits hpos hepochs hdue he' rfl
  | @cleared e₀ actions _ hactive₀ _ _ hnext =>
    rcases hnext with rfl | ⟨e', ht⟩
    · nomatch hactive
    have he : e' = e := by
      rw [ht.state] at hactive
      exact some.inj hactive
    have hepochs' : Epochs env (k.cleared e₀ h actions) (h - 1) :=
      ⟨hepochs.heights, hepochs.recorded⟩
    exact he ▸ (ht.running hp hfits hpos hepochs').1

theorem Handled.sequenced (hr : ∀ e, k.activeConfirmationPoCEvent = some e →
      Running env k (h - 1) e) (hs : Sequenced k.confirmationPoCEvents)
    (hk : Handled env k h k') : Sequenced k'.confirmationPoCEvents := by
  cases hk with
  | idle => exact hs
  | triggered ht => exact (ht.sequenced hs).1
  | moved hactive => exact hs.insert_of_some (hr _ hactive).stored
  | cleared _ _ _ hnext =>
    rcases hnext with rfl | ⟨_, ht⟩
    · exact hs
    · exact (ht.sequenced hs).1

include hk in
theorem Handled.keepsEpochs {h₀ : ℤ} (hepochs : Epochs env k h₀) : Epochs env k' h₀ := by
  obtain ⟨hsame, hindex⟩ := hk.epochs
  refine ⟨hsame ▸ hepochs.heights, ?_⟩
  unfold getEffectiveEpoch
  rw [hsame, hindex]
  exact hepochs.recorded

include block hp hfits hc in
theorem InStep.handled : Epochs env c.keeper (c.height + 1 - 1) ∧
      (∀ e, c.keeper.activeConfirmationPoCEvent = some e →
        Running env c.keeper (c.height + 1 - 1) e) ∧
      Handled env c.keeper (c.height + 1)
        (handleConfirmationPoC env block (c.height + 1) c.keeper).1 := by
  have hheight : c.height + 1 - 1 = c.height := by omega
  rw [hheight]
  refine ⟨hc.epochs, hc.running, handleConfirmationPoC_handled hp hfits ?_ ?_⟩
  · rw [hheight]
    exact hc.epochs
  · rw [hheight]
    exact hc.running

include block hp hfits hc in
theorem InStep.step : InStep env (endBlock env block c) := by
  obtain ⟨hepochs, hrunning, hhandled⟩ := hc.handled block hp hfits
  have hheight := hc.height
  have hpos : 0 < c.height + 1 := by omega
  unfold endBlock
  generalize (handleConfirmationPoC env block (c.height + 1) c.keeper).1 = k' at hhandled
  obtain ⟨-, hindex⟩ := hhandled.epochs
  have hepochs' := hhandled.keepsEpochs hepochs
  obtain ⟨hle, -⟩ := advanceEpoch_records hp hfits hpos hepochs'
  obtain ⟨hactive, hevents, hlog⟩ := advanceEpoch_frame env (c.height + 1) k'
  have hrun (e : ConfirmationPoCEvent) (he : k'.activeConfirmationPoCEvent = some e) :=
    hhandled.running hp hfits hpos hepochs hrunning he
  have hnew := hepochs'.advance hp hfits hpos
  refine ⟨hpos.le, hnew, ?_, ?_, ?_⟩
  · intro e he
    exact hrun e (hactive.symm.trans he)
  · intro key hne
    have hne' : k'.actionsOf key ≠ [] := by
      unfold actionsOf entriesOf at hne ⊢
      rw [hlog] at hne
      exact hne
    rw [hindex] at hle
    show _ ≤ (advanceEpoch env (c.height + 1) k').effectiveEpochIndex ∧
      ∃ e, (advanceEpoch env (c.height + 1) k').confirmationPoCEvents.get? key = some e
    rw [hevents]
    rcases hhandled.entries_cases hne' with hold | ⟨e, he, rfl⟩ | ⟨e, he, rfl⟩
    · obtain ⟨hepoch, hstored⟩ := hc.logged key hold
      exact ⟨hepoch.trans hle, hhandled.stored hstored⟩
    · -- the epoch of the active event is the effective one
      obtain ⟨epoch, heffective, _, -⟩ := (hrunning e he).epoch
      have hi := (hepochs.heights _ epoch heffective).1
      refine ⟨?_, hhandled.stored ⟨e, (hrunning e he).stored⟩⟩
      show e.epochIndex ≤ _
      omega
    · obtain ⟨epoch, heffective, _, -⟩ := (hrun e he).epoch
      have hi := (hnew.heights _ epoch heffective).1
      have hstored := (hrun e he).stored
      rw [hevents] at hstored
      refine ⟨?_, e, hstored⟩
      show e.epochIndex ≤ _
      omega
  · show Sequenced (advanceEpoch env (c.height + 1) k').confirmationPoCEvents
    rw [hevents]
    exact hhandled.sequenced hrunning hc.sequenced

include hp in
theorem completed_before_clear_iff (he : e.Fits env.epochParams)
    (hdue : h + 1 = e.clearHeight env.epochParams)
    (hphase : e.phase = e.getExpectedPhase env.epochParams h) :
    e.phase = .completed ↔ env.epochParams.setNewValidatorsDelay ≠ 0 := by
  have hend := getValidationEnd_eq hp he
  have hstart := getValidationStart_eq hp he
  have hbounds := hp.bounds
  unfold ConfirmationPoCEvent.clearHeight at hdue
  rw [hphase]
  constructor
  · intro hcompleted hzero
    rw [expected_validation (by omega) (by omega) (by omega)] at hcompleted
    nomatch hcompleted
  · intro hne
    exact expected_completed (by omega) (by omega) (by omega)

include hp in
theorem clear_before_next_iff (hfits : Fits env h) (hpos : 0 ≤ h) (hk : Epochs env k h)
    (hr : Running env k h e) {epoch : Epoch} (hepoch : k.epochs.get? e.epochIndex = some epoch) :
    e.clearHeight env.epochParams < nextStart env epoch ↔
      env.epochParams.inferenceValidationCutoff ≠ 0 ∨
        env.epochParams.confirmationPocSafetyWindow ≠ 0 ∨
        e.triggerHeight ≠
          triggerWindowEnd env.epochParams (newEpochContext epoch env.epochParams) := by
  obtain ⟨epoch', heffective, hindex, -, _⟩ := hr.epoch
  obtain ⟨hi, hlow, hhigh⟩ := hk.heights _ epoch' heffective
  -- the recorded epoch is the effective one
  have hsame : epoch' = epoch := by
    rw [← hindex, hi] at hepoch
    exact some.inj (heffective.symm.trans hepoch)
  obtain rfl := hsame
  have hge := hr.index
  have hnext := nextStart_eq hp hfits hlow hhigh (by omega)
  have hlength := hp.epochLength
  have hend := triggerWindowEnd_eq hp hfits hpos (newEpochContext epoch' env.epochParams)
    (by show -2 ^ 62 ≤ nextStart env epoch'; omega)
    (by show nextStart env epoch' ≤ _; omega)
  change _ = nextStart env epoch' - _ - _ at hend
  have hstart := hr.start
  have hbounds := hp.bounds
  unfold ConfirmationPoCEvent.clearHeight
  omega

theorem InStep.actionsOf_eq_nil (hc : InStep env c)
    (hnone : c.keeper.confirmationPoCEvents.get? key = none) : c.keeper.actionsOf key = [] := by
  by_contra hne
  obtain ⟨-, e, he⟩ := hc.logged key hne
  exact nomatch hnone.symm.trans he

include hc ht in
theorem Handled.actions (hk : Handled env c.keeper h k')
    (hactive : k'.activeConfirmationPoCEvent = some e) :
    k'.actionsOf e.key = script e.phase := by
  -- a new event starts from nothing
  have hfresh {k₀ : Keeper} {e' : ConfirmationPoCEvent} (htrigger : Triggered env k₀ k' h e')
      (hnone : k₀.actionsOf e'.key = []) : k'.actionsOf e.key = script e.phase := by
    obtain ⟨_, _, -, -, -, -, -, he'⟩ := htrigger.context
    have hphase : e'.phase = .gracePeriod := by
      rw [he']
      rfl
    have hstate := htrigger.state
    have he : e' = e := by
      rw [hstate] at hactive
      exact some.inj hactive
    rw [← he, hstate, actionsOf_record_self, hphase]
    change k₀.actionsOf e'.key ++ _ = _
    rw [hnone]
    rfl
  cases hk with
  | idle hidle => exact nomatch hidle.symm.trans hactive
  | triggered htrigger =>
    exact hfresh htrigger (hc.actionsOf_eq_nil (htrigger.sequenced hc.sequenced).2)
  | @moved e₀ e' actions hactive₀ _ hscript he' =>
    cases hactive
    obtain ⟨_, rfl⟩ := he'
    change (c.keeper.record e₀ h actions).actionsOf e₀.key = _
    rw [actionsOf_record_self, (ht.active e₀ hactive₀).2.1]
    exact hscript
  | @cleared e₀ actions _ hactive₀ _ _ hnext =>
    rcases hnext with rfl | ⟨e', htrigger⟩
    · nomatch hactive
    have hnone := (htrigger.sequenced hc.sequenced).2
    change c.keeper.confirmationPoCEvents.get? e'.key = none at hnone
    refine hfresh htrigger ?_
    have hne : e₀.key ≠ e'.key := by
      intro hkey
      have hstored := (hc.running e₀ hactive₀).stored
      rw [hkey, hnone] at hstored
      nomatch hstored
    rw [(untouched_cleared hne).actions]
    exact hc.actionsOf_eq_nil hnone

theorem clear_notMem_script (phase : ConfirmationPoCPhase) : Action.clear ∉ script phase := by
  cases phase <;> decide

/-- What the block that clears an event leaves of it. -/
structure LeftBehind (k' : Keeper) (h : ℤ) (e : ConfirmationPoCEvent) : Prop where
  idle : ∀ e', k'.activeConfirmationPoCEvent = some e' → e'.key ≠ e.key
  actions : k'.actionsOf e.key = script .completed ++ [.clear]
  stored : k'.confirmationPoCEvents.get? e.key = some e
  clear : ⟨e.key, h, .clear⟩ ∈ k'.entriesOf e.key
  height : ∀ entry ∈ k'.entriesOf e.key, entry.action = .clear → entry.height = h

include hc ht in
theorem leftBehind_cleared {actions : List Action}
    (hactive : c.keeper.activeConfirmationPoCEvent = some e)
    (hscript : script e.phase ++ actions = script .completed) :
    LeftBehind (c.keeper.cleared e h actions) h e := by
  have hbefore : (c.keeper.record e h actions).actionsOf e.key = script .completed := by
    rw [actionsOf_record_self, (ht.active e hactive).2.1, hscript]
  have hentries : (c.keeper.cleared e h actions).entriesOf e.key =
      (c.keeper.record e h actions).entriesOf e.key ++ [⟨e.key, h, .clear⟩] :=
    entriesOf_record_self _ e h [.clear]
  refine ⟨nofun, ?_, (hc.running e hactive).stored, ?_, ?_⟩
  · unfold actionsOf
    rw [hentries, map_append]
    exact congrArg (· ++ [Action.clear]) hbefore
  · rw [hentries]
    exact mem_append_right _ (mem_singleton_self _)
  · intro entry hmem hclear
    rw [hentries] at hmem
    rcases mem_append.mp hmem with hold | hnew
    · -- nothing was cleared before
      have hno := mem_map_of_mem (f := Entry.action) hold
      rw [hclear, show List.map Entry.action _ = _ from hbefore] at hno
      exact absurd hno (clear_notMem_script _)
    · rw [mem_singleton.mp hnew]

include hc ht in
theorem Handled.leftBehind (hk : Handled env c.keeper h k')
    (hactive : c.keeper.activeConfirmationPoCEvent = some e)
    (hdue : h = e.clearHeight env.epochParams) : LeftBehind k' h e := by
  cases hk with
  | idle hidle => exact nomatch hidle.symm.trans hactive
  | triggered htrigger => exact nomatch htrigger.idle.symm.trans hactive
  | moved hactive₀ =>
    cases hactive.symm.trans hactive₀
    omega
  | @cleared e₀ actions _ hactive₀ _ hscript hnext =>
    cases hactive.symm.trans hactive₀
    have hleft := leftBehind_cleared (h := h) hc ht hactive hscript
    rcases hnext with rfl | ⟨e', htrigger⟩
    · exact hleft
    -- the new event has another key
    have hne : e'.key ≠ e.key := by
      intro hkey
      have hnone := (htrigger.sequenced hc.sequenced).2
      rw [hkey, hleft.stored] at hnone
      nomatch hnone
    have hsame := htrigger.untouched hne
    refine ⟨?_, hsame.actions.trans hleft.actions, hsame.stored.trans hleft.stored,
      hsame.entries ▸ hleft.clear, hsame.entries ▸ hleft.height⟩
    intro e₁ he₁
    rw [htrigger.state] at he₁
    exact some.inj he₁ ▸ hne

include hk in
theorem Handled.due_of_idle (hactive : k.activeConfirmationPoCEvent = some e)
    (hidle : ∀ e', k'.activeConfirmationPoCEvent = some e' → e'.key ≠ e.key) :
    h = e.clearHeight env.epochParams := by
  cases hk with
  | idle hnone => exact nomatch hnone.symm.trans hactive
  | triggered htrigger => exact nomatch htrigger.idle.symm.trans hactive
  | @moved e₀ e' actions hactive₀ _ _ he' =>
    cases hactive.symm.trans hactive₀
    have hne := hidle e' rfl
    obtain ⟨_, rfl⟩ := he'
    exact absurd rfl hne
  | cleared hactive₀ hdue =>
    cases hactive.symm.trans hactive₀
    exact hdue

theorem Running.recorded (hk : Epochs env k h) (hr : Running env k h e) :
    ∃ epoch, k.epochs.get? e.epochIndex = some epoch ∧ k.getEffectiveEpoch = some epoch := by
  obtain ⟨epoch, heffective, hindex, -⟩ := hr.epoch
  have hi := (hk.heights _ epoch heffective).1
  exact ⟨epoch, by rw [← hindex, hi]; exact heffective, heffective⟩

include block hp hfits hc ht in
/-- **One block keeps the timetable exactly if it clears well.** -/
theorem timeline_step : Timeline env (endBlock env block c) ↔ ClearsWell env c block := by
  have hstep := hc.step block hp hfits
  have hheight := hc.height
  have hfits₀ : Fits env c.height := by
    unfold Fits at hfits ⊢
    omega
  obtain ⟨hepochs, _, hhandled⟩ := hc.handled block hp hfits
  unfold endBlock at hstep ⊢
  generalize (handleConfirmationPoC env block (c.height + 1) c.keeper).1 = k' at hhandled hstep ⊢
  obtain ⟨hactive, hevents, hlog⟩ := advanceEpoch_frame env (c.height + 1) k'
  have hentries (key : ℕ ×ₗ ℕ) :
      (advanceEpoch env (c.height + 1) k').entriesOf key = k'.entriesOf key := by
    unfold entriesOf
    rw [hlog]
  have hactions (key : ℕ ×ₗ ℕ) :
      (advanceEpoch env (c.height + 1) k').actionsOf key = k'.actionsOf key := by
    unfold actionsOf
    rw [hentries]
  -- the records of old epochs
  have hrecords (i : ℕ) (hi : i ≤ c.keeper.effectiveEpochIndex) :
      (advanceEpoch env (c.height + 1) k').epochs.get? i = c.keeper.epochs.get? i := by
    obtain ⟨hsame, hindex⟩ := hhandled.epochs
    have hrecorded := advanceEpoch_records hp hfits (by omega) (hhandled.keepsEpochs hepochs)
    rw [hrecorded.2 i (hindex ▸ hi), hsame]
  -- the epoch of the active event, and when it is cleared in time
  have hinTime (e : ConfirmationPoCEvent) (he : c.keeper.activeConfirmationPoCEvent = some e) :
      ∃ epoch, c.keeper.epochs.get? e.epochIndex = some epoch ∧
        (advanceEpoch env (c.height + 1) k').epochs.get? (ofLex e.key).1 = some epoch ∧
        (e.clearHeight env.epochParams < nextStart env epoch ↔
          env.epochParams.inferenceValidationCutoff ≠ 0 ∨
            env.epochParams.confirmationPocSafetyWindow ≠ 0 ∨
            e.triggerHeight ≠
              triggerWindowEnd env.epochParams (newEpochContext epoch env.epochParams)) := by
    have hr := hc.running e he
    obtain ⟨epoch, hepoch, heffective⟩ := hr.recorded hc.epochs
    refine ⟨epoch, hepoch, ?_, clear_before_next_iff hp hfits₀ hheight hc.epochs hr hepoch⟩
    have hindex := (hc.epochs.heights _ epoch heffective).1
    have hindex' := (hc.epochs.heights _ epoch hepoch).1
    change (advanceEpoch env (c.height + 1) k').epochs.get? e.epochIndex = some epoch
    rw [hrecords e.epochIndex (by omega)]
    exact hepoch
  have hcompleted (e : ConfirmationPoCEvent) (he : c.keeper.activeConfirmationPoCEvent = some e)
      (hdue : c.height + 1 = e.clearHeight env.epochParams) :
      e.phase = .completed ↔ env.epochParams.setNewValidatorsDelay ≠ 0 :=
    completed_before_clear_iff hp ((hc.running e he).fits hp hfits₀ hc.epochs) hdue
      (hc.running e he).phase
  constructor
  · intro hnext e he hdue
    have hleft := hhandled.leftBehind hc ht he hdue
    obtain ⟨_, hepoch, hafter, htime⟩ := hinTime e he
    obtain ⟨-, ⟨e', hstored, hphase⟩, epoch', hepoch', hclear⟩ := hnext.cleared e.key
      (by rw [hactions, hleft.actions]; exact nofun)
      (fun e' he' => hleft.idle e' (hactive.symm.trans he'))
    refine ⟨?_, ?_⟩
    · -- what is stored is the event as it was before the block
      change (advanceEpoch env (c.height + 1) k').confirmationPoCEvents.get? e.key = some e'
        at hstored
      rw [hevents, hleft.stored] at hstored
      rw [← some.inj hstored] at hphase
      exact (hcompleted e he hdue).mp hphase
    · cases hafter.symm.trans hepoch'
      have hlt := hclear ⟨e.key, c.height + 1, .clear⟩ (by rw [hentries]; exact hleft.clear) rfl
      rcases htime.mp (hdue ▸ hlt) with hcutoff | hsafety | hlast
      · exact .inl hcutoff
      · exact .inr (.inl hsafety)
      · refine .inr (.inr fun epoch' hepoch' => ?_)
        cases hepoch.symm.trans hepoch'
        exact hlast
  · intro hwell
    refine ⟨?_, ?_⟩
    · intro e he
      have he' : k'.activeConfirmationPoCEvent = some e := hactive.symm.trans he
      have hr := hstep.running e he
      refine ⟨hr.phase, by rw [hactions]; exact hhandled.actions hc ht he', ?_⟩
      obtain ⟨epoch, hepoch, heffective⟩ := hr.recorded hstep.epochs
      obtain ⟨_, heffective', _, hlow, hhigh, -, -, -, _⟩ :=
        hr.bounds hp hstep.epochs
      cases heffective.symm.trans heffective'
      have hge := hr.index
      have hdue : c.height + 1 < e.clearHeight env.epochParams := hr.due
      have hnext := nextStart_eq hp hfits hlow hhigh (by omega)
      refine ⟨epoch, hepoch, ?_⟩
      show c.height + 1 < nextStart env epoch
      omega
    · intro key hne hidle
      have hidle' (e : ConfirmationPoCEvent) (he : k'.activeConfirmationPoCEvent = some e) :
          e.key ≠ key := hidle e (hactive.trans he)
      rw [hactions] at hne
      show (advanceEpoch env (c.height + 1) k').actionsOf key = _ ∧
        (∃ e, (advanceEpoch env (c.height + 1) k').confirmationPoCEvents.get? key = some e ∧ _) ∧ _
      rw [hactions, hevents]
      simp only [hentries]
      by_cases hcleared : ∃ e, c.keeper.activeConfirmationPoCEvent = some e ∧ e.key = key
      · -- the event that this block has cleared
        obtain ⟨e, he, rfl⟩ := hcleared
        have hdue := hhandled.due_of_idle he hidle'
        have hleft := hhandled.leftBehind hc ht he hdue
        obtain ⟨hdelay, htimely⟩ := hwell e he hdue
        obtain ⟨epoch, hepoch, hafter, htime⟩ := hinTime e he
        refine ⟨hleft.actions, ⟨e, hleft.stored, (hcompleted e he hdue).mpr hdelay⟩, epoch, hafter,
          ?_⟩
        intro entry hentry hclear
        rw [hleft.height entry hentry hclear, hdue]
        refine htime.mpr ?_
        rcases htimely with hcutoff | hsafety | hlast
        · exact .inl hcutoff
        · exact .inr (.inl hsafety)
        · exact .inr (.inr (hlast epoch hepoch))
      · -- one that was cleared before
        have hidle₀ (e : ConfirmationPoCEvent) (he : c.keeper.activeConfirmationPoCEvent = some e) :
            e.key ≠ key := fun hkey => hcleared ⟨e, he, hkey⟩
        have hsame := hhandled.untouched hidle₀ hidle'
        have hne₀ : c.keeper.actionsOf key ≠ [] := hsame.actions ▸ hne
        obtain ⟨hscript, hstored, epoch, hepoch, hclear⟩ := ht.cleared key hne₀ hidle₀
        refine ⟨hsame.actions.trans hscript, hsame.stored ▸ hstored, epoch, ?_,
          hsame.entries ▸ hclear⟩
        rw [hrecords _ (hc.logged key hne₀).1]
        exact hepoch

end

/-- A state to start from: no event is active, and none was logged yet. -/
structure Start (env : Env) (c : Chain) : Prop where
  height : 0 ≤ c.height
  epochs : Epochs env c.keeper c.height
  idle : c.keeper.activeConfirmationPoCEvent = none
  log : c.keeper.log = []
  sequenced : Sequenced c.keeper.confirmationPoCEvents

variable {c : Chain}

theorem Start.actionsOf {env : Env} (hc : Start env c) (key : ℕ ×ₗ ℕ) :
    c.keeper.actionsOf key = [] := by
  unfold Keeper.actionsOf Keeper.entriesOf
  rw [hc.log]
  rfl

theorem Start.inStep {env : Env} (hc : Start env c) : InStep env c := by
  refine ⟨hc.height, hc.epochs, ?_, ?_, hc.sequenced⟩
  · intro e he
    exact nomatch hc.idle.symm.trans he
  · intro key hne
    exact absurd (hc.actionsOf key) hne

theorem Start.timeline {env : Env} (hc : Start env c) : Timeline env c := by
  refine ⟨?_, ?_⟩
  · intro e he
    exact nomatch hc.idle.symm.trans he
  · intro key hne
    exact absurd (hc.actionsOf key) hne

/-- **Confirmation events keep to their timetable** in a run exactly if every event that the run
clears was completed in an earlier block and does not meet the next proof of compute.  As long as
that is so, at most one event is active, it is in the phase of its height, and all others went
through the four phases, had their weights updated once, were cleared before the next start, and are
stored as completed. -/
theorem timeline_iff (env : Env) (hp : env.epochParams.validate = none) (c : Chain)
    (hc : Start env c) (blocks : List Block) (hfits : Fits env (c.height + blocks.length)) :
    Along.Throughout (endBlock env) (Timeline env) blocks c ↔
      Along.EachStep (endBlock env) (ClearsWell env) blocks c := by
  have hvalid := EpochParams.valid_of_validate hp
  -- from any state in step that keeps the timetable so far
  suffices hrun : ∀ c, InStep env c → Timeline env c → Fits env (c.height + blocks.length) →
      (Along.Throughout (endBlock env) (Timeline env) blocks c ↔
        Along.EachStep (endBlock env) (ClearsWell env) blocks c) from
    hrun c hc.inStep hc.timeline hfits
  clear hc hfits c
  induction blocks with
  | nil =>
    intro c _ ht _
    exact iff_of_true ht trivial
  | cons block blocks ih =>
    intro c hc ht hfits
    rw [List.length_cons, Nat.cast_add, Nat.cast_one] at hfits
    have hnow : Fits env (c.height + 1) := by
      unfold Fits at hfits ⊢
      omega
    have hlater : Fits env ((endBlock env block c).height + blocks.length) := by
      unfold Fits at hfits ⊢
      show c.height + 1 + _ + _ < _
      omega
    have hstep := timeline_step block hvalid hnow hc ht
    have hnext := hc.step block hvalid hnow
    constructor
    · rintro ⟨-, hrest⟩
      have hfirst := hrest.first
      exact ⟨hstep.mp hfirst, (ih _ hnext hfirst hlater).mp hrest⟩
    · rintro ⟨hwell, hrest⟩
      have hfirst := hstep.mpr hwell
      exact ⟨ht, (ih _ hnext hfirst hlater).mpr hrest⟩

def sampleParams (setNewValidatorsDelay : ℤ) : EpochParams where
  epochLength := 20
  epochMultiplier := 1
  epochShift := 0
  defaultUnitOfComputePrice := 100
  pocStageDuration := 1
  pocExchangeDuration := 0
  pocValidationDelay := 0
  pocValidationDuration := 1
  setNewValidatorsDelay := setNewValidatorsDelay
  inferenceValidationCutoff := 1
  inferencePruningEpochThreshold := 2
  confirmationPocSafetyWindow := 0

def sampleEnv (setNewValidatorsDelay : ℤ) : Env where
  params := ⟨sampleParams setNewValidatorsDelay, some ⟨1, 0⟩⟩
  windDown duration := duration * 4 / 5
  randomBelow _ blockHeight _ _ := decide (blockHeight = 5)

def sampleBlock : Block where
  hash := List.replicate 32 0
  hash_length := List.length_replicate
  punishmentGraceWindow _ := none
  hasUpgradeInWindow _ := false

def sampleChain : Chain := ⟨⟨OrdMap.insert ∅ 2 ⟨2, 0⟩, 2, none, ∅, []⟩, 4⟩

theorem sampleChain_start (setNewValidatorsDelay : ℤ) :
    Start (sampleEnv setNewValidatorsDelay) sampleChain := by
  refine ⟨by decide, ⟨?_, ?_⟩, rfl, rfl, ?_⟩
  · intro i epoch hget
    change (OrdMap.insert ∅ 2 (⟨2, 0⟩ : Epoch)).get? i = some epoch at hget
    rw [get?_insert] at hget
    split at hget
    · next hi =>
      cases hget
      exact ⟨hi.symm, by decide, by decide⟩
    · nomatch hget
  · intro _ epoch heffective hstarted
    cases heffective
    change i64 (0 + 20) ≤ 4 at hstarted
    exact absurd hstarted (by decide)
  · intro i n
    exact iff_of_false not_mem_nil (Nat.not_lt_zero n)

theorem timeline_iff_sample :
    (sampleEnv 1).epochParams.validate = none ∧ Start (sampleEnv 1) sampleChain ∧
      Along.Throughout (endBlock (sampleEnv 1)) (Timeline (sampleEnv 1))
        (List.replicate 4 sampleBlock) sampleChain ∧
      ((Along.run (endBlock (sampleEnv 1)) (List.replicate 4 sampleBlock)
        sampleChain).keeper.entriesOf (toLex (2, 0))).length = 6 := by
  refine ⟨by decide, sampleChain_start 1, ?_, by decide⟩
  refine (timeline_iff (sampleEnv 1) (by decide) sampleChain (sampleChain_start 1) _ ?_).mpr ?_
  · unfold Fits
    decide
  · refine Along.eachStep_of_forall (fun _ _ _ => ?_) _
    exact fun _ _ _ => ⟨by decide, .inl (by decide)⟩

/-- **Without a delay for new validators** the event is completed and cleared in one block, and what
is stored remains in validation. -/
theorem cleared_event_stored_in_validation :
    Start (sampleEnv 0) sampleChain ∧ (sampleEnv 0).epochParams.validate = none ∧
      ¬ Along.Throughout (endBlock (sampleEnv 0)) (Timeline (sampleEnv 0))
        (List.replicate 3 sampleBlock) sampleChain := by
  refine ⟨sampleChain_start 0, by decide, ?_⟩
  rintro ⟨-, -, -, hlast⟩
  have hidle : (Along.run (endBlock (sampleEnv 0)) (List.replicate 3 sampleBlock)
      sampleChain).keeper.activeConfirmationPoCEvent = none := by decide
  obtain ⟨-, ⟨e, hstored, hphase⟩, -⟩ := hlast.cleared (toLex (2, 0)) (by decide)
    fun e he => nomatch hidle.symm.trans he
  have hvalidation : ((Along.run (endBlock (sampleEnv 0)) (List.replicate 3 sampleBlock)
      sampleChain).keeper.confirmationPoCEvents.get? (toLex (2, 0))).map
        ConfirmationPoCEvent.phase = some .validation := by decide
  have hget : (Along.run (endBlock (sampleEnv 0)) (List.replicate 3 sampleBlock)
      sampleChain).keeper.confirmationPoCEvents.get? (toLex (2, 0)) = some e := hstored
  rw [hget, Option.map_some, hphase] at hvalidation
  nomatch hvalidation

end Inference
