/-
The operations on maintenance reservations are changes of the book.

Each operation is shown to be a `Change` that `Fits`, so that `Book.change` keeps the book in order,
and what it does to the credit of the participant is read off.

Main result: `processTransition_change`.
-/
import Gonka.Chain.MaintenanceBook

namespace Maintenance

open OrdMap Option MaintenanceReservation Keeper

open Inference (i64)

variable {A : Type*} [LinearOrder A] {codec : Bech32 A} {height : ℤ} {k k' : Keeper A} {a : A}
  {r : MaintenanceReservation}

/-! ### Writes -/

variable {state : MaintenanceState} {w : World A} {msg : MsgScheduleMaintenance}

theorem Keeper.setMaintenanceState_eq (h : codec.accAddressFromBech32 state.participant = some a) :
    k.setMaintenanceState codec state =
      .ok { k with maintenanceStates := k.maintenanceStates.insert a state } := by
  unfold setMaintenanceState
  rw [h]

theorem Keeper.row_set (h : ℤ) (id : ℕ) (t : MaintenanceTransitionType) (h' : ℤ) (id' : ℕ) :
    (k.setMaintenanceTransition h id t).row h' id' =
      if h' = h ∧ id' = id then some t else k.row h' id' := by
  show (k.maintenanceTransitions.insert (toLex (h, id)) t).get? (toLex (h', id')) = _
  rw [get?_insert]
  refine if_congr ?_ rfl rfl
  rw [EmbeddingLike.apply_eq_iff_eq, Prod.mk.injEq]

theorem Keeper.row_delete (h : ℤ) (id : ℕ) (h' : ℤ) (id' : ℕ) :
    (k.deleteMaintenanceTransition h id).row h' id' =
      if h' = h ∧ id' = id then none else k.row h' id' := by
  show (k.maintenanceTransitions.erase (toLex (h, id))).get? (toLex (h', id')) = _
  rw [get?_erase]
  refine if_congr ?_ rfl rfl
  rw [EmbeddingLike.apply_eq_iff_eq, Prod.mk.injEq]

theorem MaintenanceReservation.start_ne_complete (h : 0 < r.durationBlocks) :
    r.startHeight ≠ r.completeHeight := by
  unfold completeHeight
  omega

/-- Accepted parameters bound the blocks that are counted. -/
structure MaintenanceParams.Valid (mp : MaintenanceParams) : Prop where
  window : mp.maintenanceMaxWindowBlocks ≤ maxMaintenanceBlocksParam
  cap : mp.maintenanceCreditCapBlocks ≤ maxMaintenanceBlocksParam
  earn : mp.maintenanceCreditEarnPerSuccessfulEpochBlocks ≤ mp.maintenanceCreditCapBlocks

theorem MaintenanceParams.valid_of_validate {mp : MaintenanceParams} (h : mp.validate = none) :
    mp.Valid := by
  simp only [MaintenanceParams.validate, Inference.check_eq_none_iff] at h
  constructor <;> omega

variable {id : ℕ} (hb : Book codec height k) (hr : k.reservation id = some r)
  (hscheduled : r.status = .scheduled) (haddr : codec.accAddressFromBech32 r.participant = some a)

include hb in
theorem Book.params_valid : k.getMaintenanceParams.Valid :=
  MaintenanceParams.valid_of_validate hb.valid

theorem Change.of_writes {old : Option MaintenanceReservation} {credit : ℕ}
    (state : MaintenanceState)
    (found : k.reservation r.reservationId = old)
    (kept : ∀ {r₀}, old = some r₀ → r.participant = r₀.participant ∧
      r.startHeight = r₀.startHeight ∧ r.durationBlocks = r₀.durationBlocks)
    (address : codec.accAddressFromBech32 r.participant = some a)
    (reservations : k'.maintenanceReservations = k.maintenanceReservations.insert r.reservationId r)
    (counter : k.maintenanceReservationCounter ≤ k'.maintenanceReservationCounter)
    (params : k'.maintenanceParams = k.maintenanceParams)
    (states : k'.maintenanceStates = k.maintenanceStates.insert a state)
    (state_address : codec.accAddressFromBech32 state.participant = some a)
    (state_credit : state.creditBlocks = credit)
    (pointer : ∀ s, s.Held → state.pointer s = if r.status = s then r.reservationId
      else if old.map (·.status) = some s then 0
      else (k.getOrCreateMaintenanceState codec a).pointer s)
    (index : ∀ s, s.Held → ∀ id, (k'.index s).get? id =
      if id = r.reservationId then (if r.status = s then some () else none)
      else (k.index s).get? id)
    (rows : ∀ height id, k'.row height id =
      if id = r.reservationId then r.due height else k.row height id) :
    Change codec k k' a old r credit where
  found := found
  kept := kept
  address := address
  reservation id := by
    unfold Keeper.reservation
    rw [reservations, get?_insert]
  counter := counter
  params := params
  other b hb := by rw [states, get?_insert_of_ne _ _ hb]
  state := by
    refine ⟨state, ?_, state_address, state_credit, fun {s} => pointer s⟩
    rw [states, get?_insert_self]
  index {s} := index s
  rows := rows

theorem Keeper.setMaintenanceState_ok (h : k.setMaintenanceState codec state = .ok k')
    (haddr : codec.accAddressFromBech32 state.participant = some a) :
    k' = { k with maintenanceStates := k.maintenanceStates.insert a state } := by
  rw [setMaintenanceState_eq haddr] at h
  exact (Except.ok.inj h).symm

include hb in
theorem Book.index_none {s : MaintenanceReservationStatus} (hs : s.Held)
    (h : ¬ ∃ r, k.reservation id = some r ∧ r.status = s) :
    (k.index s).get? id = none := by
  rw [← hb.index hs] at h
  cases hget : (k.index s).get? id with
  | none => rfl
  | some => exact absurd hget h

theorem Keeper.setMaintenanceState_ne_error {e : MaintenanceError}
    (h : k.setMaintenanceState codec state = .error e)
    (haddr : codec.accAddressFromBech32 state.participant = some a) : False := by
  rw [setMaintenanceState_eq haddr] at h
  nomatch h

def MsgScheduleMaintenance.reservation (msg : MsgScheduleMaintenance) (id : ℕ) :
    MaintenanceReservation where
  reservationId := id
  participant := msg.participant
  startHeight := msg.startHeight
  durationBlocks := msg.durationBlocks
  createdBy := msg.creator
  status := .scheduled
  activationWarning := ""

structure Accepted (codec : Bech32 A) (blockHeight : ℤ) (k : Keeper A)
    (msg : MsgScheduleMaintenance) (a : A) : Prop where
  address : codec.accAddressFromBech32 msg.participant = some a
  duration_pos : 0 < msg.durationBlocks
  duration_le : msg.durationBlocks ≤ k.getMaintenanceParams.maintenanceMaxWindowBlocks
  fits : msg.startHeight + msg.durationBlocks ≤ maxInt64
  lead : i64 (blockHeight + k.getMaintenanceParams.maintenanceMinScheduleLeadBlocks) ≤
    msg.startHeight
  unscheduled : (k.getOrCreateMaintenanceState codec a).scheduledReservationId = 0
  credit : msg.durationBlocks ≤ (k.getOrCreateMaintenanceState codec a).creditBlocks
  apart : checkParticipantOverlap k a msg.startHeight msg.durationBlocks = none

theorem orElse_eq_none {α : Type*} {x y : Option α} : (x <|> y) = none ↔ x = none ∧ y = none := by
  cases x <;> simp

theorem scheduleMaintenance_ok (h : scheduleMaintenance codec w height k msg = .ok (k', id)) :
    ∃ a, Accepted codec height k msg a ∧ k.createReservation codec a msg = .ok (k', id) := by
  simp only [scheduleMaintenance] at h
  iterate 4
    split at h
    · nomatch h
  next a haddr =>
  split at h
  · nomatch h
  next hchecks =>
  obtain ⟨hrequest, hstate⟩ := orElse_eq_none.mp hchecks
  simp only [checkRequest, Inference.check_eq_none_iff] at hrequest
  simp only [checkState, Inference.check_eq_none_iff, orElse_eq_none] at hstate
  obtain ⟨_, _, -, -, hapart⟩ := hstate
  refine ⟨a, ⟨haddr, ?_, ?_, ?_, ?_, ?_, ?_, hapart⟩, h⟩ <;> omega

include hb in
theorem createReservation_change (hm : Accepted codec height k msg a)
    (h : k.createReservation codec a msg = .ok (k', id)) :
    Change codec k k' a none (msg.reservation id)
        ((k.getOrCreateMaintenanceState codec a).creditBlocks - msg.durationBlocks) ∧
      id = k.maintenanceReservationCounter + 1 ∧ k'.maintenanceReservationCounter = id := by
  have hfresh : k.reservation (k.maintenanceReservationCounter + 1) = none := by
    cases hr : k.reservation (k.maintenanceReservationCounter + 1) with
    | none => rfl
    | some =>
      have := (hb.recorded hr).le_counter
      omega
  simp only [createReservation] at h
  split at h
  · nomatch h
  next hset =>
  cases Except.ok.inj h
  obtain rfl := setMaintenanceState_ok hset (hb.address_state a)
  refine ⟨Change.of_writes _ hfresh nofun hm.address rfl (Nat.le_succ _) rfl rfl
    (hb.address_state a) rfl ?_ ?_ ?_, rfl, rfl⟩
  · rintro s (rfl | rfl)
    · rfl
    · rfl
  · rintro s (rfl | rfl) id
    · exact get?_insert ..
    show (k.index .active).get? id = _
    split
    · next hid =>
      refine hb.index_none (.inr rfl) ?_
      rintro ⟨r, hr, -⟩
      rw [hid] at hr
      nomatch hfresh.symm.trans hr
    · rfl
  · intro h id
    rw [row_set, row_set]
    show (if h = msg.startHeight + msg.durationBlocks ∧ _ then _ else if _ then _ else k.row h id) =
      if id = k.maintenanceReservationCounter + 1 then _ else _
    by_cases hid : id = k.maintenanceReservationCounter + 1
    · have hnone : k.row h id = none := by
        rw [hb.rows, hid, hfresh, bind_none]
      have hpos := hm.duration_pos
      rw [if_pos hid, hnone]
      show _ = if h = msg.startHeight then _
        else if h = msg.startHeight + msg.durationBlocks then _ else _
      by_cases hstart : h = msg.startHeight
      · rw [if_pos hstart, if_neg (by omega), if_pos ⟨hstart, hid⟩]
      · rw [if_neg hstart, if_neg (c := h = msg.startHeight ∧ _) (fun h' => hstart h'.1)]
        exact if_congr (and_iff_left hid) rfl rfl
    · rw [if_neg hid, if_neg (fun h' => hid h'.2), if_neg (fun h' => hid h'.2)]

theorem Accepted.order (hm : Accepted codec height k msg a) (hb : Book codec height k)
    (hlater : height < msg.startHeight) (hr : k.reservation id = some r)
    (haddr : codec.accAddressFromBech32 r.participant = some a)
    (hactive : r.status = .active) : r.completeHeight ≤ msg.startHeight := by
  have hid := (hb.recorded hr).pos.ne'
  have hpointer : (k.getOrCreateMaintenanceState codec a).activeReservationId = id :=
    (hb.pointer (.inr rfl) a hid).mpr ⟨r, hr, haddr, hactive⟩
  have hstart := hb.started hr hactive
  cases hstate : k.maintenanceStates.get? a with
  | none =>
    unfold getOrCreateMaintenanceState at hpointer
    rw [hstate] at hpointer
    exact absurd hpointer.symm hid
  | some =>
    rw [getOrCreate_of_some hstate] at hpointer
    have hapart := hm.apart
    simp only [checkParticipantOverlap, hstate, Inference.check_eq_none_iff] at hapart
    have hno : ¬ r.Overlaps msg.startHeight msg.durationBlocks := by
      intro hoverlap
      refine hapart.1 ?_
      have hr' : k.maintenanceReservations.get? id = some r := hr
      simp only [overlapsReservation, hpointer, hr', any_some]
      simp only [hid, hoverlap, ne_eq, not_false_eq_true, decide_true, Bool.and_self]
    unfold MaintenanceReservation.Overlaps meets at hno
    unfold completeHeight
    omega

include hb hr hscheduled haddr in
theorem Book.canceled_change (transitions : OrdMap (ℤ ×ₗ ℕ) MaintenanceTransitionType)
    (htransitions : ∀ h id', transitions.get? (toLex (h, id')) =
      if id' = id ∧ (h = r.startHeight ∨ h = r.completeHeight) then none else k.row h id') :
    Change codec k
      { k.markCanceled r id with
        maintenanceStates := k.maintenanceStates.insert a
          ((k.getOrCreateMaintenanceState codec a).restore r k.getMaintenanceParams)
        maintenanceTransitions := transitions }
      a (some r) { r with status := .canceled }
      (min ((k.getOrCreateMaintenanceState codec a).creditBlocks + r.durationBlocks)
        k.getMaintenanceParams.maintenanceCreditCapBlocks) := by
  have hrec := hb.recorded hr
  obtain rfl := hrec.reservationId
  refine Change.of_writes _ hr ?_ haddr rfl le_rfl rfl rfl (hb.address_state a) ?_ ?_ ?_ ?_
  · intro r₀ h
    cases h
    exact ⟨rfl, rfl, rfl⟩
  · -- the sum does not wrap
    show min (u64 _) _ = _
    have hcredit := hb.credit a
    have hduration := hrec.duration_le
    unfold maxMaintenanceBlocksParam at hcredit hduration
    rw [u64, Nat.mod_eq_of_lt (by omega)]
  · rintro s (rfl | rfl)
    · rw [if_neg nofun, map_some, hscheduled, if_pos rfl]
      rfl
    · rw [if_neg nofun, map_some, hscheduled, if_neg nofun]
      rfl
  · rintro s (rfl | rfl) id
    · exact get?_erase ..
    show (k.index .active).get? id = _
    split
    · next hid =>
      refine hb.index_none (.inr rfl) ?_
      rintro ⟨_, hr₁, hactive⟩
      rw [hid] at hr₁
      cases hr.symm.trans hr₁
      nomatch hscheduled.symm.trans hactive
    · rfl
  · intro h id
    show transitions.get? (toLex (h, id)) = _
    rw [htransitions]
    by_cases hid : id = r.reservationId
    · rw [if_pos hid]
      by_cases hheight : h = r.startHeight ∨ h = r.completeHeight
      · rw [if_pos ⟨hid, hheight⟩]
        rfl
      rw [not_or] at hheight
      rw [if_neg (fun h' => not_or.mpr hheight h'.2), hb.rows, hid, hr, bind_some]
      unfold due
      rw [hscheduled]
      simp only [hheight, if_false]
    · rw [if_neg hid, if_neg (fun h' => hid h'.1)]

theorem Keeper.row_delete₂ (h₁ h₂ : ℤ) (id : ℕ) (h : ℤ) (id' : ℕ) :
    ((k.deleteMaintenanceTransition h₁ id).deleteMaintenanceTransition h₂ id).row h id' =
      if id' = id ∧ (h = h₁ ∨ h = h₂) then none else k.row h id' := by
  rw [row_delete, row_delete]
  by_cases hid : id' = id
  · by_cases h1 : h = h₁ <;> by_cases h2 : h = h₂ <;> simp [hid, h1, h2]
  · simp [hid]

theorem Recorded.not_overflows (hr : Recorded codec k id r) : ¬ r.Overflows := by
  have hle := hr.completeHeight_le
  have hduration := hr.duration_le
  unfold completeHeight at hle
  unfold MaintenanceReservation.Overflows
  unfold maxMaintenanceBlocksParam at hduration
  unfold maxInt64 at hle ⊢
  omega

/-- The credit of `a` with the duration of `r` given back, up to the cap. -/
def Keeper.restored (codec : Bech32 A) (k : Keeper A) (a : A) (r : MaintenanceReservation) : ℕ :=
  min ((k.getOrCreateMaintenanceState codec a).creditBlocks + r.durationBlocks)
    k.getMaintenanceParams.maintenanceCreditCapBlocks

include hb in
/-- **A message cancels a scheduled reservation of its creator.** -/
theorem cancelMaintenance_change {msg : MsgCancelMaintenance}
    (h : cancelMaintenance codec w k msg = .ok k') :
    ∃ a r, r.status = .scheduled ∧ r.reservationId = msg.reservationId ∧
      msg.creator = r.participant ∧
      Change codec k k' a (some r) { r with status := .canceled } (k.restored codec a r) := by
  simp only [cancelMaintenance] at h
  split at h
  · nomatch h
  split at h
  · nomatch h
  next r hr =>
  have hrec := hb.recorded hr
  split at h
  · nomatch h
  next hscheduled =>
  split at h
  · nomatch h
  next hcreator =>
  rw [not_not] at hscheduled hcreator
  split at h
  · nomatch h
  next a haddr =>
  split at h
  · nomatch h
  next hset =>
  obtain rfl := setMaintenanceState_ok hset (hb.address_state a)
  rw [if_neg hrec.not_overflows] at h
  cases h
  refine ⟨a, r, hscheduled, hrec.reservationId, hcreator, ?_⟩
  have hfound : k.reservation r.reservationId = some r := by
    rw [hrec.reservationId]
    exact hr
  exact hb.canceled_change hfound hscheduled haddr _ fun h id' => row_delete₂ ..

/-! ### Rows that are due -/

/-- How a row changes its reservation, and what this does to the credit. -/
inductive Turn (codec : Bech32 A) (k : Keeper A) (a : A) (mp : MaintenanceParams)
    (old : MaintenanceReservation) : MaintenanceReservation → ℕ → Prop
  | activated (warning : String) (hold : old.status = .scheduled) :
    Turn codec k a mp old { old with status := .active, activationWarning := warning }
      (k.getOrCreateMaintenanceState codec a).creditBlocks
  | completed (hold : old.status = .active) :
    Turn codec k a mp old { old with status := .completed }
      (k.getOrCreateMaintenanceState codec a).creditBlocks
  | canceled (hold : old.status = .scheduled) (hdisabled : mp.maintenanceEnabled = false) :
    Turn codec k a mp old { old with status := .canceled } (k.restored codec a old)

include hb hr hscheduled haddr in
theorem activateMaintenanceReservation_eq (mp : MaintenanceParams) :
    ∃ warning state, activateMaintenanceReservation codec w k id mp =
        { k with
          maintenanceReservations := k.maintenanceReservations.insert r.reservationId
            { r with status := .active, activationWarning := warning }
          maintenanceActiveIndex := k.maintenanceActiveIndex.insert id ()
          maintenanceScheduledIndex := k.maintenanceScheduledIndex.erase id
          maintenanceStates := k.maintenanceStates.insert a state } ∧
      codec.accAddressFromBech32 state.participant = some a ∧
      state.creditBlocks = (k.getOrCreateMaintenanceState codec a).creditBlocks ∧
      state.activeReservationId = id ∧ state.scheduledReservationId = 0 := by
  have hr' : k.maintenanceReservations.get? id = some r := hr
  have hstate := hb.address_state a
  unfold activateMaintenanceReservation
  simp only [hr', hscheduled, ne_eq, not_true_eq_false, if_false]
  generalize checkActivationTimeConcurrency codec w k r mp = warning
  -- with and without a warning, with and without an effective epoch
  by_cases hwarning : warning = "" <;> cases w.effectiveEpochIndex <;>
    simp only [hwarning, not_true_eq_false, not_false_eq_true, if_true, if_false, haddr]
  all_goals
    split
    · next hset => exact (setMaintenanceState_ne_error hset hstate).elim
    · next hset =>
      rw [setMaintenanceState_ok hset hstate]
      exact ⟨_, _, rfl, hstate, rfl, rfl, rfl⟩

include hb hr in
/-- The keeper after `r` was written as completed. -/
theorem completeMaintenanceReservation_eq (hactive : r.status = .active)
    (haddr : codec.accAddressFromBech32 r.participant = some a) :
    ∃ state, completeMaintenanceReservation codec w k id =
        { k with
          maintenanceReservations := k.maintenanceReservations.insert r.reservationId
            { r with status := .completed }
          maintenanceActiveIndex := k.maintenanceActiveIndex.erase id
          maintenanceStates := k.maintenanceStates.insert a state } ∧
      codec.accAddressFromBech32 state.participant = some a ∧
      state.creditBlocks = (k.getOrCreateMaintenanceState codec a).creditBlocks ∧
      state.activeReservationId = 0 ∧
      state.scheduledReservationId =
        (k.getOrCreateMaintenanceState codec a).scheduledReservationId := by
  have hr' : k.maintenanceReservations.get? id = some r := hr
  have hstate := hb.address_state a
  unfold completeMaintenanceReservation
  simp only [hr', hactive, ne_eq, not_true_eq_false, if_false, haddr]
  cases w.effectiveEpochIndex <;> simp only
  all_goals
    split
    · next hset => exact (setMaintenanceState_ne_error hset hstate).elim
    · next hset =>
      rw [setMaintenanceState_ok hset hstate]
      exact ⟨_, rfl, hstate, rfl, rfl, rfl⟩

include hb hr in
/-- The rows of `id` without the one that was worked on, if this is what is due afterwards. -/
theorem Book.row_worked {r' : MaintenanceReservation} {h₀ : ℤ} (hnone : r'.due h₀ = none)
    (hdue : ∀ h, h ≠ h₀ → r'.due h = r.due h) (h : ℤ) (id' : ℕ) :
    (if h = h₀ ∧ id' = id then none else k.row h id') =
      if id' = id then r'.due h else k.row h id' := by
  by_cases hid : id' = id
  · rw [if_pos hid]
    by_cases hheight : h = h₀
    · rw [if_pos ⟨hheight, hid⟩, hheight, hnone]
    · rw [if_neg (fun h' => hheight h'.1), hdue h hheight, hb.rows, hid, hr, bind_some]
  · rw [if_neg hid, if_neg (fun h' => hid h'.2)]

include hb hr hscheduled haddr in
theorem activated_change (mp : MaintenanceParams) :
    ∃ warning, Change codec k
      ((activateMaintenanceReservation codec w k id mp).deleteMaintenanceTransition r.startHeight id)
      a (some r) { r with status := .active, activationWarning := warning }
      (k.getOrCreateMaintenanceState codec a).creditBlocks := by
  have hrec := hb.recorded hr
  obtain ⟨warning, state, heq, hstate, hcredit, hactiveId, hscheduledId⟩ :=
    activateMaintenanceReservation_eq (w := w) hb hr hscheduled haddr mp
  rw [heq]
  obtain rfl := hrec.reservationId
  refine ⟨warning, Change.of_writes state hr ?_ haddr rfl le_rfl rfl rfl hstate hcredit ?_ ?_ ?_⟩
  · intro r₀ h
    cases h
    exact ⟨rfl, rfl, rfl⟩
  · rintro s (rfl | rfl)
    · rw [if_neg nofun, map_some, hscheduled, if_pos rfl]
      exact hscheduledId
    · rw [if_pos rfl]
      exact hactiveId
  · rintro s (rfl | rfl) id
    · exact get?_erase ..
    · exact get?_insert ..
  · intro h id
    rw [row_delete]
    have hne := start_ne_complete hrec.duration_pos
    refine hb.row_worked hr (?_ : _ = none) (fun h hh => ?_) h id
    · exact if_neg hne
    show (if h = r.completeHeight then _ else _) = r.due h
    unfold due
    rw [hscheduled]
    simp only [hh, if_false]

include hb hr in
theorem completed_change (hactive : r.status = .active)
    (haddr : codec.accAddressFromBech32 r.participant = some a) :
    Change codec k
      ((completeMaintenanceReservation codec w k id).deleteMaintenanceTransition r.completeHeight id)
      a (some r) { r with status := .completed }
      (k.getOrCreateMaintenanceState codec a).creditBlocks := by
  obtain ⟨state, heq, hstate, hcredit, hactiveId, hscheduledId⟩ :=
    completeMaintenanceReservation_eq (w := w) hb hr hactive haddr
  rw [heq]
  obtain rfl := (hb.recorded hr).reservationId
  refine Change.of_writes state hr ?_ haddr rfl le_rfl rfl rfl hstate hcredit ?_ ?_ ?_
  · intro r₀ h
    cases h
    exact ⟨rfl, rfl, rfl⟩
  · rintro s (rfl | rfl)
    · rw [if_neg nofun, map_some, hactive, if_neg nofun]
      exact hscheduledId
    · rw [if_neg nofun, map_some, hactive, if_pos rfl]
      exact hactiveId
  · rintro s (rfl | rfl) id
    · show (k.index .scheduled).get? id = _
      split
      · next hid =>
        refine hb.index_none (.inl rfl) ?_
        rintro ⟨_, hr₁, hscheduled⟩
        rw [hid] at hr₁
        cases hr.symm.trans hr₁
        nomatch hactive.symm.trans hscheduled
      · rfl
    · exact get?_erase ..
  · intro h id
    rw [row_delete]
    refine hb.row_worked hr rfl (fun h hh => ?_) h id
    unfold due
    rw [hactive]
    simp only [hh, if_false]

include hb hr hscheduled haddr in
theorem disabled_change : Change codec k
      ((cancelScheduledReservationOnDisabled codec k id).deleteMaintenanceTransition r.startHeight id)
      a (some r) { r with status := .canceled } (k.restored codec a r) := by
  have hr' : k.maintenanceReservations.get? id = some r := hr
  have hstate := hb.address_state a
  unfold cancelScheduledReservationOnDisabled
  simp only [hr', hscheduled, ne_eq, not_true_eq_false, if_false, haddr,
    (hb.recorded hr).not_overflows]
  split
  · next hset => exact (setMaintenanceState_ne_error hset hstate).elim
  next hset =>
  rw [setMaintenanceState_ok hset hstate]
  refine hb.canceled_change hr hscheduled haddr _ fun h id' => ?_
  refine (row_delete₂ r.completeHeight r.startHeight id h id').trans ?_
  exact if_congr (and_congr_right fun _ => or_comm) rfl rfl

theorem Change.recorded {old : MaintenanceReservation} {credit : ℕ}
    (hc : Change codec k k' a (some old) r credit) (hold : Recorded codec k id old)
    (hid : r.reservationId = id) : Recorded codec k' r.reservationId r := by
  obtain ⟨_, hstart, hduration⟩ := hc.kept rfl
  have hcomplete := hold.completeHeight_le
  subst hid
  refine ⟨rfl, hold.pos, hold.le_counter.trans hc.counter, ?_, ?_, ?_, a, hc.address⟩
  · rw [hduration]
    exact hold.duration_pos
  · rw [hduration]
    exact hold.duration_le
  · unfold completeHeight
    rwa [hstart, hduration]

theorem MaintenanceReservation.due_eq_activate_iff {h : ℤ} :
    r.due h = some .activate ↔ r.status = .scheduled ∧ h = r.startHeight := by
  unfold due
  cases r.status <;> simp

theorem MaintenanceReservation.due_eq_complete_iff {h : ℤ} (hpos : 0 < r.durationBlocks) :
    r.due h = some .complete ↔
      (r.status = .scheduled ∨ r.status = .active) ∧ h = r.completeHeight := by
  have hne := r.start_ne_complete hpos
  unfold due
  cases r.status <;> simp
  split_ifs <;> simp_all

include hb in
theorem Book.restored_le : k.restored codec a r ≤ maxMaintenanceBlocksParam :=
  (min_le_right _ _).trans hb.params_valid.cap

include hb in
theorem Book.active_vacant (hfrom : ∀ h id t, k.row h id = some t → height ≤ h)
    (hfirst : ∀ id' t', k.row height id' = some t' → id ≤ id') (hr : k.reservation id = some r)
    (hscheduled : r.status = .scheduled) (haddr : codec.accAddressFromBech32 r.participant = some a)
    (hstart : height = r.startHeight) :
    (k.getOrCreateMaintenanceState codec a).pointer .active = 0 := by
  by_contra hne
  obtain ⟨id₁, hid₁⟩ : ∃ id₁, (k.getOrCreateMaintenanceState codec a).pointer .active = id₁ :=
    ⟨_, rfl⟩
  obtain ⟨r₁, hr₁, haddr₁, hactive⟩ := (hb.pointer (.inr rfl) a (hid₁ ▸ hne)).mp hid₁
  obtain ⟨hlt, hle⟩ := hb.order hr₁ hr haddr₁ haddr hactive hscheduled
  have hrow : k.row r₁.completeHeight id₁ = some .complete := by
    rw [hb.rows, hr₁, bind_some,
      due_eq_complete_iff (hb.recorded hr₁).duration_pos]
    exact ⟨.inr hactive, rfl⟩
  have hheight : r₁.completeHeight = height := by
    have := hfrom _ _ _ hrow
    omega
  rw [hheight] at hrow
  have := hfirst _ _ hrow
  omega

/-- **A row that is due.**  No row is overdue, and this one is the first of its height: the
reservation is activated, completed or canceled, and the row is gone. -/
theorem processTransition_change (w : World A) (mp : MaintenanceParams)
    {t : MaintenanceTransitionType} (hb : Book codec height k)
    (hfrom : ∀ h id t, k.row h id = some t → height ≤ h) (hrow : k.row height id = some t)
    (hfirst : ∀ id' t', k.row height id' = some t' → id ≤ id') :
    ∃ a old r credit, Turn codec k a mp old r credit ∧
      Change codec k (processTransition codec w height mp k (id, t)) a (some old) r credit ∧
      Fits codec height k (processTransition codec w height mp k (id, t)) a (some old) r credit ∧
      r.reservationId = id := by
  rw [hb.rows] at hrow
  obtain ⟨r, hr, hdue⟩ := bind_eq_some_iff.mp hrow
  have hrec := hb.recorded hr
  obtain ⟨a, haddr⟩ := hrec.address
  cases t with
  | activate =>
    rw [due_eq_activate_iff] at hdue
    obtain ⟨hscheduled, hstart⟩ := hdue
    by_cases henabled : mp.maintenanceEnabled
    · obtain ⟨warning, hchange⟩ := activated_change (w := w) hb hr hscheduled haddr mp
      have heq : processTransition codec w height mp k (id, .activate) =
          (activateMaintenanceReservation codec w k id mp).deleteMaintenanceTransition
            r.startHeight id := by
        simp only [processTransition, henabled, not_true_eq_false, if_false, ← hstart]
      rw [heq]
      refine ⟨a, r, _, _, .activated warning hscheduled, hchange, ?_, hrec.reservationId⟩
      exact
        { recorded := hchange.recorded hrec hrec.reservationId
          credit := hb.credit a
          vacant := fun _ => hb.active_vacant hfrom hfirst hr hscheduled haddr hstart
          started := fun _ => ⟨hstart.ge, congrArg some hscheduled⟩
          ended := nofun
          order := nofun }
    · rw [Bool.not_eq_true] at henabled
      have hchange := disabled_change hb hr hscheduled haddr
      have heq : processTransition codec w height mp k (id, .activate) =
          (cancelScheduledReservationOnDisabled codec k id).deleteMaintenanceTransition
            r.startHeight id := by
        simp only [processTransition, henabled, Bool.false_eq_true, not_false_eq_true, if_true,
          ← hstart]
      rw [heq]
      refine ⟨a, r, _, _, .canceled hscheduled henabled, hchange, ?_, hrec.reservationId⟩
      exact
        { recorded := hchange.recorded hrec hrec.reservationId
          credit := hb.restored_le
          vacant := fun h => by rcases h with h | h <;> nomatch h
          started := nofun
          ended := nofun
          order := nofun }
  | complete =>
    rw [due_eq_complete_iff hrec.duration_pos] at hdue
    obtain ⟨hstatus, hcomplete⟩ := hdue
    -- a scheduled reservation would be overdue
    have hactive : r.status = .active := by
      refine hstatus.resolve_left fun hscheduled => ?_
      have hoverdue := hfrom r.startHeight id .activate (by
        rw [hb.rows, hr, bind_some, due_eq_activate_iff]
        exact ⟨hscheduled, rfl⟩)
      have hpos := hrec.duration_pos
      unfold completeHeight at hcomplete
      omega
    have hchange := completed_change (w := w) hb hr hactive haddr
    rw [← hcomplete] at hchange
    refine ⟨a, r, _, _, .completed hactive, hchange, ?_, hrec.reservationId⟩
    exact
      { recorded := hchange.recorded hrec hrec.reservationId
        credit := hb.credit a
        vacant := fun h => by rcases h with h | h <;> nomatch h
        started := nofun
        ended := fun _ => hcomplete.ge
        order := nofun }

include hb in
theorem Book.credited (haddr : codec.accAddressFromBech32 state.participant = some a)
    (hcredit : state.creditBlocks ≤ maxMaintenanceBlocksParam)
    (hpointer : ∀ s, state.pointer s = (k.getOrCreateMaintenanceState codec a).pointer s) :
    Book codec height { k with maintenanceStates := k.maintenanceStates.insert a state } := by
  have hget : ∀ b, ({ k with maintenanceStates := k.maintenanceStates.insert a state } :
      Keeper A).getOrCreateMaintenanceState codec b =
        if b = a then state else k.getOrCreateMaintenanceState codec b := by
    intro b
    unfold getOrCreateMaintenanceState
    rw [get?_insert]
    split <;> rfl
  refine { hb with recorded := ?_, state := ?_, credit := ?_, pointer := ?_ }
  · intro id r hr
    exact { hb.recorded hr with }
  · intro b state' h
    rw [get?_insert] at h
    split at h
    · next hba =>
      cases h
      rw [hba]
      exact haddr
    · exact hb.state h
  · intro b
    rw [hget]
    split
    · exact hcredit
    · exact hb.credit b
  · intro s hs b id hid
    rw [hget]
    split
    · next hba =>
      rw [hpointer, hba]
      exact hb.pointer hs a hid
    · exact hb.pointer hs b hid

/-- The credit of `a` with what is earned in an epoch, up to the cap. -/
def Keeper.earned (codec : Bech32 A) (k : Keeper A) (a : A) : ℕ :=
  min ((k.getOrCreateMaintenanceState codec a).creditBlocks +
    k.getMaintenanceParams.maintenanceCreditEarnPerSuccessfulEpochBlocks)
    k.getMaintenanceParams.maintenanceCreditCapBlocks

def Keeper.granted (codec : Bech32 A) (k : Keeper A) (a : A) : Keeper A :=
  let state := k.getOrCreateMaintenanceState codec a
  { k with maintenanceStates :=
      k.maintenanceStates.insert a { state with creditBlocks := k.earned codec a } }

section

include hb

theorem grantMaintenanceCredit_ok {participant : String} {epochIndex : ℕ}
    (h : grantMaintenanceCredit codec w k participant epochIndex = .ok k') :
    k' = k ∨ ∃ a, codec.accAddressFromBech32 participant = some a ∧ k' = k.granted codec a := by
  simp only [grantMaintenanceCredit] at h
  split at h
  · exact .inl (Except.ok.inj h).symm
  split at h
  · nomatch h
  next a haddr =>
  split at h
  · exact .inl (Except.ok.inj h).symm
  refine .inr ⟨a, haddr, ?_⟩
  -- the sum does not wrap
  have hu64 : u64 ((k.getOrCreateMaintenanceState codec a).creditBlocks +
      k.getMaintenanceParams.maintenanceCreditEarnPerSuccessfulEpochBlocks) =
      (k.getOrCreateMaintenanceState codec a).creditBlocks +
        k.getMaintenanceParams.maintenanceCreditEarnPerSuccessfulEpochBlocks := by
    have hcredit := hb.credit a
    have hcap := hb.params_valid.cap
    have hearn := hb.params_valid.earn
    unfold maxMaintenanceBlocksParam at hcredit hcap
    exact Nat.mod_eq_of_lt (by omega)
  rw [setMaintenanceState_ok h (hb.address_state a), hu64]
  rfl

theorem Book.grant (a : A) : Book codec height (k.granted codec a) := by
  refine hb.credited (hb.address_state a) ((min_le_right _ _).trans hb.params_valid.cap) fun s => ?_
  cases s <;> rfl

theorem Book.setParams {mp : Option MaintenanceParams}
    (hmp : (mp.getD defaultMaintenanceParams).validate = none) :
    Book codec height { k with maintenanceParams := mp } :=
  { hb with recorded := fun hr => { hb.recorded hr with }, valid := hmp }

theorem Book.later {height' : ℤ} (hle : height ≤ height') : Book codec height' k :=
  { hb with
    started := fun hr hactive => (hb.started hr hactive).trans hle
    ended := fun hr hcompleted => (hb.ended hr hcompleted).trans hle }

end

end Maintenance
