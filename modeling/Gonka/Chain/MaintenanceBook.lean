/-
The book of maintenance reservations.

What is written about a reservation is written in five places, and `Book` says that they agree: the
rows of a reservation are those its status asks for, it is indexed under its status, and the state
of its participant points to it.  All operations on a reservation are of one kind: one record
changes its status or is added, and the other four places follow.

Main result: `Book.change`.
-/
import Gonka.Chain.Maintenance

namespace Maintenance

open Option

/-! ### What is written about a reservation -/

def MaintenanceReservation.due (r : MaintenanceReservation) (height : ℤ) :
    Option MaintenanceTransitionType :=
  match r.status with
  | .scheduled =>
    if height = r.startHeight then some .activate
    else if height = r.completeHeight then some .complete
    else none
  | .active => if height = r.completeHeight then some .complete else none
  | .completed => none
  | .canceled => none

/-- Reservations with this status are indexed and pointed to. -/
def MaintenanceReservationStatus.Held (s : MaintenanceReservationStatus) : Prop :=
  s = .scheduled ∨ s = .active

def MaintenanceState.pointer (state : MaintenanceState) : MaintenanceReservationStatus → ℕ
  | .scheduled => state.scheduledReservationId
  | .active => state.activeReservationId
  | _ => 0

variable {A : Type*} [LinearOrder A] (codec : Bech32 A)

namespace Keeper

variable (k : Keeper A)

def index : MaintenanceReservationStatus → OrdMap ℕ Unit
  | .scheduled => k.maintenanceScheduledIndex
  | .active => k.maintenanceActiveIndex
  | _ => ∅

def reservation (id : ℕ) : Option MaintenanceReservation := k.maintenanceReservations.get? id

def row (height : ℤ) (id : ℕ) : Option MaintenanceTransitionType :=
  k.maintenanceTransitions.get? (toLex (height, id))

/-- Reservation `id` is one of `a`, with this status. -/
def Holds (a : A) (s : MaintenanceReservationStatus) (id : ℕ) : Prop :=
  ∃ r, k.reservation id = some r ∧ codec.accAddressFromBech32 r.participant = some a ∧ r.status = s

end Keeper

/-- What holds of a reservation from the start. -/
structure Recorded (k : Keeper A) (id : ℕ) (r : MaintenanceReservation) : Prop where
  reservationId : r.reservationId = id
  pos : 0 < id
  le_counter : id ≤ k.maintenanceReservationCounter
  duration_pos : 0 < r.durationBlocks
  duration_le : r.durationBlocks ≤ maxMaintenanceBlocksParam
  completeHeight_le : r.completeHeight ≤ maxInt64
  address : ∃ a, codec.accAddressFromBech32 r.participant = some a

/-- **The book is in order**, at a height where the rows up to then were worked through. -/
structure Book (height : ℤ) (k : Keeper A) : Prop where
  recorded : ∀ {id r}, k.reservation id = some r → Recorded codec k id r
  state : ∀ {a state}, k.maintenanceStates.get? a = some state →
    codec.accAddressFromBech32 state.participant = some a
  valid : k.getMaintenanceParams.validate = none
  credit : ∀ a, (k.getOrCreateMaintenanceState codec a).creditBlocks ≤ maxMaintenanceBlocksParam
  index : ∀ {s}, s.Held → ∀ id,
    (k.index s).get? id = some () ↔ ∃ r, k.reservation id = some r ∧ r.status = s
  pointer : ∀ {s}, s.Held → ∀ a {id}, id ≠ 0 →
    ((k.getOrCreateMaintenanceState codec a).pointer s = id ↔ k.Holds codec a s id)
  rows : ∀ height id, k.row height id = (k.reservation id).bind fun r => r.due height
  started : ∀ {id r}, k.reservation id = some r → r.status = .active → r.startHeight ≤ height
  ended : ∀ {id r}, k.reservation id = some r → r.status = .completed → r.completeHeight ≤ height
  order : ∀ {id r id' r' a}, k.reservation id = some r → k.reservation id' = some r' →
    codec.accAddressFromBech32 r.participant = some a →
    codec.accAddressFromBech32 r'.participant = some a →
    r.status = .active → r'.status = .scheduled → id < id' ∧ r.completeHeight ≤ r'.startHeight

/-- **One reservation is written**: `r`, of the participant `a`, where `old` was.  The rows, the
indexes and the state of `a` follow; `credit` is the credit of `a` afterwards. -/
structure Change (k k' : Keeper A) (a : A) (old : Option MaintenanceReservation)
    (r : MaintenanceReservation) (credit : ℕ) : Prop where
  found : k.reservation r.reservationId = old
  kept : ∀ {r₀}, old = some r₀ → r.participant = r₀.participant ∧ r.startHeight = r₀.startHeight ∧
    r.durationBlocks = r₀.durationBlocks
  address : codec.accAddressFromBech32 r.participant = some a
  reservation : ∀ id, k'.reservation id = if id = r.reservationId then some r else k.reservation id
  counter : k.maintenanceReservationCounter ≤ k'.maintenanceReservationCounter
  params : k'.maintenanceParams = k.maintenanceParams
  other : ∀ b, b ≠ a → k'.maintenanceStates.get? b = k.maintenanceStates.get? b
  state : ∃ state, k'.maintenanceStates.get? a = some state ∧
    codec.accAddressFromBech32 state.participant = some a ∧ state.creditBlocks = credit ∧
    ∀ {s}, s.Held → state.pointer s =
      if r.status = s then r.reservationId
      else if old.map (·.status) = some s then 0
      else (k.getOrCreateMaintenanceState codec a).pointer s
  index : ∀ {s}, s.Held → ∀ id, (k'.index s).get? id =
    if id = r.reservationId then (if r.status = s then some () else none) else (k.index s).get? id
  rows : ∀ height id, k'.row height id =
    if id = r.reservationId then r.due height else k.row height id

/-- What is needed of the written reservation. -/
structure Fits (height : ℤ) (k k' : Keeper A) (a : A) (old : Option MaintenanceReservation)
    (r : MaintenanceReservation) (credit : ℕ) : Prop where
  recorded : Recorded codec k' r.reservationId r
  credit : credit ≤ maxMaintenanceBlocksParam
  vacant : r.status.Held → (k.getOrCreateMaintenanceState codec a).pointer r.status = 0
  started : r.status = .active →
    r.startHeight ≤ height ∧ old.map (·.status) = some .scheduled
  ended : r.status = .completed → r.completeHeight ≤ height
  order : r.status = .scheduled → ∀ {id r₁}, k.reservation id = some r₁ →
    codec.accAddressFromBech32 r₁.participant = some a → r₁.status = .active →
    id < r.reservationId ∧ r₁.completeHeight ≤ r.startHeight

/-! ### A change keeps the book -/

section

variable {codec} {height : ℤ} {k k' : Keeper A} {a : A} {old : Option MaintenanceReservation}
  {r : MaintenanceReservation} {credit : ℕ}

theorem Keeper.getOrCreate_of_some {state : MaintenanceState}
    (h : k.maintenanceStates.get? a = some state) :
    k.getOrCreateMaintenanceState codec a = state := by
  unfold Keeper.getOrCreateMaintenanceState
  rw [h, getD_some]

theorem Keeper.getOrCreate_congr (h : k'.maintenanceStates.get? a = k.maintenanceStates.get? a) :
    k'.getOrCreateMaintenanceState codec a = k.getOrCreateMaintenanceState codec a := by
  unfold Keeper.getOrCreateMaintenanceState
  rw [h]

variable (hb : Book codec height k)

include hb in
theorem Book.address_state (a : A) :
    codec.accAddressFromBech32 (k.getOrCreateMaintenanceState codec a).participant = some a := by
  cases h : k.maintenanceStates.get? a with
  | none =>
    unfold Keeper.getOrCreateMaintenanceState
    rw [h, getD_none]
    exact codec.accAddressFromBech32_string a
  | some =>
    rw [Keeper.getOrCreate_of_some h]
    exact hb.state h

variable {b : A} {s : MaintenanceReservationStatus}

variable (hc : Change codec k k' a old r credit)

section

include hc

theorem Change.getOrCreate_other (hb : b ≠ a) :
    k'.getOrCreateMaintenanceState codec b = k.getOrCreateMaintenanceState codec b :=
  Keeper.getOrCreate_congr (hc.other b hb)

theorem Change.getOrCreate_credit :
    (k'.getOrCreateMaintenanceState codec a).creditBlocks = credit := by
  obtain ⟨_, hstate, -, hcredit, -⟩ := hc.state
  rw [Keeper.getOrCreate_of_some hstate]
  exact hcredit

theorem Change.getOrCreate_pointer (hs : s.Held) :
    (k'.getOrCreateMaintenanceState codec a).pointer s =
      if r.status = s then r.reservationId
      else if old.map (·.status) = some s then 0
      else (k.getOrCreateMaintenanceState codec a).pointer s := by
  obtain ⟨_, hstate, -, -, hpointer⟩ := hc.state
  rw [Keeper.getOrCreate_of_some hstate]
  exact hpointer hs

theorem Change.reservation_self : k'.reservation r.reservationId = some r := by
  rw [hc.reservation, if_pos rfl]

theorem Change.reservation_of_ne {id : ℕ}
    (hid : id ≠ r.reservationId) : k'.reservation id = k.reservation id := by
  rw [hc.reservation, if_neg hid]

theorem Change.holds_of_ne {id : ℕ} (hid : id ≠ r.reservationId) :
    k'.Holds codec b s id ↔ k.Holds codec b s id := by
  unfold Keeper.Holds
  rw [hc.reservation_of_ne hid]

theorem Change.holds_self_after : k'.Holds codec b s r.reservationId ↔ b = a ∧ r.status = s := by
  constructor
  · rintro ⟨_, hr₁, haddr, hstatus⟩
    cases hc.reservation_self.symm.trans hr₁
    exact ⟨some.inj (haddr.symm.trans hc.address), hstatus⟩
  · rintro ⟨rfl, hstatus⟩
    exact ⟨r, hc.reservation_self, hc.address, hstatus⟩

theorem Change.holds_self_before :
    k.Holds codec b s r.reservationId ↔ b = a ∧ old.map (·.status) = some s := by
  constructor
  · rintro ⟨r₀, hr₀, haddr, hstatus⟩
    have hold : old = some r₀ := hc.found.symm.trans hr₀
    rw [← (hc.kept hold).1] at haddr
    exact ⟨some.inj (haddr.symm.trans hc.address), by rw [hold, map_some, hstatus]⟩
  · rintro ⟨rfl, hstatus⟩
    obtain ⟨r₀, hold, hstatus⟩ := map_eq_some_iff.mp hstatus
    refine ⟨r₀, hc.found.trans hold, ?_, hstatus⟩
    rw [← (hc.kept hold).1]
    exact hc.address

end

include hb in
theorem Book.holds_unique (hs : s.Held) {id id' : ℕ} (h : k.Holds codec a s id)
    (h' : k.Holds codec a s id') :
    id = id' := by
  have hpos : ∀ {id}, k.Holds codec a s id → id ≠ 0 := by
    rintro _ ⟨_, hr, -⟩
    exact (hb.recorded hr).pos.ne'
  exact ((hb.pointer hs a (hpos h)).mpr h).symm.trans ((hb.pointer hs a (hpos h')).mpr h')

include hb in
/-- No reservation of `a` has a status without a pointer. -/
theorem Book.not_holds_of_pointer (hs : s.Held)
    (hp : (k.getOrCreateMaintenanceState codec a).pointer s = 0) (id : ℕ) :
    ¬ k.Holds codec a s id := by
  intro h
  have hpos : id ≠ 0 := by
    obtain ⟨r, hr, -⟩ := h
    exact (hb.recorded hr).pos.ne'
  exact hpos (((hb.pointer hs a hpos).mpr h).symm.trans hp)

section

include hb hc

theorem Change.index_iff (hs : s.Held) (id : ℕ) :
    (k'.index s).get? id = some () ↔ ∃ r₁, k'.reservation id = some r₁ ∧ r₁.status = s := by
  rw [hc.index hs, hc.reservation]
  by_cases hid : id = r.reservationId
  · rw [if_pos hid, if_pos hid]
    by_cases hstatus : r.status = s
    · rw [if_pos hstatus]
      exact iff_of_true rfl ⟨r, rfl, hstatus⟩
    rw [if_neg hstatus]
    refine iff_of_false nofun ?_
    rintro ⟨_, hr₁, h⟩
    cases hr₁
    exact hstatus h
  · rw [if_neg hid, if_neg hid]
    exact hb.index hs id

/-- The pointers follow, if `a` has no other reservation with the new status. -/
theorem Change.pointer_iff
    (hvacant : r.status.Held → (k.getOrCreateMaintenanceState codec a).pointer r.status = 0)
    (hs : s.Held) (b : A) {id : ℕ} (hid : id ≠ 0) :
    (k'.getOrCreateMaintenanceState codec b).pointer s = id ↔ k'.Holds codec b s id := by
  by_cases hba : b = a
  · subst hba
    rw [hc.getOrCreate_pointer hs]
    by_cases hstatus : r.status = s
    · rw [if_pos hstatus]
      by_cases hself : id = r.reservationId
      · rw [hself, hc.holds_self_after]
        exact iff_of_true rfl ⟨rfl, hstatus⟩
      rw [hc.holds_of_ne hself]
      refine iff_of_false (Ne.symm hself) ?_
      rw [hstatus] at hvacant
      exact hb.not_holds_of_pointer hs (hvacant hs) id
    · rw [if_neg hstatus]
      by_cases hold : old.map (·.status) = some s
      · -- the pointer was to the written reservation
        rw [if_pos hold]
        refine iff_of_false (Ne.symm hid) fun h => ?_
        have hwas : k.Holds codec b s r.reservationId := hc.holds_self_before.mpr ⟨rfl, hold⟩
        by_cases hself : id = r.reservationId
        · rw [hself, hc.holds_self_after] at h
          exact hstatus h.2
        · rw [hc.holds_of_ne hself] at h
          exact hself (hb.holds_unique hs h hwas)
      · rw [if_neg hold, hb.pointer hs b hid]
        by_cases hself : id = r.reservationId
        · rw [hself, hc.holds_self_after, hc.holds_self_before]
          exact iff_of_false (fun h => hold h.2) fun h => hstatus h.2
        · rw [hc.holds_of_ne hself]
  · rw [hc.getOrCreate_other hba, hb.pointer hs b hid]
    by_cases hself : id = r.reservationId
    · rw [hself, hc.holds_self_after, hc.holds_self_before]
      exact iff_of_false (fun h => hba h.1) fun h => hba h.1
    · rw [hc.holds_of_ne hself]

theorem Change.rows_eq (h : ℤ)
    (id : ℕ) : k'.row h id = (k'.reservation id).bind fun r => r.due h := by
  rw [hc.rows, hc.reservation]
  by_cases hid : id = r.reservationId
  · rw [if_pos hid, if_pos hid, bind_some]
  · rw [if_neg hid, if_neg hid]
    exact hb.rows h id

end

include hc in
theorem Change.cases {id : ℕ} {r₁ : MaintenanceReservation} (h : k'.reservation id = some r₁) :
    id = r.reservationId ∧ r₁ = r ∨ id ≠ r.reservationId ∧ k.reservation id = some r₁ := by
  rw [hc.reservation] at h
  split at h
  · next hid => exact .inl ⟨hid, (some.inj h).symm⟩
  · next hid => exact .inr ⟨hid, h⟩

include hb in
include hc in
theorem Change.order (hr : Fits codec height k k' a old r credit) {id id' : ℕ}
    {r₁ r₂ : MaintenanceReservation} (h₁ : k'.reservation id = some r₁)
    (h₂ : k'.reservation id' = some r₂) (ha₁ : codec.accAddressFromBech32 r₁.participant = some b)
    (ha₂ : codec.accAddressFromBech32 r₂.participant = some b) (hactive : r₁.status = .active)
    (hscheduled : r₂.status = .scheduled) :
    id < id' ∧ r₁.completeHeight ≤ r₂.startHeight := by
  rcases hc.cases h₁ with ⟨rfl, rfl⟩ | ⟨hid₁, h₁⟩ <;> rcases hc.cases h₂ with ⟨rfl, rfl⟩ | ⟨hid₂, h₂⟩
  · rw [hactive] at hscheduled
    nomatch hscheduled
  · -- it was the scheduled one itself before
    obtain rfl := some.inj (ha₁.symm.trans hc.address)
    have hwas : k.Holds codec b .scheduled r₁.reservationId :=
      hc.holds_self_before.mpr ⟨rfl, (hr.started hactive).2⟩
    exact absurd (hb.holds_unique (.inl rfl) ⟨r₂, h₂, ha₂, hscheduled⟩ hwas) hid₂
  · obtain rfl := some.inj (ha₂.symm.trans hc.address)
    exact hr.order hscheduled h₁ ha₁ hactive
  · exact hb.order h₁ h₂ ha₁ ha₂ hactive hscheduled

include hb in
theorem Book.change (hc : Change codec k k' a old r credit)
    (hr : Fits codec height k k' a old r credit) : Book codec height k' where
  recorded := by
    intro id r₁ h
    rcases hc.cases h with ⟨rfl, rfl⟩ | ⟨-, h⟩
    · exact hr.recorded
    · exact { hb.recorded h with le_counter := (hb.recorded h).le_counter.trans hc.counter }
  state := by
    intro b state h
    by_cases hba : b = a
    · subst hba
      obtain ⟨_, hstate, haddr, -⟩ := hc.state
      cases hstate.symm.trans h
      exact haddr
    · rw [hc.other b hba] at h
      exact hb.state h
  valid := by
    have := hb.valid
    unfold Keeper.getMaintenanceParams at this ⊢
    rwa [hc.params]
  credit := by
    intro b
    by_cases hba : b = a
    · rw [hba, hc.getOrCreate_credit]
      exact hr.credit
    · rw [hc.getOrCreate_other hba]
      exact hb.credit b
  index hs id := hc.index_iff hb hs id
  pointer hs b _ hid := hc.pointer_iff hb hr.vacant hs b hid
  rows h id := hc.rows_eq hb h id
  started := by
    intro id r₁ h hactive
    rcases hc.cases h with ⟨rfl, rfl⟩ | ⟨-, h⟩
    · exact (hr.started hactive).1
    · exact hb.started h hactive
  ended := by
    intro id r₁ h hcompleted
    rcases hc.cases h with ⟨rfl, rfl⟩ | ⟨-, h⟩
    · exact hr.ended hcompleted
    · exact hb.ended h hcompleted
  order h₁ h₂ ha₁ ha₂ hactive hscheduled := hc.order hb hr h₁ h₂ ha₁ ha₂ hactive hscheduled

end

end Maintenance
