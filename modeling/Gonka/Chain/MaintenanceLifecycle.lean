/-
The lifecycle of maintenance reservations.

A row that is written for the height of the current block is never worked on, since the block has
begun: its reservation remains scheduled for ever, and its participant cannot schedule another one.
The lead time would rule this out, but the parameters may set it to 0.  And a cap that is lowered
is not applied to the credit that participants have.  If neither happens, all reservations go through
their windows.

Main results: `lifecycle_iff`, `stranded_reservation`.
-/
import Gonka.Chain.MaintenanceChanges

namespace Maintenance

open Option List Keeper MaintenanceReservation

variable {A : Type*} [LinearOrder A] (codec : Bech32 A)

def MaintenanceReservationStatus.Before (s s' : MaintenanceReservationStatus) : Prop :=
  s = s' ∨ s = .scheduled ∨ s = .active ∧ s' = .completed

def Added (k k' : Keeper A) (a : A) (id : ℕ) : Prop :=
  k.reservation id = none ∧
    ∃ r, k'.reservation id = some r ∧ codec.accAddressFromBech32 r.participant = some a

def Canceled (k k' : Keeper A) (a : A) (id : ℕ) : Prop :=
  ∃ r r', k.reservation id = some r ∧ codec.accAddressFromBech32 r.participant = some a ∧
    r.status ≠ .canceled ∧ k'.reservation id = some r' ∧ r'.status = .canceled

/-- Reservations keep what they were scheduled for, and their status goes on. -/
def Kept (k k' : Keeper A) : Prop :=
  ∀ id r, k.reservation id = some r → ∃ r', k'.reservation id = some r' ∧
    r'.participant = r.participant ∧ r'.startHeight = r.startHeight ∧
    r'.durationBlocks = r.durationBlocks ∧ r.status.Before r'.status

def Keeper.credit (k : Keeper A) (a : A) : ℕ := (k.getOrCreateMaintenanceState codec a).creditBlocks

variable {codec} {height : ℤ} {k k' k'' : Keeper A} {a : A}

theorem MaintenanceReservationStatus.Before.trans {s s' s'' : MaintenanceReservationStatus}
    (h : s.Before s') (h' : s'.Before s'') : s.Before s'' := by
  rcases h with rfl | h | ⟨rfl, rfl⟩
  · exact h'
  · exact .inr (.inl h)
  rcases h' with rfl | h' | ⟨h', -⟩
  · exact .inr (.inr ⟨rfl, rfl⟩)
  · nomatch h'
  · nomatch h'

theorem MaintenanceReservationStatus.Before.scheduled {s s' : MaintenanceReservationStatus}
    (h : s.Before s') (hs' : s' = .canceled) (hs : s ≠ .canceled) : s = .scheduled := by
  rcases h with h | h | ⟨-, h⟩
  · exact absurd (h.trans hs') hs
  · exact h
  · nomatch h.symm.trans hs'

theorem MaintenanceReservationStatus.Before.canceled {s s' : MaintenanceReservationStatus}
    (h : s.Before s') (hs : s = .canceled) : s' = .canceled := by
  rcases h with h | h | ⟨h, -⟩
  · exact h.symm.trans hs
  · nomatch h.symm.trans hs
  · nomatch h.symm.trans hs

theorem not_canceled_self (k : Keeper A) (a : A) (id : ℕ) : ¬ Canceled codec k k a id := by
  rintro ⟨_, _, hr, -, hne, hr', hcanceled⟩
  cases hr.symm.trans hr'
  exact hne hcanceled

theorem Kept.refl (k : Keeper A) : Kept k k :=
  fun _ r hr => ⟨r, hr, rfl, rfl, rfl, .inl rfl⟩

theorem Kept.trans (h : Kept k k') (h' : Kept k' k'') : Kept k k'' := by
  intro id r hr
  obtain ⟨_, hr', hp, hs, hd, hbefore⟩ := h _ _ hr
  obtain ⟨r'', hr'', hp', hs', hd', hbefore'⟩ := h' _ _ hr'
  exact ⟨r'', hr'', hp'.trans hp, hs'.trans hs, hd'.trans hd, hbefore.trans hbefore'⟩

theorem Kept.scheduled_of_canceled (h : Kept k k') {id : ℕ} (hc : Canceled codec k k' a id) :
    k.Holds codec a .scheduled id := by
  obtain ⟨r, _, hr, haddr, hne, hr₁, hcanceled⟩ := hc
  obtain ⟨_, hr', -, -, -, hbefore⟩ := h _ _ hr
  cases hr₁.symm.trans hr'
  exact ⟨r, hr, haddr, hbefore.scheduled hcanceled hne⟩

theorem Kept.canceled_trans (h : Kept k k') (h' : Kept k' k'') {id : ℕ} :
    Canceled codec k k'' a id ↔ Canceled codec k k' a id ∨
      ((∃ r, k.reservation id = some r) ∧ Canceled codec k' k'' a id) := by
  constructor
  · rintro ⟨r, r'', hr, haddr, hne, hr'', hcanceled⟩
    obtain ⟨r', hr', hp, -⟩ := h _ _ hr
    by_cases hs : r'.status = .canceled
    · exact .inl ⟨r, r', hr, haddr, hne, hr', hs⟩
    · exact .inr ⟨⟨r, hr⟩, r', r'', hr', hp ▸ haddr, hs, hr'', hcanceled⟩
  · rintro (⟨r, _, hr, haddr, hne, hr', hcanceled⟩ | ⟨⟨r, hr⟩, _, r'', hr', haddr, hne, hr'', hs⟩)
    · obtain ⟨r'', hr'', -, -, -, hbefore⟩ := h' _ _ hr'
      exact ⟨r, r'', hr, haddr, hne, hr'', hbefore.canceled hcanceled⟩
    · obtain ⟨_, hr₁, hp, -, -, hbefore⟩ := h _ _ hr
      cases hr'.symm.trans hr₁
      refine ⟨r, r'', hr, hp ▸ haddr, fun hc => hne (hbefore.canceled hc), hr'', hs⟩

section

variable {old r : MaintenanceReservation} {credit : ℕ}

section

variable {old : Option MaintenanceReservation} (hc : Change codec k k' a old r credit)
include hc

theorem Change.kept_all
    (hbefore : ∀ {r₀}, old = some r₀ → r₀.status.Before r.status) : Kept k k' := by
  intro id r₁ hr₁
  by_cases hid : id = r.reservationId
  · subst hid
    have hold := hc.found.symm.trans hr₁
    obtain ⟨hp, hs, hd⟩ := hc.kept hold
    exact ⟨r, hc.reservation_self, hp, hs, hd, hbefore hold⟩
  · exact ⟨r₁, (hc.reservation_of_ne hid).trans hr₁, rfl, rfl, rfl, .inl rfl⟩

theorem Change.canceled_iff {b : A} {id : ℕ} :
    Canceled codec k k' b id ↔ b = a ∧ id = r.reservationId ∧
      ∃ r₀, old = some r₀ ∧ r₀.status ≠ .canceled ∧ r.status = .canceled := by
  constructor
  · rintro ⟨r₀, _, hr₀, haddr, hne, hr₁, hcanceled⟩
    rcases hc.cases hr₁ with ⟨rfl, rfl⟩ | ⟨-, hr₁⟩
    · have hold := hc.found.symm.trans hr₀
      rw [← (hc.kept hold).1] at haddr
      exact ⟨some.inj (haddr.symm.trans hc.address), rfl, r₀, hold, hne, hcanceled⟩
    · cases hr₀.symm.trans hr₁
      exact absurd hcanceled hne
  · rintro ⟨rfl, rfl, r₀, hold, hne, hcanceled⟩
    refine ⟨r₀, r, hc.found.trans hold, ?_, hne, hc.reservation_self, hcanceled⟩
    rw [← (hc.kept hold).1]
    exact hc.address

theorem Change.added_iff {b : A} {id : ℕ} :
    Added codec k k' b id ↔ b = a ∧ id = r.reservationId ∧ old = none := by
  constructor
  · rintro ⟨hnone, _, hr₁, haddr⟩
    rcases hc.cases hr₁ with ⟨rfl, rfl⟩ | ⟨-, hr₁⟩
    · exact ⟨some.inj (haddr.symm.trans hc.address), rfl, hc.found.symm.trans hnone⟩
    · nomatch hnone.symm.trans hr₁
  · rintro ⟨rfl, rfl, hold⟩
    exact ⟨hc.found.trans hold, r, hc.reservation_self, hc.address⟩

theorem Change.credit_self : k'.credit codec a = credit :=
  hc.getOrCreate_credit

theorem Change.credit_other {b : A} (hb : b ≠ a) : k'.credit codec b = k.credit codec b := by
  unfold Keeper.credit
  rw [hc.getOrCreate_other hb]

end

end

/-- What the rows of a height do, for all participants. -/
structure Passed (codec : Bech32 A) (mp : MaintenanceParams) (k k' : Keeper A) : Prop where
  kept : Kept k k'
  fresh : ∀ {id}, k.reservation id = none → k'.reservation id = none
  params : k'.maintenanceParams = k.maintenanceParams
  credit : ∀ a, (k'.credit codec a = k.credit codec a ∧ ∀ id, ¬ Canceled codec k k' a id) ∨
    mp.maintenanceEnabled = false ∧ ∃ id r, k.reservation id = some r ∧ r.status = .scheduled ∧
      (∀ id', Canceled codec k k' a id' ↔ id' = id) ∧ k'.credit codec a = k.restored codec a r

theorem Passed.refl (mp : MaintenanceParams) (k : Keeper A) : Passed codec mp k k where
  kept := Kept.refl k
  fresh h := h
  params := rfl
  credit a := .inl ⟨rfl, not_canceled_self k a⟩

theorem Passed.trans {mp : MaintenanceParams} (hb : Book codec height k)
    (h : Passed codec mp k k') (h' : Passed codec mp k' k'') : Passed codec mp k k'' where
  kept := h.kept.trans h'.kept
  fresh hnone := h'.fresh (h.fresh hnone)
  params := h'.params.trans h.params
  credit a := by
    -- what is there in the middle was there before
    have hold : ∀ {id}, Canceled codec k' k'' a id → ∃ r, k.reservation id = some r := by
      rintro id ⟨_, _, hr', -⟩
      cases hr : k.reservation id with
      | some r => exact ⟨r, rfl⟩
      | none => nomatch (h.fresh hr).symm.trans hr'
    have hiff : ∀ id, Canceled codec k k'' a id ↔
        Canceled codec k k' a id ∨ Canceled codec k' k'' a id := fun id =>
      (h.kept.canceled_trans h'.kept).trans
        (or_congr_right ⟨And.right, fun hc => ⟨hold hc, hc⟩⟩)
    rcases h.credit a with ⟨hcredit, hnone⟩ | ⟨hdisabled, id, r, hr, hs, hone, hcredit⟩
    · rcases h'.credit a with ⟨hcredit', hnone'⟩ | ⟨hdisabled, id, _, hr', hs', hone, hcredit'⟩
      · refine .inl ⟨hcredit'.trans hcredit, fun id => ?_⟩
        rw [hiff, not_or]
        exact ⟨hnone id, hnone' id⟩
      · obtain ⟨r, hr⟩ := hold ((hone id).mpr rfl)
        obtain ⟨_, hr₁, _, -, hd, hbefore⟩ := h.kept _ _ hr
        cases hr'.symm.trans hr₁
        have hs : r.status = .scheduled := by
          rcases hbefore with hsame | hs | ⟨-, hcompleted⟩
          · exact hsame.trans hs'
          · exact hs
          · nomatch hs'.symm.trans hcompleted
        refine .inr ⟨hdisabled, id, r, hr, hs, fun id' => ?_, ?_⟩
        · rw [hiff, ← hone]
          exact or_iff_right (hnone id')
        rw [hcredit']
        unfold restored getMaintenanceParams
        rw [h.params, hd]
        show min (k'.credit codec a + _) _ = min (k.credit codec a + _) _
        rw [hcredit]
    · -- the one that was scheduled is canceled already
      have hnone' : ∀ id', ¬ Canceled codec k' k'' a id' := by
        intro id' hc'
        have hwhole := (h.kept.trans h'.kept).scheduled_of_canceled ((hiff id').mpr (.inr hc'))
        have hfirst := h.kept.scheduled_of_canceled ((hone id).mpr rfl)
        obtain rfl := hb.holds_unique (.inl rfl) hwhole hfirst
        obtain ⟨_, _, _, _, _, hr₂, hcanceled⟩ := (hone id').mpr rfl
        obtain ⟨_, _, hr₃, _, hne, _⟩ := hc'
        cases hr₂.symm.trans hr₃
        exact hne hcanceled
      have hsame : k''.credit codec a = k'.credit codec a := by
        rcases h'.credit a with ⟨hsame, -⟩ | ⟨-, id', -, -, -, hone', -⟩
        · exact hsame
        · exact absurd ((hone' id').mpr rfl) (hnone' id')
      refine .inr ⟨hdisabled, id, r, hr, hs, fun id' => ?_, hsame.trans hcredit⟩
      rw [hiff, ← hone]
      exact or_iff_left (hnone' id')

theorem Change.passed {mp : MaintenanceParams} {old r : MaintenanceReservation} {credit : ℕ}
    (hc : Change codec k k' a (some old) r credit) (ht : Turn codec k a mp old r credit) :
    Passed codec mp k k' where
  kept := by
    refine hc.kept_all fun h => ?_
    cases h
    cases ht with
    | activated _ hold => exact .inr (.inl hold)
    | completed hold => exact .inr (.inr ⟨hold, rfl⟩)
    | canceled hold => exact .inr (.inl hold)
  fresh := by
    intro id hnone
    rw [hc.reservation_of_ne, hnone]
    rintro rfl
    nomatch hc.found.symm.trans hnone
  params := hc.params
  credit b := by
    by_cases hba : b = a
    · subst hba
      cases ht with
      | activated | completed =>
        refine .inl ⟨hc.credit_self, fun id h => ?_⟩
        obtain ⟨-, -, _, -, -, hcanceled⟩ := hc.canceled_iff.mp h
        nomatch hcanceled
      | canceled hold hdisabled =>
        refine .inr ⟨hdisabled, _, old, hc.found, hold, fun id => ?_, hc.credit_self⟩
        rw [hc.canceled_iff]
        refine ⟨fun h => h.2.1, fun h => ⟨rfl, h, old, rfl, ?_, rfl⟩⟩
        rw [hold]
        exact nofun
    · exact .inl ⟨hc.credit_other hba, fun id h => hba (hc.canceled_iff.mp h).1⟩

theorem mem_maintenanceTransitionsAtHeight {h : ℤ} {id : ℕ} {t : MaintenanceTransitionType} :
    (id, t) ∈ k.maintenanceTransitionsAtHeight h ↔ k.row h id = some t := by
  unfold maintenanceTransitionsAtHeight row
  rw [OrdMap.get?_eq_some_iff, List.mem_map]
  constructor
  · rintro ⟨e, he, heq⟩
    obtain ⟨he, hheight⟩ := List.mem_filter.mp he
    cases heq
    rw [← of_decide_eq_true hheight]
    exact he
  · intro he
    exact ⟨_, List.mem_filter.mpr ⟨he, decide_eq_true rfl⟩, rfl⟩

theorem pairwise_maintenanceTransitionsAtHeight (k : Keeper A) (h : ℤ) :
    (k.maintenanceTransitionsAtHeight h).Pairwise fun t t' => t.1 < t'.1 := by
  unfold maintenanceTransitionsAtHeight
  rw [pairwise_map, pairwise_filter]
  refine k.maintenanceTransitions.sorted.imp fun {e e'} hlt he he' => ?_
  have he := of_decide_eq_true he
  have he' := of_decide_eq_true he'
  rcases Prod.Lex.lt_iff.mp hlt with hlt | ⟨-, hlt⟩
  · omega
  · exact hlt

theorem Turn.due_of_due {mp : MaintenanceParams} {old r : MaintenanceReservation} {credit : ℕ}
    (ht : Turn codec k a mp old r credit) (hpos : 0 < old.durationBlocks) {h : ℤ}
    {t : MaintenanceTransitionType} (hdue : r.due h = some t) : old.due h = some t := by
  cases ht with
  | activated _ hold =>
    have hne := old.start_ne_complete hpos
    change (if h = old.completeHeight then _ else _) = _ at hdue
    unfold due
    rw [hold]
    split at hdue
    · next hcomplete => rw [if_neg (by omega), if_pos hcomplete, hdue]
    · nomatch hdue
  | completed | canceled => nomatch hdue

/-- **The rows of a height, one after the other.**  The book remains in order, all rows that are left
are of later heights. -/
theorem passed_foldl (w : World A) (mp : MaintenanceParams)
    (rows : List (ℕ × MaintenanceTransitionType)) (hb : Book codec height k)
    (hfrom : ∀ h id t, k.row h id = some t → height ≤ h)
    (hsorted : rows.Pairwise fun t t' => t.1 < t'.1)
    (hrows : ∀ id t, (id, t) ∈ rows ↔ k.row height id = some t) :
    Book codec height (rows.foldl (processTransition codec w height mp) k) ∧
      (∀ h id t, (rows.foldl (processTransition codec w height mp) k).row h id = some t →
        height < h) ∧
      Passed codec mp k (rows.foldl (processTransition codec w height mp) k) := by
  induction rows generalizing k with
  | nil =>
    refine ⟨hb, fun h id t hrow => ?_, Passed.refl mp k⟩
    refine lt_of_le_of_ne (hfrom h id t hrow) ?_
    rintro rfl
    nomatch (hrows id t).mpr hrow
  | cons row rows ih =>
    obtain ⟨id, t⟩ := row
    rw [pairwise_cons] at hsorted
    have hrow := (hrows id t).mp mem_cons_self
    have hfirst : ∀ id' t', k.row height id' = some t' → id ≤ id' := by
      intro id' t' hrow'
      rcases mem_cons.mp ((hrows id' t').mpr hrow') with heq | hmem
      · exact (Prod.mk.inj heq).1.ge
      · exact (hsorted.1 _ hmem).le
    obtain ⟨_, _, _, _, hturn, hchange, hfits, _⟩ :=
      processTransition_change w mp hb hfrom hrow hfirst
    have hold := hb.recorded hchange.found
    -- the rows that are left were there before
    have hsub : ∀ h id' t', (processTransition codec w height mp k (id, t)).row h id' = some t' →
        k.row h id' = some t' := by
      intro h id' t' hrow'
      rw [hchange.rows] at hrow'
      split at hrow'
      · next hid' =>
        rw [hb.rows, hid', hchange.found, bind_some]
        exact hturn.due_of_due hold.duration_pos hrow'
      · exact hrow'
    have hgone : (processTransition codec w height mp k (id, t)).row height id = none := by
      unfold processTransition
      rw [row_delete, if_pos ⟨rfl, rfl⟩]
    have hrest : ∀ id' t', (id', t') ∈ rows ↔
        (processTransition codec w height mp k (id, t)).row height id' = some t' := by
      intro id' t'
      constructor
      · intro hmem
        have hlt : id < id' := hsorted.1 _ hmem
        rw [hchange.rows, if_neg (by omega)]
        exact (hrows id' t').mp (mem_cons_of_mem _ hmem)
      · intro hrow'
        rcases mem_cons.mp ((hrows id' t').mpr (hsub _ _ _ hrow')) with heq | hmem
        · cases heq
          nomatch hgone.symm.trans hrow'
        · exact hmem
    obtain ⟨hbook, habove, hpassed⟩ := ih (hb.change hchange hfits)
      (fun h id' t' hrow' => hfrom h id' t' (hsub h id' t' hrow')) hsorted.2 hrest
    exact ⟨hbook, habove, (hchange.passed hturn).trans hb hpassed⟩

theorem processMaintenanceTransitions_passed (w : World A) (hb : Book codec height k)
    (habove : ∀ h id t, k.row h id = some t → height < h) :
    Book codec (height + 1) (processMaintenanceTransitions codec w (height + 1) k) ∧
      (∀ h id t, (processMaintenanceTransitions codec w (height + 1) k).row h id = some t →
        height + 1 < h) ∧
      Passed codec k.getMaintenanceParams k
        (processMaintenanceTransitions codec w (height + 1) k) :=
  passed_foldl w k.getMaintenanceParams _ (hb.later (by omega))
    (fun h id t hrow => habove h id t hrow)
    (pairwise_maintenanceTransitionsAtHeight k _) fun _ _ => mem_maintenanceTransitionsAtHeight

/-- **What is said of every state.** -/
structure Lifecycle (codec : Bech32 A) (s : Chain A) : Prop where
  /-- A reservation is scheduled, or active, exactly when it is indexed as such, and exactly when the
  state of its participant points to it as such. -/
  held : ∀ status, status.Held → ∀ id r, s.keeper.reservation id = some r →
    (r.status = status ↔ (s.keeper.index status).get? id = some ()) ∧
    (r.status = status ↔ ∃ a, codec.accAddressFromBech32 r.participant = some a ∧
      (s.keeper.getOrCreateMaintenanceState codec a).pointer status = id)
  /-- Nothing else is indexed or pointed to. -/
  indexed : ∀ status id, (s.keeper.index status).get? id = some () →
    ∃ r, s.keeper.reservation id = some r
  pointed : ∀ status a, (s.keeper.getOrCreateMaintenanceState codec a).pointer status ≠ 0 →
    ∃ r, s.keeper.reservation ((s.keeper.getOrCreateMaintenanceState codec a).pointer status) =
      some r ∧ codec.accAddressFromBech32 r.participant = some a
  /-- The rows are those that the reservations have by their status, at later heights. -/
  rows : ∀ h id, s.keeper.row h id = (s.keeper.reservation id).bind fun r => r.due h
  above : ∀ h id t, s.keeper.row h id = some t → s.height < h
  window : ∀ id r, s.keeper.reservation id = some r → r.status ≠ .canceled →
    (r.status = .active ↔
      r.startHeight ≤ s.height ∧ s.height ≤ r.startHeight + r.durationBlocks - 1) ∧
    (r.status = .completed ↔ r.startHeight + r.durationBlocks ≤ s.height)
  credit : ∀ a, s.keeper.credit codec a ≤ s.keeper.getMaintenanceParams.maintenanceCreditCapBlocks

/-- What a step does to the credit of a participant: nothing; or one reservation was added and paid
for; or one was canceled before it was active and its price given back, up to the cap; or credit was
granted, up to the cap. -/
inductive CreditMove (codec : Bech32 A) (op : Op A) (k k' : Keeper A) (a : A) : Prop
  | kept (hadded : ∀ id, ¬ Added codec k k' a id) (hcanceled : ∀ id, ¬ Canceled codec k k' a id)
    (hcredit : k'.credit codec a = k.credit codec a)
  | spent (id : ℕ) (r : MaintenanceReservation) (hop : ∃ w msg, op = .schedule w msg)
    (hr : k'.reservation id = some r) (hadded : ∀ id', Added codec k k' a id' ↔ id' = id)
    (hcanceled : ∀ id', ¬ Canceled codec k k' a id')
    (hcredit : k'.credit codec a + r.durationBlocks = k.credit codec a)
  | givenBack (id : ℕ) (r : MaintenanceReservation)
    (hop : (∃ w msg, op = .cancel w msg) ∨
      (∃ w, op = .beginBlock w) ∧ k.getMaintenanceParams.maintenanceEnabled = false)
    (hr : k.reservation id = some r) (hscheduled : r.status = .scheduled)
    (hadded : ∀ id', ¬ Added codec k k' a id')
    (hcanceled : ∀ id', Canceled codec k k' a id' ↔ id' = id)
    (hcredit : k'.credit codec a = k.restored codec a r)
  | earned (hop : ∃ w participant epochIndex, op = .grant w participant epochIndex)
    (hadded : ∀ id, ¬ Added codec k k' a id) (hcanceled : ∀ id, ¬ Canceled codec k k' a id)
    (hcredit : k'.credit codec a = k.earned codec a)

/-- **What is said of every step.** -/
structure Moves (codec : Bech32 A) (op : Op A) (k k' : Keeper A) : Prop where
  kept : Kept k k'
  credit : ∀ a, CreditMove codec op k k' a

/-- A reservation is accepted only for a height that has not begun, and a cap is set only if nobody
has more. -/
def InTime (codec : Bech32 A) (s : Chain A) : Op A → Prop
  | .schedule w msg => ∀ k' id, scheduleMaintenance codec w s.height s.keeper msg = .ok (k', id) →
    s.height < msg.startHeight
  | .setParams mp => (mp.all fun mp => mp.validate.isNone) = true → ∀ a, s.keeper.credit codec a ≤
    (mp.getD defaultMaintenanceParams).maintenanceCreditCapBlocks
  | _ => True

def Chain.start (height : ℤ) (mp : Option MaintenanceParams) : Chain A where
  height := height
  keeper :=
    { maintenanceParams := mp
      maintenanceReservations := ∅
      maintenanceReservationCounter := 0
      maintenanceStates := ∅
      maintenanceTransitions := ∅
      maintenanceScheduledIndex := ∅
      maintenanceActiveIndex := ∅ }

structure Good (codec : Bech32 A) (s : Chain A) : Prop where
  book : Book codec s.height s.keeper
  above : ∀ h id t, s.keeper.row h id = some t → s.height < h
  credit : ∀ a, s.keeper.credit codec a ≤ s.keeper.getMaintenanceParams.maintenanceCreditCapBlocks

section

variable {s : Chain A}

theorem Good.window (hg : Good codec s) {id : ℕ} {r : MaintenanceReservation}
    (hr : s.keeper.reservation id = some r) (hne : r.status ≠ .canceled) :
    (r.status = .active ↔
      r.startHeight ≤ s.height ∧ s.height ≤ r.startHeight + r.durationBlocks - 1) ∧
    (r.status = .completed ↔ r.startHeight + r.durationBlocks ≤ s.height) := by
  have hpos := (hg.book.recorded hr).duration_pos
  have habove : ∀ {h t}, r.due h = some t → s.height < h := by
    intro h t hdue
    refine hg.above h id t ?_
    rw [hg.book.rows, hr, bind_some, hdue]
  cases hs : r.status with
  | scheduled =>
    have := habove (due_eq_activate_iff.mpr ⟨hs, rfl⟩)
    exact ⟨iff_of_false (nofun) (by omega), iff_of_false (nofun) (by omega)⟩
  | active =>
    have hstarted := hg.book.started hr hs
    have := habove ((due_eq_complete_iff hpos).mpr ⟨.inr hs, rfl⟩)
    unfold completeHeight at this
    exact ⟨iff_of_true rfl (by omega), iff_of_false (nofun) (by omega)⟩
  | completed =>
    have hended := hg.book.ended hr hs
    unfold completeHeight at hended
    exact ⟨iff_of_false (nofun) (by omega), iff_of_true rfl hended⟩
  | canceled => exact absurd hs hne

theorem Good.toLifecycle (hg : Good codec s) : Lifecycle codec s where
  held := by
    intro status hstatus id r hr
    have hb := hg.book
    have hid := (hb.recorded hr).pos.ne'
    constructor
    · rw [hb.index hstatus]
      refine ⟨fun h => ⟨r, hr, h⟩, ?_⟩
      rintro ⟨_, hr', h⟩
      cases hr.symm.trans hr'
      exact h
    · constructor
      · intro h
        obtain ⟨a, haddr⟩ := (hb.recorded hr).address
        exact ⟨a, haddr, (hb.pointer hstatus a hid).mpr ⟨r, hr, haddr, h⟩⟩
      · rintro ⟨a, -, hpointer⟩
        obtain ⟨_, hr', -, h⟩ := (hb.pointer hstatus a hid).mp hpointer
        cases hr.symm.trans hr'
        exact h
  indexed := by
    intro status id h
    have hheld : status.Held := by
      cases status with
      | scheduled => exact .inl rfl
      | active => exact .inr rfl
      | completed | canceled => nomatch h
    obtain ⟨r, hr, -⟩ := (hg.book.index hheld id).mp h
    exact ⟨r, hr⟩
  pointed := by
    intro status a hne
    have hheld : status.Held := by
      cases status with
      | scheduled => exact .inl rfl
      | active => exact .inr rfl
      | completed | canceled => exact absurd rfl hne
    obtain ⟨r, hr, haddr, -⟩ := (hg.book.pointer hheld a hne).mp rfl
    exact ⟨r, hr, haddr⟩
  rows := hg.book.rows
  above := hg.above
  window _ _ hr hne := hg.window hr hne
  credit := hg.credit

theorem validate_of_all {mp : Option MaintenanceParams}
    (h : (mp.all fun mp => mp.validate.isNone) = true) :
    (mp.getD defaultMaintenanceParams).validate = none := by
  cases mp with
  | none => decide
  | some => exact isNone_iff_eq_none.mp h

theorem Good.start {mp : Option MaintenanceParams}
    (hmp : (mp.all fun mp => mp.validate.isNone) = true) (height : ℤ) :
    Good codec (Chain.start height mp) where
  book :=
    { recorded := nofun
      state := nofun
      valid := validate_of_all hmp
      credit := fun _ => Nat.zero_le _
      index := by
        rintro status (rfl | rfl) id <;> exact iff_of_false nofun fun ⟨_, h, _⟩ => nomatch h
      pointer := by
        rintro status (rfl | rfl) a id hid <;>
          exact iff_of_false (Ne.symm hid) fun ⟨_, h, _⟩ => nomatch h
      rows := fun _ _ => rfl
      started := nofun
      ended := nofun
      order := nofun }
  above _ _ _ h := nomatch h
  credit _ := Nat.zero_le _

end

theorem not_added_self (k : Keeper A) (a : A) (id : ℕ) : ¬ Added codec k k a id := by
  rintro ⟨hnone, r, hr, -⟩
  nomatch hnone.symm.trans hr

theorem Moves.refl (op : Op A) (k : Keeper A) : Moves codec op k k where
  kept := Kept.refl k
  credit a := .kept (not_added_self k a) (not_canceled_self k a) rfl

section

variable {s : Chain A} {w : World A}

theorem Good.beginBlock (hg : Good codec s) (w : World A) :
    Good codec (step codec (.beginBlock w) s) ∧
      Moves codec (.beginBlock w) s.keeper (step codec (.beginBlock w) s).keeper := by
  obtain ⟨hbook, habove, hpassed⟩ := processMaintenanceTransitions_passed w hg.book hg.above
  have hparams := congrArg (·.getD defaultMaintenanceParams) hpassed.params
  have hadded : ∀ a id, ¬ Added codec s.keeper (step codec (.beginBlock w) s).keeper a id := by
    rintro _ _ ⟨hnone, _, hr, -⟩
    nomatch (hpassed.fresh hnone).symm.trans hr
  refine ⟨⟨hbook, habove, fun a => ?_⟩, ⟨hpassed.kept, fun a => ?_⟩⟩
  · show _ ≤ (_ : MaintenanceParams).maintenanceCreditCapBlocks
    unfold getMaintenanceParams
    rw [show (step codec (.beginBlock w) s).keeper.maintenanceParams.getD _ = _ from hparams]
    rcases hpassed.credit a with ⟨hcredit, -⟩ | ⟨-, _, _, -, -, -, hcredit⟩
    · exact hcredit.trans_le (hg.credit a)
    · exact hcredit.trans_le (min_le_right _ _)
  · rcases hpassed.credit a with ⟨hcredit, hnone⟩ | ⟨hdisabled, id, r, hr, hs, hone, hcredit⟩
    · exact .kept (hadded a) hnone hcredit
    · exact .givenBack id r (.inr ⟨⟨w, rfl⟩, hdisabled⟩) hr hs (hadded a) hone hcredit

theorem Good.create (hg : Good codec s) {msg : MsgScheduleMaintenance} {id : ℕ}
    (h : scheduleMaintenance codec w s.height s.keeper msg = .ok (k', id))
    (hlater : s.height < msg.startHeight) :
    Good codec { s with keeper := k' } ∧ Moves codec (.schedule w msg) s.keeper k' := by
  have hb := hg.book
  obtain ⟨a, hm, hcreate⟩ := scheduleMaintenance_ok h
  obtain ⟨hchange, hid, hcounter⟩ := createReservation_change hb hm hcreate
  have hcap : k'.getMaintenanceParams = s.keeper.getMaintenanceParams := by
    unfold getMaintenanceParams
    rw [hchange.params]
  have hfits : Fits codec s.height s.keeper k' a none (msg.reservation id)
      ((s.keeper.getOrCreateMaintenanceState codec a).creditBlocks - msg.durationBlocks) :=
    { recorded := ⟨rfl, hid ▸ Nat.succ_pos _, hcounter.ge, hm.duration_pos,
        hm.duration_le.trans hb.params_valid.window, hm.fits, a, hm.address⟩
      credit := (Nat.sub_le _ _).trans (hb.credit a)
      vacant := fun _ => hm.unscheduled
      started := nofun
      ended := nofun
      order := fun _ {id₁ r₁} hr₁ haddr hactive => by
        refine ⟨?_, hm.order hb hlater hr₁ haddr hactive⟩
        have := (hb.recorded hr₁).le_counter
        show id₁ < id
        omega }
  refine ⟨⟨hb.change hchange hfits, fun h id' t hrow => ?_, fun b => ?_⟩, ⟨?_, fun b => ?_⟩⟩
  · -- the two rows of the new reservation, and those before
    show s.height < h
    rw [hchange.rows] at hrow
    split at hrow
    · have hpos := hm.duration_pos
      change (if h = msg.startHeight then _
        else if h = msg.startHeight + msg.durationBlocks then _ else _) = _ at hrow
      split_ifs at hrow <;> omega
    · exact hg.above h id' t hrow
  · show k'.credit codec b ≤ k'.getMaintenanceParams.maintenanceCreditCapBlocks
    rw [hcap]
    by_cases hba : b = a
    · rw [hba, hchange.credit_self]
      exact (Nat.sub_le _ _).trans (hg.credit a)
    · rw [hchange.credit_other hba]
      exact hg.credit b
  · exact hchange.kept_all nofun
  · have hcanceled : ∀ id', ¬ Canceled codec s.keeper k' b id' := by
      intro id' hc
      obtain ⟨-, -, _, hnone, -⟩ := hchange.canceled_iff.mp hc
      nomatch hnone
    by_cases hba : b = a
    · subst hba
      refine .spent id (msg.reservation id) ⟨w, msg, rfl⟩ hchange.reservation_self
        (fun id' => ?_) hcanceled ?_
      · rw [hchange.added_iff]
        exact ⟨fun h => h.2.1, fun h => ⟨rfl, h, rfl⟩⟩
      · rw [hchange.credit_self]
        exact Nat.sub_add_cancel hm.credit
    · exact .kept (fun id' h => hba (hchange.added_iff.mp h).1) hcanceled (hchange.credit_other hba)

theorem Good.cancel (hg : Good codec s) {msg : MsgCancelMaintenance}
    (h : cancelMaintenance codec w s.keeper msg = .ok k') :
    Good codec { s with keeper := k' } ∧ Moves codec (.cancel w msg) s.keeper k' := by
  have hb := hg.book
  obtain ⟨a, r, hscheduled, _, -, hchange⟩ := cancelMaintenance_change hb h
  have hcap : k'.getMaintenanceParams = s.keeper.getMaintenanceParams := by
    unfold getMaintenanceParams
    rw [hchange.params]
  have hrec : Recorded codec s.keeper r.reservationId r := hb.recorded hchange.found
  have hfits : Fits codec s.height s.keeper k' a (some r) { r with status := .canceled }
      (s.keeper.restored codec a r) :=
    { recorded := hchange.recorded hrec rfl
      credit := hb.restored_le
      vacant := fun h => by rcases h with h | h <;> nomatch h
      started := nofun
      ended := nofun
      order := nofun }
  refine ⟨⟨hb.change hchange hfits, fun h id' t hrow => ?_, fun b => ?_⟩, ⟨?_, fun b => ?_⟩⟩
  · have hrow : k'.row h id' = some t := hrow
    rw [hchange.rows] at hrow
    split at hrow
    · nomatch hrow
    · exact hg.above h id' t hrow
  · show k'.credit codec b ≤ k'.getMaintenanceParams.maintenanceCreditCapBlocks
    rw [hcap]
    by_cases hba : b = a
    · rw [hba, hchange.credit_self]
      exact min_le_right _ _
    · rw [hchange.credit_other hba]
      exact hg.credit b
  · refine hchange.kept_all fun h => ?_
    cases h
    exact .inr (.inl hscheduled)
  · have hadded : ∀ id', ¬ Added codec s.keeper k' b id' := by
      intro id' h
      nomatch (hchange.added_iff.mp h).2.2
    by_cases hba : b = a
    · subst hba
      refine .givenBack _ r (.inl ⟨w, msg, rfl⟩) hchange.found hscheduled hadded (fun id' => ?_)
        hchange.credit_self
      rw [hchange.canceled_iff]
      refine ⟨fun h => h.2.1, fun h => ⟨rfl, h, r, rfl, ?_, rfl⟩⟩
      rw [hscheduled]
      exact nofun
    · exact .kept hadded (fun id' h => hba (hchange.canceled_iff.mp h).1) (hchange.credit_other hba)

variable (codec) in
theorem Keeper.credit_granted (k : Keeper A) (a b : A) :
    (k.granted codec a).credit codec b = if b = a then k.earned codec a else k.credit codec b := by
  unfold credit getOrCreateMaintenanceState granted
  rw [OrdMap.get?_insert]
  split <;> rfl

theorem Good.grant (hg : Good codec s) {participant : String} {epochIndex : ℕ}
    (h : grantMaintenanceCredit codec w s.keeper participant epochIndex = .ok k') :
    Good codec { s with keeper := k' } ∧
      Moves codec (.grant w participant epochIndex) s.keeper k' := by
  rcases grantMaintenanceCredit_ok hg.book h with rfl | ⟨a, -, rfl⟩
  · exact ⟨hg, Moves.refl _ _⟩
  refine ⟨⟨hg.book.grant a, hg.above, fun b => ?_⟩, ⟨Kept.refl s.keeper, fun b => ?_⟩⟩
  · show (s.keeper.granted codec a).credit codec b ≤ _
    rw [credit_granted]
    split
    · exact min_le_right _ _
    · exact hg.credit b
  · have hcredit := credit_granted codec s.keeper a b
    split at hcredit
    · next hba =>
      rw [← hba] at hcredit ⊢
      exact .earned ⟨w, participant, epochIndex, rfl⟩ (not_added_self s.keeper b)
        (not_canceled_self s.keeper b) hcredit
    · exact .kept (not_added_self s.keeper b) (not_canceled_self s.keeper b) hcredit

theorem Good.step (hg : Good codec s) {op : Op A} (hop : InTime codec s op) :
    Good codec (step codec op s) ∧ Moves codec op s.keeper (step codec op s).keeper := by
  cases op with
  | beginBlock w => exact hg.beginBlock w
  | schedule w msg =>
    simp only [Maintenance.step]
    cases h : scheduleMaintenance codec w s.height s.keeper msg with
    | error => exact ⟨hg, Moves.refl _ _⟩
    | ok result =>
      obtain ⟨k', id⟩ := result
      exact hg.create h (hop k' id h)
  | cancel w msg =>
    simp only [Maintenance.step]
    cases h : cancelMaintenance codec w s.keeper msg with
    | error => exact ⟨hg, Moves.refl _ _⟩
    | ok => exact hg.cancel h
  | grant w participant epochIndex =>
    simp only [Maintenance.step]
    cases h : grantMaintenanceCredit codec w s.keeper participant epochIndex with
    | error => exact ⟨hg, Moves.refl _ _⟩
    | ok => exact hg.grant h
  | setParams =>
    simp only [Maintenance.step]
    split
    · next hmp =>
      refine ⟨⟨hg.book.setParams (validate_of_all hmp), hg.above, hop hmp⟩, Kept.refl s.keeper, ?_⟩
      exact fun a => .kept (not_added_self s.keeper a) (not_canceled_self s.keeper a) rfl
    · exact ⟨hg, Moves.refl _ _⟩

theorem Lifecycle.inTime (hg : Good codec s) {op : Op A}
    (hnext : Lifecycle codec (step codec op s)) : InTime codec s op := by
  cases op with
  | schedule w msg =>
    intro k' id h
    obtain ⟨a, hm, hcreate⟩ := scheduleMaintenance_ok h
    obtain ⟨hchange, -⟩ := createReservation_change hg.book hm hcreate
    have hstep : step codec (.schedule w msg) s = { s with keeper := k' } := by
      simp only [step, h]
      rfl
    rw [hstep] at hnext
    -- the row of the activation
    refine hnext.above msg.startHeight id .activate ?_
    show k'.row _ _ = _
    have hself : id = (msg.reservation id).reservationId := rfl
    rw [hchange.rows, if_pos hself]
    exact if_pos rfl
  | setParams mp =>
    intro hmp a
    have hstep : step codec (.setParams mp) s =
        { s with keeper := { s.keeper with maintenanceParams := mp } } := by
      simp only [step, hmp, if_true]
    rw [hstep] at hnext
    exact hnext.credit a
  | beginBlock | cancel | grant => trivial

end

/-- **Reservations go through their windows exactly when none is accepted for a height that has begun
and no cap is set below the credit somebody has.**  In every state all that is written about a
reservation agrees with its window; in every step credit is spent once for each reservation that is
added, and given back once at most, when it is canceled before it was active. -/
theorem lifecycle_iff (codec : Bech32 A) (height : ℤ) (mp : Option MaintenanceParams)
    (hmp : (mp.all fun mp => mp.validate.isNone) = true) (ops : List (Op A)) :
    Along.Throughout (step codec) (Lifecycle codec) ops (Chain.start height mp) ∧
        Along.EachStep (step codec)
          (fun s op => Moves codec op s.keeper (step codec op s).keeper) ops
          (Chain.start height mp) ↔
      Along.EachStep (step codec) (InTime codec) ops (Chain.start height mp) := by
  have hstart : Good codec (Chain.start height mp) := Good.start hmp height
  have hiff : Along.Throughout (step codec) (Lifecycle codec) ops (Chain.start height mp) ↔
      Along.EachStep (step codec) (InTime codec) ops (Chain.start height mp) :=
    Along.throughout_iff_eachStep (I := Good codec)
      (fun s op hg hnext => (hg.step (Lifecycle.inTime hg hnext)).1)
      (fun s op hg _ => ⟨Lifecycle.inTime hg, fun hop => (hg.step hop).1.toLifecycle⟩)
      hstart hstart.toLifecycle
  refine ⟨fun h => hiff.mp h.1, fun h => ⟨hiff.mpr h, ?_⟩⟩
  exact Along.EachStep.of_invariant (I := Good codec) (fun s op hg hop => (hg.step hop).1)
    (fun s op hg hop => (hg.step hop).2) hstart h

/-- No epochs and no validators. -/
def sampleWorld : World Bool where
  hasAccount _ := true
  hasParticipant _ := true
  epochParams := none
  effectiveEpochIndex := none
  getEpoch _ := none
  getParticipantPower _ := 0
  getTotalConsensusPower := 0

def sampleParams (lead cap : ℕ) : MaintenanceParams where
  maintenanceEnabled := true
  maintenanceMinScheduleLeadBlocks := lead
  maintenanceMaxWindowBlocks := 10
  maintenanceMaxConcurrentValidators := 3
  maintenanceMaxConcurrentPowerBps := 1000
  maintenanceCreditCapBlocks := cap
  maintenanceCreditEarnPerSuccessfulEpochBlocks := 5

/-- Participant `a` earns credit and schedules a window of two blocks. -/
def sampleOps (startHeight : ℤ) : List (Op Bool) :=
  [.grant sampleWorld "a" 0, .schedule sampleWorld ⟨"a", "a", startHeight, 2⟩,
    .beginBlock sampleWorld, .beginBlock sampleWorld, .beginBlock sampleWorld]

theorem lifecycle_iff_sample :
    (Along.Throughout (step sampleCodec) (Lifecycle sampleCodec) (sampleOps 8)
        (Chain.start 7 (some (sampleParams 1 20))) ∧
      Along.EachStep (step sampleCodec)
        (fun s op => Moves sampleCodec op s.keeper (step sampleCodec op s).keeper) (sampleOps 8)
        (Chain.start 7 (some (sampleParams 1 20)))) ∧
    ((Along.run (step sampleCodec) (sampleOps 8)
      (Chain.start 7 (some (sampleParams 1 20)))).keeper.reservation 1).map
        MaintenanceReservation.status = some .completed := by
  refine ⟨(lifecycle_iff sampleCodec 7 (some (sampleParams 1 20)) (by decide) _).mpr ?_, by decide⟩
  exact ⟨trivial, fun _ _ _ => by decide, trivial, trivial, trivial, trivial⟩

theorem run_beginBlock_of_past {s : Chain A}
    (h : ∀ e ∈ s.keeper.maintenanceTransitions.entries, (ofLex e.1).1 ≤ s.height) (w : World A)
    (n : ℕ) :
    (Along.run (step codec) (List.replicate n (.beginBlock w)) s).keeper = s.keeper := by
  induction n generalizing s with
  | zero => rfl
  | succ n ih =>
    have hnone : s.keeper.maintenanceTransitionsAtHeight (s.height + 1) = [] := by
      unfold maintenanceTransitionsAtHeight
      rw [map_eq_nil_iff, filter_eq_nil_iff]
      intro e he
      have := h e he
      rw [decide_eq_true_eq]
      omega
    have hstep : step codec (.beginBlock w) s = { s with height := s.height + 1 } := by
      simp only [step, processMaintenanceTransitions, hnone, foldl_nil]
    show (Along.run _ _ (step codec (.beginBlock w) s)).keeper = _
    rw [hstep]
    refine ih fun e he => ?_
    have := h e he
    show (ofLex e.1).1 ≤ s.height + 1
    omega

/-- **Without a lead time**, a reservation for the block that has begun is accepted; it is never
activated and remains scheduled, whatever number of blocks follow.  And a cap that is lowered leaves
more credit than it allows. -/
theorem stranded_reservation :
    (sampleParams 0 20).validate = none ∧ (sampleParams 1 5).validate = none ∧
      ¬ Along.Throughout (step sampleCodec) (Lifecycle sampleCodec) (sampleOps 7)
        (Chain.start 7 (some (sampleParams 0 20))) ∧
      (∀ n, ((Along.run (step sampleCodec)
        (sampleOps 7 ++ List.replicate n (.beginBlock sampleWorld))
        (Chain.start 7 (some (sampleParams 0 20)))).keeper.reservation 1).map
          MaintenanceReservation.status = some .scheduled) ∧
      ¬ Along.Throughout (step sampleCodec) (Lifecycle sampleCodec)
        [.grant sampleWorld "a" 0, .grant sampleWorld "a" 0,
          .setParams (some (sampleParams 1 5))] (Chain.start 7 (some (sampleParams 1 20))) := by
  refine ⟨by decide, by decide, ?_, fun n => ?_, ?_⟩
  · rintro ⟨-, -, hscheduled, -⟩
    have hrow := hscheduled.above 7 1 .activate (by decide)
    exact absurd hrow (by decide)
  · rw [Along.run_append, run_beginBlock_of_past (by decide)]
    decide
  · rintro ⟨-, -, -, hlowered⟩
    have hcredit := hlowered.credit false
    exact absurd hcredit (by decide)

end Maintenance
