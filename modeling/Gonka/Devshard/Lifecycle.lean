/-
The life cycle of inferences, on the transition system.

`Consistent` ties the four places where the machine keeps an inference: the live
map, the committed entries, the seal nonces and the sealed accumulator.
`Continues` says how a later state of a session relates to an earlier one: sealed
inferences stay as they are, and live ones move along the arrows of `StatusEdge`.

Main results: `Consistent.step`, `Step.continues`.
-/
import Gonka.Devshard.Session

namespace Devshard

open OrdMap List

inductive StatusEdge : InferenceStatus → InferenceStatus → Prop
  | confirm : StatusEdge .pending .started
  | finish : StatusEdge .started .finished
  | challenge : StatusEdge .finished .challenged
  | validate : StatusEdge .challenged .validated
  | invalidate : StatusEdge .challenged .invalidated
  | refuse : StatusEdge .pending .timedOut
  | expire : StatusEdge .started .timedOut

abbrev StatusPath : InferenceStatus → InferenceStatus → Prop := Relation.ReflTransGen StatusEdge

variable {r r' : InferenceRecord} {entry : Bytes}

theorem Move.statusPath {sm : StateMachine} {amount : UInt64} {f : HostStats → HostStats}
    (h : Move sm r r' amount f) : StatusPath r.status r'.status := by
  cases h with
  | confirm _ hstatus =>
    rw [hstatus]
    exact .single .confirm
  | finish _ _ _ _ hstatus =>
    rw [hstatus]
    exact .single .finish
  | validate =>
    rw [recordValidation_status]
    split
    · next h =>
      rw [h.1]
      exact .single .challenge
    · exact .refl
  | vote =>
    rw [recordVote_status]
  | validated _ _ _ _ hstatus =>
    rw [hstatus]
    exact .single .validate
  | invalidated _ _ _ _ hstatus =>
    rw [hstatus]
    exact .single .invalidate
  | timeout hstatus =>
    rcases hstatus with h | h
    · rw [h]
      exact .single .refuse
    · rw [h]
      exact .single .expire

theorem Leave.statusPath {phase : SessionPhase} {amount : UInt64} {f : HostStats → HostStats}
    (h : Leave phase r r' amount f) :
    StatusPath r.status r'.status := by
  cases h with
  | autoSealed => exact .refl
  | paid _ hstatus =>
    rw [hstatus]
    exact .single .finish
  | refunded _ hstatus =>
    rw [hstatus]
    exact .single .refuse
  | drained => exact .refl

/-- The order of seals: by nonce, and by id within a nonce. -/
def SealedRecord.Before (a b : SealedRecord) : Prop :=
  a.nonce < b.nonce ∨ a.nonce = b.nonce ∧ a.id < b.id

def sealedAccumulator (sealed : List SealedRecord) : Bytes :=
  sealed.foldl (fun acc e => foldSealedAccumulator (sealedAccBytes32 acc) e.nonce e.id
    ((marshalInferenceEntry e.id e.record).getD [])) []

/-- The record of an inference, wherever it is. -/
def Session.Holds (s : Session) (id : ℕ) (r : InferenceRecord) : Prop :=
  s.sm.inferences.get? id = some r ∨ ∃ e ∈ s.sealed, e.id = id ∧ e.record = r

/-- Live map, committed entries, seal nonces and accumulator agree. -/
structure Consistent (s : Session) : Prop where
  entries : ∀ id r, s.sm.inferences.get? id = some r →
    (marshalInferenceEntry id r).isSome ∧
      s.sm.committedEntries.get? id = marshalInferenceEntry id r
  noEntry : ∀ id, s.sm.inferences.get? id = none → s.sm.committedEntries.get? id = none
  evicted : ∀ e ∈ s.sealed, s.sm.inferences.get? e.id = none
  sealedNonces : ∀ id n, s.sm.sealedNonces.get? id = some n ↔
    ∃ e ∈ s.sealed, e.id = id ∧ e.nonce = n
  once : (s.sealed.map SealedRecord.id).Nodup
  order : s.sealed.Pairwise SealedRecord.Before
  nonces : ∀ e ∈ s.sealed, e.nonce ≤ s.sm.latestNonce
  written : ∀ e ∈ s.sealed, (marshalInferenceEntry e.id e.record).isSome
  accumulator : s.sm.sealedAcc = sealedAccumulator s.sealed
  ids : ∀ id r, s.Holds id r → 1 ≤ id ∧ id ≤ s.sm.latestNonce + 1
  executors : ∀ id r, s.Holds id r → r.executorSlot = executorSlotFor s.sm.group id

variable {s s' : Session}

theorem Consistent.writable (h : Consistent s) {id : ℕ}
    (hlive : s.sm.inferences.get? id = some r) : Wire.utf8Valid r.model := by
  have := (h.entries id r hlive).1
  rwa [marshalInferenceEntry_isSome] at this

theorem Consistent.live_xor_sealed (h : Consistent s) {id : ℕ} (hr : s.Holds id r) :
    Xor (s.sm.inferences.get? id).isSome (s.sm.sealedNonces.get? id).isSome := by
  rcases hr with hlive | ⟨e, he, hid, -⟩
  · refine .inl ⟨by rw [hlive]; rfl, fun hsealed => ?_⟩
    obtain ⟨n, hn⟩ := Option.isSome_iff_exists.mp hsealed
    obtain ⟨e, he, hid, -⟩ := (h.sealedNonces id n).mp hn
    rw [← hid, h.evicted e he] at hlive
    cases hlive
  · refine .inr ⟨?_, fun hlive => ?_⟩
    · rw [(h.sealedNonces id e.nonce).mpr ⟨e, he, hid, rfl⟩]
      rfl
    · rw [← hid, h.evicted e he] at hlive
      cases hlive

/-- After a new record for `id` the live map and the entries still agree. -/
theorem Consistent.entries_insert (h : Consistent s) {id : ℕ}
    (hentry : marshalInferenceEntry id r' = some entry) (id' : ℕ) (r : InferenceRecord)
    (hr : (s.sm.inferences.insert id r').get? id' = some r) :
    (marshalInferenceEntry id' r).isSome ∧
      (s.sm.committedEntries.insert id entry).get? id' = marshalInferenceEntry id' r := by
  rw [get?_insert] at hr ⊢
  split at hr
  · next heq =>
    cases hr
    rw [if_pos heq, heq, hentry]
    exact ⟨rfl, rfl⟩
  · next hne =>
    rw [if_neg hne]
    exact h.entries id' r hr

theorem Consistent.noEntry_insert (h : Consistent s) {id : ℕ} (id' : ℕ)
    (hnone : (s.sm.inferences.insert id r').get? id' = none) :
    (s.sm.committedEntries.insert id entry).get? id' = none := by
  rw [get?_insert] at hnone ⊢
  split at hnone
  · cases hnone
  · next hne =>
    rw [if_neg hne]
    exact h.noEntry id' hnone

theorem Session.holds_insert {id : ℕ} {id' : ℕ} (h : s'.Holds id' r)
    (hlive : s'.sm.inferences = s.sm.inferences.insert id r')
    (hsealed : s'.sealed = s.sealed) : id' = id ∧ r = r' ∨ s.Holds id' r := by
  rcases h with h | h
  · rw [hlive, get?_insert] at h
    split at h
    · next heq =>
      cases h
      exact .inl ⟨heq, rfl⟩
    · exact .inr (.inl h)
  · rw [hsealed] at h
    exact .inr (.inr h)

inductive Session.Origin (s : Session) (id : ℕ) (r : InferenceRecord) : Prop
  | held (h : s.Holds id r)
  | new (hphase : s.sm.phase = .active) (hid : id = s.sm.latestNonce + 1)
      (hnew : IsNewRecord s.sm id r)
  | move {r₀ amount f} (h₀ : s.Holds id r₀) (hmove : Move s.sm r₀ r amount f)
  | leave {r₀ amount f} (h₀ : s.Holds id r₀) (hleave : Leave s.sm.phase r₀ r amount f)

theorem Step.origin (hstep : Step s s') {id : ℕ} (hr : s'.Holds id r) : s.Origin id r := by
  cases hstep with
  | bind => exact .held hr
  | start hphase hid _ _ _ hnew =>
    rcases Session.holds_insert (s := s) hr rfl rfl with ⟨rfl, rfl⟩ | hold
    · exact .new hphase hid hnew
    · exact .held hold
  | move hlive hmove =>
    rcases Session.holds_insert (s := s) hr rfl rfl with ⟨rfl, rfl⟩ | hold
    · exact .move (.inl hlive) hmove
    · exact .held hold
  | finalizeRound | fee | nonce | settlement => exact .held hr
  | @leave id' r₀ r' amount f entry hlive hleave horder hentry =>
    rcases hr with hr | ⟨e, he, hid, hrec⟩
    · replace hr : (s.sm.inferences.erase id').get? id = some r := hr
      rw [get?_erase] at hr
      split at hr
      · cases hr
      · exact .held (.inl hr)
    · rcases mem_append.mp he with he | he
      · exact .held (.inr ⟨e, he, hid, hrec⟩)
      · obtain rfl := mem_singleton.mp he
        obtain rfl : id' = id := hid
        obtain rfl : r' = r := hrec
        exact .leave (.inl hlive) hleave

theorem sealedAccumulator_concat (sealed : List SealedRecord) (e : SealedRecord) :
    sealedAccumulator (sealed ++ [e])
      = foldSealedAccumulator (sealedAccBytes32 (sealedAccumulator sealed)) e.nonce e.id
        ((marshalInferenceEntry e.id e.record).getD []) := by
  simp [sealedAccumulator]

theorem Consistent.seal (h : Consistent s) {id : ℕ} (hlive : s.sm.inferences.get? id = some r)
    (horder : ∀ e ∈ s.sealed, e.nonce = s.sm.latestNonce → e.id < id)
    (hentry : marshalInferenceEntry id r' = some entry)
    (hids : ∀ id' r₀, (s.seal id r' entry).Holds id' r₀ → 1 ≤ id' ∧ id' ≤ s.sm.latestNonce + 1)
    (hexecutors : ∀ id' r₀, (s.seal id r' entry).Holds id' r₀ →
      r₀.executorSlot = executorSlotFor s.sm.group id') : Consistent (s.seal id r' entry) where
  entries id' r₀ hr₀ := by
    simp only [Session.seal, get?_erase] at hr₀ ⊢
    split at hr₀
    · cases hr₀
    · next hne =>
      rw [if_neg hne]
      exact h.entries id' r₀ hr₀
  noEntry id' hnone := by
    simp only [Session.seal, get?_erase] at hnone ⊢
    split at hnone
    · next heq => rw [if_pos heq]
    · next hne =>
      rw [if_neg hne]
      exact h.noEntry id' hnone
  evicted e he := by
    simp only [Session.seal, get?_erase]
    split
    · rfl
    next hne =>
    rcases mem_append.mp he with he | he
    · exact h.evicted e he
    · rw [mem_singleton.mp he] at hne
      exact absurd rfl hne
  sealedNonces id' n := by
    have hnot : ∀ e ∈ s.sealed, e.id ≠ id := by
      rintro e he rfl
      rw [h.evicted e he] at hlive
      cases hlive
    simp only [Session.seal, get?_insert, mem_append, mem_singleton]
    split
    · next heq =>
      constructor
      · intro hn
        exact ⟨_, .inr rfl, heq.symm, Option.some_inj.mp hn⟩
      · rintro ⟨e, he | he, hid, hn⟩
        · exact absurd (hid.trans heq) (hnot e he)
        · rw [← hn, he]
    · next hne =>
      rw [h.sealedNonces]
      constructor
      · rintro ⟨e, he, hid, hn⟩
        exact ⟨e, .inl he, hid, hn⟩
      rintro ⟨e, he | he, hid, hn⟩
      · exact ⟨e, he, hid, hn⟩
      · rw [he] at hid
        exact absurd hid.symm hne
  once := by
    simp only [Session.seal, map_append, map_cons, map_nil]
    refine nodup_append.mpr ⟨h.once, by simp, fun a ha b hb => ?_⟩
    rw [mem_singleton.mp hb]
    rintro rfl
    obtain ⟨e, he, hid⟩ := mem_map.mp ha
    have := h.evicted e he
    rw [hid, hlive] at this
    cases this
  order := by
    refine pairwise_append.mpr ⟨h.order, pairwise_singleton _ _, fun a ha b hb => ?_⟩
    rw [mem_singleton.mp hb]
    rcases Nat.lt_or_eq_of_le (h.nonces a ha) with hlt | heq
    · exact .inl hlt
    · exact .inr ⟨heq, horder a ha heq⟩
  nonces e he := by
    rcases mem_append.mp he with he | he
    · exact h.nonces e he
    · rw [mem_singleton.mp he]
      exact le_rfl
  written e he := by
    rcases mem_append.mp he with he | he
    · exact h.written e he
    · rw [mem_singleton.mp he]
      simp [hentry]
  accumulator := by
    simp only [Session.seal, sealedAccumulator_concat, h.accumulator, hentry, Option.getD_some]
  ids := hids
  executors := hexecutors

/-- **Every step keeps the four places in agreement.** -/
theorem Consistent.step (hstep : Step s s') (h : Consistent s) : Consistent s' := by
  have hids : ∀ id r, s'.Holds id r → 1 ≤ id ∧ id ≤ s'.sm.latestNonce + 1 := by
    intro id r hr
    have hle : s.sm.latestNonce ≤ s'.sm.latestNonce := by
      cases hstep with
      | nonce => exact Nat.le_succ _
      | _ => exact le_rfl
    cases hstep.origin hr with
    | held hold => have := h.ids id r hold; omega
    | new => omega
    | move h₀ _ => have := h.ids id _ h₀; omega
    | leave h₀ _ => have := h.ids id _ h₀; omega
  have hexecutors : ∀ id r, s'.Holds id r → r.executorSlot = executorSlotFor s'.sm.group id := by
    intro id r hr
    rw [hstep.sameSession.group]
    cases hstep.origin hr with
    | held hold => exact h.executors id r hold
    | new _ _ hnew => exact hnew.executorSlot
    | move h₀ hmove => exact hmove.executorSlot.trans (h.executors id _ h₀)
    | leave h₀ hleave => exact hleave.executorSlot.trans (h.executors id _ h₀)
  -- a record that is written is not of a sealed inference
  have hevicted : ∀ {id : ℕ} (r), (∀ e ∈ s.sealed, e.id ≠ id) → ∀ e ∈ s.sealed,
      (s.sm.inferences.insert id r).get? e.id = none := by
    intro id r hne e he
    rw [get?_insert, if_neg (hne e he)]
    exact h.evicted e he
  cases hstep with
  | bind => exact { h with }
  | @start id r entry hphase hid hlive hcommitted hsealed hnew hbalance hentry =>
    refine { h with entries := h.entries_insert hentry, noEntry := h.noEntry_insert, ids := hids,
                    executors := hexecutors, evicted := hevicted r ?_ }
    intro e he heq
    have := (h.sealedNonces id e.nonce).mpr ⟨e, he, heq, rfl⟩
    rw [hsealed] at this
    cases this
  | @move id r r' amount f entry hlive hmove hentry =>
    refine { h with entries := h.entries_insert hentry, noEntry := h.noEntry_insert, ids := hids,
                    executors := hexecutors, evicted := hevicted r' ?_ }
    rintro e he rfl
    rw [h.evicted e he] at hlive
    cases hlive
  | finalizeRound | fee => exact { h with }
  | nonce =>
    exact { h with nonces := fun e he => le_trans (h.nonces e he) (Nat.le_succ _), ids := hids }
  | settlement => exact { h with }
  | @leave id r r' amount f entry hlive hleave horder hentry =>
    have hcredit : Consistent { s with sm := s.sm.credit amount r.executorSlot f } := { h with }
    exact hcredit.seal hlive horder hentry hids hexecutors

/-- The later session `s'` continues `s`, with the seals `new` in between. -/
structure Continues (s s' : Session) (new : List SealedRecord) : Prop where
  /-- Sealed records stay, in their order. -/
  sealed : s'.sealed = s.sealed ++ new
  /-- A live record stays live or is sealed, further along its life cycle. -/
  kept : ∀ id r, s.sm.inferences.get? id = some r →
    (∃ r', s'.sm.inferences.get? id = some r' ∧ StatusPath r.status r'.status) ∨
      ∃ e ∈ new, e.id = id ∧ StatusPath r.status e.record.status
  /-- Every record came from one of the same id, or was created pending, in the
  active phase. -/
  came : ∀ id r', s'.Holds id r' →
    (∃ r, s.Holds id r ∧ StatusPath r.status r'.status) ∨
      s.sm.phase = .active ∧ StatusPath .pending r'.status
  /-- In the active phase only finished or resolved records are sealed. -/
  active : s'.sm.phase = .active → s.sm.phase = .active ∧ ∀ e ∈ new, sealEligibleStatus e.record.status

theorem Continues.refl (s : Session) : Continues s s [] where
  sealed := (append_nil _).symm
  kept _ r hr := .inl ⟨r, hr, .refl⟩
  came _ r hr := .inl ⟨r, hr, .refl⟩
  active h := ⟨h, nofun⟩

theorem Continues.trans {s₁ s₂ s₃ : Session} {new new' : List SealedRecord}
    (h : Continues s₁ s₂ new) (h' : Continues s₂ s₃ new') : Continues s₁ s₃ (new ++ new') where
  sealed := by rw [h'.sealed, h.sealed, append_assoc]
  kept id r hr := by
    rcases h.kept id r hr with ⟨r₁, hr₁, hp⟩ | ⟨e, he, hid, hp⟩
    · rcases h'.kept id r₁ hr₁ with ⟨r₂, hr₂, hp'⟩ | ⟨e, he, hid, hp'⟩
      · exact .inl ⟨r₂, hr₂, hp.trans hp'⟩
      · exact .inr ⟨e, mem_append_right _ he, hid, hp.trans hp'⟩
    · exact .inr ⟨e, mem_append_left _ he, hid, hp⟩
  came id r hr := by
    rcases h'.came id r hr with ⟨r₁, hr₁, hp⟩ | ⟨hphase, hp⟩
    · rcases h.came id r₁ hr₁ with ⟨r₂, hr₂, hp'⟩ | ⟨hphase, hp'⟩
      · exact .inl ⟨r₂, hr₂, hp'.trans hp⟩
      · exact .inr ⟨hphase, hp'.trans hp⟩
    · exact .inr ⟨(h.active hphase).1, hp⟩
  active hphase := by
    obtain ⟨hmid, hnew'⟩ := h'.active hphase
    obtain ⟨hfirst, hnew⟩ := h.active hmid
    refine ⟨hfirst, fun e he => ?_⟩
    rcases mem_append.mp he with he | he
    · exact hnew e he
    · exact hnew' e he

theorem Continues.holds {new : List SealedRecord} (h : Continues s s' new) {id : ℕ}
    (hr : s.Holds id r) : ∃ r', s'.Holds id r' := by
  rcases hr with hlive | ⟨e, he, hid, hrec⟩
  · rcases h.kept id r hlive with ⟨r', hr', -⟩ | ⟨e, he, hid, -⟩
    · exact ⟨r', .inl hr'⟩
    · exact ⟨e.record, .inr ⟨e, by rw [h.sealed]; exact mem_append_right _ he, hid, rfl⟩⟩
  · exact ⟨r, .inr ⟨e, by rw [h.sealed]; exact mem_append_left _ he, hid, hrec⟩⟩

theorem Continues.of_same (hlive : s'.sm.inferences = s.sm.inferences)
    (hsealed : s'.sealed = s.sealed) (hphase : s'.sm.phase = .active → s.sm.phase = .active) :
    Continues s s' [] where
  sealed := by rw [hsealed, append_nil]
  kept _ r hr := .inl ⟨r, by rw [hlive]; exact hr, .refl⟩
  came id r hr := by
    unfold Session.Holds at hr
    rw [hlive, hsealed] at hr
    exact .inl ⟨r, hr, .refl⟩
  active h := ⟨hphase h, nofun⟩

/-- **Every step continues the history.** -/
theorem Step.continues (hstep : Step s s') : ∃ new, Continues s s' new := by
  have hcame : ∀ id r', s'.Holds id r' → (∃ r, s.Holds id r ∧ StatusPath r.status r'.status) ∨
      s.sm.phase = .active ∧ StatusPath .pending r'.status := by
    intro id r' hr
    cases hstep.origin hr with
    | held hold => exact .inl ⟨r', hold, .refl⟩
    | new hphase _ hnew => exact .inr ⟨hphase, hnew.status ▸ .refl⟩
    | move h₀ hmove => exact .inl ⟨_, h₀, hmove.statusPath⟩
    | leave h₀ hleave => exact .inl ⟨_, h₀, hleave.statusPath⟩
  cases hstep with
  | bind => exact ⟨[], .of_same rfl rfl id⟩
  | @start id r entry hphase hid hlive hcommitted hsealed hnew hbalance hentry =>
    refine ⟨[], (append_nil _).symm, fun id' r₀ hr₀ => .inl ⟨r₀, ?_, .refl⟩, hcame,
      fun h => ⟨h, nofun⟩⟩
    have hne : id' ≠ id := by
      rintro rfl
      rw [hlive] at hr₀
      cases hr₀
    rw [get?_insert, if_neg hne]
    exact hr₀
  | @move id r r' amount f entry hlive hmove hentry =>
    refine ⟨[], (append_nil _).symm, fun id' r₀ hr₀ => .inl ?_, hcame, fun h => ⟨h, nofun⟩⟩
    rw [get?_insert]
    split
    · next heq =>
      rw [heq, hlive, Option.some_inj] at hr₀
      exact ⟨r', rfl, hr₀ ▸ hmove.statusPath⟩
    · exact ⟨r₀, hr₀, .refl⟩
  | finalizeRound => exact ⟨[], .of_same rfl rfl nofun⟩
  | fee | nonce => exact ⟨[], .of_same rfl rfl id⟩
  | settlement => exact ⟨[], .of_same rfl rfl nofun⟩
  | @leave id r r' amount f entry hlive hleave horder hentry =>
    refine ⟨[⟨s.sm.latestNonce, id, r'⟩], rfl, fun id' r₀ hr₀ => ?_, hcame,
      fun h => ⟨h, fun e he => ?_⟩⟩
    · by_cases heq : id' = id
      · rw [heq, hlive, Option.some_inj] at hr₀
        exact .inr ⟨_, mem_singleton_self _, heq.symm, hr₀ ▸ hleave.statusPath⟩
      refine .inl ⟨r₀, ?_, .refl⟩
      show (s.sm.inferences.erase id).get? id' = some r₀
      rw [get?_erase, if_neg heq]
      exact hr₀
    · -- in the active phase a record leaves as it is, and only if it is eligible
      rw [mem_singleton.mp he]
      replace h : s.sm.phase = .active := h
      cases hleave with
      | autoSealed _ hstatus => exact hstatus
      | paid hphase => simp [h] at hphase
      | refunded hphase => simp [h] at hphase
      | drained hphase => simp [h] at hphase

theorem Steps.continues (h : Steps s s') : ∃ new, Continues s s' new := by
  induction h with
  | refl => exact ⟨[], .refl s⟩
  | tail _ hlast ih =>
    obtain ⟨new, hnew⟩ := ih
    obtain ⟨new', hnew'⟩ := hlast.continues
    exact ⟨new ++ new', hnew.trans hnew'⟩

end Devshard
