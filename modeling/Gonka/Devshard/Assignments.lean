/-
How many inferences a slot can have been given.

The executor of an inference is its id modulo the size of the group, and every id
is a nonce, used once.  So the inferences of a slot are among the nonces that fall
on it, and the two counters that the settlement reports, of missed and of invalid
inferences, count disjoint sets of them.

Main result: `misses_and_invalids_le`.
-/
import Mathlib.Order.Interval.Finset.Nat
import Gonka.Devshard.VoteAccounting

namespace Devshard

open List

/-- The number of nonces up to `n` that fall on slot `slot` of `m`. -/
def assignedTo (n m slot : ℕ) : ℕ := ((Finset.Icc 1 n).filter fun i => i % m = slot).card

theorem executorSlotFor_eq {group : List SlotAssignment} (hg : validateGroup group) (id : ℕ) :
    executorSlotFor group id = id % group.length := by
  have hlt : id % group.length < group.length := Nat.mod_lt _ (validateGroup_pos hg)
  unfold executorSlotFor
  rw [getElem?_eq_getElem hlt, Option.map_some, Option.getD_some]
  exact validateGroup_getElem hg (getElem?_eq_getElem hlt)

def Session.ids (s : Session) : List ℕ := s.sm.inferences.keys ++ s.sealed.map SealedRecord.id

theorem Session.mem_ids {s : Session} {id : ℕ} : id ∈ s.ids ↔ ∃ r, s.Holds id r := by
  unfold Session.ids Session.Holds
  rw [mem_append, OrdMap.mem_keys, mem_map]
  constructor
  · rintro (⟨r, hr⟩ | ⟨e, he, rfl⟩)
    · exact ⟨r, .inl hr⟩
    · exact ⟨e.record, .inr ⟨e, he, rfl, rfl⟩⟩
  · rintro ⟨r, hr | ⟨e, he, hid, -⟩⟩
    · exact .inl ⟨r, hr⟩
    · exact .inr ⟨e, he, hid⟩

theorem Consistent.ids_nodup {s : Session} (h : Consistent s) : s.ids.Nodup := by
  refine nodup_append.mpr ⟨s.sm.inferences.keys_nodup, h.once, ?_⟩
  rintro _ hlive _ hsealed rfl
  obtain ⟨e, he, rfl⟩ := mem_map.mp hsealed
  obtain ⟨r, hr⟩ := OrdMap.mem_keys.mp hlive
  rw [h.evicted e he] at hr
  cases hr

private theorem sum_indicator_eq_countP {α : Type*} (p : α → Bool) (l : List α) :
    (l.map fun a => if p a then 1 else 0).sum = l.countP p := by
  induction l with
  | nil => rfl
  | cons a l ih => rw [map_cons, sum_cons, ih, countP_cons, Nat.add_comm]

theorem Consistent.count_slot {s : Session} (h : Consistent s) (hg : validateGroup s.sm.group)
    (slot : ℕ) :
    (s.sum fun r => if r.executorSlot = slot then 1 else 0)
      = s.ids.countP fun id => id % s.sm.group.length = slot := by
  have hslot : ∀ id r, s.Holds id r → r.executorSlot = id % s.sm.group.length := fun id r hr => by
    rw [h.executors id r hr, executorSlotFor_eq hg]
  have hlive : s.sm.inferences.sum (fun _ r => if r.executorSlot = slot then 1 else 0)
      = s.sm.inferences.keys.countP fun id => id % s.sm.group.length = slot := by
    rw [← sum_indicator_eq_countP, OrdMap.keys, map_map]
    refine congrArg List.sum (map_congr_left fun e he => ?_)
    have hr := hslot e.1 e.2 (.inl (OrdMap.get?_eq_some_iff.mpr he))
    simp only [hr, Function.comp_apply, decide_eq_true_eq]
  have hsealed : (s.sealed.map fun e => if e.record.executorSlot = slot then 1 else 0).sum
      = (s.sealed.map SealedRecord.id).countP fun id => id % s.sm.group.length = slot := by
    rw [← sum_indicator_eq_countP, map_map]
    refine congrArg List.sum (map_congr_left fun e he => ?_)
    have hr := hslot e.id e.record (.inr ⟨e, he, rfl, rfl⟩)
    simp only [hr, Function.comp_apply, decide_eq_true_eq]
  rw [Session.sum, Session.ids, countP_append, hlive, hsealed]

theorem Consistent.count_slot_le {s : Session} (h : Consistent s) (hg : validateGroup s.sm.group)
    (hb : Bounded s) (slot : ℕ) :
    (s.sum fun r => if r.executorSlot = slot then 1 else 0)
      ≤ assignedTo s.sm.latestNonce s.sm.group.length slot := by
  rw [h.count_slot hg, countP_eq_length_filter]
  have hnodup := h.ids_nodup.filter fun id => decide (id % s.sm.group.length = slot)
  rw [← toFinset_card_of_nodup hnodup]
  refine Finset.card_le_card fun id hid => ?_
  obtain ⟨hmem, hmod⟩ := mem_filter.mp (mem_toFinset.mp hid)
  obtain ⟨r, hr⟩ := Session.mem_ids.mp hmem
  rw [Finset.mem_filter, Finset.mem_Icc]
  exact ⟨⟨(h.ids id r hr).1, hb id r hr⟩, of_decide_eq_true hmod⟩

/-- **Missed and invalid inferences of a slot are different ones**, and together at
most the nonces that fall on the slot. -/
theorem misses_and_invalids_le {s : Session} (h : Consistent s) (hg : validateGroup s.sm.group)
    (hcounted : Counted s) (hb : Bounded s) {slot : ℕ} {hs : HostStats} (hget : s.sm.hostStats.get? slot = some hs) :
    hs.missed.toNat + hs.invalid.toNat
      ≤ assignedTo s.sm.latestNonce s.sm.group.length slot := by
  have hmissed := hcounted.missed slot hs hget
  have hinvalid : hs.invalid.toNat
      ≤ s.sum fun r => if r.executorSlot = slot then r.isIn .invalidated else 0 := by
    rw [hcounted.invalid slot hs hget, UInt32.toNat_ofNat']
    exact Nat.mod_le _ _
  have hdisjoint : (s.sum fun r => if r.executorSlot = slot then r.isIn .timedOut else 0)
      + (s.sum fun r => if r.executorSlot = slot then r.isIn .invalidated else 0)
      ≤ s.sum fun r => if r.executorSlot = slot then 1 else 0 := by
    rw [s.sum_eq_records, s.sum_eq_records, s.sum_eq_records, ← sum_map_add]
    refine sum_le_sum fun r _ => ?_
    -- a record has one status
    unfold InferenceRecord.isIn
    split
    · split
      · next htimedOut =>
        rw [if_neg (by rw [htimedOut]; decide)]
      · split <;> omega
    · exact Nat.le_refl 0
  exact (Nat.add_le_add hmissed hinvalid).trans
    (hdisjoint.trans (h.count_slot_le hg hb slot))

end Devshard
