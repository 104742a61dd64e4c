/-
Sampling of slots by weight.

A slot goes to the participant in whose interval of the weight line its random value falls.  The
single lookup walks along the line; the batch sorts the random values and walks once.

Main results: `slots_match`, `empty_address_sampled`.
-/
import Mathlib.Data.String.Basic
import Gonka.Chain.EpochContext
import Gonka.Lib.OrdMap

namespace SlotSampling

open Inference List

structure WeightEntry where
  address : String
  weight : ℤ

/-- A random value, with the index of its slot. -/
structure SlotRandom where
  randomVal : ℤ
  origIdx : ℕ
  deriving DecidableEq

def prepareSortedEntries (weights : OrdMap String ℤ) : List WeightEntry × ℤ :=
  let sortedEntries := (weights.entries.filter (0 < ·.2)).map fun e => WeightEntry.mk e.1 e.2
  let totalWeight := (sortedEntries.map (·.weight)).foldl (fun t w => i64 (t + w)) 0
  if totalWeight = 0 then ([], 0) else (sortedEntries, totalWeight)

/-- `seed i` are the first eight bytes of the hash for slot `i`. -/
def slotRandomVal (seed : ℕ → UInt64) (slotIdx : ℕ) (totalWeight : ℤ) : ℤ :=
  (seed slotIdx).toNat % totalWeight

/-- The first address at which the weights exceed the value. -/
def find (randomVal : ℤ) : ℤ → List WeightEntry → Option String
  | _, [] => none
  | cumulative, e :: rest =>
    if randomVal < i64 (cumulative + e.weight) then some e.address
    else find randomVal (i64 (cumulative + e.weight)) rest

def getSlotFromSorted (seed : ℕ → UInt64) (sortedEntries : List WeightEntry) (totalWeight : ℤ)
    (slotIdx : ℕ) : String :=
  if sortedEntries.isEmpty ∨ totalWeight ≤ 0 then ""
  else (find (slotRandomVal seed slotIdx totalWeight) 0 sortedEntries).getD
    ((sortedEntries.getLast?.map (·.address)).getD "")

/-- The loop over the entries; `result` is the array of slots. -/
def assign : List WeightEntry → ℤ → List SlotRandom → (ℕ → String) → ℕ → String
  | [], _, _, result => result
  | e :: rest, cumulative, randoms, result =>
    let cumulative := i64 (cumulative + e.weight)
    assign rest cumulative (randoms.dropWhile (·.randomVal < cumulative))
      ((randoms.takeWhile (·.randomVal < cumulative)).foldl
        (fun result r => Function.update result r.origIdx e.address) result)

/-- `randoms` are the values of the slots after the sort. -/
def getSlotsFromSorted (randoms : List SlotRandom) (sortedEntries : List WeightEntry)
    (totalWeight : ℤ) (nSlots : ℕ) : List String :=
  if nSlots = 0 ∨ totalWeight ≤ 0 then []
  else (range nSlots).map (assign sortedEntries 0 randoms fun _ => "")

theorem foldl_update (a : String) (l : List SlotRandom) (result : ℕ → String) (i : ℕ) :
    (l.foldl (fun result r => Function.update result r.origIdx a) result) i =
      if i ∈ l.map (·.origIdx) then a else result i := by
  induction l generalizing result with
  | nil => rfl
  | cons r l ih =>
    rw [foldl_cons, ih, Function.update_apply]
    grind

theorem mem_takeWhile {c : ℤ} {randoms : List SlotRandom} {r : SlotRandom}
    (hsorted : randoms.Pairwise (·.randomVal ≤ ·.randomVal)) (hr : r ∈ randoms)
    (hlt : r.randomVal < c) : r ∈ randoms.takeWhile (·.randomVal < c) := by
  induction randoms with
  | nil => cases hr
  | cons q l ih =>
    obtain ⟨hfirst, hrest⟩ := pairwise_cons.mp hsorted
    have hq : q.randomVal < c := by
      rcases mem_cons.mp hr with rfl | hr
      · exact hlt
      · exact (hfirst r hr).trans_lt hlt
    rw [takeWhile_cons_of_pos (by simpa using hq)]
    exact mem_cons.mpr ((mem_cons.mp hr).imp_right (ih hrest))

/-- Every slot gets the address that a lookup of its own value finds. -/
theorem assign_eq (entries : List WeightEntry) (cumulative : ℤ) (randoms : List SlotRandom)
    (result : ℕ → String) (hsorted : randoms.Pairwise (·.randomVal ≤ ·.randomVal))
    (hnodup : (randoms.map (·.origIdx)).Nodup) :
    (∀ i ∉ randoms.map (·.origIdx), assign entries cumulative randoms result i = result i) ∧
    ∀ r ∈ randoms, ∀ a ∈ find r.randomVal cumulative entries,
      assign entries cumulative randoms result r.origIdx = a := by
  induction entries generalizing cumulative randoms result with
  | nil => exact ⟨fun _ _ => rfl, fun _ _ _ h => by cases h⟩
  | cons e rest ih =>
    simp only [assign, find]
    generalize i64 (cumulative + e.weight) = c
    have htaken (r : SlotRandom) (hr : r ∈ randoms) := mem_takeWhile (c := c) hsorted hr
    have hbelow := all_eq_true.mp (all_takeWhile (p := (·.randomVal < c)) (l := randoms))
    have hsplit := randoms.takeWhile_append_dropWhile (p := (·.randomVal < c))
    generalize randoms.takeWhile (·.randomVal < c) = taken at *
    generalize randoms.dropWhile (·.randomVal < c) = left at *
    subst hsplit
    rw [map_append] at hnodup ⊢
    obtain ⟨-, hnodup', hdisjoint⟩ := nodup_append.mp hnodup
    obtain ⟨hother, hfound⟩ := ih c left (taken.foldl
      (fun result r => Function.update result r.origIdx e.address) result)
      (pairwise_append.mp hsorted).2.1 hnodup'
    refine ⟨fun i hi => ?_, fun r hr a ha => ?_⟩
    · rw [mem_append, not_or] at hi
      rw [hother i hi.2, foldl_update, if_neg hi.1]
    split at ha
    · next hlt =>
      cases ha
      have hin := mem_map_of_mem (f := (·.origIdx)) (htaken r hr hlt)
      rw [hother _ fun hin' => hdisjoint _ hin _ hin' rfl, foldl_update, if_pos hin]
    · next hge =>
      refine hfound r ((mem_append.mp hr).resolve_left fun hin => hge ?_) a ha
      exact of_decide_eq_true (hbelow r hin)

/-- Where the interval of entry `k` starts. -/
def start (entries : List WeightEntry) (k : ℕ) : ℤ := ((entries.take k).map (·.weight)).sum

theorem start_mono {entries : List WeightEntry} (hpos : ∀ e ∈ entries, 0 < e.weight) {k j : ℕ}
    (h : k ≤ j) : start entries k ≤ start entries j := by
  refine Sublist.sum_le_sum ((take_sublist_take_left h).map _) (forall_mem_map.mpr fun e he => ?_)
  exact (hpos e (mem_of_mem_take he)).le

theorem find_spec {v : ℤ} (entries : List WeightEntry) (c : ℤ) (hpos : ∀ e ∈ entries, 0 < e.weight)
    (hc : 0 ≤ c) (hlow : c ≤ v) (hhigh : v < c + (entries.map (·.weight)).sum)
    (hfits : c + (entries.map (·.weight)).sum < 2 ^ 63) :
    ∃ k e, entries[k]? = some e ∧ find v c entries = some e.address ∧
      c + start entries k ≤ v ∧ v < c + start entries (k + 1) := by
  induction entries generalizing c with
  | nil => simp at hhigh; omega
  | cons e rest ih =>
    obtain ⟨he, hrest⟩ := forall_mem_cons.mp hpos
    rw [map_cons, sum_cons] at hhigh hfits
    have hsum : 0 ≤ (rest.map (·.weight)).sum :=
      sum_nonneg (forall_mem_map.mpr fun e he => (hrest e he).le)
    have hnext : i64 (c + e.weight) = c + e.weight := i64_of_fits (by omega) (by omega)
    rw [find, hnext]
    split
    · next hlt => exact ⟨0, e, rfl, rfl, by simpa [start] using hlow, by simpa [start] using hlt⟩
    · obtain ⟨k, e', hget, hfind, hlo, hhi⟩ :=
        ih (c + e.weight) hrest (by omega) (by omega) (by omega) (by omega)
      refine ⟨k + 1, e', hget, hfind, ?_, ?_⟩
      · simp only [start, take_succ_cons, map_cons, sum_cons] at hlo ⊢
        omega
      · simp only [start, take_succ_cons, map_cons, sum_cons] at hhi ⊢
        omega

theorem mem_prepareSortedEntries {weights : OrdMap String ℤ} {entries : List WeightEntry} {total : ℤ}
    (h : prepareSortedEntries weights = (entries, total)) (hpos : 0 < total) :
    (∀ e ∈ entries, weights.get? e.address = some e.weight ∧ 0 < e.weight) ∧
      total = (entries.map (·.weight)).foldl (fun t w => i64 (t + w)) 0 := by
  simp only [prepareSortedEntries] at h
  split at h
  · cases h
    cases hpos
  cases h
  refine ⟨fun e he => ?_, rfl⟩
  obtain ⟨⟨a, w⟩, hin, rfl⟩ := mem_map.mp he
  rw [mem_filter, decide_eq_true_eq] at hin
  exact ⟨OrdMap.get?_eq_some_iff.mpr hin.1, hin.2⟩

/-- **The batch gives every slot what its own lookup gives**: the address, of positive weight, of the
one entry in whose interval its random value falls.  The address is empty only if a positive weight
stands under the empty key. -/
theorem slots_match (weights : OrdMap String ℤ)
    (entries : List WeightEntry) (total : ℤ) (h : prepareSortedEntries weights = (entries, total))
    (hpos : 0 < total) (hfits : (entries.map (·.weight)).sum < 2 ^ 63) (seed : ℕ → UInt64)
    (nSlots : ℕ) (randoms : List SlotRandom)
    (hperm : randoms ~ (range nSlots).map fun i => ⟨slotRandomVal seed i total, i⟩)
    (hsorted : randoms.Pairwise (·.randomVal ≤ ·.randomVal)) (i : ℕ) (hi : i < nSlots) :
    (getSlotsFromSorted randoms entries total nSlots)[i]? =
        some (getSlotFromSorted seed entries total i) ∧
      ∃ k e, entries[k]? = some e ∧ getSlotFromSorted seed entries total i = e.address ∧
        weights.get? e.address = some e.weight ∧ 0 < e.weight ∧
        ((∀ weight, weights.get? "" = some weight → weight ≤ 0) → e.address ≠ "") ∧
        ∀ k', start entries k' ≤ slotRandomVal seed i total ∧
          slotRandomVal seed i total < start entries (k' + 1) ↔ k' = k := by
  obtain ⟨hmem, htotal⟩ := mem_prepareSortedEntries h hpos
  have hweights : ∀ e ∈ entries, 0 < e.weight := fun e he => (hmem e he).2
  rw [foldl_i64 (l := entries.map (·.weight)) le_rfl
    (forall_mem_map.mpr fun e he => (hweights e he).le) (by omega), Int.zero_add] at htotal
  have hlow : 0 ≤ slotRandomVal seed i total := Int.emod_nonneg _ hpos.ne'
  have hhigh : slotRandomVal seed i total < total := Int.emod_lt_of_pos _ hpos
  obtain ⟨k, e, hget, hfind, hlo, hhi⟩ := find_spec entries 0 hweights le_rfl hlow (by omega) (by omega)
  rw [Int.zero_add] at hlo hhi
  have hslot : getSlotFromSorted seed entries total i = e.address := by
    have hne : entries.isEmpty = false := by
      cases entries with
      | nil => cases hget
      | cons => rfl
    rw [getSlotFromSorted, hfind, hne, if_neg (by simpa using hpos), Option.getD_some]
  obtain ⟨hin, hweight⟩ := hmem e (mem_of_getElem? hget)
  rw [hslot]
  refine ⟨?_, k, e, hget, rfl, hin, hweight, fun hempty hno => ?_, fun k' => ⟨fun ⟨hlo', hhi'⟩ => ?_, ?_⟩⟩
  · have hidx : randoms.map (·.origIdx) ~ range nSlots := by
      simpa [Function.comp_def] using hperm.map (·.origIdx)
    rw [getSlotsFromSorted, if_neg (by omega), getElem?_map, getElem?_range hi, Option.map_some]
    exact congrArg some ((assign_eq entries 0 randoms _ hsorted (hidx.nodup_iff.mpr nodup_range)).2
      ⟨_, i⟩ (hperm.mem_iff.mpr (mem_map_of_mem (mem_range.mpr hi))) _ hfind)
  · rw [hno] at hin
    exact absurd hweight (Int.not_lt.mpr (hempty e.weight hin))
  · -- intervals that start later or end earlier do not reach the value
    by_contra hne
    have hbefore := start_mono (k := k' + 1) hweights (j := k)
    have hafter := start_mono (k := k + 1) hweights (j := k')
    omega
  · rintro rfl
    exact ⟨hlo, hhi⟩

def sampleWeights : OrdMap String ℤ :=
  ((((∅ : OrdMap String ℤ).insert "c" 3).insert "a" 2).insert "b" 0).insert "d" (-1)

/-- Four slots draw 2, 1, 1 and 4 of a total of 5; the two entries without weight are left out. -/
theorem slots_match_four :
    let randoms : List SlotRandom := [⟨1, 2⟩, ⟨1, 1⟩, ⟨2, 0⟩, ⟨4, 3⟩]
    let entries : List WeightEntry := [⟨"a", 2⟩, ⟨"c", 3⟩]
    let seed (i : ℕ) : UInt64 := [7, 1, 6, 4].getD i 0
    getSlotsFromSorted randoms entries 5 4 = ["c", "a", "a", "c"] ∧
      (getSlotsFromSorted randoms entries 5 4)[2]? = some (getSlotFromSorted seed entries 5 2) := by
  intro randoms entries seed
  refine ⟨by decide +kernel, (slots_match sampleWeights entries 5 (by rfl) (by decide)
    (by decide) seed 4 randoms (by decide +kernel) (by decide +kernel) 2 (by decide)).1⟩

/-- A participant without an address can be sampled. -/
theorem empty_address_sampled : getSlotFromSorted (fun _ => 0)
    (prepareSortedEntries ((∅ : OrdMap String ℤ).insert "" 1)).1
    (prepareSortedEntries ((∅ : OrdMap String ℤ).insert "" 1)).2 0 = "" := by
  decide

end SlotSampling
