/-
The counters of completed validations.

A validation is recorded once in the live table of an escrow; when its inference is sealed, the live rows
of the inference are added to a second table.  The first table alone decides whether a validation was
recorded before.  Required validations are always as many as completed ones, and left out.

Main results: `run_counts`, `completed_distinct_iff`, `late_record_counts_twice`.
-/
import Mathlib.Data.Finset.Card
import Mathlib.Data.Prod.Lex
import Gonka.Devshard.Types
import Gonka.Lib.Along

namespace Devshard.ValidationObs

open OrdMap

/-- An inference and a slot. -/
abbrev Entry := ℕ ×ₗ ℕ

/-- Each row counts the completed validations as a `uint32`. -/
structure Store where
  live : OrdMap Entry UInt32 := ∅
  sealed : OrdMap Entry UInt32 := ∅

def recordValidationAppliedOnce (e : Entry) (s : Store) : Store :=
  if (s.live.get? e).isSome then s else { s with live := s.live.insert e 1 }

/-- One row goes from the live table to the other one. -/
def move (s : Store) (e : Entry) : Store :=
  match s.live.get? e with
  | none => s
  | some obs => ⟨s.live.erase e, s.sealed.insert e ((s.sealed.get? e).getD 0 + obs)⟩

def drainInferenceValidationObs (inferenceID : ℕ) (s : Store) : Store :=
  (s.live.keys.filter (·.1 = inferenceID)).foldl move s

/-- The count of a slot in `GetValidationObservability`, a sum of `uint32` that wraps. -/
def completed (s : Store) (slot : ℕ) : UInt32 :=
  UInt32.ofNat (s.live.sum (fun e n => if e.2 = slot then n.toNat else 0) +
    s.sealed.sum (fun e n => if e.2 = slot then n.toNat else 0))

/-- A call, or one entry of a batch of `RecordValidationsAppliedOnce`. -/
inductive Op where
  | record (e : Entry)
  | drain (inferenceID : ℕ)

def step : Op → Store → Store
  | .record e => recordValidationAppliedOnce e
  | .drain inferenceID => drainInferenceValidationObs inferenceID

def Op.entries : Op → List Entry
  | .record e => [e]
  | .drain _ => []

def validationObsEntriesFromTxs (txs : List DevshardTx) : List Entry :=
  (txs.filterMap fun
    | .validation msg => some (toLex (msg.inferenceId, msg.validatorSlot))
    | .validationVote msg => some (toLex (msg.inferenceId, msg.voterSlot))
    | _ => none).eraseDups

/-- The tables are cleared, filled from the diffs, and the sealed inferences drained. -/
def rebuildValidationObsFromDiffs (records : List (List DevshardTx)) (sealedInferenceIDs : List ℕ) :
    Store :=
  Along.run step ((records.flatMap validationObsEntriesFromTxs).map .record ++
    (sealedInferenceIDs.mergeSort (· ≤ ·)).map .drain) {}

/-- The number of different inferences of a slot. -/
def distinct (es : Finset Entry) (slot : ℕ) : ℕ := (es.filter (·.2 = slot)).card

/-- What was ever recorded. -/
def recorded (ops : List Op) : Finset Entry := (ops.flatMap Op.entries).toFinset

/-- The entries for which the call makes a live row. -/
def Op.makes (op : Op) (s : Store) : List Entry := op.entries.filter fun e => (s.live.get? e).isNone

def Store.Has (s : Store) (e : Entry) : Prop := (s.live.get? e).isSome ∨ (s.sealed.get? e).isSome

theorem ofNat_eq_iff {a b : ℕ} : UInt32.ofNat a = UInt32.ofNat b ↔ a % 2 ^ 32 = b % 2 ^ 32 := by
  rw [← UInt32.toNat_inj, UInt32.toNat_ofNat', UInt32.toNat_ofNat']

theorem move_same (s : Store) (e : Entry) :
    (∀ slot, completed (move s e) slot = completed s slot) ∧ ∀ e', (move s e).Has e' ↔ s.Has e' := by
  unfold move
  cases hlive : s.live.get? e with
  | none => exact ⟨fun _ => rfl, fun _ => Iff.rfl⟩
  | some obs =>
    refine ⟨fun slot => ?_, fun e' => ?_⟩
    · -- a row that wraps in the other table loses a multiple of `2 ^ 32`
      have herase := sum_erase (fun e n => if e.2 = slot then n.toNat else 0) hlive
      have hlt := obs.toNat_lt
      unfold completed
      rw [ofNat_eq_iff]
      cases hsealed : s.sealed.get? e with
      | none =>
        rw [sum_insert_of_none _ _ hsealed]
        simp only [Option.getD_none, UInt32.zero_add] at herase ⊢
        split_ifs at herase ⊢ <;> omega
      | some n =>
        have hinsert := sum_insert_of_some (fun e n => if e.2 = slot then n.toNat else 0) (n + obs) hsealed
        simp only [Option.getD_some, UInt32.toNat_add] at hinsert herase ⊢
        split_ifs at hinsert herase <;> omega
    · unfold Store.Has
      rw [get?_erase, get?_insert]
      by_cases he : e' = e
      · simp [he, hlive]
      · simp [he]

theorem drain_same (inferenceID : ℕ) (s : Store) :
    (∀ slot, completed (drainInferenceValidationObs inferenceID s) slot = completed s slot) ∧
      ∀ e, (drainInferenceValidationObs inferenceID s).Has e ↔ s.Has e := by
  unfold drainInferenceValidationObs
  induction s.live.keys.filter (·.1 = inferenceID) generalizing s with
  | nil => exact ⟨fun _ => rfl, fun _ => Iff.rfl⟩
  | cons e _ ih =>
    obtain ⟨hcount, hhas⟩ := ih (move s e)
    obtain ⟨hcount', hhas'⟩ := move_same s e
    exact ⟨fun slot => (hcount slot).trans (hcount' slot), fun e' => (hhas e').trans (hhas' e')⟩

/-- **What a call does**: it counts the rows that it makes, and no entry is lost. -/
theorem step_counts (op : Op) (s : Store) :
    (∀ slot, completed (step op s) slot =
      completed s slot + UInt32.ofNat ((op.makes s).countP (·.2 = slot))) ∧
    ∀ e, (step op s).Has e ↔ s.Has e ∨ e ∈ op.entries := by
  cases op with
  | drain inferenceID =>
    obtain ⟨hcount, hhas⟩ := drain_same inferenceID s
    exact ⟨fun slot => (hcount slot).trans (UInt32.add_zero _).symm,
      fun e => (hhas e).trans (or_iff_left List.not_mem_nil).symm⟩
  | record e =>
    simp only [step, recordValidationAppliedOnce, Op.makes, Op.entries, List.mem_singleton]
    by_cases hlive : (s.live.get? e).isSome
    · obtain ⟨n, hn⟩ := Option.isSome_iff_exists.mp hlive
      rw [if_pos hlive, List.filter_cons_of_neg (by simp [hn])]
      exact ⟨fun slot => (UInt32.add_zero _).symm,
        fun e' => ⟨.inl, fun h => h.elim id fun he => he ▸ .inl hlive⟩⟩
    rw [if_neg hlive]
    rw [Option.not_isSome_iff_eq_none] at hlive
    rw [List.filter_cons_of_pos (by simp [hlive])]
    constructor
    · intro slot
      unfold completed
      rw [sum_insert_of_none _ _ hlive, ← UInt32.ofNat_add, ofNat_eq_iff, List.filter_nil,
        List.countP_singleton]
      simp only [decide_eq_true_eq, UInt32.toNat_one]
      congr 1
      omega
    · intro e'
      unfold Store.Has
      rw [get?_insert]
      by_cases he : e' = e <;> simp [he]

/-! ### No validation is lost -/

/-- The rows that the calls make, one after the other. -/
def rowsMade : List Op → Store → List Entry
  | [], _ => []
  | op :: ops, s => op.makes s ++ rowsMade ops (step op s)

/-- The tables have the entries recorded so far; each of them made a row at least once, and the rows
made are counted, as a `uint32`. -/
structure Counts (es : Finset Entry) (rows : List Entry) (s : Store) : Prop where
  mem_iff : ∀ e, e ∈ es ↔ s.Has e
  made : ∀ e, e ∈ rows ↔ e ∈ es
  le : ∀ slot, distinct es slot ≤ rows.countP (·.2 = slot)
  count : ∀ slot, completed s slot = UInt32.ofNat (rows.countP (·.2 = slot))

theorem distinct_eq {es : Finset Entry} {rows : List Entry} (h : ∀ e, e ∈ rows ↔ e ∈ es)
    (slot : ℕ) : distinct es slot = (rows.filter (·.2 = slot)).toFinset.card := by
  refine congrArg Finset.card (Finset.ext fun e => ?_)
  simp [h]

theorem run_made (ops : List Op) (s : Store) :
    (∀ slot, completed (Along.run step ops s) slot =
      completed s slot + UInt32.ofNat ((rowsMade ops s).countP (·.2 = slot))) ∧
    (∀ e, (Along.run step ops s).Has e ↔ s.Has e ∨ e ∈ recorded ops) ∧
    ∀ e, s.Has e ∨ e ∈ rowsMade ops s ↔ s.Has e ∨ e ∈ recorded ops := by
  induction ops generalizing s with
  | nil => exact ⟨fun _ => (UInt32.add_zero _).symm, fun e => by simp [recorded, Along.run],
      fun e => by simp [recorded, rowsMade]⟩
  | cons op ops ih =>
    obtain ⟨hcount, hhas⟩ := step_counts op s
    obtain ⟨hcounts, hhas', hmade⟩ := ih (step op s)
    have hrecorded (e : Entry) : e ∈ recorded (op :: ops) ↔ e ∈ op.entries ∨ e ∈ recorded ops := by
      simp [recorded]
    refine ⟨fun slot => ?_, fun e => ?_, fun e => ?_⟩
    · refine (hcounts slot).trans ?_
      rw [hcount, rowsMade, List.countP_append, UInt32.ofNat_add, UInt32.add_assoc]
    · exact (hhas' e).trans (by rw [hhas, hrecorded, or_assoc])
    · have hnext := hmade e
      rw [hhas] at hnext
      have hmakes : e ∈ op.entries → s.Has e ∨ e ∈ op.makes s := by
        intro he
        by_cases hlive : (s.live.get? e).isSome
        · exact .inl (.inl hlive)
        · exact .inr (List.mem_filter.mpr ⟨he, by simpa using hlive⟩)
      have hsub : e ∈ op.makes s → e ∈ op.entries := fun h => (List.mem_filter.mp h).1
      rw [rowsMade, List.mem_append, hrecorded]
      tauto

/-- **No validation is lost**: the tables have what was ever recorded, each of it made a row, and all
rows made are counted. -/
theorem run_counts (ops : List Op) :
    Counts (recorded ops) (rowsMade ops {}) (Along.run step ops {}) := by
  obtain ⟨hcount, hhas, hmade⟩ := run_made ops {}
  have hempty (e : Entry) : ¬ Store.Has {} e := by simp [Store.Has]
  simp only [hempty, false_or] at hhas hmade
  refine ⟨fun e => (hhas e).symm, hmade, fun slot => ?_, fun slot => ?_⟩
  · rw [distinct_eq hmade, List.countP_eq_length_filter]
    exact List.toFinset_card_le _
  · exact (hcount slot).trans (UInt32.zero_add _)

/-! ### Each validation once -/

/-- The tables, and on record what was given to them. -/
structure Journal where
  store : Store := {}
  recorded : Finset Entry := ∅

def Journal.advance (op : Op) (j : Journal) : Journal :=
  ⟨step op j.store, j.recorded ∪ op.entries.toFinset⟩

/-- Every slot has as many validations as inferences were recorded for it. -/
def Journal.Exact (j : Journal) : Prop :=
  ∀ slot, (completed j.store slot).toNat = distinct j.recorded slot

/-- The entry was drained, and is recorded again. -/
def Recounts (s : Store) : Op → Prop
  | .record e => s.live.get? e = none ∧ (s.sealed.get? e).isSome
  | .drain _ => False

/-- The call records nothing that was drained, and no slot gets more inferences than a `uint32` can
count. -/
def Countable (j : Journal) (op : Op) : Prop :=
  ¬ Recounts j.store op ∧ ∀ slot, distinct (j.recorded ∪ op.entries.toFinset) slot < 2 ^ 32

theorem exact_advance_iff {j : Journal} (hmem : ∀ e, e ∈ j.recorded ↔ j.store.Has e)
    (h : j.Exact) (op : Op) : (j.advance op).Exact ↔ Countable j op := by
  have hlt (slot : ℕ) : distinct j.recorded slot < 2 ^ 32 := h slot ▸ (completed j.store slot).toNat_lt
  have hcount := (step_counts op j.store).1
  -- where nothing new is counted and nothing new recorded, both sides hold
  have hsame (hnone : op.makes j.store = []) (hold : j.recorded ∪ op.entries.toFinset = j.recorded)
      (hnot : ¬ Recounts j.store op) : (j.advance op).Exact ↔ Countable j op := by
    unfold Journal.Exact Countable Journal.advance
    rw [hold]
    refine iff_of_true (fun slot => ?_) ⟨hnot, hlt⟩
    rw [hcount, hnone]
    exact (congrArg UInt32.toNat (UInt32.add_zero _)).trans (h slot)
  cases op with
  | drain inferenceID => exact hsame rfl (Finset.union_empty _) id
  | record e =>
    have hunion : j.recorded ∪ [e].toFinset = insert e j.recorded := by ext; simp
    by_cases hlive : (j.store.live.get? e).isSome
    · refine hsame ?_ ?_ fun hre => by simp [hre.1] at hlive
      · obtain ⟨n, hn⟩ := Option.isSome_iff_exists.mp hlive
        simp [Op.makes, Op.entries, hn]
      · exact hunion.trans (Finset.insert_eq_self.mpr ((hmem e).mpr (.inl hlive)))
    rw [Option.not_isSome_iff_eq_none] at hlive
    have hmakes : Op.makes (.record e) j.store = [e] := by simp [Op.makes, Op.entries, hlive]
    simp only [hmakes, List.countP_singleton, decide_eq_true_eq] at hcount
    unfold Journal.Exact Countable Journal.advance
    rw [show (Op.record e).entries = [e] from rfl, hunion]
    simp only [hcount, UInt32.toNat_add, h _]
    by_cases hsealed : (j.store.sealed.get? e).isSome
    · -- the inference was drained: one more, for an entry that is not new
      rw [Finset.insert_eq_self.mpr ((hmem e).mpr (.inr hsealed))]
      refine iff_of_false (fun heq => ?_) fun hno => hno.1 ⟨hlive, hsealed⟩
      have hone := heq e.2
      rw [if_pos rfl] at hone
      have hlt := hlt e.2
      simp only [UInt32.toNat_ofNat'] at hone
      omega
    · have he : e ∉ j.recorded := fun he => by
        rcases (hmem e).mp he with h' | h'
        · simp [hlive] at h'
        · exact hsealed h'
      have hdistinct (slot : ℕ) : distinct (insert e j.recorded) slot =
          distinct j.recorded slot + if e.2 = slot then 1 else 0 := by
        unfold distinct
        rw [Finset.filter_insert]
        split_ifs
        · exact Finset.card_insert_of_notMem fun h' => he (Finset.mem_filter.mp h').1
        · rfl
      have hnot : ¬ Recounts j.store (.record e) := fun hre => hsealed hre.2
      rw [and_iff_right hnot]
      refine forall_congr' fun slot => ?_
      have hlt := hlt slot
      rw [hdistinct]
      split_ifs <;> simp only [UInt32.toNat_ofNat'] <;> omega

/-- A rebuild, where all drains come last, makes each row once. -/
theorem rebuild_made (entries : List Entry) (ids : List ℕ) (s : Store) :
    (rowsMade (entries.map .record ++ ids.map .drain) s).Nodup ∧
      ∀ e ∈ rowsMade (entries.map .record ++ ids.map .drain) s, s.live.get? e = none := by
  induction entries generalizing s with
  | nil =>
    have hnone : rowsMade (ids.map .drain) s = [] := by
      induction ids generalizing s with
      | nil => rfl
      | cons _ _ ih => exact ih _
    rw [List.map_nil, List.nil_append, hnone]
    exact ⟨List.nodup_nil, fun _ he => nomatch he⟩
  | cons e entries ih =>
    obtain ⟨hnodup, hnew⟩ := ih (recordValidationAppliedOnce e s)
    simp only [List.map_cons, List.cons_append, rowsMade, step, Op.makes, Op.entries]
    unfold recordValidationAppliedOnce at hnodup hnew ⊢
    by_cases hlive : (s.live.get? e).isSome
    · obtain ⟨n, hn⟩ := Option.isSome_iff_exists.mp hlive
      rw [if_pos hlive] at hnodup hnew
      rw [if_pos hlive, List.filter_cons_of_neg (by simp [hn])]
      exact ⟨hnodup, hnew⟩
    rw [if_neg hlive] at hnodup hnew
    rw [Option.not_isSome_iff_eq_none] at hlive
    rw [if_neg (by simp [hlive]), List.filter_cons_of_pos (by simp [hlive])]
    simp only [get?_insert] at hnew
    refine ⟨List.nodup_cons.mpr ⟨fun he => ?_, hnodup⟩, fun e' he' => ?_⟩
    · have := hnew e he
      simp at this
    · rcases List.mem_cons.mp he' with rfl | he'
      · exact hlive
      · have := hnew e' he'
        split_ifs at this
        exact this

/-- **Each validation is counted once**, in every state of a run, exactly if none is recorded after its
inference was drained and a `uint32` can count them; and a rebuild from the diffs counts each once. -/
theorem completed_distinct_iff (ops : List Op) (records : List (List DevshardTx)) (ids : List ℕ) :
    (Along.Throughout Journal.advance Journal.Exact ops {} ↔
      Along.EachStep Journal.advance Countable ops {}) ∧
    ∀ slot, completed (rebuildValidationObsFromDiffs records ids) slot =
      UInt32.ofNat (distinct (records.flatMap validationObsEntriesFromTxs).toFinset slot) := by
  constructor
  · refine Along.throughout_iff_eachStep (I := fun j => ∀ e, e ∈ j.recorded ↔ j.store.Has e) ?_ ?_
      (fun e => by simp [Store.Has]) (fun slot => rfl)
    · intro j op hmem _ e
      rw [Journal.advance, (step_counts op j.store).2, Finset.mem_union, hmem, List.mem_toFinset]
    · intro j op hmem hexact
      exact exact_advance_iff hmem hexact op
  · intro slot
    unfold rebuildValidationObsFromDiffs
    generalize records.flatMap validationObsEntriesFromTxs = entries
    generalize ids.mergeSort (· ≤ ·) = ids
    obtain ⟨hcount, -, hmade⟩ := run_made (entries.map .record ++ ids.map .drain) {}
    have hnone : ids.flatMap (fun _ => ([] : List Entry)) = [] :=
      List.flatMap_eq_nil_iff.mpr fun _ _ => rfl
    have hrows (e : Entry) : e ∈ rowsMade (entries.map .record ++ ids.map .drain) {} ↔
        e ∈ entries.toFinset := by
      simpa [Store.Has, recorded, Op.entries, List.flatMap_map, hnone] using hmade e
    rw [hcount, distinct_eq hrows, List.toFinset_card_of_nodup
      ((rebuild_made entries ids {}).1.filter _), List.countP_eq_length_filter]
    exact UInt32.zero_add _

/-- One instance records and drains, the other one records later. -/
theorem late_record_counts_twice :
    completed (Along.run step [.record (toLex (1, 0)), .drain 1, .record (toLex (1, 0))] {}) 0 = 2 ∧
      distinct (recorded [.record (toLex (1, 0)), .drain 1, .record (toLex (1, 0))]) 0 = 1 := by
  decide

end Devshard.ValidationObs
