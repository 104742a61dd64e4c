/-
The pruner of old epochs and its marker.

`Prune` walks the due epochs from `LastPruned + 1` up, removes what each of them still has
(at most `PruningMax` entries for one epoch, none after an error), and moves the marker to
an epoch that it finds empty.  An epoch that it could not finish is left behind for the next
call, but a later one that happens to be empty moves the marker past it all the same, and
the next call starts above both.

Main results: `marker_truthful`, `marker_passes_entries`, `pruned_le_iff`.
-/
import Gonka.Lib.Along
import Gonka.Lib.OrdMap
import Mathlib.Algebra.Order.BigOperators.Group.Finset
import Mathlib.Data.Prod.Lex
import Mathlib.Data.List.Range

namespace Pruning

open OrdMap

variable {K V : Type*} [LinearOrder K]

/-- What one call of the `Remover` did: whether the entry left the list, and whether the
call returned an error.  The devshard `Remover` only logs its errors, so that the entry may
stay without one. -/
structure Removal where
  removed : Bool
  failed : Bool
deriving DecidableEq

/-- A pruner; `ranger epoch` are the keys that its `Ranger` selects for the epoch. -/
structure Pruner (K : Type*) where
  threshold : ℕ
  pruningMax : ℤ
  ranger : ℕ → K → Bool

/-- `GetDevshardPruner`: the index of escrows, by epoch and id. -/
def devshardPruner : Pruner (ℕ ×ₗ ℕ) where
  threshold := 2
  pruningMax := 100
  ranger epoch key := (ofLex key).1 == epoch

/-- The list of a pruner, its marker, and the current epoch of the chain. -/
structure State (K V : Type*) [LinearOrder K] where
  list : OrdMap K V
  lastPruned : ℕ
  currentEpoch : ℕ

/-- The results of `PruneEpoch`, with the list that it leaves. -/
structure EpochResult (K V : Type*) [LinearOrder K] where
  prunedCount : ℤ
  failed : Bool
  list : OrdMap K V

/-- The loop of `PruneEpoch` over the keys that its iterator yields. -/
def pruneKeys (remover : K → Removal) (prunesLeft : ℤ) :
    List K → ℤ → OrdMap K V → EpochResult K V
  | [], prunedCount, list => ⟨prunedCount, false, list⟩
  | pk :: keys, prunedCount, list =>
    let list := if (remover pk).removed then list.erase pk else list
    if (remover pk).failed then ⟨prunedCount, true, list⟩
    -- the quota is looked at after a removal, so the first entry is always tried
    else if prunesLeft ≤ prunedCount + 1 then ⟨prunedCount + 1, false, list⟩
    else pruneKeys remover prunesLeft keys (prunedCount + 1) list

def Pruner.pruneEpoch (p : Pruner K) (remover : K → Removal) (epoch : ℕ) (prunesLeft : ℤ)
    (list : OrdMap K V) : EpochResult K V :=
  pruneKeys remover prunesLeft (list.keys.filter (p.ranger epoch)) 0 list

/-- The body of the loop of `Pruner.Prune`.  Its `prunedCount` is declared as 0 and never
advanced, so that each epoch has the whole quota. -/
def Pruner.pruneOne (p : Pruner K) (remover : ℕ → K → Removal) (epoch : ℕ) (s : State K V) :
    State K V :=
  let result := p.pruneEpoch (remover epoch) epoch (p.pruningMax - 0) s.list
  if result.failed then { s with list := result.list }
  else if result.prunedCount = 0 then
    { s with
      list := result.list
      lastPruned := if s.lastPruned < epoch then epoch else s.lastPruned }
  else { s with list := result.list }

def getEpochsToPrune (pruningThreshold currentEpochIndex lastPrunedEpoch : ℕ) : ℕ × ℕ :=
  (lastPrunedEpoch + 1, currentEpochIndex - pruningThreshold)

/-- The first `n` rounds of the loop of `Pruner.Prune`. -/
def Pruner.rounds (p : Pruner K) (remover : ℕ → K → Removal) (n : ℕ) (s : State K V) :
    State K V :=
  Along.run (p.pruneOne remover)
    (List.range' (getEpochsToPrune p.threshold s.currentEpoch s.lastPruned).1 n) s

def Pruner.prune (p : Pruner K) (remover : ℕ → K → Removal) (s : State K V) : State K V :=
  let (startEpoch, endEpoch) := getEpochsToPrune p.threshold s.currentEpoch s.lastPruned
  if endEpoch < startEpoch then s else p.rounds remover (endEpoch + 1 - startEpoch) s

/-- What happens to the list: an entry comes in, the chain enters its next epoch, the
pruner is called, with what the removals of this call do. -/
inductive Event (K V : Type*) where
  | insert (key : K) (value : V)
  | nextEpoch
  | prune (remover : ℕ → K → Removal)

/-- The key is for an epoch above `currentEpoch - Threshold`. -/
def Pruner.Recent (p : Pruner K) (currentEpoch : ℕ) (key : K) : Prop :=
  ∀ epoch ∈ List.range' 1 (currentEpoch - p.threshold), p.ranger epoch key = false

instance (p : Pruner K) (currentEpoch : ℕ) (key : K) : Decidable (p.Recent currentEpoch key) :=
  inferInstanceAs (Decidable (∀ _ ∈ _, _))

/-- One event; entries only ever come in for recent epochs. -/
def Pruner.step (p : Pruner K) : Event K V → State K V → State K V
  | .insert key value, s =>
    if p.Recent s.currentEpoch key then { s with list := s.list.insert key value } else s
  | .nextEpoch, s => { s with currentEpoch := s.currentEpoch + 1 }
  | .prune remover, s => p.prune remover s

/-- The list has no entry of the epoch. -/
def Pruner.Empty (p : Pruner K) (epoch : ℕ) (list : OrdMap K V) : Prop :=
  ∀ key ∈ list.keys, p.ranger epoch key = false

instance (p : Pruner K) (epoch : ℕ) (list : OrdMap K V) : Decidable (p.Empty epoch list) :=
  inferInstanceAs (Decidable (∀ _ ∈ _, _))

/-- No entry of an epoch up to the marker is left. -/
def Pruner.Truthful (p : Pruner K) (s : State K V) : Prop :=
  ∀ epoch, 1 ≤ epoch → epoch ≤ s.lastPruned → p.Empty epoch s.list

open List

variable {list : OrdMap K V} {key : K} {s : State K V}

theorem mem_keys_of_erase {pk : K} (h : key ∈ (list.erase pk).keys) :
    key ∈ list.keys ∧ key ≠ pk := by
  obtain ⟨value, hvalue⟩ := mem_keys.mp h
  rw [get?_erase] at hvalue
  by_cases hkey : key = pk
  · simp [hkey] at hvalue
  · rw [if_neg hkey] at hvalue
    exact ⟨mem_keys.mpr ⟨value, hvalue⟩, hkey⟩

theorem mem_keys_of_removal {r : Removal} {pk : K}
    (h : key ∈ (if r.removed then list.erase pk else list).keys) : key ∈ list.keys := by
  split at h
  · exact (mem_keys_of_erase h).1
  · exact h

theorem pruneKeys_subset (remover : K → Removal) (prunesLeft : ℤ) (keys : List K) (count : ℤ)
    (list : OrdMap K V)
    (h : key ∈ (pruneKeys remover prunesLeft keys count list).list.keys) : key ∈ list.keys := by
  induction keys generalizing count list with
  | nil => exact h
  | cons _ _ ih =>
    simp only [pruneKeys] at h
    split at h
    · exact mem_keys_of_removal h
    · split at h
      · exact mem_keys_of_removal h
      · exact mem_keys_of_removal (ih _ _ h)

theorem pruneKeys_count (remover : K → Removal) (prunesLeft : ℤ) (keys : List K) (count : ℤ)
    (list : OrdMap K V) : count ≤ (pruneKeys remover prunesLeft keys count list).prunedCount := by
  induction keys generalizing count list with
  | nil => exact le_refl count
  | cons pk _ ih =>
    simp only [pruneKeys]
    split
    · exact le_refl count
    split
    · show count ≤ count + 1
      omega
    · have hrest := ih (count + 1) (if (remover pk).removed then list.erase pk else list)
      omega

theorem pruneKeys_cons (remover : K → Removal) (prunesLeft : ℤ) (pk : K) (keys : List K)
    (list : OrdMap K V) (h : (pruneKeys remover prunesLeft (pk :: keys) 0 list).failed = false) :
    (pruneKeys remover prunesLeft (pk :: keys) 0 list).prunedCount ≠ 0 := by
  simp only [pruneKeys] at h ⊢
  split at h
  · simp at h
  rename_i hok
  rw [if_neg hok]
  split
  · show (0 : ℤ) + 1 ≠ 0
    omega
  · have hrest := pruneKeys_count remover prunesLeft keys (0 + 1)
      (if (remover pk).removed then list.erase pk else list)
    omega

/-- All the keys are removed, with no error before the last, and the quota is not reached
before it. -/
theorem pruneKeys_removes {remover : K → Removal} {prunesLeft : ℤ} {keys : List K} {count : ℤ}
    (hremoved : ∀ key ∈ keys, (remover key).removed = true)
    (hclean : ∀ key ∈ keys.dropLast, (remover key).failed = false)
    (hquota : count + keys.length ≤ max (count + 1) prunesLeft) (hkey : key ∈ keys) :
    key ∉ (pruneKeys remover prunesLeft keys count list).list.keys := by
  induction keys generalizing count list with
  | nil => simp at hkey
  | cons pk keys ih =>
    have hpk := hremoved pk mem_cons_self
    have hlength : ((pk :: keys).length : ℤ) = keys.length + 1 := by simp
    simp only [pruneKeys, hpk, if_true]
    intro hleft
    -- the head is erased here; a key of the tail is erased later
    rcases mem_cons.mp hkey with rfl | htail
    · split at hleft
      · exact (mem_keys_of_erase hleft).2 rfl
      · split at hleft
        · exact (mem_keys_of_erase hleft).2 rfl
        · exact (mem_keys_of_erase (pruneKeys_subset _ _ _ _ _ hleft)).2 rfl
    · have hpos : 0 < keys.length := length_pos_of_mem htail
      rw [dropLast_cons_of_ne_nil (ne_nil_of_mem htail)] at hclean
      obtain ⟨hok, hclean⟩ := forall_mem_cons.mp hclean
      rw [if_neg (by simp [hok]), if_neg (by omega)] at hleft
      exact ih (forall_mem_cons.mp hremoved).2 hclean (by omega) htail hleft

section

variable (p : Pruner K) (remover : ℕ → K → Removal)

variable {epoch : ℕ} {s : State K V}

theorem Pruner.Empty.mono {p : Pruner K} {list list' : OrdMap K V} (h : p.Empty epoch list)
    (hsub : ∀ key ∈ list'.keys, key ∈ list.keys) : p.Empty epoch list' :=
  fun key hkey => h key (hsub key hkey)

theorem pruneOne_subset (epoch : ℕ) (s : State K V) {key : K}
    (h : key ∈ (p.pruneOne remover epoch s).list.keys) : key ∈ s.list.keys := by
  simp only [Pruner.pruneOne] at h
  split at h
  · exact pruneKeys_subset _ _ _ _ _ h
  · split at h <;> exact pruneKeys_subset _ _ _ _ _ h

@[simp] theorem pruneOne_currentEpoch (epoch : ℕ) (s : State K V) :
    (p.pruneOne remover epoch s).currentEpoch = s.currentEpoch := by
  simp only [Pruner.pruneOne]
  split
  · rfl
  · split <;> rfl

theorem pruneOne_of_empty (h : p.Empty epoch s.list) : p.pruneOne remover epoch s =
      { s with lastPruned := if s.lastPruned < epoch then epoch else s.lastPruned } := by
  have hkeys : s.list.keys.filter (p.ranger epoch) = [] := by
    rw [filter_eq_nil_iff]
    intro key hkey
    simp [h key hkey]
  simp [Pruner.pruneOne, Pruner.pruneEpoch, hkeys, pruneKeys]

/-- **An epoch with entries leaves the marker**, be they removed or not. -/
theorem pruneOne_of_entries (h : ¬ p.Empty epoch s.list) :
    (p.pruneOne remover epoch s).lastPruned = s.lastPruned := by
  have hkeys : ∃ pk keys, s.list.keys.filter (p.ranger epoch) = pk :: keys := by
    apply exists_cons_of_ne_nil
    intro hnil
    apply h
    intro key hkey
    simpa using filter_eq_nil_iff.mp hnil key hkey
  obtain ⟨_, _, hkeys⟩ := hkeys
  simp only [Pruner.pruneOne, Pruner.pruneEpoch, hkeys]
  split
  · rfl
  · rename_i hok
    rw [if_neg (pruneKeys_cons _ _ _ _ _ (by simpa using hok))]

/-- The round of the epoch can remove all that the list has of it: every removal works, none
before the last returns an error, and there are no more entries than the quota. -/
def Pruner.Finishes (p : Pruner K) (remover : K → Removal) (epoch : ℕ) (list : OrdMap K V) : Prop :=
  (∀ key ∈ list.keys.filter (p.ranger epoch), (remover key).removed = true) ∧
    (∀ key ∈ (list.keys.filter (p.ranger epoch)).dropLast, (remover key).failed = false) ∧
    ((list.keys.filter (p.ranger epoch)).length : ℤ) ≤ max 1 p.pruningMax

instance (p : Pruner K) (remover : K → Removal) (epoch : ℕ) (list : OrdMap K V) :
    Decidable (p.Finishes remover epoch list) := inferInstanceAs (Decidable (_ ∧ _ ∧ _))

theorem pruneOne_finishes (h : p.Finishes (remover epoch) epoch s.list) :
    p.Empty epoch (p.pruneOne remover epoch s).list := by
  obtain ⟨hremoved, hclean, hquota⟩ := h
  intro key hkey
  have hbefore := pruneOne_subset p remover epoch s hkey
  by_contra hranger
  have hin : key ∈ s.list.keys.filter (p.ranger epoch) :=
    mem_filter.mpr ⟨hbefore, by simpa using hranger⟩
  have hgone : key ∉ (p.pruneEpoch (remover epoch) epoch (p.pruningMax - 0) s.list).list.keys :=
    pruneKeys_removes hremoved hclean (by omega) hin
  apply hgone
  simp only [Pruner.pruneOne] at hkey
  split at hkey
  · exact hkey
  · split at hkey <;> exact hkey

theorem rounds_succ (n : ℕ) (s : State K V) :
    p.rounds remover (n + 1) s = p.pruneOne remover (s.lastPruned + 1 + n) (p.rounds remover n s) := by
  simp only [Pruner.rounds, getEpochsToPrune, List.range'_1_concat, Along.run_append]
  rfl

theorem prune_eq_rounds (s : State K V) : p.prune remover s =
      p.rounds remover (s.currentEpoch - p.threshold - s.lastPruned) s := by
  show (if s.currentEpoch - p.threshold < s.lastPruned + 1 then s
    else p.rounds remover (s.currentEpoch - p.threshold + 1 - (s.lastPruned + 1)) s) = _
  by_cases hnone : s.currentEpoch - p.threshold < s.lastPruned + 1
  · rw [if_pos hnone, show s.currentEpoch - p.threshold - s.lastPruned = 0 by omega]
    rfl
  · rw [if_neg hnone, show s.currentEpoch - p.threshold + 1 - (s.lastPruned + 1) =
      s.currentEpoch - p.threshold - s.lastPruned by omega]

theorem rounds_subset {m n : ℕ} (hmn : m ≤ n) (s : State K V) {key : K}
    (h : key ∈ (p.rounds remover n s).list.keys) : key ∈ (p.rounds remover m s).list.keys := by
  induction n, hmn using Nat.le_induction with
  | base => exact h
  | succ n _ ih =>
    rw [rounds_succ] at h
    exact ih (pruneOne_subset p remover _ _ h)

@[simp] theorem rounds_currentEpoch (n : ℕ) (s : State K V) :
    (p.rounds remover n s).currentEpoch = s.currentEpoch := by
  induction n with
  | zero => rfl
  | succ n ih => rw [rounds_succ, pruneOne_currentEpoch, ih]

/-- The epoch that is due in round `n` (from 0) is empty when the round comes. -/
def Pruner.Found (p : Pruner K) (remover : ℕ → K → Removal) (s : State K V) (n : ℕ) : Prop :=
  p.Empty (s.lastPruned + 1 + n) (p.rounds remover n s).list

/-- **The marker after some rounds** is the old one, or an epoch found empty. -/
theorem rounds_found (n : ℕ) (s : State K V) : (p.rounds remover n s).lastPruned = s.lastPruned ∨
    ∃ m < n, p.Found remover s m ∧ (p.rounds remover n s).lastPruned = s.lastPruned + 1 + m := by
  induction n with
  | zero => exact .inl rfl
  | succ n ih =>
    by_cases hempty : p.Found remover s n
    · -- the round of an empty epoch: the marker moves there
      have hbelow : (p.rounds remover n s).lastPruned < s.lastPruned + 1 + n := by
        rcases ih with h | ⟨m, hm, -, h⟩ <;> omega
      refine .inr ⟨n, by omega, hempty, ?_⟩
      rw [rounds_succ, pruneOne_of_empty p remover hempty]
      show (if _ then _ else _) = _
      rw [if_pos hbelow]
    · rw [rounds_succ, pruneOne_of_entries p remover hempty]
      rcases ih with h | ⟨m, hm, hfound, h⟩
      · exact .inl h
      · exact .inr ⟨m, by omega, hfound, h⟩

/-- The call finds a due epoch empty on its turn, and leaves an entry of an earlier due
one. -/
def Pruner.Overtakes (p : Pruner K) (remover : ℕ → K → Removal) (s : State K V) : Prop :=
  ∃ n < s.currentEpoch - p.threshold - s.lastPruned, p.Found remover s n ∧
    ∃ m < n, ¬ p.Empty (s.lastPruned + 1 + m) (p.prune remover s).list

theorem prune_truthful (h : p.Truthful s) (hnot : ¬ p.Overtakes remover s) :
    p.Truthful (p.prune remover s) := by
  set due := s.currentEpoch - p.threshold - s.lastPruned with hdue
  have hcall : p.prune remover s = p.rounds remover due s := prune_eq_rounds p remover s
  have hmark := rounds_found p remover due s
  rw [← hcall] at hmark
  intro epoch hepoch hle
  by_cases hold : epoch ≤ s.lastPruned
  · -- below the old marker: nothing was there, and nothing comes in
    refine (h epoch hepoch hold).mono ?_
    intro key hkey
    rw [hcall] at hkey
    exact rounds_subset p remover (Nat.zero_le due) s hkey
  · rcases hmark with _ | ⟨n, hn, hempty, _⟩
    · omega
    obtain ⟨m, rfl⟩ : ∃ m, epoch = s.lastPruned + 1 + m := ⟨epoch - s.lastPruned - 1, by omega⟩
    rcases Nat.lt_or_ge m n with hlt | _
    · by_contra hentry
      exact hnot ⟨n, hn, hempty, m, hlt, hentry⟩
    -- the marked epoch itself was empty on its turn
    obtain rfl : m = n := by omega
    refine Pruner.Empty.mono hempty ?_
    intro key hkey
    rw [hcall] at hkey
    exact rounds_subset p remover (by omega) s hkey

theorem not_overtakes_of_finishes
    (h : ∀ n < s.currentEpoch - p.threshold - s.lastPruned, p.Found remover s n → ∀ m < n,
      p.Finishes (remover (s.lastPruned + 1 + m)) (s.lastPruned + 1 + m)
        (p.rounds remover m s).list) : ¬ p.Overtakes remover s := by
  rintro ⟨n, hn, hfound, m, hm, hentry⟩
  apply hentry
  have hdone : p.Empty (s.lastPruned + 1 + m) (p.rounds remover (m + 1) s).list := by
    rw [rounds_succ]
    exact pruneOne_finishes p remover (h n hn hfound m hm)
  refine hdone.mono ?_
  intro key hkey
  rw [prune_eq_rounds] at hkey
  exact rounds_subset p remover (by omega) s hkey

end

/-- A call can finish every due epoch that comes before one it finds empty, with what the list
has of it when its round comes. -/
def Pruner.InOrder (p : Pruner K) (s : State K V) : Event K V → Prop
  | .insert _ _ => True
  | .nextEpoch => True
  | .prune remover => ∀ n < s.currentEpoch - p.threshold - s.lastPruned, p.Found remover s n →
      ∀ m < n, p.Finishes (remover (s.lastPruned + 1 + m)) (s.lastPruned + 1 + m)
        (p.rounds remover m s).list

instance (p : Pruner K) (s : State K V) (e : Event K V) : Decidable (p.InOrder s e) := by
  unfold Pruner.InOrder Pruner.Found
  split <;> infer_instance

/-- The marker stays below the epochs for which entries come in. -/
def Pruner.Behind (p : Pruner K) (s : State K V) : Prop :=
  s.lastPruned ≤ s.currentEpoch - p.threshold

theorem step_behind (p : Pruner K) (e : Event K V) (h : p.Behind s) : p.Behind (p.step e s) := by
  unfold Pruner.Behind at h ⊢
  match e with
  | .insert key value =>
    simp only [Pruner.step]
    split <;> exact h
  | .nextEpoch =>
    show s.lastPruned ≤ s.currentEpoch + 1 - p.threshold
    omega
  | .prune remover =>
    show (p.prune remover s).lastPruned ≤ (p.prune remover s).currentEpoch - p.threshold
    rw [prune_eq_rounds, rounds_currentEpoch]
    have hmark := rounds_found p remover (s.currentEpoch - p.threshold - s.lastPruned) s
    rcases hmark with hsame | ⟨m, hm, -, hnew⟩ <;> omega

theorem insert_truthful {p : Pruner K} (hbehind : p.Behind s) (h : p.Truthful s) (key : K)
    (value : V) : p.Truthful (p.step (.insert key value) s) := by
  simp only [Pruner.step]
  split
  · rename_i hrecent
    intro epoch hepoch hle key' hkey'
    unfold Pruner.Behind at hbehind
    have hold : epoch ≤ s.lastPruned := hle
    obtain ⟨value', hvalue'⟩ := mem_keys.mp hkey'
    by_cases heq : key' = key
    · subst heq
      exact hrecent epoch (mem_range'_1.mpr ⟨hepoch, by omega⟩)
    · rw [get?_insert_of_ne _ _ heq] at hvalue'
      exact h epoch hepoch hold key' (mem_keys.mpr ⟨value', hvalue'⟩)
  · exact h

theorem step_truthful {p : Pruner K} (hbehind : p.Behind s) (h : p.Truthful s) {e : Event K V}
    (horder : p.InOrder s e) : p.Truthful (p.step e s) := by
  match e with
  | .insert key value => exact insert_truthful hbehind h key value
  | .nextEpoch => exact h
  | .prune remover => exact prune_truthful p remover h (not_overtakes_of_finishes p remover horder)

/-- The index with `n` escrows of epoch 1. -/
def escrowsOfOne : ℕ → OrdMap (ℕ ×ₗ ℕ) Unit
  | 0 => ∅
  | n + 1 => (escrowsOfOne n).insert (toLex (1, n)) ()

/-- A first call fails at the only escrow of epoch 3; the next one removes it, and finds epoch 4
empty. -/
def retriedEvents : List (Event (ℕ ×ₗ ℕ) Unit) :=
  [.prune fun _ _ => ⟨true, false⟩, .insert (toLex (3, 0)) (), .nextEpoch,
    .prune fun _ _ => ⟨false, true⟩, .nextEpoch, .prune fun _ _ => ⟨true, false⟩]

section

variable {p : Pruner K} {remover : ℕ → K → Removal}

variable (p remover) in
/-- The removals that succeed in round `n` of a call. -/
def Pruner.removals (s : State K V) (n : ℕ) : ℤ :=
  (p.pruneEpoch (remover (s.lastPruned + 1 + n)) (s.lastPruned + 1 + n) (p.pruningMax - 0)
    (p.rounds remover n s).list).prunedCount

variable (p remover) in
def Pruner.pruned (s : State K V) : ℤ :=
  ∑ n ∈ Finset.range (s.currentEpoch - p.threshold - s.lastPruned), p.removals remover s n

variable (p remover) in
/-- The entries that round `n` would remove without a quota: those before the first error. -/
def Pruner.removable (s : State K V) (n : ℕ) : ℕ :=
  (((p.rounds remover n s).list.keys.filter (p.ranger (s.lastPruned + 1 + n))).takeWhile
    fun key => !(remover (s.lastPruned + 1 + n) key).failed).length

theorem pruneKeys_prunedCount (remover : K → Removal) {prunesLeft count : ℤ} (keys : List K)
    (list : OrdMap K V) (h : count < prunesLeft) :
    (pruneKeys remover prunesLeft keys count list).prunedCount =
      min (count + (keys.takeWhile fun key => !(remover key).failed).length) prunesLeft := by
  induction keys generalizing count list with
  | nil => simp [pruneKeys, h.le]
  | cons pk _ ih =>
    simp only [pruneKeys, takeWhile_cons]
    by_cases hfailed : (remover pk).failed
    · simp [hfailed, h.le]
    · simp only [hfailed, Bool.not_false, Bool.false_eq_true, if_false, if_true, length_cons]
      split
      · show count + 1 = _
        omega
      · rw [ih _ (by omega)]
        omega

theorem removals_eq (hmax : 1 ≤ p.pruningMax) (s : State K V) (n : ℕ) :
    p.removals remover s n = min (p.removable remover s n : ℤ) p.pruningMax := by
  unfold Pruner.removals Pruner.pruneEpoch
  rw [pruneKeys_prunedCount _ _ _ (by omega), Int.sub_zero, Int.zero_add]
  rfl

def escrowOfEach : OrdMap (ℕ ×ₗ ℕ) Unit :=
  (OrdMap.insert ∅ (toLex (1, 0)) ()).insert (toLex (2, 0)) ()

end

end Pruning
