/-
Finite maps with a canonical form.

An `OrdMap κ ν` is an association list whose keys are strictly increasing, so
that a finite map has exactly one representation (`ext_get?`).

Everything is structurally recursive on the list of entries, so maps compute
in the kernel.
-/
import Mathlib.Order.Defs.LinearOrder
import Mathlib.Data.List.Nodup
import Mathlib.Data.List.Pairwise
import Mathlib.Data.List.Perm.Subperm
import Mathlib.Algebra.Order.BigOperators.Group.List
import Mathlib.Algebra.Order.Ring.Nat
import Mathlib.Tactic.Common

/-- A finite map as a list of entries with strictly increasing keys. -/
structure OrdMap (κ ν : Type*) [LinearOrder κ] where
  /-- The entries, in ascending order of their keys. -/
  entries : List (κ × ν)
  sorted : entries.Pairwise (fun a b => a.1 < b.1)

namespace OrdMap

open List

variable {κ ν : Type*} [LinearOrder κ]

/-- The value stored under `k`. -/
def lookup (k : κ) : List (κ × ν) → Option ν
  | [] => none
  | e :: rest => if k = e.1 then some e.2 else lookup k rest

/-- Ordered insertion; the value under an existing key is replaced. -/
def insertEntry (k : κ) (v : ν) : List (κ × ν) → List (κ × ν)
  | [] => [(k, v)]
  | e :: rest =>
    if k < e.1 then (k, v) :: e :: rest
    else if k = e.1 then (k, v) :: rest
    else e :: insertEntry k v rest

variable {k : κ} {v : ν} {l : List (κ × ν)} {m : OrdMap κ ν} {f : κ → ν → ℕ}

theorem mem_insertEntry {e : κ × ν} (h : e ∈ insertEntry k v l) : e = (k, v) ∨ e ∈ l := by
  induction l with
  | nil => simpa [insertEntry] using h
  | cons _ _ ih =>
    simp only [insertEntry] at h
    split at h
    · simpa using h
    split at h
    · rcases mem_cons.mp h with h | h
      · exact .inl h
      · exact .inr (mem_cons_of_mem _ h)
    · rcases mem_cons.mp h with h | h
      · exact .inr (by simp [h])
      · exact (ih h).imp_right (mem_cons_of_mem _)

theorem sorted_insertEntry (k : κ) (v : ν) (h : l.Pairwise (fun a b => a.1 < b.1)) :
    (insertEntry k v l).Pairwise (fun a b => a.1 < b.1) := by
  induction l with
  | nil => simp [insertEntry]
  | cons _ _ ih =>
    obtain ⟨ha, hrest⟩ := pairwise_cons.mp h
    simp only [insertEntry]
    split
    · next hlt =>
      refine pairwise_cons.mpr ⟨fun b hb => ?_, h⟩
      rcases mem_cons.mp hb with rfl | hb
      · exact hlt
      · exact lt_trans hlt (ha b hb)
    · next hnlt =>
      split
      · next heq =>
        exact pairwise_cons.mpr ⟨fun b hb => by simpa [heq] using ha b hb, hrest⟩
      next hne =>
      refine pairwise_cons.mpr ⟨fun b hb => ?_, ih hrest⟩
      rcases mem_insertEntry hb with rfl | hb
      · exact lt_of_le_of_ne (not_lt.mp hnlt) (Ne.symm hne)
      · exact ha b hb

theorem lookup_insertEntry (k k' : κ) (v : ν) (l : List (κ × ν)) :
    lookup k' (insertEntry k v l) = if k' = k then some v else lookup k' l := by
  induction l with
  | nil => simp [insertEntry, lookup]
  | cons a _ ih =>
    simp only [insertEntry]
    split
    · simp [lookup]
    split
    · next heq =>
      by_cases hk : k' = k
      · simp [lookup, hk]
      · simp [lookup, hk, ← heq]
    · next hne =>
      simp only [lookup, ih]
      by_cases hk : k' = a.1
      · have hkk : k' ≠ k := fun h => hne (h.symm.trans hk)
        simp [hk, Ne.symm hne]
      · simp [hk]

theorem lookup_filter_ne (k k' : κ) (l : List (κ × ν)) :
    lookup k' (l.filter (fun e => decide (e.1 ≠ k))) = if k' = k then none else lookup k' l := by
  induction l with
  | nil => simp [lookup]
  | cons a _ ih =>
    by_cases ha : a.1 = k
    · rw [filter_cons_of_neg (by simp [ha]), ih]
      by_cases hk : k' = k
      · simp [hk]
      · simp [hk, lookup, ha]
    · rw [filter_cons_of_pos (by simp [ha])]
      simp only [lookup, ih]
      by_cases hk : k' = k
      · simp [hk, Ne.symm ha]
      · simp [hk]

theorem lookup_eq_some_iff
    (h : l.Pairwise (fun a b => a.1 < b.1)) : lookup k l = some v ↔ (k, v) ∈ l := by
  induction l with
  | nil => simp [lookup]
  | cons a _ ih =>
    obtain ⟨ha, hrest⟩ := pairwise_cons.mp h
    simp only [lookup]
    by_cases hk : k = a.1
    · subst hk
      simp only [if_true, Option.some_inj, mem_cons]
      constructor
      · rintro rfl
        exact .inl rfl
      · rintro (hv | hv)
        · rw [← hv]
        · exact absurd (ha _ hv) (lt_irrefl _)
    · rw [if_neg hk, ih hrest, mem_cons]
      refine ⟨.inr, ?_⟩
      rintro (hv | hv)
      · exact absurd (congrArg Prod.fst hv) hk
      · exact hv

/-! ### The map operations -/

instance [DecidableEq ν] : DecidableEq (OrdMap κ ν) := fun a b =>
  decidable_of_iff (a.entries = b.entries) (by cases a; cases b; simp)

instance : EmptyCollection (OrdMap κ ν) := ⟨⟨[], .nil⟩⟩

/-- `m[k]` with its presence flag. -/
def get? (m : OrdMap κ ν) (k : κ) : Option ν := lookup k m.entries

def insert (m : OrdMap κ ν) (k : κ) (v : ν) : OrdMap κ ν :=
  ⟨insertEntry k v m.entries, sorted_insertEntry k v m.sorted⟩

def erase (m : OrdMap κ ν) (k : κ) : OrdMap κ ν :=
  ⟨m.entries.filter (fun e => decide (e.1 ≠ k)), m.sorted.filter _⟩

/-- Update the value under `k`, if there is one. -/
def modify (m : OrdMap κ ν) (k : κ) (f : ν → ν) : OrdMap κ ν :=
  match m.get? k with
  | none => m
  | some v => m.insert k (f v)

/-- The keys in ascending order. -/
def keys (m : OrdMap κ ν) : List κ := m.entries.map Prod.fst

@[simp] theorem get?_empty (k : κ) : (∅ : OrdMap κ ν).get? k = none := rfl

theorem get?_insert (m : OrdMap κ ν) (k k' : κ) (v : ν) :
    (m.insert k v).get? k' = if k' = k then some v else m.get? k' :=
  lookup_insertEntry k k' v m.entries

@[simp] theorem get?_insert_self (m : OrdMap κ ν) (k : κ) (v : ν) :
    (m.insert k v).get? k = some v := by simp [get?_insert]

theorem get?_insert_of_ne (m : OrdMap κ ν) {k' : κ} (v : ν) (h : k' ≠ k) :
    (m.insert k v).get? k' = m.get? k' := by simp [get?_insert, h]

theorem get?_erase (m : OrdMap κ ν) (k k' : κ) :
    (m.erase k).get? k' = if k' = k then none else m.get? k' :=
  lookup_filter_ne k k' m.entries

@[simp] theorem get?_erase_self (m : OrdMap κ ν) (k : κ) : (m.erase k).get? k = none := by
  simp [get?_erase]

theorem get?_modify (m : OrdMap κ ν) (k k' : κ) (f : ν → ν) :
    (m.modify k f).get? k' = if k' = k then (m.get? k).map f else m.get? k' := by
  rcases hk : m.get? k with _ | v
  · by_cases h : k' = k
    · simp [modify, hk, h]
    · simp [modify, hk, h]
  · simp [modify, hk, get?_insert]

theorem get?_eq_some_iff : m.get? k = some v ↔ (k, v) ∈ m.entries :=
  lookup_eq_some_iff m.sorted

/-- **Extensionality**: a map is determined by its lookups. -/
theorem ext_get? {m' : OrdMap κ ν} (h : ∀ k, m.get? k = m'.get? k) : m = m' := by
  obtain ⟨l, hl⟩ := m
  obtain ⟨l', hl'⟩ := m'
  have hmem : ∀ e, e ∈ l ↔ e ∈ l' := by
    rintro ⟨k, v⟩
    rw [← lookup_eq_some_iff hl, ← lookup_eq_some_iff hl']
    exact iff_of_eq (congrArg (· = some v) (h k))
  have hnodup : ∀ {s : List (κ × ν)}, s.Pairwise (fun a b => a.1 < b.1) → s.Nodup :=
    fun hs => hs.imp fun hab heq => absurd (congrArg Prod.fst heq) (ne_of_lt hab)
  have hperm : l.Perm l' := (perm_ext_iff_of_nodup (hnodup hl) (hnodup hl')).mpr hmem
  have : l = l' := hperm.eq_of_pairwise (fun a b _ _ hab hba => absurd hab (lt_asymm hba)) hl hl'
  subst this
  rfl

theorem insert_insert_self (m : OrdMap κ ν) (k : κ) (v w : ν) :
    (m.insert k v).insert k w = m.insert k w := by
  refine ext_get? fun k' => ?_
  by_cases h : k' = k <;> simp [get?_insert, h]

theorem insert_eq_self (h : m.get? k = some v) : m.insert k v = m := by
  refine ext_get? fun k' => ?_
  by_cases hk : k' = k
  · simp [hk, h]
  · simp [get?_insert, hk]

@[simp] theorem modify_id (m : OrdMap κ ν) (k : κ) : m.modify k id = m := by
  refine ext_get? fun k' => ?_
  rw [get?_modify]
  split
  · next hk => rw [hk, Option.map_id_apply]
  · rfl

theorem modify_modify (m : OrdMap κ ν) (k : κ) (f g : ν → ν) :
    (m.modify k f).modify k g = m.modify k fun v => g (f v) := by
  refine ext_get? fun k' => ?_
  simp only [get?_modify, if_true]
  split
  · rw [Option.map_map]
    rfl
  · rfl

theorem erase_insert_self (v : ν) : (m.insert k v).erase k = m.erase k := by
  refine ext_get? fun k' => ?_
  by_cases hk : k' = k <;> simp [get?_erase, get?_insert, hk]

/-- The entries that satisfy `p`. -/
def filter (p : κ → ν → Bool) (m : OrdMap κ ν) : OrdMap κ ν :=
  ⟨m.entries.filter fun e => p e.1 e.2, m.sorted.filter _⟩

theorem get?_filter (p : κ → ν → Bool) (m : OrdMap κ ν) (k : κ) :
    (m.filter p).get? k = (m.get? k).filter (p k) := by
  refine Option.ext fun v => ?_
  rw [get?_eq_some_iff, Option.filter_eq_some_iff, get?_eq_some_iff]
  exact mem_filter

/-- Every entry through `f`, which may drop it. -/
def filterMap {ν' : Type*} (f : κ → ν → Option ν') (m : OrdMap κ ν) : OrdMap κ ν' :=
  ⟨m.entries.filterMap fun e => (f e.1 e.2).map (Prod.mk e.1), by
    refine List.Pairwise.filterMap _ ?_ m.sorted
    intro a a' hlt b hb b' hb'
    obtain ⟨v, -, rfl⟩ := Option.map_eq_some_iff.mp hb
    obtain ⟨_, -, rfl⟩ := Option.map_eq_some_iff.mp hb'
    exact hlt⟩

theorem get?_filterMap {ν' : Type*} (f : κ → ν → Option ν') (m : OrdMap κ ν) (k : κ) :
    (m.filterMap f).get? k = (m.get? k).bind (f k) := by
  refine Option.ext fun v => ?_
  rw [get?_eq_some_iff, Option.bind_eq_some_iff]
  show (k, v) ∈ m.entries.filterMap _ ↔ _
  rw [mem_filterMap]
  constructor
  · rintro ⟨⟨_, v'⟩, hmem, hf⟩
    obtain ⟨_, hv₁, heq⟩ := Option.map_eq_some_iff.mp hf
    cases heq
    exact ⟨v', get?_eq_some_iff.mpr hmem, hv₁⟩
  · rintro ⟨v', hget, hf⟩
    exact ⟨(k, v'), get?_eq_some_iff.mp hget, by rw [hf]; rfl⟩

/-- The entries of `add` under keys that `m` does not have. -/
def addMissing (m add : OrdMap κ ν) : OrdMap κ ν :=
  add.entries.foldl (fun m e => if (m.get? e.1).isNone then m.insert e.1 e.2 else m) m

theorem get?_addMissing (m add : OrdMap κ ν) (k : κ) :
    (m.addMissing add).get? k = (m.get? k).or (add.get? k) := by
  show (add.entries.foldl _ m).get? k = (m.get? k).or (lookup k add.entries)
  induction add.entries generalizing m with
  | nil => simp [lookup]
  | cons e _ ih =>
    rw [foldl_cons, ih, lookup]
    by_cases hk : k = e.1
    · subst hk
      cases hm : m.get? e.1 with
      | none => simp [get?_insert_self]
      | some => simp [hm]
    · have hsame : (if (m.get? e.1).isNone then m.insert e.1 e.2 else m).get? k = m.get? k := by
        split
        · exact get?_insert_of_ne _ _ hk
        · rfl
      rw [hsame, if_neg hk]

theorem get?_foldl_insert_cases {α : Type*} (key : α → κ) (val : α → ν) (l : List α)
    (m : OrdMap κ ν) (k : κ) :
    (∃ a ∈ l, key a = k ∧
      (l.foldl (fun m a => m.insert (key a) (val a)) m).get? k = some (val a)) ∨
    (∀ a ∈ l, key a ≠ k) ∧
      (l.foldl (fun m a => m.insert (key a) (val a)) m).get? k = m.get? k := by
  induction l generalizing m with
  | nil => simp
  | cons a _ ih =>
    rw [foldl_cons]
    rcases ih (m.insert (key a) (val a)) with ⟨b, hb, hk⟩ | ⟨hne, hget⟩
    · exact .inl ⟨b, mem_cons_of_mem a hb, hk⟩
    rw [hget, get?_insert]
    by_cases hk : k = key a
    · exact .inl ⟨a, mem_cons_self, hk.symm, if_pos hk⟩
    · exact .inr ⟨forall_mem_cons.mpr ⟨Ne.symm hk, hne⟩, if_neg hk⟩

theorem get?_foldl_insert {α : Type*} (key : α → κ) (val : α → ν) {l : List α}
    (hnd : (l.map key).Nodup) (m : OrdMap κ ν) (k : κ) (v : ν) :
    (l.foldl (fun m a => m.insert (key a) (val a)) m).get? k = some v ↔
      (∃ a ∈ l, key a = k ∧ val a = v) ∨ (∀ a ∈ l, key a ≠ k) ∧ m.get? k = some v := by
  rcases get?_foldl_insert_cases key val l m k with ⟨a, ha, hk, hget⟩ | ⟨hne, hget⟩
  · rw [hget, Option.some_inj]
    refine ⟨fun hv => .inl ⟨a, ha, hk, hv⟩, ?_⟩
    rintro (⟨b, hb, hbk, hv⟩ | ⟨hne, -⟩)
    · rw [inj_on_of_nodup_map hnd ha hb (hk.trans hbk.symm), hv]
    · exact absurd hk (hne a ha)
  · rw [hget]
    refine ⟨fun hv => .inr ⟨hne, hv⟩, ?_⟩
    rintro (⟨b, hb, hbk, -⟩ | ⟨-, hv⟩)
    · exact absurd hbk (hne b hb)
    · exact hv

theorem mem_keys : k ∈ m.keys ↔ ∃ v, m.get? k = some v := by
  simp only [keys, mem_map, get?_eq_some_iff]
  constructor
  · rintro ⟨⟨a, v⟩, hmem, rfl⟩
    exact ⟨v, hmem⟩
  · rintro ⟨v, hmem⟩
    exact ⟨(k, v), hmem, rfl⟩

theorem get?_eq_none_iff : m.get? k = none ↔ k ∉ m.keys := by
  rw [mem_keys, Option.eq_none_iff_forall_ne_some]
  push Not
  rfl

theorem keys_sortedLT (m : OrdMap κ ν) : m.keys.Pairwise (· < ·) :=
  pairwise_map.mpr m.sorted

theorem keys_nodup (m : OrdMap κ ν) : m.keys.Nodup :=
  m.keys_sortedLT.imp fun h => ne_of_lt h

theorem keys_insert_of_some {v₀ : ν} (v : ν) (h : m.get? k = some v₀) :
    (m.insert k v).keys = m.keys := by
  have hmem : ∀ k', k' ∈ (m.insert k v).keys ↔ k' ∈ m.keys := by
    intro k'
    rw [mem_keys, mem_keys, get?_insert]
    split
    · next hk => exact iff_of_true ⟨v, rfl⟩ ⟨v₀, hk ▸ h⟩
    · exact Iff.rfl
  refine List.Perm.eq_of_pairwise ?_ (keys_sortedLT _) (keys_sortedLT _)
    ((perm_ext_iff_of_nodup (keys_nodup _) (keys_nodup _)).mpr hmem)
  intro a b _ _ hab hba
  exact absurd hab (lt_asymm hba)

theorem entries_insert_perm (v : ν) (h : m.get? k = none) :
    (m.insert k v).entries.Perm ((k, v) :: m.entries) := by
  have hlist : ∀ l : List (κ × ν), lookup k l = none →
      (insertEntry k v l).Perm ((k, v) :: l) := by
    intro l hl
    induction l with
    | nil => exact List.Perm.refl _
    | cons a _ ih =>
      by_cases hk : k = a.1
      · simp [lookup, hk] at hl
      simp only [insertEntry, if_neg hk]
      split
      · exact List.Perm.refl _
      · have hrest := ih (by simpa [lookup, hk] using hl)
        exact (hrest.cons a).trans (List.Perm.swap _ _ _)
  exact hlist m.entries h

theorem length_keys_le_insert (m : OrdMap κ ν) (k : κ) (v : ν) :
    m.keys.length ≤ (m.insert k v).keys.length := by
  refine (m.keys_nodup.subperm fun k' hk' => ?_).length_le
  obtain ⟨v', hv'⟩ := mem_keys.mp hk'
  rw [mem_keys, get?_insert]
  split
  · exact ⟨v, rfl⟩
  · exact ⟨v', hv'⟩

theorem eq_empty_of_keys (h : m.keys = []) : m = ∅ := by
  refine ext_get? fun k => ?_
  rw [get?_empty, get?_eq_none_iff, h]
  simp

/-! ### Sums over the entries -/

/-- The sum of `f key value` over the entries. -/
def sum (m : OrdMap κ ν) (f : κ → ν → ℕ) : ℕ := (m.entries.map fun e => f e.1 e.2).sum

@[simp] theorem sum_empty (f : κ → ν → ℕ) : (∅ : OrdMap κ ν).sum f = 0 := rfl

private theorem sum_filter_ne (hl : l.Pairwise (fun a b => a.1 < b.1)) (f : κ → ν → ℕ)
    (h : lookup k l = some v) :
    ((l.filter (fun e => decide (e.1 ≠ k))).map fun e => f e.1 e.2).sum + f k v
      = (l.map fun e => f e.1 e.2).sum := by
  induction l with
  | nil => simp [lookup] at h
  | cons a rest ih =>
    obtain ⟨ha, hrest⟩ := pairwise_cons.mp hl
    by_cases hk : a.1 = k
    · -- the head carries `k`; sortedness keeps it out of the tail
      have htail : rest.filter (fun e => decide (e.1 ≠ k)) = rest := by
        refine filter_eq_self.mpr fun e he => ?_
        have := ha e he
        simp only [decide_eq_true_eq]
        rintro rfl
        exact absurd hk (ne_of_lt this)
      have hv : a.2 = v := by simpa [lookup, hk] using h
      rw [filter_cons_of_neg (by simp [hk]), htail, map_cons, sum_cons, hk, hv]
      omega
    · have hrec : lookup k rest = some v := by simpa [lookup, Ne.symm hk] using h
      rw [filter_cons_of_pos (by simp [hk])]
      simp only [map_cons, sum_cons]
      have := ih hrest hrec
      omega

theorem sum_erase (f : κ → ν → ℕ) (h : m.get? k = some v) : (m.erase k).sum f + f k v = m.sum f :=
  sum_filter_ne m.sorted f h

theorem sum_insert_of_none (f : κ → ν → ℕ) (v : ν)
    (h : m.get? k = none) : (m.insert k v).sum f = m.sum f + f k v := by
  have hback : (m.insert k v).erase k = m := by
    refine ext_get? fun k' => ?_
    by_cases hk : k' = k
    · simp [hk, h]
    · simp [get?_erase, get?_insert, hk]
  rw [← sum_erase f (get?_insert_self m k v), hback]

theorem sum_insert_of_some (f : κ → ν → ℕ) {v₀ : ν} (v : ν)
    (h : m.get? k = some v₀) : (m.insert k v).sum f + f k v₀ = m.sum f + f k v := by
  have h1 := sum_erase f (get?_insert_self m k v)
  have h2 := sum_erase f h
  rw [erase_insert_self] at h1
  omega

theorem le_sum (f : κ → ν → ℕ) (h : m.get? k = some v) : f k v ≤ m.sum f := by
  have := sum_erase f h
  omega

theorem sum_lookups_le (f : κ → ν → ℕ) {ks : List κ} (hks : ks.Nodup) (m : OrdMap κ ν) :
    (ks.map fun k => (m.get? k).elim 0 (f k)).sum ≤ m.sum f := by
  induction ks generalizing m with
  | nil => exact Nat.zero_le _
  | cons k ks ih =>
    obtain ⟨hk, hks⟩ := nodup_cons.mp hks
    rw [map_cons, sum_cons]
    cases hget : m.get? k with
    | none =>
      rw [Option.elim_none, Nat.zero_add]
      exact ih hks m
    | some =>
      -- The other keys are not affected when this one is erased.
      have hrest : (ks.map fun k' => (m.get? k').elim 0 (f k')) =
          ks.map fun k' => ((m.erase k).get? k').elim 0 (f k') := by
        refine map_congr_left fun k' hk' => ?_
        have hne : k' ≠ k := fun heq => hk (heq ▸ hk')
        rw [get?_erase, if_neg hne]
      have hle := ih hks (m.erase k)
      have hsum := sum_erase f hget
      rw [hrest, Option.elim_some]
      omega

theorem sum_eq_lookups (f : κ → ν → ℕ) (m : OrdMap κ ν) :
    m.sum f = (m.keys.map fun k => (m.get? k).elim 0 (f k)).sum := by
  unfold sum keys
  rw [map_map]
  congr 1
  refine map_congr_left fun e he => ?_
  have hget : m.get? e.1 = some e.2 := get?_eq_some_iff.mpr he
  rw [Function.comp_apply, hget, Option.elim_some]

theorem sum_le_sum {m' : OrdMap κ ν} {g : κ → ν → ℕ}
    (h : ∀ k, (m.get? k).elim 0 (f k) ≤ (m'.get? k).elim 0 (g k)) : m.sum f ≤ m'.sum g := by
  rw [sum_eq_lookups f m]
  exact (List.sum_le_sum fun k _ => h k).trans (sum_lookups_le g m.keys_nodup m')

theorem sum_congr {g : κ → ν → ℕ}
    (h : ∀ k v, m.get? k = some v → f k v = g k v) : m.sum f = m.sum g := by
  unfold sum
  congr 1
  refine map_congr_left fun e he => ?_
  exact h e.1 e.2 (get?_eq_some_iff.mpr he)

theorem sum_eq_zero (h : ∀ k v, m.get? k = some v → f k v = 0) : m.sum f = 0 := by
  rw [sum_congr h, sum, map_const', sum_replicate_nat, Nat.mul_zero]

theorem sum_add (m : OrdMap κ ν) (f g : κ → ν → ℕ) :
    m.sum (fun k v => f k v + g k v) = m.sum f + m.sum g := by
  unfold sum
  induction m.entries with
  | nil => rfl
  | cons _ _ ih =>
    simp only [map_cons, sum_cons, ih]
    omega

theorem sum_fiberwise {α : Type*} (m : OrdMap κ ν) (key : α → κ) (g : α → ℕ) {l : List α}
    (h : ∀ a ∈ l, (m.get? (key a)).isSome) :
    m.sum (fun k _ => (l.map fun a => if key a = k then g a else 0).sum) = (l.map g).sum := by
  induction l with
  | nil => exact sum_eq_zero fun _ _ _ => rfl
  | cons a _ ih =>
    obtain ⟨v, hv⟩ := Option.isSome_iff_exists.mp (h a (by simp))
    have hrest : (m.erase (key a)).sum (fun k _ => if key a = k then g a else 0) = 0 := by
      refine sum_eq_zero fun k v' hk => if_neg ?_
      rintro rfl
      simp at hk
    have hhead := sum_erase (fun k _ => if key a = k then g a else 0) hv
    simp only [if_true, hrest, Nat.zero_add] at hhead
    simp only [map_cons, sum_cons, sum_add, ih fun b hb => h b (by simp [hb]), ← hhead]

theorem sum_modify (f : κ → ν → ℕ) (g : ν → ν)
    (h : m.get? k = some v) : (m.modify k g).sum f + f k v = m.sum f + f k (g v) := by
  simp only [modify, h]
  exact sum_insert_of_some f (g v) h

end OrdMap
