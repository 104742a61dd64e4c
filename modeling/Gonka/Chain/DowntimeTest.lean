/-
The downtime test, by which a participant that missed too many requests loses its reward.

Up to 990 requests the test looks up how many misses are within chance, in the last row at or below
the number of requests.  Above, the misses may not exceed the expected share at all.  So the bound
grows with the number of requests, except from 990 to 991, where it falls.

Main result: `accepts_mono`.
-/
import Gonka.Chain.EpochContext
import Gonka.Lib.Search
import Mathlib.Data.List.GetD

namespace DowntimeTest

open Inference

structure Threshold where
  total : ℤ
  criticalMisses : ℤ

/-- The rows for 2 to 10, and for 20, 30 and so on up to 990. -/
def table (criticalMisses : List ℤ) : List Threshold :=
  (List.range' 2 9 ++ List.range' 20 98 10).zipWith (fun total misses => ⟨total, misses⟩) criticalMisses

def maxTableN : ℤ := 990

def criticalValueTableP005 : List Threshold := table
  [2, 3, 4, 4, 4, 4, 4, 4, 4, 4, 4, 4, 5, 5, 6, 7, 7, 8, 9, 9, 10, 11, 11, 12, 13, 13, 14, 15,
   15, 16, 16, 17, 18, 18, 19, 19, 20, 21, 21, 22, 23, 23, 24, 24, 25, 25, 26, 27, 27, 28, 28,
   29, 30, 30, 31, 31, 32, 33, 33, 34, 34, 35, 35, 36, 37, 37, 38, 38, 39, 39, 40, 41, 41, 42,
   42, 43, 43, 44, 45, 45, 46, 46, 47, 47, 48, 49, 49, 50, 50, 51, 51, 52, 52, 53, 54, 54, 55,
   55, 56, 56, 57, 57, 58, 59, 59, 60, 60]

def criticalValueTableP010 : List Threshold := table
  [2, 3, 4, 4, 4, 4, 4, 4, 4, 4, 5, 7, 8, 9, 11, 12, 13, 14, 16, 17, 18, 19, 21, 22, 23, 24, 25,
   26, 28, 29, 30, 31, 32, 33, 35, 36, 37, 38, 39, 40, 41, 43, 44, 45, 46, 47, 48, 49, 50, 52,
   53, 54, 55, 56, 57, 58, 59, 61, 62, 63, 64, 65, 66, 67, 68, 69, 70, 72, 73, 74, 75, 76, 77,
   78, 79, 80, 81, 83, 84, 85, 86, 87, 88, 89, 90, 91, 92, 93, 95, 96, 97, 98, 99, 100, 101, 102,
   103, 104, 105, 106, 108, 109, 110, 111, 112, 113, 114]

def criticalValueTableP020 : List Threshold := table
  [2, 3, 4, 4, 4, 4, 4, 4, 4, 6, 9, 12, 14, 17, 19, 21, 24, 26, 28, 31, 33, 35, 38, 40, 42, 44,
   47, 49, 51, 53, 55, 58, 60, 62, 64, 67, 69, 71, 73, 75, 77, 80, 82, 84, 86, 88, 90, 93, 95,
   97, 99, 101, 103, 106, 108, 110, 112, 114, 116, 119, 121, 123, 125, 127, 129, 131, 133, 136,
   138, 140, 142, 144, 146, 148, 151, 153, 155, 157, 159, 161, 163, 165, 168, 170, 172, 174, 176,
   178, 180, 182, 184, 187, 189, 191, 193, 195, 197, 199, 201, 203, 206, 208, 210, 212, 214, 216,
   218]

def criticalValueTableP030 : List Threshold := table
  [2, 3, 4, 4, 4, 4, 4, 4, 5, 9, 13, 16, 20, 23, 27, 30, 34, 37, 40, 44, 47, 50, 54, 57, 60, 64,
   67, 70, 73, 77, 80, 83, 86, 90, 93, 96, 99, 103, 106, 109, 112, 115, 119, 122, 125, 128, 131,
   135, 138, 141, 144, 147, 150, 154, 157, 160, 163, 166, 170, 173, 176, 179, 182, 185, 188, 192,
   195, 198, 201, 204, 207, 211, 214, 217, 220, 223, 226, 229, 233, 236, 239, 242, 245, 248, 251,
   255, 258, 261, 264, 267, 270, 273, 276, 280, 283, 286, 289, 292, 295, 298, 301, 305, 308, 311,
   314, 317, 320]

def criticalValueTableP040 : List Threshold := table
  [2, 3, 4, 4, 4, 4, 5, 6, 6, 11, 16, 21, 25, 30, 34, 39, 43, 48, 52, 56, 61, 65, 69, 74, 78, 82,
   87, 91, 95, 99, 104, 108, 112, 116, 121, 125, 129, 133, 138, 142, 146, 150, 155, 159, 163,
   167, 171, 176, 180, 184, 188, 192, 197, 201, 205, 209, 213, 218, 222, 226, 230, 234, 238, 243,
   247, 251, 255, 259, 263, 268, 272, 276, 280, 284, 288, 293, 297, 301, 305, 309, 313, 317, 322,
   326, 330, 334, 338, 342, 346, 351, 355, 359, 363, 367, 371, 375, 380, 384, 388, 392, 396, 400,
   404, 408, 413, 417, 421]

def criticalValueTableP050 : List Threshold := table
  [2, 3, 4, 4, 5, 5, 6, 6, 7, 13, 19, 25, 30, 36, 41, 47, 52, 58, 63, 69, 74, 79, 85, 90, 95,
   101, 106, 111, 116, 122, 127, 132, 138, 143, 148, 153, 159, 164, 169, 174, 179, 185, 190, 195,
   200, 206, 211, 216, 221, 226, 232, 237, 242, 247, 252, 258, 263, 268, 273, 278, 283, 289, 294,
   299, 304, 309, 314, 320, 325, 330, 335, 340, 345, 351, 356, 361, 366, 371, 376, 382, 387, 392,
   397, 402, 407, 412, 418, 423, 428, 433, 438, 443, 448, 454, 459, 464, 469, 474, 479, 484, 490,
   495, 500, 505, 510, 515, 520]

def criticalValueTables : ℕ → Option (List Threshold)
  | 50 => some criticalValueTableP005
  | 100 => some criticalValueTableP010
  | 200 => some criticalValueTableP020
  | 300 => some criticalValueTableP030
  | 400 => some criticalValueTableP040
  | 500 => some criticalValueTableP050
  | _ => none

def p0Multipliers : ℕ → Option (ℤ × ℤ)
  | 50 => some (1, 20)
  | 100 => some (1, 10)
  | 200 => some (1, 5)
  | 300 => some (3, 10)
  | 400 => some (2, 5)
  | 500 => some (1, 2)
  | _ => none

inductive StatError where
  | invalidInput
  | unsupportedP0
  | unsupportedLargeN
  deriving DecidableEq

def row (table : List Threshold) (i : ℕ) : Threshold := table.getD i ⟨0, 0⟩

/-- The first row above the number of requests. -/
def rowAbove (table : List Threshold) (nTotal : ℤ) : ℕ :=
  Search.search table.length fun i => nTotal < (row table i).total

def missedStatTestLookupWithP0 (nMissed nTotal : ℤ) (p0Permille : ℕ) : Except StatError Bool :=
  if nTotal = 0 then .ok true
  else if nMissed < 0 ∨ nTotal < 0 ∨ nTotal < nMissed then .error .invalidInput
  else match criticalValueTables p0Permille with
    | none => .error .unsupportedP0
    | some table =>
      if maxTableN < nTotal then
        match p0Multipliers p0Permille with
        | none => .error .unsupportedLargeN
        | some (num, den) => .ok (i64 (nMissed * den) ≤ i64 (nTotal * num))
      else if rowAbove table nTotal = 0 then .ok true
      else .ok (nMissed ≤ (row table (rowAbove table nTotal - 1)).criticalMisses)

def Accepts (p0Permille : ℕ) (nMissed nTotal : ℤ) : Prop :=
  missedStatTestLookupWithP0 nMissed nTotal p0Permille = .ok true

instance (p0Permille : ℕ) (nMissed nTotal : ℤ) : Decidable (Accepts p0Permille nMissed nTotal) :=
  inferInstanceAs (Decidable (_ = _))

structure Sorted (table : List Threshold) : Prop where
  rows : table.Pairwise fun a b => a.total ≤ b.total ∧ a.criticalMisses ≤ b.criticalMisses
  nonempty : 0 < table.length
  first : (row table 0).total = 2 ∧ (row table 0).criticalMisses = 2

theorem supported {p0 : ℕ} {num den : ℤ} (h : p0Multipliers p0 = some (num, den)) :
    0 < num ∧ 0 < den ∧ ∃ table, criticalValueTables p0 = some table ∧ Sorted table := by
  unfold p0Multipliers at h
  split at h
  case h_7 => nomatch h
  all_goals
    cases h
    exact ⟨by decide, by decide, _, rfl, by decide +kernel, by decide, by decide⟩

variable {table : List Threshold} {m n num den : ℤ} {p0 : ℕ}

theorem Sorted.row_le (h : Sorted table) {i j : ℕ} (hij : i ≤ j) (hj : j < table.length) :
    (row table i).total ≤ (row table j).total ∧
      (row table i).criticalMisses ≤ (row table j).criticalMisses := by
  rcases hij.eq_or_lt with rfl | hlt
  · exact ⟨le_rfl, le_rfl⟩
  · have hrows := List.pairwise_iff_getElem.mp h.rows i j (by omega) hj hlt
    rwa [← List.getD_eq_getElem _ ⟨0, 0⟩, ← List.getD_eq_getElem _ ⟨0, 0⟩] at hrows

theorem Sorted.above (h : Sorted table) (n : ℤ) (a b : ℕ) (hab : a ≤ b) (hb : b < table.length)
    (ha : decide (n < (row table a).total) = true) : decide (n < (row table b).total) = true :=
  decide_eq_true ((of_decide_eq_true ha).trans_le (h.row_le hab hb).1)

/-- The bound that the table gives. -/
def bound (table : List Threshold) (n : ℤ) : ℤ := (row table (rowAbove table n - 1)).criticalMisses

theorem Sorted.bound_mono (h : Sorted table) {n n' : ℤ} (hn : n ≤ n') : bound table n ≤ bound table n' := by
  have hrow : rowAbove table n ≤ rowAbove table n' :=
    Search.search_le_search (h.above n) (h.above n') fun _ _ habove =>
      decide_eq_true (hn.trans_lt (of_decide_eq_true habove))
  have hlast : rowAbove table n' ≤ table.length := (Search.search_spec (h.above n')).1
  have hpos := h.nonempty
  exact (h.row_le (Nat.sub_le_sub_right hrow 1) (by omega)).2

theorem accepts_iff_bound (htable : criticalValueTables p0 = some table) (h : Sorted table)
    (hm : 0 ≤ m) (hmn : m ≤ n) (hn : n ≤ maxTableN) : Accepts p0 m n ↔ m ≤ bound table n := by
  -- no row is at or below the number of requests: there is at most one
  have hfew (hrow : rowAbove table n = 0) : m ≤ bound table n := by
    have hlt := of_decide_eq_true (((Search.search_spec (h.above n)).2 0 h.nonempty).mpr hrow.le)
    rw [bound, hrow, h.first.2]
    have htwo := h.first.1
    omega
  unfold Accepts missedStatTestLookupWithP0
  split
  next hzero =>
    refine iff_of_true rfl (hfew (Nat.le_zero.mp ?_))
    refine ((Search.search_spec (h.above n)).2 0 h.nonempty).mp (decide_eq_true ?_)
    rw [h.first.1]
    omega
  rw [if_neg (by omega), htable]
  simp only [if_neg (not_lt.mpr hn)]
  split
  next hrow => exact iff_of_true rfl (hfew hrow)
  · simp [bound]

theorem accepts_iff_share (hp0 : p0Multipliers p0 = some (num, den)) (hm : 0 ≤ m) (hmn : m ≤ n)
    (hn : maxTableN < n) (hfits : m * den < 2 ^ 63) (hfits' : n * num < 2 ^ 63) :
    Accepts p0 m n ↔ m * den ≤ n * num := by
  obtain ⟨hnum, hden, table, htable, -⟩ := supported hp0
  have hpos : 0 < n := lt_trans (by decide) hn
  have hmisses := mul_nonneg hm hden.le
  have hshare := mul_nonneg hpos.le hnum.le
  unfold Accepts missedStatTestLookupWithP0
  rw [if_neg hpos.ne', if_neg (by omega), htable]
  simp only [if_pos hn, hp0]
  rw [i64_of_fits (by omega) (by omega), i64_of_fits (by omega) (by omega)]
  simp

/-- **The downtime test is monotone** in the misses, and in the requests but for the end of the
table: an accepted number of misses is refused with more requests exactly when the number of
requests passes 990 and the misses exceed their share.  Products that overflow an
`int64` are left out. -/
theorem accepts_mono (hp0 : p0Multipliers p0 = some (num, den)) (hm : 0 ≤ m) (hmn : m ≤ n)
    (hfits : m * den < 2 ^ 63) (hfits' : n * num < 2 ^ 63) (h : Accepts p0 m n) :
    (∀ m', 0 ≤ m' → m' ≤ m → Accepts p0 m' n) ∧
      ∀ n', n ≤ n' → n' * num < 2 ^ 63 →
        (Accepts p0 m n' ↔ ¬ (n ≤ maxTableN ∧ maxTableN < n' ∧ n' * num < m * den)) := by
  obtain ⟨hnum, hden, table, htable, hsorted⟩ := supported hp0
  rcases le_or_gt n maxTableN with hn | hn
  · rw [accepts_iff_bound htable hsorted hm hmn hn] at h
    refine ⟨fun m' hm' hle => ?_, fun n' hnn hfits' => ?_⟩
    · exact (accepts_iff_bound htable hsorted hm' (hle.trans hmn) hn).mpr (hle.trans h)
    rcases le_or_gt n' maxTableN with hn' | hn'
    · rw [accepts_iff_bound htable hsorted hm (hmn.trans hnn) hn']
      exact iff_of_true (h.trans (hsorted.bound_mono hnn)) fun hno => hno.2.1.not_ge hn'
    · rw [accepts_iff_share hp0 hm (hmn.trans hnn) hn' hfits hfits']
      simp [hn, hn']
  · rw [accepts_iff_share hp0 hm hmn hn hfits hfits'] at h
    refine ⟨fun m' hm' hle => ?_, fun n' hnn hfits' => ?_⟩
    · have hfewer := mul_le_mul_of_nonneg_right hle hden.le
      rw [accepts_iff_share hp0 hm' (hle.trans hmn) hn (hfewer.trans_lt hfits) hfits']
      exact hfewer.trans h
    · rw [accepts_iff_share hp0 hm (hmn.trans hnn) (hn.trans_le hnn) hfits hfits']
      exact iff_of_true (h.trans (mul_le_mul_of_nonneg_right hnn hnum.le)) fun hno => hno.1.not_gt hn

theorem accepts_mono_ten : Accepts 100 4 20 ∧ Accepts 100 3 20 ∧ Accepts 100 4 991 := by
  have haccepted : Accepts 100 4 20 := by decide +kernel
  have hp0 : p0Multipliers 100 = some (1, 10) := rfl
  obtain ⟨hfewer, hmore⟩ := accepts_mono hp0 (by decide) (by decide) (by decide) (by decide)
    haccepted
  exact ⟨haccepted, hfewer 3 (by decide) (by decide), (hmore 991 (by decide) (by decide)).mpr (by decide)⟩

/-- With 114 misses of 990 the test is passed, and not with one more request that was served.  Numbers
that overflow are passed with more misses and not with fewer. -/
theorem served_request_punished : Accepts 100 114 990 ∧ ¬ Accepts 100 114 991 ∧
    Accepts 500 (2 ^ 62) (2 ^ 62) ∧ ¬ Accepts 500 (2 ^ 62 - 1) (2 ^ 62) := by
  decide +kernel

end DowntimeTest
