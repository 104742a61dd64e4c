/-
Weights by position, and the weight of a selection of positions.

Main result: `quorum_of_majority`.
-/
import Mathlib.Algebra.Order.BigOperators.Group.List
import Mathlib.Tactic.Linarith

namespace Weights

open List

/-- The weight of the positions that are selected. -/
def weigh (ws : List ℕ) (sel : ℕ → Bool) : ℕ :=
  (ws.zipIdx.map fun e => if sel e.2 then e.1 else 0).sum

variable {ws : List ℕ} {sel sel' : ℕ → Bool}

theorem weigh_mono (h : ∀ i, sel i → sel' i) : weigh ws sel ≤ weigh ws sel' := by
  refine sum_le_sum ?_
  intro e _
  by_cases hs : sel e.2
  · rw [if_pos hs, if_pos (h e.2 hs)]
  · rw [if_neg hs]
    exact Nat.zero_le _

theorem weigh_true (ws : List ℕ) : weigh ws (fun _ => true) = ws.sum := by
  unfold weigh
  simp only [if_true]
  rw [zipIdx_map_fst]

theorem weigh_le (ws : List ℕ) (sel : ℕ → Bool) : weigh ws sel ≤ ws.sum := by
  rw [← weigh_true]
  exact weigh_mono fun _ _ => rfl

theorem weigh_split (ws : List ℕ) (sel part : ℕ → Bool) :
    weigh ws sel = weigh ws (fun i => sel i && part i) + weigh ws (fun i => sel i && !part i) := by
  unfold weigh
  induction ws.zipIdx with
  | nil => rfl
  | cons e l ih =>
    have hone : (if sel e.2 then e.1 else 0) = (if sel e.2 && part e.2 then e.1 else 0) +
        if sel e.2 && !part e.2 then e.1 else 0 := by
      by_cases hs : sel e.2 <;> by_cases hp : part e.2 <;> simp [hs, hp]
    simp only [map_cons, sum_cons] at ih ⊢
    omega

theorem weigh_add_le (h : ∀ i, sel i → sel' i = false) : weigh ws sel + weigh ws sel' ≤ ws.sum := by
  rw [← weigh_true, weigh_split ws (fun _ => true) sel]
  have hrest : weigh ws sel' ≤ weigh ws fun i => true && !sel i := by
    refine weigh_mono ?_
    intro i hi
    cases hs : sel i with
    | false => rfl
    | true => rw [h i hs] at hi; nomatch hi
  have hself : weigh ws sel ≤ weigh ws fun i => true && sel i := weigh_mono fun _ hi => hi
  omega

theorem weigh_zipIdx_single (ws : List ℕ) (n i : ℕ) :
    ((ws.zipIdx n).map fun e => if e.2 = i then e.1 else 0).sum =
      if n ≤ i then ws.getD (i - n) 0 else 0 := by
  induction ws generalizing n with
  | nil => simp
  | cons _ _ ih =>
    rw [zipIdx_cons, map_cons, sum_cons, ih]
    rcases Nat.lt_trichotomy n i with hlt | rfl | hgt
    · rw [if_neg hlt.ne, if_pos (by omega), if_pos hlt.le, show i - n = i - (n + 1) + 1 by omega]
      simp
    · simp
    · rw [if_neg hgt.ne', if_neg (by omega), if_neg (by omega)]

theorem weigh_erase {i : ℕ} (hi : sel i) :
    weigh ws sel = ws.getD i 0 + weigh ws (fun j => sel j && !decide (j = i)) := by
  rw [weigh_split ws sel (fun j => decide (j = i))]
  congr 1
  have hsingle := weigh_zipIdx_single ws 0 i
  rw [if_pos (Nat.zero_le i), Nat.sub_zero] at hsingle
  rw [← hsingle, weigh]
  refine congrArg List.sum (map_congr_left ?_)
  intro e _
  by_cases he : e.2 = i
  · simp [he, hi]
  · simp [he]

/-- **A majority stays one** when others are taken out of the whole. -/
theorem quorum_of_majority {total : ℕ} (htotal : ws.sum = total) (h : total < 2 * weigh ws sel)
    (hout : ∀ i, sel i → sel' i = false) :
    0 < total - weigh ws sel' ∧ (total - weigh ws sel') / 2 + 1 ≤ weigh ws sel := by
  have hle : weigh ws sel + weigh ws sel' ≤ ws.sum := weigh_add_le hout
  omega

end Weights
