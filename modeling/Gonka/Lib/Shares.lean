/-
Shares that are rounded down.

A whole is divided by weights, and every share is rounded down.

* **`sum_floor_le`** — the rounded shares of the parts add up to at most the rounded share
  of their sum.
-/
import Mathlib.Algebra.BigOperators.Group.List.Basic
import Mathlib.Algebra.Order.Ring.Nat
import Mathlib.Tactic.Common

namespace Shares

variable {α : Type*}

theorem sum_floor_le (f : α → ℕ) (num den : ℕ) (l : List α) :
    (l.map fun a => f a * num / den).sum ≤ (l.map f).sum * num / den := by
  induction l with
  | nil => exact Nat.zero_le _
  | cons _ _ ih =>
    rw [List.map_cons, List.sum_cons, List.map_cons, List.sum_cons, Nat.add_mul]
    exact (Nat.add_le_add_left ih _).trans Nat.div_add_div_le_add_div

theorem sum_share_le {f : α → ℕ} {l : List α} {total : ℕ} (h : (l.map f).sum ≤ total) (whole : ℕ) :
    (l.map fun a => f a * whole / total).sum ≤ whole := by
  calc (l.map fun a => f a * whole / total).sum
      ≤ (l.map f).sum * whole / total := sum_floor_le f whole total l
    _ ≤ total * whole / total := Nat.div_le_div_right (Nat.mul_le_mul_right whole h)
    _ ≤ whole := Nat.div_le_of_le_mul (Nat.le_refl _)

end Shares
