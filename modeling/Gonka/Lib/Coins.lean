/-
Coins of several denominations: amounts by denomination, none of them zero.

Main result: `Coins.get?_nonzero`.
-/
import Gonka.Lib.OrdMap

structure Coins (δ : Type*) [LinearOrder δ] where
  amounts : OrdMap δ ℕ
  positive : ∀ d n, amounts.get? d = some n → 0 < n

namespace Coins

open OrdMap

variable {δ : Type*} [LinearOrder δ]

def amountOf (c : Coins δ) (d : δ) : ℕ := (c.amounts.get? d).getD 0

def denoms (c : Coins δ) : List δ := c.amounts.keys

/-- The amounts that are not zero. -/
def nonzero (f : δ → ℕ) (ds : List δ) : OrdMap δ ℕ :=
  ds.foldl (fun m d => if f d = 0 then m else m.insert d (f d)) ∅

theorem get?_foldl_nonzero (f : δ → ℕ) (ds : List δ) (m : OrdMap δ ℕ) (d : δ) :
    (ds.foldl (fun m d => if f d = 0 then m else m.insert d (f d)) m).get? d =
      if d ∈ ds ∧ f d ≠ 0 then some (f d) else m.get? d := by
  induction ds generalizing m with
  | nil => simp
  | cons d' ds ih =>
    rw [List.foldl_cons, ih]
    by_cases hd : d ∈ ds ∧ f d ≠ 0
    · rw [if_pos hd, if_pos ⟨List.mem_cons_of_mem d' hd.1, hd.2⟩]
    rw [if_neg hd]
    by_cases hd' : d = d'
    · subst hd'
      by_cases hf : f d = 0
      · simp [hf]
      · simp [hf]
    · have hmem : ¬ (d ∈ d' :: ds ∧ f d ≠ 0) := by
        rintro ⟨hmem, hf⟩
        rcases List.mem_cons.mp hmem with h | h
        · exact hd' h
        · exact hd ⟨h, hf⟩
      split
      · rfl
      · rw [get?_insert_of_ne _ _ hd']

theorem get?_nonzero (f : δ → ℕ) (ds : List δ) (d : δ) :
    (nonzero f ds).get? d = if d ∈ ds ∧ f d ≠ 0 then some (f d) else none :=
  get?_foldl_nonzero f ds ∅ d

/-- Coins of these denominations in these amounts. -/
def ofAmounts (ds : List δ) (f : δ → ℕ) : Coins δ where
  amounts := nonzero f ds
  positive := by
    intro d n h
    rw [get?_nonzero] at h
    split at h
    · rename_i hd
      cases h
      exact Nat.pos_of_ne_zero hd.2
    · cases h

def coin (d : δ) (n : ℕ) : Coins δ := ofAmounts [d] fun _ => n

end Coins
