/-
Binary search for the first number that has a property, as `sort.Search` does it.
-/
import Mathlib.Data.Nat.Notation

namespace Search

/-- The loop, between `i` and `j`. -/
def loop (f : ℕ → Bool) : ℕ → ℕ → ℕ → ℕ
  | 0, i, _ => i
  | fuel + 1, i, j =>
    if i < j then
      let h := (i + j) / 2
      if !f h then loop f fuel (h + 1) j else loop f fuel i h
    else i

def search (n : ℕ) (f : ℕ → Bool) : ℕ := loop f n 0 n

variable {n : ℕ} {f g : ℕ → Bool}

theorem first_iff {i k : ℕ} (hbelow : ∀ k < i, ¬ f k) (habove : ∀ k, i ≤ k → k < n → f k) (hk : k < n) :
    f k ↔ i ≤ k :=
  ⟨fun h => Nat.le_of_not_lt fun hlt => hbelow k hlt h, fun h => habove k h hk⟩

/-- Below `i` the property fails, and from `j` on it holds. -/
theorem loop_spec (hf : ∀ a b, a ≤ b → b < n → f a → f b) {fuel i j : ℕ} (hij : i ≤ j) (hj : j ≤ n)
    (hfuel : j - i ≤ fuel) (hbelow : ∀ k < i, ¬ f k) (habove : ∀ k, j ≤ k → k < n → f k) :
    loop f fuel i j ≤ n ∧ ∀ k < n, f k ↔ loop f fuel i j ≤ k := by
  induction fuel generalizing i j with
  | zero =>
    obtain rfl : i = j := by omega
    exact ⟨hj, fun k hk => first_iff hbelow habove hk⟩
  | succ fuel ih =>
    unfold loop
    split
    next hlt =>
      dsimp only
      split
      next hmid =>
        refine ih (by omega) hj (by omega) (fun k hk h => ?_) habove
        exact absurd (hf k _ (Nat.le_of_lt_succ hk) (by omega) h) (by simpa using hmid)
      next hmid =>
        refine ih (by omega) (by omega) (by omega) hbelow fun k hk hkn => ?_
        exact hf _ k hk hkn (by simpa using hmid)
    next hge =>
      obtain rfl : i = j := by omega
      exact ⟨hj, fun k hk => first_iff hbelow habove hk⟩

/-- **The search finds the first** of a property that stays. -/
theorem search_spec (hf : ∀ a b, a ≤ b → b < n → f a → f b) :
    search n f ≤ n ∧ ∀ k < n, f k ↔ search n f ≤ k :=
  loop_spec hf (Nat.zero_le n) (Nat.le_refl n) (by omega) (fun k hk => absurd hk (Nat.not_lt_zero k))
    fun k hk hkn => absurd hk (Nat.not_le.mpr hkn)

theorem search_le_search (hf : ∀ a b, a ≤ b → b < n → f a → f b)
    (hg : ∀ a b, a ≤ b → b < n → g a → g b) (h : ∀ k < n, g k → f k) : search n f ≤ search n g := by
  obtain ⟨-, hfirst⟩ := search_spec hf
  obtain ⟨hle, hfirst'⟩ := search_spec hg
  rcases Nat.lt_or_ge (search n g) n with hlt | hge
  · exact (hfirst _ hlt).mp (h _ hlt ((hfirst' _ hlt).mpr (Nat.le_refl _)))
  · exact Nat.le_trans (search_spec hf).1 hge

end Search
