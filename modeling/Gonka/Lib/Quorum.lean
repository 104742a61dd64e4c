/-
Quorums of more than two thirds.

Main result: `equivocators`.
-/
import Mathlib.Data.Finset.Card
import Mathlib.Tactic.Linarith

namespace Quorum

variable {α : Type*} [DecidableEq α] {U A B : Finset α}

def threshold (m : ℕ) : ℕ := 2 * m / 3 + 1

theorem lt_three_mul_card_inter (hA : A ⊆ U) (hB : B ⊆ U) (hcardA : threshold U.card ≤ A.card)
    (hcardB : threshold U.card ≤ B.card) : U.card < 3 * (A ∩ B).card := by
  have hunion : (A ∪ B).card ≤ U.card := Finset.card_le_card (Finset.union_subset hA hB)
  have hsum := Finset.card_union_add_card_inter A B
  unfold threshold at hcardA hcardB
  omega

/-- **Two quorums for two values have equivocators.**  `vouches` and `vouches'` are what
the one and the other observer have seen. -/
theorem equivocators {ν : Type*} {vouches vouches' : α → ν → Prop} {v v' : ν} (hne : v ≠ v')
    (hA : A ⊆ U) (hB : B ⊆ U) (hcardA : threshold U.card ≤ A.card)
    (hcardB : threshold U.card ≤ B.card) (hv : ∀ a ∈ A, vouches a v)
    (hv' : ∀ b ∈ B, vouches' b v') :
    ∃ E ⊆ U, U.card < 3 * E.card ∧ ∀ e ∈ E, ∃ v v', v ≠ v' ∧ vouches e v ∧ vouches' e v' := by
  refine ⟨A ∩ B, Finset.inter_subset_left.trans hA,
    lt_three_mul_card_inter hA hB hcardA hcardB, fun e he => ?_⟩
  obtain ⟨heA, heB⟩ := Finset.mem_inter.mp he
  exact ⟨v, v', hne, hv e heA, hv' e heB⟩

end Quorum
