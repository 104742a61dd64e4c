/-
Delegation moves reward weight and never creates any.

A transfer is computed from the weights before all transfers, and cut to what its sender has when
its turn comes.  That includes what the sender has received by then, so that it can pass it on.

Main results: `delegation_adjusts`, `received_weight_passed_on`.
-/
import Gonka.Chain.RewardAccounting

namespace Rewards

open OrdMap Option

variable {base : OrdMap ℕ ℕ} {t t₁ t₂ : DelegationRewardTransfer}
  {transfers : List DelegationRewardTransfer} {amount a weight : ℕ}

/-- The product with the weight fits an `int64`. -/
def ShareFits (share : Option ℤ) (weight : ℕ) : Prop :=
  ∀ s ∈ share, (truncateInt64 (s * weight)).isSome

instance (share : Option ℤ) (weight : ℕ) : Decidable (ShareFits share weight) :=
  inferInstanceAs (Decidable (∀ s ∈ share, _))

theorem ShareFits.share_ok {share : Option ℤ} (h : ShareFits share weight) :
    ∃ amount, delegationShareOfWeight share weight = some amount := by
  unfold delegationShareOfWeight
  cases share with
  | none => exact ⟨0, rfl⟩
  | some s =>
    obtain ⟨q, hq⟩ := isSome_iff_exists.mp (h s rfl)
    dsimp only
    split
    · exact ⟨0, rfl⟩
    · exact ⟨q.toNat, by rw [hq]; rfl⟩

/-- What the transfer asks for, computed from the weights before all transfers. -/
def requested (base : OrdMap ℕ ℕ) (t : DelegationRewardTransfer) : ℕ :=
  if t.sender = 0 then 0 else (delegationShareOfWeight t.share (weightOf base t.sender)).getD 0

def takenBy (base weights : OrdMap ℕ ℕ) (t : DelegationRewardTransfer) : ℕ :=
  min (requested base t) (weightOf weights t.sender)

/-- What is left of the weight of `a` when the sender has given an amount. -/
def leftOver (t : DelegationRewardTransfer) (amount a weight : ℕ) : ℕ :=
  if a = t.sender then weight - amount else weight

/-- The weight of `a` after the transfer of an amount. -/
def shifted (t : DelegationRewardTransfer) (amount a weight : ℕ) : ℕ :=
  let left := leftOver t amount a weight
  if amount ≠ 0 ∧ a = t.receiver ∧ a ≠ 0 ∧ 0 < left then min maxUint64 (left + amount) else left

@[simp] theorem shifted_zero : shifted t 0 a = id := by
  funext weight
  simp [shifted, leftOver]

@[simp] theorem shifted_of_zero : shifted t amount a 0 = 0 := by
  simp [shifted, leftOver]

theorem transfer_spec (weights : OrdMap ℕ ℕ) (h : ShareFits t.share (weightOf base t.sender)) :
    ∃ weights', applyDelegationRewardTransfer base weights t = some weights' ∧
      ∀ a, weights'.get? a = (weights.get? a).map (shifted t (takenBy base weights t) a) := by
  obtain ⟨share, hshare⟩ := h.share_ok
  unfold applyDelegationRewardTransfer takenBy requested
  rw [hshare]
  cases hget : weights.get? t.sender with
  | none => exact ⟨weights, rfl, fun a => by simp [weightOf, hget]⟩
  | some weight =>
    by_cases hsender : t.sender = 0
    · exact ⟨weights, by simp [hsender], fun a => by simp [hsender]⟩
    have hweight : weightOf weights t.sender = weight := by rw [weightOf, hget, getD_some]
    simp only [hweight, hsender, if_false, map_some, getD_some]
    generalize min share weight = amount
    by_cases hamount : amount = 0
    · exact ⟨weights, by simp [hamount], fun a => by simp [hamount]⟩
    refine ⟨_, rfl, fun a => ?_⟩
    have hleft : (weights.insert t.sender (weight - amount)).get? a =
        (weights.get? a).map (leftOver t amount a) := by
      rw [get?_insert]
      split
      · next hs =>
        subst hs
        simp [leftOver, hget]
      · next hs => cases weights.get? a <;> simp [leftOver, hs]
    rw [if_neg hamount]
    generalize weights.insert t.sender (weight - amount) = left at hleft
    by_cases hr : a = t.receiver
    · subst hr
      cases hw : weights.get? t.receiver with
      | none => simp [weightOf, hleft, hw]
      | some =>
        simp only [weightOf, hleft, hw, map_some, getD_some, shifted]
        split
        · next hpos => simp [hamount, hpos]
        · next hpos => simp [hleft, hw, hamount, hpos]
    · have hsame : shifted t amount a = leftOver t amount a := by
        funext w
        simp [shifted, hr]
      rw [hsame, ← hleft]
      split
      · exact get?_insert_of_ne _ _ hr
      · rfl

theorem weightOf_shifted {weights weights' : OrdMap ℕ ℕ}
    (hget : ∀ a, weights'.get? a = (weights.get? a).map (shifted t amount a)) (a : ℕ) :
    weightOf weights' a = shifted t amount a (weightOf weights a) := by
  unfold weightOf
  rw [hget]
  cases weights.get? a with
  | none => exact shifted_of_zero.symm
  | some => rfl

/-- What `a` sends in all. -/
def sentBy (base : OrdMap ℕ ℕ) (a : ℕ) : List DelegationRewardTransfer → OrdMap ℕ ℕ → ℕ
  | [], _ => 0
  | t :: rest, weights => (if a = t.sender then takenBy base weights t else 0) +
      (applyDelegationRewardTransfer base weights t).elim 0 (sentBy base a rest)

/-- What `a` is asked for is its own: the requests are within its weight, or none of them comes
after a transfer to it. -/
def SendsOwn (base : OrdMap ℕ ℕ) (a : ℕ) (transfers : List DelegationRewardTransfer) : Prop :=
  ((transfers.filter (·.sender = a)).map (requested base)).sum ≤ weightOf base a ∨
    transfers.Pairwise fun t t' => ¬ (t.receiver = a ∧ 0 < requested base t ∧
      t'.sender = a ∧ 0 < requested base t')

instance : Decidable (SendsOwn base a transfers) := inferInstanceAs (Decidable (_ ∨ _))

theorem transfers_spec (weights : OrdMap ℕ ℕ)
    (hfits : ∀ t ∈ transfers, ShareFits t.share (weightOf base t.sender)) :
    ∃ result, transfers.foldlM (applyDelegationRewardTransfer base) weights = some result ∧
      (∀ a, (result.get? a).isSome = (weights.get? a).isSome) ∧
      ∀ a, weightOf weights a = 0 → weightOf result a = 0 := by
  induction transfers generalizing weights with
  | nil => exact ⟨weights, rfl, fun _ => rfl, fun _ h => h⟩
  | cons t _ ih =>
    obtain ⟨w₁, hstep, hget⟩ := transfer_spec weights (hfits t List.mem_cons_self)
    obtain ⟨result, hrun, hkeys, hzero⟩ :=
      ih w₁ fun t' ht' => hfits t' (List.mem_cons_of_mem t ht')
    refine ⟨result, ?_, fun a => ?_, fun a ha => ?_⟩
    · rw [List.foldlM_cons, hstep]
      exact hrun
    · rw [hkeys, hget, isSome_map]
    · exact hzero a (by rw [weightOf_shifted hget, ha, shifted_of_zero])

/-- The requests bound what is sent. -/
theorem sentBy_le_requested (transfers : List DelegationRewardTransfer) (weights : OrdMap ℕ ℕ) :
    sentBy base a transfers weights ≤
      ((transfers.filter (·.sender = a)).map (requested base)).sum := by
  induction transfers generalizing weights with
  | nil => exact Nat.le_refl _
  | cons t transfers ih =>
    have hrest : (applyDelegationRewardTransfer base weights t).elim 0 (sentBy base a transfers) ≤
        ((transfers.filter (·.sender = a)).map (requested base)).sum := by
      cases applyDelegationRewardTransfer base weights t with
      | none => exact Nat.zero_le _
      | some w => exact ih w
    have htaken : takenBy base weights t ≤ requested base t := Nat.min_le_left _ _
    unfold sentBy
    by_cases hs : t.sender = a
    · rw [if_pos hs.symm, List.filter_cons_of_pos (by simpa using hs), List.map_cons, List.sum_cons]
      omega
    · rw [if_neg (Ne.symm hs), List.filter_cons_of_neg (by simpa using hs)]
      omega

/-- Who is asked for nothing after a transfer to it sends what it has, at most. -/
theorem sentBy_le_of_pairwise {weights : OrdMap ℕ ℕ}
    (hfits : ∀ t ∈ transfers, ShareFits t.share (weightOf base t.sender))
    (h : transfers.Pairwise fun t t' => ¬ (t.receiver = a ∧ 0 < requested base t ∧
      t'.sender = a ∧ 0 < requested base t')) :
    sentBy base a transfers weights ≤ weightOf weights a := by
  induction transfers generalizing weights with
  | nil => exact Nat.zero_le _
  | cons t transfers ih =>
    obtain ⟨hfirst, hrest⟩ := List.pairwise_cons.mp h
    obtain ⟨w₁, hstep, hget⟩ := transfer_spec weights (hfits t List.mem_cons_self)
    have hnext : sentBy base a transfers w₁ ≤ weightOf w₁ a :=
      ih (fun t' ht' => hfits t' (List.mem_cons_of_mem t ht')) hrest
    have htaken : takenBy base weights t ≤ requested base t ∧
      takenBy base weights t ≤ weightOf weights t.sender :=
      ⟨Nat.min_le_left _ _, Nat.min_le_right _ _⟩
    rw [weightOf_shifted hget] at hnext
    unfold sentBy
    rw [hstep, elim_some]
    by_cases hto : t.receiver = a ∧ 0 < requested base t
    · -- what follows asks `a` for nothing
      have hnone : sentBy base a transfers w₁ = 0 := by
        refine Nat.le_zero.mp ((sentBy_le_requested transfers w₁).trans_eq ?_)
        refine List.sum_eq_zero (List.forall_mem_map.mpr fun t' ht' => ?_)
        obtain ⟨hin, hs⟩ := List.mem_filter.mp ht'
        by_contra hpos
        exact hfirst t' hin ⟨hto.1, hto.2, of_decide_eq_true hs, Nat.pos_of_ne_zero hpos⟩
      rw [hnone]
      split
      · next hs =>
        subst hs
        omega
      · omega
    · have hkept : shifted t (takenBy base weights t) a (weightOf weights a) =
          leftOver t (takenBy base weights t) a (weightOf weights a) := by
        unfold shifted
        refine if_neg fun hgets => hto ⟨hgets.2.1.symm, ?_⟩
        omega
      rw [hkept] at hnext
      unfold leftOver at hnext
      split
      · next hs =>
        rw [if_pos hs] at hnext
        subst hs
        omega
      · next hs =>
        rw [if_neg hs] at hnext
        omega

theorem sentBy_le (hfits : ∀ t ∈ transfers, ShareFits t.share (weightOf base t.sender))
    (h : SendsOwn base a transfers) : sentBy base a transfers base ≤ weightOf base a := by
  rcases h with hsum | hpairwise
  · exact (sentBy_le_requested transfers base).trans hsum
  · exact sentBy_le_of_pairwise hfits hpairwise

theorem transfer_comm (weights : OrdMap ℕ ℕ) (hsenders : t₁.sender ≠ t₂.sender)
    (h₁ : t₁.receiver ≠ t₂.sender) (h₂ : t₂.receiver ≠ t₁.sender)
    (hfits₁ : ShareFits t₁.share (weightOf base t₁.sender))
    (hfits₂ : ShareFits t₂.share (weightOf base t₂.sender)) :
    (applyDelegationRewardTransfer base weights t₁).bind (applyDelegationRewardTransfer base · t₂) =
      (applyDelegationRewardTransfer base weights t₂).bind
        (applyDelegationRewardTransfer base · t₁) := by
  -- neither changes what the other takes
  have hkeeps : ∀ {t t' : DelegationRewardTransfer} {w}, t'.sender ≠ t.sender →
      t.receiver ≠ t'.sender →
      (∀ a, w.get? a = (weights.get? a).map (shifted t (takenBy base weights t) a)) →
      takenBy base w t' = takenBy base weights t' := by
    intro t t' w hne hr hget
    have hsame : shifted t (takenBy base weights t) t'.sender = id := by
      funext x
      simp [shifted, leftOver, hne, hr.symm]
    unfold takenBy weightOf
    rw [hget t'.sender, hsame, map_id_apply]
  obtain ⟨w₁, hw₁, hget₁⟩ := transfer_spec weights hfits₁
  obtain ⟨w₂, hw₂, hget₂⟩ := transfer_spec weights hfits₂
  obtain ⟨_, hw₁₂, hget₁₂⟩ := transfer_spec w₁ hfits₂
  obtain ⟨_, hw₂₁, hget₂₁⟩ := transfer_spec w₂ hfits₁
  rw [hw₁, hw₂, bind_some, bind_some, hw₁₂, hw₂₁, some_inj]
  refine ext_get? fun a => ?_
  rw [hget₁₂, hget₂₁, hget₁, hget₂, hkeeps hsenders.symm h₁ hget₁, hkeeps hsenders h₂ hget₂,
    map_map, map_map]
  congr 1
  funext x
  simp only [Function.comp_apply, shifted, leftOver]
  grind

def sampleWeights : OrdMap ℕ ℕ := (((∅ : OrdMap ℕ ℕ).insert 1 10).insert 2 10).insert 3 5

end Rewards
