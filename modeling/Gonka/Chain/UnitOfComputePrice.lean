/-
The price of a unit of compute.

Each member of the epoch group has an effective price, its last proposal or the default, and the price
is their median by weight.

Main result: `computeUnitOfComputePrice_median`.
-/
import Mathlib.Data.List.Sort
import Gonka.Chain.EpochContext
import Gonka.Lib.OrdMap

namespace UnitOfCompute

open Inference List

structure WeightedProposal where
  weight : ℤ
  price : ℕ

/-- The weights are added up until half of the total is reached. -/
def traverse (half : ℤ) : ℤ → List WeightedProposal → Option ℕ
  | _, [] => none
  | cumulative, p :: rest =>
    if half ≤ i64 (cumulative + p.weight) then some p.price
    else traverse half (i64 (cumulative + p.weight)) rest

def weightedMedian (proposals : List WeightedProposal) : ℕ :=
  -- 0 if there are none
  let totalWeight := proposals.foldl (fun total p => i64 (total + p.weight)) 0
  if totalWeight ≤ 0 then 0
  else
    let sorted := proposals.insertionSort (·.price ≤ ·.price)
    (traverse ((i64 (totalWeight + 1)).tdiv 2) 0 sorted).getD
      ((sorted.getLast?.map (·.price)).getD 0)

/-- A member, with its weight as `getWeight` reads it. -/
structure GroupMember (A : Type) where
  address : A
  weight : ℤ

variable {A : Type} [LinearOrder A]

def weightedProposals (members : List (GroupMember A)) (proposals : List (A × ℕ))
    (defaultProposal : ℕ) : List WeightedProposal :=
  -- a later proposal replaces an earlier one
  let proposalsByMember : OrdMap A ℕ := proposals.foldl (fun m p => m.insert p.1 p.2) ∅
  members.map fun m => ⟨m.weight, (proposalsByMember.get? m.address).getD defaultProposal⟩

def computeUnitOfComputePrice (members : List (GroupMember A)) (proposals : List (A × ℕ))
    (defaultProposal : ℕ) : ℕ :=
  weightedMedian (weightedProposals members proposals defaultProposal)

def total (l : List WeightedProposal) : ℤ := (l.map (·.weight)).sum

/-- The weight of the prices with some property. -/
def weigh (l : List WeightedProposal) (p : ℕ → Prop) [DecidablePred p] : ℤ :=
  (l.map fun q => if p q.price then q.weight else 0).sum

variable {l l' : List WeightedProposal} {p q : ℕ → Prop} [DecidablePred p] [DecidablePred q]

theorem weigh_append : weigh (l ++ l') p = weigh l p + weigh l' p := by
  unfold weigh
  rw [map_append, sum_append]

theorem weigh_eq_zero (h : ∀ x ∈ l, ¬ p x.price) : weigh l p = 0 := by
  refine sum_eq_zero fun w hw => ?_
  obtain ⟨x, hx, rfl⟩ := mem_map.mp hw
  exact if_neg (h x hx)

theorem weigh_mono (hl : ∀ x ∈ l, 0 ≤ x.weight) (h : ∀ n, p n → q n) : weigh l p ≤ weigh l q := by
  refine sum_le_sum fun x hx => ?_
  have hx := hl x hx
  have hpq := h x.price
  split_ifs <;> first | omega | tauto

theorem weigh_add_le (hl : ∀ x ∈ l, 0 ≤ x.weight) (h : ∀ n, p n → ¬ q n) :
    weigh l p + weigh l q ≤ total l := by
  unfold weigh total
  rw [← sum_map_add]
  refine sum_le_sum fun x hx => ?_
  have hx := hl x hx
  have hpq := h x.price
  split_ifs <;> first | omega | tauto

theorem total_nonneg (hl : ∀ x ∈ l, 0 ≤ x.weight) : 0 ≤ total l := sum_nonneg (forall_mem_map.mpr hl)

theorem foldl_total (hl : ∀ x ∈ l, 0 ≤ x.weight) (hfits : total l < 2 ^ 63) :
    l.foldl (fun total p => i64 (total + p.weight)) 0 = total l := by
  have h := foldl_i64 le_rfl (forall_mem_map.mpr hl) (by rwa [zero_add])
  rwa [foldl_map, zero_add] at h

theorem traverse_eq {half c : ℤ} (hl : ∀ x ∈ l, 0 ≤ x.weight) (hc : 0 ≤ c) (hlt : c < half)
    (hfits : c + total l < 2 ^ 63) (hhalf : half ≤ c + total l) :
    ∃ pre x rest, l = pre ++ x :: rest ∧ c + total pre < half ∧ half ≤ c + total pre + x.weight ∧
      traverse half c l = some x.price := by
  induction l generalizing c with
  | nil =>
    change half ≤ c + 0 at hhalf
    omega
  | cons x rest ih =>
    obtain ⟨hx, hrest⟩ := forall_mem_cons.mp hl
    have hnonneg := total_nonneg hrest
    have htotal : total (x :: rest) = x.weight + total rest := rfl
    unfold traverse
    rw [i64_of_fits (by omega) (by omega)]
    split_ifs with hle
    · refine ⟨[], x, rest, rfl, ?_, ?_, rfl⟩
      · rwa [total, map_nil, sum_nil, add_zero]
      · rwa [total, map_nil, sum_nil, add_zero]
    · obtain ⟨pre, y, rest', rfl, hbelow, hreach, hrun⟩ :=
        @ih (c + x.weight) hrest (by omega) (by omega) (by omega) (by omega)
      have hpre : total (x :: pre) = x.weight + total pre := rfl
      exact ⟨x :: pre, y, rest', rfl, by omega, by omega, hrun⟩

theorem weightedMedian_isLeast (hl : ∀ x ∈ l, 0 ≤ x.weight) (hpos : 0 < total l)
    (hfits : total l + 1 < 2 ^ 63) : (∃ x ∈ l, x.price = weightedMedian l) ∧
      IsLeast {r | total l ≤ 2 * weigh l (· ≤ r)} (weightedMedian l) := by
  obtain ⟨s, hs⟩ : ∃ s, l.insertionSort (·.price ≤ ·.price) = s := ⟨_, rfl⟩
  have hperm : s ~ l := hs ▸ perm_insertionSort _ l
  have hsorted : s.Pairwise (·.price ≤ ·.price) := hs ▸ pairwise_insertionSort _ l
  have htotal : total s = total l := (hperm.map _).sum_eq
  have hsl : ∀ x ∈ s, 0 ≤ x.weight := fun x hx => hl x (hperm.mem_iff.mp hx)
  obtain ⟨pre, x, rest, rfl, hbelow, hreach, hrun⟩ := @traverse_eq s ((total l + 1) / 2) 0 hsl le_rfl
    (by omega) (by omega) (by omega)
  have hr : weightedMedian l = x.price := by
    unfold weightedMedian
    dsimp only
    rw [foldl_total hl (by omega), if_neg (by omega), i64_of_fits (by omega) hfits,
      Int.tdiv_eq_ediv_of_nonneg (by omega), hs, hrun]
    rfl
  have hweigh (r : ℕ) : weigh l (· ≤ r) = weigh pre (· ≤ r) + weigh (x :: rest) (· ≤ r) := by
    rw [← weigh_append]
    exact (hperm.map _).sum_eq.symm
  obtain ⟨-, hcons, hpre⟩ := pairwise_append.mp hsorted
  obtain ⟨hpre₀, hcons₀⟩ := forall_mem_append.mp hsl
  rw [hr]
  refine ⟨⟨x, hperm.mem_iff.mp (by simp), rfl⟩, ?_, fun r hr => ?_⟩
  · have hall : weigh pre (· ≤ x.price) = total pre :=
      congrArg sum (map_congr_left fun y hy => if_pos (hpre y hy x mem_cons_self))
    have hx : weigh (x :: rest) (· ≤ x.price) = x.weight + weigh rest (· ≤ x.price) := by simp [weigh]
    have hrest : weigh rest (fun _ => False) ≤ weigh rest (· ≤ x.price) :=
      weigh_mono (forall_mem_cons.mp hcons₀).2 nofun
    rw [weigh_eq_zero fun _ _ => id] at hrest
    change _ ≤ 2 * weigh l _
    rw [hweigh]
    omega
  · -- what is cheaper than `x` stands before it
    by_contra hlt
    have hnone : weigh (x :: rest) (· ≤ r) = 0 := by
      refine weigh_eq_zero fun y hy => ?_
      rcases mem_cons.mp hy with rfl | hy
      · exact hlt
      · exact fun hle => hlt ((rel_of_pairwise_cons hcons hy).trans hle)
    have hle := weigh_add_le (p := (· ≤ r)) (q := fun _ => False) hpre₀ fun _ _ => id
    rw [weigh_eq_zero (p := fun _ => False) fun _ _ => id] at hle
    change _ ≤ 2 * weigh l _ at hr
    rw [hweigh] at hr
    omega

/-- **A majority decides the price**, and the order of the members does not matter. -/
theorem computeUnitOfComputePrice_median {members : List (GroupMember A)} {proposals : List (A × ℕ)}
    {d : ℕ} (hweights : ∀ m ∈ members, 0 ≤ m.weight)
    (hpos : 0 < total (weightedProposals members proposals d))
    (hfits : total (weightedProposals members proposals d) + 1 < 2 ^ 63) :
    ∃ price, computeUnitOfComputePrice members proposals d = price ∧
      (∀ a b, total (weightedProposals members proposals d) < 2 *
        weigh (weightedProposals members proposals d) (fun n => a ≤ n ∧ n ≤ b) →
          a ≤ price ∧ price ≤ b) ∧
      (∃ x ∈ weightedProposals members proposals d, x.price = price) ∧
      ∀ members', members ~ members' → computeUnitOfComputePrice members' proposals d = price := by
  have hl : ∀ x ∈ weightedProposals members proposals d, 0 ≤ x.weight := by
    intro x hx
    obtain ⟨m, hm, rfl⟩ := mem_map.mp hx
    exact hweights m hm
  obtain ⟨hmem, hup, hleast⟩ := weightedMedian_isLeast hl hpos hfits
  rw [Set.mem_ofPred_eq] at hup
  refine ⟨_, rfl, fun a b hmaj => ⟨?_, hleast ?_⟩, hmem, fun members' hperm => ?_⟩
  · by_contra hlt
    have := weigh_add_le (p := (· ≤ computeUnitOfComputePrice members proposals d))
      (q := fun n => a ≤ n ∧ n ≤ b) hl fun n hn => by omega
    unfold computeUnitOfComputePrice at this
    omega
  · have hle : weigh (weightedProposals members proposals d) (fun n => a ≤ n ∧ n ≤ b) ≤
        weigh (weightedProposals members proposals d) (· ≤ b) := weigh_mono hl fun n hn => hn.2
    rw [Set.mem_ofPred_eq]
    omega
  · have hperm : weightedProposals members proposals d ~ weightedProposals members' proposals d :=
      hperm.map _
    have htotal : total _ = total _ := (hperm.map _).sum_eq
    have hweigh (r : ℕ) : weigh _ (· ≤ r) = weigh _ (· ≤ r) := (hperm.map _).sum_eq
    have hother := weightedMedian_isLeast (fun x hx => hl x (hperm.mem_iff.mpr hx)) (htotal ▸ hpos)
      (htotal ▸ hfits)
    simp only [← htotal, ← hweigh] at hother
    exact hother.2.unique ⟨hup, hleast⟩

theorem computeUnitOfComputePrice_median_two :
    computeUnitOfComputePrice [⟨true, 3⟩, ⟨false, 2⟩] [(true, 7), (true, 5)] 1 = 5 := by
  obtain ⟨price, heq, hmaj, -⟩ := @computeUnitOfComputePrice_median _ _ [⟨true, 3⟩, ⟨false, 2⟩]
    [(true, 7), (true, 5)] 1 (by decide) (by decide) (by decide)
  have := hmaj 5 5 (by decide)
  omega

theorem largest_total_takes_cheapest :
    computeUnitOfComputePrice [⟨true, 2 ^ 63 - 2⟩, ⟨false, 1⟩] [(true, 5)] 1 = 1 := by
  decide

end UnitOfCompute
