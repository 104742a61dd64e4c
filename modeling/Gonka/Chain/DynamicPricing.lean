/-
Dynamic pricing of tokens.

With every update the price of a model moves by a factor that depends on its utilization: it keeps
its value in a stability zone, and below and above the zone the factor is capped. The product is
rounded down, so a low price does not move up.

Main results: `price_rises_iff`, `forty_nine_is_stuck`.
-/
import Mathlib.Algebra.Order.Floor.Semiring
import Mathlib.Data.Rat.Floor
import Mathlib.Tactic.Linarith
import Mathlib.Tactic.NormNum

namespace DynamicPricing

/-- What is read of the parameters, under the names of the variables.  Decimals are exact, and stand
here as rationals. -/
structure DynamicPricingParams where
  lowerBound : ℚ
  upperBound : ℚ
  elasticity : ℚ
  minPrice : ℕ
  basePrice : ℕ

/-- `uint64(d.IntPart())` -/
def intPart (d : ℚ) : ℕ := (d.num.tdiv d.den % 2 ^ 64).toNat

/-- The old and the new price. -/
def calculateModelDynamicPrice (p : DynamicPricingParams) (stored : Option ℕ) (utilization : ℚ) :
    ℕ × ℕ :=
  let currentPrice := stored.getD p.basePrice
  let maxIncreasePerBlock := 1 + (1 - p.upperBound) * p.elasticity
  let maxDecreasePerBlock := 1 - p.lowerBound * p.elasticity
  let newPrice :=
    if p.lowerBound ≤ utilization ∧ utilization ≤ p.upperBound then currentPrice
    else if utilization < p.lowerBound then
      let adjustmentFactor := 1 - (p.lowerBound - utilization) * p.elasticity
      let adjustmentFactor := if adjustmentFactor < 0 then 0 else adjustmentFactor
      intPart (currentPrice *
        if adjustmentFactor < maxDecreasePerBlock then maxDecreasePerBlock else adjustmentFactor)
    else
      let adjustmentFactor := 1 + (utilization - p.upperBound) * p.elasticity
      intPart (currentPrice *
        if maxIncreasePerBlock < adjustmentFactor then maxIncreasePerBlock else adjustmentFactor)
  (currentPrice, if newPrice < p.minPrice then p.minPrice else newPrice)

namespace DynamicPricingParams

/-- What `Validate` asks of these fields, with an upper bound below 1. -/
structure Valid (p : DynamicPricingParams) : Prop where
  lower : 0 ≤ p.lowerBound
  zone : p.lowerBound < p.upperBound
  upper : p.upperBound < 1
  elasticity : 0 < p.elasticity
  elasticity_le : p.elasticity ≤ 1

variable (p : DynamicPricingParams)

def newPrice (price : ℕ) (utilization : ℚ) : ℕ :=
  (calculateModelDynamicPrice p (some price) utilization).2

/-- The largest relative increase, at full load. -/
def maxIncrease : ℚ := (1 - p.upperBound) * p.elasticity

def maxDecrease : ℚ := p.lowerBound * p.elasticity

/-- How far a utilization is above the zone, up to full load. -/
def excess (utilization : ℚ) : ℚ := max 0 (min (utilization - p.upperBound) (1 - p.upperBound))

def deficit (utilization : ℚ) : ℚ := max 0 (min (p.lowerBound - utilization) p.lowerBound)

/-- The relative change of the price. -/
def change (utilization : ℚ) : ℚ := (p.excess utilization - p.deficit utilization) * p.elasticity

variable {p} {price : ℕ} {u u' : ℚ}

theorem intPart_eq_floor {d : ℚ} (h : 0 ≤ d) (hlt : d < 2 ^ 63) : intPart d = ⌊d⌋₊ := by
  have hnum : d.num.tdiv d.den = ⌊d⌋ := by
    rw [Int.tdiv_eq_ediv_of_nonneg (Rat.num_nonneg.mpr h), Rat.floor_def']
  have hfloor : ⌊d⌋ < 2 ^ 63 := Int.floor_lt.mpr (by exact_mod_cast hlt)
  rw [intPart, hnum, Int.emod_eq_of_lt (Int.floor_nonneg.mpr h) (by omega), Int.floor_toNat]

theorem excess_of_le (h : u ≤ p.upperBound) : p.excess u = 0 :=
  max_eq_left ((min_le_left _ _).trans (sub_nonpos.mpr h))

theorem deficit_of_ge (h : p.lowerBound ≤ u) : p.deficit u = 0 :=
  max_eq_left ((min_le_left _ _).trans (sub_nonpos.mpr h))

variable (hp : p.Valid)
include hp

theorem excess_of_ge (h : p.upperBound ≤ u) :
    p.excess u = min (u - p.upperBound) (1 - p.upperBound) :=
  max_eq_right (le_min (sub_nonneg.mpr h) (sub_nonneg.mpr hp.upper.le))

theorem deficit_of_le (h : u ≤ p.lowerBound) : p.deficit u = min (p.lowerBound - u) p.lowerBound :=
  max_eq_right (le_min (sub_nonneg.mpr h) hp.lower)

theorem change_mono (h : u ≤ u') : p.change u ≤ p.change u' :=
  mul_le_mul_of_nonneg_right (sub_le_sub
    (max_le_max_left 0 (min_le_min_right _ (sub_le_sub_right h _)))
    (max_le_max_left 0 (min_le_min_right _ (sub_le_sub_left h _)))) hp.elasticity.le

theorem change_bounds (u : ℚ) : -p.maxDecrease ≤ p.change u ∧ p.change u ≤ p.maxIncrease := by
  have hdown : p.deficit u ≤ p.lowerBound := max_le hp.lower (min_le_right _ _)
  have hup : p.excess u ≤ 1 - p.upperBound := max_le (sub_nonneg.mpr hp.upper.le) (min_le_right _ _)
  have hdown₀ : 0 ≤ p.deficit u := le_max_left _ _
  have hup₀ : 0 ≤ p.excess u := le_max_left _ _
  rw [maxDecrease, ← neg_mul]
  exact ⟨mul_le_mul_of_nonneg_right (by linarith) hp.elasticity.le,
    mul_le_mul_of_nonneg_right (by linarith) hp.elasticity.le⟩

theorem maxIncrease_nonneg : 0 ≤ p.maxIncrease :=
  mul_nonneg (sub_nonneg.mpr hp.upper.le) hp.elasticity.le

theorem maxDecrease_le_one : p.maxDecrease ≤ 1 :=
  mul_le_one₀ (hp.zone.trans hp.upper).le hp.elasticity.le hp.elasticity_le

theorem change_of_full (h : 1 ≤ u) : p.change u = p.maxIncrease := by
  rw [change, excess_of_ge hp (hp.upper.le.trans h), min_eq_right (sub_le_sub_right h _),
    deficit_of_ge ((hp.zone.trans hp.upper).le.trans h), sub_zero, maxIncrease]

variable (hfits : price * (1 + p.maxIncrease) < 2 ^ 63)
include hfits

theorem newPrice_eq (u : ℚ) :
    p.newPrice price u = max p.minPrice ⌊price * (1 + p.change u)⌋₊ := by
  have hone : p.lowerBound * p.elasticity ≤ 1 := maxDecrease_le_one hp
  have hfloor : intPart (price * (1 + p.change u)) = ⌊price * (1 + p.change u)⌋₊ := by
    obtain ⟨hlo, hhi⟩ := change_bounds hp u
    unfold maxDecrease at hlo
    exact intPart_eq_floor (mul_nonneg (Nat.cast_nonneg _) (by linarith))
      ((mul_le_mul_of_nonneg_left (by linarith) (Nat.cast_nonneg _)).trans_lt hfits)
  have hmax (new : ℕ) : (if new < p.minPrice then p.minPrice else new) = max p.minPrice new := by
    split <;> omega
  simp only [newPrice, calculateModelDynamicPrice, Option.getD_some, hmax]
  congr 1
  split
  · next hin =>
    rw [change, excess_of_le hin.2, deficit_of_ge hin.1, sub_self, zero_mul, add_zero, mul_one,
      Nat.floor_natCast]
  next hin =>
  rw [← hfloor]
  split
  · next hbelow =>
    congr 2
    rw [change, excess_of_le (hbelow.trans hp.zone).le, deficit_of_le hp hbelow.le]
    rcases le_total (p.lowerBound - u) p.lowerBound with h | h
    all_goals
      have hmul := mul_le_mul_of_nonneg_right h hp.elasticity.le
      simp only [min_eq_left, min_eq_right, h]
      split_ifs <;> linarith
  · next hbelow =>
    have hlower := le_of_not_gt hbelow
    congr 2
    rw [change, deficit_of_ge hlower,
      excess_of_ge hp (le_of_lt (lt_of_not_ge fun hle => hin ⟨hlower, hle⟩))]
    rcases le_total (u - p.upperBound) (1 - p.upperBound) with h | h
    all_goals
      have hmul := mul_le_mul_of_nonneg_right h hp.elasticity.le
      simp only [min_eq_left, min_eq_right, h]
      split_ifs <;> linarith

/-- At full load the price grows by the whole units of its largest increase. -/
theorem newPrice_of_full (h : 1 ≤ u) :
    p.newPrice price u = max p.minPrice (price + ⌊price * p.maxIncrease⌋₊) := by
  have hpos := mul_nonneg (Nat.cast_nonneg price) (maxIncrease_nonneg hp)
  rw [newPrice_eq hp hfits, change_of_full hp h, mul_add, mul_one, add_comm (price : ℚ),
    Nat.floor_add_natCast hpos, Nat.add_comm]

theorem lt_newPrice_iff (h : 1 ≤ u) : price < p.newPrice price u ↔
    price < p.minPrice ∨ 1 ≤ price * p.maxIncrease := by
  rw [newPrice_of_full hp hfits h, lt_max_iff, Nat.lt_add_right_iff_pos, Nat.floor_pos]

omit hfits

variable (p) in
/-- The price after updates at the given utilizations. -/
def updates (price : ℕ) (loads : List ℚ) : ℕ := loads.foldl p.newPrice price

theorem updates_le (loads : List ℚ) (hfull : ∀ u ∈ loads, 1 ≤ u)
    (hprice : max price p.minPrice < 2 ^ 63)
    (hlow : (max price p.minPrice : ℕ) * p.maxIncrease < 1) :
    p.updates price loads ≤ max price p.minPrice := by
  induction loads generalizing price with
  | nil => exact le_max_left _ _
  | cons u loads ih =>
    obtain ⟨hu, hrest⟩ := List.forall_mem_cons.mp hfull
    have hle : (price : ℚ) * p.maxIncrease < 1 := (mul_le_mul_of_nonneg_right
      (Nat.cast_le.mpr (le_max_left _ _)) (maxIncrease_nonneg hp)).trans_lt hlow
    have hfits : (price : ℚ) * (1 + p.maxIncrease) < 2 ^ 63 := by
      have hnat : (price : ℚ) + 1 ≤ 2 ^ 63 := by exact_mod_cast (le_max_left _ _).trans_lt hprice
      linarith
    have hnew : p.newPrice price u = max price p.minPrice := by
      rw [newPrice_of_full hp hfits hu, Nat.floor_eq_zero.mpr hle, Nat.add_zero, max_comm]
    have hstays : max (p.newPrice price u) p.minPrice = max price p.minPrice := by
      rw [hnew, max_eq_left (le_max_right _ _)]
    exact (ih hrest (hstays ▸ hprice) (hstays ▸ hlow)).trans_eq hstays

theorem le_updates (loads : List ℚ) (hfull : ∀ u ∈ loads, 1 ≤ u)
    (hfits : ∀ n < loads.length, p.updates price (loads.take n) * (1 + p.maxIncrease) < 2 ^ 63)
    (hhigh : 1 ≤ (max price p.minPrice : ℕ) * p.maxIncrease) :
    price + loads.length ≤ p.updates price loads := by
  induction loads generalizing price with
  | nil => exact le_rfl
  | cons u loads ih =>
    obtain ⟨hu, hrest⟩ := List.forall_mem_cons.mp hfull
    have hlt : price < p.newPrice price u := by
      refine (lt_newPrice_iff hp (hfits 0 (Nat.succ_pos _)) hu).mpr ?_
      rcases Nat.lt_or_ge price p.minPrice with h | h
      · exact .inl h
      · rw [max_eq_left h] at hhigh
        exact .inr hhigh
    have hgrown : 1 ≤ (max (p.newPrice price u) p.minPrice : ℕ) * p.maxIncrease :=
      hhigh.trans (mul_le_mul_of_nonneg_right (Nat.cast_le.mpr (max_le_max_right _ hlt.le))
        (maxIncrease_nonneg hp))
    have hlater := ih hrest (fun n hn => hfits (n + 1) (Nat.succ_lt_succ hn)) hgrown
    rw [List.length_cons]
    exact le_trans (by omega) hlater

end DynamicPricingParams

open DynamicPricingParams

/-- **The price is monotone and bounded, and rises at full load exactly if the increase is worth a
unit**, or the floor lifts it.  Where it is not, no number of updates at full load raises the price;
where it is, each of them adds at least 1, up to where the product overflows. -/
theorem price_rises_iff (p : DynamicPricingParams) (hp : p.Valid) (price : ℕ)
    (hfits : price * (1 + p.maxIncrease) < 2 ^ 63) :
    (∀ u u', u ≤ u' → p.newPrice price u ≤ p.newPrice price u') ∧
    (∀ u, max p.minPrice ⌊price * (1 - p.maxDecrease)⌋₊ ≤ p.newPrice price u ∧
      p.newPrice price u ≤ max p.minPrice ⌊price * (1 + p.maxIncrease)⌋₊) ∧
    (∀ u, p.lowerBound ≤ u → u ≤ p.upperBound →
      p.minPrice ≤ price → p.newPrice price u = price) ∧
    (∀ u, 1 ≤ u → (price < p.newPrice price u ↔
      price < p.minPrice ∨ 1 ≤ price * p.maxIncrease)) ∧
    ∀ loads : List ℚ, (∀ u ∈ loads, 1 ≤ u) →
      if 1 ≤ (max price p.minPrice : ℕ) * p.maxIncrease then
        (∀ n < loads.length, p.updates price (loads.take n) * (1 + p.maxIncrease) < 2 ^ 63) →
          price + loads.length ≤ p.updates price loads
      else p.minPrice < 2 ^ 63 → p.updates price loads ≤ max price p.minPrice := by
  have hmono (x y : ℚ) (h : x ≤ y) : max p.minPrice ⌊price * x⌋₊ ≤
      max p.minPrice ⌊price * y⌋₊ :=
    max_le_max_left _ (Nat.floor_mono (mul_le_mul_of_nonneg_left h (Nat.cast_nonneg _)))
  refine ⟨fun u u' h => ?_, fun u => ?_, fun u hlo hhi hfloor => ?_,
    fun u hu => lt_newPrice_iff hp hfits hu, fun loads hfull => ?_⟩
  · rw [newPrice_eq hp hfits, newPrice_eq hp hfits]
    exact hmono _ _ (add_le_add_right (change_mono hp h) 1)
  · obtain ⟨hlo, hhi⟩ := change_bounds hp u
    rw [newPrice_eq hp hfits]
    exact ⟨hmono _ _ (by linarith), hmono _ _ (by linarith)⟩
  · rw [newPrice_eq hp hfits, change, excess_of_le hhi, deficit_of_ge hlo, sub_self, zero_mul,
      add_zero, mul_one, Nat.floor_natCast, max_eq_right hfloor]
  · split
    · next h => exact fun hfits => le_updates hp loads hfull hfits h
    · next h =>
      have hle : (price : ℚ) ≤ price * (1 + p.maxIncrease) := le_mul_of_one_le_right
        (Nat.cast_nonneg _) (le_add_of_nonneg_right (maxIncrease_nonneg hp))
      have hprice : price < 2 ^ 63 := by exact_mod_cast hle.trans_lt hfits
      exact fun hmin => updates_le hp loads hfull (max_lt hprice hmin) (lt_of_not_ge h)

def defaultPricing : DynamicPricingParams := ⟨2 / 5, 3 / 5, 1 / 20, 1, 100⟩

theorem price_rises_iff_hundred :
    defaultPricing.newPrice 100 0 ≤ defaultPricing.newPrice 100 1 := by
  have hvalid : defaultPricing.Valid := by constructor <;> decide +kernel
  exact (price_rises_iff defaultPricing hvalid 100 (by decide +kernel)).1 0 1 (by decide)

/-- With the default parameters, a price that fell to 49 does not rise at full load. -/
theorem forty_nine_is_stuck :
    defaultPricing.newPrice 50 0 = 49 ∧ defaultPricing.newPrice 49 1 = 49 := by
  decide +kernel

end DynamicPricing
