/-
The tiered price of the liquidity pool.

Tokens are sold in tiers, each with a higher price than the one before it, and a purchase buys out the
rest of a tier before it goes on in the next one. Rounding may leave a rest that no payment can buy.

Main results: `spends_all_iff`, `never_below_curve`.
-/
import Gonka.Lib.Along
import Mathlib.Algebra.BigOperators.Intervals
import Mathlib.Algebra.Order.BigOperators.Group.Finset
import Mathlib.Algebra.Order.Monoid.NatCast

namespace LiquidityPool

/-- `a.checked_add(b).unwrap_or(a)` -/
def checkedAdd (a b : ℕ) : ℕ := if a + b < 2 ^ 128 then a + b else a

/-- `a.checked_mul(b).unwrap_or(c)` -/
def checkedMul (a b c : ℕ) : ℕ := if a * b < 2 ^ 128 then a * b else c

structure PricingConfig where
  basePriceUsd : ℕ
  tokensPerTier : ℕ
  tierMultiplier : ℕ

def calculateCurrentTier (tokensSold tokensPerTier : ℕ) : ℕ :=
  if tokensPerTier = 0 then 0 else tokensSold / tokensPerTier % 2 ^ 32

def calculateCurrentPrice (basePrice currentTier tierMultiplier : ℕ) : ℕ :=
  -- where the product overflows, the price itself is divided
  Nat.iterate (fun price => checkedMul price tierMultiplier price / 1000) currentTier basePrice

def calculateTokensForUsd (usdAmount pricePerToken : ℕ) : ℕ :=
  if pricePerToken = 0 then 0 else checkedMul usdAmount (10 ^ 9) 0 / pricePerToken

/-- The variables of the loop over the tiers. -/
structure Progress where
  remainingUsd : ℕ
  totalTokens : ℕ := 0
  soldSoFar : ℕ
  actualUsdSpent : ℕ := 0
  endTier : ℕ

structure Purchase where
  totalTokens : ℕ := 0
  actualUsdSpent : ℕ := 0
  startTier : ℕ := 0
  endTier : ℕ := 0
  averagePrice : ℕ := 0

namespace PricingConfig

variable (cfg : PricingConfig)

def tier (sold : ℕ) : ℕ := calculateCurrentTier sold cfg.tokensPerTier

def price (sold : ℕ) : ℕ :=
  calculateCurrentPrice cfg.basePriceUsd (cfg.tier sold) cfg.tierMultiplier

def tokensLeftInTier (sold : ℕ) : ℕ := cfg.tokensPerTier - sold % cfg.tokensPerTier

def usdForRemainingTier (sold : ℕ) : ℕ :=
  checkedMul (cfg.tokensLeftInTier sold) (cfg.price sold) 0 / 10 ^ 9

def usdToSpendInTier (s : Progress) : ℕ := min s.remainingUsd (cfg.usdForRemainingTier s.soldSoFar)

def tokensInTier (s : Progress) : ℕ :=
  calculateTokensForUsd (cfg.usdToSpendInTier s) (cfg.price s.soldSoFar)

/-- One round that does not break. -/
def round (s : Progress) : Progress where
  remainingUsd := s.remainingUsd - cfg.usdToSpendInTier s
  totalTokens := checkedAdd s.totalTokens (cfg.tokensInTier s)
  soldSoFar := checkedAdd s.soldSoFar (cfg.tokensInTier s)
  actualUsdSpent := checkedAdd s.actualUsdSpent (cfg.usdToSpendInTier s)
  endTier := cfg.tier (checkedAdd s.soldSoFar (cfg.tokensInTier s))

def rounds : ℕ → Progress → Progress
  | 0, s => s
  | n + 1, s =>
    if s.remainingUsd = 0 ∨ cfg.price s.soldSoFar = 0 ∨ cfg.usdToSpendInTier s = 0 then s
    else rounds n (cfg.round s)

end PricingConfig

def calculateMultiTierPurchase (usdAmount currentTokensSold : ℕ) (cfg : PricingConfig) : Purchase :=
  if usdAmount = 0 ∨ cfg.tokensPerTier = 0 ∨ cfg.basePriceUsd = 0 then {}
  else
    let startTier := cfg.tier currentTokensSold
    let s := cfg.rounds 50
      { remainingUsd := usdAmount, soldSoFar := currentTokensSold, endTier := startTier }
    ⟨s.totalTokens, s.actualUsdSpent, startTier, s.endTier,
      if s.totalTokens = 0 then 0 else checkedMul s.actualUsdSpent (10 ^ 9) 0 / s.totalTokens⟩

inductive Rejection
  | zeroAmount
  | partialSpending
  | overflow

/-- `receive_cw20` and `purchase_with_native`, from the USD value of the payment on: the new total of
sold tokens.  Further checks (the daily limit, the balance) can only reject. -/
def purchase (cfg : PricingConfig) (totalTokensSold usdValue : ℕ) : Except Rejection ℕ :=
  let bought := calculateMultiTierPurchase usdValue totalTokensSold cfg
  if usdValue = 0 then .error .zeroAmount
  else if bought.actualUsdSpent = usdValue then
    if bought.totalTokens = 0 then .error .zeroAmount
    else if totalTokensSold + bought.totalTokens < 2 ^ 128 then
      .ok (totalTokensSold + bought.totalTokens)
    else .error .overflow
  else .error .partialSpending

/-- The total of sold tokens, and what was paid for them. -/
structure Pool where
  totalTokensSold : ℕ := 0
  usdReceived : ℕ := 0

def Pool.buy (cfg : PricingConfig) (pool : Pool) (usd : ℕ) : Pool :=
  match purchase cfg pool.totalTokensSold usd with
  | .ok sold => ⟨sold, pool.usdReceived + usd⟩
  | .error _ => pool

theorem checkedMul_zero_le (a b : ℕ) : checkedMul a b 0 ≤ a * b ∧ checkedMul a b 0 < 2 ^ 128 := by
  unfold checkedMul
  split
  · next h => exact ⟨le_rfl, h⟩
  · exact ⟨Nat.zero_le _, by decide⟩

theorem checkedMul_of_lt {a b c : ℕ} (h : a * b < 2 ^ 128) : checkedMul a b c = a * b := if_pos h

theorem checkedAdd_of_lt {a b : ℕ} (h : a + b < 2 ^ 128) : checkedAdd a b = a + b := if_pos h

theorem le_checkedAdd (a b : ℕ) : a ≤ checkedAdd a b := by
  unfold checkedAdd
  split <;> omega

theorem tokensForUsd_mul_le (usd price : ℕ) :
    calculateTokensForUsd usd price * price ≤ 10 ^ 9 * usd := by
  unfold calculateTokensForUsd
  split
  · omega
  · have hle := (checkedMul_zero_le usd (10 ^ 9)).1
    exact (Nat.div_mul_le_self _ _).trans (by omega)

namespace PricingConfig

variable {cfg : PricingConfig} {s s' : Progress} {sold usd usd' n T : ℕ}

theorem usdForRemainingTier_mul_le : cfg.usdForRemainingTier sold * 10 ^ 9 ≤
    checkedMul (cfg.tokensLeftInTier sold) (cfg.price sold) 0 := Nat.div_mul_le_self _ _

theorem tokensForUsd_le_left (h : usd ≤ cfg.usdForRemainingTier sold) :
    calculateTokensForUsd usd (cfg.price sold) ≤ cfg.tokensLeftInTier sold := by
  rcases Nat.eq_zero_or_pos (cfg.price sold) with hprice | hprice
  · simp [calculateTokensForUsd, hprice]
  have hspent := tokensForUsd_mul_le usd (cfg.price sold)
  have hworth := cfg.usdForRemainingTier_mul_le.trans
    (checkedMul_zero_le (cfg.tokensLeftInTier sold) (cfg.price sold)).1
  exact Nat.le_of_mul_le_mul_right (by omega) hprice

theorem tokensForUsd_mono (hle : usd ≤ usd') (h : usd' ≤ cfg.usdForRemainingTier sold) :
    calculateTokensForUsd usd (cfg.price sold) ≤ calculateTokensForUsd usd' (cfg.price sold) := by
  have hworth := cfg.usdForRemainingTier_mul_le.trans_lt
    (checkedMul_zero_le (cfg.tokensLeftInTier sold) (cfg.price sold)).2
  have hfits : usd' * 10 ^ 9 < 2 ^ 128 := (Nat.mul_le_mul_right _ h).trans_lt hworth
  have hfits₀ : usd * 10 ^ 9 < 2 ^ 128 := (Nat.mul_le_mul_right _ hle).trans_lt hfits
  rw [calculateTokensForUsd, calculateTokensForUsd, checkedMul_of_lt hfits, checkedMul_of_lt hfits₀]
  split
  · exact le_rfl
  · exact Nat.div_le_div_right (Nat.mul_le_mul_right _ hle)

theorem tokensInTier_le : cfg.tokensInTier s ≤ cfg.tokensLeftInTier s.soldSoFar :=
  tokensForUsd_le_left (min_le_right _ _)

theorem round_usd (hfits : s.actualUsdSpent + s.remainingUsd < 2 ^ 128) :
    (cfg.round s).actualUsdSpent = s.actualUsdSpent + cfg.usdToSpendInTier s ∧
      (cfg.round s).actualUsdSpent + (cfg.round s).remainingUsd =
        s.actualUsdSpent + s.remainingUsd := by
  have hle : cfg.usdToSpendInTier s ≤ s.remainingUsd := min_le_left _ _
  have hspent : (cfg.round s).actualUsdSpent = s.actualUsdSpent + cfg.usdToSpendInTier s :=
    checkedAdd_of_lt (by omega)
  have hrem : (cfg.round s).remainingUsd = s.remainingUsd - cfg.usdToSpendInTier s := rfl
  omega

theorem rounds_succ : cfg.rounds (n + 1) s =
    if cfg.usdToSpendInTier s = 0 then s else cfg.rounds n (cfg.round s) := by
  have hprice (h : cfg.price s.soldSoFar = 0) : cfg.usdToSpendInTier s = 0 := by
    simp [usdToSpendInTier, usdForRemainingTier, checkedMul, h]
  have hrem (h : s.remainingUsd = 0) : cfg.usdToSpendInTier s = 0 := by simp [usdToSpendInTier, h]
  rw [rounds]
  exact if_congr ⟨fun h => h.elim hrem (·.elim hprice id), fun h => .inr (.inr h)⟩ rfl rfl

theorem rounds_of_remaining_zero (h : s.remainingUsd = 0) : cfg.rounds n s = s := by
  cases n with
  | zero => rfl
  | succ n => exact if_pos (.inl h)

theorem le_rounds_totalTokens : ∀ (n : ℕ) (s : Progress), s.totalTokens ≤ (cfg.rounds n s).totalTokens
  | 0, _ => le_rfl
  | n + 1, s => by
    rw [rounds_succ]
    split
    · exact le_rfl
    · exact (le_checkedAdd _ _).trans (le_rounds_totalTokens n (cfg.round s))

/-- What the pool takes at most in `n` rounds: each buys out the rest of the tier, and the first rest
that is worth nothing ends them. -/
def capacity (cfg : PricingConfig) : ℕ → ℕ → ℕ
  | 0, _ => 0
  | n + 1, sold =>
    let usd := cfg.usdForRemainingTier sold
    if usd = 0 then 0
    else usd + cfg.capacity n (checkedAdd sold (calculateTokensForUsd usd (cfg.price sold)))

theorem capacity_eq_zero_iff :
    cfg.capacity (n + 1) sold = 0 ↔ cfg.usdForRemainingTier sold = 0 := by
  rw [capacity]
  split <;> omega

theorem rounds_spent (n : ℕ) (s : Progress) (hfits : s.actualUsdSpent + s.remainingUsd < 2 ^ 128) :
    (cfg.rounds n s).actualUsdSpent =
      s.actualUsdSpent + min s.remainingUsd (cfg.capacity n s.soldSoFar) := by
  induction n generalizing s with
  | zero => simp [rounds, capacity]
  | succ n ih =>
    have hmin : cfg.usdToSpendInTier s =
      min s.remainingUsd (cfg.usdForRemainingTier s.soldSoFar) := rfl
    obtain ⟨hspent, hsum⟩ := cfg.round_usd hfits
    have ih := ih (cfg.round s) (by omega)
    rw [rounds_succ, capacity]
    by_cases hrest : cfg.usdForRemainingTier s.soldSoFar = 0
    · simp [usdToSpendInTier, hrest]
    rw [if_neg hrest]
    rcases Nat.lt_or_ge (cfg.usdForRemainingTier s.soldSoFar) s.remainingUsd with hlt | hge
    · -- the tier is bought out, and the rest of the payment meets the next round
      have hall : cfg.usdToSpendInTier s = cfg.usdForRemainingTier s.soldSoFar := by omega
      have hsold : (cfg.round s).soldSoFar = checkedAdd s.soldSoFar (calculateTokensForUsd
          (cfg.usdForRemainingTier s.soldSoFar) (cfg.price s.soldSoFar)) := by
        rw [← hall]
        rfl
      rw [hsold] at ih
      rw [if_neg (hall ▸ hrest), ih]
      omega
    · split
      · omega
      · rw [ih]
        omega

/-! ### The price curve -/

def curve (cfg : PricingConfig) : ℕ → ℕ
  | 0 => cfg.basePriceUsd
  | k + 1 => cfg.curve k * cfg.tierMultiplier / 1000

/-- The prices of the first `T` tiers are computed without overflow. -/
def Fits (cfg : PricingConfig) (T : ℕ) : Prop :=
  ∀ k < T - 1, cfg.curve k * cfg.tierMultiplier < 2 ^ 128

theorem tier_eq (hT : T ≤ 2 ^ 32) (hsold : sold < T * cfg.tokensPerTier) :
    cfg.tier sold = sold / cfg.tokensPerTier := by
  have hk : sold / cfg.tokensPerTier < T := Nat.div_lt_of_lt_mul (Nat.mul_comm _ _ ▸ hsold)
  have hpos : cfg.tokensPerTier ≠ 0 := fun h => by simp [h] at hsold
  exact (if_neg hpos).trans (Nat.mod_eq_of_lt (hk.trans_le hT))

theorem calculateCurrentPrice_eq {k : ℕ} (h : ∀ j < k, cfg.curve j * cfg.tierMultiplier < 2 ^ 128) :
    calculateCurrentPrice cfg.basePriceUsd k cfg.tierMultiplier = cfg.curve k := by
  unfold calculateCurrentPrice
  induction k with
  | zero => rfl
  | succ k ih =>
    rw [Function.iterate_succ_apply', ih fun j hj => h j (Nat.lt_succ_of_lt hj),
      checkedMul_of_lt (h k (Nat.lt_succ_self k)), curve]

theorem price_eq_curve (hT : T ≤ 2 ^ 32) (hfits : cfg.Fits T) (hsold : sold < T * cfg.tokensPerTier) :
    cfg.price sold = cfg.curve (sold / cfg.tokensPerTier) := by
  have hk : sold / cfg.tokensPerTier < T := Nat.div_lt_of_lt_mul (Nat.mul_comm _ _ ▸ hsold)
  rw [price, tier_eq hT hsold]
  exact calculateCurrentPrice_eq fun j hj => hfits j (by omega)

theorem curve_mono (hmult : 1000 ≤ cfg.tierMultiplier) : Monotone cfg.curve :=
  monotone_nat_of_le_succ fun k =>
    (Nat.le_div_iff_mul_le (by decide)).mpr (Nat.mul_le_mul_left (cfg.curve k) hmult)

/-- What the first `n` units cost on the curve. -/
def owed (cfg : PricingConfig) (n : ℕ) : ℕ := ∑ x ∈ Finset.range n, cfg.curve (x / cfg.tokensPerTier)

theorem owed_add {t : ℕ} (h : t ≤ cfg.tokensLeftInTier sold) : cfg.owed (sold + t) =
    cfg.owed sold + t * cfg.curve (sold / cfg.tokensPerTier) := by
  have hsame (i : ℕ) (hi : i < t) :
      (sold + i) / cfg.tokensPerTier = sold / cfg.tokensPerTier := by
    unfold tokensLeftInTier at h
    conv_lhs => rw [← Nat.div_add_mod sold cfg.tokensPerTier, Nat.add_assoc]
    rw [Nat.mul_add_div (by omega),
      Nat.div_eq_of_lt (show sold % cfg.tokensPerTier + i < cfg.tokensPerTier by omega), Nat.add_zero]
  rw [owed, Finset.sum_range_add, ← owed, Finset.sum_const_nat fun i hi =>
    congrArg cfg.curve (hsame i (Finset.mem_range.mp hi)), Finset.card_range]

theorem owed_mono {n n' : ℕ} (h : n ≤ n') : cfg.owed n ≤ cfg.owed n' :=
  Finset.sum_le_sum_of_subset (Finset.range_mono h)

/-- A round in which one of the two sums of tokens overflows ends in a purchase that is rejected,
unless it adds to neither. -/
theorem round_tokens (hsold : s.soldSoFar = sold + s.totalTokens)
    (hend : sold + (cfg.round s).totalTokens < 2 ^ 128) :
    ∃ t, t ≤ cfg.tokensInTier s ∧ (cfg.round s).totalTokens = s.totalTokens + t ∧
      (cfg.round s).soldSoFar = s.soldSoFar + t := by
  have htotal : (cfg.round s).totalTokens = checkedAdd s.totalTokens (cfg.tokensInTier s) := rfl
  have hnext : (cfg.round s).soldSoFar = checkedAdd s.soldSoFar (cfg.tokensInTier s) := rfl
  unfold checkedAdd at htotal hnext
  split at htotal
  · exact ⟨cfg.tokensInTier s, le_rfl, htotal, by split at hnext <;> omega⟩
  · exact ⟨0, Nat.zero_le _, htotal, by split at hnext <;> omega⟩

/-- What was sold is paid for on the curve, round by round, as long as the rest of the payment
does not buy out the tiers whose prices fit. -/
theorem rounds_owed (hT : T ≤ 2 ^ 32) (hprices : cfg.Fits T) (sold n : ℕ) (s : Progress)
    (hfits : s.actualUsdSpent + s.remainingUsd < 2 ^ 128) (hsold : s.soldSoFar = sold + s.totalTokens)
    (hroom : cfg.owed s.soldSoFar + 10 ^ 9 * s.remainingUsd ≤ cfg.owed (T * cfg.tokensPerTier))
    (hend : sold + (cfg.rounds n s).totalTokens < 2 ^ 128) :
    cfg.owed (sold + (cfg.rounds n s).totalTokens) + 10 ^ 9 * s.actualUsdSpent ≤
      cfg.owed s.soldSoFar + 10 ^ 9 * (cfg.rounds n s).actualUsdSpent := by
  induction n generalizing s with
  | zero => exact hsold ▸ le_rfl
  | succ n ih =>
    rw [rounds_succ] at hend ⊢
    split at hend
    · next h => rw [if_pos h, hsold]
    next h =>
    rw [if_neg h]
    have hspend : cfg.usdToSpendInTier s ≤ s.remainingUsd := min_le_left _ _
    have hbelow : s.soldSoFar < T * cfg.tokensPerTier := by
      by_contra hge
      have := cfg.owed_mono (Nat.le_of_not_lt hge)
      omega
    have hlater := cfg.le_rounds_totalTokens n (cfg.round s)
    obtain ⟨t, ht, htotal, hnext⟩ := cfg.round_tokens hsold (by omega)
    obtain ⟨hspent, hsum⟩ := cfg.round_usd hfits
    have hpaid : t * cfg.curve (s.soldSoFar / cfg.tokensPerTier) ≤ 10 ^ 9 * cfg.usdToSpendInTier s := by
      rw [← price_eq_curve hT hprices hbelow]
      exact (Nat.mul_le_mul_right _ ht).trans (tokensForUsd_mul_le _ _)
    have howed := cfg.owed_add (ht.trans cfg.tokensInTier_le)
    have hrest := ih (cfg.round s) (by omega) (by omega) (by rw [hnext, howed]; omega) hend
    rw [hnext, howed, hspent] at hrest
    omega

theorem rounds_mono (n : ℕ) (s s' : Progress) (hsold : s'.soldSoFar = s.soldSoFar)
    (htotal : s'.totalTokens = s.totalTokens)
    (hroom : s.totalTokens + n * cfg.tokensPerTier < 2 ^ 128) (hrem : s.remainingUsd ≤ s'.remainingUsd) :
    (cfg.rounds n s).totalTokens ≤ (cfg.rounds n s').totalTokens := by
  induction n generalizing s s' with
  | zero => exact htotal.ge
  | succ n ih =>
    have hspend : cfg.usdToSpendInTier s ≤ cfg.usdToSpendInTier s' := by
      unfold usdToSpendInTier
      rw [hsold]
      exact min_le_min_right _ hrem
    by_cases hstop : cfg.usdToSpendInTier s = 0
    · rw [rounds_succ, if_pos hstop, ← htotal]
      exact cfg.le_rounds_totalTokens _ s'
    have hleft : cfg.tokensLeftInTier s.soldSoFar ≤ cfg.tokensPerTier := Nat.sub_le _ _
    rw [Nat.succ_mul] at hroom
    have hbound := cfg.tokensInTier_le (s := s)
    have hbound' := cfg.tokensInTier_le (s := s')
    rw [hsold] at hbound'
    have htokens : (cfg.round s).totalTokens = s.totalTokens + cfg.tokensInTier s :=
      checkedAdd_of_lt (by omega)
    have htokens' : (cfg.round s').totalTokens = s'.totalTokens + cfg.tokensInTier s' :=
      checkedAdd_of_lt (by omega)
    rw [rounds_succ, if_neg hstop, rounds_succ, if_neg (by omega)]
    by_cases hlast : s.remainingUsd ≤ cfg.usdForRemainingTier s.soldSoFar
    · -- the smaller payment ends in this tier
      have hmore : cfg.tokensInTier s ≤ cfg.tokensInTier s' := by
        unfold tokensInTier
        rw [hsold]
        exact tokensForUsd_mono hspend (hsold ▸ min_le_right _ _)
      have hdone : (cfg.round s).remainingUsd = 0 :=
        Nat.sub_eq_zero_of_le (min_eq_left hlast).ge
      rw [rounds_of_remaining_zero hdone]
      have hlater := cfg.le_rounds_totalTokens n (cfg.round s')
      omega
    · have hsame : cfg.usdToSpendInTier s' = cfg.usdToSpendInTier s := by
        unfold usdToSpendInTier
        rw [hsold]
        omega
      have htoken : cfg.tokensInTier s' = cfg.tokensInTier s := by
        unfold tokensInTier
        rw [hsold, hsame]
      have hnext : (cfg.round s').soldSoFar = (cfg.round s).soldSoFar := by
        simp only [round, hsold, htoken]
      have hrem' : (cfg.round s).remainingUsd ≤ (cfg.round s').remainingUsd :=
        tsub_le_tsub hrem hsame.le
      exact ih _ _ hnext (by omega) (by omega) hrem'

end PricingConfig

open PricingConfig

/-- **A payment is spent in full exactly if it is within the capacity** of fifty rounds, and a pool where
the rest of the tier is worth less than a unit of USD has none. -/
theorem spends_all_iff (cfg : PricingConfig) (hprice : 0 < cfg.basePriceUsd)
    (htokens : 0 < cfg.tokensPerTier) (sold usd : ℕ) (husd : usd < 2 ^ 128) :
    ((calculateMultiTierPurchase usd sold cfg).actualUsdSpent = usd ↔ usd ≤ cfg.capacity 50 sold) ∧
    (purchase cfg sold usd = .error .partialSpending ↔ cfg.capacity 50 sold < usd) ∧
    (cfg.tokensLeftInTier sold * cfg.price sold < 2 ^ 128 →
      (cfg.capacity 50 sold = 0 ↔ cfg.tokensLeftInTier sold * cfg.price sold < 10 ^ 9)) := by
  have hspent : (calculateMultiTierPurchase usd sold cfg).actualUsdSpent =
      min usd (cfg.capacity 50 sold) := by
    unfold calculateMultiTierPurchase
    split
    · next h => simp [show usd = 0 by omega]
    · exact (rounds_spent 50 _ (by simpa using husd)).trans (Nat.zero_add _)
  refine ⟨by omega, ?_, fun hworth => ?_⟩
  · simp only [purchase, hspent]
    split_ifs <;> simp only [Except.error.injEq, reduceCtorEq, false_iff, true_iff] <;> omega
  · rw [capacity_eq_zero_iff, usdForRemainingTier, checkedMul_of_lt hworth]
    exact Nat.div_eq_zero_iff_lt (by decide)

/-- The defaults of the contract. -/
def defaultPricing : PricingConfig := ⟨25000, 3 * 10 ^ 15, 1300⟩

theorem spends_all_iff_first : (calculateMultiTierPurchase 1 0 defaultPricing).actualUsdSpent = 1 :=
  (spends_all_iff defaultPricing (by decide) (by decide) 0 1 (by decide)).1.mpr (by decide +kernel)

/-- Three purchases leave a single unit of the second tier, and nothing can be bought any more. -/
theorem last_unit_bricks :
    purchase defaultPricing 0 75000000000 = .ok (3 * 10 ^ 15) ∧
    purchase defaultPricing (3 * 10 ^ 15) 97499999999 = .ok 5999999999969230 ∧
    purchase defaultPricing 5999999999969230 1 = .ok 5999999999999999 ∧
    purchase defaultPricing 5999999999999999 1000000 = .error .partialSpending :=
  ⟨rfl, rfl, rfl, rfl⟩

section

variable {cfg : PricingConfig} {T sold sold' usd : ℕ} {pool : Pool}

theorem purchase_ok (h : purchase cfg sold usd = .ok sold') :
    usd ≠ 0 ∧ (calculateMultiTierPurchase usd sold cfg).actualUsdSpent = usd ∧ sold' < 2 ^ 128 ∧
      sold' = sold + (calculateMultiTierPurchase usd sold cfg).totalTokens := by
  simp only [purchase] at h
  split_ifs at h with hzero hspent hnone hroom
  cases h
  exact ⟨hzero, hspent, hroom, rfl⟩

/-- The payment, an unsigned number of 128 bits, buys at most the first `T` tiers on the curve. -/
def Within (cfg : PricingConfig) (T : ℕ) (pool : Pool) (usd : ℕ) : Prop :=
  usd < 2 ^ 128 ∧
    cfg.owed pool.totalTokensSold + 10 ^ 9 * usd ≤ cfg.owed (T * cfg.tokensPerTier)

/-- What was sold is paid for on the curve. -/
def Paid (cfg : PricingConfig) (pool : Pool) : Prop :=
  ∑ x ∈ Finset.range pool.totalTokensSold, cfg.curve (x / cfg.tokensPerTier) ≤
    10 ^ 9 * pool.usdReceived

theorem buy_paid (hT : T ≤ 2 ^ 32) (hprices : cfg.Fits T) (hwithin : Within cfg T pool usd)
    (hpaid : Paid cfg pool) : Paid cfg (pool.buy cfg usd) := by
  unfold Pool.buy
  split
  · next sold h =>
    obtain ⟨hzero, hspent, hlt, rfl⟩ := purchase_ok h
    unfold calculateMultiTierPurchase at hspent hlt ⊢
    split at hspent
    · exact absurd hspent.symm hzero
    next hguard =>
    rw [if_neg hguard] at hlt ⊢
    have hrun := rounds_owed hT hprices pool.totalTokensSold 50
      { remainingUsd := usd, soldSoFar := pool.totalTokensSold, endTier := cfg.tier pool.totalTokensSold }
      (by simpa using hwithin.1) rfl hwithin.2 hlt
    have hpaid' : cfg.owed pool.totalTokensSold ≤ 10 ^ 9 * pool.usdReceived := hpaid
    show cfg.owed _ ≤ 10 ^ 9 * (pool.usdReceived + usd)
    dsimp only at hrun hspent ⊢
    omega
  · exact hpaid

/-- At the first product that overflows, the price is a thousandth of the price before it. -/
theorem price_falls (hbase : 1 ≤ cfg.basePriceUsd) (hmult : 1000 ≤ cfg.tierMultiplier)
    (htokens : 1 ≤ cfg.tokensPerTier) (hT : T ≤ 2 ^ 32) (hnot : ¬ cfg.Fits T) :
    ∃ k, k + 1 < T ∧
      cfg.price ((k + 1) * cfg.tokensPerTier) < cfg.price (k * cfg.tokensPerTier) := by
  classical
  have hex : ∃ k, ¬ (k < T - 1 → cfg.curve k * cfg.tierMultiplier < 2 ^ 128) := not_forall.mp hnot
  obtain ⟨hk, hover⟩ := Classical.not_imp.mp (Nat.find_spec hex)
  have hbefore : ∀ j < Nat.find hex, cfg.curve j * cfg.tierMultiplier < 2 ^ 128 := fun j hj =>
    not_not.mp (Nat.find_min hex hj) (by omega)
  generalize Nat.find hex = k at hk hover hbefore
  have hk : k + 1 < T := by omega
  have htier : ∀ j, j < T → cfg.tier (j * cfg.tokensPerTier) = j := fun j hj =>
    (tier_eq hT (Nat.mul_lt_mul_of_pos_right hj htokens)).trans (Nat.mul_div_cancel _ htokens)
  refine ⟨k, hk, ?_⟩
  rw [price, price, htier k (Nat.lt_of_succ_lt hk), htier (k + 1) hk, calculateCurrentPrice,
    Function.iterate_succ_apply', ← calculateCurrentPrice, calculateCurrentPrice_eq hbefore,
    checkedMul, if_neg hover]
  have hcurve : 1 ≤ cfg.curve k := hbase.trans (curve_mono hmult (Nat.zero_le k))
  exact Nat.div_lt_self hcurve (by decide)

end

/-- **When the pool does not sell below its price curve.**  For the first `T` tiers, as many as a
tier number of 32 bits can count: their prices do not fall exactly if none of them overflows; then
every sequence of payments that stay within these tiers pays for the units on the curve.  A larger
payment does not buy less, as long as the tokens of fifty tiers can be counted. -/
theorem never_below_curve (cfg : PricingConfig) (hbase : 1 ≤ cfg.basePriceUsd)
    (hmult : 1000 ≤ cfg.tierMultiplier) (htokens : 1 ≤ cfg.tokensPerTier) (T : ℕ) (hT : T ≤ 2 ^ 32) :
    (cfg.Fits T ↔ ∀ sold sold', sold ≤ sold' → sold' < T * cfg.tokensPerTier →
      cfg.price sold ≤ cfg.price sold') ∧
    (cfg.Fits T → ∀ payments,
      Along.EachStep (fun usd pool => pool.buy cfg usd) (Within cfg T) payments {} →
      Along.Throughout (fun usd pool => pool.buy cfg usd) (Paid cfg) payments {}) ∧
    (50 * cfg.tokensPerTier < 2 ^ 128 → ∀ sold usd usd', usd ≤ usd' →
      (calculateMultiTierPurchase usd sold cfg).totalTokens ≤
        (calculateMultiTierPurchase usd' sold cfg).totalTokens) := by
  refine ⟨⟨fun hprices sold sold' hle hend => ?_, fun hmono => ?_⟩, fun hprices payments h => ?_,
    fun hroom sold usd usd' hle => ?_⟩
  · rw [price_eq_curve hT hprices hend, price_eq_curve hT hprices (hle.trans_lt hend)]
    exact curve_mono hmult (Nat.div_le_div_right hle)
  · by_contra hnot
    obtain ⟨k, hk, hfalls⟩ := price_falls hbase hmult htokens hT hnot
    refine absurd (hmono _ _ ?_ (Nat.mul_lt_mul_of_pos_right hk htokens)) (Nat.not_le_of_lt hfalls)
    exact Nat.mul_le_mul_right _ (Nat.le_succ k)
  · refine Along.throughout_of_eachStep (I := fun _ => True) (fun _ _ _ => trivial) ?_ trivial
      (Nat.zero_le _) h
    intro pool usd _ hpaid hwithin
    exact buy_paid hT hprices hwithin hpaid
  · unfold calculateMultiTierPurchase
    split
    · exact Nat.zero_le _
    next hguard =>
    rw [if_neg (by omega)]
    exact rounds_mono 50 _ _ rfl rfl (by simpa using hroom) hle

/-- Tiers of two units, for 3, 4.5, 6.75 and 10.125 USD each: the payments cross two of them. -/
theorem never_below_curve_four :
    let cfg : PricingConfig := ⟨3 * 10 ^ 9, 2, 1500⟩
    let buy (usd : ℕ) (pool : Pool) := pool.buy cfg usd
    (Along.run buy [6, 9, 7] {}).totalTokensSold = 5 ∧
      Along.Throughout buy (Paid cfg) [6, 9, 7] {} ∧ cfg.price 5 ≤ cfg.price 7 := by
  intro cfg buy
  have hprices : cfg.Fits 4 := by unfold PricingConfig.Fits; decide +kernel
  have h := never_below_curve cfg (by decide) (by decide) (by decide) 4 (by decide)
  refine ⟨by decide +kernel, h.2.1 hprices [6, 9, 7] ?_, h.1.mp hprices 5 7 (by decide) (by decide)⟩
  exact ⟨⟨by decide, by decide +kernel⟩, ⟨by decide, by decide +kernel⟩,
    ⟨by decide, by decide +kernel⟩, trivial⟩

/-- A price that doubles with every unit overflows at the 89th and is divided by 1000. -/
theorem overflow_lowers_price :
    (PricingConfig.mk (10 ^ 9) 1 2000).price 89 < (PricingConfig.mk (10 ^ 9) 1 2000).price 88 := by
  decide +kernel

end LiquidityPool
