/-
Decimals with eighteen digits after the point.

A decimal is a whole number of units of `10^-18`.  A product is rounded to the nearest unit, and a
tie to the even one, so that a product with an integer is exact.  Numbers of too many bits, and
conversions out of range, end the computation.

Main result: `Dec.scale_eq_floor`.
-/
import Mathlib.Algebra.Order.Floor.Ring
import Mathlib.Data.Rat.Floor
import Mathlib.Tactic.FieldSimp
import Mathlib.Tactic.Linarith
import Mathlib.Tactic.Positivity

structure Dec where
  units : ℤ
deriving DecidableEq

namespace Dec

def precision : ℤ := 10 ^ 18

def ofInt (n : ℤ) : Dec := ⟨n * precision⟩

def one : Dec := ofInt 1

def IsPositive (d : Dec) : Prop := 0 < d.units

instance (d : Dec) : Decidable d.IsPositive := inferInstanceAs (Decidable (_ < _))

/-- A number of units that is not negative, divided by the precision: to the nearest, and a tie to the
even one. -/
def roundNonneg (x : ℤ) : ℤ :=
  if 2 * (x % precision) < precision then x / precision
  else if precision < 2 * (x % precision) then x / precision + 1
  else if x / precision % 2 = 0 then x / precision
  else x / precision + 1

def chopPrecisionAndRound (x : ℤ) : ℤ := if x < 0 then -roundNonneg (-x) else roundNonneg x

/-- `Mul`, which panics when there are too many bits. -/
def mul (a b : Dec) : Option Dec :=
  if (chopPrecisionAndRound (a.units * b.units)).natAbs < 2 ^ 315 then
    some ⟨chopPrecisionAndRound (a.units * b.units)⟩
  else none

/-- `TruncateInt`, towards zero. -/
def truncateInt (d : Dec) : ℤ := d.units.tdiv precision

/-- `TruncateInt64`, which panics out of range. -/
def truncateInt64 (d : Dec) : Option ℤ :=
  if -2 ^ 63 ≤ d.truncateInt ∧ d.truncateInt < 2 ^ 63 then some d.truncateInt else none

/-- `LegacyNewDec(n).Mul(d).TruncateInt64()`. -/
def scale (n : ℤ) (d : Dec) : Option ℤ := ((ofInt n).mul d).bind truncateInt64

/-- `LegacyNewDec(x).Quo(LegacyNewDec(y))`, where `x` is not negative and `y` is positive. -/
def ratio (x y : ℤ) : Dec := ⟨roundNonneg (x * precision * precision / y)⟩

/-- The number that the decimal stands for. -/
def value (d : Dec) : ℚ := d.units / precision

variable {d : Dec} {n t : ℤ}

theorem precision_pos : 0 < precision := by norm_num [precision]

theorem roundNonneg_mul (n : ℤ) : roundNonneg (n * precision) = n := by
  unfold roundNonneg
  rw [Int.mul_emod_left, if_pos (by rw [mul_zero]; exact precision_pos),
    Int.mul_ediv_cancel n precision_pos.ne']

theorem chopPrecisionAndRound_mul (n : ℤ) : chopPrecisionAndRound (n * precision) = n := by
  unfold chopPrecisionAndRound
  split
  · rw [← neg_mul, roundNonneg_mul, neg_neg]
  · exact roundNonneg_mul n

theorem mul_ofInt (n : ℤ) (d : Dec) :
    (ofInt n).mul d = if (n * d.units).natAbs < 2 ^ 315 then some ⟨n * d.units⟩ else none := by
  have hunits : (ofInt n).units * d.units = n * d.units * precision := by
    unfold ofInt
    ring
  unfold mul
  rw [hunits, chopPrecisionAndRound_mul]

theorem truncateInt_eq_floor (h : 0 ≤ d.units) : d.truncateInt = ⌊d.value⌋ := by
  unfold truncateInt value
  rw [Int.tdiv_eq_ediv_of_nonneg h]
  exact (Rat.floor_intCast_div_natCast d.units (10 ^ 18)).symm

theorem truncateInt64_eq_some (h : d.truncateInt64 = some t) : t = d.truncateInt := by
  unfold truncateInt64 at h
  split at h
  · exact (Option.some.inj h).symm
  · cases h

/-- **An integer scaled by a decimal is rounded down**, when neither is negative. -/
theorem scale_eq_floor (hn : 0 ≤ n) (hd : 0 ≤ d.units) (h : scale n d = some t) :
    t = ⌊n * d.value⌋ := by
  obtain ⟨_, hmul, htruncate⟩ := Option.bind_eq_some_iff.mp h
  rw [mul_ofInt] at hmul
  split at hmul
  case isFalse => cases hmul
  cases hmul
  have hvalue : (⟨n * d.units⟩ : Dec).value = n * d.value := by
    unfold value
    push_cast
    ring
  rw [truncateInt64_eq_some htruncate, truncateInt_eq_floor (mul_nonneg hn hd), hvalue]

theorem roundNonneg_bounds (x : ℤ) : 2 * roundNonneg x * precision ≤ 2 * x + precision ∧
      2 * x ≤ 2 * roundNonneg x * precision + precision := by
  have hdiv := Int.mul_ediv_add_emod x precision
  have hmod := Int.emod_nonneg x precision_pos.ne'
  have hlt := Int.emod_lt_of_pos x precision_pos
  unfold roundNonneg
  generalize x / precision = q at hdiv
  generalize x % precision = r at hdiv hmod hlt
  have hq : 2 * (q + 1) * precision = 2 * (precision * q) + 2 * precision := by ring
  have hq' : 2 * q * precision = 2 * (precision * q) := by ring
  split
  · rw [hq']
    constructor <;> omega
  split
  · rw [hq]
    constructor <;> omega
  split
  · rw [hq']
    constructor <;> omega
  · rw [hq]
    constructor <;> omega

theorem roundNonneg_le (x : ℤ) : (roundNonneg x : ℚ) ≤ x / precision + 1 / 2 := by
  have hP : (0 : ℚ) < precision := by exact_mod_cast precision_pos
  have h : (2 * roundNonneg x * precision : ℚ) ≤ 2 * x + precision := by
    exact_mod_cast (roundNonneg_bounds x).1
  have hsum : (x : ℚ) / precision + 1 / 2 = (2 * x + precision) / (2 * precision) := by
    field_simp
  rw [hsum, le_div_iff₀ (by positivity)]
  linarith

theorem le_roundNonneg (x : ℤ) : (x : ℚ) / precision - 1 / 2 ≤ roundNonneg x := by
  have hP : (0 : ℚ) < precision := by exact_mod_cast precision_pos
  have h : (2 * x : ℚ) ≤ 2 * roundNonneg x * precision + precision := by
    exact_mod_cast (roundNonneg_bounds x).2
  have hdiff : (x : ℚ) / precision - 1 / 2 = (2 * x - precision) / (2 * precision) := by
    field_simp
  rw [hdiff, div_le_iff₀ (by positivity)]
  linarith

theorem ratio_value_bounds {x y : ℤ} (hy : 0 < y) :
    (ratio x y).value ≤ x / y + 1 / (2 * precision) ∧
      (x / y - 1 / (2 * precision) - 1 / precision ^ 2 : ℚ) ≤ (ratio x y).value := by
  have hP : (0 : ℚ) < precision := by exact_mod_cast precision_pos
  have hy' : (0 : ℚ) < y := by exact_mod_cast hy
  set q := x * precision * precision / y with hq
  -- the quotient before it is rounded
  have hle : (q : ℚ) ≤ x * precision * precision / y := by
    rw [le_div_iff₀ hy']
    exact_mod_cast Int.ediv_mul_le (x * precision * precision) hy.ne'
  have hlt : (x * precision * precision / y - 1 : ℚ) ≤ q := by
    rw [sub_le_iff_le_add, div_le_iff₀ hy']
    exact_mod_cast (Int.lt_ediv_add_one_mul_self (x * precision * precision) hy).le
  have hupper := roundNonneg_le q
  have hlower := le_roundNonneg q
  have hvalue : (ratio x y).value = (roundNonneg q : ℚ) / precision := rfl
  rw [hvalue]
  constructor
  · have hdiv : (q : ℚ) / precision ≤ x * precision / y := by
      rw [div_le_iff₀ hP]
      calc (q : ℚ) ≤ x * precision * precision / y := hle
        _ = x * precision / y * precision := by ring
    rw [div_le_iff₀ hP]
    calc (roundNonneg q : ℚ) ≤ q / precision + 1 / 2 := hupper
      _ ≤ x * precision / y + 1 / 2 := by linarith
      _ = (x / y + 1 / (2 * precision)) * precision := by field_simp
  · have hdiv : (x * precision / y - 1 / precision : ℚ) ≤ q / precision := by
      rw [le_div_iff₀ hP]
      calc (x * precision / y - 1 / precision) * precision
          = (x * precision * precision / y - 1 : ℚ) := by field_simp
        _ ≤ q := hlt
    rw [le_div_iff₀ hP]
    calc (x / y - 1 / (2 * precision) - 1 / precision ^ 2) * precision
        = (x * precision / y - 1 / precision - 1 / 2 : ℚ) := by field_simp; ring
      _ ≤ q / precision - 1 / 2 := by linarith
      _ ≤ roundNonneg q := hlower

end Dec
