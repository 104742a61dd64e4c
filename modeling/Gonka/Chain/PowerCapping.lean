/-
The limit on the power of one participant.

Of the positive weights none may be more than a share of their sum: a half of two, two fifths of
three, three tenths of four or more.  `CalculateOptimalCap` goes through the weights in ascending
order; at the first one that would be too much if all later ones were cut down to it, the cut is
computed from the sum of the weights before.

Main result: `capping_exact`.
-/
import Mathlib.Tactic.Linarith
import Mathlib.Tactic.Ring
import Mathlib.Algebra.Order.Ring.Int
import Mathlib.Algebra.BigOperators.Ring.List
import Gonka.Chain.RewardAccounting

namespace Rewards

open List

/-- No power exceeds its share, in tenths, of the sum. -/
def Limited (m : ℤ) (powers : List ℤ) : Prop := ∀ w ∈ powers, 10 * w ≤ m * powers.sum

def cutAt (c : ℤ) (powers : List ℤ) : List ℤ := powers.map (min c)

/-- The cut is positive, within the limit and the largest such, and there is need of one. -/
structure Cut (m : ℤ) (powers : List ℤ) (c : ℤ) : Prop where
  pos : 0 < c
  limited : Limited m (cutAt c powers)
  largest : ¬ Limited m (cutAt (c + 1) powers)
  needed : ¬ Limited m powers

def Found (m : ℤ) (powers : List ℤ) : Option ℤ → Prop
  | none => Limited m powers
  | some c => Cut m powers c

variable {m c : ℤ} {powers powers' : List ℤ}

theorem Limited.perm (h : powers.Perm powers') : Limited m powers ↔ Limited m powers' := by
  unfold Limited
  rw [h.sum_eq]
  simp only [h.mem_iff]

theorem Found.perm (h : powers.Perm powers') {found : Option ℤ} (hf : Found m powers found) :
    Found m powers' found := by
  cases found with
  | none => exact (Limited.perm h).mp hf
  | some =>
    exact ⟨hf.pos, (Limited.perm (h.map _)).mp hf.limited,
      mt (Limited.perm (h.map _)).mpr hf.largest, mt (Limited.perm h).mpr hf.needed⟩

/-- The sum of powers that are cut between `pre` and `suf`. -/
theorem sum_cutAt {pre suf : List ℤ} (hpre : ∀ x ∈ pre, x ≤ c) (hsuf : ∀ x ∈ suf, c ≤ x) :
    (cutAt c (pre ++ suf)).sum = pre.sum + c * suf.length := by
  have hkept : pre.map (min c) = pre := by
    conv_rhs => rw [← map_id pre]
    exact map_congr_left fun x hx => min_eq_right (hpre x hx)
  have hcut : suf.map (min c) = List.replicate suf.length c :=
    eq_replicate_iff.mpr ⟨length_map _, fun x hx => by
      obtain ⟨y, hy, rfl⟩ := mem_map.mp hx
      exact min_eq_left (hsuf y hy)⟩
  unfold cutAt
  rw [map_append, sum_append, hkept, hcut, sum_replicate, nsmul_eq_mul, mul_comm]

/-- The quotient is not rounded up to the next integer. -/
theorem divIntPart_eq {a b : ℤ} (ha : 0 ≤ a) (hb : 0 < b) (hsmall : b < 10) :
    divIntPart a b = a / b := by
  obtain ⟨a, rfl⟩ := Int.eq_ofNat_of_zero_le ha
  obtain ⟨b, rfl⟩ := Int.eq_ofNat_of_zero_le hb.le
  have hdiv := Nat.div_add_mod a b
  have hmod := Nat.mod_lt a (by omega : 0 < b)
  simp only [divIntPart, Int.natAbs_natCast, ha, hb.le, if_true]
  rw [Nat.div_div_eq_div_mul, ← Int.natCast_ediv]
  congr 1
  generalize a / b = q, a % b = s at hdiv hmod ⊢
  refine Nat.div_eq_of_lt_le ?_ ?_
  · nlinarith
  · nlinarith

/-- What the loop finds in `suf`, after `pre` with powers up to `top` was passed. -/
theorem findCap_spec (hm : 0 < m) {pre suf : List ℤ} {top : ℤ} (htop : 0 ≤ top)
    (hsum : 0 ≤ pre.sum) (hpre : ∀ x ∈ pre, x ≤ top) (hsuf : ∀ x ∈ suf, 0 < x ∧ top ≤ x)
    (hsorted : suf.Pairwise (· ≤ ·)) (hok : 10 * top ≤ m * (pre.sum + top * suf.length))
    (hfit : ∀ x ∈ suf, pre.sum + x * suf.length < 2 ^ 63)
    (hstart : 0 < top ∨ 10 ≤ m * suf.length) :
    Found m (pre ++ suf) (findCap m pre.sum suf) := by
  induction suf generalizing pre top with
  | nil =>
    intro x hx
    rw [append_nil] at hx ⊢
    have hle := hpre x hx
    rw [length_nil, Nat.cast_zero, mul_zero, add_zero] at hok
    omega
  | cons y rest ih =>
    obtain ⟨hy, hle⟩ := hsuf y mem_cons_self
    obtain ⟨hfirst, hrest⟩ := pairwise_cons.mp hsorted
    have hfits := hfit y mem_cons_self
    simp only [length_cons] at hok hfits hstart hfit
    simp only [findCap]
    obtain ⟨r, hr⟩ : ∃ r : ℤ, r = ((rest.length + 1 : ℕ) : ℤ) := ⟨_, rfl⟩
    have hpos : 0 < r := by omega
    rw [← hr] at hok hfits hstart ⊢
    have hprod : 0 < y * r := mul_pos hy hpos
    rw [wrap64_of_range (by omega) (by omega : y * r < 2 ^ 63),
      wrap64_of_range (by omega) (by omega : pre.sum + y * r < 2 ^ 63)]
    by_cases hover : m * (pre.sum + y * r) < 10 * y
    · -- the quotient has a positive denominator, as the power is more than its share
      have hover' : m * pre.sum < y * (10 - m * r) := by nlinarith
      have hden : 0 < 10 - m * r := by
        by_contra hnot
        have := mul_nonpos_of_nonneg_of_nonpos hy.le (not_lt.mp hnot)
        have := mul_nonneg hm.le hsum
        omega
      have hnum : 0 ≤ m * pre.sum := mul_nonneg hm.le hsum
      rw [if_pos hover, if_neg (not_le.mpr hden), divIntPart_eq hnum hden (by nlinarith)]
      obtain ⟨c, hc⟩ : ∃ c, c = m * pre.sum / (10 - m * r) := ⟨_, rfl⟩
      have hlow : c * (10 - m * r) ≤ m * pre.sum := hc ▸ Int.ediv_mul_le _ hden.ne'
      have hhigh : m * pre.sum < (c + 1) * (10 - m * r) := hc ▸ Int.lt_ediv_add_one_mul_self _ hden
      have htopc : top ≤ c := by
        rw [hc, Int.le_ediv_iff_mul_le hden]
        linarith [mul_add m pre.sum (top * r)]
      have hcy : c < y := lt_of_mul_lt_mul_right (hlow.trans_lt hover') hden.le
      have hge : ∀ x ∈ y :: rest, y ≤ x := by
        intro x hx
        rcases mem_cons.mp hx with rfl | hx
        · exact le_rfl
        · exact hfirst x hx
      have hyr : y ≤ y * r := le_mul_of_one_le_right hy.le (by omega)
      rw [← hc, wrap64_of_range (by omega) (by omega)]
      have hcut {e : ℤ} (hte : top ≤ e) (hey : e ≤ y) :
          (cutAt e (pre ++ y :: rest)).sum = pre.sum + e * r := by
        rw [sum_cutAt (fun x hx => (hpre x hx).trans hte) fun x hx => hey.trans (hge x hx), hr]
        rfl
      refine ⟨?_, ?_, ?_, ?_⟩
      · rcases hstart with hstart | hstart <;> omega
      · intro w hw
        obtain ⟨x, -, rfl⟩ := mem_map.mp hw
        have := min_le_left c x
        rw [hcut htopc hcy.le]
        linarith [mul_add m pre.sum (c * r)]
      · intro hlimited
        have hmem : c + 1 ∈ cutAt (c + 1) (pre ++ y :: rest) :=
          mem_map.mpr ⟨y, by simp, min_eq_left hcy⟩
        have := hlimited _ hmem
        rw [hcut (by omega) hcy] at this
        linarith [mul_add m pre.sum ((c + 1) * r)]
      · -- the later powers together would be too much
        intro hlimited
        have hupper : ((y :: rest).map (10 * ·)).sum ≤ r * (m * (pre ++ y :: rest).sum) := by
          have := sum_le_card_nsmul ((y :: rest).map (10 * ·)) (m * (pre ++ y :: rest).sum)
            fun w hw => by
              obtain ⟨x, hx, rfl⟩ := mem_map.mp hw
              exact hlimited x (mem_append_right _ hx)
          rwa [length_map, length_cons, nsmul_eq_mul, ← hr] at this
        have hlower : r * y ≤ (y :: rest).sum := by
          have := card_nsmul_le_sum (y :: rest) y hge
          rwa [length_cons, nsmul_eq_mul, ← hr] at this
        rw [sum_map_mul_left, map_id', sum_append] at hupper
        nlinarith
    · have hstep : pre.sum + y = (pre ++ [y]).sum := by simp
      have hyr : y ≤ y * r := le_mul_of_one_le_right hy.le (by omega)
      rw [if_neg hover, wrap64_of_range (by omega) (by omega : pre.sum + y < 2 ^ 63), hstep,
        show pre ++ y :: rest = (pre ++ [y]) ++ rest by simp]
      refine ih hy.le (by omega) ?_ (fun x hx => ⟨(hsuf x (.tail _ hx)).1, hfirst x hx⟩) hrest ?_ ?_
        (.inl hy)
      · intro x hx
        rcases mem_append.mp hx with hx | hx
        · exact (hpre x hx).trans hle
        · exact (mem_singleton.mp hx).le
      · rw [← hstep]
        have hsplit : y * r = y + y * rest.length := by rw [hr]; push_cast; ring
        rw [add_assoc, ← hsplit]
        exact not_lt.mp hover
      · intro x hx
        have := hfit x (mem_cons_of_mem _ hx)
        push_cast at *
        nlinarith

def positives (participants : List (ℕ × ℤ)) : List ℤ := (participants.map Prod.snd).filter (0 < ·)

/-- The flag that `ApplyPowerCappingForWeights` returns with the list. -/
def wasCapped (participants : List (ℕ × ℤ)) : Bool :=
  let powers := positives participants
  decide (1 < powers.length) &&
    (findCap (getNetworkLimit powers.length) 0 (powers.insertionSort (· ≤ ·))).any (0 < ·)

/-- Every weight is cut at `c`. -/
def capAt (c : ℤ) (participants : List (ℕ × ℤ)) : List (ℕ × ℤ) :=
  participants.map fun p => (p.1, min c p.2)

theorem positives_capAt (hc : 0 < c) (participants : List (ℕ × ℤ)) :
    positives (capAt c participants) = cutAt c (positives participants) := by
  induction participants with
  | nil => rfl
  | cons p _ ih =>
    unfold positives capAt cutAt at ih ⊢
    rw [map_cons, map_cons, map_cons, filter_cons, filter_cons, ih]
    by_cases hp : 0 < p.2 <;> simp [hp, hc]

variable {participants : List (ℕ × ℤ)}

theorem findCap_positives (hcount : 1 < (positives participants).length)
    (hfit : ∀ p ∈ participants, (positives participants).length * p.2 ≤ maxInt64) :
    Found (getNetworkLimit (positives participants).length) (positives participants)
      (findCap (getNetworkLimit (positives participants).length) 0
        ((positives participants).insertionSort (· ≤ ·))) := by
  have hperm := perm_insertionSort (· ≤ ·) (positives participants)
  have hlimit : 0 < getNetworkLimit (positives participants).length ∧
      10 ≤ getNetworkLimit (positives participants).length * (positives participants).length := by
    unfold getNetworkLimit
    split_ifs <;> omega
  have hmem : ∀ x ∈ positives participants, 0 < x ∧
      x * (positives participants).length < 2 ^ 63 := by
    intro x hx
    obtain ⟨hx, hpos⟩ := mem_filter.mp hx
    obtain ⟨p, hp, rfl⟩ := mem_map.mp hx
    have := hfit p hp
    unfold maxInt64 at this
    exact ⟨by simpa using hpos, by linarith [mul_comm p.2 (positives participants).length]⟩
  have hspec : Found _ ([] ++ _) _ := findCap_spec hlimit.1 le_rfl le_rfl (fun _ h => nomatch h)
    (fun x hx => ⟨(hmem x (hperm.mem_iff.mp hx)).1, (hmem x (hperm.mem_iff.mp hx)).1.le⟩)
    (pairwise_insertionSort (· ≤ ·) (positives participants)) (by simp)
    (fun x hx => by simpa [hperm.length_eq] using (hmem x (hperm.mem_iff.mp hx)).2)
    (.inr (by rw [hperm.length_eq]; exact hlimit.2))
  exact hspec.perm hperm

/-- **Capping is exact**: the participants and their order stay, no weight grows, what is not
positive stays and what is positive remains so.  If a weight exceeds its share of the sum, all are
cut at one value, which keeps to the limit while the next one would not; otherwise nothing
changes. -/
theorem capping_exact (participants : List (ℕ × ℤ))
    (hfit : ∀ p ∈ participants, (positives participants).length * p.2 ≤ maxInt64) :
    let m := getNetworkLimit (positives participants).length
    let result := applyPowerCappingForWeights participants
    List.Forall₂ (fun p q => q.1 = p.1 ∧ q.2 ≤ p.2 ∧ (p.2 ≤ 0 → q.2 = p.2) ∧ (0 < p.2 → 0 < q.2))
        participants result ∧
      (1 < (positives participants).length → Limited m (positives result)) ∧
      (wasCapped participants = false → result = participants) ∧
      (wasCapped participants = true → ∃ c, 0 < c ∧ result = capAt c participants ∧
        ¬ Limited m (positives (capAt (c + 1) participants))) ∧
      ((positives participants).length ≤ 1 ∨ Limited m (positives participants) →
        wasCapped participants = false) := by
  intro m result
  have hsame : List.Forall₂ (fun p q : ℕ × ℤ => q.1 = p.1 ∧ q.2 ≤ p.2 ∧ (p.2 ≤ 0 → q.2 = p.2) ∧
      (0 < p.2 → 0 < q.2)) participants participants :=
    List.forall₂_same.mpr fun p _ => ⟨rfl, le_rfl, fun _ => rfl, id⟩
  rcases Nat.lt_or_ge 1 (positives participants).length with hcount | hcount
  · have hfound := findCap_positives hcount hfit
    have hcapped : wasCapped participants = (findCap m 0
        ((positives participants).insertionSort (· ≤ ·))).any (0 < ·) := by
      simp only [wasCapped, hcount, decide_true, Bool.true_and, m]
    have hresult : result = calculateOptimalCap participants m := if_neg (not_le.mpr hcount)
    rw [hcapped]
    change result = match findCap m 0 ((positives participants).insertionSort (· ≤ ·)) with
      | none => _ | some cap => _ at hresult
    cases hcap : findCap m 0 ((positives participants).insertionSort (· ≤ ·)) with
    | none =>
      rw [hcap] at hresult hfound
      rw [show result = participants from hresult]
      exact ⟨hsame, fun _ => hfound, fun _ => rfl, nofun, fun _ => rfl⟩
    | some c =>
      rw [hcap] at hresult hfound
      have hpos := hfound.pos
      have heq : result = capAt c participants := by
        rw [hresult]
        dsimp only
        rw [if_neg (not_le.mpr hpos)]
        refine List.map_congr_left fun p _ => ?_
        split
        · next hlt => rw [min_eq_left hlt.le]
        · next hle => rw [min_eq_right (not_lt.mp hle)]
      rw [heq]
      refine ⟨?_, fun _ => ?_, ?_, fun _ => ⟨c, hpos, rfl, ?_⟩, ?_⟩
      · refine List.forall₂_map_right_iff.mpr (List.forall₂_same.mpr fun p _ => ?_)
        exact ⟨rfl, min_le_right _ _, fun hp => min_eq_right (by omega), fun hp => lt_min hpos hp⟩
      · rw [positives_capAt hpos]
        exact hfound.limited
      · simp [hpos]
      · rw [positives_capAt (by omega)]
        exact hfound.largest
      · rintro (_ | hlimited)
        · omega
        · exact absurd hlimited hfound.needed
  · have hcapped : wasCapped participants = false := by
      simp only [wasCapped, not_lt.mpr hcount, decide_false, Bool.false_and]
    have hresult : result = participants := if_pos hcount
    rw [hresult, hcapped]
    exact ⟨hsame, fun h => absurd h (not_lt.mpr hcount), fun _ => rfl, nofun, fun _ => rfl⟩

def threeHosts : List (ℕ × ℤ) := [(1, 70), (2, 10), (3, 0), (4, 20)]

theorem capping_exact_three :
    wasCapped threeHosts = true ∧
      applyPowerCappingForWeights threeHosts = [(1, 20), (2, 10), (3, 0), (4, 20)] ∧
      ∃ c, applyPowerCappingForWeights threeHosts = capAt c threeHosts ∧
        ¬ Limited 4 (positives (capAt (c + 1) threeHosts)) := by
  have hexact := capping_exact threeHosts (by decide)
  obtain ⟨c, -, hresult, hlargest⟩ := hexact.2.2.2.1 (by decide)
  exact ⟨by decide, by decide, c, hresult, hlargest⟩

end Rewards
