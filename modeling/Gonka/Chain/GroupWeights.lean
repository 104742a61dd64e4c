/-
The weights that the model groups contribute to consensus.

The members of a group contribute their weights times a coefficient.  A group other than the
initial one is capped at a share of the network's weight: its contributions are scaled by a rounded
quotient and rounded down.

Main results: `computeConsensusWeights_capped`, `huge_cap_panics`.
-/
import Gonka.Chain.EpochContext
import Gonka.Lib.Dec
import Gonka.Lib.OrdMap

namespace Delegation

open Inference OrdMap Dec List Option

variable {M A : Type}

structure GroupData (A : Type) where
  members : List A
  memberPocWeights : A → ℤ
  consensusKoeff : Dec
  isInitialGroup : Bool

structure DelegationWeightCalculator (M A : Type) where
  groups : M → Option (GroupData A)
  totalNetworkWeight : ℤ
  capFactor : Dec

structure GroupSummary (M : Type) where
  modelID : M
  coeff : Dec
  rawTotal : ℤ
  cap : ℤ
  scale : Dec

def computeGroupCap (wc : DelegationWeightCalculator M A) (modelID : M) : Option ℤ :=
  match wc.groups modelID with
  | none => some 0
  | some g =>
    if g.isInitialGroup then some (-1)
    else (scale wc.totalNetworkWeight wc.capFactor).map fun cap => if cap < 0 then 0 else cap

def GroupData.rawContribution (g : GroupData A) (m : A) : Option ℤ :=
  scale (g.memberPocWeights m) g.consensusKoeff

def scaleFactor (cap rawTotal : ℤ) : Dec :=
  if 0 ≤ cap ∧ cap < rawTotal ∧ 0 < rawTotal then ratio cap rawTotal else one

section

variable [LinearOrder A]

/-- What the members of a group contribute.  The raw contributions are kept in a map, so that each
member has one entry. -/
def groupContributions (wc : DelegationWeightCalculator M A) (soleGroup : Bool)
    (modelID : M) (g : GroupData A) : Option (List (A × ℤ) × GroupSummary M) := do
  let rawTotal ← g.members.foldlM
    (fun total m => (g.rawContribution m).map fun contrib => i64 (total + contrib)) 0
  -- a sole group has nothing to be capped against
  let cap ← bif soleGroup then some (-1) else computeGroupCap wc modelID
  let scale := scaleFactor cap rawTotal
  let scaled ← g.members.dedup.mapM fun m =>
    ((g.rawContribution m).bind (Dec.scale · scale)).map (m, ·)
  return (scaled, ⟨modelID, g.consensusKoeff, rawTotal, cap, scale⟩)

def addGroup (wc : DelegationWeightCalculator M A) (soleGroup : Bool)
    (acc : OrdMap A ℤ × List (GroupSummary M)) (modelID : M) :
    Option (OrdMap A ℤ × List (GroupSummary M)) :=
  match wc.groups modelID with
  | none => some acc
  | some g => (groupContributions wc soleGroup modelID g).map fun group =>
    (group.1.foldl (fun result e =>
      result.insert e.1 (i64 ((result.get? e.1).getD 0 + e.2))) acc.1, acc.2 ++ [group.2])

def computeConsensusWeights (wc : DelegationWeightCalculator M A) (eligibleModels : List M) :
    Option (OrdMap A ℤ × List (GroupSummary M)) :=
  eligibleModels.foldlM (addGroup wc (eligibleModels.length == 1)) (∅, [])

end

namespace GroupData

variable (g : GroupData A) (cap : ℤ)

def raw (m : A) : ℤ := (g.rawContribution m).getD 0

def rawTotal : ℤ := (g.members.map g.raw).sum

def factor : Dec := scaleFactor cap g.rawTotal

def scaled (m : A) : ℤ := ⌊g.raw m * (g.factor cap).value⌋

/-- The members are distinct, and contribute less than `10 ^ 18` together. -/
structure Sound : Prop where
  nodup : g.members.Nodup
  contributes : ∀ m ∈ g.members, g.rawContribution m = some (g.raw m) ∧ 0 ≤ g.raw m
  total : g.rawTotal < 10 ^ 18

/-- The cap is respected, and little is lost to it. -/
structure Capped : Prop where
  le_raw : ∀ m ∈ g.members, 0 ≤ g.scaled cap m ∧ g.scaled cap m ≤ g.raw m
  le_cap : 0 ≤ cap → (g.members.map (g.scaled cap)).sum ≤ cap
  uncapped : cap < 0 ∨ g.rawTotal ≤ cap → ∀ m ∈ g.members, g.scaled cap m = g.raw m
  loss : 0 ≤ cap → cap < g.rawTotal →
    cap - (g.members.map (g.scaled cap)).sum < g.members.length + 1

end GroupData

theorem scaleFactor_bounds (cap total : ℤ) :
    0 ≤ (scaleFactor cap total).units ∧ (scaleFactor cap total).units ≤ precision := by
  unfold scaleFactor
  split
  · next h =>
    obtain ⟨hcap, hlt, hpos⟩ := h
    have hP := precision_pos
    obtain ⟨hupper, hlower⟩ := roundNonneg_bounds (cap * precision * precision / total)
    have hquo : 0 ≤ cap * precision * precision / total :=
      Int.ediv_nonneg (by positivity) hpos.le
    have hquo' : cap * precision * precision / total < precision * precision := by
      refine Int.ediv_lt_of_lt_mul hpos ?_
      rw [mul_assoc, mul_comm]
      exact mul_lt_mul_of_pos_left hlt (mul_pos hP hP)
    show 0 ≤ roundNonneg _ ∧ roundNonneg _ ≤ _
    constructor <;> nlinarith
  · exact ⟨by decide, le_of_eq (one_mul _)⟩

section

variable {g : GroupData A} (hg : g.Sound) (cap : ℤ) {m : A} {l : List A}
include hg

theorem raw_nonneg (hl : l ⊆ g.members) : ∀ c ∈ l.map g.raw, 0 ≤ c := by
  intro c hc
  obtain ⟨m, hm, rfl⟩ := mem_map.mp hc
  exact (hg.contributes m (hl hm)).2

theorem scale_raw (hm : m ∈ g.members) :
    scale (g.raw m) (g.factor cap) = some (g.scaled cap m) := by
  obtain ⟨hunits, hone⟩ := scaleFactor_bounds cap g.rawTotal
  have hraw := (hg.contributes m hm).2
  have htotal : g.raw m ≤ g.rawTotal :=
    single_le_sum (raw_nonneg hg (List.Subset.refl _)) _ (mem_map_of_mem hm)
  have hlt := htotal.trans_lt hg.total
  have hle : g.raw m * (g.factor cap).units ≤ g.raw m * precision :=
    mul_le_mul_of_nonneg_left hone hraw
  have hnonneg : 0 ≤ g.raw m * (g.factor cap).units := mul_nonneg hraw hunits
  have hsome : scale (g.raw m) (g.factor cap) =
      some (g.raw m * (g.factor cap).units / precision) := by
    have hdiv := Int.ediv_le_of_le_mul precision_pos hle
    have hdiv' := Int.ediv_nonneg hnonneg precision_pos.le
    unfold scale
    rw [mul_ofInt, if_pos (by unfold precision at hle; omega), bind_some]
    unfold truncateInt64 truncateInt
    rw [Int.tdiv_eq_ediv_of_nonneg hnonneg]
    exact if_pos ⟨by omega, by omega⟩
  rw [hsome, scale_eq_floor hraw hunits hsome]
  rfl

omit hg in
theorem sum_scaled_bounds (l : List A) :
    ((l.map (g.scaled cap)).sum : ℚ) ≤ (l.map g.raw).sum * (g.factor cap).value ∧
      (l.map g.raw).sum * (g.factor cap).value - l.length ≤ ((l.map (g.scaled cap)).sum : ℚ) := by
  induction l with
  | nil => simp
  | cons m l ih =>
    have hle : (g.scaled cap m : ℚ) ≤ _ := Int.floor_le (g.raw m * (g.factor cap).value)
    have hlt : _ < (g.scaled cap m : ℚ) := Int.sub_one_lt_floor (g.raw m * (g.factor cap).value)
    simp only [map_cons, sum_cons, length_cons]
    push_cast at ih ⊢
    constructor <;> linarith

theorem GroupData.capped : g.Capped cap := by
  have huncapped (h : cap < 0 ∨ g.rawTotal ≤ cap) (m : A) : g.scaled cap m = g.raw m := by
    have hone : (g.factor cap).value = 1 := by
      unfold factor scaleFactor
      rw [if_neg (by omega)]
      norm_num [value, one, ofInt, precision]
    unfold scaled
    rw [hone, mul_one, Int.floor_intCast]
  have hscaled (hcap : 0 ≤ cap) (hlt : cap < g.rawTotal) :
      (g.members.map (g.scaled cap)).sum ≤ cap ∧
        cap - (g.members.map (g.scaled cap)).sum < g.members.length + 1 := by
    have hpos : (0 : ℚ) < g.rawTotal := by exact_mod_cast hcap.trans_lt hlt
    have htotal : (g.rawTotal : ℚ) < 10 ^ 18 := by exact_mod_cast hg.total
    have hratio : g.factor cap = ratio cap g.rawTotal := if_pos ⟨hcap, hlt, hcap.trans_lt hlt⟩
    obtain ⟨hupper, hlower⟩ := ratio_value_bounds (x := cap) (hcap.trans_lt hlt)
    have hupper := mul_le_mul_of_nonneg_left hupper hpos.le
    have hlower := mul_le_mul_of_nonneg_left hlower hpos.le
    obtain ⟨hle, hge⟩ := @sum_scaled_bounds A g cap g.members
    rw [hratio, ← rawTotal] at hle hge
    rw [mul_add, mul_div_cancel₀ _ hpos.ne'] at hupper
    rw [mul_sub, mul_sub, mul_div_cancel₀ _ hpos.ne'] at hlower
    norm_num [precision] at hupper hlower
    -- the quotient is off by less than one unit for the whole group
    have hle' : ((g.members.map (g.scaled cap)).sum : ℚ) < cap + 1 := by linarith
    have hge' : (cap - (g.members.map (g.scaled cap)).sum : ℚ) < g.members.length + 1 := by linarith
    exact ⟨Int.lt_add_one_iff.mp (by exact_mod_cast hle'), by exact_mod_cast hge'⟩
  obtain ⟨hunits, hone⟩ := scaleFactor_bounds cap g.rawTotal
  have hvalue : 0 ≤ (g.factor cap).value :=
    div_nonneg (by exact_mod_cast hunits) (by norm_num [precision])
  have hvalue' : (g.factor cap).value ≤ 1 :=
    div_le_one_of_le₀ (by exact_mod_cast hone) (by norm_num [precision])
  refine ⟨fun m hm => ?_, fun hcap => ?_, fun h m _ => huncapped h m,
    fun hcap hlt => (hscaled hcap hlt).2⟩
  · have hraw : (0 : ℚ) ≤ g.raw m := by exact_mod_cast (hg.contributes m hm).2
    refine ⟨Int.floor_nonneg.mpr (mul_nonneg hraw hvalue), Int.floor_le_iff.mpr ?_⟩
    linarith [mul_le_of_le_one_right hraw hvalue']
  · by_cases hlt : cap < g.rawTotal
    · exact (hscaled hcap hlt).1
    · rw [funext (huncapped (.inr (not_lt.mp hlt)))]
      exact not_lt.mp hlt

theorem rawTotal_run :
    g.members.foldlM
      (fun total m => (g.rawContribution m).map fun contrib => i64 (total + contrib)) 0 =
        some g.rawTotal := by
  -- some of the members have been counted
  have hrun (l : List A) (hsub : l ⊆ g.members) (total : ℤ) (hpos : 0 ≤ total)
      (htotal : total + (l.map g.raw).sum < 10 ^ 18) :
      l.foldlM (fun total m => (g.rawContribution m).map fun contrib => i64 (total + contrib))
        total = some (total + (l.map g.raw).sum) := by
    induction l generalizing total with
    | nil => simp
    | cons m l ih =>
      obtain ⟨hm, hl⟩ := cons_subset.mp hsub
      obtain ⟨hraw, hnonneg⟩ := hg.contributes m hm
      have hsum := sum_nonneg (raw_nonneg hg hl)
      rw [map_cons, sum_cons] at htotal ⊢
      rw [foldlM_cons, hraw, map_some, i64_of_fits (by omega) (by omega), ← add_assoc]
      exact ih hl _ (by omega) (by omega)
  have h := hrun g.members (List.Subset.refl _) 0 le_rfl (by rw [zero_add]; exact hg.total)
  rwa [zero_add] at h

theorem scaled_run (hsub : l ⊆ g.members) :
    l.mapM (fun m => ((g.rawContribution m).bind (scale · (g.factor cap))).map (m, ·)) =
      some (l.map fun m => (m, g.scaled cap m)) := by
  induction l with
  | nil => rfl
  | cons m l ih =>
    obtain ⟨hm, hl⟩ := cons_subset.mp hsub
    rw [mapM_cons, ih hl, (hg.contributes m hm).1, bind_some, scale_raw hg cap hm,
      map_cons]
    rfl

end

variable [LinearOrder A] {wc : DelegationWeightCalculator M A}

def WithinCap (wc : DelegationWeightCalculator M A) (soleGroup : Bool) (modelID : M)
    (g : GroupData A) : Prop :=
  ∃ cap, computeGroupCap wc modelID = some cap ∧ (g.isInitialGroup = false → 0 ≤ cap) ∧
    groupContributions wc soleGroup modelID g = some (g.members.map fun m => (m, g.scaled cap m),
      ⟨modelID, g.consensusKoeff, g.rawTotal, cap, g.factor cap⟩) ∧
    g.Capped cap

theorem withinCap (hcap : (scale wc.totalNetworkWeight wc.capFactor).isSome) {modelID : M}
    {g : GroupData A} (hget : wc.groups modelID = some g) (hg : g.Sound) :
    WithinCap wc false modelID g := by
  obtain ⟨share, hshare⟩ := isSome_iff_exists.mp hcap
  obtain ⟨cap, hcap, hpos⟩ : ∃ cap, computeGroupCap wc modelID = some cap ∧
      (g.isInitialGroup = false → 0 ≤ cap) := by
    unfold computeGroupCap
    rw [hget, hshare]
    dsimp only [map_some]
    split
    · next hinitial => exact ⟨_, rfl, fun hno => nomatch hinitial.symm.trans hno⟩
    · refine ⟨_, rfl, fun _ => ?_⟩
      split <;> omega
  refine ⟨cap, hcap, hpos, ?_, GroupData.capped hg cap⟩
  unfold groupContributions
  rw [cond_false, hcap, rawTotal_run hg, hg.nodup.dedup]
  simp only [bind_eq_bind, bind_some]
  rw [← GroupData.factor, scaled_run hg cap (List.Subset.refl _)]
  rfl

/-- What a member is given for a group. -/
def given (wc : DelegationWeightCalculator M A) (m : A) (modelID : M) : ℤ :=
  match wc.groups modelID with
  | none => 0
  | some g => if m ∈ g.members then g.scaled ((computeGroupCap wc modelID).getD 0) m else 0

theorem get?_addContributions (f : A → ℤ) {l : List A} (hl : l.Nodup) (result : OrdMap A ℤ) (m : A) :
    ((((l.map fun m => (m, f m)).foldl (fun result e =>
      result.insert e.1 (i64 ((result.get? e.1).getD 0 + e.2))) result).get? m).getD 0) =
        if m ∈ l then i64 ((result.get? m).getD 0 + f m) else (result.get? m).getD 0 := by
  induction l generalizing result with
  | nil => rfl
  | cons m' l ih =>
    obtain ⟨hnot, hl⟩ := nodup_cons.mp hl
    rw [map_cons, foldl_cons, ih hl, get?_insert]
    by_cases heq : m = m'
    · subst heq
      rw [if_neg hnot, if_pos rfl, if_pos mem_cons_self, getD_some]
    · rw [if_neg heq]
      simp only [mem_cons, heq, false_or]

/-- A group adds to every weight what its members are given for it. -/
theorem addGroup_given (hcap : (scale wc.totalNetworkWeight wc.capFactor).isSome) {modelID : M}
    (hg : ∀ g, wc.groups modelID = some g → g.Sound) {acc : OrdMap A ℤ × List (GroupSummary M)}
    {total : A → ℤ} (hacc : ∀ m, (acc.1.get? m).getD 0 = i64 (total m)) :
    ∃ acc', addGroup wc false acc modelID = some acc' ∧
      ∀ m, (acc'.1.get? m).getD 0 = i64 (total m + given wc m modelID) := by
  unfold addGroup given
  cases hget : wc.groups modelID with
  | none => exact ⟨acc, rfl, fun m => by rw [hacc, add_zero]⟩
  | some g =>
    obtain ⟨cap, hc, -, heq, -⟩ := withinCap hcap hget (hg g hget)
    dsimp only
    rw [heq, hc]
    refine ⟨_, rfl, fun m => ?_⟩
    dsimp only
    rw [get?_addContributions _ (hg g hget).nodup, getD_some, hacc]
    split
    · exact Int.bmod_add_bmod ..
    · rw [add_zero]

/-- **The cap is respected** in each of two or more groups, where it is an `int64`: the weights
returned are what the members are given for their groups, summed as `int64`, and each group
gives within its cap. -/
theorem computeConsensusWeights_capped (wc : DelegationWeightCalculator M A) {models : List M}
    (htwo : 2 ≤ models.length)
    (hgroups : ∀ modelID ∈ models, ∀ g, wc.groups modelID = some g → g.Sound)
    (hcap : (scale wc.totalNetworkWeight wc.capFactor).isSome) :
    (∃ result summaries, computeConsensusWeights wc models = some (result, summaries) ∧
      ∀ m, (result.get? m).getD 0 = i64 (models.map (given wc m)).sum) ∧
    ∀ modelID ∈ models, ∀ g, wc.groups modelID = some g →
      WithinCap wc (models.length == 1) modelID g := by
  have hsole : (models.length == 1) = false := by simpa using show models.length ≠ 1 by omega
  unfold computeConsensusWeights
  rw [hsole]
  refine ⟨?_, fun modelID hmem g hget => withinCap hcap hget (hgroups modelID hmem g hget)⟩
  -- no group ends the computation, and each adds its part to what was summed before
  have hrun (l : List M) (hsub : l ⊆ models) (acc : OrdMap A ℤ × List (GroupSummary M))
      (total : A → ℤ) (hacc : ∀ m, (acc.1.get? m).getD 0 = i64 (total m)) :
      ∃ acc', l.foldlM (addGroup wc false) acc = some acc' ∧
        ∀ m, (acc'.1.get? m).getD 0 = i64 (total m + (l.map (given wc m)).sum) := by
    induction l generalizing acc total with
    | nil => exact ⟨acc, rfl, fun m => by rw [hacc, map_nil, sum_nil, add_zero]⟩
    | cons modelID l ih =>
      obtain ⟨hmem, hl⟩ := List.cons_subset.mp hsub
      obtain ⟨acc₁, hfirst, hgiven⟩ := addGroup_given hcap (hgroups modelID hmem) hacc
      obtain ⟨acc', hrest, hsum⟩ := ih hl acc₁ _ hgiven
      refine ⟨acc', by rw [List.foldlM_cons, hfirst]; exact hrest, fun m => ?_⟩
      rw [hsum, map_cons, sum_cons, add_assoc]
  obtain ⟨⟨result, summaries⟩, hresult, hsum⟩ :=
    hrun models (List.Subset.refl _) (∅, []) (fun _ => 0) fun m => rfl
  refine ⟨result, summaries, hresult, fun m => ?_⟩
  rw [hsum, zero_add]

def twoGroups (capFactor : Dec) : DelegationWeightCalculator Bool ℕ where
  groups initial := some ⟨[1, 2], fun m => 4 + m, .one, initial⟩
  totalNetworkWeight := 10
  capFactor

theorem twoGroups_sound (capFactor : Dec) (initial : Bool) (g : GroupData ℕ)
    (h : (twoGroups capFactor).groups initial = some g) : g.Sound := by
  cases h
  cases initial <;> exact ⟨by decide, by decide +kernel, by decide +kernel⟩

theorem computeConsensusWeights_capped_two :
    let wc := twoGroups ⟨5 * 10 ^ 17⟩
    (computeConsensusWeights wc [true, false]).map (fun p => (p.1.get? 1, p.1.get? 2)) =
        some (some 7, some 8) ∧
      (∃ result summaries, computeConsensusWeights wc [true, false] = some (result, summaries) ∧
        ∀ m, (result.get? m).getD 0 = i64 ([true, false].map (given wc m)).sum) ∧
      ∀ modelID ∈ [true, false], ∀ g, wc.groups modelID = some g → WithinCap wc false modelID g :=
  ⟨by decide +kernel, computeConsensusWeights_capped _ (by decide)
    (fun initial _ => twoGroups_sound _ initial) (by decide +kernel)⟩

/-- A factor of `10 ^ 18` gives a cap that is no `int64`. -/
theorem huge_cap_panics :
    (∀ initial g, (twoGroups ⟨10 ^ 36⟩).groups initial = some g → g.Sound) ∧
      computeConsensusWeights (twoGroups ⟨10 ^ 36⟩) [true, false] = none :=
  ⟨twoGroups_sound _, by decide +kernel⟩

end Delegation
