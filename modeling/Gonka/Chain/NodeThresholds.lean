/-
The nodes that may be preserved, and those that are left to vote.

Of each large participant the heaviest nodes, a quarter of its weight, are not to be preserved.  The
threshold 0 stands for none, though.

Main results: `large_keep_voting`, `light_node_not_left_out`.
-/
import Mathlib.Data.List.Sort
import Mathlib.Data.String.Basic
import Gonka.Chain.EpochContext
import Gonka.Lib.OrdMap

namespace ModelAssignment

open Inference

structure MLNodeInfo where
  nodeId : String
  pocWeight : ℤ
  deriving DecidableEq

def accumulate (targetWeight : ℤ) : ℤ → ℕ → List ℤ → Option (ℤ × ℕ)
  | _, _, [] => none
  | sum, nodeCount, w :: rest =>
    if targetWeight ≤ i64 (sum + w) then
      some (if rest.any (· < w) then (w - 1, 0) else (w, nodeCount + 1))
    else accumulate targetWeight (i64 (sum + w)) (nodeCount + 1) rest

def calculateWeightThresholdWithCount (weights : List ℤ) (targetPercent : ℤ) : ℤ × ℕ :=
  match weights with
  | [] => (0, 0)
  | [w] => (w - 1, 0)
  | _ =>
    let totalWeight := weights.foldl (fun total w => i64 (total + w)) 0
    (accumulate ((i64 (totalWeight * targetPercent)).tdiv 100) 0 0
      (weights.insertionSort (· ≥ ·))).getD (0, weights.length)

def filterNodesByWeightAndCount (nodes : List MLNodeInfo) (threshold : ℤ) (targetCount : ℕ) :
    List MLNodeInfo :=
  let filtered := if threshold = 0 then nodes else nodes.filter (·.pocWeight ≤ threshold)
  let filtered := filtered.insertionSort fun a b =>
    a.pocWeight < b.pocWeight ∨ a.pocWeight = b.pocWeight ∧ a.nodeId ≤ b.nodeId
  if 0 < targetCount ∧ targetCount < filtered.length then filtered.take targetCount else filtered

def calculateEffectiveNodeThreshold (participantThreshold globalThreshold : ℤ) : ℤ :=
  if participantThreshold = 0 then globalThreshold
  else if globalThreshold = 0 then participantThreshold
  else min participantThreshold globalThreshold

variable {A : Type} [LinearOrder A]

/-- The thresholds of the participants, with the numbers of nodes. -/
structure ThresholdSet (A : Type) [LinearOrder A] where
  participants : OrdMap A (ℤ × ℕ)
  globalMaxNodeWeight : ℤ

def calculatePerParticipantThreshold (nodes : OrdMap A (List MLNodeInfo))
    (participantWeightThreshold : ℤ) (participantVotingPowers : A → ℤ) : OrdMap A (ℤ × ℕ) :=
  nodes.filterMap fun a nodes =>
    if participantVotingPowers a < participantWeightThreshold then none
    else some (calculateWeightThresholdWithCount (nodes.map (·.pocWeight)) 25)

def filterNodesByThresholds (nodes : List MLNodeInfo) (a : A) (thresholds : ThresholdSet A) :
    List MLNodeInfo :=
  let threshold := (thresholds.participants.get? a).getD (0, 0)
  filterNodesByWeightAndCount nodes
    (calculateEffectiveNodeThreshold threshold.1 thresholds.globalMaxNodeWeight) threshold.2

open List

/-- Whatever is kept by the threshold `t` and the number `c` leaves a quarter of the weight. -/
def Leaves (weights : List ℤ) (t : ℤ) (c : ℕ) : Prop :=
  ∀ kept, kept <+~ weights.filter (· ≤ t) → (0 < c → kept.length ≤ c) →
    kept.sum + max 1 (weights.sum * 25 / 100) ≤ weights.sum

theorem sum_nonneg_of_pos {l : List ℤ} (hpos : ∀ x ∈ l, 1 ≤ x) : 0 ≤ l.sum :=
  sum_nonneg fun x hx => zero_le_one.trans (hpos x hx)

theorem sum_le_of_subperm {l l' : List ℤ} (hsub : l <+~ l') (hpos : ∀ x ∈ l', 1 ≤ x) :
    l.sum ≤ l'.sum := by
  obtain ⟨l₁, hperm, hsublist⟩ := hsub
  rw [← hperm.sum_eq]
  exact hsublist.sum_le_sum fun x hx => zero_le_one.trans (hpos x hx)

theorem accumulate_eq {target sum : ℤ} {n : ℕ} {l : List ℤ} (hpos : ∀ x ∈ l, 1 ≤ x) (hne : l ≠ [])
    (hsum : 0 ≤ sum) (hfits : sum + l.sum < 2 ^ 63) (htarget : target ≤ sum + l.sum) :
    ∃ pre w rest, l = pre ++ w :: rest ∧ (pre = [] ∨ sum + pre.sum < target) ∧
      target ≤ sum + pre.sum + w ∧ accumulate target sum n l =
        some (if rest.any (· < w) then (w - 1, 0) else (w, n + pre.length + 1)) := by
  induction l generalizing sum n with
  | nil => exact absurd rfl hne
  | cons w rest ih =>
    obtain ⟨hw, hrest⟩ := forall_mem_cons.mp hpos
    have hnonneg := sum_nonneg_of_pos hrest
    rw [sum_cons] at hfits htarget
    unfold accumulate
    rw [i64_of_fits (by omega) (by omega)]
    split
    · next hle => exact ⟨[], w, rest, rfl, .inl rfl, by simpa using hle, rfl⟩
    · next hlt =>
      have hne : rest ≠ [] := by
        rintro rfl
        rw [sum_nil] at htarget
        omega
      obtain ⟨pre, w', rest', rfl, hpre, hreach, hrun⟩ :=
        @ih (sum + w) (n + 1) hrest hne (by omega) (by omega) (by omega)
      refine ⟨w :: pre, w', rest', rfl, .inr ?_, ?_, ?_⟩
      · rw [sum_cons]
        rcases hpre with rfl | hpre
        · rw [sum_nil]
          omega
        · omega
      · rw [sum_cons]
        omega
      · rw [hrun, length_cons, Nat.add_right_comm n 1, ← Nat.add_assoc n]

theorem accumulate_leaves {l : List ℤ} (hpos : ∀ x ∈ l, 1 ≤ x) (hsorted : l.Pairwise (· ≥ ·))
    (htwo : 2 ≤ l.length) (hfits : l.sum < 2 ^ 63) :
    ∃ t c, accumulate (l.sum * 25 / 100) 0 0 l = some (t, c) ∧ t ≠ 0 ∧ Leaves l t c := by
  have hnonneg := sum_nonneg_of_pos hpos
  obtain ⟨pre, w, rest, rfl, hpre, hreach, hrun⟩ := @accumulate_eq (l.sum * 25 / 100) 0 0 l hpos
    (by rintro rfl; nomatch htwo) le_rfl (by omega) (by omega)
  have hge : ∀ x ∈ pre, w ≤ x := fun x hx =>
    (pairwise_append.mp hsorted).2.2 x hx w mem_cons_self
  obtain ⟨hpre₁, hpos⟩ := forall_mem_append.mp hpos
  obtain ⟨hw, hrest⟩ := forall_mem_cons.mp hpos
  have hpresum := sum_nonneg_of_pos hpre₁
  have hsum : (pre ++ w :: rest).sum = pre.sum + (w + rest.sum) := by rw [sum_append, sum_cons]
  rw [hrun]
  by_cases hany : rest.any (· < w)
  · -- what is kept is after `w`
    rw [if_pos hany]
    obtain ⟨y, hy, hlt⟩ := any_eq_true.mp hany
    have hy₁ := hrest y hy
    have hlt := of_decide_eq_true hlt
    refine ⟨_, _, rfl, by omega, fun kept hkept _ => ?_⟩
    have hnil : pre.filter (· ≤ w - 1) = [] := filter_eq_nil_iff.mpr fun x hx h => by
      have := hge x hx
      have := of_decide_eq_true h
      omega
    rw [filter_append, hnil, nil_append, filter_cons_of_neg (by simp)] at hkept
    have hle := sum_le_of_subperm (hkept.trans filter_sublist.subperm) hrest
    omega
  · -- all are as heavy as `w`, and few are kept
    rw [if_neg hany]
    refine ⟨_, _, rfl, by omega, fun kept hkept hcount => ?_⟩
    have hle : ∀ x ∈ rest, w ≤ x := fun x hx => by
      by_contra hlt
      exact hany (any_eq_true.mpr ⟨x, hx, decide_eq_true (not_le.mp hlt)⟩)
    have htwice := card_nsmul_le_sum _ w
      (forall_mem_append.mpr ⟨hge, forall_mem_cons.mpr ⟨le_rfl, hle⟩⟩)
    have htwo := nsmul_le_nsmul_left (zero_le_one.trans hw) htwo
    have hcard := card_nsmul_le_sum pre w hge
    have hkept := sum_le_card_nsmul kept w fun x hx =>
      of_decide_eq_true (mem_filter.mp (hkept.subset hx)).2
    have hcount := nsmul_le_nsmul_left (zero_le_one.trans hw) (hcount (Nat.succ_pos _))
    rw [zero_add, succ_nsmul] at hcount
    rw [two_nsmul] at htwo
    rcases hpre with rfl | hpre
    · rw [length_nil, zero_nsmul] at hcount
      omega
    · omega

theorem calculateWeightThresholdWithCount_spec {weights : List ℤ} (hne : weights ≠ [])
    (hone : weights ≠ [1]) (hpos : ∀ x ∈ weights, 1 ≤ x)
    (hfits : weights.length = 1 ∨ weights.sum * 25 < 2 ^ 63) :
    ∃ t c, calculateWeightThresholdWithCount weights 25 = (t, c) ∧ t ≠ 0 ∧ Leaves weights t c := by
  rcases weights with _ | ⟨w, _ | ⟨w', rest⟩⟩
  · exact absurd rfl hne
  · have hw := hpos w mem_cons_self
    have hlarge : w ≠ 1 := fun h => hone (by rw [h])
    refine ⟨w - 1, 0, rfl, by omega, fun kept hkept _ => ?_⟩
    rw [filter_cons_of_neg (by simp), filter_nil] at hkept
    rw [subperm_nil.mp hkept, sum_nil, sum_singleton]
    omega
  · have hsum := sum_nonneg_of_pos hpos
    have hfits := hfits.resolve_left (by simp)
    have hperm := perm_insertionSort (· ≥ ·) (w :: w' :: rest)
    have htarget : (i64 ((w :: w' :: rest).sum * 25)).tdiv 100 =
        (w :: w' :: rest).sum * 25 / 100 := by
      rw [i64_of_fits (by omega) hfits, Int.tdiv_eq_ediv_of_nonneg (by omega)]
    obtain ⟨t, c, hrun, ht, hleaves⟩ := accumulate_leaves (fun x hx => hpos x (hperm.mem_iff.mp hx))
      (pairwise_insertionSort _ _) (by rw [hperm.length_eq]; simp) (by rw [hperm.sum_eq]; omega)
    rw [hperm.sum_eq] at hrun
    refine ⟨t, c, ?_, ht, fun kept hkept hcount => ?_⟩
    · unfold calculateWeightThresholdWithCount
      dsimp only
      rw [foldl_i64 le_rfl (fun x hx => zero_le_one.trans (hpos x hx)) (by omega), zero_add, htarget]
      exact congrArg (Option.getD · _) hrun
    · have h := hleaves kept (hkept.trans (hperm.filter _).symm.subperm) hcount
      rwa [hperm.sum_eq] at h

def weight (nodes : List MLNodeInfo) : ℤ := (nodes.map (·.pocWeight)).sum

/-- At least one node is left out, and a quarter of the weight. -/
def KeepsVoting (nodes kept : List MLNodeInfo) : Prop :=
  nodes.diff kept ≠ [] ∧ weight nodes * 25 / 100 ≤ weight (nodes.diff kept)

theorem Leaves.keepsVoting {nodes : List MLNodeInfo} {t : ℤ} {c : ℕ} (ht : t ≠ 0)
    (h : Leaves (nodes.map (·.pocWeight)) t c) (g : ℤ) : KeepsVoting nodes
      (filterNodesByWeightAndCount nodes (calculateEffectiveNodeThreshold t g) c) := by
  obtain ⟨e, he⟩ : ∃ e, calculateEffectiveNodeThreshold t g = e := ⟨_, rfl⟩
  have hle : e ≠ 0 ∧ e ≤ t := by
    unfold calculateEffectiveNodeThreshold at he
    split_ifs at he <;> omega
  obtain ⟨kept, hkept⟩ : ∃ kept, filterNodesByWeightAndCount nodes e c = kept := ⟨_, rfl⟩
  have hsub : kept <+~ nodes.filter (·.pocWeight ≤ e) ∧ (0 < c → kept.length ≤ c) := by
    have hperm := perm_insertionSort (fun a b : MLNodeInfo =>
      a.pocWeight < b.pocWeight ∨ a.pocWeight = b.pocWeight ∧ a.nodeId ≤ b.nodeId)
      (nodes.filter (·.pocWeight ≤ e))
    rw [← hkept]
    unfold filterNodesByWeightAndCount
    rw [if_neg hle.1]
    dsimp only
    split
    · exact ⟨(take_sublist _ _).subperm.trans hperm.subperm, fun _ => length_take_le _ _⟩
    · exact ⟨hperm.subperm, fun hc => by omega⟩
  have hweights : kept.map (·.pocWeight) <+~ (nodes.map (·.pocWeight)).filter (· ≤ t) := by
    rw [filter_map]
    obtain ⟨l, hperm, hl⟩ := hsub.1
    refine ⟨l.map _, hperm.map _, (hl.trans (monotone_filter_right nodes fun n hn => ?_)).map _⟩
    exact decide_eq_true ((of_decide_eq_true hn).trans hle.2)
  have hleft := h _ hweights (by rw [length_map]; exact hsub.2)
  have hperm := subperm_append_diff_self_of_count_le fun x _ =>
    (hsub.1.trans filter_sublist.subperm).count_le x
  have hsum : weight kept + weight (nodes.diff kept) = weight nodes := by
    unfold weight
    rw [← sum_append, ← map_append, (hperm.map _).sum_eq]
  rw [he, hkept]
  change weight kept + max 1 (weight nodes * 25 / 100) ≤ weight nodes at hleft
  refine ⟨fun hnil => ?_, by omega⟩
  rw [hnil] at hsum
  change weight kept + 0 = _ at hsum
  omega

/-- **When a large participant keeps voting nodes**, and a quarter of its weight for the vote: it
never does without nodes or with a single one of weight 1, whose threshold 0 reads as none; and it
does in all other cases, where a quarter of the weight of several nodes is computed without
overflow. -/
theorem large_keep_voting (view : OrdMap A (List MLNodeInfo)) (least : ℤ) (powers : A → ℤ)
    (global : ℤ) {a : A} {nodes : List MLNodeInfo} (hget : view.get? a = some nodes)
    (hlarge : least ≤ powers a) (hpos : ∀ n ∈ nodes, 1 ≤ n.pocWeight) :
    (KeepsVoting nodes (filterNodesByThresholds nodes a
        ⟨calculatePerParticipantThreshold view least powers, global⟩) →
      nodes ≠ [] ∧ ¬ (nodes.map (·.pocWeight) = [1] ∧ 0 ≤ global)) ∧
    (nodes ≠ [] ∧ ¬ (nodes.map (·.pocWeight) = [1] ∧ 0 ≤ global) →
      nodes.length = 1 ∨ weight nodes * 25 < 2 ^ 63 →
      KeepsVoting nodes (filterNodesByThresholds nodes a
        ⟨calculatePerParticipantThreshold view least powers, global⟩)) := by
  have hthreshold : (calculatePerParticipantThreshold view least powers).get? a =
      some (calculateWeightThresholdWithCount (nodes.map (·.pocWeight)) 25) := by
    unfold calculatePerParticipantThreshold
    rw [OrdMap.get?_filterMap, hget, Option.bind_some, if_neg (not_lt.mpr hlarge)]
  unfold filterNodesByThresholds
  rw [hthreshold, Option.getD_some]
  by_cases hne : nodes = []
  · subst hne
    exact ⟨fun h => absurd (by simp) h.1, fun h => absurd rfl h.1⟩
  by_cases hone : nodes.map (·.pocWeight) = [1]
  · rw [hone]
    change (KeepsVoting _ (filterNodesByWeightAndCount nodes global 0) → _) ∧
      (_ → _ → KeepsVoting _ (filterNodesByWeightAndCount nodes global 0))
    obtain ⟨m, rfl⟩ := length_eq_one_iff.mp ((length_map _).symm.trans (congrArg length hone))
    have hm : m.pocWeight = 1 := (cons.inj hone).1
    -- the threshold 0 is none, so only the global one counts
    have hkept : filterNodesByWeightAndCount [m] global 0 = if 0 ≤ global then [m] else [] := by
      unfold filterNodesByWeightAndCount
      by_cases hzero : global = 0
      · simp [hzero]
      by_cases hg : 0 ≤ global
      · simp [hzero, hg, hm, show 1 ≤ global by omega]
      · simp [hzero, hg, hm, show ¬ 1 ≤ global by omega]
    rw [hkept]
    by_cases hg : 0 ≤ global
    · rw [if_pos hg]
      exact ⟨fun h => absurd (by simp) h.1, fun h => absurd ⟨rfl, hg⟩ h.2⟩
    · rw [if_neg hg]
      exact ⟨fun _ => ⟨hne, fun h => hg h.2⟩, fun _ _ => by simp [KeepsVoting, weight, hm]⟩
  · refine ⟨fun _ => ⟨hne, fun h => hone h.1⟩, fun _ hfits => ?_⟩
    obtain ⟨t, c, h, ht, hleaves⟩ := calculateWeightThresholdWithCount_spec
      (by simpa using hne) hone (by simpa using hpos) (by rwa [length_map])
    rw [h]
    exact hleaves.keepsVoting ht global

def fourNodes (heaviest : ℤ) : List MLNodeInfo := [⟨"a", 2⟩, ⟨"b", heaviest⟩, ⟨"c", 2⟩, ⟨"d", 2⟩]

def twoLarge : OrdMap Bool (List MLNodeInfo) := (OrdMap.insert ∅ true (fourNodes 3)).insert false (fourNodes 2)

/-- Two large participants of four nodes each, the second one with a uniform tail. -/
theorem large_keep_voting_four :
    let thresholds : ThresholdSet Bool := ⟨calculatePerParticipantThreshold twoLarge 5 fun _ => 8, 2⟩
    (filterNodesByThresholds (fourNodes 3) true thresholds).length = 3 ∧
      KeepsVoting (fourNodes 3) (filterNodesByThresholds (fourNodes 3) true thresholds) ∧
      (filterNodesByThresholds (fourNodes 2) false thresholds).length = 1 ∧
      KeepsVoting (fourNodes 2) (filterNodesByThresholds (fourNodes 2) false thresholds) :=
  ⟨by decide +kernel, (large_keep_voting twoLarge 5 (fun _ => 8) 2 (by decide +kernel) (by decide)
      (by decide)).2 (by decide) (.inr (by decide)),
    by decide +kernel, (large_keep_voting twoLarge 5 (fun _ => 8) 2 (by decide +kernel) (by decide)
      (by decide)).2 (by decide) (.inr (by decide))⟩

theorem light_node_not_left_out : ¬ KeepsVoting [⟨"", 1⟩] (filterNodesByThresholds [⟨"", 1⟩] true
    ⟨calculatePerParticipantThreshold (OrdMap.insert ∅ true [⟨"", 1⟩]) 0 fun _ => 1, 1⟩) := by
  unfold KeepsVoting
  decide

end ModelAssignment
