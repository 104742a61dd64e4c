/-
What an epoch's rewards add up to.

Below the supply cap the rewards and what goes to governance are the minted amount, as
the weights never exceed the full weights that the reward is divided by.  Where the cap is
crossed, the remainder of the uncut reward is added to the remainder of the cut one, so
that more is owed than minted.

Main results: `rewards_accounted`, `crossing_owes_twice`, `distributed_below`.
-/
import Gonka.Lib.Shares
import Gonka.Chain.Rewards

namespace Rewards

open OrdMap Option List

def rewardSum (results : List SettleResult) : ℕ := (results.map (·.rewardCoins)).sum

theorem shareOfReward_lt (reward total weight : ℕ) : shareOfReward reward total weight < 2 ^ 64 := by
  simp only [shareOfReward]
  split
  · assumption
  · decide

theorem shareOfReward_le (reward total weight : ℕ) :
    shareOfReward reward total weight ≤ weight * reward / total := by
  simp only [shareOfReward]
  split
  · exact Nat.le_refl _
  · omega

def grossReward (reward : ℕ) (weights : OrdMap ℕ ℕ) (total : ℕ) (p : Participant) : ℕ :=
  if p.status = .active ∧ 0 < total ∧ 0 < weightOf weights p.address then
    shareOfReward reward total (weightOf weights p.address) else 0

theorem grossReward_lt (reward : ℕ) (weights : OrdMap ℕ ℕ) (total : ℕ) (p : Participant) :
    grossReward reward weights total p < 2 ^ 64 := by
  unfold grossReward
  split
  · exact shareOfReward_lt _ _ _
  · decide

theorem settleParticipant_spec (reward : ℕ) (weights full : OrdMap ℕ ℕ) (total : ℕ)
    (p : Participant) (td : ℕ) :
    let r := settleParticipant reward weights full total p td
    r.2 = (td + r.1.rewardCoins) % 2 ^ 64 ∧ r.1.rewardCoins ≤ grossReward reward weights total p ∧
      (r.1.failed = true → r.1.rewardCoins = 0) := by
  have hlt := grossReward_lt reward weights total p
  simp only [settleParticipant]
  rw [show (if p.status = .active ∧ 0 < total ∧ 0 < weightOf weights p.address then
    shareOfReward reward total (weightOf weights p.address) else 0) =
      grossReward reward weights total p from rfl]
  generalize grossReward reward weights total p = gross at hlt
  generalize p.coinBalance.toInt.natAbs = debt
  split
  · split
    · refine ⟨?_, Nat.sub_le _ _, nofun⟩
      omega
    · refine ⟨?_, Nat.zero_le _, fun _ => rfl⟩
      omega
  · exact ⟨rfl, Nat.le_refl _, nofun⟩

theorem settleParticipants_spec (reward : ℕ) (weights full : OrdMap ℕ ℕ) (total : ℕ)
    (ps : List Participant) {td : ℕ} (htd : td < 2 ^ 64) :
    let rs := settleParticipants reward weights full total ps td
    rs.2 = (td + rewardSum rs.1) % 2 ^ 64 ∧
      rewardSum rs.1 ≤ (ps.map (grossReward reward weights total)).sum ∧
        ∀ r ∈ rs.1, r.failed = true → r.rewardCoins = 0 := by
  induction ps generalizing td with
  | nil => exact ⟨(Nat.mod_eq_of_lt htd).symm, Nat.le_refl _, fun _ h => nomatch h⟩
  | cons p ps ih =>
    obtain ⟨hone, hle, hfail⟩ := settleParticipant_spec reward weights full total p td
    simp only [settleParticipants]
    generalize settleParticipant reward weights full total p td = r at hone hle hfail
    have hr2 : r.2 < 2 ^ 64 := hone ▸ Nat.mod_lt _ (by decide)
    obtain ⟨hrest, hle', hfail'⟩ := ih hr2
    generalize settleParticipants reward weights full total ps r.2 = rs at hrest hle' hfail'
    refine ⟨?_, ?_, ?_⟩
    · simp only [rewardSum, map_cons, sum_cons] at hrest ⊢
      omega
    · simp only [rewardSum, map_cons, sum_cons] at hle' ⊢
      omega
    intro r' hr' hf
    rcases mem_cons.mp hr' with rfl | hr'
    · exact hfail hf
    · exact hfail' r' hr' hf

variable {e : Epoch} {results : List SettleResult} {full weights : OrdMap ℕ ℕ}

theorem calculate_spec {br : BitcoinResult}
    (h : calculateParticipantBitcoinRewards e = some (results, br)) :
    br.amount = wrap64 e.fixedEpochReward.toNat ∧
      br.governanceAmount = min maxInt64
        (((e.fixedEpochReward.toNat - rewardSum results % 2 ^ 64 : ℕ) : ℤ)) ∧
      (∀ r ∈ results, r.failed = true → r.rewardCoins = 0) ∧
      ∃ weights full, rewardWeights e = some (weights, full) ∧
        rewardSum results ≤ (e.participants.map (grossReward e.fixedEpochReward.toNat weights
          ((full.sum fun _ weight => weight) % 2 ^ 64))).sum := by
  obtain ⟨⟨weights, full⟩, hw, h⟩ := bind_eq_some_iff.mp h
  have hres := Prod.mk.inj (some.inj h)
  obtain ⟨htd, hle, hfail⟩ := settleParticipants_spec e.fixedEpochReward.toNat weights full
    ((full.sum fun _ weight => weight) % 2 ^ 64) e.participants (by decide : 0 < 2 ^ 64)
  rw [Nat.zero_add] at htd
  obtain ⟨hresults, hbr⟩ := hres
  rw [hresults] at htd hle hfail
  refine ⟨?_, ?_, hfail, weights, full, hw, hle⟩
  · rw [← hbr]
  · rw [← hbr, ← htd]

theorem weightOf_insert (weights : OrdMap ℕ ℕ) (address address' weight : ℕ) :
    weightOf (weights.insert address weight) address' =
      if address' = address then weight else weightOf weights address' := by
  unfold weightOf
  rw [get?_insert]
  split <;> rfl

def Within (full weights : OrdMap ℕ ℕ) : Prop :=
  ∀ address, weightOf weights address ≤ weightOf full address

theorem Within.insert (h : Within full weights) {address weight : ℕ}
    (hle : weight ≤ weightOf full address) : Within full (weights.insert address weight) := by
  intro address'
  rw [weightOf_insert]
  split
  · next heq =>
    rw [heq]
    exact hle
  · exact h address'

theorem Within.sum_le (h : Within full weights) :
    (weights.sum fun _ weight => weight) ≤ full.sum fun _ weight => weight := by
  refine sum_le_sum fun address => ?_
  have hle := h address
  unfold weightOf at hle
  cases hw : weights.get? address <;> cases hf : full.get? address <;> simp_all

def fullWeightOf (e : Epoch) (address : ℕ) : ℕ :=
  ((e.validationWeights.find? fun vw => vw.memberAddress = address).map fun vw =>
    vw.weight.toInt.toNat).getD 0

/-- What the loop over the participants keeps. -/
structure WeightsOK (e : Epoch) (w : Weights) : Prop where
  full : ∀ address, weightOf w.participantFullWeights address = 0 ∨
    weightOf w.participantFullWeights address = fullWeightOf e address
  zero : ∀ address, weightOf w.participantWeights address = 0
  effective : ∀ p ∈ w.effectiveWeights, p.2.toNat ≤ weightOf w.participantFullWeights p.1

theorem effectiveWeight_le {vw : ValidationWeight} {weight : ℤ}
    (h : effectiveWeight e vw = some weight) : weight ≤ vw.weight.toInt := by
  simp only [effectiveWeight] at h
  split at h
  · exact (some.inj h).ge
  · obtain ⟨_, -, rfl⟩ := map_eq_some_iff.mp h
    exact min_le_left _ _

theorem WeightsOK.set {w : Weights} (hw : WeightsOK e w) (address : ℕ)
    (hweights : ∀ a, weightOf weights a = 0) {effective : List (ℕ × ℤ)}
    (heffective : ∀ p ∈ effective, p ∈ w.effectiveWeights ∨
      p.1 = address ∧ p.2.toNat ≤ fullWeightOf e address) :
    WeightsOK e ⟨weights, w.participantFullWeights.insert address (fullWeightOf e address),
      effective⟩ where
  full a := by
    rw [weightOf_insert]
    split
    · next heq => exact .inr (congrArg (fullWeightOf e) heq.symm)
    · exact hw.full a
  zero := hweights
  effective p hp := by
    rw [weightOf_insert]
    rcases heffective p hp with hold | ⟨haddr, hle⟩
    · have hle := hw.effective p hold
      split
      · next heq =>
        rcases hw.full p.1 with _ | hfull
        · omega
        · rw [hfull, heq] at hle
          exact hle
      · exact hle
    · rw [if_pos haddr]
      exact hle

theorem weightOf_insert_zero (h : ∀ a, weightOf weights a = 0) (address : ℕ) :
    ∀ a, weightOf (weights.insert address 0) a = 0 := by
  intro a
  rw [weightOf_insert]
  split
  · rfl
  · exact h a

theorem addWeights_ok {w w' : Weights} (hw : WeightsOK e w) {p : Participant}
    (h : addWeights e w p = some w') : WeightsOK e w' := by
  have hzero := weightOf_insert_zero hw.zero p.address
  unfold addWeights at h
  cases hfind : e.validationWeights.find? fun vw => vw.memberAddress = p.address with
  | none =>
    have hfull : fullWeightOf e p.address = 0 := by rw [fullWeightOf, hfind]; rfl
    have hset := hw.set p.address hzero fun p hp => .inl hp
    rw [hfull] at hset
    simp only [hfind] at h
    exact some.inj h ▸ hset
  | some vw =>
    have hfull : fullWeightOf e p.address = vw.weight.toInt.toNat := by
      rw [fullWeightOf, hfind]
      rfl
    simp only [hfind] at h
    split at h
    · next hneg =>
      have hnone : fullWeightOf e p.address = 0 := by rw [hfull]; omega
      have hset := hw.set p.address hzero fun p hp => .inl hp
      rw [hnone] at hset
      exact some.inj h ▸ hset
    · rw [← hfull] at h
      split at h
      · rw [← some.inj h]
        exact hw.set p.address hzero fun p hp => .inl hp
      obtain ⟨_, heff, rfl⟩ := map_eq_some_iff.mp h
      refine hw.set p.address hw.zero fun q hq => ?_
      rcases mem_append.mp hq with hq | hq
      · exact .inl hq
      · rw [mem_singleton.mp hq]
        have hle := effectiveWeight_le heff
        exact .inr ⟨rfl, by rw [hfull]; omega⟩

theorem foldlM_ok {α β : Type} {P : β → Prop} {f : β → α → Option β}
    (hstep : ∀ b a b', P b → f b a = some b' → P b') {l : List α} {b b' : β} (hb : P b)
    (h : l.foldlM f b = some b') : P b' := by
  induction l generalizing b with
  | nil => exact some.inj h ▸ hb
  | cons a l ih =>
    obtain ⟨b₁, hfirst, hrest⟩ := bind_eq_some_iff.mp h
    exact ih (hstep b a b₁ hb hfirst) hrest

theorem mem_applyPowerCapping {participants : List (ℕ × ℤ)} {p : ℕ × ℤ}
    (h : p ∈ applyPowerCappingForWeights participants) :
    ∃ q ∈ participants, p.1 = q.1 ∧ p.2 ≤ q.2 := by
  have hself : p ∈ participants → ∃ q ∈ participants, p.1 = q.1 ∧ p.2 ≤ q.2 :=
    fun hp => ⟨p, hp, rfl, le_refl _⟩
  simp only [applyPowerCappingForWeights, calculateOptimalCap] at h
  iterate 3
    split at h
    · exact hself h
  obtain ⟨q, hq, hqp⟩ := mem_map.mp h
  refine ⟨q, hq, ?_⟩
  split at hqp
  · next hlt =>
    rw [← hqp]
    exact ⟨rfl, hlt.le⟩
  · rw [← hqp]
    exact ⟨rfl, le_refl _⟩

theorem insertAll_within {capped : List (ℕ × ℤ)}
    (hcapped : ∀ p ∈ capped, p.2.toNat ≤ weightOf full p.1) (hw : Within full weights) :
    Within full (capped.foldl (fun weights p => weights.insert p.1 p.2.toNat) weights) := by
  induction capped generalizing weights with
  | nil => exact hw
  | cons p _ ih =>
    refine ih (forall_mem_cons.mp hcapped).2 ?_
    exact hw.insert (hcapped p mem_cons_self)

theorem downtime_within (passed : UInt64 → UInt64 → Bool) (participants : List Participant)
    (hw : Within full weights) :
    Within full (checkAndPunishForDowntimeForParticipants passed participants weights) := by
  induction participants generalizing weights with
  | nil => exact hw
  | cons p _ ih =>
    refine ih (hw.insert ((?_ : _ ≤ weightOf weights p.address).trans (hw p.address)))
    simp only [checkAndPunishForDowntime]
    split
    · exact Nat.le_refl _
    · split
      · exact Nat.le_refl _
      · exact Nat.zero_le _

theorem penalties_eq_transfers (base weights : OrdMap ℕ ℕ)
    (penalties : List DelegationRewardPenalty) :
    penalties.foldlM (applyDelegationRewardPenalty base) weights =
      (penalties.map fun p => ⟨p.participant, 0, p.penaltyFraction⟩).foldlM
        (applyDelegationRewardTransfer base) weights := by
  rw [foldlM_map]
  congr 1
  funext weights p
  unfold applyDelegationRewardPenalty applyDelegationRewardTransfer
  cases hget : weights.get? p.participant with
  | none => rfl
  | some =>
    dsimp only
    split
    · rfl
    congr 1
    funext share
    split
    · next hzero => rw [hzero, Nat.sub_zero, insert_eq_self hget]
    · simp

theorem transfer_sum_le {base weights' : OrdMap ℕ ℕ} {transfer : DelegationRewardTransfer}
    (h : applyDelegationRewardTransfer base weights transfer = some weights') :
    (weights'.sum fun _ weight => weight) ≤ weights.sum fun _ weight => weight := by
  unfold applyDelegationRewardTransfer at h
  split at h
  · exact some.inj h ▸ Nat.le_refl _
  next weight hget =>
  split at h
  · exact some.inj h ▸ Nat.le_refl _
  obtain ⟨share, -, rfl⟩ := map_eq_some_iff.mp h
  have hout := sum_insert_of_some (fun _ w => w) (weight - min share weight) hget
  simp only
  split
  · exact Nat.le_refl _
  split
  · next hpos =>
    -- What the receiver gets is at most what the sender has lost.
    cases hto : (weights.insert transfer.sender (weight - min share weight)).get?
        transfer.receiver with
    | none =>
      rw [weightOf, hto] at hpos
      exact absurd hpos.2 (Nat.lt_irrefl 0)
    | some received =>
      have hin := sum_insert_of_some (fun _ w => w)
        (min maxUint64 (received + min share weight)) hto
      rw [weightOf, hto, getD_some]
      omega
  · omega

theorem transfers_sum_le {base weights' : OrdMap ℕ ℕ} {transfers : List DelegationRewardTransfer}
    (h : transfers.foldlM (applyDelegationRewardTransfer base) weights = some weights') :
    (weights'.sum fun _ weight => weight) ≤ weights.sum fun _ weight => weight :=
  foldlM_ok (P := fun w : OrdMap ℕ ℕ => (w.sum fun _ weight => weight) ≤
    weights.sum fun _ weight => weight) (fun _ _ _ hb hstep => (transfer_sum_le hstep).trans hb)
    (Nat.le_refl _) h

theorem rewardWeights_sum_le (h : rewardWeights e = some (weights, full)) :
    (weights.sum fun _ weight => weight) ≤ full.sum fun _ weight => weight := by
  obtain ⟨w, hw, h⟩ := bind_eq_some_iff.mp h
  obtain ⟨_, hpen, h⟩ := bind_eq_some_iff.mp h
  obtain ⟨_, htrans, h⟩ := bind_eq_some_iff.mp h
  cases h
  have hok : WeightsOK e w := by
    refine foldlM_ok (fun _ _ _ hb hstep => addWeights_ok hb hstep) ?_ hw
    exact ⟨fun _ => .inl rfl, fun _ => rfl, fun _ hp => nomatch hp⟩
  have hcapped : ∀ p ∈ applyPowerCappingForWeights w.effectiveWeights,
      p.2.toNat ≤ weightOf w.participantFullWeights p.1 := by
    intro p hp
    obtain ⟨q, hq, haddr, _⟩ := mem_applyPowerCapping hp
    have hfull := hok.effective q hq
    rw [haddr]
    omega
  have hstart : Within w.participantFullWeights w.participantWeights := by
    intro address
    rw [hok.zero address]
    exact Nat.zero_le _
  have hinserted := insertAll_within hcapped hstart
  rw [applyDelegationRewardPenalties, penalties_eq_transfers] at hpen
  refine (transfers_sum_le htrans).trans ((transfers_sum_le hpen).trans (Within.sum_le ?_))
  split
  · exact hinserted
  · exact downtime_within _ _ hinserted

/-- The rewards fit into the reward of the epoch, as long as the full weights add up without
overflow. -/
theorem distributed_le {br : BitcoinResult} (hdistinct : (e.participants.map (·.address)).Nodup)
    (h : calculateParticipantBitcoinRewards e = some (results, br))
    (hfit : ∀ weights full, rewardWeights e = some (weights, full) →
      (full.sum fun _ weight => weight) < 2 ^ 64) :
    rewardSum results ≤ e.fixedEpochReward.toNat := by
  obtain ⟨-, -, -, weights, full, hw, hle⟩ := calculate_spec h
  rw [Nat.mod_eq_of_lt (hfit weights full hw)] at hle
  refine hle.trans ?_
  have hweights : (e.participants.map fun p => weightOf weights p.address).sum ≤
      full.sum fun _ weight => weight := by
    refine le_trans ?_ (rewardWeights_sum_le hw)
    have hlookups := sum_lookups_le (fun _ weight => weight) hdistinct weights
    rw [List.map_map] at hlookups
    refine le_trans (List.sum_le_sum fun p _ => ?_) hlookups
    simp only [weightOf, Function.comp_apply]
    cases weights.get? p.address <;> exact Nat.le_refl _
  refine le_trans (List.sum_le_sum fun p _ => ?_) (Shares.sum_share_le hweights e.fixedEpochReward.toNat)
  unfold grossReward
  split
  · exact shareOfReward_le _ _ _
  · exact Nat.zero_le _

/-- **Of the reward of an epoch the participants get at most all of it, and governance the
rest.** -/
theorem distributed_below {br : BitcoinResult} (hdistinct : (e.participants.map (·.address)).Nodup)
    (h : calculateParticipantBitcoinRewards e = some (results, br))
    (hfit : ∀ weights full, rewardWeights e = some (weights, full) →
      (full.sum fun _ weight => weight) < 2 ^ 64) :
    rewardSum results ≤ e.fixedEpochReward.toNat ∧
      br.governanceAmount = min maxInt64 ((e.fixedEpochReward.toNat : ℤ) - rewardSum results) := by
  have hle := distributed_le hdistinct h hfit
  refine ⟨hle, ?_⟩
  have hlt := e.fixedEpochReward.toNat_lt
  rw [(calculate_spec h).2.1, Nat.mod_eq_of_lt (hle.trans_lt hlt), Int.ofNat_sub hle]

def twoEqual (fixedEpochReward : UInt64) : Epoch where
  participants := [⟨1, .active, 0, 0, 0⟩, ⟨2, .active, 0, 0, 0⟩]
  validationWeights := [⟨1, 1, 1⟩, ⟨2, 1, 1⟩]
  fixedEpochReward

theorem distributed_two :
    rewardSum [⟨1, 0, 5, false, 1, 1, 2⟩, ⟨2, 0, 5, false, 1, 1, 2⟩] ≤ 11 ∧
      (1 : ℤ) = min maxInt64 (11 - rewardSum [⟨1, 0, 5, false, 1, 1, 2⟩, ⟨2, 0, 5, false, 1, 1, 2⟩]) := by
  refine distributed_below (e := twoEqual 11) (by decide)
    (by decide +kernel : calculateParticipantBitcoinRewards (twoEqual 11) =
      some ([⟨1, 0, 5, false, 1, 1, 2⟩, ⟨2, 0, 5, false, 1, 1, 2⟩], ⟨11, 1⟩)) ?_
  intro weights full h
  have hsum : (rewardWeights (twoEqual 11)).map (fun w => w.2.sum fun _ weight => weight) = some 2 := by
    decide +kernel
  rw [h] at hsum
  exact (some.inj hsum).trans_lt (by decide)

/-! ### The supply cap -/

theorem wrap64_of_range {x : ℤ} (hlo : -2 ^ 63 ≤ x) (hhi : x < 2 ^ 63) : wrap64 x = x := by
  unfold wrap64
  rw [Int.bmod_def]
  omega

theorem wrap64_of_ge {x : ℤ} (hlo : 2 ^ 63 ≤ x) (hhi : x < 2 ^ 64 + 2 ^ 63) :
    wrap64 x = x - 2 ^ 64 := by
  unfold wrap64
  rw [Int.bmod_def]
  omega

theorem rewardSum_zero (results : List SettleResult) :
    rewardSum (results.map fun r => { r with rewardCoins := 0 }) = 0 := by
  unfold rewardSum
  induction results with
  | nil => rfl
  | cons _ _ ih => simpa using ih

theorem addWeights_full {w w' : Weights} {p : Participant} (h : addWeights e w p = some w') :
    w'.participantFullWeights = w.participantFullWeights.insert p.address (fullWeightOf e p.address) := by
  unfold addWeights at h
  unfold fullWeightOf
  cases hfind : e.validationWeights.find? fun vw => vw.memberAddress = p.address with
  | none =>
    simp only [hfind] at h
    rw [← some.inj h]
    rfl
  | some vw =>
    simp only [hfind] at h
    split at h
    · next hneg =>
      rw [← some.inj h, map_some, getD_some, Int.toNat_of_nonpos hneg]
    · split at h
      · rw [← some.inj h]
        rfl
      · obtain ⟨_, -, rfl⟩ := map_eq_some_iff.mp h
        rfl

/-- The full weights sum to at most what the participants have in the group. -/
theorem full_sum_le (h : rewardWeights e = some (weights, full)) :
    (full.sum fun _ weight => weight) ≤
      (e.participants.map fun p => fullWeightOf e p.address).sum := by
  obtain ⟨w, hw, h⟩ := bind_eq_some_iff.mp h
  obtain ⟨_, -, h⟩ := bind_eq_some_iff.mp h
  obtain ⟨_, -, h⟩ := bind_eq_some_iff.mp h
  cases h
  have hfold : ∀ (ps : List Participant) (w₀ : Weights), ps.foldlM (addWeights e) w₀ = some w →
      (w.participantFullWeights.sum fun _ weight => weight) ≤
        (w₀.participantFullWeights.sum fun _ weight => weight) +
          (ps.map fun p => fullWeightOf e p.address).sum := by
    intro ps
    induction ps with
    | nil =>
      intro w₀ h
      rw [some.inj h]
      exact Nat.le_add_right _ _
    | cons p ps ih =>
      intro w₀ h
      obtain ⟨w₁, hfirst, hrest⟩ := bind_eq_some_iff.mp h
      have hle := ih w₁ hrest
      rw [addWeights_full hfirst] at hle
      have hinsert : ((w₀.participantFullWeights.insert p.address
          (fullWeightOf e p.address)).sum fun _ weight => weight) ≤
          (w₀.participantFullWeights.sum fun _ weight => weight) + fullWeightOf e p.address := by
        cases hget : w₀.participantFullWeights.get? p.address with
        | none => rw [sum_insert_of_none _ _ hget]
        | some v =>
          have := sum_insert_of_some (fun _ weight => weight) (fullWeightOf e p.address) hget
          omega
      simp only [map_cons, sum_cons]
      omega
  simpa using hfold _ _ hw

/-- **The rewards and the governance amount are the minted amount, and the mint keeps to the
supply**, when the cap is reached already, or is not crossed by the reward of this epoch and the
full weights add up without overflow.  Where the cap is crossed, the uncut remainder is owed
once more. -/
theorem rewards_accounted {e : Epoch} {paid supply : Int64} {results : List SettleResult}
    {br : BitcoinResult} (hdistinct : (e.participants.map (·.address)).Nodup)
    (h : getBitcoinSettleAmounts e paid supply = some (results, br)) (hpaid : 0 ≤ paid.toInt)
    (hamount : 0 ≤ br.amount)
    (hcap : supply.toInt ≤ paid.toInt ∨
      paid.toInt + wrap64 e.fixedEpochReward.toNat ≤ supply.toInt ∧
        (e.participants.map fun p => fullWeightOf e p.address).sum < 2 ^ 64) :
    (rewardSum results : ℤ) + br.governanceAmount = br.amount ∧
      paid.toInt + br.amount ≤ max paid.toInt supply.toInt := by
  obtain ⟨⟨results₀, br₀⟩, hcalc, h⟩ := Option.bind_eq_some_iff.mp h
  obtain ⟨hA, hG, -⟩ := calculate_spec hcalc
  by_cases hreached : supply.toInt ≤ paid.toInt
  · simp only [if_pos hreached] at h
    obtain ⟨rfl, rfl⟩ := Prod.mk.inj (Option.some.inj h)
    rw [rewardSum_zero]
    exact ⟨rfl, by simp⟩
  obtain ⟨hbelow, hfit⟩ := hcap.resolve_left hreached
  have hle := distributed_le hdistinct hcalc fun _ _ hw => (full_sum_le hw).trans_lt hfit
  have hs := Int64.toInt_lt supply
  have hF : e.fixedEpochReward.toNat < 2 ^ 64 := e.fixedEpochReward.toNat_lt
  have hrange : -2 ^ 63 ≤ br₀.amount ∧ br₀.amount < 2 ^ 63 := by
    rw [hA]
    unfold wrap64
    constructor
    · exact Int.le_bmod (by decide)
    · exact Int.bmod_lt (by decide)
  rw [← hA] at hbelow
  -- the sum that the code compares with the cap does not overflow
  have hnotcross : ¬ supply.toInt < wrap64 (paid.toInt + br₀.amount) := by
    rw [wrap64_of_range (by omega) (by omega)]
    omega
  simp only [if_neg hreached, if_neg hnotcross] at h
  obtain ⟨rfl, rfl⟩ := Prod.mk.inj (Option.some.inj h)
  have hreward : (e.fixedEpochReward.toNat : ℤ) = br₀.amount := by
    rcases Int.lt_or_le (e.fixedEpochReward.toNat : ℤ) (2 ^ 63) with hlt | hge
    · rw [hA, wrap64_of_range (by omega) hlt]
    · rw [wrap64_of_ge hge (by omega)] at hA
      omega
  rw [Nat.mod_eq_of_lt (hle.trans_lt hF), Int.ofNat_sub hle, hreward] at hG
  unfold maxInt64 at hG
  omega

theorem rewards_accounted_two :
    (rewardSum [⟨1, 0, 5, false, 1, 1, 2⟩, ⟨2, 0, 5, false, 1, 1, 2⟩] : ℤ) + 1 = 11 ∧
      (100 : Int64).toInt + 11 ≤ max (100 : Int64).toInt (1000 : Int64).toInt :=
  rewards_accounted (e := twoEqual 11) (by decide)
    (by decide +kernel : getBitcoinSettleAmounts (twoEqual 11) 100 1000 =
      some ([⟨1, 0, 5, false, 1, 1, 2⟩, ⟨2, 0, 5, false, 1, 1, 2⟩], ⟨11, 1⟩)) (by decide) (by decide)
    (.inr (by decide +kernel))

/-- Of a reward of 3 the two participants get 1 each and governance the rest; with a supply
of 2 left, governance gets that rest and the 2. -/
theorem crossing_owes_twice :
    ∃ results br, getBitcoinSettleAmounts (twoEqual 3) 0 2 = some (results, br) ∧
      ((twoEqual 3).participants.map (·.address)).Nodup ∧ br.amount = 2 ∧
        rewardSum results = 0 ∧ br.governanceAmount = 3 :=
  ⟨[⟨1, 0, 0, false, 1, 1, 2⟩, ⟨2, 0, 0, false, 1, 1, 2⟩], ⟨2, 3⟩, by decide +kernel, by decide,
    rfl, rfl, rfl⟩

end Rewards
