/-
Epoch rewards (`inference-chain/x/inference/keeper/bitcoin_rewards.go`).

At the end of an epoch a fixed reward is minted and divided among the participants by
their weights.  The weights are capped by what was confirmed and by a limit on the power
of one participant, zeroed for downtime, and lowered or moved by delegation; the whole is
always divided by the full weights, so what nobody gets goes to governance.  A second
step keeps the minted coins below the total supply.

`int64` values are integers that `wrap64` brings back into range, `uint64` values are
numbers modulo `2^64`, and a `LegacyDec` is an integer in units of `10^-18`.  A panic is
`none`.  An address is a number, where 0 is the empty string.  The reward of the epoch and
the outcome of the test for missed requests are inputs.
-/
import Mathlib.Data.List.Sort
import Mathlib.Data.Int.Init
import Gonka.Lib.OrdMap

namespace Rewards

/-- `int64` of a value. -/
def wrap64 (x : ℤ) : ℤ := x.bmod (2 ^ 64)

def maxInt64 : ℤ := 2 ^ 63 - 1

def maxUint64 : ℕ := 2 ^ 64 - 1

/-- `LegacyDec.TruncateInt64`, which panics out of range. -/
def truncateInt64 (dec : ℤ) : Option ℤ :=
  let q := dec.tdiv (10 ^ 18)
  if -2 ^ 63 ≤ q ∧ q ≤ maxInt64 then some q else none

/-- `a.Div(b).IntPart()` of `decimal`: rounded to 16 digits, half away from zero, and then
truncated. -/
def divIntPart (a b : ℤ) : ℤ :=
  let q : ℕ := ((2 * a.natAbs * 10 ^ 16 + b.natAbs) / (2 * b.natAbs)) / 10 ^ 16
  if (0 ≤ a ↔ 0 ≤ b) then q else -q

inductive ParticipantStatus where
  | unspecified
  | active
  | inactive
  | invalid
  | ramping
  | unconfirmed
  deriving DecidableEq

structure Participant where
  address : ℕ
  status : ParticipantStatus
  coinBalance : Int64
  inferenceCount : UInt64
  missedRequests : UInt64

structure ValidationWeight where
  memberAddress : ℕ
  weight : Int64
  confirmationWeight : Int64

structure DelegationRewardTransfer where
  sender : ℕ
  receiver : ℕ
  /-- `ToLegacyDec`, `none` if there is no share or it is not a decimal. -/
  share : Option ℤ

structure DelegationRewardPenalty where
  participant : ℕ
  penaltyFraction : Option ℤ

/-- What the rewards of an epoch are computed from. -/
structure Epoch where
  participants : List Participant
  validationWeights : List ValidationWeight
  /-- `ConfirmationWeightScales`: a model and its factor. -/
  confirmationWeightScales : List (ℕ × ℤ) := []
  /-- The weights of the nodes of a participant, by model. -/
  participantMLNodes : ℕ → List (ℕ × List Int64) := fun _ => []
  /-- `CalculateFixedEpochReward`, 0 if it fails. -/
  fixedEpochReward : UInt64
  /-- `MissedStatTest` at the `p0` that `getDynamicP0` selects, for the missed and all
  requests; `none` if punishment is skipped. -/
  missedStatTest : Option (UInt64 → UInt64 → Bool) := none
  delegationRewardTransfers : List DelegationRewardTransfer := []
  delegationRewardPenalties : List DelegationRewardPenalty := []

def confirmationCoefficient (scales : List (ℕ × ℤ)) (modelId : ℕ) : Option ℤ :=
  (scales.reverse.find? fun scale => scale.1 ≠ 0 ∧ scale.1 = modelId).map Prod.snd

def confirmationWeightOfModelNodes (scales : List (ℕ × ℤ)) (modelNodes : List (ℕ × List Int64)) :
    Option ℤ :=
  modelNodes.foldlM (fun total modelNode =>
    match confirmationCoefficient scales modelNode.1 with
    | none => some total
    | some coeff =>
      let rawModel := modelNode.2.foldl (fun raw weight => wrap64 (raw + weight.toInt)) 0
      (truncateInt64 (coeff * rawModel)).map fun confirmed => wrap64 (total + confirmed)) 0

def effectiveWeight (e : Epoch) (vw : ValidationWeight) : Option ℤ :=
  let fullWeight := vw.weight.toInt
  if e.confirmationWeightScales = [] then some fullWeight
  else
    (confirmationWeightOfModelNodes e.confirmationWeightScales
      (e.participantMLNodes vw.memberAddress)).map fun rawTotal =>
        min fullWeight
          (if 0 < rawTotal then wrap64 (max 0 vw.confirmationWeight.toInt * fullWeight / rawTotal) else 0)

structure Weights where
  participantWeights : OrdMap ℕ ℕ := ∅
  participantFullWeights : OrdMap ℕ ℕ := ∅
  effectiveWeights : List (ℕ × ℤ) := []

def addWeights (e : Epoch) (w : Weights) (p : Participant) : Option Weights :=
  match e.validationWeights.find? fun vw => vw.memberAddress = p.address with
  | none =>
    some { w with
      participantWeights := w.participantWeights.insert p.address 0
      participantFullWeights := w.participantFullWeights.insert p.address 0 }
  | some vw =>
    if vw.weight.toInt ≤ 0 then
      some { w with
        participantWeights := w.participantWeights.insert p.address 0
        participantFullWeights := w.participantFullWeights.insert p.address 0 }
    else
      let full := w.participantFullWeights.insert p.address vw.weight.toInt.toNat
      if p.status ≠ .active then
        some { w with
          participantWeights := w.participantWeights.insert p.address 0
          participantFullWeights := full }
      else
        (effectiveWeight e vw).map fun weight =>
          { w with
            participantFullWeights := full
            effectiveWeights := w.effectiveWeights ++ [(p.address, weight)] }

/-- The loop of `CalculateOptimalCap` over the powers in ascending order.  The percentage is
in tenths. -/
def findCap (maxPercentage sumPrev : ℤ) : List ℤ → Option ℤ
  | [] => none
  | currentPower :: rest =>
    let remaining : ℤ := (rest.length + 1 : ℕ)
    let weightedTotal := wrap64 (sumPrev + wrap64 (currentPower * remaining))
    if maxPercentage * weightedTotal < 10 * currentPower then
      if 10 - maxPercentage * remaining ≤ 0 then some currentPower
      else some (wrap64 (divIntPart (maxPercentage * sumPrev) (10 - maxPercentage * remaining)))
    else findCap maxPercentage (wrap64 (sumPrev + currentPower)) rest

def calculateOptimalCap (participants : List (ℕ × ℤ)) (maxPercentage : ℤ) : List (ℕ × ℤ) :=
  let powers := (participants.map Prod.snd).filter (0 < ·)
  match findCap maxPercentage 0 (powers.insertionSort (· ≤ ·)) with
  | none => participants
  | some cap =>
    if cap ≤ 0 then participants
    else participants.map fun p => if cap < p.2 then (p.1, cap) else p

def getNetworkLimit (positiveCount : ℕ) : ℤ :=
  if positiveCount = 2 then 5 else if positiveCount = 3 then 4 else 3

def applyPowerCappingForWeights (participants : List (ℕ × ℤ)) : List (ℕ × ℤ) :=
  let positiveCount := ((participants.map Prod.snd).filter (0 < ·)).length
  if positiveCount ≤ 1 then participants
  else calculateOptimalCap participants (getNetworkLimit positiveCount)

def weightOf (weights : OrdMap ℕ ℕ) (address : ℕ) : ℕ := (weights.get? address).getD 0

def checkAndPunishForDowntime (passed : UInt64 → UInt64 → Bool) (p : Participant) (reward : ℕ) : ℕ :=
  let total := p.inferenceCount + p.missedRequests
  if total = 0 then reward else if passed p.missedRequests total then reward else 0

def checkAndPunishForDowntimeForParticipants (passed : UInt64 → UInt64 → Bool)
    (participants : List Participant) (weights : OrdMap ℕ ℕ) : OrdMap ℕ ℕ :=
  participants.foldl (fun weights p =>
    weights.insert p.address (checkAndPunishForDowntime passed p (weightOf weights p.address))) weights

def delegationShareOfWeight (share : Option ℤ) (weight : ℕ) : Option ℕ :=
  match share with
  | none => some 0
  | some share =>
    if weight = 0 ∨ 2 ^ 63 - 1 < weight ∨ share = 0 then some 0
    else (truncateInt64 (share * weight)).map Int.toNat

def applyDelegationRewardPenalty (baseRewardable weights : OrdMap ℕ ℕ)
    (penalty : DelegationRewardPenalty) : Option (OrdMap ℕ ℕ) :=
  match weights.get? penalty.participant with
  | none => some weights
  | some weight =>
    if penalty.participant = 0 then some weights
    else
      (delegationShareOfWeight penalty.penaltyFraction
        (weightOf baseRewardable penalty.participant)).map fun share =>
          weights.insert penalty.participant (weight - min share weight)

def applyDelegationRewardPenalties (penalties : List DelegationRewardPenalty)
    (weights : OrdMap ℕ ℕ) : Option (OrdMap ℕ ℕ) :=
  penalties.foldlM (applyDelegationRewardPenalty weights) weights

def applyDelegationRewardTransfer (baseRewardable weights : OrdMap ℕ ℕ)
    (transfer : DelegationRewardTransfer) : Option (OrdMap ℕ ℕ) :=
  match weights.get? transfer.sender with
  | none => some weights
  | some weight =>
    if transfer.sender = 0 then some weights
    else
      (delegationShareOfWeight transfer.share (weightOf baseRewardable transfer.sender)).map fun share =>
        let amount := min share weight
        if amount = 0 then weights
        else
          let weights := weights.insert transfer.sender (weight - amount)
          if transfer.receiver ≠ 0 ∧ 0 < weightOf weights transfer.receiver then
            weights.insert transfer.receiver (min maxUint64 (weightOf weights transfer.receiver + amount))
          else weights

def applyDelegationRewardTransfers (transfers : List DelegationRewardTransfer)
    (weights : OrdMap ℕ ℕ) : Option (OrdMap ℕ ℕ) :=
  transfers.foldlM (applyDelegationRewardTransfer weights) weights

def rewardWeights (e : Epoch) : Option (OrdMap ℕ ℕ × OrdMap ℕ ℕ) := do
  let w ← e.participants.foldlM (addWeights e) {}
  let capped := applyPowerCappingForWeights w.effectiveWeights
  let weights := capped.foldl (fun weights p => weights.insert p.1 p.2.toNat) w.participantWeights
  let weights :=
    match e.missedStatTest with
    | none => weights
    | some passed => checkAndPunishForDowntimeForParticipants passed e.participants weights
  let weights ← applyDelegationRewardPenalties e.delegationRewardPenalties weights
  let weights ← applyDelegationRewardTransfers e.delegationRewardTransfers weights
  return (weights, w.participantFullWeights)

structure SettleResult where
  participant : ℕ
  workCoins : ℕ
  rewardCoins : ℕ
  /-- `ErrNegativeCoinBalance`. -/
  failed : Bool
  participantRewardWeight : ℕ
  participantFullWeight : ℕ
  totalRewardWeight : ℕ
  deriving DecidableEq

structure BitcoinResult where
  amount : ℤ
  governanceAmount : ℤ
  deriving DecidableEq

/-- The reward by weight; more than a `uint64` is cut. -/
def shareOfReward (fixedEpochReward total weight : ℕ) : ℕ :=
  let result := weight * fixedEpochReward / total
  if result < 2 ^ 64 then result else 2 ^ 63 - 1

def settleParticipant (fixedEpochReward : ℕ) (weights full : OrdMap ℕ ℕ) (total : ℕ)
    (p : Participant) (totalDistributed : ℕ) : SettleResult × ℕ :=
  let workCoins := if 0 < p.coinBalance.toInt ∧ p.status = .active then p.coinBalance.toInt.toNat else 0
  let weight := weightOf weights p.address
  let rewardCoins :=
    if p.status = .active ∧ 0 < total ∧ 0 < weight then shareOfReward fixedEpochReward total weight else 0
  let totalDistributed := (totalDistributed + rewardCoins) % 2 ^ 64
  let debt := p.coinBalance.toInt.natAbs
  -- What a debt takes from the reward is not distributed.
  let (rewardCoins, failed, totalDistributed) :=
    if p.coinBalance.toInt < 0 then
      if debt ≤ rewardCoins then
        (rewardCoins - debt, false, (totalDistributed + (2 ^ 64 - debt)) % 2 ^ 64)
      else (0, true, (totalDistributed + (2 ^ 64 - rewardCoins)) % 2 ^ 64)
    else (rewardCoins, false, totalDistributed)
  ({ participant := p.address
     workCoins, rewardCoins, failed
     participantRewardWeight := weight
     participantFullWeight := weightOf full p.address
     totalRewardWeight := total }, totalDistributed)

def settleParticipants (fixedEpochReward : ℕ) (weights full : OrdMap ℕ ℕ) (total : ℕ) :
    List Participant → ℕ → List SettleResult × ℕ
  | [], totalDistributed => ([], totalDistributed)
  | p :: rest, totalDistributed =>
    let r := settleParticipant fixedEpochReward weights full total p totalDistributed
    let rs := settleParticipants fixedEpochReward weights full total rest r.2
    (r.1 :: rs.1, rs.2)

def calculateParticipantBitcoinRewards (e : Epoch) : Option (List SettleResult × BitcoinResult) := do
  let (weights, full) ← rewardWeights e
  let fixedEpochReward := e.fixedEpochReward.toNat
  let totalFullWeight := (full.sum fun _ weight => weight) % 2 ^ 64
  let (settleResults, totalDistributed) :=
    settleParticipants fixedEpochReward weights full totalFullWeight e.participants 0
  let remainder := fixedEpochReward - totalDistributed
  return (settleResults, ⟨wrap64 fixedEpochReward, min maxInt64 remainder⟩)

def saturatingAddUint64Max (a : ℤ) (b : ℕ) : ℤ :=
  if a = maxInt64 then maxInt64 else if maxInt64 - a ≤ b then maxInt64 else a + b

def reducedReward (originalAmount remainingSupply : ℤ) (rewardCoins : ℕ) : ℕ :=
  (wrap64 (divIntPart (rewardCoins * remainingSupply) originalAmount) % 2 ^ 64).toNat

def reduceRewards (originalAmount remainingSupply : ℤ) (results : List SettleResult) :
    List SettleResult :=
  results.map fun r =>
    if r.failed then r
    else { r with rewardCoins := reducedReward originalAmount remainingSupply r.rewardCoins }

/-- What the reduced rewards add up to in a `uint64`. -/
def reducedTotal (results : List SettleResult) : ℕ :=
  (((results.filter fun r => r.failed = false).map (·.rewardCoins)).sum) % 2 ^ 64

def getBitcoinSettleAmounts (e : Epoch) (totalSubsidyPaid totalSubsidySupply : Int64) :
    Option (List SettleResult × BitcoinResult) := do
  let (settleResults, bitcoinResult) ← calculateParticipantBitcoinRewards e
  let paid := totalSubsidyPaid.toInt
  let supply := totalSubsidySupply.toInt
  if supply ≤ paid then
    -- The cap is reached: nothing is minted.
    return (settleResults.map fun r => { r with rewardCoins := 0 }, ⟨0, 0⟩)
  else if supply < wrap64 (paid + bitcoinResult.amount) then
    -- The cap is crossed: only what is left is minted.
    let originalAmount := bitcoinResult.amount
    let amount := supply - paid
    if 0 < originalAmount then
      let reduced := reduceRewards originalAmount amount settleResults
      let remainder := amount.toNat - reducedTotal reduced
      return (reduced, ⟨amount, saturatingAddUint64Max bitcoinResult.governanceAmount remainder⟩)
    else return (settleResults, { bitcoinResult with amount })
  else return (settleResults, bitcoinResult)

end Rewards
