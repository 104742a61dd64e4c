/-
How far emergency exemptions reach.

A transfer between users needs an exemption that is not over and not used up.  Only the message counts
a use, and it counts it for the exemption and the sender that it names: a transfer that is sent
directly, or under another exemption, or with another spelling of the sender, relies on an exemption
without using it up.  Sums of amounts may wrap, so that large transfers of several denominations pass
as small ones.

Main results: `exemptions_bounded`, `exemption_overused`.
-/
import Mathlib.Order.Fin.Basic
import Gonka.Chain.TransferRestrictions

namespace Restrictions

open Checked List
open Maintenance (Bech32)

variable {A D : Type} [LinearOrder D] {codec : Bech32 A} {w : World A}
  {s s' : State A D} {tr : Transfer A D} {e : EmergencyTransferExemption}

def exactTotal (coins : Coins D) : ℕ := (coins.denoms.map coins.amountOf).sum

theorem foldlM_total {coins : Coins D} (ds : List D) {start total : UInt64}
    (h : ds.foldlM (fun total d => if coins.amountOf d < 2 ^ 64 then
      some (total + UInt64.ofNat (coins.amountOf d)) else none) start = some total) :
    total.toNat = (start.toNat + (ds.map coins.amountOf).sum) % 2 ^ 64 := by
  induction ds generalizing start with
  | nil =>
    cases h
    have hlt := total.toNat_lt
    simp only [map_nil, sum_nil]
    omega
  | cons d _ ih =>
    rw [foldlM_cons] at h
    by_cases hd : coins.amountOf d < 2 ^ 64
    · rw [if_pos hd] at h
      rw [ih h, UInt64.toNat_add, UInt64.toNat_ofNat', map_cons, sum_cons]
      omega
    · rw [if_neg hd] at h
      cases h

theorem totalAmount_eq_some {coins : Coins D} {total : UInt64} (h : totalAmount coins = some total) :
    total.toNat = exactTotal coins % 2 ^ 64 := by
  have hsum := foldlM_total coins.denoms h
  rw [hsum]
  show (0 + exactTotal coins) % 2 ^ 64 = _
  rw [Nat.zero_add]

theorem usageOf_recordUsage (tracking : List ExemptionUsage) (id account id' account' : String) :
    usageOf (recordUsage id account tracking) id' account' =
      if id' = id ∧ account' = account then usageOf tracking id account + 1
      else usageOf tracking id' account' := by
  induction tracking with
  | nil =>
    unfold recordUsage usageOf
    by_cases hid : id' = id ∧ account' = account
    · simp [hid]
    · have hother : ¬ (id = id' ∧ account = account') := fun h => hid ⟨h.1.symm, h.2.symm⟩
      simp [hid, hother]
  | cons u rest ih =>
    unfold recordUsage
    by_cases hu : u.exemptionId = id ∧ u.accountAddress = account
    · rw [if_pos hu]
      obtain ⟨rfl, rfl⟩ := hu
      by_cases hid : id' = u.exemptionId ∧ account' = u.accountAddress
      · obtain ⟨rfl, rfl⟩ := hid
        simp [usageOf]
      · have hother : ¬ (u.exemptionId = id' ∧ u.accountAddress = account') :=
          fun h => hid ⟨h.1.symm, h.2.symm⟩
        rw [if_neg hid]
        simp [usageOf, hother]
    · rw [if_neg hu]
      by_cases hu' : u.exemptionId = id' ∧ u.accountAddress = account'
      · have hid : ¬ (id' = id ∧ account' = account) := by
          rintro ⟨rfl, rfl⟩
          exact hu hu'
        rw [if_neg hid]
        simp [usageOf, hu']
      · have hrest : ∀ tracking' : List ExemptionUsage,
            usageOf (u :: tracking') id' account' = usageOf tracking' id' account' := by
          simp [usageOf, hu']
        have hfirst : usageOf (u :: rest) id account = usageOf rest id account := by
          simp [usageOf, hu]
        rw [hrest, hrest, hfirst, ih]

namespace Transfer

def covers (codec : Bech32 A) (tr : Transfer A D) (e : EmergencyTransferExemption) : Bool :=
  decide (applies codec tr.world tr.sender tr.recipient e) &&
  (match parseUint e.maxAmount, totalAmount tr.coins with
    | some maxAmount, some total => decide (total.toNat ≤ maxAmount)
    | _, _ => false) &&
  decide (usageOf tr.params.exemptionUsageTracking e.exemptionId (codec.string tr.sender) < e.usageLimit)

def onlyBecause (codec : Bech32 A) (e : EmergencyTransferExemption) (tr : Transfer A D) : Bool :=
  tr.covers codec e &&
    tr.params.emergencyTransferExemptions.all fun e' => !tr.covers codec e' || decide (e' = e)

/-- The exemption covers the transfer, with its exact sum. -/
structure Covers (codec : Bech32 A) (tr : Transfer A D) (e : EmergencyTransferExemption) : Prop where
  unexpired : tr.world.blockHeight < e.expiryBlock.toNat
  sender : e.fromAddress = "*" ∨ e.fromAddress = codec.string tr.sender
  recipient : e.toAddress = "*" ∨ e.toAddress = codec.string tr.recipient
  amount : ∃ maxAmount, parseUint e.maxAmount = some maxAmount ∧ exactTotal tr.coins ≤ maxAmount
  unexhausted : usageOf tr.params.exemptionUsageTracking e.exemptionId (codec.string tr.sender) <
    e.usageLimit

theorem covers_iff : tr.covers codec e = true ↔ applies codec tr.world tr.sender tr.recipient e ∧
      (∃ maxAmount total, parseUint e.maxAmount = some maxAmount ∧
        totalAmount tr.coins = some total ∧ total.toNat ≤ maxAmount) ∧
      usageOf tr.params.exemptionUsageTracking e.exemptionId (codec.string tr.sender) <
        e.usageLimit := by
  unfold covers
  rw [Bool.and_eq_true, Bool.and_eq_true, decide_eq_true_iff, decide_eq_true_iff, and_assoc]
  refine and_congr_right fun _ => and_congr_left fun _ => ?_
  cases parseUint e.maxAmount with
  | none => simp
  | some =>
    cases totalAmount tr.coins with
    | none | some => simp

/-- A sum that does not wrap is exact. -/
theorem Covers.of_covers (h : tr.covers codec e = true) (hsum : exactTotal tr.coins < 2 ^ 64) :
    tr.Covers codec e := by
  obtain ⟨⟨hexpiry, hsender, hrecipient⟩, ⟨maxAmount, _, hmax, htotal, _⟩, husage⟩ :=
    covers_iff.mp h
  refine ⟨hexpiry, hsender, hrecipient, ⟨maxAmount, hmax, ?_⟩, husage⟩
  have hexact := totalAmount_eq_some htotal
  omega

theorem usage_lt_of_onlyBecause (h : tr.onlyBecause codec e) :
    (usageOf tr.params.exemptionUsageTracking e.exemptionId (codec.string tr.sender)).toNat <
      e.usageLimit.toNat := by
  unfold onlyBecause at h
  rw [Bool.and_eq_true] at h
  exact UInt64.lt_iff_toNat_lt.mp (covers_iff.mp h.1).2.2

end Transfer

theorem findExemption_eq_true {l : List EmergencyTransferExemption}
    (h : findExemption codec tr.world tr.params.exemptionUsageTracking tr.sender tr.recipient tr.coins l =
      some true) : ∃ e ∈ l, tr.covers codec e = true := by
  induction l with
  | nil => cases h
  | cons e rest ih =>
    have hrest : findExemption codec tr.world tr.params.exemptionUsageTracking tr.sender tr.recipient
        tr.coins rest = some true → ∃ e' ∈ e :: rest, tr.covers codec e' = true := by
      intro hrest
      obtain ⟨e', he', hcovers⟩ := ih hrest
      exact ⟨e', mem_cons_of_mem e he', hcovers⟩
    unfold findExemption at h
    split at h
    case isFalse => exact hrest h
    rename_i happlies
    cases hmax : parseUint e.maxAmount with
    | none =>
      rw [hmax] at h
      exact hrest h
    | some maxAmount =>
      rw [hmax] at h
      cases htotal : totalAmount tr.coins with
      | none =>
        rw [htotal] at h
        cases h
      | some total =>
        rw [htotal] at h
        simp only at h
        split at h
        · exact hrest h
        rename_i hle
        split at h
        · exact hrest h
        rename_i husage
        refine ⟨e, mem_cons_self, Transfer.covers_iff.mpr ⟨happlies, ?_, ?_⟩⟩
        · exact ⟨maxAmount, total, hmax, htotal, by omega⟩
        · exact UInt64.not_le.mp husage

variable [LinearOrder A]

/-- **What a successful transfer does**: between users it is covered, and recorded. -/
theorem sendCoins_ok {sender recipient : A} {coins : Coins D} {message : Option (String × String)}
    (h : sendCoins codec w sender recipient coins message s = .ok s') :
    s' = s ∨ s' = { s with transfers :=
        s.transfers ++ [⟨w, s.params, sender, recipient, coins, message⟩] } ∧
      ∃ e ∈ s.params.emergencyTransferExemptions,
        (⟨w, s.params, sender, recipient, coins, message⟩ : Transfer A D).covers codec e = true := by
  unfold sendCoins at h
  simp only [bind_eq_ok_iff, require_eq_ok_iff, pure_eq_ok_iff] at h
  obtain ⟨_, hrestriction, _, _, rfl⟩ := h
  split
  case isFalse => exact .inl rfl
  rename_i hbetween
  refine .inr ⟨rfl, ?_⟩
  unfold sendRestrictionFn at hrestriction
  rw [if_neg (by simp [hbetween.1]), if_neg (by simp [hbetween.2])] at hrestriction
  unfold matchesEmergencyExemption at hrestriction
  cases hreadable : w.readable with
  | false =>
    rw [hreadable] at hrestriction
    cases hrestriction
  | true =>
    rw [hreadable, if_pos rfl] at hrestriction
    split at hrestriction
    · cases hrestriction
    · rename_i hfind
      exact findExemption_eq_true hfind
    · cases hrestriction

theorem executeEmergencyTransfer_ok {req : MsgExecuteEmergencyTransfer D} {left : UInt64}
    (h : executeEmergencyTransfer codec w req s = .ok (s', left)) :
    (∃ sender recipient coins s₁, sendCoins codec w sender recipient coins
        (some (req.exemptionId, req.fromAddress)) s = .ok s₁ ∧
      s' = ⟨{ s.params with
        exemptionUsageTracking := recordUsage req.exemptionId req.fromAddress
          s.params.exemptionUsageTracking }, s₁.transfers⟩) ∧
    ∃ limit : UInt64,
      usageOf s.params.exemptionUsageTracking req.exemptionId req.fromAddress < limit := by
  unfold executeEmergencyTransfer at h
  simp only [bind_eq_ok_iff, require_eq_ok_iff, found_eq_ok_iff, pure_eq_ok_iff] at h
  obtain ⟨_, _, exemption, _, _, _, _, _, _, _, amount, _, _, _, _, _, _, husage, sender, _, recipient, _,
    _, _, s₁, hsend, hresult⟩ := h
  cases hresult
  exact ⟨⟨sender, recipient, _, s₁, hsend, rfl⟩, _, husage⟩

/-- The transfer counts as a use of the exemption that it relies on, and its sum does not wrap. -/
def Tracked (codec : Bech32 A) (s : State A D) (input : World A × Op A D) : Prop :=
  ∀ tr, (step codec input s).transfers = s.transfers ++ [tr] →
    exactTotal tr.coins < 2 ^ 64 ∧
    ∀ e, tr.onlyBecause codec e → tr.message = some (e.exemptionId, codec.string tr.sender)

def relying (codec : Bech32 A) (e : EmergencyTransferExemption) (a : A)
    (transfers : List (Transfer A D)) : ℕ :=
  transfers.countP fun tr => decide (tr.sender = a) && tr.onlyBecause codec e

/-- What tracked transfers keep: the uses are counted, and every transfer is covered. -/
structure Counted (codec : Bech32 A) (exemptions : List EmergencyTransferExemption) (s : State A D) :
    Prop where
  unchanged : s.params.emergencyTransferExemptions = exemptions
  used : ∀ e a, relying codec e a s.transfers ≤
    (usageOf s.params.exemptionUsageTracking e.exemptionId (codec.string a)).toNat
  bounded : ∀ e a, relying codec e a s.transfers ≤ e.usageLimit.toNat
  covered : ∀ tr ∈ s.transfers, exactTotal tr.coins < 2 ^ 64 ∧
    ∃ e ∈ exemptions, tr.covers codec e = true

theorem relying_append (e : EmergencyTransferExemption) (a : A) (transfers : List (Transfer A D))
    (tr : Transfer A D) : relying codec e a (transfers ++ [tr]) = relying codec e a transfers +
      if tr.sender = a ∧ tr.onlyBecause codec e then 1 else 0 := by
  unfold relying
  rw [countP_append, countP_singleton]
  simp only [Bool.and_eq_true, decide_eq_true_eq]

theorem le_usageOf_recordUsage {tracking : List ExemptionUsage} {id account : String} {limit : UInt64}
    (h : usageOf tracking id account < limit) (id' account' : String) :
    (usageOf tracking id' account').toNat ≤
      (usageOf (recordUsage id account tracking) id' account').toNat ∧
    (id' = id → account' = account → (usageOf (recordUsage id account tracking) id' account').toNat =
      (usageOf tracking id' account').toNat + 1) := by
  have hlt : (usageOf tracking id account).toNat < limit.toNat := UInt64.lt_iff_toNat_lt.mp h
  have hlimit := limit.toNat_lt
  have hadd : (usageOf tracking id account + 1).toNat = (usageOf tracking id account).toNat + 1 := by
    rw [UInt64.toNat_add, UInt64.toNat_one, Nat.mod_eq_of_lt (by omega)]
  rw [usageOf_recordUsage]
  split
  · rename_i hsame
    rw [hsame.1, hsame.2, hadd]
    exact ⟨Nat.le_succ _, fun _ _ => rfl⟩
  · rename_i hother
    exact ⟨le_rfl, fun hid haccount => absurd ⟨hid, haccount⟩ hother⟩

variable {exemptions : List EmergencyTransferExemption}

theorem Counted.send (hs : Counted codec exemptions s) {sender recipient : A} {coins : Coins D}
    (h : sendCoins codec w sender recipient coins none s = .ok s')
    (htracked : ∀ tr, s'.transfers = s.transfers ++ [tr] → exactTotal tr.coins < 2 ^ 64 ∧
      ∀ e, tr.onlyBecause codec e → tr.message = some (e.exemptionId, codec.string tr.sender)) :
    Counted codec exemptions s' := by
  rcases sendCoins_ok h with rfl | ⟨rfl, e₀, he₀, hcovers⟩
  · exact hs
  obtain ⟨hsum, hnone⟩ := htracked _ rfl
  have hsame : ∀ e a, relying codec e a (s.transfers ++ [⟨w, s.params, sender, recipient, coins, none⟩]) =
      relying codec e a s.transfers := by
    intro e a
    rw [relying_append, if_neg]
    · rfl
    · rintro ⟨-, honly⟩
      cases hnone e honly
  refine ⟨hs.unchanged, fun e a => ?_, fun e a => ?_, fun tr htr => ?_⟩
  · exact (hsame e a).trans_le (hs.used e a)
  · exact (hsame e a).trans_le (hs.bounded e a)
  · rcases mem_append.mp htr with htr | htr
    · exact hs.covered tr htr
    · rw [mem_singleton.mp htr]
      exact ⟨hsum, e₀, hs.unchanged ▸ he₀, hcovers⟩

theorem Counted.execute (hs : Counted codec exemptions s) {req : MsgExecuteEmergencyTransfer D}
    {left : UInt64} (h : executeEmergencyTransfer codec w req s = .ok (s', left))
    (htracked : ∀ tr, s'.transfers = s.transfers ++ [tr] → exactTotal tr.coins < 2 ^ 64 ∧
      ∀ e, tr.onlyBecause codec e → tr.message = some (e.exemptionId, codec.string tr.sender)) :
    Counted codec exemptions s' := by
  obtain ⟨⟨sender, recipient, coins, _, hsend, rfl⟩, _, husage⟩ :=
    executeEmergencyTransfer_ok h
  have hrecord := le_usageOf_recordUsage husage
  rcases sendCoins_ok hsend with rfl | ⟨rfl, e₀, he₀, hcovers⟩
  · -- not between users: nothing is recorded but the use
    exact ⟨hs.unchanged, fun e a => (hs.used e a).trans (hrecord _ _).1, hs.bounded, hs.covered⟩
  obtain ⟨hsum, hmessage⟩ := htracked _ rfl
  set tr : Transfer A D := ⟨w, s.params, sender, recipient, coins,
    some (req.exemptionId, req.fromAddress)⟩
  -- an exemption that the transfer relies on is the one that the message names
  have hnamed : ∀ e, tr.onlyBecause codec e →
      e.exemptionId = req.exemptionId ∧ codec.string sender = req.fromAddress := by
    intro e honly
    have hpair := Option.some.inj (hmessage e honly)
    exact ⟨(congrArg Prod.fst hpair).symm, (congrArg Prod.snd hpair).symm⟩
  refine ⟨hs.unchanged, fun e a => ?_, fun e a => ?_, fun tr' htr' => ?_⟩
  · show relying codec e a (s.transfers ++ [tr]) ≤ (usageOf (recordUsage req.exemptionId
      req.fromAddress s.params.exemptionUsageTracking) e.exemptionId (codec.string a)).toNat
    have hused := hs.used e a
    obtain ⟨_, hmore⟩ := hrecord e.exemptionId (codec.string a)
    rw [relying_append]
    split
    · rename_i hrelies
      obtain ⟨hid, hfrom⟩ := hnamed e hrelies.2
      have haccount : codec.string a = req.fromAddress := by
        rw [← hrelies.1]
        exact hfrom
      have hnext := hmore hid haccount
      omega
    · omega
  · show relying codec e a (s.transfers ++ [tr]) ≤ e.usageLimit.toNat
    have hused := hs.used e a
    rw [relying_append]
    split
    · rename_i hrelies
      have hlt : (usageOf s.params.exemptionUsageTracking e.exemptionId (codec.string sender)).toNat <
          e.usageLimit.toNat := Transfer.usage_lt_of_onlyBecause hrelies.2
      have haccount : sender = a := hrelies.1
      rw [haccount] at hlt
      omega
    · exact hs.bounded e a
  · rcases mem_append.mp htr' with htr' | htr'
    · exact hs.covered tr' htr'
    · rw [mem_singleton.mp htr']
      exact ⟨hsum, e₀, hs.unchanged ▸ he₀, hcovers⟩

theorem Counted.step (hs : Counted codec exemptions s) {input : World A × Op A D}
    (htracked : Tracked codec s input) : Counted codec exemptions (step codec input s) := by
  obtain ⟨w, op⟩ := input
  unfold Tracked at htracked
  unfold Restrictions.step at htracked ⊢
  cases op with
  | send sender recipient coins =>
    cases hsend : sendCoins codec w sender recipient coins none s with
    | error =>
      simp only [hsend]
      exact hs
    | ok =>
      simp only [hsend] at htracked ⊢
      exact hs.send hsend htracked
  | executeEmergencyTransfer req =>
    cases hexecute : executeEmergencyTransfer codec w req s with
    | error =>
      simp only [hexecute]
      exact hs
    | ok result =>
      obtain ⟨s', left⟩ := result
      simp only [hexecute] at htracked ⊢
      exact hs.execute hexecute htracked

/-- **Exemptions are bounded, when all transfers are tracked.**  For each exemption and account, the
transfers that rely on the exemption are at most as many as it allows; each of them moves no more than
it allows, before it ends; and every transfer between users is covered by an exemption. -/
theorem exemptions_bounded {params : Params} {inputs : List (World A × Op A D)}
    (h : Along.EachStep (step codec) (Tracked codec) inputs ⟨params, []⟩) :
    let transfers := (Along.run (step codec) inputs ⟨params, []⟩).transfers
    (∀ e a, relying codec e a transfers ≤ e.usageLimit.toNat) ∧
    (∀ tr ∈ transfers, ∀ e, tr.onlyBecause codec e →
      (∃ maxAmount, parseUint e.maxAmount = some maxAmount ∧ exactTotal tr.coins ≤ maxAmount) ∧
      tr.world.blockHeight ≤ e.expiryBlock.toNat) ∧
    ∀ tr ∈ transfers, ∃ e ∈ params.emergencyTransferExemptions, tr.Covers codec e := by
  have hfirst : Counted codec params.emergencyTransferExemptions (⟨params, []⟩ : State A D) :=
    ⟨rfl, fun _ _ => Nat.zero_le _, fun _ _ => Nat.zero_le _, fun _ htr => (List.not_mem_nil htr).elim⟩
  have hlast := Along.run_of_eachStep (P := Counted codec params.emergencyTransferExemptions)
    (Q := Tracked codec) (fun _ _ hs htracked => hs.step htracked) hfirst h
  refine ⟨hlast.bounded, fun tr htr e honly => ?_, fun tr htr => ?_⟩
  · obtain ⟨hsum, -⟩ := hlast.covered tr htr
    have hcovers : tr.covers codec e = true := by
      unfold Transfer.onlyBecause at honly
      rw [Bool.and_eq_true] at honly
      exact honly.1
    have hexact := Transfer.Covers.of_covers hcovers hsum
    exact ⟨hexact.amount, hexact.unexpired.le⟩
  · obtain ⟨hsum, e, he, hcovers⟩ := hlast.covered tr htr
    exact ⟨e, he, Transfer.Covers.of_covers hcovers hsum⟩

def caseCodec : Bech32 (Fin 3) where
  accAddressFromBech32 text := if text = "a" ∨ text = "A" then some 0 else if text = "b" then some 1
    else if text = "c" then some 2 else none
  string addr := if addr = 0 then "a" else if addr = 1 then "b" else "c"
  accAddressFromBech32_string := by decide

def onceExemption : EmergencyTransferExemption := ⟨"e", "*", "*", "5", 1, 100⟩

def onceParams : Params := ⟨50, [onceExemption], []⟩

def onceWorld : World (Fin 3) := ⟨10, true, 2, fun _ => false, true⟩

def onceRun (ops : List (Op (Fin 3) (Fin 2))) : List (Transfer (Fin 3) (Fin 2)) :=
  (Along.run (step caseCodec) (ops.map fun op => (onceWorld, op)) ⟨onceParams, []⟩).transfers

def onceMessage (spelled : String) : Op (Fin 3) (Fin 2) :=
  .executeEmergencyTransfer ⟨"e", spelled, "b", "5", 0⟩

/-- The exemption is used, and then used up. -/
theorem exemptions_bounded_once :
    let transfers := onceRun [onceMessage "a", onceMessage "a"]
    transfers.length = 1 ∧ (∀ e a, relying caseCodec e a transfers ≤ e.usageLimit.toNat) ∧
    ∀ tr ∈ transfers, ∃ e ∈ onceParams.emergencyTransferExemptions, tr.Covers caseCodec e := by
  have htracked : Along.EachStep (step caseCodec) (Tracked caseCodec)
      [(onceWorld, onceMessage "a"), (onceWorld, onceMessage "a")] ⟨onceParams, []⟩ := by
    -- the second message is refused
    refine ⟨fun tr htr => ?_, fun tr htr => (nomatch htr), trivial⟩
    cases htr
    refine ⟨by decide, fun e honly => ?_⟩
    -- the only exemption covers the transfer
    unfold Transfer.onlyBecause at honly
    rw [Bool.and_eq_true, List.all_eq_true] at honly
    have hsame := honly.2 onceExemption List.mem_cons_self
    rw [Bool.or_eq_true, decide_eq_true_iff] at hsame
    rcases hsame with hnot | rfl
    · exact absurd hnot (by decide)
    · rfl
  obtain ⟨hbounded, -, hcovered⟩ := exemptions_bounded htracked
  exact ⟨by decide, hbounded, hcovered⟩

/-- Two direct transfers, two spellings of the sender, and a sum of `2^64 + 1`: the exemption is for
one transfer of up to 5. -/
theorem exemption_overused : onceParams.validate caseCodec = none ∧
    relying caseCodec onceExemption 0
      (onceRun [.send 0 1 (Coins.coin 0 5), .send 0 1 (Coins.coin 0 5)]) = 2 ∧
    relying caseCodec onceExemption 0 (onceRun [onceMessage "A", onceMessage "a"]) = 2 ∧
    (onceRun [.send 0 1 (Coins.ofAmounts [0, 1] fun d => if d = 0 then 2 ^ 64 - 1 else 2)]).map
      (fun tr => (exactTotal tr.coins, tr.onlyBecause caseCodec onceExemption)) =
        [(2 ^ 64 + 1, true)] := by
  decide

end Restrictions
