/-
Settlement of an escrow on the chain
(`inference-chain/x/inference/keeper/devshard_settlement.go`), and the payload it
is given (`devshard/state/settlement.go`).

`verifyDevshardSettlement` recomputes the state root from the parts the settler
sends, checks the hosts' signatures over it, and bounds the statistics and costs
that the escrow is then paid out by.  Address recovery and warm-key grants are the
chain's own (`ChainEnv`).

Main result: `devshardAssignedUpperBoundForSlot_eq`.
-/
import Mathlib.Data.List.Sort
import Mathlib.Data.Nat.ModEq
import Gonka.Devshard.Assignments

namespace Devshard

open Wire OrdMap List

structure SettlementPayload where
  escrowID : Bytes
  version : Bytes
  nonce : ℕ
  fees : UInt64
  restHash : Bytes
  hostStats : OrdMap ℕ HostStats
  signatures : OrdMap ℕ Bytes
  deriving DecidableEq

def buildSettlement (escrowID : Bytes) (st : EscrowState) (signatures : OrdMap ℕ Bytes)
    (nonce : ℕ) : Option SettlementPayload := do
  let restHash ← st.restHash
  return { escrowID, version := st.version, nonce, fees := st.fees, restHash,
           hostStats := st.hostStats, signatures }

structure DevshardSlotSignature where
  slotId : ℕ
  signature : Bytes
  deriving DecidableEq

/-- The fields of `MsgSettleDevshardEscrow` that the verification reads. -/
structure MsgSettleDevshardEscrow where
  settler : Address
  stateRootAndProtocolVersion : Bytes
  stateRoot : Bytes
  nonce : ℕ
  restHash : Bytes
  hostStats : List HostStatsEntry
  signatures : List DevshardSlotSignature
  fees : UInt64
  deriving DecidableEq

/-- The fields of `DevshardEscrow` that the verification reads. -/
structure DevshardEscrow where
  id : ℕ
  creator : Address
  amount : UInt64
  slots : List Address
  settled : Bool
  deriving DecidableEq

/-- `DevshardEscrowParams`; an approved version may be a nil pointer. -/
structure DevshardEscrowParams where
  maxNonce : ℕ
  approvedVersions : List (Option Bytes)
  deriving DecidableEq

structure ChainEnv where
  recoverCosmosAddress : Bytes → Bytes → Option Address
  /-- The checker of warm keys, if there is one: granter and grantee. -/
  isWarmKey : Option (Address → Address → Bool)

inductive SettlementErr where
  | paramsRequired
  | alreadySettled (id : ℕ)
  | notCreator (settler creator : Address)
  | versionRequired
  | nonceExceedsMaximum (nonce maximum : ℕ)
  | versionTooLong
  | versionNotApproved (version : Bytes)
  | stateRootLength (length : ℕ)
  | stateRootMismatch
  | duplicateSignature (slot : ℕ)
  | slotOutOfRange (slot : ℕ)
  | recoverFailed (slot : ℕ)
  | wrongSigner (slot : ℕ) (recovered expected : Address)
  | insufficientQuorum (votes required : ℕ)
  | noSlots
  | duplicateHostStats (slot : ℕ)
  | slotCountZero
  | hostStatsSlotOutOfRange (slot slotCount : ℕ)
  | missedExceedsAssigned (slot : ℕ) (missed : UInt32) (assigned : ℕ)
  | invalidExceedsCompleted (slot : ℕ) (invalid : UInt32) (completed : ℕ)
  | totalCostOverflow
  | totalDebitOverflow
  | debitExceedsAmount (debit cost fees amount : UInt64)
  deriving DecidableEq

def validateDevshardSettlementVersionApproved (approved : List (Option Bytes)) (version : Bytes) :
    Except SettlementErr Unit :=
  if approved = [] ∨ some version ∈ approved then .ok () else .error (.versionNotApproved version)

/-- `ComputeDevshardHostStatsHash`: the entries in stable order of their slots. -/
def computeDevshardHostStatsHash (hostStats : List HostStatsEntry) : Bytes :=
  sha256 (hostStatsMapProto (hostStats.insertionSort fun a b => a.slotId ≤ b.slotId))

def devshardSettlementPhase : UInt8 := 0x02

def MsgSettleDevshardEscrow.rootInput (msg : MsgSettleDevshardEscrow) : Bytes :=
  stateRootPreimage (computeDevshardHostStatsHash msg.hostStats) msg.restHash msg.fees
    devshardSettlementPhase msg.stateRootAndProtocolVersion

def maxVersionLength : ℕ := 128

/-- `fmt.Sprint` of a number. -/
def decimal (n : ℕ) : Bytes := (Nat.toDigits 10 n).map fun c => UInt8.ofNat c.toNat

/-- `DevshardStateSignatureContent`, marshalled. -/
def stateSignatureContent (stateRoot : Bytes) (escrowId nonce : ℕ) : Bytes :=
  fieldBytes 1 stateRoot ++ fieldBytes 2 (decimal escrowId) ++ fieldVarint 3 nonce

def devshardQuorumFor (groupSize : ℕ) : ℕ := 2 * groupSize / 3 + 1

def verifySlotSignatures (chain : ChainEnv) (slots : List Address) (sigHash : Bytes) :
    List DevshardSlotSignature → List ℕ → ℕ → Except SettlementErr ℕ
  | [], _, slotVotes => .ok slotVotes
  | sig :: sigs, seen, slotVotes =>
    if sig.slotId ∈ seen then .error (.duplicateSignature sig.slotId)
    else
      match slots[sig.slotId]? with
      | none => .error (.slotOutOfRange sig.slotId)
      | some expected =>
        match chain.recoverCosmosAddress sigHash sig.signature with
        | none => .error (.recoverFailed sig.slotId)
        | some recovered =>
          if recovered ≠ expected ∧ ¬ (chain.isWarmKey.map fun f => f expected recovered) = some true
          then .error (.wrongSigner sig.slotId recovered expected)
          else verifySlotSignatures chain slots sigHash sigs (sig.slotId :: seen) (slotVotes + 1)

def devshardAssignedUpperBoundForSlot (latestNonce slotCount slotID : ℕ) : Except SettlementErr ℕ :=
  if slotCount = 0 then .error .slotCountZero
  else if slotID ≥ slotCount then .error (.hostStatsSlotOutOfRange slotID slotCount)
  else
    let firstAssignedNonce := if slotID = 0 then slotCount else slotID
    if latestNonce < firstAssignedNonce then .ok 0
    else .ok (1 + (latestNonce - firstAssignedNonce) / slotCount)

/-- `bits.Add64`, `none` for a carry. -/
def add64 (a b : UInt64) : Option UInt64 :=
  if 2 ^ 64 ≤ a.toNat + b.toNat then none else some (a + b)

def verifyHostStats (nonce slotCount : ℕ) :
    List HostStatsEntry → List ℕ → UInt64 → Except SettlementErr UInt64
  | [], _, totalCost => .ok totalCost
  | hs :: rest, seen, totalCost =>
    if hs.slotId ∈ seen then .error (.duplicateHostStats hs.slotId)
    else
      match devshardAssignedUpperBoundForSlot nonce slotCount hs.slotId with
      | .error e => .error e
      | .ok assigned =>
        if hs.stats.missed.toNat > assigned then
          .error (.missedExceedsAssigned hs.slotId hs.stats.missed assigned)
        else if hs.stats.invalid.toNat > assigned - hs.stats.missed.toNat then
          .error (.invalidExceedsCompleted hs.slotId hs.stats.invalid
            (assigned - hs.stats.missed.toNat))
        else
          match add64 totalCost hs.stats.cost with
          | none => .error .totalCostOverflow
          | some next => verifyHostStats nonce slotCount rest (hs.slotId :: seen) next

def verifyDebit (escrow : DevshardEscrow) (msg : MsgSettleDevshardEscrow) :
    Except SettlementErr Unit :=
  if escrow.slots.length = 0 then .error .noSlots
  else
    match verifyHostStats msg.nonce escrow.slots.length msg.hostStats [] 0 with
    | .error e => .error e
    | .ok totalCost =>
      match add64 totalCost msg.fees with
      | none => .error .totalDebitOverflow
      | some debit =>
        if debit > escrow.amount then
          .error (.debitExceedsAmount debit totalCost msg.fees escrow.amount)
        else .ok ()

def verifyDevshardSettlement (chain : ChainEnv) (escrow : DevshardEscrow)
    (msg : MsgSettleDevshardEscrow) (params : Option DevshardEscrowParams) :
    Except SettlementErr Unit :=
  match params with
  | none => .error .paramsRequired
  | some params =>
    if escrow.settled then .error (.alreadySettled escrow.id)
    else if msg.settler ≠ escrow.creator then .error (.notCreator msg.settler escrow.creator)
    else if msg.stateRootAndProtocolVersion = [] then .error .versionRequired
    else if msg.nonce > params.maxNonce then
      .error (.nonceExceedsMaximum msg.nonce params.maxNonce)
    else if msg.stateRootAndProtocolVersion.length > maxVersionLength then .error .versionTooLong
    else
      match validateDevshardSettlementVersionApproved params.approvedVersions
          msg.stateRootAndProtocolVersion with
      | .error e => .error e
      | .ok _ =>
        if msg.stateRoot.length ≠ 32 then .error (.stateRootLength msg.stateRoot.length)
        else if sha256 msg.rootInput ≠ msg.stateRoot then .error .stateRootMismatch
        else
          match verifySlotSignatures chain escrow.slots
              (sha256 (stateSignatureContent msg.stateRoot escrow.id msg.nonce))
              msg.signatures [] 0 with
          | .error e => .error e
          | .ok slotVotes =>
            if slotVotes < devshardQuorumFor escrow.slots.length then
              .error (.insufficientQuorum slotVotes (devshardQuorumFor escrow.slots.length))
            else verifyDebit escrow msg

theorem verifyDevshardSettlement_ok_iff {chain : ChainEnv} {escrow : DevshardEscrow}
    {msg : MsgSettleDevshardEscrow} {params : Option DevshardEscrowParams} :
    verifyDevshardSettlement chain escrow msg params = .ok () ↔
      ∃ p, params = some p ∧ escrow.settled = false ∧ msg.settler = escrow.creator ∧
        msg.stateRootAndProtocolVersion ≠ [] ∧ msg.nonce ≤ p.maxNonce ∧
        msg.stateRootAndProtocolVersion.length ≤ maxVersionLength ∧
        (p.approvedVersions = [] ∨ some msg.stateRootAndProtocolVersion ∈ p.approvedVersions) ∧
        msg.stateRoot.length = 32 ∧ sha256 msg.rootInput = msg.stateRoot ∧
        (∃ votes, verifySlotSignatures chain escrow.slots
            (sha256 (stateSignatureContent msg.stateRoot escrow.id msg.nonce)) msg.signatures [] 0
            = .ok votes ∧ devshardQuorumFor escrow.slots.length ≤ votes) ∧
        verifyDebit escrow msg = .ok () := by
  unfold verifyDevshardSettlement validateDevshardSettlementVersionApproved
  cases params with
  | none => simp
  | some p =>
    constructor
    · intro h
      refine ⟨p, rfl, ?_⟩
      dsimp only at h
      split at h
      · cases h
      next hsettled =>
      split at h
      · cases h
      next hcreator =>
      split at h
      · cases h
      next hversion =>
      split at h
      · cases h
      next hnonce =>
      split at h
      · cases h
      next hlength =>
      split at h
      · cases h
      next happroved =>
      split at h
      · cases h
      next hroot32 =>
      split at h
      · cases h
      next hroot =>
      split at h
      · cases h
      next votes hsigs =>
      split at h
      · cases h
      next hquorum =>
      have happroved' : p.approvedVersions = [] ∨
          some msg.stateRootAndProtocolVersion ∈ p.approvedVersions := by
        by_contra hnot
        rw [if_neg hnot] at happroved
        cases happroved
      exact ⟨by simpa using hsettled, not_not.mp hcreator, hversion, not_lt.mp hnonce,
        not_lt.mp hlength, happroved', not_not.mp hroot32, not_not.mp hroot,
        ⟨votes, hsigs, not_lt.mp hquorum⟩, h⟩
    · rintro ⟨p', hp, hsettled, hcreator, hversion, hnonce, hlength, happroved, hroot32, hroot,
        ⟨votes, hsigs, hquorum⟩, hdebit⟩
      cases hp
      dsimp only
      rw [if_neg (by simp [hsettled]), if_neg (not_not.mpr hcreator), if_neg hversion,
        if_neg (not_lt.mpr hnonce), if_neg (not_lt.mpr hlength), if_pos happroved]
      rw [if_neg (not_not.mpr hroot32), if_neg (not_not.mpr hroot), hsigs]
      dsimp only
      rw [if_neg (not_lt.mpr hquorum)]
      exact hdebit

theorem assignedTo_succ (n m slot : ℕ) :
    assignedTo (n + 1) m slot = assignedTo n m slot + if (n + 1) % m = slot then 1 else 0 := by
  have hinsert : Finset.Icc 1 (n + 1) = insert (n + 1) (Finset.Icc 1 n) := by
    ext i
    rw [Finset.mem_insert, Finset.mem_Icc, Finset.mem_Icc]
    omega
  unfold assignedTo
  rw [hinsert, Finset.filter_insert]
  split
  · rw [Finset.card_insert_of_notMem (by simp)]
  · rfl

theorem assignedTo_eq {n m first slot : ℕ} (hpos : 0 < first) (hle : first ≤ m)
    (hmod : first % m = slot) :
    assignedTo n m slot = if n < first then 0 else 1 + (n - first) / m := by
  induction n with
  | zero => rw [if_pos hpos]; rfl
  | succ n ih =>
    rw [assignedTo_succ, ih]
    rcases Nat.lt_trichotomy (n + 1) first with hlt | heq | _
    · -- before the first nonce of the slot
      have hne : (n + 1) % m ≠ slot := by
        intro h
        rw [Nat.mod_eq_of_lt (by omega)] at h
        rcases Nat.lt_or_ge first m with hfirst | hfirst
        · rw [Nat.mod_eq_of_lt hfirst] at hmod
          omega
        · obtain rfl : first = m := by omega
          rw [Nat.mod_self] at hmod
          omega
      rw [if_pos (by omega), if_neg hne, if_pos hlt]
    · rw [if_pos (by omega), if_pos (by rw [heq]; exact hmod), if_neg (by omega), heq, Nat.sub_self,
        Nat.zero_div]
    · have hn : ¬ n < first := by omega
      have hn' : ¬ n + 1 < first := by omega
      rw [if_neg hn, if_neg hn', show n + 1 - first = n - first + 1 by omega, Nat.succ_div]
      have hdvd : m ∣ n - first + 1 ↔ (n + 1) % m = slot := by
        rw [← hmod, show n - first + 1 = n + 1 - first by omega]
        constructor
        · intro h
          exact ((Nat.modEq_iff_dvd' (by omega)).mpr h).symm
        · intro h
          exact (Nat.modEq_iff_dvd' (by omega)).mp h.symm
      by_cases h : (n + 1) % m = slot
      · rw [if_pos h, if_pos (hdvd.mpr h), Nat.add_assoc]
      · rw [if_neg h, if_neg (mt hdvd.mp h), Nat.add_assoc]

/-- **The chain's bound is the number of nonces that fall on the slot.** -/
theorem devshardAssignedUpperBoundForSlot_eq {n m slot : ℕ} (hslot : slot < m) :
    devshardAssignedUpperBoundForSlot n m slot = .ok (assignedTo n m slot) := by
  unfold devshardAssignedUpperBoundForSlot
  rw [if_neg (by omega), if_neg (by omega)]
  have hfirst : assignedTo n m slot = if n < (if slot = 0 then m else slot) then 0
      else 1 + (n - if slot = 0 then m else slot) / m := by
    by_cases h : slot = 0
    · rw [if_pos h]
      exact assignedTo_eq (by omega) le_rfl (by rw [Nat.mod_self, h])
    · rw [if_neg h]
      exact assignedTo_eq (by omega) hslot.le (Nat.mod_eq_of_lt hslot)
  rw [hfirst]
  by_cases h : n < if slot = 0 then m else slot
  · rw [if_pos h, if_pos h]
  · rw [if_neg h, if_neg h]

theorem add64_some {a b : UInt64} (h : a.toNat + b.toNat < 2 ^ 64) :
    ∃ c, add64 a b = some c ∧ c.toNat = a.toNat + b.toNat := by
  refine ⟨a + b, if_neg (by omega), ?_⟩
  rw [UInt64.toNat_add, Nat.mod_eq_of_lt h]

theorem verifyHostStats_ok {nonce m : ℕ} {stats : List HostStatsEntry} {seen : List ℕ}
    {total : UInt64} (hnodup : (stats.map HostStatsEntry.slotId).Nodup)
    (hseen : ∀ e ∈ stats, e.slotId ∉ seen) (hslots : ∀ e ∈ stats, e.slotId < m)
    (hbound : ∀ e ∈ stats,
      e.stats.missed.toNat + e.stats.invalid.toNat ≤ assignedTo nonce m e.slotId)
    (hcost : total.toNat + (stats.map fun e => e.stats.cost.toNat).sum < 2 ^ 64) :
    ∃ total', verifyHostStats nonce m stats seen total = .ok total' ∧
      total'.toNat = total.toNat + (stats.map fun e => e.stats.cost.toNat).sum := by
  induction stats generalizing seen total with
  | nil => exact ⟨total, rfl, rfl⟩
  | cons e rest ih =>
    rw [map_cons, nodup_cons] at hnodup
    rw [map_cons, sum_cons] at hcost
    have hb := hbound e mem_cons_self
    obtain ⟨next, hadd, _⟩ := add64_some (show total.toNat + e.stats.cost.toNat < 2 ^ 64 by omega)
    have hrest : ∀ e' ∈ rest, e'.slotId ∉ e.slotId :: seen := by
      intro e' he' hmem
      rcases mem_cons.mp hmem with heq | hold
      · exact hnodup.1 (heq ▸ mem_map_of_mem he')
      · exact hseen e' (mem_cons_of_mem _ he') hold
    obtain ⟨total', hrun, htotal⟩ := ih hnodup.2 hrest
      (fun e' he' => hslots e' (mem_cons_of_mem _ he'))
      (fun e' he' => hbound e' (mem_cons_of_mem _ he'))
      (show next.toNat + (rest.map fun e => e.stats.cost.toNat).sum < 2 ^ 64 by omega)
    refine ⟨total', ?_, ?_⟩
    · unfold verifyHostStats
      rw [if_neg (hseen e mem_cons_self),
        devshardAssignedUpperBoundForSlot_eq (hslots e mem_cons_self)]
      dsimp only
      rw [if_neg (by omega), if_neg (by omega), hadd]
      exact hrun
    · rw [htotal, map_cons, sum_cons]
      omega

/-- The statistics of a session are those of its slots. -/
def StatsInGroup (s : Session) : Prop :=
  ∀ slot hs, s.sm.hostStats.get? slot = some hs → slot < s.sm.group.length

theorem StatsInGroup.step {s s' : Session} (hstep : Step s s') (h : StatsInGroup s) :
    StatsInGroup s' := by
  have hmodify : ∀ {slot : ℕ} {f : HostStats → HostStats} {slot' : ℕ} {hs : HostStats},
      (s.sm.hostStats.modify slot f).get? slot' = some hs → slot' < s.sm.group.length := by
    intro slot f slot' hs hget
    rw [get?_modify] at hget
    split at hget
    · next heq =>
      obtain ⟨hs₀, hget, -⟩ := Option.map_eq_some_iff.mp hget
      exact h slot' hs₀ (heq ▸ hget)
    · exact h slot' hs hget
  cases hstep with
  | move | leave => exact fun slot hs hget => hmodify hget
  | _ => exact h

section
variable {escrowID : Bytes} {config : SessionConfig} {group : List SlotAssignment}
  {balance : UInt64} {userAddress : Address} {version : Bytes} {sm : StateMachine}

theorem newStateMachine_statsInGroup (hg : validateGroup group)
    (h : newStateMachine escrowID config group balance userAddress version = .ok sm) {s : Session}
    (hsteps : Steps (Session.new sm) s) : StatsInGroup s := by
  refine hsteps.invariant (fun _ _ hstep ht => ht.step hstep) fun slot hs hget => ?_
  obtain ⟨hgroup, -⟩ := newStateMachine_ok h
  obtain ⟨⟨a, ha, rfl⟩, -⟩ := (newStateMachine_hostStats hg h slot hs).mp hget
  obtain ⟨i, hi, rfl⟩ := mem_iff_getElem.mp ha
  show _ < sm.group.length
  rw [hgroup, validateGroup_getElem hg (getElem?_eq_getElem hi)]
  exact hi

theorem verifyDebit_honest {s : Session} {B₀ : ℕ} (hrests : Rests B₀ s)
    (hgroup : validateGroup s.sm.group) (hcounted : Counted s) (hstats : StatsInGroup s)
    {escrow : DevshardEscrow} {msg : MsgSettleDevshardEscrow}
    (hslots : escrow.slots.length = s.sm.group.length) (hamount : B₀ ≤ escrow.amount.toNat)
    (hnonce : msg.nonce = s.sm.latestNonce) (hfees : msg.fees = s.sm.fees)
    (hperm : msg.hostStats.Perm (hostStatsEntries s.sm.hostStats)) :
    verifyDebit escrow msg = .ok () := by
  have hmem : ∀ e ∈ msg.hostStats, s.sm.hostStats.get? e.slotId = some e.stats := by
    intro e he
    obtain ⟨p, hp, rfl⟩ := mem_map.mp (hperm.mem_iff.mp he)
    exact get?_eq_some_iff.mpr hp
  have hnodup : (msg.hostStats.map HostStatsEntry.slotId).Nodup := by
    have hkeys : (hostStatsEntries s.sm.hostStats).map HostStatsEntry.slotId
        = s.sm.hostStats.keys := by
      rw [hostStatsEntries, map_map, OrdMap.keys]
      rfl
    rw [(hperm.map _).nodup_iff, hkeys]
    exact s.sm.hostStats.keys_nodup
  have hcosts : (msg.hostStats.map fun e => e.stats.cost.toNat).sum
      = s.sm.hostStats.sum fun _ hs => hs.cost.toNat := by
    rw [(hperm.map _).sum_eq, hostStatsEntries, map_map, OrdMap.sum]
    rfl
  have htotal := hrests.sound.conserved.total
  have hB := hrests.sound.conserved.bound
  have hcost : (0 : UInt64).toNat + (msg.hostStats.map fun e => e.stats.cost.toNat).sum < 2 ^ 64 := by
    rw [hcosts, UInt64.toNat_zero]
    omega
  obtain ⟨total, hrun, htot⟩ := verifyHostStats_ok hnodup (fun _ _ => not_mem_nil)
    (fun e he => hstats _ _ (hmem e he))
    (fun e he => misses_and_invalids_le hrests.sound.consistent hgroup hcounted hrests.bounded
      (hmem e he)) hcost
  rw [hcosts, UInt64.toNat_zero, Nat.zero_add] at htot
  obtain ⟨_, hadd, hdebit⟩ := add64_some (a := total) (b := msg.fees) (by rw [hfees]; omega)
  unfold verifyDebit
  rw [hslots, if_neg (validateGroup_pos hgroup).ne', hnonce, hrun]
  dsimp only
  rw [hadd]
  refine if_neg fun hgt => ?_
  have := UInt64.lt_iff_toNat_lt.mp hgt
  rw [hfees] at hdebit
  omega

/-- **An honest settlement passes the chain's numeric checks.**  In every run, when
the session is in settlement, the payload exists; the missed and the invalid
inferences of a slot are within what the slot was assigned, which is the number of
nonces that fall on it; the costs and fees neither overflow nor exceed the amount;
and every message with these statistics, in any order, is accepted. -/
theorem honest_settlement_accepted (env : Env) (hg : validateGroup group)
    (hnew : newStateMachine escrowID config group balance userAddress version = .ok sm)
    (ops : List Op) (hphase : (runOps env ops (Driver.new sm)).world.sm.phase = .settlement)
    (signatures : OrdMap ℕ Bytes) {escrow : DevshardEscrow}
    (hslots : escrow.slots.length = group.length) (hamount : escrow.amount = balance) :
    let st := (runOps env ops (Driver.new sm)).world.sm
    ∃ payload, buildSettlement escrowID st.toEscrowState signatures st.latestNonce = some payload ∧
      (∀ slot hs, payload.hostStats.get? slot = some hs →
        ∃ assigned, devshardAssignedUpperBoundForSlot payload.nonce group.length slot = .ok assigned ∧
          hs.missed.toNat ≤ assigned ∧ hs.invalid.toNat ≤ assigned - hs.missed.toNat) ∧
      payload.hostStats.sum (fun _ hs => hs.cost.toNat) + payload.fees.toNat < 2 ^ 64 ∧
      payload.hostStats.sum (fun _ hs => hs.cost.toNat) + payload.fees.toNat
        ≤ escrow.amount.toNat ∧
      (∀ msg : MsgSettleDevshardEscrow, msg.nonce = payload.nonce → msg.fees = payload.fees →
        msg.hostStats.Perm (hostStatsEntries payload.hostStats) → verifyDebit escrow msg = .ok ()) ∧
      ∀ n m slot, slot < m → devshardAssignedUpperBoundForSlot n m slot
        = .ok ((Finset.Icc 1 n).filter fun i => i % m = slot).card := by
  intro st
  obtain ⟨s, hsteps, htracks⟩ := runOps_tracks env ops (newStateMachine_tracks env hg hnew)
  obtain ⟨-, hcounted⟩ := newStateMachine_voted hg hnew hsteps
  have hstats := newStateMachine_statsInGroup hg hnew hsteps
  have hst : st = s.sm := htracks.machine
  have hgroup : s.sm.group = group := by
    rw [hsteps.sameSession.group]
    exact (newStateMachine_ok hnew).1
  have hgroup' : validateGroup s.sm.group := by rwa [hgroup]
  have hphase' : s.sm.phase = .settlement := by
    rw [← hst]
    exact hphase
  have htotal := htracks.rests.sound.conserved.total
  have hB := htracks.rests.sound.conserved.bound
  -- nothing is live, so the rest hash exists
  obtain ⟨_, hrest⟩ : ∃ restHash, st.restHash = some restHash := by
    have hempty : st.inferences = ∅ := ext_get? fun id => by
      rw [hst, htracks.rests.settled hphase' id, get?_empty]
    unfold EscrowState.restHash computeRestHashV2 computeInferencesHashV2 computeInferencesHash
    rw [hempty]
    exact ⟨_, rfl⟩
  refine ⟨_, by unfold buildSettlement; rw [hrest]; rfl, ?_, ?_, ?_, ?_, ?_⟩
  · intro slot hs hget
    rw [hst] at hget
    have hle := misses_and_invalids_le htracks.rests.sound.consistent hgroup' hcounted
      htracks.rests.bounded hget
    refine ⟨assignedTo st.latestNonce group.length slot,
      devshardAssignedUpperBoundForSlot_eq (hgroup ▸ hstats slot hs hget), ?_, ?_⟩
    · rw [hst, ← hgroup]
      omega
    · rw [hst, ← hgroup]
      omega
  · show st.hostStats.sum _ + st.fees.toNat < _
    rw [hst]
    omega
  · show st.hostStats.sum _ + st.fees.toNat ≤ _
    rw [hst, hamount]
    omega
  · intro msg hnonce hfees hperm
    exact verifyDebit_honest htracks.rests hgroup' hcounted hstats
      (hslots.trans (by rw [hgroup])) (by rw [hamount]) (hnonce.trans (by rw [← hst]))
      (hfees.trans (by rw [← hst])) (by rw [← hst]; exact hperm)
  · intro n m slot hslot
    exact devshardAssignedUpperBoundForSlot_eq hslot

def settledSample : Driver :=
  runOps sampleEnv [.applyLocal 1 [sampleStart 1], .applyLocal 2 [.finalizeRound], .applyLocal 3 [],
    .applyLocal 4 []] (Driver.new sampleMachine)

def sampleEscrow : DevshardEscrow :=
  { id := 1, creator := [9], amount := 1000, slots := [[1], [2]], settled := false }

theorem honest_settlement_accepted_sample :
    ∃ payload, buildSettlement [] settledSample.world.sm.toEscrowState ∅
        settledSample.world.sm.latestNonce = some payload ∧
      (∀ slot hs, payload.hostStats.get? slot = some hs →
        ∃ assigned, devshardAssignedUpperBoundForSlot payload.nonce 2 slot = .ok assigned ∧
          hs.missed.toNat ≤ assigned ∧ hs.invalid.toNat ≤ assigned - hs.missed.toNat) ∧
      payload.hostStats.sum (fun _ hs => hs.cost.toNat) + payload.fees.toNat < 2 ^ 64 ∧
      payload.hostStats.sum (fun _ hs => hs.cost.toNat) + payload.fees.toNat
        ≤ sampleEscrow.amount.toNat ∧
      (∀ msg : MsgSettleDevshardEscrow, msg.nonce = payload.nonce → msg.fees = payload.fees →
        msg.hostStats.Perm (hostStatsEntries payload.hostStats) →
          verifyDebit sampleEscrow msg = .ok ()) ∧
      ∀ n m slot, slot < m → devshardAssignedUpperBoundForSlot n m slot
        = .ok ((Finset.Icc 1 n).filter fun i => i % m = slot).card :=
  honest_settlement_accepted sampleEnv (by decide) sampleMachine_ok _ (by decide +kernel) ∅ rfl rfl

end

end Devshard
