/-
What a settlement is bound to.

The hosts sign a state root, and the settler supplies the parts it is made of: the
statistics as a list in any order, the fees, the version, and a rest hash that is
an arbitrary byte string.  Unless SHA-256 collides on the very strings that the
two sides hash, the parts are those of the state that was signed.

Main result: `settlement_binding`.
-/
import Gonka.Chain.Settlement

namespace Devshard

open Wire List

/-- The two strings are not a collision. -/
def NoCollision (x y : Bytes) : Prop := sha256 x = sha256 y → x = y

theorem NoCollision.refl (x : Bytes) : NoCollision x x := fun _ => rfl

def MsgSettleDevshardEscrow.sortedStats (msg : MsgSettleDevshardEscrow) : List HostStatsEntry :=
  msg.hostStats.insertionSort fun a b => a.slotId ≤ b.slotId

/-- The preimage of the root of a state with rest hash `restHash`. -/
def EscrowState.rootInput (st : EscrowState) (restHash : Bytes) : Bytes :=
  stateRootPreimage (computeHostStatsHash st.hostStats) restHash st.fees st.phase.toByte st.version

theorem computeStateRoot_eq_some {st : EscrowState} {root : Bytes} :
    computeStateRoot st = some root ↔
      ∃ restHash, st.restHash = some restHash ∧ sha256 (st.rootInput restHash) = root := by
  unfold computeStateRoot
  cases st.restHash with
  | none => simp
  | some => simp [computeStateRootFromRestHash, EscrowState.rootInput]

theorem stateRootPreimage_inj {stats stats' rest rest' version version' : Bytes}
    {fees fees' : UInt64} {phase phase' : UInt8} (hstats : stats.length = 32)
    (hstats' : stats'.length = 32)
    (h : stateRootPreimage stats rest fees phase version
      = stateRootPreimage stats' rest' fees' phase' version') :
    stats = stats' ∧ fees = fees' ∧ rest = rest' ∧
      computeVersionHash version = computeVersionHash version' ∧ phase = phase' := by
  -- from the back: the phase byte, the version hash
  obtain ⟨h, hphase⟩ := append_inj' h rfl
  obtain ⟨h, hversion⟩ := append_inj' h rfl
  -- from the front: the statistics' hash, the fees
  rw [append_assoc, append_assoc] at h
  obtain ⟨hs, h⟩ := append_inj h (hstats.trans hstats'.symm)
  obtain ⟨hfees, hrest⟩ := append_inj h (by rw [length_be64, length_be64])
  exact ⟨hs, be64_inj hfees, hrest, hversion, (List.cons.inj hphase).1⟩

theorem SessionPhase.eq_settlement_of_toByte {phase : SessionPhase}
    (h : phase.toByte = devshardSettlementPhase) : phase = .settlement := by
  cases phase with
  | active => cases h
  | finalizing => cases h
  | settlement => rfl

theorem sortedStats_perm (msg : MsgSettleDevshardEscrow) : msg.sortedStats.Perm msg.hostStats :=
  perm_insertionSort _ _

theorem mem_hostStatsEntries {hostStats : OrdMap ℕ HostStats} {slot : ℕ} {stats : HostStats} :
    ⟨slot, stats⟩ ∈ hostStatsEntries hostStats ↔ hostStats.get? slot = some stats := by
  unfold hostStatsEntries
  rw [OrdMap.get?_eq_some_iff, mem_map]
  constructor
  · rintro ⟨p, hp, heq⟩
    cases heq
    exact hp
  · intro h
    exact ⟨_, h, rfl⟩

/-- The hashing order does not depend on the order in which the statistics come:
slots are distinct. -/
theorem sortedStats_of_perm {msg : MsgSettleDevshardEscrow} {hostStats : OrdMap ℕ HostStats}
    (hperm : msg.hostStats.Perm (hostStatsEntries hostStats)) :
    msg.sortedStats = hostStatsEntries hostStats := by
  have hsorted : (hostStatsEntries hostStats).Pairwise fun a b => a.slotId < b.slotId :=
    pairwise_map.mpr hostStats.sorted
  have hinserted : msg.sortedStats.Pairwise fun a b => a.slotId ≤ b.slotId :=
    pairwise_insertionSort _ _
  refine List.Perm.eq_of_pairwise ?_ hinserted (hsorted.imp Nat.le_of_lt)
    ((sortedStats_perm msg).trans hperm)
  intro a b ha hb hab hba
  have ha' := hperm.mem_iff.mp ((sortedStats_perm msg).mem_iff.mp ha)
  -- two entries of one slot hold the same statistics
  obtain ⟨slot, _⟩ := a
  obtain ⟨slot', _⟩ := b
  obtain rfl : slot = slot' := Nat.le_antisymm hab hba
  have h := mem_hostStatsEntries.mp ha'
  rw [mem_hostStatsEntries.mp hb] at h
  cases h
  rfl

/-- Chain and devshard agree on the root: the message made of the parts of a state
in settlement hashes to the root of the state. -/
theorem rootInput_honest {msg : MsgSettleDevshardEscrow} {st : EscrowState} {restHash : Bytes}
    (hphase : st.phase = .settlement) (hfees : msg.fees = st.fees)
    (hversion : msg.stateRootAndProtocolVersion = st.version) (hrest : msg.restHash = restHash)
    (hperm : msg.hostStats.Perm (hostStatsEntries st.hostStats)) :
    msg.rootInput = st.rootInput restHash := by
  have hhash : computeDevshardHostStatsHash msg.hostStats = computeHostStatsHash st.hostStats := by
    show sha256 (hostStatsMapProto msg.sortedStats) = _
    rw [sortedStats_of_perm hperm]
    rfl
  unfold MsgSettleDevshardEscrow.rootInput EscrowState.rootInput
  rw [hhash, hfees, hversion, hrest, hphase]
  rfl

/-- **Settlement binding.**  When the chain accepts a settlement whose state root is
the root of a devshard state, the state is in settlement, and the fees, the
version, the rest hash and the statistics, slot by slot, are those of the state.
Of SHA-256 it is assumed only that the strings hashed for the message and for the
state are not collisions. -/
theorem settlement_binding {chain : ChainEnv} {escrow : DevshardEscrow}
    {msg : MsgSettleDevshardEscrow} {params : Option DevshardEscrowParams} {st : EscrowState}
    (haccepted : verifyDevshardSettlement chain escrow msg params = .ok ())
    (hroot : computeStateRoot st = some msg.stateRoot)
    (hroots : ∀ restHash, st.restHash = some restHash →
      NoCollision msg.rootInput (st.rootInput restHash))
    (hstats : NoCollision (hostStatsMapProto msg.sortedStats)
      (hostStatsMapProto (hostStatsEntries st.hostStats)))
    (hversions : NoCollision msg.stateRootAndProtocolVersion st.version) :
    st.phase = .settlement ∧ msg.fees = st.fees ∧ msg.stateRootAndProtocolVersion = st.version ∧
      computeRestHashV2 st.balance (sealedAccBytes32 st.sealedAcc) st.inferences st.warmKeys
        = some msg.restHash ∧
      msg.hostStats.Perm (hostStatsEntries st.hostStats) ∧
      ∀ slot stats, ⟨slot, stats⟩ ∈ msg.hostStats ↔ st.hostStats.get? slot = some stats := by
  obtain ⟨p, -, -, -, -, -, -, -, -, hexpected, -⟩ := verifyDevshardSettlement_ok_iff.mp haccepted
  obtain ⟨restHash, hrest, hsha⟩ := computeStateRoot_eq_some.mp hroot
  have hinput := hroots restHash hrest (hexpected.trans hsha.symm)
  obtain ⟨hhash, hfees, hresteq, hversion, hphase⟩ :=
    stateRootPreimage_inj (length_sha256 _) (length_sha256 _) hinput
  have hsorted : msg.sortedStats = hostStatsEntries st.hostStats :=
    hostStatsMapProto_inj (hstats hhash)
  have hperm : msg.hostStats.Perm (hostStatsEntries st.hostStats) := by
    rw [← hsorted]
    exact (sortedStats_perm msg).symm
  refine ⟨SessionPhase.eq_settlement_of_toByte hphase.symm, hfees, hversions hversion,
    by rw [hresteq]; exact hrest, hperm, fun slot stats => ?_⟩
  rw [hperm.mem_iff, mem_hostStatsEntries]

def settledState : EscrowState :=
  { settledSample.world.sm.toEscrowState with version := [118] }

/-- The settlement of `settledState`, its statistics in reverse order. -/
def settledMessage : MsgSettleDevshardEscrow where
  settler := [9]
  stateRootAndProtocolVersion := [118]
  stateRoot := (computeStateRoot settledState).getD []
  nonce := 4
  restHash := settledState.restHash.getD []
  hostStats := (hostStatsEntries settledState.hostStats).reverse
  signatures := [⟨0, [1]⟩, ⟨1, [2]⟩]
  fees := settledState.fees

def namingChain : ChainEnv where
  recoverCosmosAddress := fun _ sig => some sig
  isWarmKey := none

theorem settledMessage_accepted : verifyDevshardSettlement namingChain sampleEscrow settledMessage
      (some ⟨10, []⟩) = .ok () ∧
    computeStateRoot settledState = some settledMessage.stateRoot ∧
    ∀ restHash, settledState.restHash = some restHash →
      settledMessage.rootInput = settledState.rootInput restHash := by
  have hinput : ∀ restHash, settledState.restHash = some restHash →
      settledMessage.rootInput = settledState.rootInput restHash := by
    intro restHash hrest
    refine rootInput_honest (by decide +kernel) rfl rfl ?_ (reverse_perm _)
    show settledState.restHash.getD [] = restHash
    rw [hrest]
    rfl
  have hwritable : ∀ e ∈ settledState.inferences.entries, utf8Valid e.2.model := by decide +kernel
  obtain ⟨root, hroot⟩ := Option.isSome_iff_exists.mp (computeStateRoot_isSome hwritable)
  have hstateRoot : settledMessage.stateRoot = root := by
    show (computeStateRoot settledState).getD [] = root
    rw [hroot]
    rfl
  obtain ⟨restHash, hrest, hsha⟩ := computeStateRoot_eq_some.mp hroot
  refine ⟨verifyDevshardSettlement_ok_iff.mpr ⟨_, rfl, rfl, rfl, by decide, by decide, by decide,
    Or.inl rfl, ?_, ?_, ⟨2, rfl, by decide⟩, by decide +kernel⟩, ?_, hinput⟩
  · rw [hstateRoot, ← hsha]
    exact length_sha256 _
  · rw [hstateRoot, ← hsha, hinput restHash hrest]
  · rw [hroot, hstateRoot]

theorem settlement_binding_sample :
    verifyDevshardSettlement namingChain sampleEscrow settledMessage (some ⟨10, []⟩) = .ok () ∧
      settledMessage.hostStats.Perm (hostStatsEntries settledState.hostStats) := by
  obtain ⟨haccepted, hroot, hinput⟩ := settledMessage_accepted
  refine ⟨haccepted, (settlement_binding haccepted hroot ?_ ?_ ?_).2.2.2.2.1⟩
  · intro restHash hrest
    rw [hinput restHash hrest]
    exact NoCollision.refl _
  · rw [sortedStats_of_perm (List.reverse_perm _)]
    exact NoCollision.refl _
  · exact NoCollision.refl _

end Devshard
