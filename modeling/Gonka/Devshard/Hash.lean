/-
State roots (`devshard/state/hash.go`).

A session's state root commits to the host statistics, the fees, the rest of
the state, the protocol version and the phase:

  `root = sha256(host_stats_hash ‖ fees ‖ rest_hash ‖ version_hash ‖ phase)`,
  `rest_hash = sha256(balance ‖ sha256(sealed_acc ‖ live_hash) ‖ warm_keys_hash)`.

Sealed inferences are no longer in the state; `foldSealedAccumulator` chains
their entries into `sealed_acc`.  `computeStateRoot_congr` says what a root does
not see: the nonces and the session's identifiers.
-/
import Gonka.Lib.Sha256
import Gonka.Devshard.Encoding

namespace Devshard

open Wire

def hostStatsEntries (hostStats : OrdMap ℕ HostStats) : List HostStatsEntry :=
  hostStats.entries.map fun e => ⟨e.1, e.2⟩

def computeHostStatsHash (hostStats : OrdMap ℕ HostStats) : Bytes :=
  sha256 (hostStatsMapProto (hostStatsEntries hostStats))

/-- Sorted slot ids, each followed by its length-prefixed address.  The empty
map, which the code treats apart, hashes the empty string either way. -/
def computeWarmKeysHash (warmKeys : OrdMap ℕ Address) : Bytes :=
  sha256 (warmKeys.entries.flatMap fun e => beBytes 4 e.1 ++ beBytes 4 e.2.length ++ e.2)

def computeInferencesHashFromEntries (entries : List Bytes) : Bytes :=
  sha256 (entries.flatMap (fieldMessage 1))

def computeInferencesHash (inferences : OrdMap ℕ InferenceRecord) : Option Bytes := do
  let entries ← inferences.entries.mapM fun e => marshalInferenceEntry e.1 e.2
  return computeInferencesHashFromEntries entries

def computeInferencesHashV2 (sealedAcc : Bytes) (live : OrdMap ℕ InferenceRecord) :
    Option Bytes := do
  let liveHash ← computeInferencesHash live
  return sha256 (sealedAcc ++ liveHash)

def computeRestHashV2 (balance : UInt64) (sealedAcc : Bytes) (live : OrdMap ℕ InferenceRecord)
    (warmKeys : OrdMap ℕ Address) : Option Bytes := do
  let infHash ← computeInferencesHashV2 sealedAcc live
  return sha256 (be64 balance ++ infHash ++ computeWarmKeysHash warmKeys)

def sealedAccBytes32 (b : Bytes) : Bytes := b.take 32 ++ List.replicate (32 - b.length) 0

/-- `FoldSealedAccumulator`: chain one sealed entry into the accumulator. -/
def foldSealedAccumulator (acc : Bytes) (sealNonce infID : ℕ) (committedEntry : Bytes) : Bytes :=
  sha256 (acc ++ beBytes 8 sealNonce ++ beBytes 8 infID ++ committedEntry)

def computeVersionHash (version : Bytes) : Bytes := sha256 version

def stateRootPreimage (hostStatsHash restHash : Bytes) (fees : UInt64) (phase : UInt8)
    (version : Bytes) : Bytes :=
  hostStatsHash ++ be64 fees ++ restHash ++ computeVersionHash version ++ [phase]

def computeStateRootFromRestHash (hostStatsHash restHash : Bytes) (fees : UInt64)
    (phase : SessionPhase) (version : Bytes) : Bytes :=
  sha256 (stateRootPreimage hostStatsHash restHash fees phase.toByte version)

def EscrowState.restHash (st : EscrowState) : Option Bytes :=
  computeRestHashV2 st.balance (sealedAccBytes32 st.sealedAcc) st.inferences st.warmKeys

def computeStateRoot (st : EscrowState) : Option Bytes := do
  let restHash ← st.restHash
  return computeStateRootFromRestHash (computeHostStatsHash st.hostStats) restHash st.fees
    st.phase st.version

theorem computeStateRoot_congr {st st' : EscrowState} (hb : st.balance = st'.balance)
    (hf : st.fees = st'.fees) (hp : st.phase = st'.phase) (hv : st.version = st'.version)
    (hh : st.hostStats = st'.hostStats) (hi : st.inferences = st'.inferences)
    (hw : st.warmKeys = st'.warmKeys) (ha : st.sealedAcc = st'.sealedAcc) :
    computeStateRoot st = computeStateRoot st' := by
  simp only [computeStateRoot, EscrowState.restHash, hb, hf, hp, hv, hh, hi, hw, ha]

theorem computeStateRoot_isSome {st : EscrowState}
    (h : ∀ e ∈ st.inferences.entries, utf8Valid e.2.model) : (computeStateRoot st).isSome := by
  have hentries : ∀ l : List (ℕ × InferenceRecord), (∀ e ∈ l, utf8Valid e.2.model) →
      ∃ bs, l.mapM (fun e => marshalInferenceEntry e.1 e.2) = some bs := by
    intro l
    induction l with
    | nil => exact fun _ => ⟨[], rfl⟩
    | cons e l ih =>
      intro hl
      obtain ⟨bs, hbs⟩ := ih fun e' he' => hl e' (List.mem_cons_of_mem _ he')
      have he : (marshalInferenceEntry e.1 e.2).isSome := by
        rw [marshalInferenceEntry_isSome]
        exact hl e List.mem_cons_self
      obtain ⟨b, hb⟩ := Option.isSome_iff_exists.mp he
      exact ⟨b :: bs, by simp [List.mapM_cons, hb, hbs]⟩
  obtain ⟨_, hbs⟩ := hentries _ h
  simp [computeStateRoot, EscrowState.restHash, computeRestHashV2, computeInferencesHashV2,
    computeInferencesHash, hbs]

end Devshard
