/-
Weights of proof of compute never exceed what was committed and paid for.

A commit is compared with what was stored before its message, for each of its entries.  So whichever
entry of a model is written last, it names more than was stored, and what it adds is among what the
message is charged for.  A distribution is stored only if it adds up to the count, and the count
grows later on.

Main result: `weight_within_commits`.
-/
import Mathlib.Algebra.BigOperators.Ring.Finset
import Gonka.Chain.PocCommits

namespace PocCommits

open Checked Inference OrdMap List
open Maintenance (Bech32 sampleCodec)

def totalWeight (weights : List MLNodeWeight) : ℕ := (weights.map (·.weight.toNat)).sum

theorem totalWeight_filter_le (p : MLNodeWeight → Bool) (weights : List MLNodeWeight) :
    totalWeight (weights.filter p) ≤ totalWeight weights := by
  exact (filter_sublist.map _).sum_le_sum (fun _ _ => Nat.zero_le _)

theorem totalWeight_le (weights : List MLNodeWeight) :
    totalWeight weights ≤ weights.length * (2 ^ 32 - 1) := by
  induction weights with
  | nil => exact Nat.zero_le _
  | cons nw _ ih =>
    have hweight := nw.weight.toNat_lt
    simp only [totalWeight, map_cons, sum_cons, length_cons] at ih ⊢
    omega

theorem foldl_weightSum (weights : List MLNodeWeight) (start : UInt64)
    (h : start.toNat + totalWeight weights < 2 ^ 64) :
    (weights.foldl (fun sum nw => sum + nw.weight.toUInt64) start).toNat =
      start.toNat + totalWeight weights := by
  induction weights generalizing start with
  | nil => rfl
  | cons nw _ ih =>
    simp only [totalWeight, map_cons, sum_cons] at h ih ⊢
    have hadd : (start + nw.weight.toUInt64).toNat = start.toNat + nw.weight.toNat := by
      rw [UInt64.toNat_add, UInt32.toNat_toUInt64, Nat.mod_eq_of_lt (by omega)]
    rw [foldl_cons, ih _ (by omega), hadd]
    omega

/-- The `uint64` sum of fewer than `2^32` weights is exact. -/
theorem weightSum_toNat {weights : List MLNodeWeight} (h : weights.length < 2 ^ 32) :
    (weightSum weights).toNat = totalWeight weights := by
  have hle := totalWeight_le weights
  have hlt : totalWeight weights < 2 ^ 64 := by
    omega
  unfold weightSum
  rw [foldl_weightSum weights 0 (by simpa using hlt)]
  exact Nat.zero_add _

theorem foldl_filteredCount (weights : List MLNodeWeight) (start : UInt32)
    (h : start.toNat + totalWeight weights < 2 ^ 32) :
    (weights.foldl (fun sum nw => sum + nw.weight) start).toNat =
      start.toNat + totalWeight weights := by
  induction weights generalizing start with
  | nil => rfl
  | cons nw _ ih =>
    simp only [totalWeight, map_cons, sum_cons] at h ih ⊢
    have hadd : (start + nw.weight).toNat = start.toNat + nw.weight.toNat := by
      rw [UInt32.toNat_add, Nat.mod_eq_of_lt (by omega)]
    rw [foldl_cons, ih _ (by omega), hadd]
    omega

theorem filteredCount_toNat {weights : List MLNodeWeight} (h : totalWeight weights < 2 ^ 32) :
    (filteredCount weights).toNat = totalWeight weights := by
  unfold filteredCount
  rw [foldl_filteredCount weights 0 (by simpa using h)]
  exact Nat.zero_add _

/-! ### Accepted commits -/

variable {A : Type} [LinearOrder A] {codec : Bech32 A} {w : World} {s s' : Store A} {start : ℤ}
  {addr : A} {updates : List PocV2CommitUpdate} {total : UInt64}

/-- The stored count, 0 if there is none. -/
def Store.committed (s : Store A) (key : CommitKey A) : ℕ :=
  ((s.poCV2StoreCommits.get? key).map (·.count.toNat)).getD 0

theorem Store.committed_of_get? {key : CommitKey A} {c : PoCV2StoreCommit}
    (h : s.poCV2StoreCommits.get? key = some c) : s.committed key = c.count.toNat := by
  unfold Store.committed
  rw [h]
  rfl

omit [LinearOrder A] in
theorem pocV2StoreCommitKey_inj {stage stage' : ℤ} {addr addr' : A} {model model' : String} :
    pocV2StoreCommitKey stage addr model = pocV2StoreCommitKey stage' addr' model' ↔
      stage = stage' ∧ addr = addr' ∧ model = model' := by
  unfold pocV2StoreCommitKey
  simp only [EmbeddingLike.apply_eq_iff_eq, Prod.mk.injEq]

omit [LinearOrder A] in
theorem pocV2StoreCommitKey_surj (key : CommitKey A) :
    ∃ stage addr model, key = pocV2StoreCommitKey stage addr model :=
  ⟨(ofLex key).1, (ofLex (ofLex key).2).1, (ofLex (ofLex key).2).2, rfl⟩

theorem get?_loadExisting (s : Store A) (start : ℤ) (addr : A) (model : String) :
    (loadExistingPoCV2StoreCommits s start addr).get? model =
      s.poCV2StoreCommits.get? (pocV2StoreCommitKey start addr model) := by
  unfold loadExistingPoCV2StoreCommits
  set own := s.poCV2StoreCommits.entries.filter
    fun e => (ofLex e.1).1 = start ∧ (ofLex (ofLex e.1).2).1 = addr with hown
  have hmem : ∀ e ∈ own, e ∈ s.poCV2StoreCommits.entries ∧
      e.1 = pocV2StoreCommitKey start addr (ofLex (ofLex e.1).2).2 := by
    intro e he
    obtain ⟨he, hkey⟩ := mem_filter.mp he
    obtain ⟨hstart, haddr⟩ := of_decide_eq_true hkey
    refine ⟨he, ?_⟩
    rw [← hstart, ← haddr]
    rfl
  have hnd : (own.map fun e => (ofLex (ofLex e.1).2).2).Nodup := by
    have hkeys : (own.map Prod.fst).Nodup :=
      s.poCV2StoreCommits.keys_nodup.sublist (filter_sublist.map _)
    refine List.Nodup.of_map (fun model => pocV2StoreCommitKey start addr model) ?_
    rw [map_map]
    exact (map_congr_left fun e he => (hmem e he).2) ▸ hkeys
  apply Option.ext
  intro c
  rw [get?_foldl_insert _ _ hnd]
  constructor
  · rintro (⟨e, he, rfl, rfl⟩ | ⟨-, hnone⟩)
    · obtain ⟨he, hkey⟩ := hmem e he
      rw [← hkey]
      exact get?_eq_some_iff.mpr he
    · cases hnone
  · intro hc
    refine .inl ⟨(pocV2StoreCommitKey start addr model, c), ?_, rfl, rfl⟩
    exact mem_filter.mpr ⟨get?_eq_some_iff.mp hc, decide_eq_true ⟨rfl, rfl⟩⟩

/-- An update of what is stored: it names more, and is charged for the difference. -/
structure Grows (s : Store A) (start : ℤ) (addr : A) (u : PocV2CommitUpdate) : Prop where
  positive : 0 < u.entry.count.toNat
  delta : s.committed (pocV2StoreCommitKey start addr u.modelID) + u.countDelta.toNat =
    u.entry.count.toNat

theorem buildPoCV2CommitUpdate_ok {entry : PocV2CommitEntry} {u : PocV2CommitUpdate}
    (h : buildPoCV2CommitUpdate w (loadExistingPoCV2StoreCommits s start addr) entry = .ok u) :
    Grows s start addr u := by
  unfold buildPoCV2CommitUpdate at h
  simp only [bind_eq_ok_iff, require_eq_ok_iff, get?_loadExisting] at h
  obtain ⟨-, hcount, -, -, -, -, -, -, h⟩ := h
  have hpos : 0 < entry.count.toNat := by
    refine Nat.pos_of_ne_zero fun hzero => hcount ?_
    exact UInt32.toNat_inj.mp hzero
  split at h
  · -- the first commit of the model
    rename_i hnone
    cases h
    refine ⟨hpos, ?_⟩
    unfold Store.committed
    rw [hnone, UInt32.toNat_toUInt64]
    exact Nat.zero_add _
  · rename_i existing hsome
    simp only [bind_eq_ok_iff, require_eq_ok_iff] at h
    obtain ⟨-, -, -, hlt, h⟩ := h
    cases h
    refine ⟨hpos, ?_⟩
    have hlt' : existing.count.toNat < entry.count.toNat := UInt32.lt_iff_toNat_lt.mp hlt
    rw [Store.committed_of_get? hsome, UInt32.toNat_toUInt64,
      UInt32.toNat_sub_of_le _ _ (UInt32.le_iff_toNat_le.mpr hlt'.le)]
    exact Nat.add_sub_cancel' hlt'.le

def deltas (updates : List PocV2CommitUpdate) : ℕ := (updates.map (·.countDelta.toNat)).sum

theorem buildPoCV2CommitUpdates_ok {entries : List PocV2CommitEntry}
    (h : buildPoCV2CommitUpdates w (loadExistingPoCV2StoreCommits s start addr) entries =
      .ok (updates, total)) :
    (∀ u ∈ updates, Grows s start addr u) ∧ total.toNat = deltas updates := by
  refine foldlM_ok (P := fun r : List PocV2CommitUpdate × UInt64 =>
    (∀ u ∈ r.1, Grows s start addr u) ∧ r.2.toNat = deltas r.1) ?_ ⟨fun _ h => (not_mem_nil h).elim, rfl⟩ h
  rintro ⟨_, sum⟩ _ - _ ⟨hdone, hsum⟩ hround
  simp only [bind_eq_ok_iff, require_eq_ok_iff] at hround
  obtain ⟨u, hu, -, hwrap, hround⟩ := hround
  cases hround
  constructor
  · intro u' hu'
    rcases mem_append.mp hu' with hu' | hu'
    · exact hdone u' hu'
    · rw [mem_singleton.mp hu']
      exact buildPoCV2CommitUpdate_ok hu
  · -- the sum did not wrap, or it would have come out smaller
    have hle : sum.toNat ≤ (sum + u.countDelta).toNat := by
      rw [UInt64.lt_iff_toNat_lt] at hwrap
      omega
    have hlt := u.countDelta.toNat_lt
    rw [UInt64.toNat_add] at hle ⊢
    simp only [deltas, map_append, sum_append, map_cons, map_nil,
      sum_singleton] at hsum ⊢
    omega

/-- A product that is not said to overflow is exact. -/
theorem checkedMul_exact {a b : UInt64} (h : (checkedMul a b).2 = false) :
    (checkedMul a b).1.toNat = a.toNat * b.toNat := by
  unfold checkedMul at h ⊢
  split
  · rename_i hzero
    rcases hzero with rfl | rfl <;> simp
  rename_i hzero
  rw [if_neg hzero] at h
  split at h
  case isTrue => cases h
  rename_i hdiv
  rw [if_neg hdiv]
  show (a * b).toNat = a.toNat * b.toNat
  -- the quotient is `b` again, so the wrapped product is no smaller than the exact one
  have hquo : (a * b).toNat / a.toNat = b.toNat := by
    rw [← UInt64.toNat_div, not_not.mp hdiv]
  have hle : a.toNat * b.toNat ≤ (a * b).toNat := by
    rw [← hquo]
    exact Nat.mul_div_le _ _
  exact le_antisymm (Nat.mod_le _ _) hle

theorem consumeGas_ok {m m' : GasMeter} {amount : ℕ} {descriptor : String}
    (h : m.consumeGas amount descriptor = .ok m') : m'.consumed = m.consumed + amount := by
  unfold GasMeter.consumeGas at h
  simp only [bind_eq_ok_iff, require_eq_ok_iff, pure_eq_ok_iff] at h
  obtain ⟨-, -, -, -, rfl⟩ := h
  rfl

theorem chargePoCV2StoreCommitGas_ok {fee : Option FeeParams} {first : Bool} {gas : ℕ}
    (h : chargePoCV2StoreCommitGas w fee first total = .ok gas) :
    gas = total.toNat * ((fee.map FeeParams.gasPerPocCount).getD 0).toNat := by
  unfold chargePoCV2StoreCommitGas at h
  cases fee with
  | none => exact (pure_eq_ok_iff.mp h).symm
  | some =>
    simp only [bind_eq_ok_iff, require_eq_ok_iff, pure_eq_ok_iff] at h
    obtain ⟨_, -, -, hexact, _, hcount, rfl⟩ := h
    rw [consumeGas_ok hcount, Nat.add_sub_cancel_left]
    exact checkedMul_exact hexact

/-- **What an accepted commit does.** -/
theorem poCV2StoreCommit_ok {msg : MsgPoCV2StoreCommit}
    (h : poCV2StoreCommit codec w msg s = .ok s') :
    ∃ (addr : A) (updates : List PocV2CommitUpdate) (fee : UInt64),
      (∀ u ∈ updates, Grows s msg.pocStageStartBlockHeight addr u) ∧
      s' = { s with
        poCV2StoreCommits :=
          persistPoCV2CommitUpdates w msg.creator msg.pocStageStartBlockHeight addr updates
            s.poCV2StoreCommits
        charges := s.charges ++
          [⟨msg.pocStageStartBlockHeight, addr, updates, fee, deltas updates * fee.toNat⟩] } := by
  unfold poCV2StoreCommit at h
  simp only [bind_eq_ok_iff, pure_eq_ok_iff] at h
  obtain ⟨params, -, -, -, addr, -, ⟨updates, _⟩, hbuild, _, hgas, rfl⟩ := h
  obtain ⟨hgrows, htotal⟩ := buildPoCV2CommitUpdates_ok hbuild
  refine ⟨addr, updates, (params.feeParams.map (·.gasPerPocCount)).getD 0, hgrows, ?_⟩
  rw [chargePoCV2StoreCommitGas_ok hgas, htotal]

theorem get?_persist (creator : String) (start : ℤ) (addr : A) (updates : List PocV2CommitUpdate)
    (commits : OrdMap (CommitKey A) PoCV2StoreCommit) (key : CommitKey A) :
    (∃ u ∈ updates, key = pocV2StoreCommitKey start addr u.modelID ∧
      ((persistPoCV2CommitUpdates w creator start addr updates commits).get? key) =
        some ⟨creator, start, u.entry.count, u.entry.rootHash, w.blockHeight, u.modelID⟩) ∨
    (persistPoCV2CommitUpdates w creator start addr updates commits).get? key =
      commits.get? key := by
  rcases get?_foldl_insert_cases (fun u => pocV2StoreCommitKey start addr u.modelID)
    (fun u => PoCV2StoreCommit.mk creator start u.entry.count u.entry.rootHash w.blockHeight
      u.modelID) updates commits key with ⟨u, hu, hkey, hget⟩ | ⟨-, hsame⟩
  · exact .inl ⟨u, hu, hkey.symm, hget⟩
  · exact .inr hsame

/-! ### What all messages keep -/

def Charge.counts (charge : Charge A) (key : CommitKey A) : ℕ :=
  deltas (charge.updates.filter fun u =>
    pocV2StoreCommitKey charge.stage charge.addr u.modelID = key)

def Charge.gasFor (charge : Charge A) (key : CommitKey A) : ℕ :=
  charge.counts key * charge.gasPerPocCount.toNat

def gasCharged (charges : List (Charge A)) (key : CommitKey A) : ℕ :=
  (charges.map (·.gasFor key)).sum

/-- Every count is paid for, and every distribution is covered by a count. -/
structure Sound (s : Store A) : Prop where
  commitKeyed : ∀ stage addr model c,
    s.poCV2StoreCommits.get? (pocV2StoreCommitKey stage addr model) = some c → c.modelId = model
  distributionKeyed : ∀ stage addr model d,
    s.mlNodeWeightDistributions.get? (pocV2StoreCommitKey stage addr model) = some d →
      d.modelId = model
  covered : ∀ key d, s.mlNodeWeightDistributions.get? key = some d →
    totalWeight d.weights ≤ s.committed key
  exact : ∀ charge ∈ s.charges,
    charge.countGas = deltas charge.updates * charge.gasPerPocCount.toNat
  paid : ∀ key, s.committed key ≤ (s.charges.map (·.counts key)).sum

theorem Sound.empty : Sound (Store.empty : Store A) where
  commitKeyed _ _ _ _ h := nomatch h
  distributionKeyed _ _ _ _ h := nomatch h
  covered _ _ h := nomatch h
  exact _ h := (not_mem_nil h).elim
  paid _ := le_rfl

/-- What a message leaves: sound data, and counts that did not decrease. -/
def Keeps (s s' : Store A) : Prop := Sound s' ∧ ∀ key, s.committed key ≤ s'.committed key

theorem Charge.delta_le_counts {charge : Charge A} {u : PocV2CommitUpdate} {key : CommitKey A}
    (hu : u ∈ charge.updates)
    (hkey : key = pocV2StoreCommitKey charge.stage charge.addr u.modelID) :
    u.countDelta.toNat ≤ charge.counts key := by
  refine single_le_sum (fun _ _ => Nat.zero_le _) _ (mem_map_of_mem ?_)
  exact mem_filter.mpr ⟨hu, decide_eq_true hkey.symm⟩

theorem keeps_commit (hs : Sound s) {msg : MsgPoCV2StoreCommit}
    (h : poCV2StoreCommit codec w msg s = .ok s') : Keeps s s' := by
  obtain ⟨addr, updates, fee, hgrows, hs'⟩ := poCV2StoreCommit_ok h
  set start := msg.pocStageStartBlockHeight
  set charge : Charge A := ⟨start, addr, updates, fee, deltas updates * fee.toNat⟩ with hcharge
  have hcommits : s'.poCV2StoreCommits =
      persistPoCV2CommitUpdates w msg.creator start addr updates s.poCV2StoreCommits := by rw [hs']
  have hdistributions : s'.mlNodeWeightDistributions = s.mlNodeWeightDistributions := by rw [hs']
  have hcharges : s'.charges = s.charges ++ [charge] := by rw [hs']
  have hcases := get?_persist (w := w) msg.creator start addr updates s.poCV2StoreCommits
  rw [← hcommits] at hcases
  -- a key is as before, or it has one of the updates, which adds what it is charged for
  have hkey : ∀ key, s.committed key ≤ s'.committed key ∧
      s'.committed key ≤ s.committed key + charge.counts key := by
    intro key
    rcases hcases key with ⟨u, hu, hkey, hget⟩ | hsame
    · have hdelta := (hgrows u hu).delta
      have hle : u.countDelta.toNat ≤ charge.counts key := Charge.delta_le_counts hu hkey
      rw [← hkey] at hdelta
      rw [Store.committed_of_get? hget]
      constructor
      · exact Nat.le_of_add_right_le hdelta.le
      · exact hdelta ▸ Nat.add_le_add_left hle _
    · unfold Store.committed
      rw [hsame]
      exact ⟨le_rfl, Nat.le_add_right _ _⟩
  refine ⟨⟨?_, ?_, ?_, ?_, ?_⟩, fun key => (hkey key).1⟩
  · intro stage addr' model c hc
    rcases hcases (pocV2StoreCommitKey stage addr' model) with ⟨u, -, hu, hget⟩ | hsame
    · cases hget.symm.trans hc
      exact (pocV2StoreCommitKey_inj.mp hu).2.2.symm
    · exact hs.commitKeyed stage addr' model c (hsame.symm.trans hc)
  · rw [hdistributions]
    exact hs.distributionKeyed
  · intro key d hd
    rw [hdistributions] at hd
    exact (hs.covered key d hd).trans (hkey key).1
  · intro c hc
    rw [hcharges] at hc
    rcases mem_append.mp hc with hc | hc
    · exact hs.exact c hc
    · rw [mem_singleton.mp hc]
  · intro key
    have hpaid := hs.paid key
    have hnew := (hkey key).2
    rw [hcharges, map_append, sum_append, map_singleton, sum_singleton]
    omega

/-- **What a stored distribution is**: it adds up to the count. -/
theorem storeDistribution_ok {creator : String} {entry : MLNodeDistributionEntry}
    (h : storeDistribution w creator start addr s entry = .ok s') :
    totalWeight entry.weights = s.committed (pocV2StoreCommitKey start addr entry.modelId) ∧
    s' = { s with
      mlNodeWeightDistributions := s.mlNodeWeightDistributions.insert
        (pocV2StoreCommitKey start addr entry.modelId)
        ⟨creator, start, entry.weights, entry.modelId⟩ } := by
  unfold storeDistribution at h
  simp only [bind_eq_ok_iff, require_eq_ok_iff, found_eq_ok_iff, pure_eq_ok_iff] at h
  obtain ⟨-, -, -, -, -, -, _, hcommit, -, hsum, rfl⟩ := h
  refine ⟨?_, rfl⟩
  rw [Store.committed_of_get? hcommit, ← weightSum_toNat entry.length_weights, hsum,
    UInt32.toNat_toUInt64]

theorem keeps_distribution (hs : Sound s) {msg : MsgMLNodeWeightDistribution}
    (h : mlNodeWeightDistribution codec w msg s = .ok s') : Keeps s s' := by
  unfold mlNodeWeightDistribution at h
  simp only [bind_eq_ok_iff] at h
  obtain ⟨_, -, -, -, _, -, h⟩ := h
  refine foldlM_ok (P := Keeps s) ?_ ⟨hs, fun key => le_rfl⟩ h
  rintro _ _ - _ ⟨hs₁, hle⟩ hround
  obtain ⟨hsum, rfl⟩ := storeDistribution_ok hround
  refine ⟨⟨hs₁.commitKeyed, ?_, ?_, hs₁.exact, hs₁.paid⟩, hle⟩
  · intro stage addr' model d hd
    rw [get?_insert] at hd
    split at hd
    · rename_i hkey
      cases hd
      exact (pocV2StoreCommitKey_inj.mp hkey).2.2.symm
    · exact hs₁.distributionKeyed stage addr' model d hd
  · intro key d hd
    rw [get?_insert] at hd
    split at hd
    · rename_i hkey
      cases hd
      rw [hkey]
      exact hsum.le
    · exact hs₁.covered key d hd

theorem keeps_step (hs : Sound s) (input : World × Msg) : Keeps s (step codec input s) := by
  have hsame : Keeps s s := ⟨hs, fun key => le_rfl⟩
  unfold step
  cases input.2 with
  | poCV2StoreCommit => exact commit_cases hsame fun s' h => keeps_commit hs h
  | mlNodeWeightDistribution => exact commit_cases hsame fun s' h => keeps_distribution hs h

theorem keeps_run (hs : Sound s) (inputs : List (World × Msg)) :
    Keeps s (Along.run (step codec) inputs s) := by
  refine Along.run_of_eachStep (P := Keeps s) (Q := fun _ _ => True) ?_ ⟨hs, fun key => le_rfl⟩
    (Along.eachStep_of_forall (fun _ _ _ => trivial) s)
  rintro s₁ input ⟨hs₁, hle⟩ -
  obtain ⟨hs₂, hle'⟩ : Keeps s₁ (step codec input s₁) := keeps_step hs₁ input
  exact ⟨hs₂, fun key => (hle key).trans (hle' key)⟩

variable {stage : ℤ} {model : String} {key : PoCParticipantModelKey} {count : ℕ}
  {serving : String → String → Bool} {wc : PoCWeightCalculator} {nodes : List NodeWeight} {weight : ℤ}
  {all : OrdMap PoCParticipantModelKey PoCV2StoreCommit ×
    OrdMap PoCParticipantModelKey MLNodeWeightDistribution}

theorem get?_allForStage {V : Type} {modelId : V → String} {stored : OrdMap (CommitKey A) V}
    (hkeyed : ∀ stage addr model v,
      stored.get? (pocV2StoreCommitKey stage addr model) = some v → modelId v = model)
    {v : V}
    (h : (allForStage codec modelId stored stage).get? (toLex (codec.string addr, model)) = some v) :
    stored.get? (pocV2StoreCommitKey stage addr model) = some v := by
  rcases get?_foldl_insert_cases
    (fun e : CommitKey A × V => toLex (codec.string (ofLex (ofLex e.1).2).1, modelId e.2)) Prod.snd
    (stored.entries.filter fun e => (ofLex e.1).1 = stage) ∅
    (toLex (codec.string addr, model)) with ⟨e, he, hkey, hget⟩ | ⟨-, hnone⟩
  · obtain rfl := Option.some.inj (hget.symm.trans h)
    obtain ⟨hmem, hstage⟩ := mem_filter.mp he
    obtain ⟨stage', addr', model', hkey'⟩ := pocV2StoreCommitKey_surj e.1
    have hget : stored.get? (pocV2StoreCommitKey stage' addr' model') = some e.2 := by
      rw [← hkey']
      exact get?_eq_some_iff.mpr hmem
    rw [hkey'] at hstage hkey
    obtain ⟨haddr, hmodel⟩ := Prod.mk.inj (toLex_inj.mp hkey.symm)
    -- two addresses with one string are the same
    have haddr' : addr = addr' := by
      rw [← Option.some_inj, ← codec.accAddressFromBech32_string addr, haddr]
      exact codec.accAddressFromBech32_string addr'
    have hstage' : stage' = stage := of_decide_eq_true hstage
    rw [hmodel, hkeyed stage' addr' model' e.2 hget, haddr', ← hstage']
    exact hget
  · cases hnone.symm.trans h

theorem filteredEntry_spec {distributions : OrdMap PoCParticipantModelKey MLNodeWeightDistribution}
    {c c' : PoCV2StoreCommit} {d' : MLNodeWeightDistribution}
    (hcovered : ∀ d, distributions.get? key = some d → totalWeight d.weights ≤ c.count.toNat)
    (h : filteredEntry distributions serving key c = some (c', d')) :
    c'.count.toNat = totalWeight d'.weights ∧ c'.count.toNat ≤ c.count.toNat := by
  unfold filteredEntry at h
  cases hd : distributions.get? key with
  | none =>
    rw [hd] at h
    cases h
  | some d =>
    rw [hd] at h
    simp only at h
    split at h
    case isTrue => cases h
    split at h
    case isTrue => cases h
    cases h
    have hle : totalWeight (keptWeights (serving (ofLex key).1) d.weights) ≤ c.count.toNat :=
      (totalWeight_filter_le _ _).trans (hcovered d hd)
    have hlt := c.count.toNat_lt
    have hcount := filteredCount_toNat (hle.trans_lt hlt)
    exact ⟨hcount, hcount ▸ hle⟩

theorem sum_floor_le {α : Type} (f : α → ℤ) (q : ℚ) (l : List α) :
    (l.map fun a => ⌊f a * q⌋).sum ≤ ⌊((l.map f).sum : ℤ) * q⌋ := by
  induction l with
  | nil => simp
  | cons _ _ ih =>
    simp only [map_cons, sum_cons]
    rw [Int.cast_add, add_mul]
    exact (add_le_add_right ih _).trans (Int.le_floor_add _ _)

theorem sum_mapM_scale {factor : Dec} (hfactor : 0 ≤ factor.units) {weights : List MLNodeWeight}
    (h : (weights.mapM fun nw => (Dec.scale nw.weight.toNat factor).map (NodeWeight.mk nw.nodeId ·)) =
      some nodes) :
    (nodes.map (·.weight)).sum = (weights.map fun nw => ⌊(nw.weight.toNat : ℤ) * factor.value⌋).sum := by
  induction weights generalizing nodes with
  | nil =>
    cases h
    rfl
  | cons _ _ ih =>
    simp only [mapM_cons, Option.bind_eq_bind, Option.bind_eq_some_iff, Option.pure_def,
      Option.map_eq_some_iff] at h
    obtain ⟨_, ⟨_, ht, rfl⟩, _, hnodes', hcons⟩ := h
    cases hcons
    simp only [map_cons, sum_cons]
    rw [ih hnodes', Dec.scale_eq_floor (Int.natCast_nonneg _) hfactor ht]

theorem calculateParticipantWeight_spec (hfactor : wc.timeNormalizationFactor.IsPositive)
    (hcount : ∀ c, wc.storeCommits.get? key = some c → c.count.toNat ≤ count)
    (hcovered : ∀ c d, wc.storeCommits.get? key = some c →
      wc.nodeWeightDistributions.get? key = some d → totalWeight d.weights ≤ c.count.toNat)
    (h : wc.calculateParticipantWeight key = some (nodes, weight)) :
    (nodes.map (·.weight)).sum ≤ weight ∧
      weight ≤ ⌊(count : ℚ) * wc.timeNormalizationFactor.value⌋ := by
  have hunits : (0 : ℤ) ≤ wc.timeNormalizationFactor.units := le_of_lt hfactor
  have hvalue : 0 ≤ wc.timeNormalizationFactor.value :=
    div_nonneg (by exact_mod_cast hunits) (by exact_mod_cast Dec.precision_pos.le)
  have hnone : (([] : List NodeWeight).map (·.weight)).sum ≤ 0 ∧
      (0 : ℤ) ≤ ⌊(count : ℚ) * wc.timeNormalizationFactor.value⌋ :=
    ⟨le_rfl, Int.floor_nonneg.mpr (mul_nonneg (Nat.cast_nonneg _) hvalue)⟩
  unfold PoCWeightCalculator.calculateParticipantWeight at h
  cases hc : wc.storeCommits.get? key with
  | none =>
    rw [hc] at h
    cases h
    exact hnone
  | some c =>
    rw [hc] at h
    simp only [if_pos hfactor] at h
    split at h
    case isTrue =>
      cases h
      exact hnone
    obtain ⟨_, hclaimed, h⟩ := Option.bind_eq_some_iff.mp h
    cases hd : wc.nodeWeightDistributions.get? key with
    | none =>
      rw [hd] at h
      cases h
      exact hnone
    | some d =>
      rw [hd] at h
      simp only at h
      split at h
      case isTrue =>
        cases h
        exact hnone
      obtain ⟨unsorted, hunsorted, h⟩ := Option.bind_eq_some_iff.mp h
      cases h
      have htotal := Dec.scale_eq_floor (Int.natCast_nonneg _) hunits hclaimed
      have hmono : ∀ {m n : ℕ}, m ≤ n → ⌊(m : ℚ) * wc.timeNormalizationFactor.value⌋ ≤
          ⌊(n : ℚ) * wc.timeNormalizationFactor.value⌋ := by
        intro m n hmn
        exact Int.floor_mono (mul_le_mul_of_nonneg_right (by exact_mod_cast hmn) hvalue)
      constructor
      · rw [((mergeSort_perm unsorted _).map _).sum_eq, sum_mapM_scale hunits hunsorted, htotal]
        refine (sum_floor_le _ _ d.weights).trans ?_
        have hsum : ((d.weights.map fun nw => (nw.weight.toNat : ℤ)).sum : ℤ) =
            (totalWeight d.weights : ℕ) := by
          unfold totalWeight
          rw [Nat.cast_list_sum, map_map]
          rfl
        rw [hsum, Int.cast_natCast]
        exact hmono (hcovered c d hc hd)
      · rw [htotal]
        exact hmono (hcount c hc)

/-- The calculator works on a part of these commits and distributions. -/
def PoCWeightCalculator.DrawnFrom (wc : PoCWeightCalculator)
    (all : OrdMap PoCParticipantModelKey PoCV2StoreCommit ×
      OrdMap PoCParticipantModelKey MLNodeWeightDistribution) : Prop :=
  (∀ key c, wc.storeCommits.get? key = some c → all.1.get? key = some c) ∧
  ∀ key d, wc.nodeWeightDistributions.get? key = some d → all.2.get? key = some d

def stageData (codec : Bech32 A) (s : Store A) (stage : ℤ) :
    OrdMap PoCParticipantModelKey PoCV2StoreCommit ×
      OrdMap PoCParticipantModelKey MLNodeWeightDistribution :=
  (getAllPoCV2StoreCommitsForStage codec s stage, getAllMLNodeWeightDistributionsForStage codec s stage)

def filteredData (codec : Bech32 A) (s : Store A) (stage : ℤ) (serving : String → String → Bool) :
    OrdMap PoCParticipantModelKey PoCV2StoreCommit ×
      OrdMap PoCParticipantModelKey MLNodeWeightDistribution :=
  filterStoreCommitsFromInferenceNodes (stageData codec s stage).1 (stageData codec s stage).2 serving

/-- The commits and distributions of a participant and model are within the stored count. -/
def Within (all : OrdMap PoCParticipantModelKey PoCV2StoreCommit ×
    OrdMap PoCParticipantModelKey MLNodeWeightDistribution) (key : PoCParticipantModelKey)
    (count : ℕ) : Prop :=
  (∀ c, all.1.get? key = some c → c.count.toNat ≤ count) ∧
  ∀ c d, all.1.get? key = some c → all.2.get? key = some d → totalWeight d.weights ≤ c.count.toNat

theorem within_stageData (hs : Sound s) (stage : ℤ) (addr : A) (model : String) :
    Within (stageData codec s stage) (toLex (codec.string addr, model))
      (s.committed (pocV2StoreCommitKey stage addr model)) := by
  have hcommit : ∀ c, (stageData codec s stage).1.get? (toLex (codec.string addr, model)) = some c →
      s.committed (pocV2StoreCommitKey stage addr model) = c.count.toNat := by
    intro c hc
    exact Store.committed_of_get? (get?_allForStage hs.commitKeyed hc)
  refine ⟨fun c hc => (hcommit c hc).ge, fun c d hc hd => ?_⟩
  rw [← hcommit c hc]
  exact hs.covered _ d (get?_allForStage hs.distributionKeyed hd)

theorem filteredData_spec (hwithin : Within (stageData codec s stage) key count)
    {c : PoCV2StoreCommit} (hc : (filteredData codec s stage serving).1.get? key = some c) :
    ∃ d, (filteredData codec s stage serving).2.get? key = some d ∧
      c.count.toNat = totalWeight d.weights ∧ c.count.toNat ≤ count := by
  unfold filteredData filterStoreCommitsFromInferenceNodes at hc ⊢
  simp only [get?_filterMap, Option.bind_eq_some_iff] at hc ⊢
  obtain ⟨⟨_, d⟩, ⟨c₀, hc₀, hentry⟩, hfirst⟩ := hc
  cases hfirst
  obtain ⟨hexact, hle⟩ := filteredEntry_spec (fun d hd => hwithin.2 c₀ d hc₀ hd) hentry
  exact ⟨d, ⟨_, ⟨c₀, hc₀, hentry⟩, rfl⟩, hexact, hle.trans (hwithin.1 c₀ hc₀)⟩

theorem within_filteredData (hwithin : Within (stageData codec s stage) key count) :
    Within (filteredData codec s stage serving) key count := by
  refine ⟨fun c hc => ?_, fun c d hc hd => ?_⟩
  · obtain ⟨-, -, -, hle⟩ := filteredData_spec hwithin hc
    exact hle
  · obtain ⟨_, hd', hexact, -⟩ := filteredData_spec hwithin hc
    cases hd'.symm.trans hd
    exact hexact.ge

theorem weights_of_within (hwithin : Within all key count) (hwc : wc.DrawnFrom all)
    (hfactor : wc.timeNormalizationFactor.IsPositive)
    (h : wc.calculateParticipantWeight key = some (nodes, weight)) :
    (nodes.map (·.weight)).sum ≤ weight ∧
      weight ≤ ⌊(count : ℚ) * wc.timeNormalizationFactor.value⌋ :=
  calculateParticipantWeight_spec hfactor (fun c hc => hwithin.1 c (hwc.1 key c hc))
    (fun c d hc hd => hwithin.2 c d (hwc.1 key c hc) (hwc.2 key d hd)) h

theorem le_gasCharged {charges : List (Charge A)} {g : ℕ} {key : CommitKey A}
    (hg : ∀ charge ∈ charges, charge.counts key ≠ 0 → g ≤ charge.gasPerPocCount.toNat) :
    g * (charges.map (·.counts key)).sum ≤ gasCharged charges key := by
  induction charges with
  | nil => exact le_rfl
  | cons charge _ ih =>
    have hrest := ih (forall_mem_cons.mp hg).2
    have hfirst : g * charge.counts key ≤ charge.gasFor key := by
      unfold Charge.gasFor
      rw [Nat.mul_comm g]
      rcases Nat.eq_zero_or_pos (charge.counts key) with hzero | hpos
      · rw [hzero, Nat.zero_mul, Nat.zero_mul]
      · exact Nat.mul_le_mul_left _ (hg charge mem_cons_self hpos.ne')
    simp only [map_cons, sum_cons, Nat.mul_add]
    exact Nat.add_le_add hfirst hrest

/-- **Weights never exceed what was committed and paid for.**  After any messages, for each stage,
participant and model: the stored count does not decrease; the distribution, with or without the
nodes that serve inference, adds up to no more than it; the weights of the nodes add up to no more
than that of the participant, and this is no more than the count times the factor; and the gas for
the counts is exact, and no less than the count times any price that no accepted commit was below. -/
theorem weight_within_commits (codec : Bech32 A) (inputs : List (World × Msg)) (stage : ℤ) (addr : A)
    (model : String) :
    let s := Along.run (step codec) inputs Store.empty
    let key := pocV2StoreCommitKey stage addr model
    let participant : PoCParticipantModelKey := toLex (codec.string addr, model)
    (∀ later, s.committed key ≤ (Along.run (step codec) later s).committed key) ∧
    (∀ d, s.mlNodeWeightDistributions.get? key = some d →
      totalWeight d.weights ≤ s.committed key) ∧
    (∀ serving c, (filteredData codec s stage serving).1.get? participant = some c →
      ∃ d, (filteredData codec s stage serving).2.get? participant = some d ∧
        c.count.toNat = totalWeight d.weights ∧ c.count.toNat ≤ s.committed key) ∧
    (∀ wc : PoCWeightCalculator,
      (wc.DrawnFrom (stageData codec s stage) ∨
        ∃ serving, wc.DrawnFrom (filteredData codec s stage serving)) →
      wc.timeNormalizationFactor.IsPositive →
      ∀ nodes total, wc.calculateParticipantWeight participant = some (nodes, total) →
        (nodes.map (·.weight)).sum ≤ total ∧
          total ≤ ⌊(s.committed key : ℚ) * wc.timeNormalizationFactor.value⌋) ∧
    (∀ charge ∈ s.charges,
      charge.countGas = deltas charge.updates * charge.gasPerPocCount.toNat) ∧
    ∀ g, (∀ charge ∈ s.charges, charge.counts key ≠ 0 → g ≤ charge.gasPerPocCount.toNat) →
      g * s.committed key ≤ gasCharged s.charges key := by
  intro s key participant
  have hs : Sound s := (keeps_run Sound.empty inputs).1
  have hwithin : Within (stageData codec s stage) participant (s.committed key) :=
    within_stageData hs stage addr model
  refine ⟨fun later => (keeps_run hs later).2 key, hs.covered key,
    fun serving c hc => filteredData_spec hwithin hc, ?_, hs.exact, ?_⟩
  · rintro _ (hwc | ⟨_, hwc⟩) hfactor _ _ h
    · exact weights_of_within hwithin hwc hfactor h
    · exact weights_of_within (within_filteredData hwithin) hwc hfactor h
  · intro g hg
    exact (Nat.mul_le_mul_left g (hs.paid key)).trans (le_gasCharged hg)

end PocCommits
