/-
Deposits take effect once, and when a majority has confirmed them.

`Stored` is what always holds of the two maps: a transaction stands under its own key, its group
is known, and no validators are recorded without a transaction.  `Settled` is what should hold of
a transaction: its power is that of its validators, it is completed exactly with a majority, and
paid out exactly once then.

A vote keeps it, as long as the power fits its type.  The first message of a content does not
look at the majority at all: a validator that has one alone leaves the transaction pending, and
cannot confirm it again.

Main results: `deposits_settled_iff`, `majority_holder_stays_pending`, `deposits_paid_once`.
-/
import Gonka.Bridge.Escrow
import Gonka.Bridge.Exchange

namespace Bridge

open OrdMap List Option

open ThresholdSigning (Address)

section

variable (env : ExchangeEnv)

def ExchangeEnv.weightOf (epoch : ℕ) (validator : Bytes) : ℤ :=
  ((env.epochGroup epoch).bind fun g =>
    (env.bridge.accAddressFromBech32 validator).bind fun addr => memberPower env addr g).getD 0

def ExchangeEnv.totalWeight (epoch : ℕ) : ℤ := ((env.epochGroup epoch).map (·.totalWeight)).getD 0

def ExchangeState.validators (st : ExchangeState) (tx : Content) : List Bytes :=
  (st.validatorsAt tx.subKey).keys

/-- **What should hold of a transaction.** -/
structure Settled (st : ExchangeState) (tx : BridgeTransaction) : Prop where
  power : tx.totalValidationPower =
    ((st.validators tx.toContent).map (env.weightOf tx.epochIndex)).sum
  distinct : (st.validators tx.toContent).Nodup
  completed_iff : tx.status = .completed ↔
    env.totalWeight tx.epochIndex / 2 + 1 ≤ tx.totalValidationPower
  executed : st.executed.count tx.toContent = if tx.status = .completed then 1 else 0
  /-- the validators are those that reported this very content -/
  confirmed : ∀ v, v ∈ st.validators tx.toContent ↔ (tx.toContent, v) ∈ st.confirmed

/-- All transactions are settled, and nothing was paid out or recorded without one. -/
structure AllSettled (st : ExchangeState) : Prop where
  settled : ∀ k tx, st.bridgeTransactionsMap.get? k = some tx → Settled env st tx
  executed : ∀ c ∈ st.executed, ∃ tx, st.bridgeTransactionsMap.get? c.mapKey = some tx ∧
    tx.toContent = c
  confirmed : ∀ p ∈ st.confirmed, ∃ tx, st.bridgeTransactionsMap.get? p.1.mapKey = some tx ∧
    tx.toContent = p.1
  once : st.confirmed.Nodup

structure Stored (st : ExchangeState) : Prop where
  keyed : ∀ k tx, st.bridgeTransactionsMap.get? k = some tx → tx.toContent.mapKey = k
  grouped : ∀ k tx, st.bridgeTransactionsMap.get? k = some tx →
    (env.epochGroup tx.epochIndex).isSome
  owned : ∀ sk, (st.bridgeTransactionValidators.get? sk).isSome →
    ∃ k tx, st.bridgeTransactionsMap.get? k = some tx ∧ tx.toContent.subKey = sk

/-- Every payout belongs to a completed transaction, and none has the key of another. -/
structure Paid (st : ExchangeState) : Prop where
  once : (st.executed.map Content.mapKey).Nodup
  completed : ∀ c ∈ st.executed, ∃ tx, st.bridgeTransactionsMap.get? c.mapKey = some tx ∧
    tx.toContent = c ∧ tx.status = .completed

/-- The message does not create a transaction that has its majority already, and its power fits
the type. -/
def CountsSoundly (st : ExchangeState) (m : ExchangeOutside × MsgBridgeExchange) : Prop :=
  ∀ validated id st', validateBridgeExchange env m.1 m.2 st = .ok validated →
    bridgeExchange env m.1 m.2 st = .ok (id, st') →
    match validated.existingTx with
    | none => validated.validatorPower < validated.totalEpochPower / 2 + 1
    | some tx => tx.totalValidationPower + validated.validatorPower < 2 ^ 63

end

section

variable {env : ExchangeEnv} {out : ExchangeOutside} {msg : MsgBridgeExchange}
  {st st' : ExchangeState}

variable {addr : Address} {power : ℤ} {epoch : ℕ} {g : EpochGroup} {tx₀ : BridgeTransaction}

theorem memberPowerInGroup_mem {decode : Bytes → Option Address} {parse : Bytes → Option ℤ}
    {members : List (Option GroupMember)}
    (h : memberPowerInGroup decode parse addr members = some power) :
    ∃ m, some m ∈ members ∧ parse m.weight = some power := by
  induction members with
  | nil => nomatch h
  | cons member members ih =>
    have hrest : memberPowerInGroup decode parse addr members = some power →
        ∃ m, some m ∈ member :: members ∧ parse m.weight = some power := by
      intro h'
      obtain ⟨m, hin, hparse⟩ := ih h'
      exact ⟨m, mem_cons_of_mem _ hin, hparse⟩
    match member with
    | none => exact hrest h
    | some m =>
      simp only [memberPowerInGroup] at h
      split at h
      · split at h
        · next hparse =>
          exact ⟨m, mem_cons_self, hparse.trans h⟩
        · exact hrest h
      · exact hrest h

theorem memberPower_pos (hgroup : env.epochGroup epoch = some g)
    (hmember : memberPower env addr g = some power) :
    0 < power := by
  obtain ⟨m, hin, hparse⟩ := memberPowerInGroup_mem hmember
  exact env.weight_pos epoch g hgroup m hin power hparse

theorem weightOf_nonneg (epoch : ℕ) (v : Bytes) : 0 ≤ env.weightOf epoch v := by
  unfold ExchangeEnv.weightOf
  match hw : (env.epochGroup epoch).bind fun g =>
      (env.bridge.accAddressFromBech32 v).bind fun addr => memberPower env addr g with
  | none => exact le_refl 0
  | some w =>
    obtain ⟨g, hgroup, hrest⟩ := bind_eq_some_iff.mp hw
    obtain ⟨_, -, hmember⟩ := bind_eq_some_iff.mp hrest
    exact (memberPower_pos hgroup hmember).le

theorem weightOf_addrString {text : Bytes}
    (hdecoded : env.bridge.accAddressFromBech32 text = some addr)
    (hgroup : env.epochGroup epoch = some g) (hmember : memberPower env addr g = some power) :
    env.weightOf epoch (env.addrString addr) = power := by
  unfold ExchangeEnv.weightOf
  rw [hgroup, env.addrString_decodes text addr hdecoded]
  show (memberPower env addr g).getD 0 = power
  rw [hmember]
  rfl

theorem requiredPower_eq (hgroup : env.epochGroup epoch = some g) :
    requiredPower g.totalWeight = env.totalWeight epoch / 2 + 1 := by
  unfold requiredPower ExchangeEnv.totalWeight
  rw [hgroup, Int.tdiv_eq_ediv_of_nonneg g.totalWeight_nonneg]
  rfl

/-- The message records the validator `v` of the content and stores its transaction. -/
structure Put (st st' : ExchangeState) (c : Content) (v : Bytes) (tx : BridgeTransaction) : Prop where
  content : tx.toContent = c
  replaced : ∀ tx₀, st.bridgeTransactionsMap.get? c.mapKey = some tx₀ → tx₀.toContent = c
  transactions : ∀ k, st'.bridgeTransactionsMap.get? k =
    if k = c.mapKey then some tx else st.bridgeTransactionsMap.get? k
  validators : ∀ k, st'.validatorsAt k =
    if k = c.subKey then (st.validatorsAt k).insert v () else st.validatorsAt k
  known : ∀ k, (st'.bridgeTransactionValidators.get? k).isSome →
    k = c.subKey ∨ (st.bridgeTransactionValidators.get? k).isSome
  confirmed : st'.confirmed = (c, v) :: st.confirmed

theorem put_store {c : Content} (v : Bytes) (tx : BridgeTransaction) (hcontent : tx.toContent = c)
    (hreplaced : ∀ tx₀, st.bridgeTransactionsMap.get? c.mapKey = some tx₀ → tx₀.toContent = c)
    (b : State) (executed : List Content) :
    Put st { (st.confirm c v).store tx with bridge := b, executed := executed } c v
      { tx with id := generateSecureBridgeTransactionKey tx.toContent } := by
  subst hcontent
  refine ⟨rfl, hreplaced, ?_, ?_, ?_, rfl⟩
  · intro k
    show (st.bridgeTransactionsMap.insert _ _).get? k = _
    rw [get?_insert]
    by_cases hk : k = tx.toContent.mapKey
    · rw [if_pos hk, if_pos hk]
    · rw [if_neg hk, if_neg hk]
  · intro k
    show ((st.bridgeTransactionValidators.insert _ _).get? k).getD ∅ = _
    rw [get?_insert]
    split
    · next heq => rw [heq]; rfl
    · rfl
  · intro k hk
    have hk' : ((st.bridgeTransactionValidators.insert _ _).get? k).isSome := hk
    rw [get?_insert] at hk'
    split at hk'
    · next heq => exact .inl heq
    · exact .inr hk'

variable {c : Content} {v : Bytes} {tx : BridgeTransaction}

theorem Put.other (hs : Stored env st) {k : Key} (hget : st.bridgeTransactionsMap.get? k = some tx₀)
    (hk : k ≠ c.mapKey) :
    tx₀.toContent ≠ c ∧ tx₀.toContent.subKey ≠ c.subKey := by
  have hkey := hs.keyed k tx₀ hget
  constructor
  · rintro rfl
    exact hk hkey.symm
  · intro hsub
    exact hk (hkey.symm.trans (subKey_inj hsub))

theorem Put.stored (hput : Put st st' c v tx) (hs : Stored env st)
    (hgroup : (env.epochGroup tx.epochIndex).isSome) : Stored env st' := by
  refine ⟨?_, ?_, ?_⟩
  · intro k tx₀ hget
    rw [hput.transactions] at hget
    split at hget
    · next heq =>
      cases hget
      rw [heq, hput.content]
    · exact hs.keyed k tx₀ hget
  · intro k tx₀ hget
    rw [hput.transactions] at hget
    split at hget
    · cases hget
      exact hgroup
    · exact hs.grouped k tx₀ hget
  · intro sk hsk
    rcases hput.known sk hsk with rfl | hold
    · refine ⟨c.mapKey, tx, ?_, ?_⟩
      · rw [hput.transactions, if_pos rfl]
      · rw [hput.content]
    · obtain ⟨k, tx₀, hget, hsub⟩ := hs.owned sk hold
      by_cases hk : k = c.mapKey
      · -- the transaction that is replaced has the same content
        refine ⟨c.mapKey, tx, ?_, ?_⟩
        · rw [hput.transactions, if_pos rfl]
        · rw [hput.content, ← hput.replaced tx₀ (hk ▸ hget), hsub]
      · refine ⟨k, tx₀, ?_, hsub⟩
        rw [hput.transactions, if_neg hk, hget]

theorem Put.validators_self (hput : Put st st' c v tx)
    (hfirst : (st.validatorsAt c.subKey).get? v = none) :
    (st'.validators c).Perm (v :: st.validators c) := by
  unfold ExchangeState.validators
  rw [hput.validators, if_pos rfl]
  exact (entries_insert_perm () hfirst).map Prod.fst

theorem Put.validators_other (hput : Put st st' c v tx) {c₀ : Content} (hsub : c₀.subKey ≠ c.subKey) :
    st'.validators c₀ = st.validators c₀ := by
  unfold ExchangeState.validators
  rw [hput.validators, if_neg hsub]

theorem Put.settled_other (hput : Put st st' c v tx) (hs : Stored env st) {k : Key}
    (hget : st.bridgeTransactionsMap.get? k = some tx₀) (hk : k ≠ c.mapKey) (h : Settled env st tx₀)
    (hexecuted : st'.executed = st.executed ∨ st'.executed = c :: st.executed) :
    Settled env st' tx₀ := by
  obtain ⟨hcontent, hsub⟩ := Put.other hs hget hk
  have hsame := hput.validators_other hsub
  refine ⟨?_, ?_, h.completed_iff, ?_, ?_⟩
  · rw [hsame]
    exact h.power
  · rw [hsame]
    exact h.distinct
  · rw [← h.executed]
    rcases hexecuted with hex | hex
    · rw [hex]
    · rw [hex, count_cons_of_ne (Ne.symm hcontent)]
  · intro v₀
    rw [hsame, h.confirmed v₀, hput.confirmed, mem_cons]
    constructor
    · exact .inr
    · rintro (heq | hin)
      · exact absurd (Prod.mk.inj heq).1 hcontent
      · exact hin

/-- **All transactions stay settled, if the one of the message is.** -/
theorem Put.settled (hput : Put st st' c v tx) (hs : Stored env st) (h : AllSettled env st)
    (hfirst : (c, v) ∉ st.confirmed)
    (hexecuted : st'.executed = st.executed ∨ st'.executed = c :: st.executed) :
    AllSettled env st' ↔ Settled env st' tx := by
  constructor
  · intro h'
    exact h'.settled c.mapKey tx (by rw [hput.transactions, if_pos rfl])
  intro htx
  -- a content that has a transaction still has one
  have hkept : ∀ c₀ : Content, (∃ tx₀, st.bridgeTransactionsMap.get? c₀.mapKey = some tx₀ ∧
      tx₀.toContent = c₀) → ∃ tx₀, st'.bridgeTransactionsMap.get? c₀.mapKey = some tx₀ ∧
        tx₀.toContent = c₀ := by
    rintro _ ⟨tx₀, hget, rfl⟩
    by_cases hk : tx₀.toContent.mapKey = c.mapKey
    · have hc := hput.replaced tx₀ (hk ▸ hget)
      refine ⟨tx, ?_, hput.content.trans hc.symm⟩
      rw [hput.transactions, if_pos hk]
    · exact ⟨tx₀, by rw [hput.transactions, if_neg hk, hget], rfl⟩
  have hself : ∃ tx₀, st'.bridgeTransactionsMap.get? c.mapKey = some tx₀ ∧ tx₀.toContent = c :=
    ⟨tx, by rw [hput.transactions, if_pos rfl], hput.content⟩
  refine ⟨?_, ?_, ?_, ?_⟩
  · intro k tx₀ hget
    rw [hput.transactions] at hget
    split at hget
    · cases hget
      exact htx
    · next hk => exact hput.settled_other hs hget hk (h.settled k tx₀ hget) hexecuted
  · intro c₀ hc₀
    rcases hexecuted with hex | hex
    · exact hkept c₀ (h.executed c₀ (hex ▸ hc₀))
    rw [hex, mem_cons] at hc₀
    rcases hc₀ with rfl | hc₀
    · exact hself
    · exact hkept c₀ (h.executed c₀ hc₀)
  · intro p hp
    rw [hput.confirmed, mem_cons] at hp
    rcases hp with rfl | hp
    · exact hself
    · exact hkept p.1 (h.confirmed p hp)
  · rw [hput.confirmed]
    exact nodup_cons.mpr ⟨hfirst, h.once⟩

theorem Stored.fresh (hs : Stored env st) (hnew : st.bridgeTransactionsMap.get? c.mapKey = none) :
    st.validatorsAt c.subKey = ∅ := by
  unfold ExchangeState.validatorsAt
  match hget : st.bridgeTransactionValidators.get? c.subKey with
  | none => rfl
  | some vs =>
    obtain ⟨k, tx₀, hstored, hsub⟩ := hs.owned c.subKey (by rw [hget]; rfl)
    have hk : k = c.mapKey := (hs.keyed k tx₀ hstored).symm.trans (subKey_inj hsub)
    rw [← hk, hstored] at hnew
    nomatch hnew

theorem Put.sum (hput : Put st st' c v tx) (hfirst : (st.validatorsAt c.subKey).get? v = none)
    (epoch : ℕ) :
    ((st'.validators c).map (env.weightOf epoch)).sum =
      env.weightOf epoch v + ((st.validators c).map (env.weightOf epoch)).sum := by
  rw [((hput.validators_self hfirst).map _).sum_eq]
  rfl

theorem Put.confirmed_iff (hput : Put st st' c v tx)
    (hfirst : (st.validatorsAt c.subKey).get? v = none)
    (hold : ∀ v₀, v₀ ∈ st.validators c ↔ (c, v₀) ∈ st.confirmed) (v₀ : Bytes) :
    v₀ ∈ st'.validators c ↔ (c, v₀) ∈ st'.confirmed := by
  rw [(hput.validators_self hfirst).mem_iff, hput.confirmed, mem_cons, mem_cons, hold,
    Prod.mk.injEq]
  simp only [true_and]

/-- The first message of a content: it must not have the majority alone. -/
theorem settled_created_iff (hcreates : Creates env out msg st addr epoch g power)
    (hs : Stored env st) (h : AllSettled env st)
    (hput : Put st st' msg.proposed (env.addrString addr) tx) (hstatus : tx.status = .pending)
    (hepoch : tx.epochIndex = epoch) (hpower : tx.totalValidationPower = power)
    (hexecuted : st'.executed = st.executed) :
    Settled env st' tx ↔ power < g.totalWeight / 2 + 1 := by
  have hempty := hs.fresh hcreates.new
  have hfirst : (st.validatorsAt msg.proposed.subKey).get? (env.addrString addr) = none := by
    rw [hempty]
    rfl
  have hnone : st.validators msg.proposed = [] := by
    unfold ExchangeState.validators
    rw [hempty]
    rfl
  -- nothing is recorded of a content without a transaction
  have hunknown : ∀ c₀ : Content, c₀ = msg.proposed →
      ¬ ∃ tx₀, st.bridgeTransactionsMap.get? c₀.mapKey = some tx₀ ∧ tx₀.toContent = c₀ := by
    rintro _ rfl ⟨_, hget, -⟩
    rw [hcreates.new] at hget
    nomatch hget
  have htotal : env.totalWeight epoch = g.totalWeight := by
    unfold ExchangeEnv.totalWeight
    rw [hcreates.group]
    rfl
  constructor
  · intro htx
    by_contra hmajority
    have hcompleted := htx.completed_iff.mpr (by rw [hepoch, htotal, hpower]; omega)
    rw [hstatus] at hcompleted
    nomatch hcompleted
  · intro hbelow
    refine ⟨?_, ?_, ?_, ?_, ?_⟩
    · rw [hput.content, hput.sum hfirst, hnone, hpower, hepoch,
        weightOf_addrString hcreates.decoded hcreates.group hcreates.member]
      simp
    · exact keys_nodup _
    · rw [hstatus, hepoch, htotal, hpower]
      constructor
      · intro hcompleted
        nomatch hcompleted
      · intro hmajority
        omega
    · rw [hexecuted, hstatus, if_neg (by decide), count_eq_zero]
      intro hin
      exact hunknown _ hput.content (h.executed _ hin)
    · rw [hput.content]
      refine hput.confirmed_iff hfirst ?_
      intro v₀
      rw [hnone]
      constructor
      · intro hin
        nomatch hin
      · intro hin
        exact absurd (h.confirmed _ hin) (hunknown _ rfl)

theorem wrap64_lt (x : ℤ) : Rewards.wrap64 x < 2 ^ 63 := by
  unfold Rewards.wrap64
  have := Int.bmod_lt (x := x) (m := 2 ^ 64) (by decide)
  omega

theorem settled_voted_iff (hvotes : Votes env out msg st addr tx₀ g power) (h : Settled env st tx₀)
    (hput : Put st st' msg.proposed (env.addrString addr) tx)
    (hepoch : tx.epochIndex = tx₀.epochIndex)
    (hpower : tx.totalValidationPower = Rewards.wrap64 (tx₀.totalValidationPower + power))
    (hstatus : (requiredPower g.totalWeight ≤ tx.totalValidationPower ∧ tx₀.status = .pending ∧
        tx.status = .completed ∧ st'.executed = msg.proposed :: st.executed) ∨
      (¬ (requiredPower g.totalWeight ≤ tx.totalValidationPower ∧ tx₀.status = .pending) ∧
        tx.status = tx₀.status ∧ st'.executed = st.executed)) :
    Settled env st' tx ↔ tx₀.totalValidationPower + power < 2 ^ 63 := by
  have hsum : ((st'.validators msg.proposed).map (env.weightOf tx₀.epochIndex)).sum =
      tx₀.totalValidationPower + power := by
    rw [hput.sum hvotes.first, h.power, hvotes.same,
      weightOf_addrString hvotes.decoded hvotes.group hvotes.member, add_comm]
  constructor
  · intro htx
    rw [← hsum, ← hepoch, ← hput.content, ← htx.power, hpower]
    exact wrap64_lt _
  · intro hfits
    have hpos := memberPower_pos hvotes.group hvotes.member
    have hnonneg : 0 ≤ tx₀.totalValidationPower := by
      rw [h.power]
      refine sum_nonneg ?_
      intro w hw
      obtain ⟨_, -, rfl⟩ := mem_map.mp hw
      exact weightOf_nonneg _ _
    have hexact : tx.totalValidationPower = tx₀.totalValidationPower + power := by
      rw [hpower, Rewards.wrap64]
      exact Int.bmod_eq_of_le (by omega) (by omega)
    have hrequired := requiredPower_eq hvotes.group
    have hcount := h.executed
    have hiff := h.completed_iff
    rw [hvotes.same] at hcount
    refine ⟨?_, keys_nodup _, ?_, ?_, ?_⟩
    · rw [hput.content, hepoch, hsum, hexact]
    · rw [hepoch, ← hrequired]
      rcases hstatus with ⟨hreached, -, hcompleted, -⟩ | ⟨hopen, hkept, -⟩
      · exact iff_of_true hcompleted hreached
      rw [hkept]
      constructor
      · intro hcompleted
        have := hiff.mp hcompleted
        omega
      · intro hreached
        match hst : tx₀.status with
        | .completed => rfl
        | .pending => exact absurd ⟨hreached, hst⟩ hopen
    · rw [hput.content]
      rcases hstatus with ⟨-, hpending, hcompleted, hex⟩ | ⟨-, hkept, hex⟩
      · rw [hpending, if_neg (by decide)] at hcount
        rw [hex, hcompleted, if_pos rfl, count_cons_self, hcount]
      · rw [hex, hkept, hcount]
    · rw [hput.content]
      refine hput.confirmed_iff hvotes.first ?_
      intro v₀
      rw [← hvotes.same]
      exact h.confirmed v₀

/-- **What a successful message needs**, and that it keeps the maps in order. -/
theorem Exchanged.step (hx : Exchanged env out msg st st') {id : Bytes}
    (hok : bridgeExchange env out msg st = .ok (id, st')) (hs : Stored env st)
    (h : AllSettled env st) :
    Stored env st' ∧ (AllSettled env st' ↔ CountsSoundly env st (out, msg)) := by
  -- the condition is about the one way in which the message was validated
  have hcondition : ∀ {validated : ValidatedBridgeExchange},
      validateBridgeExchange env out msg st = .ok validated →
      (CountsSoundly env st (out, msg) ↔ match validated.existingTx with
        | none => validated.validatorPower < validated.totalEpochPower / 2 + 1
        | some tx => tx.totalValidationPower + validated.validatorPower < 2 ^ 63) := by
    intro validated hvalid
    constructor
    · intro hq
      exact hq validated id st' hvalid hok
    · intro hq validated' id' st'' hvalid' _
      have hsame : validated = validated' := Except.ok.inj (hvalid.symm.trans hvalid')
      exact hsame ▸ hq
  have hnew : ∀ {v : Bytes}, (st.validatorsAt msg.proposed.subKey).get? v = none →
      (∀ v₀, v₀ ∈ st.validators msg.proposed ↔ (msg.proposed, v₀) ∈ st.confirmed) →
      (msg.proposed, v) ∉ st.confirmed := by
    intro v hfirst hconfirmed hin
    obtain ⟨u, hu⟩ := mem_keys.mp ((hconfirmed v).mpr hin)
    rw [hfirst] at hu
    nomatch hu
  rcases hx with ⟨addr, epoch, g, power, hcreates⟩ | ⟨addr, tx, g, power, hvotes, hopen⟩ |
    ⟨addr, tx, g, power, b, hvotes, hreached, hpending⟩
  · have hput := put_store (env.addrString addr)
      ({ msg.proposed with epochIndex := epoch, totalValidationPower := power } : BridgeTransaction)
      rfl (fun tx₀ hget => absurd (hcreates.new.symm.trans hget) (by simp)) st.bridge st.executed
    refine ⟨hput.stored hs (by rw [show env.epochGroup _ = some g from hcreates.group]; rfl), ?_⟩
    rw [hcondition hcreates.validated]
    have hunconfirmed : (msg.proposed, env.addrString addr) ∉ st.confirmed := by
      intro hin
      obtain ⟨_, hget, -⟩ := h.confirmed _ hin
      exact absurd (hcreates.new.symm.trans hget) (by simp)
    exact (hput.settled hs h hunconfirmed (.inl rfl)).trans
      (settled_created_iff hcreates hs h hput rfl rfl rfl rfl)
  · have hput := put_store (env.addrString addr)
      { tx with
        toContent := msg.proposed
        totalValidationPower := Rewards.wrap64 (tx.totalValidationPower + power) }
      rfl (fun tx₀ hget => (some.inj (hvotes.stored.symm.trans hget)) ▸ hvotes.same)
      st.bridge st.executed
    have htx := h.settled _ tx hvotes.stored
    refine ⟨hput.stored hs (by rw [show env.epochGroup _ = some g from hvotes.group]; rfl), ?_⟩
    rw [hcondition hvotes.validated]
    exact (hput.settled hs h (hnew hvotes.first (hvotes.same ▸ htx.confirmed)) (.inl rfl)).trans
      (settled_voted_iff hvotes htx hput rfl rfl (.inr ⟨hopen, rfl, rfl⟩))
  · have hput := put_store (env.addrString addr)
      { tx with
        toContent := msg.proposed
        totalValidationPower := Rewards.wrap64 (tx.totalValidationPower + power)
        status := .completed }
      rfl (fun tx₀ hget => (some.inj (hvotes.stored.symm.trans hget)) ▸ hvotes.same)
      b (msg.proposed :: st.executed)
    have htx := h.settled _ tx hvotes.stored
    refine ⟨hput.stored hs (by rw [show env.epochGroup _ = some g from hvotes.group]; rfl), ?_⟩
    rw [hcondition hvotes.validated]
    exact (hput.settled hs h (hnew hvotes.first (hvotes.same ▸ htx.confirmed)) (.inr rfl)).trans
      (settled_voted_iff hvotes htx hput rfl rfl (.inl ⟨hreached, hpending, rfl, rfl⟩))

theorem Put.paid (hput : Put st st' c v tx) (h : Paid st)
    (hkept : ∀ tx₀, st.bridgeTransactionsMap.get? c.mapKey = some tx₀ → tx₀.status = .completed →
      tx.status = .completed ∧ st'.executed = st.executed)
    (hexecuted : st'.executed = st.executed ∨
      tx.status = .completed ∧ st'.executed = c :: st.executed) : Paid st' := by
  have hold : ∀ c₀ ∈ st.executed, ∃ tx, st'.bridgeTransactionsMap.get? c₀.mapKey = some tx ∧
      tx.toContent = c₀ ∧ tx.status = .completed := by
    intro c₀ hc₀
    obtain ⟨tx₀, hget, hcontent, hdone⟩ := h.completed c₀ hc₀
    rw [hput.transactions]
    split
    · next hk =>
      rw [hk] at hget
      refine ⟨tx, rfl, ?_, (hkept tx₀ hget hdone).1⟩
      rw [hput.content, ← hcontent, hput.replaced tx₀ hget]
    · exact ⟨tx₀, hget, hcontent, hdone⟩
  rcases hexecuted with hsame | ⟨hdone, hnew⟩
  · rw [← hsame] at hold
    exact ⟨hsame ▸ h.once, hold⟩
  · refine ⟨?_, fun c₀ hc₀ => ?_⟩
    · rw [hnew, List.map_cons, List.nodup_cons]
      refine ⟨fun hin => ?_, h.once⟩
      obtain ⟨c₀, hc₀, hk⟩ := List.mem_map.mp hin
      obtain ⟨tx₀, hget, -, hdone₀⟩ := h.completed c₀ hc₀
      have hlonger := (hkept tx₀ (hk ▸ hget) hdone₀).2
      rw [hnew] at hlonger
      exact List.cons_ne_self _ _ hlonger
    · rw [hnew] at hc₀
      rcases List.mem_cons.mp hc₀ with rfl | hc₀
      · exact ⟨tx, by rw [hput.transactions, if_pos rfl], hput.content, hdone⟩
      · exact hold c₀ hc₀

theorem Exchanged.paid (hx : Exchanged env out msg st st') (h : Paid st) : Paid st' := by
  rcases hx with ⟨addr, epoch, g, power, hcreates⟩ | ⟨addr, tx, g, power, hvotes, hopen⟩ |
    ⟨addr, tx, g, power, b, hvotes, hreached, hpending⟩
  · have hnone : ∀ {p : BridgeTransaction → Prop}, ∀ tx₀, st.bridgeTransactionsMap.get? msg.proposed.mapKey = some tx₀ → p tx₀ :=
      fun tx₀ hget => absurd (hcreates.new.symm.trans hget) (by simp)
    exact (put_store (env.addrString addr) _ rfl hnone st.bridge st.executed).paid h hnone (.inl rfl)
  · refine (put_store (env.addrString addr) _ rfl
      (fun tx₀ hget => (Option.some.inj (hvotes.stored.symm.trans hget)) ▸ hvotes.same)
      st.bridge st.executed).paid h (fun tx₀ hget hdone => ?_) (.inl rfl)
    exact ⟨(Option.some.inj (hvotes.stored.symm.trans hget)) ▸ hdone, rfl⟩
  · refine (put_store (env.addrString addr) _ rfl
      (fun tx₀ hget => (Option.some.inj (hvotes.stored.symm.trans hget)) ▸ hvotes.same)
      b _).paid h (fun tx₀ hget hdone => ?_) (.inr ⟨rfl, rfl⟩)
    rw [← Option.some.inj (hvotes.stored.symm.trans hget), hpending] at hdone
    nomatch hdone

end

/-- **When deposits take effect as they should.**  In any run of messages, from any state of the
bridge: every transaction is settled all the time, exactly when no message creates a transaction
with a validator that has the majority alone, and no sum of powers leaves its type. -/
theorem deposits_settled_iff (env : ExchangeEnv) (b : State)
    (messages : List (ExchangeOutside × MsgBridgeExchange)) :
    Along.Throughout (exchangeStep env) (AllSettled env) messages { bridge := b } ↔
      Along.EachStep (exchangeStep env) (CountsSoundly env) messages { bridge := b } := by
  have hstep : ∀ st m, Stored env st → AllSettled env st →
      Stored env (exchangeStep env m st) ∧
        (AllSettled env (exchangeStep env m st) ↔ CountsSoundly env st m) := by
    rintro st ⟨out, msg⟩ hs h
    unfold exchangeStep
    match hok : bridgeExchange env out msg st with
    | .error e =>
      refine ⟨hs, iff_of_true h ?_⟩
      intro validated id st' _ hok'
      rw [show bridgeExchange env out msg st = .error e from hok] at hok'
      nomatch hok'
    | .ok (id, st') => exact (bridgeExchange_spec hok).step hok hs h
  have hstored : Stored env { bridge := b } :=
    ⟨fun _ _ hget => (nomatch hget), fun _ _ hget => (nomatch hget), fun _ hget => (nomatch hget)⟩
  have hsettled : AllSettled env { bridge := b } :=
    ⟨fun _ _ hget => (nomatch hget), fun _ hin => (nomatch hin), fun _ hin => (nomatch hin),
      List.nodup_nil⟩
  refine Along.throughout_iff_eachStep (I := fun st => Stored env st ∧ AllSettled env st) ?_ ?_
    ⟨hstored, hsettled⟩ hsettled
  · rintro st m ⟨hs, h⟩ hnext
    exact ⟨(hstep st m hs h).1, hnext⟩
  · rintro st m ⟨hs, -⟩ h
    exact (hstep st m hs h).2

/-- **No deposit is paid out twice**, whatever the validators report and in whatever order. -/
theorem deposits_paid_once (env : ExchangeEnv) (b : State)
    (messages : List (ExchangeOutside × MsgBridgeExchange)) :
    Paid (Along.run (exchangeStep env) messages { bridge := b }) := by
  refine Along.run_invariant (fun st m h => ?_) ⟨List.nodup_nil, fun _ hc => (nomatch hc)⟩ messages
  unfold exchangeStep
  match hok : bridgeExchange env m.1 m.2 st with
  | .error _ => exact h
  | .ok (_, _) => exact (bridgeExchange_spec hok).paid h

def sampleExchangeEnv : ExchangeEnv where
  bridge := sampleEnv
  addrString a := a
  addrString_decodes _ _ _ := rfl
  parseInt
    | [w] => if w = 0 then none else some (w.toNat : ℤ)
    | _ => none
  isInt _ := true
  epochGroup _ := some ⟨[some ⟨[1], [10]⟩], 10, by decide⟩
  weight_pos := by
    intro _ _ _ m _ w hw
    match hm : m.weight with
    | [] => simp [hm] at hw
    | [n] =>
      simp only [hm] at hw
      split at hw
      · nomatch hw
      next hn =>
      obtain rfl := Option.some.inj hw
      have : n.toNat ≠ 0 := fun h => hn (UInt8.toNat_inj.mp h)
      omega
    | _ :: _ :: _ => simp [hm] at hw

def sampleExchangeOutside : ExchangeOutside where
  effectiveEpochIndex := some 1
  activeParticipantsSet _ _ := true
  isBridgeContractAddress _ _ := false
  getOrCreateWrappedTokenContract _ _ := some [7]
  mint _ _ _ := true

def sampleDeposit : MsgBridgeExchange := ⟨[1], [8], [3], [4], [5], [6], [0], []⟩

/-- **The majority that is not seen**: the power of the only validator is the whole weight, the
deposit stays pending and is not paid out, and the validator cannot confirm it again. -/
theorem majority_holder_stays_pending :
    let st := exchangeStep sampleExchangeEnv (sampleExchangeOutside, sampleDeposit) {}
    (st.bridgeTransactionsMap.get? sampleDeposit.proposed.mapKey).map
        (fun tx => (tx.status, tx.totalValidationPower, tx.epochIndex)) = some (.pending, 10, 1) ∧
      sampleExchangeEnv.totalWeight 1 / 2 + 1 = 6 ∧ ¬ AllSettled sampleExchangeEnv st ∧
      (match bridgeExchange sampleExchangeEnv sampleExchangeOutside sampleDeposit st with
        | .error e => some e
        | .ok _ => none) = some .bridgeAlreadyValidated := by
  intro st
  have htx : (st.bridgeTransactionsMap.get? sampleDeposit.proposed.mapKey).map
      (fun tx => (tx.status, tx.totalValidationPower, tx.epochIndex)) = some (.pending, 10, 1) := by
    decide +kernel
  refine ⟨htx, by decide, ?_, by decide +kernel⟩
  intro hall
  obtain ⟨tx, hget, heq⟩ := Option.map_eq_some_iff.mp htx
  obtain ⟨hstatus, hrest⟩ := Prod.mk.inj heq
  obtain ⟨hpower, hepoch⟩ := Prod.mk.inj hrest
  have hcompleted := (hall.settled _ tx hget).completed_iff.mpr (by
    rw [hpower, hepoch]
    decide)
  rw [hstatus] at hcompleted
  nomatch hcompleted

end Bridge
