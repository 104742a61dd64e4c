/-
Bridge deposits: the confirmations of `BridgeExchange`.

Validators report the receipts of another chain.  The first report of a content stores a
pending transaction, bound to the epoch of that report; the next ones add the weight of their
validator in that epoch's group, until a majority is reached and the coins are released or the
wrapped tokens minted.  Transactions are found by a key that is made of the chain, the block and
a truncated hash of the content; the confirming validators stand in a set of their own, under
the chain, the block and the last part of that key.

The groups of the epochs are fixed and their weights positive.  `executed` and `confirmed` are
no part of the state: they record which contents were paid out, and which messages succeeded.

* `validateBridgeExchange_spec`, **`bridgeExchange_spec`** — what a successful message does.
-/
import Gonka.Bridge.Operations
import Gonka.Chain.Rewards
import Gonka.Lib.Sha256

namespace Bridge

open ThresholdSigning (Address)

structure MsgBridgeExchange where
  validator : Bytes
  originChain : Bytes
  contractAddress : Bytes
  ownerAddress : Bytes
  amount : Bytes
  blockNumber : Bytes
  receiptIndex : Bytes
  receiptsRoot : Bytes
  deriving DecidableEq

/-- What validators report: the fields that `bridgeTransactionsEqual` compares. -/
structure Content where
  chainId : Bytes
  contractAddress : Bytes
  ownerAddress : Bytes
  amount : Bytes
  blockNumber : Bytes
  receiptIndex : Bytes
  receiptsRoot : Bytes
  deriving DecidableEq

inductive BridgeTransactionStatus where
  | pending
  | completed
  deriving DecidableEq

structure BridgeTransaction extends Content where
  id : Bytes := []
  status : BridgeTransactionStatus := .pending
  epochIndex : ℕ := 0
  /-- an `int64` -/
  totalValidationPower : ℤ := 0
  deriving DecidableEq

def bridgeTransactionsEqual (tx1 tx2 : BridgeTransaction) : Bool := tx1.toContent = tx2.toContent

def Content.contentData (tx : Content) : Bytes :=
  tx.chainId ++ 124 :: tx.blockNumber ++ 124 :: tx.receiptIndex ++ 124 :: tx.contractAddress ++
    124 :: tx.ownerAddress ++ 124 :: tx.amount ++ 124 :: tx.receiptsRoot

def Content.hashDigits (tx : Content) : Bytes := ((sha256 tx.contentData).take 12).flatMap hexByte

/-- `generateSecureBridgeTransactionKey`: "%s_%s_%x". -/
def generateSecureBridgeTransactionKey (tx : Content) : Bytes :=
  tx.chainId ++ 95 :: (tx.blockNumber ++ 95 :: tx.hashDigits)

def cut : Bytes → Option (Bytes × Bytes)
  | [] => none
  | c :: rest => if c = 95 then some ([], rest) else (cut rest).map fun p => (c :: p.1, p.2)

/-- `strings.SplitN(key, "_", 3)`, when there are three parts. -/
def splitN (key : Bytes) : Option (Bytes × Bytes × Bytes) := do
  let (first, rest) ← cut key
  let (second, third) ← cut rest
  some (first, second, third)

abbrev Key := Bytes ×ₗ Bytes ×ₗ Bytes

def key (a b c : Bytes) : Key := toLex (a, toLex (b, c))

/-- `buildBridgeTransactionKey`: the key, the id and the part of the key with the hash. -/
def buildBridgeTransactionKey (tx : Content) : Option (Key × Bytes × Bytes) :=
  (splitN (generateSecureBridgeTransactionKey tx)).map fun (a, b, c) =>
    (key a b c, generateSecureBridgeTransactionKey tx, c)

structure GroupMember where
  address : Bytes
  weight : Bytes

/-- The root group of an epoch; a member may be missing. -/
structure EpochGroup where
  members : List (Option GroupMember)
  totalWeight : ℤ
  totalWeight_nonneg : 0 ≤ totalWeight

/-- `memberPowerInGroup`: the first member with this address whose weight can be read. -/
def memberPowerInGroup (accAddressFromBech32 : Bytes → Option Address)
    (parseInt : Bytes → Option ℤ) (addr : Address) : List (Option GroupMember) → Option ℤ
  | [] => none
  | none :: members => memberPowerInGroup accAddressFromBech32 parseInt addr members
  | some member :: members =>
    if accAddressFromBech32 member.address = some addr then
      match parseInt member.weight with
      | some weight => some weight
      | none => memberPowerInGroup accAddressFromBech32 parseInt addr members
    else memberPowerInGroup accAddressFromBech32 parseInt addr members

structure ExchangeEnv where
  bridge : Env
  /-- `AccAddress.String` -/
  addrString : Address → Bytes
  addrString_decodes : ∀ text a, bridge.accAddressFromBech32 text = some a →
    bridge.accAddressFromBech32 (addrString a) = some a
  /-- `strconv.ParseInt(_, 10, 64)` -/
  parseInt : Bytes → Option ℤ
  /-- `big.Int.SetString(_, 10)` works -/
  isInt : Bytes → Bool
  /-- the root group of an epoch, with its members -/
  epochGroup : ℕ → Option EpochGroup
  weight_pos : ∀ epoch g, epochGroup epoch = some g → ∀ m, some m ∈ g.members →
    ∀ w, parseInt m.weight = some w → 0 < w

/-- What other modules answer while one message is worked on. -/
structure ExchangeOutside where
  effectiveEpochIndex : Option ℕ
  activeParticipantsSet : ℕ → Address → Bool
  isBridgeContractAddress : Bytes → Bytes → Bool
  getOrCreateWrappedTokenContract : Bytes → Bytes → Option Bytes
  /-- the call of the contract works -/
  mint : Bytes → Bytes → Bytes → Bool

structure ExchangeState where
  bridgeTransactionsMap : OrdMap Key BridgeTransaction := ∅
  /-- by chain, block and the part of the key with the hash -/
  bridgeTransactionValidators : OrdMap Key (OrdMap Bytes Unit) := ∅
  bridge : State := {}
  executed : List Content := []
  confirmed : List (Content × Bytes) := []

/-- `SetBridgeTransaction`, with the id that the caller then sees; an error is only logged. -/
def setBridgeTransaction (tx : BridgeTransaction) (st : ExchangeState) :
    Bytes × ExchangeState :=
  match buildBridgeTransactionKey tx.toContent with
  | none => (tx.id, st)
  | some (k, id, _) =>
    (id, { st with bridgeTransactionsMap := st.bridgeTransactionsMap.insert k { tx with id := id } })

def ExchangeState.validatorsAt (st : ExchangeState) (k : Key) : OrdMap Bytes Unit :=
  (st.bridgeTransactionValidators.get? k).getD ∅

/-- `AddBridgeTransactionValidator`, on record. -/
def addBridgeTransactionValidator (tx : Content) (validator : Bytes) (st : ExchangeState) :
    Option ExchangeState :=
  (buildBridgeTransactionKey tx).map fun (_, _, contentHashPart) =>
    let k := key tx.chainId tx.blockNumber contentHashPart
    { st with
      bridgeTransactionValidators :=
        st.bridgeTransactionValidators.insert k ((st.validatorsAt k).insert validator ())
      confirmed := (tx, validator) :: st.confirmed }

def hasBridgeTransactionValidator (tx : Content) (validator : Bytes) (st : ExchangeState) :
    Option Bool :=
  (buildBridgeTransactionKey tx).map fun (_, _, contentHashPart) =>
    ((st.validatorsAt (key tx.chainId tx.blockNumber contentHashPart)).get? validator).isSome

def getBridgeTransactionByContent (tx : Content) (st : ExchangeState) : Option BridgeTransaction := do
  let (k, _, _) ← buildBridgeTransactionKey tx
  st.bridgeTransactionsMap.get? k

inductive ExchangeError where
  | permission
  | invalidValidatorAddress
  | activeParticipantNotFound
  | invalidAmount
  | bridgeContentMismatch
  | noEpochGroup
  | bridgeValidatorNotInTxEpochGroup
  | bridgeAlreadyValidated
  | bridgeValidatorNotInActiveGroup
  | recordValidator
  | completion
  deriving DecidableEq

section

variable (env : ExchangeEnv) (out : ExchangeOutside)

def requireActiveParticipantAtOffset (addr : Address) (epochOffset : ℕ) : Bool :=
  match out.effectiveEpochIndex with
  | none => false
  | some currentEpoch =>
    decide (epochOffset ≤ currentEpoch) && out.activeParticipantsSet (currentEpoch - epochOffset) addr

/-- `CheckPermission` for participants that are active now or were in the last epoch. -/
def checkPermission (signer : Bytes) : Bool :=
  match env.bridge.accAddressFromBech32 signer with
  | none => false
  | some addr =>
    requireActiveParticipantAtOffset out addr 0 || requireActiveParticipantAtOffset out addr 1

def requireActiveOrPreviousActiveParticipant (addr : Address) : Bool :=
  match out.effectiveEpochIndex with
  | none => false
  | some currentEpoch =>
    out.activeParticipantsSet currentEpoch addr ||
      (decide (1 ≤ currentEpoch) && out.activeParticipantsSet (currentEpoch - 1) addr)

def MsgBridgeExchange.proposed (msg : MsgBridgeExchange) : Content where
  chainId := msg.originChain
  contractAddress := lower msg.contractAddress
  ownerAddress := msg.ownerAddress
  amount := msg.amount
  blockNumber := msg.blockNumber
  receiptIndex := msg.receiptIndex
  receiptsRoot := msg.receiptsRoot

/-- `ValidatedBridgeExchange`; there is no existing transaction exactly when one is created. -/
structure ValidatedBridgeExchange where
  validatorAddress : Address
  proposedTx : Content
  existingTx : Option BridgeTransaction
  validatorPower : ℤ
  totalEpochPower : ℤ
  epochIndex : ℕ

def memberPower (addr : Address) (g : EpochGroup) : Option ℤ :=
  memberPowerInGroup env.bridge.accAddressFromBech32 env.parseInt addr g.members

def validateBridgeExchange (msg : MsgBridgeExchange) (st : ExchangeState) :
    Except ExchangeError ValidatedBridgeExchange :=
  match env.bridge.accAddressFromBech32 msg.validator with
  | none => .error .invalidValidatorAddress
  | some addr =>
    if !requireActiveOrPreviousActiveParticipant out addr then .error .activeParticipantNotFound
    else if !env.isInt msg.amount then .error .invalidAmount
    else match getBridgeTransactionByContent msg.proposed st with
      | some existingTx =>
        if !bridgeTransactionsEqual existingTx { msg.proposed with } then .error .bridgeContentMismatch
        else match env.epochGroup existingTx.epochIndex with
          | none => .error .noEpochGroup
          | some g =>
            match memberPower env addr g with
            | none => .error .bridgeValidatorNotInTxEpochGroup
            | some validatorPower =>
              match hasBridgeTransactionValidator existingTx.toContent (env.addrString addr) st with
              | none => .error .recordValidator
              | some true => .error .bridgeAlreadyValidated
              | some false =>
                .ok ⟨addr, msg.proposed, some existingTx, validatorPower, g.totalWeight,
                  existingTx.epochIndex⟩
      | none =>
        match out.effectiveEpochIndex with
        | none => .error .noEpochGroup
        | some epoch =>
          match env.epochGroup epoch with
          | none => .error .noEpochGroup
          | some g =>
            match memberPower env addr g with
            | none => .error .bridgeValidatorNotInActiveGroup
            | some validatorPower =>
              .ok ⟨addr, msg.proposed, none, validatorPower, g.totalWeight, epoch⟩

/-- `handleCompletedBridgeTransaction`, with `MintTokens`. -/
def handleCompletedBridgeTransaction (tx : BridgeTransaction) (b : State) : Option State :=
  if out.isBridgeContractAddress tx.chainId tx.contractAddress then
    handleNativeTokenRelease env.bridge tx.ownerAddress tx.amount b
  else do
    let contract ← out.getOrCreateWrappedTokenContract tx.chainId tx.contractAddress
    let _ ← env.bridge.accAddressFromBech32 tx.ownerAddress
    if out.mint contract tx.ownerAddress tx.amount then some b else none

def requiredPower (totalEpochPower : ℤ) : ℤ := totalEpochPower.tdiv 2 + 1

def bridgeExchange (msg : MsgBridgeExchange) (st : ExchangeState) :
    Except ExchangeError (Bytes × ExchangeState) :=
  if !checkPermission env out msg.validator then .error .permission
  else match validateBridgeExchange env out msg st with
    | .error e => .error e
    | .ok validated =>
      let validator := env.addrString validated.validatorAddress
      match validated.existingTx with
      | some existingTx =>
        match addBridgeTransactionValidator existingTx.toContent validator st with
        | none => .error .recordValidator
        | some st =>
          let tx := { existingTx with
            totalValidationPower :=
              Rewards.wrap64 (existingTx.totalValidationPower + validated.validatorPower) }
          if requiredPower validated.totalEpochPower ≤ tx.totalValidationPower ∧
              tx.status = .pending then
            -- the first time that the majority is there
            let tx := { tx with status := .completed }
            let (id, st) := setBridgeTransaction tx st
            match handleCompletedBridgeTransaction env out tx st.bridge with
            | none => .error .completion
            | some b => .ok (id, { st with bridge := b, executed := tx.toContent :: st.executed })
          else .ok (setBridgeTransaction tx st)
      | none =>
        match addBridgeTransactionValidator validated.proposedTx validator st with
        | none => .error .recordValidator
        | some st =>
          .ok (setBridgeTransaction { validated.proposedTx with
            epochIndex := validated.epochIndex
            totalValidationPower := validated.validatorPower } st)

def exchangeStep (m : ExchangeOutside × MsgBridgeExchange) (st : ExchangeState) : ExchangeState :=
  match bridgeExchange env m.1 m.2 st with
  | .error _ => st
  | .ok (_, st) => st

end

theorem cut_append (a rest : Bytes) :
    ∃ before after, cut (a ++ 95 :: rest) = some (before, after ++ rest) := by
  induction a with
  | nil => exact ⟨[], [], by simp [cut]⟩
  | cons c a ih =>
    obtain ⟨before, after, hcut⟩ := ih
    by_cases hc : c = 95
    · refine ⟨[], a ++ [95], ?_⟩
      simp [cut, hc]
    · refine ⟨c :: before, after, ?_⟩
      simp [cut, hc, hcut]

theorem splitN_append (a b c : Bytes) :
    ∃ first second before, splitN (a ++ 95 :: (b ++ 95 :: c)) = some (first, second, before ++ c) := by
  obtain ⟨first, after, hcut⟩ := cut_append a (b ++ 95 :: c)
  have hrest : after ++ (b ++ 95 :: c) = (after ++ b) ++ 95 :: c := by rw [List.append_assoc]
  obtain ⟨second, before, hcut'⟩ := cut_append (after ++ b) c
  refine ⟨first, second, before, ?_⟩
  unfold splitN
  rw [hcut, hrest]
  simp only [Option.bind_eq_bind, Option.bind_some, hcut']

theorem length_hashDigits (tx : Content) : tx.hashDigits.length = 24 := by
  unfold Content.hashDigits
  rfl

theorem build_some (tx : Content) : ∃ a b before, buildBridgeTransactionKey tx =
      some (key a b (before ++ tx.hashDigits), generateSecureBridgeTransactionKey tx,
        before ++ tx.hashDigits) := by
  obtain ⟨a, b, before, hsplit⟩ := splitN_append tx.chainId tx.blockNumber tx.hashDigits
  refine ⟨a, b, before, ?_⟩
  unfold buildBridgeTransactionKey generateSecureBridgeTransactionKey
  rw [hsplit]
  rfl

def Content.subKey (tx : Content) : Key :=
  key tx.chainId tx.blockNumber (((buildBridgeTransactionKey tx).map (·.2.2)).getD [])

def Content.mapKey (tx : Content) : Key :=
  ((buildBridgeTransactionKey tx).map (·.1)).getD (key [] [] [])

theorem subKey_inj {tx tx' : Content} (h : tx.subKey = tx'.subKey) : tx.mapKey = tx'.mapKey := by
  obtain ⟨_, _, _, hbuild⟩ := build_some tx
  obtain ⟨_, _, _, hbuild'⟩ := build_some tx'
  simp only [Content.subKey, hbuild, hbuild', Option.map_some, Option.getD_some, key] at h
  obtain ⟨hchain, hrest⟩ := Prod.mk.inj (toLex.injective h)
  obtain ⟨hblock, hpart⟩ := Prod.mk.inj (toLex.injective hrest)
  -- the digits are the last 24 characters of the part
  have hdigits : tx.hashDigits = tx'.hashDigits :=
    (List.append_inj' hpart (by rw [length_hashDigits, length_hashDigits])).2
  have hkey : generateSecureBridgeTransactionKey tx = generateSecureBridgeTransactionKey tx' := by
    unfold generateSecureBridgeTransactionKey
    rw [hchain, hblock, hdigits]
  unfold Content.mapKey buildBridgeTransactionKey
  rw [hkey]

theorem build_eq (tx : Content) : ∃ part, buildBridgeTransactionKey tx =
    some (tx.mapKey, generateSecureBridgeTransactionKey tx, part) ∧
      tx.subKey = key tx.chainId tx.blockNumber part := by
  obtain ⟨a, b, before, hbuild⟩ := build_some tx
  refine ⟨before ++ tx.hashDigits, ?_, ?_⟩
  · rw [hbuild, Content.mapKey, hbuild]
    rfl
  · rw [Content.subKey, hbuild]
    rfl

/-! ### What a message does -/

def ExchangeState.confirm (st : ExchangeState) (tx : Content) (validator : Bytes) : ExchangeState :=
  { st with
    bridgeTransactionValidators :=
      st.bridgeTransactionValidators.insert tx.subKey ((st.validatorsAt tx.subKey).insert validator ())
    confirmed := (tx, validator) :: st.confirmed }

def ExchangeState.store (st : ExchangeState) (tx : BridgeTransaction) : ExchangeState :=
  { st with
    bridgeTransactionsMap := st.bridgeTransactionsMap.insert tx.toContent.mapKey
      { tx with id := generateSecureBridgeTransactionKey tx.toContent } }

theorem addBridgeTransactionValidator_eq (tx : Content) (validator : Bytes) (st : ExchangeState) :
    addBridgeTransactionValidator tx validator st = some (st.confirm tx validator) := by
  obtain ⟨_, hbuild, hsub⟩ := build_eq tx
  unfold addBridgeTransactionValidator ExchangeState.confirm
  rw [hbuild, hsub]
  rfl

theorem hasBridgeTransactionValidator_eq (tx : Content) (validator : Bytes) (st : ExchangeState) :
    hasBridgeTransactionValidator tx validator st =
      some ((st.validatorsAt tx.subKey).get? validator).isSome := by
  obtain ⟨_, hbuild, hsub⟩ := build_eq tx
  unfold hasBridgeTransactionValidator
  rw [hbuild, hsub]
  rfl

theorem setBridgeTransaction_eq (tx : BridgeTransaction) (st : ExchangeState) :
    setBridgeTransaction tx st = (generateSecureBridgeTransactionKey tx.toContent, st.store tx) := by
  obtain ⟨_, hbuild, -⟩ := build_eq tx.toContent
  unfold setBridgeTransaction
  rw [hbuild]
  rfl

theorem getBridgeTransactionByContent_eq (tx : Content) (st : ExchangeState) :
    getBridgeTransactionByContent tx st = st.bridgeTransactionsMap.get? tx.mapKey := by
  obtain ⟨_, hbuild, -⟩ := build_eq tx
  unfold getBridgeTransactionByContent
  rw [hbuild]
  rfl

section

variable (env : ExchangeEnv) (out : ExchangeOutside) (msg : MsgBridgeExchange) (st : ExchangeState)

/-- The message adds the power of a member of the transaction's group that has not confirmed it
yet. -/
structure Votes (addr : Address) (tx : BridgeTransaction) (g : EpochGroup) (power : ℤ) : Prop where
  validated : validateBridgeExchange env out msg st =
    .ok ⟨addr, msg.proposed, some tx, power, g.totalWeight, tx.epochIndex⟩
  decoded : env.bridge.accAddressFromBech32 msg.validator = some addr
  stored : st.bridgeTransactionsMap.get? msg.proposed.mapKey = some tx
  same : tx.toContent = msg.proposed
  group : env.epochGroup tx.epochIndex = some g
  member : memberPower env addr g = some power
  first : (st.validatorsAt msg.proposed.subKey).get? (env.addrString addr) = none

/-- The message is the first one of its content. -/
structure Creates (addr : Address) (epoch : ℕ) (g : EpochGroup) (power : ℤ) : Prop where
  validated : validateBridgeExchange env out msg st =
    .ok ⟨addr, msg.proposed, none, power, g.totalWeight, epoch⟩
  decoded : env.bridge.accAddressFromBech32 msg.validator = some addr
  new : st.bridgeTransactionsMap.get? msg.proposed.mapKey = none
  group : env.epochGroup epoch = some g
  member : memberPower env addr g = some power

variable {env out msg st}

theorem validateBridgeExchange_spec {validated : ValidatedBridgeExchange}
    (h : validateBridgeExchange env out msg st = .ok validated) :
    (∃ addr tx g power, Votes env out msg st addr tx g power ∧
      validated = ⟨addr, msg.proposed, some tx, power, g.totalWeight, tx.epochIndex⟩) ∨
    ∃ addr epoch g power, Creates env out msg st addr epoch g power ∧
      validated = ⟨addr, msg.proposed, none, power, g.totalWeight, epoch⟩ := by
  have hvalid := h
  unfold validateBridgeExchange at h
  split at h
  · nomatch h
  next addr haddr =>
  split at h
  · nomatch h
  split at h
  · nomatch h
  split at h
  · next tx hget =>
    rw [getBridgeTransactionByContent_eq] at hget
    split at h
    · nomatch h
    next hsame =>
    have hsame : tx.toContent = msg.proposed := by
      simpa [bridgeTransactionsEqual] using hsame
    split at h
    · nomatch h
    next g hgroup =>
    split at h
    · nomatch h
    next power hmember =>
    rw [hasBridgeTransactionValidator_eq] at h
    split at h
    · nomatch h
    · nomatch h
    next hfirst =>
    cases h
    refine .inl ⟨addr, tx, g, power, ⟨hvalid, haddr, hget, hsame, hgroup, hmember, ?_⟩, rfl⟩
    rw [← hsame]
    simpa using hfirst
  · next hnew =>
    rw [getBridgeTransactionByContent_eq] at hnew
    split at h
    · nomatch h
    next epoch _ =>
    split at h
    · nomatch h
    next g hgroup =>
    split at h
    · nomatch h
    · next power hmember =>
      cases h
      exact .inr ⟨addr, epoch, g, power, ⟨hvalid, haddr, hnew, hgroup, hmember⟩, rfl⟩

variable (env out msg st)

inductive Exchanged : ExchangeState → Prop
  | created (addr : Address) (epoch : ℕ) (g : EpochGroup) (power : ℤ)
      (h : Creates env out msg st addr epoch g power) :
      Exchanged ((st.confirm msg.proposed (env.addrString addr)).store
        { msg.proposed with epochIndex := epoch, totalValidationPower := power })
  | voted (addr : Address) (tx : BridgeTransaction) (g : EpochGroup) (power : ℤ)
      (h : Votes env out msg st addr tx g power)
      (hopen : ¬ (requiredPower g.totalWeight ≤ Rewards.wrap64 (tx.totalValidationPower + power) ∧
        tx.status = .pending)) :
      Exchanged ((st.confirm msg.proposed (env.addrString addr)).store
        { tx with
          toContent := msg.proposed
          totalValidationPower := Rewards.wrap64 (tx.totalValidationPower + power) })
  | completed (addr : Address) (tx : BridgeTransaction) (g : EpochGroup) (power : ℤ) (b : State)
      (h : Votes env out msg st addr tx g power)
      (hreached : requiredPower g.totalWeight ≤ Rewards.wrap64 (tx.totalValidationPower + power))
      (hpending : tx.status = .pending) :
      Exchanged { (st.confirm msg.proposed (env.addrString addr)).store
        { tx with
          toContent := msg.proposed
          totalValidationPower := Rewards.wrap64 (tx.totalValidationPower + power)
          status := .completed } with
        bridge := b
        executed := msg.proposed :: st.executed }

variable {env out msg st}

/-- **A message that succeeds creates, votes or completes.** -/
theorem bridgeExchange_spec {id : Bytes} {st' : ExchangeState}
    (h : bridgeExchange env out msg st = .ok (id, st')) : Exchanged env out msg st st' := by
  unfold bridgeExchange at h
  split at h
  · nomatch h
  split at h
  · nomatch h
  next hvalid =>
  rcases validateBridgeExchange_spec hvalid with ⟨addr, tx, g, power, hvotes, rfl⟩ |
    ⟨addr, epoch, g, power, hcreates, rfl⟩
  · simp only [addBridgeTransactionValidator_eq, setBridgeTransaction_eq, hvotes.same] at h
    split at h
    · next hreached =>
      split at h
      · nomatch h
      · next b _ =>
        obtain ⟨-, rfl⟩ := Prod.mk.inj (Except.ok.inj h)
        exact .completed addr tx g power b hvotes hreached.1 hreached.2
    · next hopen =>
      obtain ⟨-, rfl⟩ := Prod.mk.inj (Except.ok.inj h)
      exact .voted addr tx g power hvotes hopen
  · simp only [addBridgeTransactionValidator_eq, setBridgeTransaction_eq] at h
    obtain ⟨-, rfl⟩ := Prod.mk.inj (Except.ok.inj h)
    exact .created addr epoch g power hcreates

end

end Bridge
