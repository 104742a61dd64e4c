/-
Bridge operations: mints and withdrawals, their refunds, and the escrow of native coins.

A mint takes native coins from its creator into the escrow and asks the BLS module for a
signature with which the coins can be minted on the other chain; a withdrawal asks for one
after the wrapped tokens were burnt.  Until the signature is there, the message is kept for a
refund.  The hooks of the BLS module drop it when the request is completed, and refund it when
the request failed; the user and governance may cancel a request that ended without either.
Native coins leave the escrow also when the wrapped ones are burnt on the other chain.

`Outside` is what other modules answer while one message or block is worked on, which may
be different each time; `hookFault` makes a hook fail.  `mints`, `refunded`, `released` and
`paidToEscrow` are no part of the state: they record what happened.
-/
import Gonka.Lib.Bank
import Gonka.Bls.ThresholdSigning

namespace Bridge

open ThresholdSigning (RequestId Address World Hooks SigningData)

def mintChainIdMapping : String → Option String
  | "ethereum" => some "1"
  | "sepolia" => some "11155111"
  | "polygon" => some "137"
  | "mumbai" => some "80001"
  | "arbitrum" => some "42161"
  | _ => none

/-- `chainIdMapping`, which has one chain more. -/
def chainIdMapping : String → Option String
  | "optimism" => some "10"
  | chain => mintChainIdMapping chain

structure MsgRequestBridgeMint where
  creator : Bytes
  amount : Bytes
  destinationAddress : Bytes
  chainId : String
  destinationBridgeAddress : Bytes
  deriving DecidableEq

structure MsgRequestBridgeWithdrawal where
  creator : Bytes
  userAddress : Bytes
  amount : Bytes
  destinationAddress : Bytes
  destinationBridgeAddress : Bytes
  deriving DecidableEq

structure BridgeTokenReference where
  chainId : String
  contractAddress : Bytes
  deriving DecidableEq

def lower (text : Bytes) : Bytes := text.map fun c => if 65 ≤ c ∧ c ≤ 90 then c + 32 else c

/-- The references are equal up to case, as `strings.EqualFold` compares them. -/
def BridgeTokenReference.equalFold (r r' : BridgeTokenReference) : Bool :=
  r.chainId.toLower == r'.chainId.toLower && lower r.contractAddress == lower r'.contractAddress

structure Env where
  signing : ThresholdSigning.Env
  keccak256_length : ∀ b, (signing.crypto.keccak256 b).length = 32
  /-- SHA-256 of the id of this chain -/
  gonkaChainIdHash : Bytes
  /-- the module account of the escrow -/
  escrow : Address
  /-- module accounts that may not receive coins -/
  blockedAddr : Address → Bool
  accAddressFromBech32 : Bytes → Option Address
  newIntFromString : Bytes → Option ℤ
  prepareBridgeMintSignatureData : String → Bytes → Bytes → Bytes → Option (List Bytes)
  prepareBridgeWithdrawalSignatureData :
    String → Bytes → Bytes → Bytes → Bytes → Option (List Bytes)

structure Outside where
  currentEpochGroup : Option ℕ
  /-- `GetBridgeContractAddressesByChain` has an entry -/
  hasBridgeAddresses : String → Bool
  isBridgeContractAddress : String → Bytes → Bool
  /-- `GetWrappedTokenContractByWrappedAddress` -/
  wrappedTokenByWrappedAddress : Bytes → Option BridgeTokenReference
  /-- `WrappedContractReverseIndex`, of the address in lower case -/
  wrappedContractReverseIndex : Bytes → Option BridgeTokenReference
  /-- `GetWrappedTokenContract`: the address of the wrapped contract -/
  wrappedTokenContract : BridgeTokenReference → Option Bytes
  /-- `MintTokens` of the wrapped contract works -/
  mintTokens : Bytes → Address → Bytes → Bool
  hookFault : RequestId → Bool

/-- A mint, on record: who paid what, and what was paid back to whom. -/
structure Mint where
  account : Address
  amount : ℕ
  refunds : List (Address × ℕ) := []
  deriving DecidableEq

structure State where
  mintRefunds : OrdMap RequestId MsgRequestBridgeMint := ∅
  withdrawalRefunds : OrdMap RequestId MsgRequestBridgeWithdrawal := ∅
  withdrawalTokenRefs : OrdMap RequestId BridgeTokenReference := ∅
  balances : OrdMap Address ℕ := ∅
  mints : OrdMap RequestId Mint := ∅
  refunded : List RequestId := []
  released : ℕ := 0
  paidToEscrow : ℕ := 0

section

variable (env : Env) (out : Outside)

/-- `ReleaseFromEscrow`: `SendCoinsFromModuleToAccount`. -/
def releaseFromEscrow (recipient : Address) (amount : ℕ) (b : State) : Option State :=
  if env.blockedAddr recipient then none
  else (Bank.send env.escrow recipient amount b.balances).map fun balances =>
    { b with
      balances := balances
      paidToEscrow := if recipient = env.escrow then b.paidToEscrow + amount else b.paidToEscrow }

/-- `HandleNativeTokenRelease`; coins of a negative amount cannot be made. -/
def handleNativeTokenRelease (ownerAddress amount : Bytes) (b : State) : Option State := do
  let recipient ← env.accAddressFromBech32 ownerAddress
  let amountInt ← env.newIntFromString amount
  if amountInt < 0 ∨ (Bank.balance b.balances env.escrow : ℤ) < amountInt then none
  else (releaseFromEscrow env recipient amountInt.toNat b).map fun b =>
    { b with released := b.released + amountInt.toNat }

def refundPendingBridgeMintFromEscrow (id : RequestId) (pendingMint : MsgRequestBridgeMint)
    (b : State) : Option State := do
  let recipient ← env.accAddressFromBech32 pendingMint.creator
  let amountInt ← env.newIntFromString pendingMint.amount
  if amountInt ≤ 0 then none
  else (releaseFromEscrow env recipient amountInt.toNat b).map fun b =>
    { b with
      mints := b.mints.modify id fun m => { m with refunds := (recipient, amountInt.toNat) :: m.refunds }
      refunded := id :: b.refunded }

def refundPendingBridgeWithdrawalByMint (id : RequestId)
    (pendingWithdrawal : MsgRequestBridgeWithdrawal) (b : State) : Option State := do
  let recipient ← env.accAddressFromBech32 pendingWithdrawal.userAddress
  let amountInt ← env.newIntFromString pendingWithdrawal.amount
  if amountInt ≤ 0 ∨ pendingWithdrawal.creator = [] then none
  else if out.mintTokens pendingWithdrawal.creator recipient pendingWithdrawal.amount then
    some { b with refunded := id :: b.refunded }
  else none

def getPendingWithdrawalTokenReference (id : RequestId)
    (pendingWithdrawal : MsgRequestBridgeWithdrawal) (b : State) : Option BridgeTokenReference :=
  let complete (reference : BridgeTokenReference) :=
    if reference.chainId = "" ∨ reference.contractAddress = [] then none else some reference
  match b.withdrawalTokenRefs.get? id with
  | some reference => complete reference
  | none => (out.wrappedContractReverseIndex pendingWithdrawal.creator).bind complete

def processAutoRefundMint (id : RequestId) (pendingMint : MsgRequestBridgeMint) (b : State) :
    Option State :=
  (refundPendingBridgeMintFromEscrow env id pendingMint b).map fun b =>
    { b with mintRefunds := b.mintRefunds.erase id }

def dropWithdrawal (id : RequestId) (b : State) : State :=
  { b with
    withdrawalRefunds := b.withdrawalRefunds.erase id
    withdrawalTokenRefs := b.withdrawalTokenRefs.erase id }

def processAutoRefundWithdrawal (id : RequestId) (pendingWithdrawal : MsgRequestBridgeWithdrawal)
    (b : State) : Option State := do
  let tokenReference ← getPendingWithdrawalTokenReference out id pendingWithdrawal b
  let refundWrappedContract ← out.wrappedTokenContract tokenReference
  let b ← refundPendingBridgeWithdrawalByMint env out id
    { pendingWithdrawal with creator := refundWrappedContract } b
  some (dropWithdrawal id b)

def processAutoRefundForFailedBridgeOperation (id : RequestId) (b : State) :
    Option (Bool × State) :=
  if id = [] then none
  else match b.mintRefunds.get? id with
    | some pendingMint => (processAutoRefundMint env id pendingMint b).map (true, ·)
    | none =>
      match b.withdrawalRefunds.get? id with
      | some pendingWithdrawal =>
        (processAutoRefundWithdrawal env out id pendingWithdrawal b).map (true, ·)
      | none => some (false, b)

def cleanupBridgePendingRefundByBlsRequestID (id : RequestId) (b : State) : Option State :=
  if id = [] then none
  else some (dropWithdrawal id { b with mintRefunds := b.mintRefunds.erase id })

/-- `BlsHooks`; each may fail for reasons of its own. -/
def blsHooks : Hooks State where
  afterThresholdSigningCompleted id _ b :=
    if out.hookFault id then none else cleanupBridgePendingRefundByBlsRequestID id b
  afterThresholdSigningFailed id _ b :=
    if out.hookFault id then none else processAutoRefundForFailedBridgeOperation env out id b

def hexByte (b : UInt8) : Bytes :=
  let digit (n : ℕ) : UInt8 := UInt8.ofNat (if n < 10 then 48 + n else 87 + n)
  [digit (b.toNat / 16), digit (b.toNat % 16)]

/-- `generateRequestID`: "req_%d_%x" of the height and the bytes of the transaction. -/
def generateRequestID (height : ℕ) (txBytes : Bytes) : Bytes :=
  "req_".toList.map (fun c => UInt8.ofNat c.toNat) ++
    (Nat.toDigits 10 height).map (fun c => UInt8.ofNat c.toNat) ++ [95] ++ txBytes.flatMap hexByte

def requestIdHash (requestID : Bytes) : RequestId := env.signing.crypto.keccak256 requestID

def validateBridgeMintRequest (creator : Address) (msg : MsgRequestBridgeMint) (b : State) : Bool :=
  match env.newIntFromString msg.amount with
  | none => false
  | some amountInt =>
    decide (0 < amountInt) && decide (amountInt ≤ Bank.balance b.balances creator) &&
      out.hasBridgeAddresses msg.chainId

/-- `TransferToEscrow`.  The sender signed the message, which no module account can: neither the
escrow nor one of those that are blocked. -/
def transferToEscrow (sender : Address) (amount : ℕ) (b : State) : Option State :=
  if sender = env.escrow ∨ env.blockedAddr sender then none
  else (Bank.send sender env.escrow amount b.balances).map fun balances =>
    { b with balances := balances }

/-- `setBridgeMintPendingRefund`, on record. -/
def setBridgeMintPendingRefund (id : RequestId) (account : Address) (amount : ℕ)
    (msg : MsgRequestBridgeMint) (b : State) : Option State :=
  if id = [] then none
  else if (b.mintRefunds.get? id).isSome then none
  else some { b with
    mintRefunds := b.mintRefunds.insert id msg
    mints := b.mints.insert id { account := account, amount := amount } }

def setBridgeWithdrawalPendingRefund (id : RequestId) (msg : MsgRequestBridgeWithdrawal)
    (tokenReference : BridgeTokenReference) (b : State) : Option State :=
  if id = [] ∨ tokenReference.chainId = "" ∨ tokenReference.contractAddress = [] then none
  else if (b.withdrawalRefunds.get? id).isSome ∨ (b.withdrawalTokenRefs.get? id).isSome then none
  else some { b with
    withdrawalRefunds := b.withdrawalRefunds.insert id msg
    withdrawalTokenRefs := b.withdrawalTokenRefs.insert id tokenReference }

def requestSignature (height : ℕ) (id : RequestId) (epoch : ℕ) (data : List Bytes)
    (s : ThresholdSigning.Store) : Option ThresholdSigning.Store :=
  match ThresholdSigning.requestThresholdSignature env.signing height
    ⟨epoch, env.gonkaChainIdHash, id, data⟩ s with
  | .ok s => some s
  | .error _ => none

/-- `RequestBridgeMint`.  The message fails as a whole, so that its own ways to roll back the
transfer have no effect. -/
def requestBridgeMint (height : ℕ) (msg : MsgRequestBridgeMint) (txBytes : Bytes)
    (w : World State) : Option (World State) := do
  let userAddr ← env.accAddressFromBech32 msg.creator
  if !validateBridgeMintRequest env out userAddr msg w.app then none
  else if !out.isBridgeContractAddress msg.chainId msg.destinationBridgeAddress then none
  else
    let amountInt ← env.newIntFromString msg.amount
    let b ← transferToEscrow env userAddr amountInt.toNat w.app
    let id := requestIdHash env (generateRequestID height txBytes)
    let epoch ← out.currentEpochGroup
    let destinationChainId ← mintChainIdMapping msg.chainId
    let blsData ← env.prepareBridgeMintSignatureData destinationChainId msg.destinationAddress
      msg.destinationBridgeAddress msg.amount
    let s ← requestSignature env height id epoch blsData w.store
    let b ← setBridgeMintPendingRefund id userAddr amountInt.toNat msg b
    some ⟨s, b⟩

def requestBridgeWithdrawal (height : ℕ) (msg : MsgRequestBridgeWithdrawal) (txBytes : Bytes)
    (w : World State) : Option (World State) := do
  let token ← out.wrappedTokenByWrappedAddress msg.creator
  if !out.isBridgeContractAddress token.chainId msg.destinationBridgeAddress then none
  else
    let id := requestIdHash env (generateRequestID height txBytes)
    let epoch ← out.currentEpochGroup
    let destinationChainId ← chainIdMapping token.chainId
    let blsData ← env.prepareBridgeWithdrawalSignatureData destinationChainId
      msg.destinationAddress msg.destinationBridgeAddress token.contractAddress msg.amount
    let s ← requestSignature env height id epoch blsData w.store
    let b ← setBridgeWithdrawalPendingRefund id msg token w.app
    some ⟨s, b⟩

/-- `bridgeCancelOptions`, but for the reason, which is for the event only. -/
structure BridgeCancelOptions where
  isGovernance : Bool := false
  overrideRecipient : Bytes := []
  overrideWrappedContract : Bytes := []

def cancelThresholdSigningRequest (id : RequestId) (s : ThresholdSigning.Store) :
    Option ThresholdSigning.Store :=
  match s.requests.get? id with
  | none => none
  | some request =>
    if request.status = .completed then none
    else match ThresholdSigning.cancelThresholdSignature id s with
      | .ok s => some s
      | .error _ => none

def BridgeCancelOptions.recipient (options : BridgeCancelOptions) (default : Bytes) : Bytes :=
  if options.isGovernance ∧ options.overrideRecipient ≠ [] then options.overrideRecipient else default

def cancelPendingBridgeMint (id : RequestId) (pendingMint : MsgRequestBridgeMint) (executor : Bytes)
    (options : BridgeCancelOptions) (w : World State) : Option (World State) :=
  if !options.isGovernance ∧ pendingMint.creator ≠ executor then none
  else do
    let s ← cancelThresholdSigningRequest id w.store
    let b ← refundPendingBridgeMintFromEscrow env id
      { pendingMint with creator := options.recipient pendingMint.creator } w.app
    some ⟨s, { b with mintRefunds := b.mintRefunds.erase id }⟩

/-- The contract of the refund: the active one of the token, or one that governance names for
the same token. -/
def refundWrappedContract (reference : BridgeTokenReference) (options : BridgeCancelOptions) :
    Option Bytes := do
  let resolved ← out.wrappedTokenContract reference
  if options.isGovernance ∧ options.overrideWrappedContract ≠ [] then
    let overrideReference ← out.wrappedContractReverseIndex options.overrideWrappedContract
    let overrideResolved ← out.wrappedTokenContract overrideReference
    if reference.equalFold overrideReference then some overrideResolved else none
  else some resolved

def cancelPendingBridgeWithdrawal (id : RequestId) (pendingWithdrawal : MsgRequestBridgeWithdrawal)
    (executor : Bytes) (options : BridgeCancelOptions) (w : World State) : Option (World State) :=
  if !options.isGovernance ∧ pendingWithdrawal.creator ≠ executor ∧
      pendingWithdrawal.userAddress ≠ executor then none
  else do
    let reference ← getPendingWithdrawalTokenReference out id pendingWithdrawal w.app
    let wrappedContract ← refundWrappedContract out reference options
    let s ← cancelThresholdSigningRequest id w.store
    let b ← refundPendingBridgeWithdrawalByMint env out id
      { pendingWithdrawal with
        creator := wrappedContract
        userAddress := options.recipient pendingWithdrawal.userAddress } w.app
    some ⟨s, dropWithdrawal id b⟩

/-- `cancelBridgeOperation`, of `CancelBridgeOperation` and `GovernanceCancelBridgeOperation`. -/
def cancelBridgeOperation (requestID executor : Bytes) (options : BridgeCancelOptions)
    (w : World State) : Option (World State) :=
  let id := requestIdHash env requestID
  match w.app.mintRefunds.get? id with
  | some pendingMint => cancelPendingBridgeMint env id pendingMint executor options w
  | none =>
    match w.app.withdrawalRefunds.get? id with
    | some pendingWithdrawal =>
      cancelPendingBridgeWithdrawal env out id pendingWithdrawal executor options w
    | none => none

inductive Event where
  | requestMint (out : Outside) (msg : MsgRequestBridgeMint) (txBytes : Bytes)
  | requestWithdrawal (out : Outside) (msg : MsgRequestBridgeWithdrawal) (txBytes : Bytes)
  | addPartial (out : Outside) (id : RequestId) (slots : List ℕ) (signature : Bytes)
      (submitter : ThresholdSigning.Address)
  | cancel (out : Outside) (requestID executor : Bytes) (options : BridgeCancelOptions)
  | release (ownerAddress amount : Bytes)
  | endBlock (out : Outside) (skipped : ℕ)

abbrev Chain := ThresholdSigning.Chain State

def step : Event → Chain → Chain
  | .requestMint out msg txBytes, c =>
    { c with world := (requestBridgeMint env out c.height msg txBytes c.world).getD c.world }
  | .requestWithdrawal out msg txBytes, c =>
    { c with world := (requestBridgeWithdrawal env out c.height msg txBytes c.world).getD c.world }
  | .addPartial out id slots signature submitter, c =>
    { c with world := ThresholdSigning.commit c.world (ThresholdSigning.addPartialSignature env.signing
        (blsHooks env out) c.height id slots signature submitter c.world) }
  | .cancel out requestID executor options, c =>
    { c with world := (cancelBridgeOperation env out requestID executor options c.world).getD c.world }
  | .release ownerAddress amount, c =>
    { c with world.app :=
        (handleNativeTokenRelease env ownerAddress amount c.world.app).getD c.world.app }
  | .endBlock out skipped, c =>
    ⟨ThresholdSigning.endBlock env.signing (blsHooks env out) c.height c.world,
      c.height + 1 + skipped⟩

end

end Bridge
