/-
Restrictions of transfers.

Until a given height coins move only to and from modules.  Governance may exempt transfers between
users: an exemption names a sender and a recipient, or any of them, an amount, a number of uses for
each account, and a height where it ends.  Every transfer of the bank passes `sendRestrictionFn`, which
looks for an exemption that is not used up.  A message executes a transfer under a named exemption and
counts it; its transfer passes the same function.

Amounts are summed over all denominations as `uint64`, as in the code.  What else the bank may refuse is
left open.  `transfers` is no part of the state: it records the transfers between users that took place
while the restrictions were active.
-/
import Mathlib.Data.String.Basic
import Gonka.Lib.Checked
import Gonka.Lib.Coins
import Gonka.Chain.Maintenance

namespace Restrictions

open Checked
open Inference (i64 check_eq_none_iff)
open Maintenance (Bech32)

structure EmergencyTransferExemption where
  exemptionId : String
  fromAddress : String
  toAddress : String
  maxAmount : String
  usageLimit : UInt64
  expiryBlock : UInt64
deriving DecidableEq

structure ExemptionUsage where
  exemptionId : String
  accountAddress : String
  usageCount : UInt64
deriving DecidableEq

structure Params where
  restrictionEndBlock : UInt64
  emergencyTransferExemptions : List EmergencyTransferExemption
  exemptionUsageTracking : List ExemptionUsage
deriving DecidableEq

/-- `strconv.ParseUint` of a decimal number with 64 bits. -/
def parseUint (text : String) : Option ℕ :=
  if text.toList ≠ [] ∧ text.toList.all Char.isDigit then
    let value := text.toList.foldl (fun n c => 10 * n + (c.toNat - '0'.toNat)) 0
    if value < 2 ^ 64 then some value else none
  else none

variable {A D : Type} [LinearOrder A] [LinearOrder D] (codec : Bech32 A)

/-- `validateEmergencyTransferExemption`; the error, if there is one. -/
def validateEmergencyTransferExemption (e : EmergencyTransferExemption) : Option String :=
  if e.exemptionId = "" then some "exemption ID cannot be empty"
  else if e.fromAddress ≠ "*" ∧ codec.accAddressFromBech32 e.fromAddress = none then
    some "invalid from address"
  else if e.toAddress ≠ "*" ∧ codec.accAddressFromBech32 e.toAddress = none then
    some "invalid to address"
  else if e.maxAmount = "" then some "max amount cannot be empty"
  else if parseUint e.maxAmount = none then some "invalid max amount"
  else if e.usageLimit = 0 then some "usage limit must be greater than 0"
  else if e.expiryBlock = 0 then some "expiry block must be greater than 0"
  else none

def validateExemptionUsage (u : ExemptionUsage) : Option String :=
  if u.exemptionId = "" then some "exemption ID cannot be empty"
  else if codec.accAddressFromBech32 u.accountAddress = none then some "invalid account address"
  else none

def firstError {α : Type} (check : α → Option String) (what : String) (l : List α) : Option String :=
  l.zipIdx.findSome? fun a => (check a.1).map (s!"invalid {what} at index {a.2}: " ++ ·)

def Params.validate (p : Params) : Option String :=
  (firstError (validateEmergencyTransferExemption codec) "exemption" p.emergencyTransferExemptions).or
    (firstError (validateExemptionUsage codec) "usage entry" p.exemptionUsageTracking)

def usageOf (tracking : List ExemptionUsage) (exemptionId account : String) : UInt64 :=
  ((tracking.find? fun u => u.exemptionId = exemptionId ∧ u.accountAddress = account).map
    (·.usageCount)).getD 0

/-- One more use, in a new entry if there is none. -/
def recordUsage (exemptionId account : String) : List ExemptionUsage → List ExemptionUsage
  | [] => [⟨exemptionId, account, 1⟩]
  | u :: rest =>
    if u.exemptionId = exemptionId ∧ u.accountAddress = account then
      { u with usageCount := u.usageCount + 1 } :: rest
    else u :: recordUsage exemptionId account rest

/-! ### The restriction -/

structure World (A : Type) where
  blockHeight : ℕ
  /-- `GetParams` succeeds. -/
  readable : Bool
  feeCollector : A
  isModuleAccount : A → Bool
  /-- The bank lets the transfer through, apart from the restriction. -/
  funded : Bool

inductive ErrorKind where
  | params
  | amountOutOfRange
  | errTransferRestricted
  | errExemptionNotFound
  | errExemptionExpired
  | errInvalidExemptionMatch
  | errInvalidRequest
  | errInvalidExemption
  | errExemptionAmountExceeded
  | errExemptionUsageLimitExceeded
  | errInvalidAddress
  | bank
deriving DecidableEq

structure RestrictionError where
  kind : ErrorKind
  text : String

/-- The sum of the amounts, as `uint64`; an amount that is none panics. -/
def totalAmount (coins : Coins D) : Option UInt64 :=
  coins.denoms.foldlM (fun total d =>
    if coins.amountOf d < 2 ^ 64 then some (total + UInt64.ofNat (coins.amountOf d)) else none) 0

variable (w : World A)

/-- The exemption is not over, and it is for these accounts. -/
def applies (sender recipient : A) (e : EmergencyTransferExemption) : Prop :=
  w.blockHeight < e.expiryBlock.toNat ∧
  (e.fromAddress = "*" ∨ e.fromAddress = codec.string sender) ∧
  (e.toAddress = "*" ∨ e.toAddress = codec.string recipient)

instance (sender recipient : A) (e : EmergencyTransferExemption) :
    Decidable (applies codec w sender recipient e) :=
  inferInstanceAs (Decidable (_ ∧ _ ∧ _))

/-- The loop over the exemptions; a panic is `none`. -/
def findExemption (tracking : List ExemptionUsage) (sender recipient : A) (coins : Coins D) :
    List EmergencyTransferExemption → Option Bool
  | [] => some false
  | e :: rest =>
    if applies codec w sender recipient e then
      match parseUint e.maxAmount with
      | none => findExemption tracking sender recipient coins rest
      | some maxAmount =>
        match totalAmount coins with
        | none => none
        | some total =>
          if maxAmount < total.toNat then findExemption tracking sender recipient coins rest
          else if e.usageLimit ≤ usageOf tracking e.exemptionId (codec.string sender) then
            findExemption tracking sender recipient coins rest
          else some true
    else findExemption tracking sender recipient coins rest

def matchesEmergencyExemption (p : Params) (sender recipient : A) (coins : Coins D) : Option Bool :=
  if w.readable then
    findExemption codec w p.exemptionUsageTracking sender recipient coins p.emergencyTransferExemptions
  else some false

/-- `IsRestrictionActive`; parameters that cannot be read keep the restrictions. -/
def isRestrictionActive (p : Params) : Bool :=
  !w.readable || decide (w.blockHeight < p.restrictionEndBlock.toNat)

def userToUser (sender recipient : A) : Bool :=
  decide (recipient ≠ w.feeCollector) && !w.isModuleAccount recipient && !w.isModuleAccount sender

def restricted (p : Params) : RestrictionError :=
  ⟨.errTransferRestricted, "user-to-user transfers are restricted during bootstrap period. " ++
    s!"Restriction ends at block {p.restrictionEndBlock} (current: {w.blockHeight}, remaining: " ++
    s!"{p.restrictionEndBlock - UInt64.ofNat w.blockHeight} blocks). Allowed transfers: gas payments, " ++
    "protocol interactions (inference, governance, staking), and module operations"⟩

def sendRestrictionFn (p : Params) (sender recipient : A) (coins : Coins D) :
    Except RestrictionError PUnit :=
  if isRestrictionActive w p = false then return ⟨⟩
  else if userToUser w sender recipient = false then return ⟨⟩
  else match matchesEmergencyExemption codec w p sender recipient coins with
  | none => .error ⟨.amountOutOfRange, "Uint64() out of bounds"⟩
  | some true => return ⟨⟩
  | some false =>
    if w.readable then .error (restricted w p)
    else .error ⟨.params, "failed to get transfer restriction parameters"⟩

/-- A transfer between users, while the restrictions were active. -/
structure Transfer (A D : Type) [LinearOrder D] where
  world : World A
  /-- The parameters when it took place. -/
  params : Params
  sender : A
  recipient : A
  coins : Coins D
  /-- The exemption and the sender that a message named. -/
  message : Option (String × String)

structure State (A D : Type) [LinearOrder D] where
  params : Params
  transfers : List (Transfer A D)

/-- `SendCoins` of the bank. -/
def sendCoins (sender recipient : A) (coins : Coins D) (message : Option (String × String))
    (s : State A D) : Except RestrictionError (State A D) := do
  sendRestrictionFn codec w s.params sender recipient coins
  require w.funded ⟨.bank, "the bank refuses the transfer"⟩
  return if isRestrictionActive w s.params ∧ userToUser w sender recipient then
    { s with transfers := s.transfers ++ [⟨w, s.params, sender, recipient, coins, message⟩] }
  else s

structure MsgExecuteEmergencyTransfer (D : Type) where
  exemptionId : String
  fromAddress : String
  toAddress : String
  amount : String
  denom : D

/-- `ExecuteEmergencyTransfer`, with the uses that are left. -/
def executeEmergencyTransfer (req : MsgExecuteEmergencyTransfer D) (s : State A D) :
    Except RestrictionError (State A D × UInt64) := do
  require w.readable ⟨.params, "failed to get parameters"⟩
  let exemption ← found ⟨.errExemptionNotFound, s!"exemption ID {req.exemptionId} not found"⟩
    (s.params.emergencyTransferExemptions.find? fun e => e.exemptionId = req.exemptionId)
  require ((w.blockHeight : ℤ) ≤ i64 exemption.expiryBlock.toNat)
    ⟨.errExemptionExpired, s!"exemption {req.exemptionId} expired at block {exemption.expiryBlock}"⟩
  require (exemption.fromAddress = "*" ∨ exemption.fromAddress = req.fromAddress)
    ⟨.errInvalidExemptionMatch,
      s!"from address {req.fromAddress} does not match exemption {exemption.fromAddress}"⟩
  require (exemption.toAddress = "*" ∨ exemption.toAddress = req.toAddress)
    ⟨.errInvalidExemptionMatch,
      s!"to address {req.toAddress} does not match exemption {exemption.toAddress}"⟩
  let amount ← found ⟨.errInvalidRequest, "invalid amount format"⟩ (parseUint req.amount)
  let maxAmount ← found ⟨.errInvalidExemption, "invalid max amount in exemption"⟩
    (parseUint exemption.maxAmount)
  require (amount ≤ maxAmount)
    ⟨.errExemptionAmountExceeded, s!"amount {amount} exceeds maximum allowed {maxAmount}"⟩
  let currentUsage := usageOf s.params.exemptionUsageTracking req.exemptionId req.fromAddress
  require (currentUsage < exemption.usageLimit) ⟨.errExemptionUsageLimitExceeded,
    s!"usage limit {exemption.usageLimit} exceeded for exemption {req.exemptionId}"⟩
  let sender ← found ⟨.errInvalidAddress, "invalid from address"⟩
    (codec.accAddressFromBech32 req.fromAddress)
  let recipient ← found ⟨.errInvalidAddress, "invalid to address"⟩
    (codec.accAddressFromBech32 req.toAddress)
  -- a coin of a negative amount panics
  require (0 ≤ i64 amount) ⟨.amountOutOfRange, "negative coin amount"⟩
  let s₁ ← sendCoins codec w sender recipient (Coins.coin req.denom (i64 amount).toNat)
    (some (req.exemptionId, req.fromAddress)) s
  let params := { s.params with
    exemptionUsageTracking :=
      recordUsage req.exemptionId req.fromAddress s.params.exemptionUsageTracking }
  return ({ s₁ with params }, exemption.usageLimit - (currentUsage + 1))

inductive Op (A D : Type) [LinearOrder D] where
  | send (sender recipient : A) (coins : Coins D)
  | executeEmergencyTransfer (req : MsgExecuteEmergencyTransfer D)

def step (input : World A × Op A D) (s : State A D) : State A D :=
  match input.2 with
  | .send sender recipient coins =>
    Checked.commit s (sendCoins codec input.1 sender recipient coins none s)
  | .executeEmergencyTransfer req =>
    Checked.commit s ((executeEmergencyTransfer codec input.1 req s).map Prod.fst)

end Restrictions
