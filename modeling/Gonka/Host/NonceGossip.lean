/-
Gossip of state signatures (`HandleGossipNonce`, `OnNonceReceived`, `AfterRequest`).

A server remembers, for each nonce, the first state hash that it has heard of.  A
request with another hash is turned away as an equivocation before its signature
reaches the store.  Whoever comes first decides, and a host that catches up over
several diffs corrects what is remembered for the last nonce only.

Main results: `signatures_counted_iff`, `early_hash_suppresses`.
-/
import Gonka.Host.Finalization

namespace Devshard

open OrdMap List

/-- What is remembered of a nonce: its hash, and the slot that sent it. -/
structure NonceRecord where
  stateHash : Bytes
  slotID : ℕ
  deriving DecidableEq

/-- A `GossipNonceRequest`, with its authenticated sender. -/
structure GossipNonceRequest where
  sender : Address
  nonce : ℕ
  stateHash : Bytes
  stateSig : Bytes
  slotID : ℕ

/-- Why `HandleGossipNonce` turns a request away. -/
inductive GossipNonceErr where
  | notRunning
  /-- 403: gossip restricted to group members. -/
  | notGroupMember
  /-- 400: missing state signature. -/
  | missingStateSig
  /-- 400: invalid slot id. -/
  | invalidSlotID
  /-- 500: marshal sig content. -/
  | marshal
  /-- 400: invalid gossip state signature. -/
  | invalidStateSig
  /-- 409: equivocation. -/
  | equivocation (nonce : ℕ) (existing received : NonceRecord)
  deriving DecidableEq

/-- The outcome of `OnNonceReceived`. -/
inductive NonceReceived where
  | equivocation (existing : NonceRecord)
  | again
  | first
  deriving DecidableEq

def onNonceReceived (nonce : ℕ) (record : NonceRecord) (seen : OrdMap ℕ NonceRecord) :
    NonceReceived × OrdMap ℕ NonceRecord :=
  match seen.get? nonce with
  | some existing =>
    if existing.stateHash ≠ record.stateHash then (.equivocation existing, seen)
    else (.again, seen)
  | none => (.first, seen.insert nonce record)

/-- The part of `AfterRequest` that is not sending: it replaces what was remembered. -/
def afterRequest (nonce : ℕ) (record : NonceRecord) (seen : OrdMap ℕ NonceRecord) :
    OrdMap ℕ NonceRecord :=
  seen.insert nonce record

/-- The end of `tryRecovery`, for one signature: it keeps what was remembered. -/
def afterRecovery (nonce : ℕ) (record : NonceRecord) (seen : OrdMap ℕ NonceRecord) :
    OrdMap ℕ NonceRecord :=
  match seen.get? nonce with
  | some _ => seen
  | none => seen.insert nonce record

def pruneMargin : ℕ := 100

def pruneBelow (nonce : ℕ) (seen : OrdMap ℕ NonceRecord) : OrdMap ℕ NonceRecord :=
  if nonce ≤ pruneMargin then seen
  else seen.filter fun n _ => ¬ n < nonce - pruneMargin

structure GossipSetup where
  /-- The host of the server. -/
  name : ℕ
  slotID : ℕ
  /-- Gossip has a `SigAccumulator`. -/
  accumulates : Bool
  /-- The host prunes what is remembered (`WithGossip`). -/
  prunes : Bool

structure GossipServer where
  /-- The store, with all hosts over it. -/
  notary : Notary := {}
  seen : OrdMap ℕ NonceRecord := ∅
  /-- The signatures that the host has returned and gossip has not taken over yet. -/
  responses : List (Call × StateSignature) := []

inductive ServerEvent where
  /-- An event at the store. -/
  | store (ev : NotaryEvent)
  /-- Gossip takes over the `i`-th response, in the background. -/
  | respond (i : ℕ) (slotID : ℕ)
  /-- A request for `HandleGossipNonce`.  `bridge` and `resolver` are the answers about
  warm keys that the server and the host get. -/
  | gossipNonce (req : GossipNonceRequest) (bridge resolver : Address → Address → Bool)

def Event.host : Event → ℕ
  | .start name | .crash name | .recover name _ _ | .request name _ _ | .step name _ _ => name

def NotaryEvent.host : NotaryEvent → ℕ
  | .hosts ev _ => ev.host
  | .gossip name _ _ _ _ _ _ => name

def Cluster.callOf (c : Cluster) : Event → Option Call
  | .step name i _ => do
    let h ← c.hosts.get? name
    let r ← h.requests[i]?
    return r.call
  | _ => none

/-- `isGroupMember`: an owner, a bound warm key, or a key that the bridge knows. -/
def isGroupMember (sm₀ : StateMachine) (warmKeys : OrdMap ℕ Address)
    (bridge : Address → Address → Bool) (addr : Address) : Bool :=
  sm₀.addressToSlots addr ≠ [] || warmKeys.entries.any (fun e => e.2 = addr)
    || sm₀.group.any fun s => bridge addr s.validatorAddress

def isWarmKeyForSlot (sm₀ : StateMachine) (warmKeys : OrdMap ℕ Address)
    (resolver : Address → Address → Bool) (addr : Address) (slotID : ℕ) : Bool :=
  warmKeys.get? slotID = some addr ||
    (sm₀.slotToAddress.get? slotID).any fun expected => resolver addr expected

namespace GossipServer

variable (setup : GossipSetup) (recoverAddress : Bytes → Bytes → Option Address)
  (sm₀ : StateMachine)

/-- `PruneBelow` for the nonces that were marked finalized since. -/
def prune (before : Notary) (s : GossipServer) : GossipServer :=
  if setup.prunes then
    { s with
      seen := (s.notary.finalized.take (s.notary.finalized.length - before.finalized.length)).foldr
        pruneBelow s.seen }
  else s

/-- `AccumulateGossipSig` of the host. -/
def accumulate (req : GossipNonceRequest) (resolver : Address → Address → Bool) (s : GossipServer) :
    GossipServer :=
  let notary := (s.notary.accumulateGossipSig recoverAddress sm₀ setup.name req.nonce req.stateHash
    req.stateSig req.slotID resolver {}).2
  prune setup s.notary { s with notary }

/-- The checks of `HandleGossipNonce`. -/
def verifyGossipNonce (req : GossipNonceRequest) (bridge resolver : Address → Address → Bool)
    (s : GossipServer) : Except GossipNonceErr Unit :=
  match s.notary.cluster.hosts.get? setup.name with
  | none => .error .notRunning
  | some h =>
    if isGroupMember sm₀ h.world.sm.warmKeys bridge req.sender = false then .error .notGroupMember
    else if req.stateSig = [] then .error .missingStateSig
    else
      match sm₀.group[req.slotID]? with
      | none => .error .invalidSlotID
      | some slot =>
        match sessionSignatureContent req.stateHash sm₀.escrowID req.nonce with
        | none => .error .marshal
        | some data =>
          match recoverAddress data req.stateSig with
          | none => .error .invalidStateSig
          | some addr =>
            if addr ≠ slot.validatorAddress ∧
                isWarmKeyForSlot sm₀ h.world.sm.warmKeys resolver addr req.slotID = false then
              .error .invalidStateSig
            else .ok ()

def handleGossipNonce (req : GossipNonceRequest) (bridge resolver : Address → Address → Bool)
    (s : GossipServer) : Except GossipNonceErr Unit × GossipServer :=
  match verifyGossipNonce setup recoverAddress sm₀ req bridge resolver s with
  | .error e => (.error e, s)
  | .ok _ =>
    match onNonceReceived req.nonce ⟨req.stateHash, req.slotID⟩ s.seen with
    | (.equivocation existing, _) =>
      (.error (.equivocation req.nonce existing ⟨req.stateHash, req.slotID⟩), s)
    | (.again, _) =>
      let s := if setup.accumulates then s.accumulate setup recoverAddress sm₀ req resolver else s
      (.ok (), s.accumulate setup recoverAddress sm₀ req resolver)
    | (.first, seen) =>
      (.ok (), ({ s with seen } : GossipServer).accumulate setup recoverAddress sm₀ req resolver)

variable (keys : HostKeys sm₀.group.length)

/-- An event at the store.  A crash of the host takes its memory with it; a signature
that it gives is returned to the caller. -/
def storeEvent (ev : NotaryEvent) (s : GossipServer) : GossipServer :=
  let notary := s.notary.step recoverAddress sm₀ keys ev
  if ev.host ≠ setup.name then { s with notary }
  else
    match ev with
    | .hosts (.crash _) _ => { notary }
    | .hosts hostEvent _ =>
      let signed := notary.cluster.signed.drop s.notary.cluster.signed.length
      let responses := match s.notary.cluster.callOf hostEvent with
        | none => []
        | some call => signed.map fun sig => (call, sig)
      prune setup s.notary { s with notary, responses := s.responses ++ responses }
    | .gossip .. => prune setup s.notary { s with notary }

/-- `HandleInference` hands a response to `AfterRequest`, the recovery loop its
signatures to the end of `tryRecovery`. -/
def respond (i slotID : ℕ) (s : GossipServer) : GossipServer :=
  match s.responses[i]? with
  | some (.handleRequest, sig) =>
    { s with
      seen := afterRequest sig.nonce ⟨sig.root, setup.slotID⟩ s.seen
      responses := s.responses.eraseIdx i }
  | some (.applyRecoveredDiffs, sig) =>
    { s with
      seen := afterRecovery sig.nonce ⟨sig.root, slotID⟩ s.seen
      responses := s.responses.eraseIdx i }
  | _ => s

def step (ev : ServerEvent) (s : GossipServer) : GossipServer :=
  match ev with
  | .store ev => s.storeEvent setup recoverAddress sm₀ keys ev
  | .respond i slotID => s.respond setup i slotID
  | .gossipNonce req bridge resolver =>
    (s.handleGossipNonce setup recoverAddress sm₀ req bridge resolver).2

def run (events : List ServerEvent) : GossipServer :=
  Along.run (step setup recoverAddress sm₀ keys) events {}

end GossipServer

/-- The signature of the slot counts at the nonce: every slot of its address has an
entry, and with enough entries the nonce is finalized. -/
def Notary.Counted (sm₀ : StateMachine) (n : Notary) (nonce slotID : ℕ) : Prop :=
  (∀ slot ∈ sm₀.addressToSlots (sm₀.slotAddress slotID),
    ((n.sigsAt nonce).get? slot).isSome = true) ∧
  (Quorum.threshold sm₀.group.length ≤ (n.sigsAt nonce).keys.length → nonce ∈ n.finalized)

instance (sm₀ : StateMachine) (n : Notary) (nonce slotID : ℕ) :
    Decidable (n.Counted sm₀ nonce slotID) := by
  unfold Notary.Counted
  infer_instance

namespace GossipServer

variable (setup : GossipSetup) (recoverAddress : Bytes → Bytes → Option Address)
  (sm₀ : StateMachine)

/-- A member sends, for a slot of the group, a valid signature of the durable state hash
at the nonce: by the owner of the slot, or by a key that is authorized for it. -/
def attests (req : GossipNonceRequest) (bridge resolver : Address → Address → Bool)
    (s : GossipServer) : Bool :=
  (s.notary.cluster.hosts.get? setup.name).any fun h =>
    isGroupMember sm₀ h.world.sm.warmKeys bridge req.sender && req.stateSig ≠ [] &&
    req.slotID < sm₀.group.length &&
    (sessionSignatureContent req.stateHash sm₀.escrowID req.nonce).any (fun data =>
      (recoverAddress data req.stateSig).any fun addr =>
        addr = sm₀.slotAddress req.slotID || h.world.sm.warmKeys.get? req.slotID = some addr ||
          resolver addr (sm₀.slotAddress req.slotID)) &&
    (s.notary.cluster.diffs.get? req.nonce).any fun rec => rec.stateHash = req.stateHash

def otherSeen (req : GossipNonceRequest) (s : GossipServer) : Bool :=
  (s.seen.get? req.nonce).any fun record => record.stateHash ≠ req.stateHash

variable (keys : HostKeys sm₀.group.length)

/-- The event is no valid signature of the durable hash, or one that counts. -/
def Counts (s : GossipServer) : ServerEvent → Prop
  | .gossipNonce req bridge resolver =>
    s.attests setup recoverAddress sm₀ req bridge resolver →
      (s.step setup recoverAddress sm₀ keys (.gossipNonce req bridge resolver)).notary.Counted sm₀
        req.nonce req.slotID
  | _ => True

/-- The event is a valid signature of the durable hash that meets another hash, and does
not count yet. -/
def Suppresses (s : GossipServer) : ServerEvent → Prop
  | .gossipNonce req bridge resolver =>
    s.attests setup recoverAddress sm₀ req bridge resolver ∧ s.otherSeen req ∧
      ¬ s.notary.Counted sm₀ req.nonce req.slotID
  | _ => False

instance (s : GossipServer) (ev : ServerEvent) :
    Decidable (s.Suppresses setup recoverAddress sm₀ ev) := by
  cases ev with
  | store | respond => exact .isFalse not_false
  | gossipNonce => exact instDecidableAnd

end GossipServer

namespace Notary

variable {recoverAddress : Bytes → Bytes → Option Address} {sm₀ : StateMachine} {n : Notary}
  {nonce slot : ℕ} {sig : Bytes}

section

variable (hdiff : (n.cluster.diffs.get? nonce).isSome = true)
include hdiff

theorem addSignature_stores (slot : ℕ) (sig : Bytes) : n.addSignature {} nonce slot sig
      = (true, { n with signatures := n.signatures.insert nonce ((n.sigsAt nonce).insert slot sig) }) := by
  unfold addSignature
  rw [if_neg]
  rintro (hnone | hfails)
  · rw [Option.isSome_iff_ne_none] at hdiff
    exact hdiff (Option.isNone_iff_eq_none.mp hnone)
  · cases hfails

theorem addSignatures_stores (sig : Bytes) (slots : List ℕ) :
    ∃ n', addSignatures {} nonce sig slots n = (true, n') ∧ n'.cluster = n.cluster ∧
      ∀ slot, slot ∈ slots ∨ ((n.sigsAt nonce).get? slot).isSome = true →
        ((n'.sigsAt nonce).get? slot).isSome = true := by
  induction slots generalizing n with
  | nil =>
    refine ⟨n, rfl, rfl, ?_⟩
    rintro _ (hmem | hold)
    · cases hmem
    · exact hold
  | cons slot₀ _ ih =>
    unfold addSignatures
    rw [addSignature_stores hdiff]
    obtain ⟨n', hrest, hcluster, hstored⟩ :=
      ih (n := { n with signatures := n.signatures.insert nonce ((n.sigsAt nonce).insert slot₀ sig) }) hdiff
    refine ⟨n', hrest, hcluster, fun slot hslot => hstored slot ?_⟩
    -- the first slot has just been written; the others are in the rest or were there
    have hsigs : ∀ slot, ((({ n with
        signatures := n.signatures.insert nonce ((n.sigsAt nonce).insert slot₀ sig) } : Notary).sigsAt
          nonce).get? slot) = if slot = slot₀ then some sig else (n.sigsAt nonce).get? slot := by
      intro slot
      unfold sigsAt
      rw [get?_insert_self]
      exact get?_insert _ _ _ _
    rw [hsigs]
    by_cases heq : slot = slot₀
    · rw [if_pos heq]
      exact .inr rfl
    · rw [if_neg heq]
      exact hslot.imp_left fun hmem => (mem_cons.mp hmem).resolve_left heq

theorem mem_finalized_checkFinalization
    (groupSize : ℕ) (hquorum : Quorum.threshold groupSize ≤ (n.sigsAt nonce).keys.length) :
    nonce ∈ (n.checkFinalization {} groupSize nonce).finalized := by
  unfold checkFinalization
  rw [if_pos ⟨hdiff, hquorum, rfl⟩]
  exact mem_cons_self

end

theorem sigsAt_checkFinalization (writes : Writes) (groupSize nonce nonce' : ℕ) :
    (n.checkFinalization writes groupSize nonce).sigsAt nonce' = n.sigsAt nonce' := by
  unfold checkFinalization
  split <;> rfl

theorem accumulateGossipSig_counted {name senderSlot : ℕ} {h : Host} {stateHash data : Bytes}
    {addr expected : Address} {rec : DiffRecord} {resolver : Address → Address → Bool}
    (hhost : n.cluster.hosts.get? name = some h)
    (hslot : sm₀.slotToAddress.get? senderSlot = some expected)
    (hdata : sessionSignatureContent stateHash sm₀.escrowID nonce = some data)
    (haddr : recoverAddress data sig = some addr)
    (hkey : addr = expected ∨ h.world.sm.warmKeys.get? senderSlot = some addr ∨
      resolver addr expected = true)
    (hrec : n.cluster.diffs.get? nonce = some rec) (hhash : rec.stateHash = stateHash) :
    (n.accumulateGossipSig recoverAddress sm₀ name nonce stateHash sig senderSlot resolver {}).2.Counted
      sm₀ nonce senderSlot := by
  have hkey' : ¬ (addr ≠ expected ∧ h.world.sm.warmKeys.get? senderSlot ≠ some addr ∧
      resolver addr expected = false) := by
    rintro ⟨hne, hunbound, hdenied⟩
    rcases hkey with heq | hbound | hgranted
    · exact hne heq
    · exact hunbound hbound
    · rw [hdenied] at hgranted
      cases hgranted
  have hdiff : (n.cluster.diffs.get? nonce).isSome = true := Option.isSome_iff_exists.mpr ⟨rec, hrec⟩
  obtain ⟨n', hadds, hcluster, hstored⟩ := addSignatures_stores (n := { n with
      trusted := (addr, expected) :: n.trusted
      given := (addr, nonce, stateHash) :: n.given }) hdiff sig (sm₀.addressToSlots expected)
  have hresult : (n.accumulateGossipSig recoverAddress sm₀ name nonce stateHash sig senderSlot
      resolver {}).2 = n'.checkFinalization {} sm₀.group.length nonce := by
    unfold accumulateGossipSig
    simp only [hhost, hslot, hdata, haddr, if_neg hkey', hrec, hhash, ne_eq, not_true_eq_false,
      if_false, hadds]
  rw [hresult]
  unfold Counted
  rw [sigsAt_checkFinalization]
  refine ⟨fun slot hmem => hstored slot (.inl ?_), fun hquorum => ?_⟩
  · rwa [show sm₀.slotAddress senderSlot = expected from slotAddress_of_get? hslot] at hmem
  · exact mem_finalized_checkFinalization (hcluster ▸ hdiff) _ hquorum

theorem addSignatures_cluster (writes : Writes) (nonce : ℕ) (sig : Bytes) (slots : List ℕ)
    (n : Notary) : (addSignatures writes nonce sig slots n).2.cluster = n.cluster := by
  induction slots generalizing n with
  | nil => rfl
  | cons slot _ ih =>
    have hfirst := (addSignature_same writes nonce slot sig n).1
    unfold addSignatures
    split
    · next n' hadd =>
      rw [hadd] at hfirst
      exact hfirst
    · next n' hadd =>
      rw [hadd] at hfirst
      exact (ih n').trans hfirst

theorem checkFinalization_cluster (writes : Writes) (groupSize nonce : ℕ) (n : Notary) :
    (n.checkFinalization writes groupSize nonce).cluster = n.cluster := by
  unfold checkFinalization
  split <;> rfl

/-- Gossip does not touch the hosts and their diffs. -/
theorem accumulateGossipSig_cluster (name nonce : ℕ) (stateHash sig : Bytes) (senderSlot : ℕ)
    (resolver : Address → Address → Bool) (writes : Writes) (n : Notary) :
    (n.accumulateGossipSig recoverAddress sm₀ name nonce stateHash sig senderSlot resolver
      writes).2.cluster = n.cluster := by
  unfold accumulateGossipSig
  split
  · rfl
  split
  · rfl
  next expected _ =>
  split
  · rfl
  split
  · rfl
  next addr _ =>
  dsimp only
  iterate 3
    split
    · rfl
  have hadds := addSignatures_cluster writes nonce sig (sm₀.addressToSlots expected) { n with
      trusted := (addr, expected) :: n.trusted
      given := (addr, nonce, stateHash) :: n.given }
  split
  · next n' hadd =>
    rw [hadd] at hadds
    exact hadds
  · next hadd =>
    rw [hadd] at hadds
    exact (checkFinalization_cluster _ _ _ _).trans hadds

end Notary

namespace GossipServer

variable {setup : GossipSetup} {recoverAddress : Bytes → Bytes → Option Address}
  {sm₀ : StateMachine} {s : GossipServer} {req : GossipNonceRequest}
  {bridge resolver : Address → Address → Bool}

@[simp] theorem prune_notary (before : Notary) (s : GossipServer) :
    (prune setup before s).notary = s.notary := by
  unfold prune
  split <;> rfl

theorem attests_iff : s.attests setup recoverAddress sm₀ req bridge resolver = true ↔
    ∃ h, s.notary.cluster.hosts.get? setup.name = some h ∧
      isGroupMember sm₀ h.world.sm.warmKeys bridge req.sender = true ∧ req.stateSig ≠ [] ∧
      req.slotID < sm₀.group.length ∧
      (∃ data, sessionSignatureContent req.stateHash sm₀.escrowID req.nonce = some data ∧
        ∃ addr, recoverAddress data req.stateSig = some addr ∧
          (addr = sm₀.slotAddress req.slotID ∨ h.world.sm.warmKeys.get? req.slotID = some addr ∨
            resolver addr (sm₀.slotAddress req.slotID) = true)) ∧
      ∃ rec, s.notary.cluster.diffs.get? req.nonce = some rec ∧ rec.stateHash = req.stateHash := by
  simp only [attests, Option.any_eq_true, Bool.and_eq_true, Bool.or_eq_true, decide_eq_true_eq,
    and_assoc, or_assoc]

theorem slotToAddress_getElem? (hgroup : validateGroup sm₀.group) {slotID : ℕ}
    (hlt : slotID < sm₀.group.length) : ∃ slot, sm₀.group[slotID]? = some slot ∧
      sm₀.slotToAddress.get? slotID = some slot.validatorAddress := by
  have hslot := getElem?_eq_getElem hlt
  exact ⟨_, hslot, (EscrowState.slotToAddress_get? hgroup).mpr
    ⟨_, getElem_mem hlt, validateGroup_getElem hgroup hslot, rfl⟩⟩

theorem verifyGossipNonce_of_attests (hgroup : validateGroup sm₀.group)
    (h : s.attests setup recoverAddress sm₀ req bridge resolver = true) :
    s.verifyGossipNonce setup recoverAddress sm₀ req bridge resolver = .ok () := by
  obtain ⟨host, hhost, hmember, hsig, hlt, ⟨_, hdata, addr, haddr, hkey⟩, -⟩ := attests_iff.mp h
  obtain ⟨slot, hslot, hget⟩ := slotToAddress_getElem? hgroup hlt
  have hkey' : ¬ (addr ≠ slot.validatorAddress ∧
      isWarmKeyForSlot sm₀ host.world.sm.warmKeys resolver addr req.slotID = false) := by
    rintro ⟨hne, hcold⟩
    rw [slotAddress_of_get? hget] at hkey
    simp only [isWarmKeyForSlot, hget, Option.any_some, Bool.or_eq_false_iff,
      decide_eq_false_iff_not] at hcold
    rcases hkey with heq | hbound | hgranted
    · exact hne heq
    · exact hcold.1 hbound
    · exact Bool.false_ne_true (hcold.2.symm.trans hgranted)
  simp only [verifyGossipNonce, hhost, hmember, Bool.true_eq_false, if_false, if_neg hsig, hslot, hdata,
    haddr, if_neg hkey']

theorem accumulate_counted (hgroup : validateGroup sm₀.group)
    (h : s.attests setup recoverAddress sm₀ req bridge resolver = true) :
    (s.accumulate setup recoverAddress sm₀ req resolver).notary.Counted sm₀ req.nonce req.slotID := by
  obtain ⟨_, hhost, -, -, hlt, ⟨_, hdata, _, haddr, hkey⟩, _, hrec, hhash⟩ :=
    attests_iff.mp h
  obtain ⟨_, -, hget⟩ := slotToAddress_getElem? hgroup hlt
  rw [slotAddress_of_get? hget] at hkey
  unfold accumulate
  rw [prune_notary]
  exact Notary.accumulateGossipSig_counted hhost hget hdata haddr hkey hrec hhash

theorem accumulate_cluster (req : GossipNonceRequest) (resolver : Address → Address → Bool)
    (s : GossipServer) :
    (s.accumulate setup recoverAddress sm₀ req resolver).notary.cluster = s.notary.cluster := by
  unfold accumulate
  rw [prune_notary]
  exact Notary.accumulateGossipSig_cluster _ _ _ _ _ _ _ _

theorem attests_congr {s' : GossipServer} (h : s'.notary.cluster = s.notary.cluster) :
    s'.attests setup recoverAddress sm₀ req bridge resolver
      = s.attests setup recoverAddress sm₀ req bridge resolver := by
  unfold attests
  rw [h]

/-- **A valid signature of the durable hash counts, unless another hash is remembered.** -/
theorem handleGossipNonce_counted (hgroup : validateGroup sm₀.group)
    (h : s.attests setup recoverAddress sm₀ req bridge resolver = true)
    (hseen : s.otherSeen req = false) :
    (s.handleGossipNonce setup recoverAddress sm₀ req bridge resolver).2.notary.Counted sm₀
      req.nonce req.slotID := by
  unfold handleGossipNonce onNonceReceived
  rw [verifyGossipNonce_of_attests hgroup h]
  unfold otherSeen at hseen
  cases hget : s.seen.get? req.nonce with
  | none => exact accumulate_counted hgroup ((attests_congr rfl).trans h)
  | some =>
    rw [hget, Option.any_some, decide_eq_false_iff_not] at hseen
    simp only [if_neg hseen]
    -- the request is known: gossip's own accumulation comes first
    split
    · exact accumulate_counted hgroup ((attests_congr (accumulate_cluster req resolver s)).trans h)
    · exact accumulate_counted hgroup h

theorem handleGossipNonce_other (hseen : s.otherSeen req = true) :
    (s.handleGossipNonce setup recoverAddress sm₀ req bridge resolver).2 = s := by
  obtain ⟨_, hget, hne⟩ := (Option.any_eq_true _ _).mp hseen
  unfold handleGossipNonce onNonceReceived
  rw [hget]
  dsimp only
  rw [if_pos (of_decide_eq_true hne)]
  split <;> rfl

variable {keys : HostKeys sm₀.group.length}

theorem counts_iff (hgroup : validateGroup sm₀.group) (s : GossipServer) (ev : ServerEvent) :
    s.Counts setup recoverAddress sm₀ keys ev ↔ ¬ s.Suppresses setup recoverAddress sm₀ ev := by
  cases ev with
  | store | respond => exact iff_of_true trivial not_false
  | gossipNonce req =>
    constructor
    · rintro hcounts ⟨hattests, hother, hmissing⟩
      apply hmissing
      have hcounted := hcounts hattests
      rwa [step, handleGossipNonce_other hother] at hcounted
    · intro hfree hattests
      cases hother : s.otherSeen req with
      | false => exact handleGossipNonce_counted hgroup hattests hother
      | true =>
        rw [step, handleGossipNonce_other hother]
        by_contra hmissing
        exact hfree ⟨hattests, hother, hmissing⟩

end GossipServer

section
variable {recoverAddress : Bytes → Bytes → Option Address} {escrowID : Bytes}
  {config : SessionConfig} {group : List SlotAssignment} {balance : UInt64} {userAddress : Address}
  {version : Bytes} {sm₀ : StateMachine}

/-- **Honest signatures count.**  In every run of a server, whatever the members gossip
and whatever diffs the user sends: all valid signatures of durable hashes count exactly
when none of them, before it counts, meets another hash that is remembered for its
nonce. -/
theorem signatures_counted_iff (hgroup : validateGroup group)
    (hnew : newStateMachine escrowID config group balance userAddress version = .ok sm₀)
    (setup : GossipSetup) (keys : HostKeys sm₀.group.length) (events : List ServerEvent) :
    Along.EachStep (GossipServer.step setup recoverAddress sm₀ keys)
      (fun s ev => s.Counts setup recoverAddress sm₀ keys ev) events {} ↔
    Along.EachStep (GossipServer.step setup recoverAddress sm₀ keys)
      (fun s ev => ¬ s.Suppresses setup recoverAddress sm₀ ev) events {} := by
  obtain ⟨hsame, -⟩ := newStateMachine_ok hnew
  rw [← hsame] at hgroup
  exact Along.eachStep_congr (fun s ev => GossipServer.counts_iff hgroup s ev) events {}

end

def quadSetup : GossipSetup := ⟨0, 0, true, true⟩

def quadGossip (slotID : ℕ) (owner : Address) (nonce : ℕ) (stateHash : Bytes) : GossipNonceRequest :=
  ⟨owner, nonce, stateHash, owner, slotID⟩

def quadCatchUp (heard : List GossipNonceRequest) : List ServerEvent :=
  let request : List Event := .request 0 .handleRequest ((quadDiffs [1]).take 2)
    :: List.replicate 11 (.step 0 0 granting)
  [.store (.hosts (.start 0) {})]
    ++ heard.map (fun req => .gossipNonce req (fun _ _ => false) (fun _ _ => false))
    ++ request.map (fun ev => .store (.hosts ev {})) ++ [.respond 0 0]

def quadServer (heard : List GossipNonceRequest) : GossipServer :=
  GossipServer.run quadSetup namedSigner quadMachine (quadKeys [1] [0, 1] quad_slots)
    (quadCatchUp heard)

def quadHash : Bytes := (((quadServer []).notary.cluster.diffs.get? 1).map DiffRecord.stateHash).getD []

theorem signatures_counted_quad :
    Along.EachStep (GossipServer.step quadSetup namedSigner quadMachine (quadKeys [1] [0, 1] (by decide)))
      (fun s ev => s.Counts quadSetup namedSigner quadMachine (quadKeys [1] [0, 1] (by decide)) ev)
      (quadCatchUp [] ++ [.gossipNonce (quadGossip 2 [2] 1 quadHash) (fun _ _ => false)
        (fun _ _ => false)]) {} := by
  have hnew : newStateMachine [] sampleConfig quadMachine.group 1000 [9] [] = .ok quadMachine := rfl
  exact (signatures_counted_iff (by decide) hnew quadSetup _ _).mpr (by decide +kernel)

/-- The owner of slot 3 gossips a hash of its own for nonce 1 before the host has the
diff.  The host catches up; what it remembers is corrected for nonce 2 only.  The
signature of slot 2 over the durable hash of nonce 1 is turned away. -/
theorem early_hash_suppresses :
    validateGroup quadMachine.group ∧
    newStateMachine [] sampleConfig quadMachine.group 1000 [9] [] = .ok quadMachine ∧
    let s := quadServer [quadGossip 3 [3] 1 [0]]
    let req := quadGossip 2 [2] 1 quadHash
    s.attests quadSetup namedSigner quadMachine req (fun _ _ => false) (fun _ _ => false) = true ∧
    ((s.handleGossipNonce quadSetup namedSigner quadMachine req (fun _ _ => false)
      (fun _ _ => false)).2.notary.sigsAt 1).get? 2 = none ∧
    2 ∈ quadMachine.addressToSlots (quadMachine.slotAddress req.slotID) := by
  exact ⟨by decide, rfl, by decide +kernel⟩

end Devshard
