/-
State signatures and finalization (`signIfAccepted`, `AccumulateGossipSig`,
`checkFinalization`).

A store keeps, beside each durable diff, one signature per slot.  They come from the
hosts that run over the store, which sign the root of their machine, and from
gossip.  A nonce is finalized when more than two thirds of the slots have one.

Main results: `finalization_agreement`, `cut_replay_finalizes_two`.
-/
import Gonka.User.Session
import Gonka.Lib.Quorum
import Gonka.Lib.Along

namespace Devshard

open OrdMap List Option

/-! ### The store of signatures -/

/-- The hosts that run over one store: their signing keys and their slots. -/
structure HostKeys (groupSize : ℕ) where
  address : ℕ → Address
  sign : ℕ → Bytes → Bytes
  slotIDs : ℕ → List ℕ
  inGroup : ∀ name, ∀ slot ∈ slotIDs name, slot < groupSize

structure Notary where
  cluster : Cluster := {}
  /-- The `Signatures` of the durable diffs. -/
  signatures : OrdMap ℕ (OrdMap ℕ Bytes) := ∅
  /-- The nonces that were marked finalized. -/
  finalized : List ℕ := []
  /-- Ghost: the keys that were accepted for an address, with that address. -/
  trusted : List (Address × Address) := []
  /-- Ghost: the state signatures that its hosts gave or received: signer, nonce and
  root. -/
  given : List (Address × ℕ × Bytes) := []

/-- Why a gossiped signature is not stored. -/
inductive GossipErr where
  | notRunning
  | slotNotInGroup (slot : ℕ)
  | marshal
  | recoverAddress
  | wrongSigner (slot : ℕ) (expected got : Address)
  | noStoredDiff (nonce : ℕ)
  | stateHashMismatch (nonce : ℕ)
  | store
  deriving DecidableEq

/-- What the signature store does during a step. -/
structure Writes where
  /-- `AddSignature` for a slot succeeds. -/
  adds : ℕ → Bool := fun _ => true
  /-- `MarkFinalized` succeeds. -/
  marks : Bool := true

namespace Notary

def sigsAt (n : Notary) (nonce : ℕ) : OrdMap ℕ Bytes := (n.signatures.get? nonce).getD ∅

/-- `AddSignature`: there must be a durable diff. -/
def addSignature (writes : Writes) (nonce slot : ℕ) (sig : Bytes) (n : Notary) : Bool × Notary :=
  if (n.cluster.diffs.get? nonce).isNone ∨ writes.adds slot = false then (false, n)
  else
    (true, { n with signatures := n.signatures.insert nonce ((n.sigsAt nonce).insert slot sig) })

def checkFinalization (writes : Writes) (groupSize nonce : ℕ) (n : Notary) : Notary :=
  if (n.cluster.diffs.get? nonce).isSome ∧
      (n.sigsAt nonce).keys.length ≥ Quorum.threshold groupSize ∧ writes.marks then
    { n with finalized := nonce :: n.finalized }
  else n

section
variable (sm₀ : StateMachine) (keys : HostKeys sm₀.group.length)

/-- The end of `signIfAccepted`: the host's signature for all its slots; a slot that
cannot be written is skipped. -/
def storeOwn (writes : Writes) (s : StateSignature) (n : Notary) : Notary :=
  match sessionSignatureContent s.root sm₀.escrowID s.nonce with
  | none => n
  | some data =>
    let trusted := (keys.slotIDs s.host).map fun slot => (keys.address s.host, sm₀.slotAddress slot)
    let given := [(keys.address s.host, s.nonce, s.root)]
    ((keys.slotIDs s.host).foldl
      (fun n slot => (addSignature writes s.nonce slot (keys.sign s.host data) n).2)
      { n with trusted := trusted ++ n.trusted, given := given ++ n.given }).checkFinalization
        writes sm₀.group.length s.nonce

def addSignatures (writes : Writes) (nonce : ℕ) (sig : Bytes) : List ℕ → Notary → Bool × Notary
  | [], n => (true, n)
  | slot :: slots, n =>
    match n.addSignature writes nonce slot sig with
    | (false, n) => (false, n)
    | (true, n) => addSignatures writes nonce sig slots n

end

section
variable (recoverAddress : Bytes → Bytes → Option Address) (sm₀ : StateMachine)

/-- `AccumulateGossipSig` of a running host. -/
def accumulateGossipSig (name nonce : ℕ) (stateHash sig : Bytes) (senderSlot : ℕ)
    (resolver : Address → Address → Bool) (writes : Writes) (n : Notary) :
    Except GossipErr Unit × Notary :=
  match n.cluster.hosts.get? name with
  | none => (.error .notRunning, n)
  | some h =>
    match sm₀.slotToAddress.get? senderSlot with
    | none => (.error (.slotNotInGroup senderSlot), n)
    | some expected =>
      match sessionSignatureContent stateHash sm₀.escrowID nonce with
      | none => (.error .marshal, n)
      | some data =>
        match recoverAddress data sig with
        | none => (.error .recoverAddress, n)
        | some addr =>
          let n := { n with given := (addr, nonce, stateHash) :: n.given }
          if addr ≠ expected ∧ h.world.sm.warmKeys.get? senderSlot ≠ some addr ∧
              resolver addr expected = false then
            (.error (.wrongSigner senderSlot expected addr), n)
          else
            match n.cluster.diffs.get? nonce with
            | none => (.error (.noStoredDiff nonce), n)
            | some rec =>
              if rec.stateHash ≠ stateHash then (.error (.stateHashMismatch nonce), n)
              else
                match addSignatures writes nonce sig (sm₀.addressToSlots expected)
                    { n with trusted := (addr, expected) :: n.trusted } with
                | (false, n) => (.error .store, n)
                | (true, n) => (.ok (), n.checkFinalization writes sm₀.group.length nonce)

end

end Notary

inductive NotaryEvent where
  /-- An event of the hosts; a signature that they give is stored. -/
  | hosts (ev : Event) (writes : Writes)
  | gossip (name nonce : ℕ) (stateHash sig : Bytes) (senderSlot : ℕ)
      (resolver : Address → Address → Bool) (writes : Writes)

namespace Notary

variable (recoverAddress : Bytes → Bytes → Option Address) (sm₀ : StateMachine)
  (keys : HostKeys sm₀.group.length)

def step (ev : NotaryEvent) (n : Notary) : Notary :=
  match ev with
  | .hosts ev writes =>
    let cluster := n.cluster.step recoverAddress sm₀ ev
    -- a step gives at most one signature
    (cluster.signed.drop n.cluster.signed.length).foldl
      (fun n s => n.storeOwn sm₀ keys writes s) { n with cluster }
  | .gossip name nonce stateHash sig senderSlot resolver writes =>
    (n.accumulateGossipSig recoverAddress sm₀ name nonce stateHash sig senderSlot resolver writes).2

def run (events : List NotaryEvent) : Notary := Along.run (step recoverAddress sm₀ keys) events {}

end Notary

/-! ### Stored signatures -/

namespace Notary

variable {recoverAddress : Bytes → Bytes → Option Address} {sm₀ : StateMachine} {n : Notary}
  {writes : Writes} {nonce slot : ℕ} {sig : Bytes}

variable (sm₀) in
/-- The owner of the slot, or a key that the hosts of this store have accepted for the
owner, has signed the root at the nonce. -/
def SignedFor (n : Notary) (nonce slot : ℕ) (root : Bytes) : Prop :=
  ∃ addr, (addr, nonce, root) ∈ n.given ∧
    (addr = sm₀.slotAddress slot ∨ (addr, sm₀.slotAddress slot) ∈ n.trusted)

variable (recoverAddress sm₀) in
/-- The invariant: what is stored beside a durable diff is signed for its state hash,
and a finalized nonce has a quorum. -/
structure Sound (n : Notary) : Prop where
  cluster : n.cluster.Safe recoverAddress sm₀
  fromOne : n.cluster.diffs.get? 0 = none
  stored : ∀ nonce slot sig, (n.sigsAt nonce).get? slot = some sig → slot < sm₀.group.length ∧
    ∃ rec, n.cluster.diffs.get? nonce = some rec ∧
      n.SignedFor sm₀ nonce slot rec.stateHash
  finalized : ∀ nonce ∈ n.finalized,
    Quorum.threshold sm₀.group.length ≤ (n.sigsAt nonce).keys.length ∧
      (n.cluster.diffs.get? nonce).isSome = true

variable (h : n.Sound recoverAddress sm₀)

include h in
theorem Sound.observe (pairs : List (Address × Address)) (given : List (Address × ℕ × Bytes)) :
    ({ n with trusted := pairs ++ n.trusted, given := given ++ n.given } : Notary).Sound
      recoverAddress sm₀ := by
  refine ⟨h.cluster, h.fromOne, fun nonce slot sig hsig => ?_, h.finalized⟩
  obtain ⟨hslot, rec, hrec, addr, hgiven, howner⟩ := h.stored nonce slot sig hsig
  exact ⟨hslot, rec, hrec, addr, mem_append_right _ hgiven,
    howner.imp_right fun hmem => mem_append_right _ hmem⟩

theorem sigsAt_addSignature (writes : Writes) (nonce slot : ℕ) (sig : Bytes) (n : Notary)
    (nonce' : ℕ) :
    (n.addSignature writes nonce slot sig).2.sigsAt nonce' = n.sigsAt nonce' ∨
      nonce' = nonce ∧ (n.cluster.diffs.get? nonce).isSome = true ∧
        (n.addSignature writes nonce slot sig).2.sigsAt nonce'
          = (n.sigsAt nonce).insert slot sig := by
  unfold addSignature
  split
  · exact .inl rfl
  next hstored =>
  unfold sigsAt
  rw [get?_insert]
  split
  · next heq =>
    refine .inr ⟨heq, ?_, rfl⟩
    rw [not_or] at hstored
    rw [← not_isNone, Bool.eq_false_iff.mpr hstored.1]
    rfl
  · exact .inl rfl

theorem addSignature_same (writes : Writes) (nonce slot : ℕ) (sig : Bytes) (n : Notary) :
    (n.addSignature writes nonce slot sig).2.cluster = n.cluster ∧
    (n.addSignature writes nonce slot sig).2.finalized = n.finalized ∧
    (n.addSignature writes nonce slot sig).2.trusted = n.trusted ∧
    (n.addSignature writes nonce slot sig).2.given = n.given := by
  unfold addSignature
  split <;> exact ⟨rfl, rfl, rfl, rfl⟩

include h in
theorem Sound.addSignature (hslot : slot < sm₀.group.length)
    (hsigned : ∀ rec, n.cluster.diffs.get? nonce = some rec →
      n.SignedFor sm₀ nonce slot rec.stateHash)
    (writes : Writes) (sig : Bytes) :
    (n.addSignature writes nonce slot sig).2.Sound recoverAddress sm₀ := by
  obtain ⟨hcluster, hfinalized, htrusted, hgiven⟩ := addSignature_same writes nonce slot sig n
  have hsigs := sigsAt_addSignature writes nonce slot sig n
  generalize (n.addSignature writes nonce slot sig).2 = n' at hcluster hfinalized htrusted hgiven hsigs ⊢
  have hfor : ∀ nonce' slot' root, n.SignedFor sm₀ nonce' slot' root →
      n'.SignedFor sm₀ nonce' slot' root := by
    unfold SignedFor
    rw [htrusted, hgiven]
    exact fun _ _ _ h => h
  refine ⟨hcluster ▸ h.cluster, hcluster ▸ h.fromOne, fun nonce' slot' sig' hsig => ?_,
    fun nonce' hmem => ?_⟩
  · rw [hcluster]
    rcases hsigs nonce' with hsame | ⟨rfl, hdiff, hinsert⟩
    · rw [hsame] at hsig
      obtain ⟨hlt, rec, hrec, hold⟩ := h.stored nonce' slot' sig' hsig
      exact ⟨hlt, rec, hrec, hfor _ _ _ hold⟩
    · rw [hinsert, get?_insert] at hsig
      split at hsig
      · next heq =>
        rw [heq]
        obtain ⟨rec, hrec⟩ := isSome_iff_exists.mp hdiff
        exact ⟨hslot, rec, hrec, hfor _ _ _ (hsigned rec hrec)⟩
      · obtain ⟨hlt, rec, hrec, hold⟩ := h.stored nonce' slot' sig' hsig
        exact ⟨hlt, rec, hrec, hfor _ _ _ hold⟩
  · rw [hfinalized] at hmem
    obtain ⟨hquorum, hdiff⟩ := h.finalized nonce' hmem
    rw [hcluster]
    refine ⟨?_, hdiff⟩
    rcases hsigs nonce' with hsame | ⟨rfl, -, hinsert⟩
    · rw [hsame]
      exact hquorum
    · rw [hinsert]
      exact hquorum.trans (length_keys_le_insert _ _ _)

include h in
theorem Sound.checkFinalization (nonce : ℕ) :
    (n.checkFinalization writes sm₀.group.length nonce).Sound recoverAddress sm₀ := by
  unfold Notary.checkFinalization
  split
  · next hquorum =>
    refine ⟨h.cluster, h.fromOne, h.stored, fun nonce' hmem => ?_⟩
    rcases mem_cons.mp hmem with rfl | hmem
    · exact ⟨hquorum.2.1, hquorum.1⟩
    · exact h.finalized nonce' hmem
  · exact h

/-- Every slot of the list may be written: it is a slot of the group, and signed for. -/
def Writable (sm₀ : StateMachine) (n : Notary) (nonce : ℕ) (slots : List ℕ) : Prop :=
  ∀ slot ∈ slots, slot < sm₀.group.length ∧ ∀ rec, n.cluster.diffs.get? nonce = some rec →
    n.SignedFor sm₀ nonce slot rec.stateHash

variable {slots : List ℕ} {keys : HostKeys sm₀.group.length}

theorem Writable.addSignature {slot' : ℕ} (h : n.Writable sm₀ nonce (slot' :: slots))
    (writes : Writes) (slot : ℕ) (sig : Bytes) :
    (n.addSignature writes nonce slot sig).2.Writable sm₀ nonce slots := by
  obtain ⟨hcluster, -, htrusted, hgiven⟩ := addSignature_same writes nonce slot sig n
  intro slot'' hslot
  obtain ⟨hlt, hsigned⟩ := h slot'' (mem_cons_of_mem _ hslot)
  refine ⟨hlt, fun rec hrec => ?_⟩
  rw [hcluster] at hrec
  have := hsigned rec hrec
  unfold SignedFor at this ⊢
  rw [htrusted, hgiven]
  exact this

include h in
theorem Sound.foldl_addSignature (hslots : n.Writable sm₀ nonce slots) :
    (slots.foldl (fun n slot => (Notary.addSignature writes nonce slot sig n).2) n).Sound
      recoverAddress sm₀ := by
  induction slots generalizing n with
  | nil => exact h
  | cons slot _ ih =>
    obtain ⟨hlt, hsigned⟩ := hslots slot mem_cons_self
    exact ih (h.addSignature hlt hsigned writes sig) (hslots.addSignature writes slot sig)

include h in
theorem Sound.addSignatures (hslots : n.Writable sm₀ nonce slots) (writes : Writes) (sig : Bytes) :
    (Notary.addSignatures writes nonce sig slots n).2.Sound recoverAddress sm₀ := by
  induction slots generalizing n with
  | nil => exact h
  | cons slot _ ih =>
    obtain ⟨hlt, hsigned⟩ := hslots slot mem_cons_self
    have hnext := h.addSignature hlt hsigned writes sig
    have hrest := hslots.addSignature writes slot sig
    unfold Notary.addSignatures
    split
    · next n' hadd =>
      rw [hadd] at hnext
      exact hnext
    · next hadd =>
      rw [hadd] at hnext hrest
      exact ih hnext hrest

theorem stateHash_of_durable {diffs : OrdMap ℕ DiffRecord} {rec : DiffRecord} {root : Bytes}
    (hone : diffs.get? 0 = none) (hrec : diffs.get? nonce = some rec)
    (hsigned : SignedSafe recoverAddress sm₀ diffs nonce root) : rec.stateHash = root := by
  obtain ⟨_, hfold, hroot⟩ := hsigned
  cases nonce with
  | zero =>
    rw [hone] at hrec
    cases hrec
  | succ =>
    obtain ⟨_, _, -, hrec', hreplay⟩ := Journal.fold_succ.mp hfold
    rw [hrec] at hrec'
    cases hrec'
    obtain ⟨_, -, hcore, rfl⟩ := replayRecord_eq_some.mp hreplay
    obtain ⟨-, ⟨_, -, hclose⟩, -⟩ := applyCore_ok_iff.mp hcore
    obtain ⟨-, -, -, -, -, hcomputed⟩ := closeNonce_ok_iff.mp hclose
    rw [hcomputed] at hroot
    exact some_inj.mp hroot

include h in
theorem Sound.storeOwn {s : StateSignature}
    (hsigned : SignedSafe recoverAddress sm₀ n.cluster.diffs s.nonce s.root) :
    (n.storeOwn sm₀ keys writes s).Sound recoverAddress sm₀ := by
  unfold Notary.storeOwn
  split
  · exact h
  next data hdata =>
  refine ((h.observe _ _).foldl_addSignature ?_).checkFinalization s.nonce
  intro slot hslot
  refine ⟨keys.inGroup s.host slot hslot, fun rec hrec => ?_⟩
  rw [stateHash_of_durable h.fromOne hrec hsigned]
  exact ⟨keys.address s.host, mem_cons_self,
    .inr (mem_append_left _ (mem_map.mpr ⟨slot, hslot, rfl⟩))⟩

/-- **Gossip.**  Only signatures of the durable state hash are stored. -/
theorem Sound.accumulateGossipSig (hgroup : validateGroup sm₀.group)
    (h : n.Sound recoverAddress sm₀) (name nonce : ℕ) (stateHash sig : Bytes) (senderSlot : ℕ)
    (resolver : Address → Address → Bool) (writes : Writes) :
    (n.accumulateGossipSig recoverAddress sm₀ name nonce stateHash sig senderSlot resolver
      writes).2.Sound recoverAddress sm₀ := by
  unfold Notary.accumulateGossipSig
  split
  · exact h
  split
  · exact h
  next expected _ =>
  split
  · exact h
  next data hdata =>
  split
  · exact h
  next addr _ =>
  have hseen := h.observe [] [(addr, nonce, stateHash)]
  dsimp only
  split
  · exact hseen
  split
  · exact hseen
  next rec hrec =>
  split
  · exact hseen
  next hhash =>
  have hwritable : ({ n with
      trusted := (addr, expected) :: n.trusted
      given := (addr, nonce, stateHash) :: n.given } : Notary).Writable sm₀ nonce
        (sm₀.addressToSlots expected) := by
    intro slot hslot
    have hget := EscrowState.mem_addressToSlots.mp hslot
    have haddress : sm₀.slotAddress slot = expected := by
      unfold EscrowState.slotAddress
      rw [hget]
      rfl
    refine ⟨?_, fun rec' hrec' => ?_⟩
    · obtain ⟨s, hs, rfl, -⟩ := (EscrowState.slotToAddress_get? hgroup).mp hget
      exact validateGroup_slotID_lt hgroup hs
    · rw [show rec' = rec from some_inj.mp (hrec'.symm.trans hrec), not_not.mp hhash]
      exact ⟨addr, mem_cons_self, .inr (haddress ▸ mem_cons_self)⟩
  have hstored : (Notary.addSignatures writes nonce sig (sm₀.addressToSlots expected) { n with
        trusted := (addr, expected) :: n.trusted
        given := (addr, nonce, stateHash) :: n.given }).2.Sound recoverAddress sm₀ :=
    (h.observe [(addr, expected)] [(addr, nonce, stateHash)]).addSignatures hwritable writes sig
  split
  · next n' hadd =>
    rw [hadd] at hstored
    exact hstored
  · next hadd =>
    rw [hadd] at hstored
    exact hstored.checkFinalization nonce

theorem foldl_addSignature_cluster (slots : List ℕ) (n : Notary) :
    (slots.foldl (fun n slot => (Notary.addSignature writes nonce slot sig n).2) n).cluster
      = n.cluster := by
  induction slots generalizing n with
  | nil => rfl
  | cons slot _ ih => exact (ih _).trans (addSignature_same writes nonce slot sig n).1

theorem storeOwn_cluster (keys : HostKeys sm₀.group.length) (writes : Writes)
    (s : StateSignature) (n : Notary) : (n.storeOwn sm₀ keys writes s).cluster = n.cluster := by
  unfold storeOwn
  split
  · rfl
  unfold checkFinalization
  dsimp only
  split <;> exact foldl_addSignature_cluster _ _

include h in
theorem Sound.foldl_storeOwn {signed : List StateSignature}
    (hsigned : ∀ s ∈ signed, SignedSafe recoverAddress sm₀ n.cluster.diffs s.nonce s.root) :
    (signed.foldl (fun n s => n.storeOwn sm₀ keys writes s) n).Sound recoverAddress sm₀ := by
  induction signed generalizing n with
  | nil => exact h
  | cons s _ ih =>
    refine ih (h.storeOwn (hsigned s mem_cons_self)) fun s' hs' => ?_
    rw [storeOwn_cluster]
    exact hsigned s' (mem_cons_of_mem _ hs')

theorem step_fromOne {c : Cluster} (hsafe : c.Safe recoverAddress sm₀)
    (hone : c.diffs.get? 0 = none) (ev : Event) :
    (c.step recoverAddress sm₀ ev).diffs.get? 0 = none := by
  rcases Cluster.step_diffs ev c with
    hsame | ⟨name, h, r, vd, rec, attempt, hh, hr, hpoint, hdiffs⟩
  · rw [hsame]
    exact hone
  have hpending := hsafe.requests name h hh r hr
  rw [hpoint] at hpending
  obtain ⟨_, -, _, _, -⟩ := hpending
  rw [hdiffs]
  by_contra hsome
  obtain ⟨_, hrec'⟩ := ne_none_iff_exists'.mp hsome
  rcases Journal.get?_offer hrec' with hold | ⟨_, -⟩
  · rw [hone] at hold
    cases hold
  · omega

variable (hnamed : ∀ data sig addr, recoverAddress data sig = some addr → addr ≠ [])
  (hgroup : validateGroup sm₀.group) (hzero : sm₀.latestNonce = 0)

include h hnamed hzero in
theorem Sound.hosts {ev : Event} (hcut : ¬ n.cluster.LeavesBindings recoverAddress ev) :
    (n.step recoverAddress sm₀ keys (.hosts ev writes)).Sound recoverAddress sm₀ := by
  have hsafe := Cluster.step_safe hnamed hzero h.cluster hcut
  have hgrow : Journal.Extends n.cluster.diffs (n.cluster.step recoverAddress sm₀ ev).diffs :=
    Cluster.step_extends ev n.cluster
  have hcluster : ({ n with cluster := n.cluster.step recoverAddress sm₀ ev } : Notary).Sound
      recoverAddress sm₀ := by
    refine ⟨hsafe, step_fromOne h.cluster h.fromOne ev, fun nonce slot sig hsig => ?_,
      fun nonce hmem => ?_⟩
    · obtain ⟨hlt, rec, hrec, hsigned⟩ := h.stored nonce slot sig hsig
      exact ⟨hlt, rec, hgrow nonce rec hrec, hsigned⟩
    · obtain ⟨hquorum, hdiff⟩ := h.finalized nonce hmem
      obtain ⟨rec, hrec⟩ := isSome_iff_exists.mp hdiff
      exact ⟨hquorum, isSome_iff_exists.mpr ⟨rec, hgrow nonce rec hrec⟩⟩
  exact hcluster.foldl_storeOwn fun s hs => hsafe.signed s (mem_of_mem_drop hs)

/-- A replay of this event is cut short and leaves the bindings it has injected. -/
def LeavesBindings (recoverAddress : Bytes → Bytes → Option Address) (n : Notary) :
    NotaryEvent → Prop
  | .hosts ev _ => n.cluster.LeavesBindings recoverAddress ev
  | .gossip .. => False

theorem empty_sound : ({} : Notary).Sound recoverAddress sm₀ := by
  refine ⟨Cluster.empty_safe, rfl, fun nonce slot sig hsig => ?_, fun nonce hmem => ?_⟩
  · cases hsig
  · cases hmem

include h hnamed hgroup hzero in
theorem Sound.step {ev : NotaryEvent} (hcut : ¬ n.LeavesBindings recoverAddress ev) :
    (n.step recoverAddress sm₀ keys ev).Sound recoverAddress sm₀ := by
  cases ev with
  | hosts => exact h.hosts hnamed hzero hcut
  | gossip name nonce stateHash sig senderSlot resolver writes =>
    exact h.accumulateGossipSig hgroup name nonce stateHash sig senderSlot resolver writes

include hnamed hgroup hzero in
theorem run_sound {events : List NotaryEvent} (hrun : Along.EachStep (step recoverAddress sm₀ keys)
      (fun n ev => ¬ n.LeavesBindings recoverAddress ev) events {}) :
    (run recoverAddress sm₀ keys events).Sound recoverAddress sm₀ :=
  Along.run_of_eachStep (fun _ _ h hcut => h.step hnamed hgroup hzero hcut) empty_sound hrun

include h in
theorem Sound.quorum {rec : DiffRecord} (hfinal : nonce ∈ n.finalized)
    (hrec : n.cluster.diffs.get? nonce = some rec) :
    ∃ A ⊆ Finset.range sm₀.group.length, Quorum.threshold sm₀.group.length ≤ A.card ∧
      ∀ slot ∈ A, n.SignedFor sm₀ nonce slot rec.stateHash := by
  have hsigned : ∀ slot ∈ (n.sigsAt nonce).keys.toFinset, slot < sm₀.group.length ∧
      n.SignedFor sm₀ nonce slot rec.stateHash := by
    intro slot hslot
    obtain ⟨sig, hsig⟩ := mem_keys.mp (mem_toFinset.mp hslot)
    obtain ⟨hlt, _, hrec', hfor⟩ := h.stored nonce slot sig hsig
    rw [hrec] at hrec'
    cases hrec'
    exact ⟨hlt, hfor⟩
  refine ⟨(n.sigsAt nonce).keys.toFinset, fun slot hslot => Finset.mem_range.mpr (hsigned slot hslot).1,
    ?_, fun slot hslot => (hsigned slot hslot).2⟩
  rw [toFinset_card_of_nodup (keys_nodup _)]
  exact (h.finalized nonce hfinal).1

end Notary

section
variable {recoverAddress : Bytes → Bytes → Option Address} {escrowID : Bytes}
  {config : SessionConfig} {group : List SlotAssignment} {balance : UInt64} {userAddress : Address}
  {version : Bytes} {sm₀ : StateMachine}

/-- **Finalization agreement.**  Two stores, each with any hosts, any gossip and any
faults, in whose runs no replay is cut short: if they have finalized one nonce with
different state hashes, the owners of more than a third of the slots have signed two
roots for it. -/
theorem finalization_agreement
    (hnamed : ∀ data sig addr, recoverAddress data sig = some addr → addr ≠ [])
    (hgroup : validateGroup group)
    (hnew : newStateMachine escrowID config group balance userAddress version = .ok sm₀)
    (keys keys' : HostKeys sm₀.group.length) (events events' : List NotaryEvent)
    (hrun : Along.EachStep (Notary.step recoverAddress sm₀ keys) (fun n ev => ¬ n.LeavesBindings recoverAddress ev)
      events {})
    (hrun' : Along.EachStep (Notary.step recoverAddress sm₀ keys')
      (fun n ev => ¬ n.LeavesBindings recoverAddress ev) events' {})
    {nonce : ℕ} {rec rec' : DiffRecord} (hfinal : nonce ∈ (Notary.run recoverAddress sm₀ keys events).finalized)
    (hfinal' : nonce ∈ (Notary.run recoverAddress sm₀ keys' events').finalized)
    (hrec : (Notary.run recoverAddress sm₀ keys events).cluster.diffs.get? nonce = some rec)
    (hrec' : (Notary.run recoverAddress sm₀ keys' events').cluster.diffs.get? nonce = some rec')
    (hne : rec.stateHash ≠ rec'.stateHash) :
    ∃ E ⊆ Finset.range group.length, group.length < 3 * E.card ∧
      ∀ slot ∈ E, ∃ root root', root ≠ root' ∧
        (Notary.run recoverAddress sm₀ keys events).SignedFor sm₀ nonce slot root ∧
        (Notary.run recoverAddress sm₀ keys' events').SignedFor sm₀ nonce slot root' := by
  obtain ⟨hsame, -, hzero, -⟩ := newStateMachine_ok hnew
  rw [← hsame] at hgroup ⊢
  have hsound := Notary.run_sound hnamed hgroup hzero hrun
  have hsound' := Notary.run_sound hnamed hgroup hzero hrun'
  obtain ⟨A, hA, hcardA, hforA⟩ := hsound.quorum hfinal hrec
  obtain ⟨B, hB, hcardB, hforB⟩ := hsound'.quorum hfinal' hrec'
  rw [← Finset.card_range sm₀.group.length] at hcardA hcardB
  obtain ⟨E, hE, hcard, hboth⟩ := Quorum.equivocators hne hA hB hcardA hcardB hforA hforB
  rw [Finset.card_range] at hcard
  exact ⟨E, hE, hcard, hboth⟩

end

def quadMachine : StateMachine :=
  { sampleMachine with
    config := normalizeSessionConfig sampleConfig 4
    group := [⟨0, [1]⟩, ⟨1, [1]⟩, ⟨2, [2]⟩, ⟨3, [3]⟩]
    hostStats := ((((∅ : OrdMap ℕ HostStats).insert 0 {}).insert 1 {}).insert 2 {}).insert 3 {} }

def quadKeys (address : Address) (slots : List ℕ)
    (h : ∀ slot ∈ slots, slot < quadMachine.group.length) : HostKeys quadMachine.group.length where
  address _ := address
  sign _ _ := address
  slotIDs _ := slots
  inGroup _ := h

theorem quad_slots : ∀ slot ∈ [0, 1], slot < quadMachine.group.length := by decide

/-- The host of slots 0 and 1 applies a first diff and signs; then the owner of slot 2
gossips its signature. -/
def quadEvents (txs : List DevshardTx) : List NotaryEvent :=
  let events : List Event := [.start 0, .request 0 .handleRequest [⟨1, txs, [9], []⟩]]
    ++ List.replicate 7 (.step 0 0 {})
  let own : List NotaryEvent := events.map fun ev => .hosts ev {}
  let signed := Notary.run namedSigner quadMachine (quadKeys [1] [0, 1] quad_slots) own
  own ++ [.gossip 0 1 (((signed.cluster.diffs.get? 1).map DiffRecord.stateHash).getD []) [2] 2
    (fun _ _ => false) {}]

def quadNotary (txs : List DevshardTx) : Notary :=
  Notary.run namedSigner quadMachine (quadKeys [1] [0, 1] quad_slots) (quadEvents txs)

theorem quadEvents_cut (txs : List DevshardTx) :
    Along.EachStep (Notary.step namedSigner quadMachine (quadKeys [1] [0, 1] quad_slots))
      (fun n ev => ¬ n.LeavesBindings namedSigner ev) (quadEvents txs) {} := by
  refine Along.eachStep_of_forall (fun ev hev n => ?_) _
  rcases mem_append.mp hev with hown | hgossip
  · obtain ⟨_, hev', rfl⟩ := mem_map.mp hown
    refine Cluster.not_leavesBindings_of_accepts ?_ n.cluster
    simp only [cons_append, nil_append, mem_cons, mem_replicate] at hev'
    rcases hev' with rfl | rfl | ⟨-, rfl⟩
    · trivial
    · trivial
    · exact fun _ _ => rfl
  · rw [mem_singleton.mp hgossip]
    exact id

/-- The user signs two diffs for nonce 1, and the owners of slots 0, 1 and 2 both
states. -/
theorem finalization_agreement_quad :
    ∃ E ⊆ Finset.range 4, 4 < 3 * E.card ∧ ∀ slot ∈ E, ∃ root root', root ≠ root' ∧
      (quadNotary []).SignedFor quadMachine 1 slot root ∧
      (quadNotary [.finalizeRound]).SignedFor quadMachine 1 slot root' := by
  have hstores : 1 ∈ (quadNotary []).finalized ∧ 1 ∈ (quadNotary [.finalizeRound]).finalized ∧
      ((quadNotary []).cluster.diffs.get? 1).isSome = true ∧
      ((quadNotary [.finalizeRound]).cluster.diffs.get? 1).isSome = true ∧
      ((quadNotary []).cluster.diffs.get? 1).map DiffRecord.stateHash
        ≠ ((quadNotary [.finalizeRound]).cluster.diffs.get? 1).map DiffRecord.stateHash := by
    decide +kernel
  obtain ⟨hfinal, hfinal', hsome, hsome', hne⟩ := hstores
  obtain ⟨_, hrec⟩ := Option.isSome_iff_exists.mp hsome
  obtain ⟨_, hrec'⟩ := Option.isSome_iff_exists.mp hsome'
  rw [hrec, hrec'] at hne
  unfold quadNotary at hrec hrec' ⊢
  have hnew : newStateMachine [] sampleConfig quadMachine.group 1000 [9] [] = .ok quadMachine := rfl
  have hgroup : validateGroup quadMachine.group := by decide
  exact finalization_agreement namedSigner_ne_nil hgroup hnew
    (quadKeys [1] [0, 1] quad_slots) (quadKeys [1] [0, 1] quad_slots)
    (quadEvents []) (quadEvents [.finalizeRound]) (quadEvents_cut []) (quadEvents_cut [.finalizeRound])
    hfinal hfinal' hrec hrec' fun h => hne (congrArg some h)

/-! ### A replay that is cut short -/

/-- Four diffs.  The user signs two second ones, which differ in the key that confirms
the inference: the owner's, or its warm key. -/
def quadDiffs (confirmer : Bytes) : List Diff :=
  [⟨1, [sampleStart 1, .finalizeRound], [9], []⟩, ⟨2, [.confirmStart ⟨1, confirmer, 6⟩], [9], []⟩,
    ⟨3, [], [9], []⟩, ⟨4, [], [9], []⟩]

def boundDiff : Diff := ⟨5, [.finishInference ⟨1, [], 0, 0, 1, [7], []⟩], [9], []⟩

/-- The owner of slots 0 and 1 runs two hosts over its store.  The first one stores
five diffs and signs nothing.  The second one replays them; the observability store
is down for the fifth.  Then it signs. -/
def cutEvents : List NotaryEvent :=
  let events : List Event := [.start 0, .request 0 .applyCatchUpDiffs (quadDiffs [1] ++ [boundDiff])]
    ++ List.replicate 22 (.step 0 0 granting)
    ++ [.start 1, .request 1 .handleRequest [⟨6, [], [9], []⟩]]
    ++ List.replicate 9 (.step 1 0 granting)
    ++ [.step 1 0 { obsStore := fun _ _ => false }, .request 1 .handleRequest []]
    ++ List.replicate 3 (.step 1 1 granting)
  events.map fun ev => .hosts ev {}

def otherEvents : List NotaryEvent :=
  let events : List Event := [.start 0, .request 0 .handleRequest (quadDiffs [7])]
    ++ List.replicate 19 (.step 0 0 granting)
  events.map fun ev => .hosts ev {}

/-- The store of the owner of slots 0 and 1, which then gets the signature of the
owner of slot 2. -/
def cutNotary : Notary :=
  let n := Notary.run namedSigner quadMachine (quadKeys [1] [0, 1] (by decide)) cutEvents
  let stateHash := ((n.cluster.diffs.get? 4).map DiffRecord.stateHash).getD []
  (n.accumulateGossipSig namedSigner quadMachine 1 4 stateHash [2] 2 (fun _ _ => false) {}).2

/-- The store of the owner of slot 3, which then gets the signature of the owner of
slots 0 and 1. -/
def otherNotary : Notary :=
  let n := Notary.run namedSigner quadMachine (quadKeys [3] [3] (by decide)) otherEvents
  let stateHash := ((n.cluster.diffs.get? 4).map DiffRecord.stateHash).getD []
  (n.accumulateGossipSig namedSigner quadMachine 0 4 stateHash [1] 0 (fun _ _ => false) {}).2

/-- The second host is left at nonce 4 with the binding of nonce 5, and signs the root
of the other store.  Both stores finalize nonce 4 with different state hashes, and
nobody has signed two roots. -/
theorem cut_replay_finalizes_two :
    validateGroup quadMachine.group ∧
    newStateMachine [] sampleConfig quadMachine.group 1000 [9] [] = .ok quadMachine ∧
    4 ∈ cutNotary.finalized ∧ 4 ∈ otherNotary.finalized ∧
    (cutNotary.cluster.diffs.get? 4).map DiffRecord.stateHash
      ≠ (otherNotary.cluster.diffs.get? 4).map DiffRecord.stateHash ∧
    ∀ x ∈ cutNotary.given ++ otherNotary.given, ∀ y ∈ cutNotary.given ++ otherNotary.given,
      x.1 = y.1 → x.2.1 = y.2.1 → x.2.2 = y.2.2 :=
  ⟨by decide, rfl, by decide +kernel⟩

end Devshard
