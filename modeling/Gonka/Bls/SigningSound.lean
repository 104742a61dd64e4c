/-
The signing requests stay sound.

The four stores of the module belong together: the index has exactly the collecting requests,
each at its deadline; the sub-keys of a request hold signatures of its current attempt; and
they stay below the threshold as long as the request collects.  A request that is completed
or cancelled stays so, and attempts only go up, to the maximum.

All this needs that requests have an id.  The interface asks for one of 32 bytes, and all
callers give a hash, but the keeper does not look: the index entry of a request with an empty
id is taken for a malformed key, and deleted at the next end of a block.

Main results: `signing_requests_sound`, `unnamed_request_loses_deadline`.
-/
import Gonka.Bls.SigningSteps

namespace ThresholdSigning

open OrdMap List Option Store

def Owns (epoch : EpochBLSData) (submitter : Address) (slot : ℕ) : Prop :=
  ∃ p ∈ epoch.participants, p.address = submitter ∧ p.slotStartIndex ≤ slot ∧ slot ≤ p.slotEndIndex

/-- The signature was accepted for the current attempt at the request, over distinct slots of
its submitter. -/
def Taken (env : Env) (s : Store) (r : ThresholdSigningRequest) (ps : PartialSignature) : Prop :=
  ⟨r.requestId, r.attempt, r.messageHash, ps⟩ ∈ s.accepted ∧ ps.slotIndices.Nodup ∧
    ∃ epoch, env.epochs r.currentEpochId = some epoch ∧
      ∀ slot ∈ ps.slotIndices, Owns epoch ps.participantAddress slot

structure RequestOk (env : Env) (s : Store) (r : ThresholdSigningRequest) : Prop where
  named : r.requestId ≠ []
  attempt_pos : 1 ≤ r.attempt
  attempt_le : r.attempt ≤ env.params.maxAttempts
  /-- only the last attempt ends without a signature -/
  spent : r.status = .failed ∨ r.status = .expired → env.params.maxAttempts ≤ r.attempt
  partials : ∀ ps ∈ s.listPartials r.requestId, Taken env s r ps
  /-- a collecting request is below the threshold -/
  below : r.status = .collecting → ∀ epoch, env.epochs r.currentEpochId = some epoch →
    (coveredSlots (s.listPartials r.requestId)).length < epoch.tSlotsDegree + 1
  /-- the signature of a completed request comes from the signatures of its last attempt -/
  signed : r.status = .completed → ∃ epoch partials, env.epochs r.currentEpochId = some epoch ∧
    partials.Perm (s.listPartials r.requestId) ∧
    aggregatePartialSignatures env partials = some r.finalSignature ∧
    (coveredSlots partials).Nodup ∧ epoch.tSlotsDegree + 1 ≤ (coveredSlots partials).length

/-- **The stores belong together.** -/
structure Sound (env : Env) (s : Store) : Prop where
  keyed : s.Keyed
  requests : ∀ id r, s.requests.get? id = some r → RequestOk env s r
  /-- exactly the collecting requests are in the index, each at its deadline -/
  index : ∀ d id, s.Indexed d id ↔
    ∃ r, s.requests.get? id = some r ∧ r.status = .collecting ∧ r.deadlineBlockHeight = d
  fresh : ∀ id, s.requests.get? id = none → s.partialsOf id = ∅

/-- Attempts do not go down, and completed and cancelled requests stay as they are. -/
def Advances (s s' : Store) : Prop :=
  ∀ id r, s.requests.get? id = some r → ∃ r', s'.requests.get? id = some r' ∧
    r.attempt ≤ r'.attempt ∧ ((r.status = .completed ∨ r.status = .cancelled) → r' = r)

theorem Advances.refl (s : Store) : Advances s s :=
  fun _ r h => ⟨r, h, Nat.le_refl _, fun _ => rfl⟩

theorem Advances.trans {s₁ s₂ s₃ : Store} (h₁ : Advances s₁ s₂) (h₂ : Advances s₂ s₃) :
    Advances s₁ s₃ := by
  intro id r hget
  obtain ⟨r', hget', hle', hkeep'⟩ := h₁ id r hget
  obtain ⟨r'', hget'', hle'', hkeep''⟩ := h₂ id r' hget'
  refine ⟨r'', hget'', hle'.trans hle'', ?_⟩
  intro hfinal
  obtain rfl := hkeep' hfinal
  exact hkeep'' hfinal

theorem Sound.indexed_iff {env : Env} {s : Store} (h : Sound env s) {id : RequestId}
    {r : ThresholdSigningRequest} (hget : s.requests.get? id = some r) (d : ℕ) :
    s.Indexed d id ↔ r.status = .collecting ∧ r.deadlineBlockHeight = d := by
  rw [h.index]
  constructor
  · rintro ⟨_, hget', hr'⟩
    cases hget.symm.trans hget'
    exact hr'
  · intro hr
    exact ⟨r, hget, hr⟩

theorem Sound.named {env : Env} {s : Store} (h : Sound env s) : s.Named := by
  intro key hkey
  obtain ⟨u, hu⟩ := mem_keys.mp hkey
  have hindexed : s.Indexed (ofLex key).1 (ofLex key).2 := by
    show (s.expirations.get? key).isSome
    rw [hu]
    rfl
  obtain ⟨r, hget, -⟩ := (h.index _ _).mp hindexed
  rw [← h.keyed _ r hget]
  exact (h.requests _ r hget).named

/-! ### Accepting a signature -/

section

variable {env : Env} {height : ℕ} {s s' : Store}

variable {epoch : EpochBLSData} {request r : ThresholdSigningRequest} {ps : PartialSignature}
  {last : Option PartialSignature}

theorem validateSlotOwnership_owns {submitter : Address} {slots : List ℕ}
    (h : validateSlotOwnership submitter slots epoch = .ok ()) :
    ∀ slot ∈ slots, Owns epoch submitter slot := by
  intro slot hslot
  unfold validateSlotOwnership at h
  split at h
  · nomatch h
  next p hfind =>
  split at h
  · next hall =>
    have hrange := all_eq_true.mp hall slot hslot
    have haddress := find?_some hfind
    simp only [decide_eq_true_eq] at hrange
    exact ⟨p, mem_of_find?_eq_some hfind, by simpa using haddress, hrange⟩
  · nomatch h

theorem listPartials_eq_nil {id : RequestId} (h : s.partialsOf id = ∅) : s.listPartials id = [] := by
  unfold listPartials
  rw [h]
  rfl

theorem listPartials_accept (h : Acceptable env height s request epoch ps) :
    ((s.accept request ps).listPartials request.requestId).Perm
      (s.listPartials request.requestId ++ [ps]) := by
  have hinsert : (s.accept request ps).partialsOf request.requestId =
      (s.partialsOf request.requestId).insert ps.participantAddress ps := by
    unfold accept
    rw [storeRequest_partialsOf, partialsOf_setPartial, if_pos rfl]
  unfold listPartials
  rw [hinsert]
  have hperm := (entries_insert_perm ps h.first).map (·.2)
  exact hperm.trans (perm_append_singleton ps _).symm

theorem Taken.mono (h : Taken env s r ps)
    (hsub : ∀ a ∈ s.accepted, a ∈ s'.accepted) : Taken env s' r ps :=
  ⟨hsub _ h.1, h.2⟩

theorem taken_accept (hs : Sound env s) {new : PartialSignature}
    (h : Acceptable env height s request epoch new)
    (hps : ps ∈ (s.accept request new).listPartials request.requestId) :
    Taken env (s.accept request new) request ps := by
  have hmem := (listPartials_accept h).mem_iff.mp hps
  rcases mem_append.mp hmem with hold | hnew
  · refine Taken.mono ((hs.requests _ request h.stored).partials ps hold) ?_
    intro a ha
    exact mem_cons_of_mem _ ha
  · obtain rfl := mem_singleton.mp hnew
    refine ⟨?_, h.nodup, epoch, h.known, validateSlotOwnership_owns h.owned⟩
    exact mem_cons_self

theorem taken_received (hs : Sound env s) (h : Ending env height s request last)
    (hps : ps ∈ (received request s last).listPartials request.requestId) :
    Taken env (received request s last) request ps := by
  rcases h with ⟨hget, -, -⟩ | ⟨_, _, ha, -, -⟩
  · exact (hs.requests _ request hget).partials ps hps
  · exact taken_accept hs ha hps

theorem received_accepted (request : ThresholdSigningRequest) (last : Option PartialSignature) :
    ∀ a ∈ s.accepted, a ∈ (received request s last).accepted := by
  intro a ha
  match last with
  | none => exact ha
  | some ps => exact mem_cons_of_mem _ ha

theorem received_indexed (request : ThresholdSigningRequest) (last : Option PartialSignature)
    (d : ℕ) (id : RequestId) : (received request s last).Indexed d id ↔ s.Indexed d id := by
  match last with
  | none => exact Iff.rfl
  | some ps => exact Iff.rfl

theorem partialsOf_accept_of_ne (request : ThresholdSigningRequest) (ps : PartialSignature)
    {id : RequestId} (hid : id ≠ request.requestId) :
    (s.accept request ps).partialsOf id = s.partialsOf id := by
  unfold accept
  rw [storeRequest_partialsOf, partialsOf_setPartial, if_neg hid]

theorem received_partialsOf_of_ne (request : ThresholdSigningRequest)
    (last : Option PartialSignature) {id : RequestId} (hid : id ≠ request.requestId) :
    (received request s last).partialsOf id = s.partialsOf id := by
  match last with
  | none => rfl
  | some ps => exact partialsOf_accept_of_ne request ps hid

theorem nodup_of_aggregate {partials : List PartialSignature} {sig : Bytes}
    (h : aggregatePartialSignatures env partials = some sig) : (coveredSlots partials).Nodup := by
  unfold aggregatePartialSignatures at h
  split at h
  · nomatch h
  · split at h
    · nomatch h
    · next hnodup => exact not_not.mp hnodup

theorem coveredSlots_perm {l l' : List PartialSignature} (h : l.Perm l') :
    (coveredSlots l).Perm (coveredSlots l') :=
  h.flatMap_right _

theorem RequestOk.mono (h : RequestOk env s r)
    (hlist : s'.listPartials r.requestId = s.listPartials r.requestId)
    (hsub : ∀ a ∈ s.accepted, a ∈ s'.accepted) : RequestOk env s' r where
  named := h.named
  attempt_pos := h.attempt_pos
  attempt_le := h.attempt_le
  spent := h.spent
  partials ps hps := (h.partials ps (hlist ▸ hps)).mono hsub
  below := hlist ▸ h.below
  signed := hlist ▸ h.signed

theorem RequestOk.of_empty (hid : r.requestId ≠ []) (hpos : 1 ≤ r.attempt)
    (hle : r.attempt ≤ env.params.maxAttempts) (hstatus : r.status = .collecting)
    (hempty : s.partialsOf r.requestId = ∅) : RequestOk env s r := by
  have hnil : s.listPartials r.requestId = [] := listPartials_eq_nil hempty
  refine ⟨hid, hpos, hle, by simp [hstatus], ?_, ?_, by simp [hstatus]⟩
  · intro ps hps
    rw [hnil] at hps
    nomatch hps
  · intro _ epoch _
    rw [hnil]
    exact Nat.succ_pos _

/-! ### Changes keep the stores together -/

/-- The change replaces the request, with its index entry, and leaves the others. -/
structure Updates (s s' : Store) (r : ThresholdSigningRequest) : Prop where
  requests : ∀ id, s'.requests.get? id =
    if id = r.requestId then some r else s.requests.get? id
  partials : ∀ id, id ≠ r.requestId → s'.partialsOf id = s.partialsOf id
  index : ∀ d id, s'.Indexed d id ↔
    if id = r.requestId then r.status = .collecting ∧ r.deadlineBlockHeight = d else s.Indexed d id
  accepted : ∀ a ∈ s.accepted, a ∈ s'.accepted

/-- The stored request may be replaced by `r`: it is not final, and its attempt not above. -/
def Succeeds (s : Store) (r : ThresholdSigningRequest) : Prop :=
  ∀ r₀, s.requests.get? r.requestId = some r₀ →
    r₀.attempt ≤ r.attempt ∧ r₀.status ≠ .completed ∧ r₀.status ≠ .cancelled

theorem Updates.sound (hu : Updates s s' r) (hr : RequestOk env s' r)
    (h : Sound env s) : Sound env s' where
  keyed id r' hget := by
    rw [hu.requests] at hget
    split at hget
    · next heq =>
      cases hget
      exact heq.symm
    · exact h.keyed id r' hget
  requests id r' hget := by
    rw [hu.requests] at hget
    split at hget
    · cases hget
      exact hr
    · next hid =>
      refine (h.requests id r' hget).mono ?_ hu.accepted
      unfold listPartials
      rw [h.keyed id r' hget, hu.partials id hid]
  index d id := by
    rw [hu.index, hu.requests]
    split
    · constructor
      · intro hr'
        exact ⟨r, rfl, hr'⟩
      · rintro ⟨_, hr', hstatus⟩
        cases hr'
        exact hstatus
    · exact h.index d id
  fresh id hget := by
    rw [hu.requests] at hget
    split at hget
    · nomatch hget
    · next hid =>
      rw [hu.partials id hid]
      exact h.fresh id hget

theorem Updates.advances (hu : Updates s s' r) (hr : Succeeds s r) : Advances s s' := by
  intro id r₀ hget
  rw [hu.requests]
  split
  · next heq =>
    subst heq
    obtain ⟨hle, hcompleted, hcancelled⟩ := hr r₀ hget
    refine ⟨r, rfl, hle, ?_⟩
    rintro (h | h)
    · exact absurd h hcompleted
    · exact absurd h hcancelled
  · exact ⟨r₀, hget, Nat.le_refl _, fun _ => rfl⟩

theorem Sound.not_indexed (h : Sound env s) {id : RequestId}
    (hget : s.requests.get? id = some request)
    (hstatus : request.status = .failed ∨ request.status = .expired)
    (d : ℕ) : ¬ s.Indexed d id := by
  rw [h.indexed_iff hget]
  rintro ⟨hcollecting, -⟩
  rcases hstatus with hs | hs <;> exact absurd (hs.symm.trans hcollecting) (by decide)

theorem createRequest_updates (attempt : ℕ) (data : SigningData) {s₀ : Store}
    (hrequests : s₀.requests = s.requests)
    (hpartials : ∀ id, id ≠ data.requestId → s₀.partialsOf id = s.partialsOf id)
    (hindex : ∀ d id, s₀.Indexed d id ↔ id ≠ data.requestId ∧ s.Indexed d id)
    (haccepted : s₀.accepted = s.accepted) :
    Updates s (createRequest env height attempt data s₀) (newRequest env height attempt data) where
  requests id := by
    simp only [createRequest, setExpiration_requests, get?_storeRequest]
    rw [hrequests]
  partials id hid := hpartials id hid
  index d id := by
    simp only [createRequest, indexed_setExpiration, indexed_storeRequest, hindex]
    by_cases hid : id = data.requestId
    · simp [hid, newRequest, eq_comm]
    · simp [hid, newRequest]
  accepted a ha := by
    show a ∈ s₀.accepted
    rw [haccepted]
    exact ha

theorem createRequest_ok {attempt : ℕ} {data : SigningData} {s₀ : Store}
    (hid : data.requestId ≠ []) (hpos : 1 ≤ attempt) (hle : attempt ≤ env.params.maxAttempts)
    (hempty : s₀.partialsOf data.requestId = ∅) :
    RequestOk env (createRequest env height attempt data s₀) (newRequest env height attempt data) :=
  .of_empty hid hpos hle rfl hempty

theorem close_updates (h : Sound env s) {s₁ : Store}
    (hget : s.requests.get? request.requestId = some request)
    (hid : r.requestId = request.requestId)
    (hdeadline : r.deadlineBlockHeight = request.deadlineBlockHeight) (hr : r.status ≠ .collecting)
    (hrequests : ∀ id, s₁.requests.get? id = s.requests.get? id)
    (hpartials : ∀ id, id ≠ request.requestId → s₁.partialsOf id = s.partialsOf id)
    (hindex : ∀ d id, s₁.Indexed d id ↔ s.Indexed d id)
    (haccepted : ∀ a ∈ s.accepted, a ∈ s₁.accepted) : Updates s (s₁.close r) r where
  requests id := by
    simp only [close, get?_storeRequest, removeFromExpirationIndex_requests, hrequests]
  partials id hne := hpartials id (hid ▸ hne)
  index d id := by
    simp only [close, indexed_storeRequest, indexed_removeFromExpirationIndex, hindex]
    by_cases hr' : id = r.requestId
    · -- its only entry was at its deadline
      have honly := h.indexed_iff hget d
      rw [if_pos hr', hr', hid, honly]
      simp only [hr, false_and, iff_false]
      rintro ⟨hnot, -, hd⟩
      exact hnot ⟨by rw [hdeadline, hd], trivial⟩
    · rw [if_neg hr']
      simp [hr']
  accepted := haccepted

theorem accept_updates (h : Sound env s) (ha : Acceptable env height s request epoch ps) :
    Updates s (s.accept request ps) request where
  requests id := by
    rw [get?_accept ps ha.stored]
    split
    · next heq => rw [heq, ha.stored]
    · rfl
  partials id hid := partialsOf_accept_of_ne request ps hid
  index d id := by
    show s.Indexed d id ↔ _
    split
    · next heq => rw [heq, h.indexed_iff ha.stored]
    · exact Iff.rfl
  accepted a ha' := mem_cons_of_mem _ ha'

theorem nextAttempt_updates (h : Sound env s) (hend : Ending env height s request last) :
    Updates s (nextAttempt env height request (received request s last))
      (retryRequest env height request) where
  requests id := by
    simp only [nextAttempt, get?_storeRequest, setExpiration_requests,
      removeFromExpirationIndex_requests, deletePartials_requests, get?_received hend]
  partials id hid := by
    have hne : id ≠ request.requestId := hid
    simp only [nextAttempt, storeRequest_partialsOf, setExpiration_partialsOf,
      removeFromExpirationIndex_partialsOf, partialsOf_deletePartials, if_neg hne]
    exact received_partialsOf_of_ne request last hne
  index d id := by
    simp only [nextAttempt, indexed_storeRequest, indexed_setExpiration,
      indexed_removeFromExpirationIndex, indexed_deletePartials, received_indexed]
    by_cases hid : id = request.requestId
    · -- the old entry goes, wherever it was, and the new one comes
      have honly := h.indexed_iff hend.stored.1 d
      rw [hid, honly]
      simp only [retryRequest, and_true, true_and, if_true]
      constructor
      · rintro (rfl | ⟨hnot, -, rfl⟩)
        · rfl
        · exact absurd rfl hnot
      · intro hd
        exact .inl hd.symm
    · simp [hid, retryRequest]
  accepted := received_accepted request last

theorem nextAttempt_ok (h : Sound env s) (hend : Ending env height s request last)
    (hattempt : request.attempt < env.params.maxAttempts) :
    RequestOk env (nextAttempt env height request (received request s last))
      (retryRequest env height request) := by
  refine .of_empty (h.requests _ request hend.stored.1).named (Nat.succ_pos _) hattempt rfl ?_
  simp only [nextAttempt, storeRequest_partialsOf, setExpiration_partialsOf,
    removeFromExpirationIndex_partialsOf, partialsOf_deletePartials]
  exact if_pos rfl

theorem succeeds_of_collecting (hget : s.requests.get? request.requestId = some request)
    (hcollecting : request.status = .collecting) (hid : r.requestId = request.requestId)
    (hattempt : request.attempt ≤ r.attempt) : Succeeds s r := by
  intro r₀ hget₀
  rw [hid] at hget₀
  cases hget.symm.trans hget₀
  refine ⟨hattempt, ?_, ?_⟩ <;> rw [hcollecting] <;> decide

theorem succeeds_of_ended (hget : s.requests.get? r.requestId = some request)
    (hstatus : request.status = .failed ∨ request.status = .expired)
    (hattempt : request.attempt ≤ r.attempt) : Succeeds s r := by
  intro r₀ hget₀
  cases hget.symm.trans hget₀
  refine ⟨hattempt, ?_, ?_⟩ <;> rcases hstatus with h | h <;> rw [h] <;> decide

/-- **Every change replaces one request by one that is in order, or touches none.** -/
theorem Change.updates (hc : Change env height s s') (h : Sound env s) :
    (∃ r, Updates s s' r ∧ RequestOk env s' r ∧ Succeeds s r ∧ r.status ≠ .cancelled) ∨
      (s'.requests = s.requests ∧ (∀ id, s'.partialsOf id = s.partialsOf id) ∧
        (∀ d id, s'.Indexed d id ↔ s.Indexed d id) ∧ s'.accepted = s.accepted) := by
  rcases hc with ⟨data, epoch, hid, hepoch, hnew⟩ | ⟨data, epoch, existing, hepoch, hget, hstatus, hattempt⟩ |
    ⟨request, epoch, ps, ha, hbelow⟩ | ⟨request, epoch, ps, sig, ha, hreached, hfinal⟩ |
    ⟨request, last, hend, hattempt⟩ | ⟨request, last, status, hend, hattempt, hstatus⟩ |
    ⟨d, id, hstale⟩ | ⟨q⟩
  · -- a new request
    left
    refine ⟨newRequest env height 1 data, createRequest_updates 1 data rfl (fun _ _ => rfl) ?_ rfl,
      createRequest_ok hid (Nat.le_refl 1) env.params.maxAttempts_pos (h.fresh _ hnew), ?_,
      nofun⟩
    · intro d id
      constructor
      · intro hd
        refine ⟨?_, hd⟩
        rintro rfl
        obtain ⟨r, hr, -⟩ := (h.index _ _).mp hd
        exact absurd (hnew.symm.trans hr) (by simp)
      · exact And.right
    · intro r₀ hr₀
      exact absurd (hnew.symm.trans hr₀) (by simp)
  · -- a request that ended has no attempt left to be opened again for
    have hspent := (h.requests _ existing hget).spent hstatus
    omega
  · -- a signature is taken
    left
    have hold := h.requests _ request ha.stored
    have hperm := coveredSlots_perm (listPartials_accept ha)
    refine ⟨request, accept_updates h ha,
      ⟨hold.named, hold.attempt_pos, hold.attempt_le, hold.spent,
        fun ps' h' => taken_accept h ha h', ?_, ?_⟩,
      succeeds_of_collecting ha.stored ha.collecting rfl (Nat.le_refl _), ?_⟩
    · intro _ epoch' hepoch'
      cases ha.known.symm.trans hepoch'
      rw [hperm.length_eq]
      exact hbelow
    · intro hcompleted
      exact absurd (ha.collecting.symm.trans hcompleted) (by decide)
    · rw [ha.collecting]
      decide
  · -- a signature completes the request
    left
    have hold := h.requests _ request ha.stored
    refine ⟨_, close_updates h ha.stored rfl rfl nofun
        (get?_accept ps ha.stored) (fun id => partialsOf_accept_of_ne request ps) (fun _ _ => Iff.rfl)
        (fun a ha' => mem_cons_of_mem _ ha'),
      ⟨hold.named, hold.attempt_pos, hold.attempt_le,
        fun hended => (by rcases hended with hs | hs <;> (nomatch hs)),
        fun ps' h' => taken_accept h ha h', ?_, ?_⟩,
      succeeds_of_collecting ha.stored ha.collecting rfl (Nat.le_refl _), nofun⟩
    · intro hcollecting
      nomatch hcollecting
    · intro _
      exact ⟨epoch, _, ha.known, (listPartials_accept ha).symm, hfinal, nodup_of_aggregate hfinal, hreached⟩
  · -- the next attempt
    left
    exact ⟨_, nextAttempt_updates h hend, nextAttempt_ok h hend hattempt,
      succeeds_of_collecting hend.stored.1 hend.stored.2 rfl (Nat.le_succ _), nofun⟩
  · -- the end of the request
    left
    have hold := h.requests _ request hend.stored.1
    have hnot : status ≠ .collecting ∧ status ≠ .completed ∧ status ≠ .cancelled := by
      rcases hstatus with rfl | rfl <;> decide
    refine ⟨_, close_updates h hend.stored.1 rfl rfl hnot.1 (get?_received hend)
        (fun id => received_partialsOf_of_ne request last) (received_indexed request last)
        (received_accepted request last),
      ⟨hold.named, hold.attempt_pos, hold.attempt_le, fun _ => hattempt,
        fun ps' h' => taken_received h hend h', ?_, ?_⟩,
      succeeds_of_collecting hend.stored.1 hend.stored.2 rfl (Nat.le_refl _), hnot.2.2⟩
    · intro hcollecting
      exact absurd hcollecting hnot.1
    · intro hcompleted
      exact absurd hcompleted hnot.2.1
  · -- an index entry that no collecting request has is not there
    right
    refine ⟨rfl, fun _ => rfl, ?_, rfl⟩
    intro d' id'
    rw [indexed_removeFromExpirationIndex]
    constructor
    · exact And.right
    intro hindexed
    refine ⟨?_, hindexed⟩
    rintro ⟨rfl, rfl⟩
    obtain ⟨r, hr, hcollecting, hdeadline⟩ := (h.index _ _).mp hindexed
    exact hstale r hr hcollecting hdeadline
  · right
    exact ⟨rfl, fun _ => rfl, fun _ _ => Iff.rfl, rfl⟩

theorem cancel_updates (h : Sound env s) (hget : s.requests.get? request.requestId = some request)
    (hstatus : request.status = .failed ∨ request.status = .expired) :
    Updates s (s.storeRequest { request with status := .cancelled })
        { request with status := .cancelled } ∧
      RequestOk env (s.storeRequest { request with status := .cancelled })
        { request with status := .cancelled } := by
  have hold := h.requests _ request hget
  refine ⟨⟨fun id => get?_storeRequest s id _, fun _ _ => rfl, ?_, fun _ ha => ha⟩,
    ⟨hold.named, hold.attempt_pos, hold.attempt_le,
      fun hended => (by rcases hended with hs | hs <;> (nomatch hs)), hold.partials,
      nofun, nofun⟩⟩
  intro d id
  split
  · next heq =>
    rw [heq]
    simp only [reduceCtorEq, false_and, iff_false]
    exact h.not_indexed hget hstatus d
  · exact Iff.rfl

theorem Sound.congr (h : Sound env s) (hrequests : s'.requests = s.requests)
    (hpartials : ∀ id, s'.partialsOf id = s.partialsOf id)
    (hindex : ∀ d id, s'.Indexed d id ↔ s.Indexed d id) (haccepted : s'.accepted = s.accepted) :
    Sound env s' := by
  refine ⟨?_, ?_, ?_, ?_⟩
  · intro id r hget
    rw [hrequests] at hget
    exact h.keyed id r hget
  · intro id r hget
    rw [hrequests] at hget
    refine (h.requests id r hget).mono ?_ fun a ha => haccepted ▸ ha
    unfold listPartials
    rw [hpartials]
  · intro d id
    rw [hindex, hrequests]
    exact h.index d id
  · intro id hget
    rw [hrequests] at hget
    rw [hpartials]
    exact h.fresh id hget

/-- **Every move keeps the stores together, and advances.** -/
theorem Move.sound (hm : Move env height s s') (h : Sound env s) :
    Sound env s' ∧ Advances s s' := by
  rcases hm with hc | ⟨_, hget, hstatus⟩
  · rcases hc.updates h with ⟨r, hu, hr, hnext, -⟩ | ⟨hrequests, hpartials, hindex, haccepted⟩
    · exact ⟨hu.sound hr h, hu.advances hnext⟩
    · refine ⟨h.congr hrequests hpartials hindex haccepted, ?_⟩
      intro id r hget
      exact ⟨r, by rw [hrequests]; exact hget, Nat.le_refl _, fun _ => rfl⟩
  · obtain ⟨hu, hr⟩ := cancel_updates h hget hstatus
    exact ⟨hu.sound hr h, hu.advances (succeeds_of_ended hget hstatus (Nat.le_refl _))⟩

theorem Moves.sound (hm : Moves env height s s') (h : Sound env s) :
    Sound env s' ∧ Advances s s' := by
  refine Moves.invariant (P := fun s' => Sound env s' ∧ Advances s s') ?_ hm ⟨h, Advances.refl _⟩
  rintro _ _ hm ⟨hs, hadv⟩
  obtain ⟨hs', hadv'⟩ := hm.sound hs
  exact ⟨hs', hadv.trans hadv'⟩

theorem Micros.sound {β : Type*} {hooks : Hooks β} {w w' : World β}
    (hm : Micros env height hooks w w') (h : Sound env w.store) :
    Sound env w'.store ∧ Advances w.store w'.store :=
  hm.moves.sound h

def dueEntries (height : ℕ) (s : Store) : List (ℕ ×ₗ RequestId) :=
  s.expirations.keys.filter fun key => decide ((ofLex key).1 ≤ height)

theorem mem_collectExpired {room : ℕ} {keys : List (ℕ ×ₗ RequestId)}
    (hsorted : keys.Pairwise (· < ·)) (hnamed : ∀ key ∈ keys, (ofLex key).2 ≠ [])
    (hroom : (keys.filter fun key => decide ((ofLex key).1 ≤ height)).length ≤ room)
    {key : ℕ ×ₗ RequestId} (hkey : key ∈ keys) (hdue : (ofLex key).1 ≤ height) :
    ofLex key ∈ (collectExpired height room keys).1 := by
  induction keys generalizing room with
  | nil => simp at hkey
  | cons first _ ih =>
    obtain ⟨hfirst, hrest⟩ := pairwise_cons.mp hsorted
    by_cases hhead : (ofLex first).1 ≤ height
    · rw [filter_cons_of_pos (by simpa using hhead), length_cons] at hroom
      obtain ⟨_, rfl⟩ : ∃ n, room = n + 1 := ⟨room - 1, by omega⟩
      simp only [collectExpired]
      rw [if_neg (hnamed first mem_cons_self), if_neg (by omega)]
      rcases mem_cons.mp hkey with rfl | htail
      · exact mem_cons_self
      · refine mem_cons_of_mem _ (ih hrest ?_ (by omega) htail)
        intro key' h'
        exact hnamed key' (mem_cons_of_mem first h')
    · -- the first one is not due, so no later one is
      exfalso
      rcases mem_cons.mp hkey with rfl | htail
      · exact hhead hdue
      · rcases Prod.Lex.lt_iff.mp (hfirst key htail) with hlt | ⟨heq, -⟩ <;> omega

/-- The collecting requests whose deadline has come are all in the list. -/
def Overdue (height : ℕ) (s : Store) (items : List (ℕ × RequestId)) : Prop :=
  ∀ id r, s.requests.get? id = some r → r.status = .collecting →
    r.deadlineBlockHeight ≤ height → (r.deadlineBlockHeight, id) ∈ items

variable {β : Type*} {hooks : Hooks β}

variable (env height hooks) in
/-- The end of an attempt leaves the other requests, and this one with a later deadline or not
collecting. -/
theorem retryOrFinalize_requests (request : ThresholdSigningRequest) {status : Status}
    (hstatus : status ≠ .collecting) (w : World β) (id : RequestId) :
    (id ≠ request.requestId →
      (retryOrFinalize env hooks height request status w).store.requests.get? id =
        w.store.requests.get? id) ∧
    ∀ r, (retryOrFinalize env hooks height request status w).store.requests.get? request.requestId =
        some r → r.status = .collecting → height < r.deadlineBlockHeight := by
  unfold retryOrFinalize maybeAutoRetryThresholdSigningRequest
  by_cases hattempt : env.params.maxAttempts ≤ request.attempt
  · rw [if_pos hattempt]
    simp only [finalizeFailedThresholdSigningRequest, maybeCloseRetryAfterFailedPostProcess]
    split
    all_goals
      refine ⟨fun hid => by simp [get?_storeRequest, hid], fun r hr hcollecting => ?_⟩
      simp only [get?_storeRequest, if_true, some.injEq] at hr
      subst hr
    · exact absurd hcollecting hstatus
    · nomatch hcollecting
    · exact absurd hcollecting hstatus
  · rw [if_neg hattempt]
    constructor
    · intro hid
      have hid' : id ≠ (retryRequest env height request).requestId := hid
      simp [get?_storeRequest, hid']
    · intro r hr _
      have hid : request.requestId = (retryRequest env height request).requestId := rfl
      rw [get?_storeRequest, if_pos hid] at hr
      cases hr
      show height < height + _
      split <;> omega

theorem processExpired_overdue {w : World β} {item : ℕ × RequestId} {items : List (ℕ × RequestId)}
    (hkey : w.store.Keyed) (h : Overdue height w.store (item :: items)) :
    Overdue height (processExpired env hooks height w item).store items := by
  intro id r hget hcollecting hdue
  have hothers : w.store.requests.get? id = some r → (r.deadlineBlockHeight, id) ≠ item →
      (r.deadlineBlockHeight, id) ∈ items := by
    intro hold hne
    exact (mem_cons.mp (h id r hold hcollecting hdue)).resolve_left hne
  unfold processExpired at hget
  split at hget
  · next hnone =>
    refine hothers hget ?_
    rintro rfl
    exact absurd (hnone.symm.trans hget) (by simp)
  · next request hrequest =>
    split at hget
    · next hstale =>
      refine hothers hget ?_
      rintro rfl
      cases hrequest.symm.trans hget
      rcases hstale with h' | h'
      · exact h' hcollecting
      · exact h' rfl
    · have hid := hkey item.2 request hrequest
      have hexpired : Status.expired ≠ .collecting := by decide
      obtain ⟨hsame, hlater⟩ := retryOrFinalize_requests env height hooks request hexpired w id
      by_cases heq : id = request.requestId
      · rw [heq] at hget
        have := hlater r hget hcollecting
        omega
      · rw [hsame heq] at hget
        refine hothers hget ?_
        rintro rfl
        exact heq hid.symm

theorem foldl_processExpired_overdue {items : List (ℕ × RequestId)} {w : World β}
    (hdue : ∀ item ∈ items, item.1 ≤ height) (hkey : w.store.Keyed)
    (h : Overdue height w.store items) :
    Overdue height (items.foldl (processExpired env hooks height) w).store [] := by
  induction items generalizing w with
  | nil => exact h
  | cons item _ ih =>
    have hfirst : Micros env height hooks w _ :=
      processExpired_micros item (hdue item mem_cons_self) hkey
    exact ih (forall_mem_cons.mp hdue).2 (hfirst.keyed hkey)
      (processExpired_overdue hkey h)

theorem processCompletedRetry_requests (w : World β) (id : RequestId) :
    (processCompletedRetry hooks w id).store.requests = w.store.requests := by
  simp only [processCompletedRetry]
  split
  · rfl
  split
  · rfl
  · split
    · rfl
    · split <;> rfl

theorem processCompletedPostProcessRetries_requests (w : World β) :
    (processCompletedPostProcessRetries hooks w).store.requests = w.store.requests := by
  unfold processCompletedPostProcessRetries
  generalize w.store.completedRetries.keys.take maxCompletedPostProcessRetriesPerBlock = ids
  induction ids generalizing w with
  | nil => rfl
  | cons _ _ ih => rw [foldl_cons, ih, processCompletedRetry_requests]

/-- **Below the limit, no collecting request is overdue after the end of the block.** -/
theorem endBlock_drained {w : World β} (h : Sound env w.store)
    (hlimit : (dueEntries height w.store).length ≤ maxExpiredRequestsPerBlock) :
    Overdue height (endBlock env hooks height w).store [] := by
  have hstart : Overdue height w.store
      (collectExpired height maxExpiredRequestsPerBlock w.store.expirations.keys).1 := by
    intro id r hget hcollecting hdue
    have hindexed := (h.index _ _).mpr ⟨r, hget, hcollecting, rfl⟩
    obtain ⟨u, hu⟩ := isSome_iff_exists.mp hindexed
    exact mem_collectExpired w.store.expirations.keys_sortedLT h.named hlimit
      (mem_keys.mpr ⟨u, hu⟩) hdue
  have hdone : Overdue height (processThresholdSigningDeadlines env hooks height w).store [] := by
    rw [processThresholdSigningDeadlines_eq w h.named]
    exact foldl_processExpired_overdue (fun item hitem => collectExpired_due hitem) h.keyed hstart
  intro id r hget
  unfold endBlock at hget
  rw [processCompletedPostProcessRetries_requests] at hget
  exact hdone id r hget

def Event.HasId : Event β → Prop
  | .request data => data.requestId ≠ []
  | _ => True

/-- After the end of a block no collecting request is overdue, unless the limit was reached. -/
def Drained (c c' : Chain β) : Prop :=
  maxExpiredRequestsPerBlock ≤ (dueEntries c.height c.world.store).length ∨
    ∀ id r, c'.world.store.requests.get? id = some r → r.status = .collecting →
      c.height < r.deadlineBlockHeight

theorem sound_empty : Sound env {} where
  keyed id r hget := by simp at hget
  requests id r hget := by simp at hget
  index d id := by simp [Store.Indexed]
  fresh _ _ := rfl

theorem step_sound {c : Chain β} (h : Sound env c.world.store) {e : Event β} (hid : e.HasId) :
    Sound env (step env e c).world.store ∧ Advances c.world.store (step env e c).world.store := by
  have hsame : Sound env c.world.store ∧ Advances c.world.store c.world.store := ⟨h, Advances.refl _⟩
  match e with
  | .request data =>
    simp only [step]
    match hresult : requestThresholdSignature env c.height data c.world.store with
    | .error _ => exact hsame
    | .ok s => exact (Move.change (requestThresholdSignature_change hid hresult)).sound h
  | .addPartial hooks id slots signature submitter =>
    simp only [step]
    match hresult : addPartialSignature env hooks c.height id slots signature submitter c.world with
    | .error _ => exact hsame
    | .ok w => exact (addPartialSignature_micros h.keyed hresult).sound h
  | .cancel id =>
    simp only [step]
    match hresult : cancelThresholdSignature id c.world.store with
    | .error _ => exact hsame
    | .ok s =>
      obtain ⟨request, hget, ⟨-, rfl⟩ | ⟨hstatus, rfl⟩⟩ := cancelThresholdSignature_spec hresult
      · exact hsame
      have hget' : c.world.store.requests.get? request.requestId = some request := by
        rw [h.keyed id request hget]
        exact hget
      have hmove : Move env c.height c.world.store _ := .cancels request hget' hstatus
      exact hmove.sound h
  | .endBlock hooks skipped => exact (endBlock_micros h.keyed h.named).sound h

/-- **Signing requests are sound in every run.**  From empty stores, whatever is requested,
submitted and cancelled, and whatever the hooks do: the stores belong together after every
event, every event advances the requests, and the end of a block leaves no request overdue
unless the limit of entries was due. -/
theorem signing_requests_sound (env : Env) (app : β) (height : ℕ) (events : List (Event β))
    (hids : ∀ e ∈ events, e.HasId) :
    Along.EachStep (step env)
      (fun c e => Sound env (step env e c).world.store ∧
        Advances c.world.store (step env e c).world.store ∧
        ∀ hooks skipped, e = .endBlock hooks skipped → Drained c (step env e c))
      events ⟨⟨{}, app⟩, height⟩ := by
  refine Along.EachStep.of_invariant (I := fun c => Sound env c.world.store)
    (Q := fun _ e => e.HasId) ?_ ?_ sound_empty (Along.eachStep_of_forall (fun e he _ => hids e he) _)
  · intro c e hc hid
    exact (step_sound hc hid).1
  intro c e hc hid
  refine ⟨(step_sound hc hid).1, (step_sound hc hid).2, ?_⟩
  rintro hooks _ rfl
  by_cases hlimit : maxExpiredRequestsPerBlock ≤ (dueEntries c.height c.world.store).length
  · exact .inl hlimit
  right
  intro id r hget hcollecting
  by_contra hdue
  have hdrained : Overdue c.height (endBlock env hooks c.height c.world).store [] :=
    endBlock_drained hc (Nat.le_of_not_le hlimit)
  simpa using hdrained id r hget hcollecting (Nat.le_of_not_lt hdue)

end

def sampleEpoch : EpochBLSData where
  tSlotsDegree := 1
  participants := [⟨[1], 0, 0⟩, ⟨[2], 1, 1⟩, ⟨[3], 2, 2⟩]
  dkgPhase := .signed
  groupPublicKey := [1]
  slotPublicKeys := [[1], [2], [3]]
  disputingPhaseDeadlineBlock := 0

def sampleEnv : Env where
  params := ⟨2, 2, 0, by decide⟩
  epochs := fun _ => some sampleEpoch
  crypto := ⟨fun _ => List.replicate 32 0, fun _ _ _ => true, fun _ => true, fun _ => some [1]⟩

def noHooks : Hooks Unit := ⟨fun _ _ _ => some (), fun _ _ _ => some (false, ())⟩

def sampleEvents : List (Event Unit) :=
  [.request ⟨1, [], [7], []⟩, .addPartial noHooks [7] [0] (List.replicate 48 0) [1],
    .endBlock noHooks 0, .addPartial noHooks [7] [1] (List.replicate 48 0) [2]]

/-- The request of the run is completed in its first attempt. -/
theorem signing_requests_sound_sample :
    ((Along.run (step sampleEnv) sampleEvents ⟨⟨{}, ()⟩, 1⟩).world.store.requests.get? [7]).map
        (fun r => (r.status, r.attempt)) = some (.completed, 1) ∧
    Along.EachStep (step sampleEnv)
      (fun c e => Sound sampleEnv (step sampleEnv e c).world.store ∧
        Advances c.world.store (step sampleEnv e c).world.store ∧
        ∀ hooks skipped, e = .endBlock hooks skipped → Drained c (step sampleEnv e c))
      sampleEvents ⟨⟨{}, ()⟩, 1⟩ :=
  ⟨by decide +kernel, signing_requests_sound sampleEnv () 1 sampleEvents (by
    intro e he
    simp only [sampleEvents, List.mem_cons, List.not_mem_nil, or_false] at he
    rcases he with rfl | rfl | rfl | rfl
    · exact List.cons_ne_nil _ _
    · trivial
    · trivial
    · trivial)⟩

/-- A request with an empty id: the end of the block deletes its index entry, long before the
deadline, and the request goes on collecting. -/
theorem unnamed_request_loses_deadline :
    let c := Along.run (step sampleEnv) [.request ⟨1, [], [], []⟩, .endBlock noHooks 0]
      ⟨⟨{}, ()⟩, 1⟩
    (c.world.store.requests.get? []).map (fun r => (r.status, r.deadlineBlockHeight)) =
        some (.collecting, 3) ∧ ∀ d, ¬ c.world.store.Indexed d [] := by
  intro c
  have hindex : c.world.store.expirations.keys = [] := by decide +kernel
  refine ⟨by decide +kernel, ?_⟩
  intro d hd
  obtain ⟨u, hu⟩ := Option.isSome_iff_exists.mp hd
  have hkey := mem_keys.mpr ⟨u, hu⟩
  rw [hindex] at hkey
  simp at hkey

end ThresholdSigning
