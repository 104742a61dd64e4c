/-
What the operations on signing requests can do.

Every operation of the module is a sequence of a few kinds of changes to one request each:
a request is opened or opened again, takes a partial signature, is completed, starts its next
attempt, ends without a signature.  Between them run the hooks.  `Change` says what each kind
does to the stores and when it happens, `Move` adds cancellation and `Micro` the hooks; the
invariants are then proved for these, and not for the code.

Main results: `addPartialSignature_micros`, `endBlock_micros`.
-/
import Gonka.Bls.ThresholdSigning
import Mathlib.Logic.Relation

namespace ThresholdSigning

open OrdMap

open Relation (ReflTransGen)

/-! ### The stores after an update -/

namespace Store

variable (s : Store) (id : RequestId) (d : ℕ) (r : ThresholdSigningRequest) (ps : PartialSignature)

@[simp] theorem removeFromExpirationIndex_requests :
    (s.removeFromExpirationIndex d id).requests = s.requests := rfl
@[simp] theorem removeFromExpirationIndex_partialsOf (id' : RequestId) :
    (s.removeFromExpirationIndex d id).partialsOf id' = s.partialsOf id' := rfl
@[simp] theorem setExpiration_requests : (s.setExpiration d id).requests = s.requests := rfl
@[simp] theorem setExpiration_partialsOf (id' : RequestId) :
    (s.setExpiration d id).partialsOf id' = s.partialsOf id' := rfl
@[simp] theorem storeRequest_partialsOf : (s.storeRequest r).partialsOf id = s.partialsOf id := rfl
@[simp] theorem deletePartials_requests : (s.deletePartials id).requests = s.requests := rfl
@[simp] theorem setPartial_requests : (s.setPartial r ps).requests = s.requests := rfl

theorem get?_storeRequest : (s.storeRequest r).requests.get? id =
      if id = r.requestId then some r else s.requests.get? id := by
  by_cases h : id = r.requestId
  · simp [storeRequest, h]
  · simp [storeRequest, get?_insert_of_ne _ _ h, h]

theorem partialsOf_deletePartials (id' : RequestId) :
    (s.deletePartials id).partialsOf id' = if id' = id then ∅ else s.partialsOf id' := by
  simp only [partialsOf, deletePartials, get?_erase]
  split <;> rfl

theorem partialsOf_setPartial : (s.setPartial r ps).partialsOf id = if id = r.requestId then
      (s.partialsOf r.requestId).insert ps.participantAddress ps else s.partialsOf id := by
  simp only [partialsOf, setPartial, get?_insert]
  split <;> rfl

/-- The index has an entry for the request at the height. -/
def Indexed (d : ℕ) (id : RequestId) : Prop := (s.expirations.get? (toLex (d, id))).isSome

@[simp] theorem indexed_storeRequest (d' : ℕ) :
    (s.storeRequest r).Indexed d' id ↔ s.Indexed d' id := Iff.rfl

@[simp] theorem indexed_deletePartials (id' : RequestId) (d' : ℕ) :
    (s.deletePartials id).Indexed d' id' ↔ s.Indexed d' id' := Iff.rfl

theorem indexed_removeFromExpirationIndex (d' : ℕ) (id' : RequestId) :
    (s.removeFromExpirationIndex d id).Indexed d' id' ↔ ¬ (d' = d ∧ id' = id) ∧ s.Indexed d' id' := by
  unfold Indexed removeFromExpirationIndex
  rw [get?_erase]
  by_cases h : d' = d ∧ id' = id
  · obtain ⟨rfl, rfl⟩ := h
    simp
  · have hne : toLex (d', id') ≠ toLex (d, id) := by simpa [Prod.ext_iff] using h
    simp [h, hne]

theorem indexed_setExpiration (d' : ℕ) (id' : RequestId) :
    (s.setExpiration d id).Indexed d' id' ↔ (d' = d ∧ id' = id) ∨ s.Indexed d' id' := by
  unfold Indexed setExpiration
  rw [get?_insert]
  by_cases h : d' = d ∧ id' = id
  · obtain ⟨rfl, rfl⟩ := h
    simp
  · have hne : toLex (d', id') ≠ toLex (d, id) := by simpa [Prod.ext_iff] using h
    simp [h, hne]

def Keyed : Prop := ∀ id r, s.requests.get? id = some r → r.requestId = id

/-- `AddPartialSignature` writes the new signature, and the request as it was. -/
def accept : Store := (s.setPartial r ps).storeRequest r

def close : Store :=
  (s.removeFromExpirationIndex r.deadlineBlockHeight r.requestId).storeRequest r

end Store

/-! ### Changes -/

section

variable (env : Env) (height : ℕ)

/-- What `AddPartialSignature` checks before it takes a signature. -/
structure Acceptable (s : Store) (request : ThresholdSigningRequest) (epoch : EpochBLSData)
    (ps : PartialSignature) : Prop where
  stored : s.requests.get? request.requestId = some request
  collecting : request.status = .collecting
  inTime : height ≤ request.deadlineBlockHeight
  known : env.epochs request.currentEpochId = some epoch
  nodup : ps.slotIndices.Nodup
  owned : validateSlotOwnership ps.participantAddress ps.slotIndices epoch = .ok ()
  verified : verifyPartialSignature env ps.signature request.messageHash ps.slotIndices epoch = true
  first : (s.partialsOf request.requestId).get? ps.participantAddress = none

/-- Why an attempt ends, with the signature that ended it: it is late, or its signatures do
not aggregate. -/
inductive Ending (s : Store) (request : ThresholdSigningRequest) : Option PartialSignature → Prop
  | late (stored : s.requests.get? request.requestId = some request)
      (collecting : request.status = .collecting)
      (due : request.deadlineBlockHeight ≤ height) : Ending s request none
  | broken (epoch : EpochBLSData) (ps : PartialSignature)
      (acceptable : Acceptable env height s request epoch ps)
      (reached : epoch.tSlotsDegree + 1 ≤
        (coveredSlots (s.listPartials request.requestId ++ [ps])).length)
      (failed : aggregatePartialSignatures env (s.listPartials request.requestId ++ [ps]) = none) :
      Ending s request (some ps)

def received (request : ThresholdSigningRequest) (s : Store) : Option PartialSignature → Store
  | none => s
  | some ps => s.accept request ps

def nextAttempt (request : ThresholdSigningRequest) (s : Store) : Store :=
  (((s.deletePartials request.requestId).removeFromExpirationIndex
    request.deadlineBlockHeight request.requestId).setExpiration
      (retryRequest env height request).deadlineBlockHeight request.requestId).storeRequest
        (retryRequest env height request)

/-- The changes of one request, but for its cancellation. -/
inductive Change (s : Store) : Store → Prop
  | opens (data : SigningData) (epoch : EpochBLSData)
      (hid : data.requestId ≠ []) (hepoch : env.epochs data.currentEpochId = some epoch)
      (hnew : s.requests.get? data.requestId = none) :
      Change s (createRequest env height 1 data s)
  | reopens (data : SigningData) (epoch : EpochBLSData) (existing : ThresholdSigningRequest)
      (hepoch : env.epochs data.currentEpochId = some epoch)
      (hget : s.requests.get? data.requestId = some existing)
      (hstatus : existing.status = .failed ∨ existing.status = .expired)
      (hattempt : existing.attempt < env.params.maxAttempts) :
      Change s (createRequest env height (existing.attempt + 1) data
        ((s.removeFromExpirationIndex existing.deadlineBlockHeight data.requestId).deletePartials
          data.requestId))
  | accepts (request : ThresholdSigningRequest) (epoch : EpochBLSData) (ps : PartialSignature)
      (h : Acceptable env height s request epoch ps)
      (hbelow : (coveredSlots (s.listPartials request.requestId ++ [ps])).length <
        epoch.tSlotsDegree + 1) :
      Change s (s.accept request ps)
  | completes (request : ThresholdSigningRequest) (epoch : EpochBLSData) (ps : PartialSignature)
      (finalSignature : Bytes) (h : Acceptable env height s request epoch ps)
      (hreached : epoch.tSlotsDegree + 1 ≤
        (coveredSlots (s.listPartials request.requestId ++ [ps])).length)
      (hfinal : aggregatePartialSignatures env (s.listPartials request.requestId ++ [ps]) =
        some finalSignature) :
      Change s ((s.accept request ps).close
        { request with status := .completed, finalSignature := finalSignature })
  | retries (request : ThresholdSigningRequest) (last : Option PartialSignature)
      (h : Ending env height s request last) (hattempt : request.attempt < env.params.maxAttempts) :
      Change s (nextAttempt env height request (received request s last))
  | ends (request : ThresholdSigningRequest) (last : Option PartialSignature) (status : Status)
      (h : Ending env height s request last) (hattempt : env.params.maxAttempts ≤ request.attempt)
      (hstatus : status = .failed ∨ status = .expired) :
      Change s ((received request s last).close
        { request with status := status, finalSignature := [] })
  | drops (d : ℕ) (id : RequestId)
      (hstale : ∀ r, s.requests.get? id = some r → r.status = .collecting →
        r.deadlineBlockHeight ≠ d) :
      Change s (s.removeFromExpirationIndex d id)
  | queues (completedRetries : OrdMap RequestId Unit) :
      Change s { s with completedRetries := completedRetries }

/-- A change, or the cancellation of a request that ended. -/
inductive Move (s : Store) : Store → Prop
  | change {s' : Store} (h : Change env height s s') : Move s s'
  | cancels (request : ThresholdSigningRequest)
      (hget : s.requests.get? request.requestId = some request)
      (hstatus : request.status = .failed ∨ request.status = .expired) :
      Move s (s.storeRequest { request with status := .cancelled })

variable {env height}

variable {s s' : Store} {request : ThresholdSigningRequest} {last : Option PartialSignature}

theorem Ending.stored (h : Ending env height s request last) :
    s.requests.get? request.requestId = some request ∧ request.status = .collecting := by
  rcases h with ⟨hget, hstatus, -⟩ | ⟨_, _, ⟨hget, hstatus, -, -, -, -, -, -⟩, -, -⟩
  · exact ⟨hget, hstatus⟩
  · exact ⟨hget, hstatus⟩

theorem get?_accept (ps : PartialSignature) (h : s.requests.get? request.requestId = some request)
    (id : RequestId) :
    (s.accept request ps).requests.get? id = s.requests.get? id := by
  unfold Store.accept
  rw [Store.get?_storeRequest, Store.setPartial_requests]
  split
  · next heq => rw [heq, h]
  · rfl

theorem get?_received (h : Ending env height s request last) (id : RequestId) :
    (received request s last).requests.get? id = s.requests.get? id := by
  match last with
  | none => rfl
  | some ps => exact get?_accept ps h.stored.1 id

theorem Move.keyed (hm : Move env height s s') (h : s.Keyed) : s'.Keyed := by
  -- in every case the requests are the old ones, but for one that is stored under its own id
  have hstore : ∀ (s₁ : Store) (r : ThresholdSigningRequest),
      (∀ id, s₁.requests.get? id = s.requests.get? id) → (s₁.storeRequest r).Keyed := by
    intro s₁ r hsame id r' hget
    rw [Store.get?_storeRequest] at hget
    split at hget
    · next heq =>
      cases hget
      exact heq.symm
    · rw [hsame] at hget
      exact h id r' hget
  rcases hm with hc | ⟨_, -, -⟩
  · cases hc with
    | opens | reopens | accepts => exact hstore _ _ fun _ => rfl
    | completes _ _ ps _ ha => exact hstore _ _ fun id => get?_accept ps ha.stored id
    | retries _ _ hend => exact hstore _ _ fun id => get?_received hend id
    | ends _ _ _ hend => exact hstore _ _ fun id => get?_received hend id
    | drops | queues => exact h
  · exact hstore s _ fun _ => rfl

variable {β : Type*}

variable (env height)

/-- A change, or a hook: after a completed request, after one that ended, and after one that
the hook closes. -/
inductive Micro (hooks : Hooks β) : World β → World β → Prop
  | change {s s' : Store} (app : β) (h : Change env height s s') : Micro hooks ⟨s, app⟩ ⟨s', app⟩
  | completed {s : Store} {app app' : β} (request : ThresholdSigningRequest)
      (hget : s.requests.get? request.requestId = some request)
      (hstatus : request.status = .completed)
      (hhook : hooks.afterThresholdSigningCompleted request.requestId request.currentEpochId app =
        some app') :
      Micro hooks ⟨s, app⟩ ⟨s, app'⟩
  | failed {s : Store} {app app' : β} (request : ThresholdSigningRequest)
      (hget : s.requests.get? request.requestId = some request)
      (hstatus : request.status = .failed ∨ request.status = .expired)
      (hhook : hooks.afterThresholdSigningFailed request.requestId request.currentEpochId app =
        some (false, app')) :
      Micro hooks ⟨s, app⟩ ⟨s, app'⟩
  | closed {s : Store} {app app' : β} (request : ThresholdSigningRequest)
      (hget : s.requests.get? request.requestId = some request)
      (hstatus : request.status = .failed ∨ request.status = .expired)
      (hhook : hooks.afterThresholdSigningFailed request.requestId request.currentEpochId app =
        some (true, app')) :
      Micro hooks ⟨s, app⟩ ⟨s.storeRequest { request with status := .cancelled }, app'⟩

abbrev Micros (hooks : Hooks β) : World β → World β → Prop := ReflTransGen (Micro env height hooks)

variable {env height} {hooks : Hooks β}

variable {w : World β}

theorem Micro.store {w' : World β} (h : Micro env height hooks w w') :
    w'.store = w.store ∨ Move env height w.store w'.store := by
  rcases h with ⟨_, h⟩ | _ | _ | ⟨request, hget, hstatus, _⟩
  · exact .inr (.change h)
  · exact .inl rfl
  · exact .inl rfl
  · exact .inr (.cancels request hget hstatus)

abbrev Moves (env : Env) (height : ℕ) : Store → Store → Prop := ReflTransGen (Move env height)

theorem Micros.moves {w' : World β} (h : Micros env height hooks w w') :
    Moves env height w.store w'.store := by
  induction h with
  | refl => exact .refl
  | tail _ hstep ih =>
    rcases hstep.store with hsame | hmove
    · rw [hsame]
      exact ih
    · exact ih.tail hmove

theorem Moves.invariant {P : Store → Prop} (hP : ∀ {s s'}, Move env height s s' → P s → P s')
    (h : Moves env height s s') (hs : P s) : P s' := by
  induction h with
  | refl => exact hs
  | tail _ hmove ih => exact hP hmove ih

/-- Signatures are taken only for requests that collect them. -/
def Store.TakesTo (s s' : Store) : Prop :=
  ∃ taken, s'.accepted = taken ++ s.accepted ∧ ∀ a ∈ taken, ∃ r,
    s.requests.get? a.requestId = some r ∧ r.status = .collecting

theorem Change.accepted (hc : Change env height s s') : s.TakesTo s' := by
  have hnone : s.TakesTo s := ⟨[], rfl, fun _ h => (nomatch h)⟩
  have hone {request : ThresholdSigningRequest} {epoch : EpochBLSData} {ps : PartialSignature}
      (ha : Acceptable env height s request epoch ps) : s.TakesTo (s.accept request ps) := by
    refine ⟨[⟨request.requestId, request.attempt, request.messageHash, ps⟩], rfl, ?_⟩
    intro a hin
    obtain rfl := List.mem_singleton.mp hin
    exact ⟨request, ha.stored, ha.collecting⟩
  have hlast {request : ThresholdSigningRequest} {last : Option PartialSignature}
      (hend : Ending env height s request last) : s.TakesTo (received request s last) := by
    cases hend with
    | late => exact hnone
    | broken _ _ ha => exact hone ha
  cases hc with
  | accepts _ _ _ ha => exact hone ha
  | completes _ _ _ _ ha => exact hone ha
  | retries _ _ hend => exact hlast hend
  | ends _ _ _ hend => exact hlast hend
  | _ => exact hnone

theorem requestThresholdSignature_spec {data : SigningData}
    (h : requestThresholdSignature env height data s = .ok s') :
    ∃ epoch, env.epochs data.currentEpochId = some epoch ∧
      ((s.requests.get? data.requestId = none ∧ s' = createRequest env height 1 data s) ∨
      ∃ existing, s.requests.get? data.requestId = some existing ∧
        (existing.status = .failed ∨ existing.status = .expired) ∧
        existing.attempt < env.params.maxAttempts ∧
        s' = createRequest env height (existing.attempt + 1) data
          ((s.removeFromExpirationIndex existing.deadlineBlockHeight data.requestId).deletePartials
            data.requestId)) := by
  unfold requestThresholdSignature at h
  split at h
  · nomatch h
  next epoch hepoch =>
  refine ⟨epoch, hepoch, ?_⟩
  split at h
  · nomatch h
  split at h
  · nomatch h
  split at h
  · next hnew => exact .inl ⟨hnew, (Except.ok.inj h).symm⟩
  next existing hget =>
  split at h
  · nomatch h
  next hstatus =>
  split at h
  · nomatch h
  split at h
  · nomatch h
  next hattempt =>
  have hended : existing.status = .failed ∨ existing.status = .expired := by
    by_contra hnot
    exact hstatus (not_or.mp hnot)
  exact .inr ⟨existing, hget, hended, Nat.lt_of_not_le hattempt, (Except.ok.inj h).symm⟩

theorem requestThresholdSignature_change {data : SigningData} (hid : data.requestId ≠ [])
    (h : requestThresholdSignature env height data s = .ok s') :
    Change env height s s' := by
  obtain ⟨epoch, hepoch, ⟨hnew, rfl⟩ | ⟨existing, hget, hended, hattempt, rfl⟩⟩ :=
    requestThresholdSignature_spec h
  · exact .opens data epoch hid hepoch hnew
  · exact .reopens data epoch existing hepoch hget hended hattempt

theorem cancelThresholdSignature_spec {id : RequestId}
    (h : cancelThresholdSignature id s = .ok s') :
    ∃ request, s.requests.get? id = some request ∧
      ((request.status = .cancelled ∧ s' = s) ∨
        ((request.status = .failed ∨ request.status = .expired) ∧
          s' = s.storeRequest { request with status := .cancelled })) := by
  unfold cancelThresholdSignature at h
  split at h
  · nomatch h
  next request hget =>
  refine ⟨request, hget, ?_⟩
  split at h
  · next hcancelled => exact .inl ⟨hcancelled, (Except.ok.inj h).symm⟩
  split at h
  · nomatch h
  next hstatus =>
  cases h
  refine .inr ⟨?_, rfl⟩
  by_contra hnot
  exact hstatus (not_or.mp hnot)

theorem close_micros (app : β) (hget : s.requests.get? request.requestId = some request)
    (hstatus : request.status = .failed ∨ request.status = .expired) :
    Micros env height hooks ⟨s, app⟩ (maybeCloseRetryAfterFailedPostProcess hooks request ⟨s, app⟩) := by
  unfold maybeCloseRetryAfterFailedPostProcess
  split
  · exact .refl
  · next hhook => exact .single (.closed request hget hstatus hhook)
  · next hhook => exact .single (.failed request hget hstatus hhook)

theorem retryOrFinalize_micros {status : Status} (app : β) (h : Ending env height s request last)
    (hstatus : status = .failed ∨ status = .expired) :
    Micros env height hooks ⟨s, app⟩
      (retryOrFinalize env hooks height request status ⟨received request s last, app⟩) := by
  unfold retryOrFinalize maybeAutoRetryThresholdSigningRequest
  by_cases hattempt : env.params.maxAttempts ≤ request.attempt
  · rw [if_pos hattempt]
    -- no attempt is left: the request ends, and the hook runs on the stored one
    refine ReflTransGen.head (.change app (.ends request last status h hattempt hstatus)) ?_
    refine close_micros app ?_ hstatus
    simp [Store.close, Store.get?_storeRequest]
  · rw [if_neg hattempt]
    exact .single (.change app (.retries request last h (Nat.lt_of_not_le hattempt)))

theorem completedPostProcess_micros (app : β)
    (hget : s.requests.get? request.requestId = some request)
    (hstatus : request.status = .completed) :
    Micros env height hooks ⟨s, app⟩ (completedPostProcess hooks request ⟨s, app⟩) := by
  unfold completedPostProcess
  split
  · next hhook => exact .single (.completed request hget hstatus hhook)
  unfold enqueueCompletedPostProcessRetry
  split
  · exact .refl
  · exact .single (.change app (.queues _))

section

variable {id : RequestId} {slots : List ℕ} {signature : Bytes} {submitter : Address} {w' : World β}

theorem addPartialSignature_ok (hkey : w.store.Keyed)
    (h : addPartialSignature env hooks height id slots signature submitter w = .ok w') :
    ∃ request, id = request.requestId ∧ w.store.requests.get? request.requestId = some request ∧
      request.status = .collecting ∧
      (request.deadlineBlockHeight < height ∧
          retryOrFinalize env hooks height request .expired w = w' ∨
        ∃ epoch, Acceptable env height w.store request epoch ⟨submitter, slots, signature⟩ ∧
          checkThresholdAndAggregate env hooks height request
            (w.store.listPartials request.requestId ++ [⟨submitter, slots, signature⟩]) epoch
            ⟨w.store.accept request ⟨submitter, slots, signature⟩, w.app⟩ = w') := by
  unfold addPartialSignature at h
  split at h
  · nomatch h
  next request hget =>
  obtain rfl := hkey id request hget
  split at h
  · nomatch h
  next hcollecting =>
  rw [not_not] at hcollecting
  refine ⟨request, rfl, hget, hcollecting, ?_⟩
  split at h
  · next hlate => exact .inl ⟨hlate, Except.ok.inj h⟩
  next hinTime =>
  split at h
  · nomatch h
  next epoch hepoch =>
  split at h
  · nomatch h
  next hnodup =>
  split at h
  · nomatch h
  next hown =>
  split at h
  · nomatch h
  next hverified =>
  split at h
  · nomatch h
  next hfirst =>
  split at h
  · nomatch h
  exact .inr ⟨epoch, ⟨hget, hcollecting, Nat.le_of_not_lt hinTime, hepoch, not_not.mp hnodup, hown,
    not_not.mp hverified, by simpa using hfirst⟩, Except.ok.inj h⟩

/-- **A partial signature**: it comes too late, it is taken, it completes the request, or it
ends the attempt because the signatures do not aggregate. -/
theorem addPartialSignature_micros (hkey : w.store.Keyed)
    (h : addPartialSignature env hooks height id slots signature submitter w = .ok w') :
    Micros env height hooks w w' := by
  obtain ⟨request, -, hget, hcollecting, ⟨hlate, rfl⟩ | ⟨epoch, ha, rfl⟩⟩ :=
    addPartialSignature_ok hkey h
  · exact retryOrFinalize_micros w.app (.late hget hcollecting hlate.le) (.inr rfl)
  -- all checks are passed; what remains is the threshold
  unfold checkThresholdAndAggregate
  split
  · next hbelow => exact .single (.change w.app (.accepts request epoch _ ha hbelow))
  next hreached =>
  have hreached' := Nat.le_of_not_lt hreached
  split
  · next hfailed =>
    exact retryOrFinalize_micros w.app (.broken epoch _ ha hreached' hfailed) (.inl rfl)
  · next sig hfinal =>
    refine ReflTransGen.head (.change w.app (.completes request epoch _ sig ha hreached' hfinal)) ?_
    refine completedPostProcess_micros w.app ?_ rfl
    simp [Store.close, Store.get?_storeRequest]

end

/-! ### The end of a block -/

theorem processExpired_micros (item : ℕ × RequestId) (hdue : item.1 ≤ height)
    (hkey : w.store.Keyed) :
    Micros env height hooks w (processExpired env hooks height w item) := by
  obtain ⟨s, app⟩ := w
  unfold processExpired
  split
  · next hget =>
    refine .single (.change app (.drops item.1 item.2 ?_))
    intro r hr
    exact absurd (hget.symm.trans hr) (by simp)
  · next request hget =>
    split
    · next hstale =>
      refine .single (.change app (.drops item.1 item.2 ?_))
      intro r hr hcollecting hdeadline
      cases hget.symm.trans hr
      rcases hstale with h | h
      · exact h hcollecting
      · exact h hdeadline
    · next hlive =>
      obtain ⟨hcollecting, hdeadline⟩ := not_or.mp hlive
      have hstored : s.requests.get? request.requestId = some request := by
        rw [hkey item.2 request hget]
        exact hget
      have hend : Ending env height s request none :=
        .late hstored (not_not.mp hcollecting) (by rw [not_not.mp hdeadline]; exact hdue)
      exact retryOrFinalize_micros app hend (.inr rfl)

theorem Micros.keyed {w' : World β} (h : Micros env height hooks w w') (hkey : w.store.Keyed) :
    w'.store.Keyed :=
  h.moves.invariant (fun hm hk => hm.keyed hk) hkey

theorem processExpired_foldl_micros {items : List (ℕ × RequestId)}
    (hdue : ∀ item ∈ items, item.1 ≤ height) (hkey : w.store.Keyed) :
    Micros env height hooks w (items.foldl (processExpired env hooks height) w) := by
  induction items generalizing w with
  | nil => exact .refl
  | cons item _ ih =>
    have hfirst : Micros env height hooks w _ :=
      processExpired_micros item (hdue item List.mem_cons_self) hkey
    have hrest := ih (fun i hi => hdue i (List.mem_cons_of_mem item hi)) (hfirst.keyed hkey)
    exact hfirst.trans hrest

theorem collectExpired_due {room : ℕ} {keys : List (ℕ ×ₗ RequestId)} {item : ℕ × RequestId}
    (h : item ∈ (collectExpired height room keys).1) : item.1 ≤ height := by
  induction room generalizing keys with
  | zero => simp [collectExpired] at h
  | succ _ ih =>
    match keys with
    | [] => simp [collectExpired] at h
    | key :: keys =>
      simp only [collectExpired] at h
      split at h
      · exact ih h
      split at h
      · simp at h
      next hdue =>
      rcases List.mem_cons.mp h with rfl | h
      · exact Nat.le_of_not_lt hdue
      · exact ih h

theorem collectExpired_rejected {room : ℕ} {keys : List (ℕ ×ₗ RequestId)}
    (hkeys : ∀ key ∈ keys, (ofLex key).2 ≠ []) : (collectExpired height room keys).2 = [] := by
  induction room generalizing keys with
  | zero => rfl
  | succ _ ih =>
    match keys with
    | [] => rfl
    | key :: keys =>
      simp only [collectExpired]
      rw [if_neg (hkeys key List.mem_cons_self)]
      split
      · rfl
      · exact ih fun key' h => hkeys key' (List.mem_cons_of_mem key h)

def Store.Named (s : Store) : Prop := ∀ key ∈ s.expirations.keys, (ofLex key).2 ≠ []

theorem processThresholdSigningDeadlines_eq (w : World β) (hnamed : w.store.Named) :
    processThresholdSigningDeadlines env hooks height w =
      (collectExpired height maxExpiredRequestsPerBlock w.store.expirations.keys).1.foldl
        (processExpired env hooks height) w := by
  simp only [processThresholdSigningDeadlines]
  rw [collectExpired_rejected hnamed]
  rfl

theorem processCompletedRetry_micros (id : RequestId) (hkey : w.store.Keyed) :
    Micros env height hooks w (processCompletedRetry hooks w id) := by
  obtain ⟨s, app⟩ := w
  simp only [processCompletedRetry]
  split
  · exact .single (.change app (.queues _))
  split
  · exact .single (.change app (.queues _))
  next request hget =>
  split
  · exact .single (.change app (.queues _))
  next hcompleted =>
  have hstored : s.requests.get? request.requestId = some request := by
    rw [hkey id request hget]
    exact hget
  split
  · exact .refl
  · next app' hhook =>
    refine ReflTransGen.head (.completed request hstored (not_not.mp hcompleted) hhook) ?_
    exact .single (.change app' (.queues _))

theorem processCompletedPostProcessRetries_micros (hkey : w.store.Keyed) :
    Micros env height hooks w (processCompletedPostProcessRetries hooks w) := by
  unfold processCompletedPostProcessRetries
  generalize w.store.completedRetries.keys.take maxCompletedPostProcessRetriesPerBlock = ids
  induction ids generalizing w with
  | nil => exact .refl
  | cons id _ ih =>
    have hfirst : Micros env height hooks w _ := processCompletedRetry_micros id hkey
    exact hfirst.trans (ih (hfirst.keyed hkey))

theorem endBlock_micros (hkey : w.store.Keyed) (hnamed : w.store.Named) :
    Micros env height hooks w (endBlock env hooks height w) := by
  unfold endBlock
  rw [processThresholdSigningDeadlines_eq w hnamed]
  have hdue : ∀ item ∈ (collectExpired height maxExpiredRequestsPerBlock w.store.expirations.keys).1,
      item.1 ≤ height := fun item h => collectExpired_due h
  have hfirst : Micros env height hooks w _ := processExpired_foldl_micros hdue hkey
  exact hfirst.trans (processCompletedPostProcessRetries_micros (hfirst.keyed hkey))

end

end ThresholdSigning
