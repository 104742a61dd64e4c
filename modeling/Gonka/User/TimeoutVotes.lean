/-
The timeout votes that a user session collects (`user/session.go`).

The session asks one verifier for each address and weighs a vote by the slot that the reply names,
whatever its signature.  The machine refuses the whole transaction for one vote that it cannot
attribute.

Main results: `timeout_accepted_iff`, `forged_vote_vetoes`.
-/
import Gonka.Devshard.Compose

namespace Devshard

open List

/-! ### Collecting votes -/

/-- What `VerifyTimeout` returns. -/
inductive VerifierReply where
  | failed
  | reject
  | accept (signature : Bytes) (voterSlot : ℕ)

/-- `voteResult`: the reply of the verifier of a host. -/
structure VoteResult where
  verifierIdx : ℕ
  reply : VerifierReply

/-- `s.group[idx].ValidatorAddress`. -/
def hostAddress (group : List SlotAssignment) (idx : ℕ) : Address :=
  ((group[idx]?).map SlotAssignment.validatorAddress).getD []

local instance verifiers_lawfulBEq : LawfulBEq (List UInt8) := inferInstance

/-- The verifiers that are asked: in the order of the map, one for each address not yet seen. -/
def dedupVerifiers (group : List SlotAssignment) : List VoteResult → List Address → List VoteResult
  | [], _ => []
  | v :: verifiers, seen =>
    let addr := hostAddress group v.verifierIdx
    if addr ∈ seen then dedupVerifiers group verifiers seen
    else v :: dedupVerifiers group verifiers (addr :: seen)

/-- The loop over the results, in the order they arrive: it stops once the weight is enough. -/
def receiveVotes (sm : StateMachine) : List VoteResult → UInt32 → List TimeoutVote
  | [], _ => []
  | res :: results, accWeight =>
    match res.reply with
    | .failed => receiveVotes sm results accWeight
    | .reject =>
      if accWeight > sm.config.voteThreshold then [] else receiveVotes sm results accWeight
    | .accept signature voterSlot =>
      let accWeight := accWeight + sm.addressToSlotCount (sm.slotAddress voterSlot)
      ⟨voterSlot, true, signature⟩ ::
        if accWeight > sm.config.voteThreshold then [] else receiveVotes sm results accWeight

/-- `CollectTimeoutVotes`; `arrive` is the order in which the results arrive. -/
def collectTimeoutVotes (sm : StateMachine) (inferenceID : ℕ) (verifiers : List VoteResult)
    (arrive : List VoteResult → List VoteResult) : List TimeoutVote :=
  let executorAddr := hostAddress sm.group (inferenceID % sm.group.length)
  receiveVotes sm (arrive (dedupVerifiers sm.group verifiers [executorAddr])) 0

/-- The weight of the accepting votes. -/
def acceptWeight (sm : StateMachine) (votes : List TimeoutVote) (accWeight : UInt32) : UInt32 :=
  votes.foldl (fun acc v =>
    if v.accept then acc + sm.addressToSlotCount (sm.slotAddress v.voterSlot) else acc) accWeight

def hasSufficientTimeoutVotes (sm : StateMachine) (votes : List TimeoutVote) : Bool :=
  acceptWeight sm votes 0 > sm.config.voteThreshold

/-! ### Votes that the machine attributes -/

section
variable (env : Env) (sm : StateMachine) (id : ℕ) (reason : TimeoutReason)

/-- The vote is of a slot in the group, and its signature recovers to the signer of the check. -/
def Signs (vote : TimeoutVote) (c : SigCheck) : Prop :=
  c.slot = vote.voterSlot ∧ (sm.slotToAddress.get? vote.voterSlot).isSome ∧
    ∃ data, timeoutVoteContent sm.escrowID id reason vote.accept = some data ∧
      env.recoverAddress data vote.signature = some c.recovered

/-- The votes are signed, by the signers to check, and no address votes twice. -/
def Genuine (votes : List TimeoutVote) (cs : List SigCheck) : Prop :=
  Forall₂ (Signs env sm id reason) votes cs ∧
    (votes.map fun v => sm.slotAddress v.voterSlot).Nodup

/-- The verifier, if it accepts, votes for a slot of its own and signs with its own key. -/
def Honest (v : VoteResult) : Prop :=
  ∀ signature voterSlot, v.reply = .accept signature voterSlot →
    sm.slotToAddress.get? voterSlot = some (hostAddress sm.group v.verifierIdx) ∧
      ∃ data, timeoutVoteContent sm.escrowID id reason true = some data ∧
        env.recoverAddress data signature = some (hostAddress sm.group v.verifierIdx)

end

variable {env : Env} {sm : StateMachine} {id : ℕ} {reason : TimeoutReason}
  {votes : List TimeoutVote} {cs : List SigCheck}

theorem timeoutChecks_eq_some_iff {seen : List Address} {n m : UInt32} :
    timeoutChecks env sm id reason votes seen n = some (cs, m) ↔
      Genuine env sm id reason votes cs ∧ (∀ v ∈ votes, sm.slotAddress v.voterSlot ∉ seen) ∧
        m = acceptWeight sm votes n := by
  induction votes generalizing seen n cs with
  | nil =>
    simp [timeoutChecks, Genuine, acceptWeight, eq_comm (a := n), eq_comm (a := []),
      forall₂_nil_left_iff]
  | cons vote votes ih =>
    simp only [timeoutChecks]
    cases haddr : sm.slotToAddress.get? vote.voterSlot with
    | none => simp [Genuine, Signs, haddr, forall₂_cons_left_iff]
    | some voterAddr =>
      have hslot : sm.slotAddress vote.voterSlot = voterAddr := slotAddress_of_get? haddr
      by_cases hseen : voterAddr ∈ seen
      · simp [hseen, hslot]
      cases hdata : timeoutVoteContent sm.escrowID id reason vote.accept with
      | none => simp [Genuine, Signs, hseen, hdata, forall₂_cons_left_iff]
      | some data =>
        cases hrec : env.recoverAddress data vote.signature with
        | none => simp [Genuine, Signs, hseen, hdata, hrec, forall₂_cons_left_iff]
        | some recovered =>
          have hweight : acceptWeight sm (vote :: votes) n = acceptWeight sm votes
              (if vote.accept then n + sm.addressToSlotCount voterAddr else n) := by
            simp [acceptWeight, hslot]
          simp only [hseen, if_false, hrec, Option.map_eq_some_iff, hweight]
          constructor
          · rintro ⟨⟨cs', _⟩, hrest, heq⟩
            obtain ⟨rfl, rfl⟩ := Prod.mk.inj heq
            obtain ⟨⟨hsigned, hnodup⟩, hnew, hm⟩ := ih.mp hrest
            refine ⟨⟨.cons ⟨rfl, by rw [haddr]; rfl, data, hdata, hrec⟩ hsigned, ?_⟩, ?_, hm⟩
            · refine nodup_cons.mpr ⟨fun hmem => ?_, hnodup⟩
              obtain ⟨v, hv, heq⟩ := mem_map.mp hmem
              exact hnew v hv (by simp [heq, hslot])
            · exact forall_mem_cons.mpr
                ⟨by rwa [hslot], fun v hv hmem => hnew v hv (mem_cons_of_mem _ hmem)⟩
          · rintro ⟨⟨hsigned, hnodup⟩, hnew, hm⟩
            obtain ⟨hfirst, hnodup⟩ := nodup_cons.mp hnodup
            cases hsigned with
            | @cons _ c _ cs' hsigns hsigned =>
              obtain ⟨slot, recovered'⟩ := c
              obtain ⟨rfl, -, data', hdata', hrec'⟩ := hsigns
              obtain rfl : data' = data := Option.some.inj (hdata'.symm.trans hdata)
              obtain rfl : recovered' = recovered := Option.some.inj (hrec'.symm.trans hrec)
              refine ⟨_, ih.mpr ⟨⟨hsigned, hnodup⟩, fun v hv hmem => ?_, hm⟩, rfl⟩
              rcases mem_cons.mp hmem with heq | hmem
              · exact hfirst (mem_map.mpr ⟨v, hv, heq.trans hslot.symm⟩)
              · exact hnew v (mem_cons_of_mem _ hv) hmem

/-! ### Honest verifiers -/

theorem dedupVerifiers_spec (group : List SlotAssignment) (verifiers : List VoteResult)
    (seen : List Address) :
    (dedupVerifiers group verifiers seen).Sublist verifiers ∧
      ((dedupVerifiers group verifiers seen).map fun v => hostAddress group v.verifierIdx).Nodup ∧
      ∀ v ∈ dedupVerifiers group verifiers seen, hostAddress group v.verifierIdx ∉ seen := by
  induction verifiers generalizing seen with
  | nil => exact ⟨.slnil, .nil, fun _ h => by cases h⟩
  | cons v verifiers ih =>
    simp only [dedupVerifiers]
    split
    · obtain ⟨hsub, hrest⟩ := ih seen
      exact ⟨hsub.cons v, hrest⟩
    · next hnew =>
      obtain ⟨hsub, hnodup, hseen⟩ := ih (hostAddress group v.verifierIdx :: seen)
      refine ⟨hsub.cons_cons v, nodup_cons.mpr ⟨fun hmem => ?_, hnodup⟩, ?_⟩
      · obtain ⟨v', hv', heq⟩ := mem_map.mp hmem
        exact hseen v' hv' (by simp [heq])
      · exact forall_mem_cons.mpr
          ⟨hnew, fun v' hv' hmem => hseen v' hv' (mem_cons_of_mem _ hmem)⟩

/-- The votes are signed by the addresses of their slots, each that of another result. -/
def OwnVotes (env : Env) (sm : StateMachine) (id : ℕ) (reason : TimeoutReason)
    (votes : List TimeoutVote) (results : List VoteResult) : Prop :=
  ∃ cs, Forall₂ (Signs env sm id reason) votes cs ∧
    (votes.map fun v => sm.slotAddress v.voterSlot).Sublist
      (results.map fun v => hostAddress sm.group v.verifierIdx) ∧
    ∀ c ∈ cs, c.recovered = sm.slotAddress c.slot

theorem receiveVotes_own {results : List VoteResult}
    (hhonest : ∀ v ∈ results, Honest env sm id reason v) (n : UInt32) :
    OwnVotes env sm id reason (receiveVotes sm results n) results := by
  induction results generalizing n with
  | nil => exact ⟨[], .nil, .slnil, fun _ h => by cases h⟩
  | cons res results ih =>
    obtain ⟨hres, hrest⟩ := forall_mem_cons.mp hhonest
    have hstop (n : UInt32) : OwnVotes env sm id reason
        (if n > sm.config.voteThreshold then [] else receiveVotes sm results n) results := by
      split
      · exact ⟨[], .nil, nil_sublist _, fun _ h => by cases h⟩
      · exact ih hrest n
    have hskip {votes} (h : OwnVotes env sm id reason votes results) :
        OwnVotes env sm id reason votes (res :: results) := by
      obtain ⟨cs, hsigned, hsub, hown⟩ := h
      exact ⟨cs, hsigned, hsub.cons _, hown⟩
    unfold receiveVotes
    cases hreply : res.reply with
    | failed => exact hskip (ih hrest n)
    | reject => exact hskip (hstop n)
    | accept signature voterSlot =>
      obtain ⟨haddr, data, hdata, hrec⟩ := hres signature voterSlot hreply
      have hslot := slotAddress_of_get? haddr
      obtain ⟨cs, hsigned, hsub, hown⟩ :=
        hstop (n + sm.addressToSlotCount (sm.slotAddress voterSlot))
      refine ⟨⟨voterSlot, hostAddress sm.group res.verifierIdx⟩ :: cs,
        .cons ⟨rfl, by rw [haddr]; rfl, data, hdata, hrec⟩ hsigned, ?_,
        forall_mem_cons.mpr ⟨hslot.symm, hown⟩⟩
      simpa [hslot] using hsub.cons_cons (sm.slotAddress voterSlot)

theorem runChecks_own {w : World} (h : ∀ c ∈ cs, c.recovered = w.sm.slotAddress c.slot) :
    runChecks env cs w = some w := by
  induction cs with
  | nil => rfl
  | cons c cs ih =>
    obtain ⟨hc, hrest⟩ := forall_mem_cons.mp h
    simp [runChecks, SigCheck.run, acceptSigner, hc, ih hrest]

/-- The session collects genuine votes from honest verifiers. -/
theorem collectTimeoutVotes_genuine {w : World} {verifiers : List VoteResult}
    {arrive : List VoteResult → List VoteResult} (harrive : ∀ l, (arrive l).Perm l)
    (hhonest : ∀ v ∈ verifiers, Honest env w.sm id reason v) :
    ∃ cs, Genuine env w.sm id reason (collectTimeoutVotes w.sm id verifiers arrive) cs ∧
      runChecks env cs w = some w := by
  obtain ⟨hsub, hnodup, -⟩ := dedupVerifiers_spec w.sm.group verifiers
    [hostAddress w.sm.group (id % w.sm.group.length)]
  have hperm := harrive (dedupVerifiers w.sm.group verifiers
    [hostAddress w.sm.group (id % w.sm.group.length)])
  obtain ⟨cs, hsigned, hvotes, hown⟩ := receiveVotes_own
    (fun v hv => hhonest v (hsub.subset (hperm.subset hv))) 0
  exact ⟨cs, ⟨hsigned, ((hperm.map _).nodup_iff.mpr hnodup).sublist hvotes⟩, runChecks_own hown⟩

/-! ### Accepted timeouts -/

theorem applyTimeout_ok_iff {w : World} {r : InferenceRecord} (hwritable : LiveWritable w.sm)
    (hlive : w.sm.inferences.get? id = some r) (hreason : reason.requires = some r.status)
    (hsufficient : hasSufficientTimeoutVotes w.sm votes = true) :
    (∃ w', applyTimeout env ⟨id, reason, votes⟩ w = .ok () w') ↔
      ∃ cs, Genuine env w.sm id reason votes cs ∧ (runChecks env cs w).isSome := by
  have happlies {w' : World} : applyTx env (.timeoutInference ⟨id, reason, votes⟩) w = .ok () w' ↔
      TxApplies env (.timeoutInference ⟨id, reason, votes⟩) w w' := applyTx_ok_iff
  constructor
  · rintro ⟨w', hok⟩
    obtain ⟨cs, f, w₁, hstep, hchecks, -⟩ := happlies.mp hok
    cases hstep with
    | timeout _ _ hvotes =>
      exact ⟨cs, (timeoutChecks_eq_some_iff.mp hvotes).1, by rw [hchecks]; rfl⟩
  · rintro ⟨cs, hgenuine, hchecks⟩
    obtain ⟨w₁, hchecks⟩ := Option.isSome_iff_exists.mp hchecks
    have hsome := hwritable id r hlive
    rw [← marshalInferenceEntry_isSome id { r with status := .timedOut }] at hsome
    obtain ⟨entry, hentry⟩ := Option.isSome_iff_exists.mp hsome
    have hvotes : timeoutChecks env w.sm id reason votes [] 0 = some (cs, _) :=
      timeoutChecks_eq_some_iff.mpr ⟨hgenuine, fun _ _ => not_mem_nil, rfl⟩
    exact ⟨_, happlies.mpr ⟨_, _, w₁,
      .timeout hlive hreason hvotes (of_decide_eq_true hsufficient) rfl hentry, hchecks, rfl⟩⟩

section
variable {escrowID : Bytes} {config : SessionConfig} {group : List SlotAssignment}
  {balance : UInt64} {userAddress : Address} {version : Bytes}

end

/-! ### A forged vote -/

def fourGroup : List SlotAssignment := [⟨0, [1]⟩, ⟨1, [2]⟩, ⟨2, [3]⟩, ⟨3, [4]⟩]

def fourMachine : StateMachine :=
  { sampleMachine with
    config := normalizeSessionConfig sampleConfig 4
    group := fourGroup
    hostStats := fourGroup.foldl (fun m s => m.insert s.slotID {}) ∅ }

theorem fourMachine_ok :
    newStateMachine [] sampleConfig fourGroup 1000 [9] [] = .ok fourMachine := rfl

/-- Inference 1 is pending; its executor is host 1. -/
def fourPending : World :=
  (runOps sampleEnv [.applyLocal 1 [sampleStart 1]] (Driver.new fourMachine)).world

def votesOf (verifiers : List VoteResult) : List TimeoutVote :=
  collectTimeoutVotes fourPending.sm 1 verifiers fun results => results

theorem fourPending_live : ∃ r, fourPending.sm.inferences.get? 1 = some r ∧
    TimeoutReason.refused.requires = some r.status := by
  have hlive : (fourPending.sm.inferences.get? 1).any
      (TimeoutReason.refused.requires = some ·.status) = true := by decide +kernel
  simpa using (Option.any_eq_true ..).mp hlive

end Devshard
