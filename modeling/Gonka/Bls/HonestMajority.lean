/-
Key generation with an honest majority of slots.

`H` is a set of participants with more than half of the slots who follow the protocol: they send what
it asks for, in time, and nothing else is assumed of them or of the chain; the others send what they
like, when they like.  The messages of `H` are taken, so that no phase fails.  Since every vote against a dealer needs a complaint, and a
complaint of `H` can never be answered, a dealer that an honest participant voted against is at
fault; since the complaints against `H` are all answered, only the complainers are.  Those are
taken out of the count, which leaves `H` its majority.

Main results: `honest_majority_completes`, `completed_is_final`.
-/
import Gonka.Bls.DealerMessages

namespace Dkg

open OrdMap List Bool Option EpochBLSData

open ThresholdSigning (Address DKGPhase)

section

variable {G : Type} [AddCommMonoid G] (env : Env G) (H : Finset ℕ)

/-- A generation, and the messages that came in time. -/
structure Session where
  chain : Chain
  sent : List Event

def Session.step (e : Event) (s : Session) : Session :=
  ⟨Dkg.step env e s.chain, if s.chain.inTime e then e :: s.sent else s.sent⟩

/-- The honest participants follow the protocol: what they send in time is what it asks for, and when a
phase ends they have sent a dealer part, a vector, and an answer to every complaint. -/
def Follows (s : Session) : Event → Prop
  | .dealerPart msg => s.chain.inTime (.dealerPart msg) → ∀ h ∈ H,
      env.participantIndex msg.creator = some h → msg.Honest env
  | .verification msg => s.chain.inTime (.verification msg) → ∀ h ∈ H,
      env.participantIndex msg.creator = some h → msg.Honest env H s.chain.data h
  | .respond msg => s.chain.inTime (.respond msg) → ∀ h ∈ H, msg.IsFrom env h →
      msg.Honest env s.chain.data
  | .endBlock _ =>
    match s.chain.data.dkgPhase with
    | .dealing => s.chain.data.dealingPhaseDeadlineBlock ≤ s.chain.height → ∀ h ∈ H,
        ∃ msg, .dealerPart msg ∈ s.sent ∧ env.participantIndex msg.creator = some h
    | .verifying => s.chain.data.verifyingPhaseDeadlineBlock ≤ s.chain.height → ∀ h ∈ H,
        ∃ msg, .verification msg ∈ s.sent ∧ env.participantIndex msg.creator = some h
    | .disputing => s.chain.data.disputingPhaseDeadlineBlock ≤ s.chain.height →
        ∀ k complaint, s.chain.data.dealerComplaints.get? k = some complaint →
          complaint.dealerIndex ∈ H → ∃ msg, .respond msg ∈ s.sent ∧
            msg.IsFrom env complaint.dealerIndex ∧
            ∃ response ∈ msg.responses, response.complainerIndex = complaint.complainerIndex
    | _ => True

def EpochBLSData.valid (d : EpochBLSData) (i : ℕ) : Bool := d.validDealers.getD i false

def Env.constantPoint (d : EpochBLSData) (i : ℕ) : G :=
  (((d.dealerPart i).commitments.head?).bind env.point).getD 0

/-- **How a generation ends.** -/
structure Outcome (d : EpochBLSData) : Prop where
  honest : ∀ h ∈ H, d.valid h
  voted : ∀ i, d.valid i → i ∉ H → ∃ h ∈ H, d.votes h i
  submitted : ∀ i, d.valid i → (d.dealerPart i).dealerAddress ≠ [] ∧
    (d.dealerPart i).commitments.length = env.tSlotsDegree + 1
  answered : ∀ i, d.valid i → ∀ k complaint, d.dealerComplaints.get? k = some complaint →
    complaint.dealerIndex = i → verifyDealerComplaintResponse env d complaint
  majority : env.iTotalSlots < 2 * env.slotsOf d.valid
  points : ∀ i, d.valid i → ∃ c, (d.dealerPart i).commitments.head? = some c ∧
    env.point c = some (env.constantPoint d i)
  groupPublicKey : d.groupPublicKey = env.crypto.compress
    (((List.range env.participants.length).filter d.valid).map (env.constantPoint d)).sum

structure InOrder (d : EpochBLSData) : Prop where
  parts : ∀ i, (d.dealerPart i).dealerAddress ≠ [] → PartOk env (d.dealerPart i)
  proofs : ∀ v i, d.votes v i → i ≠ v → ∀ c ∈ (d.dealerPart i).commitments, (env.point c).isSome
  /-- a vote against a dealer comes with a complaint -/
  evidence : ∀ v i, v < env.participants.length → i < env.participants.length →
    d.submission v ≠ [] → d.votes v i = false → (d.dealerPart i).dealerAddress ≠ [] →
    ∃ complaint, d.dealerComplaints.get? (toLex (i, v)) = some complaint
  complaints : ∀ k complaint, d.dealerComplaints.get? k = some complaint →
    k = toLex (complaint.dealerIndex, complaint.complainerIndex) ∧
      complaint.dealerIndex < env.participants.length ∧
      complaint.complainerIndex < env.participants.length ∧
      d.submission complaint.complainerIndex ≠ []
  /-- what the honest have sent is what the protocol asks for -/
  points : ∀ h ∈ H, ∀ c ∈ (d.dealerPart h).commitments, (env.point c).isSome
  votes : ∀ h ∈ H, d.submission h ≠ [] → ∀ dealer ∈ H, d.votes h dealer
  answers : ∀ k complaint, d.dealerComplaints.get? k = some complaint → complaint.dealerIndex ∈ H →
    complaint.responseSubmitted → verifyDealerComplaintResponse env d complaint
  hopeless : ∀ k complaint, d.dealerComplaints.get? k = some complaint →
    complaint.complainerIndex ∈ H → Hopeless env d complaint
  phase : d.dkgPhase = .dealing ∨ d.dkgPhase = .verifying ∨ d.dkgPhase = .disputing ∨
    d.dkgPhase = .completed
  early : d.dkgPhase = .dealing → d.verificationSubmissions = ∅ ∧ d.dealerComplaints = ∅
  dealt : d.dkgPhase ≠ .dealing → ∀ h ∈ H, (d.dealerPart h).dealerAddress ≠ []
  voted : d.dkgPhase = .disputing ∨ d.dkgPhase = .completed → ∀ h ∈ H, d.submission h ≠ []
  outcome : d.dkgPhase = .completed → Outcome env H d

end

section

variable {G : Type} {env : Env G} {H : Finset ℕ} {height : ℕ} {d d' : EpochBLSData}
  {msg : MsgSubmitVerificationVector} {i : ℕ}

theorem mapM_filterMap {α β γ : Type} {f : α → Option β} {g : β → Option γ} {r : α → γ}
    {l : List α} (h : ∀ a ∈ l, ∃ b, f a = some b ∧ g b = some (r a)) :
    (l.filterMap f).mapM g = some (l.map r) := by
  induction l with
  | nil => rfl
  | cons a l ih =>
    obtain ⟨b, hb, hr⟩ := h a mem_cons_self
    have hl := ih fun a' ha' => h a' (mem_cons_of_mem a ha')
    rw [filterMap_cons_some hb, mapM_cons, hr, hl]
    rfl

/-! ### Majorities -/

theorem slotsOf_mono {sel sel' : ℕ → Bool} (h : ∀ i, sel i → sel' i) :
    env.slotsOf sel ≤ env.slotsOf sel' :=
  Weights.weigh_mono h

theorem slotsOf_mod (sel : ℕ → Bool) : env.slotsOf sel % 2 ^ 32 = env.slotsOf sel := by
  refine Nat.mod_eq_of_lt (lt_of_le_of_lt (Weights.weigh_le _ _) ?_)
  rw [env.roster.total]
  exact env.roster.iTotalSlots_lt

variable (env H) in
/-- The participants `H` have more than half of the slots. -/
def HasMajority : Prop := env.iTotalSlots < 2 * env.slotsOf (fun i => decide (i ∈ H))

theorem HasMajority.of_subset (hmaj : HasMajority env H) {sel : ℕ → Bool} (h : ∀ i ∈ H, sel i) :
    env.iTotalSlots < 2 * env.slotsOf sel := by
  have hle : env.slotsOf (fun i => decide (i ∈ H)) ≤ env.slotsOf sel :=
    slotsOf_mono fun i hi => h i (of_decide_eq_true hi)
  unfold HasMajority at hmaj
  omega

theorem HasMajority.nonempty (hmaj : HasMajority env H) : H.Nonempty := by
  rw [Finset.nonempty_iff_ne_empty]
  rintro rfl
  have hzero : env.slotsOf (fun i => decide (i ∈ (∅ : Finset ℕ))) = 0 := by
    unfold Env.slotsOf Weights.weigh
    simp
  unfold HasMajority at hmaj
  omega

theorem determineValidDealersWithConsensus_eq (hmaj : HasMajority env H)
    (hH : ∀ i ∈ H, i < env.participants.length) (excluded : ℕ → List ℕ) :
    determineValidDealersWithConsensus env d excluded =
      some ((List.range env.participants.length).map fun dealer =>
        dealerIsValid env d (excluded dealer) dealer) := by
  obtain ⟨i, hi⟩ := hmaj.nonempty
  refine if_neg ?_
  intro hempty
  have hlt := hH i hi
  rw [hempty] at hlt
  nomatch hlt

theorem not_verify_of_hopeless {c : DealerComplaint} (h : Hopeless env d c) :
    verifyDealerComplaintResponse env d c = false := by
  by_contra htrue
  have hsubmitted : c.responseSubmitted = true := by
    by_contra hno
    simp [verifyDealerComplaintResponse, hno] at htrue
  have hanswer := h ⟨0, c.responseShareBytes, c.responseOpeningMaterial⟩
  unfold DealerComplaint.answered at hanswer
  rw [← hsubmitted] at hanswer
  exact htrue hanswer

theorem mem_complaints {c : DealerComplaint} :
    c ∈ d.dealerComplaints.entries.map Prod.snd ↔ ∃ k, d.dealerComplaints.get? k = some c := by
  constructor
  · intro hc
    obtain ⟨e, he, rfl⟩ := mem_map.mp hc
    exact ⟨e.1, get?_eq_some_iff.mpr he⟩
  · rintro ⟨k, hk⟩
    exact mem_map.mpr ⟨(k, c), get?_eq_some_iff.mp hk, rfl⟩

theorem mem_dealerFaults {k : ℕ ×ₗ ℕ} {c : DealerComplaint}
    (hget : d.dealerComplaints.get? k = some c) (hrange : env.inRange c)
    (hbad : verifyDealerComplaintResponse env d c = false) :
    c.dealerIndex ∈ (adjudicateDealerComplaints env d).1 := by
  refine mem_map.mpr ⟨c, mem_filter.mpr ⟨mem_filter.mpr ⟨?_, hrange⟩, ?_⟩, rfl⟩
  · exact mem_complaints.mpr ⟨k, hget⟩
  · rw [hbad]
    rfl

theorem dealerFaults_spec (h : i ∈ (adjudicateDealerComplaints env d).1) :
    ∃ k c, d.dealerComplaints.get? k = some c ∧ c.dealerIndex = i ∧
      verifyDealerComplaintResponse env d c = false := by
  obtain ⟨c, hc, hi⟩ := mem_map.mp h
  obtain ⟨hc, hbad⟩ := mem_filter.mp hc
  obtain ⟨k, hk⟩ := mem_complaints.mp (mem_filter.mp hc).1
  exact ⟨k, c, hk, hi, by simpa using hbad⟩

theorem falseComplaints_spec {c : DealerComplaint} (h : c ∈ (adjudicateDealerComplaints env d).2) :
    ∃ k, d.dealerComplaints.get? k = some c ∧ verifyDealerComplaintResponse env d c := by
  obtain ⟨hc, hgood⟩ := mem_filter.mp h
  obtain ⟨k, hk⟩ := mem_complaints.mp (mem_filter.mp hc).1
  exact ⟨k, hk, hgood⟩

variable (env) in
def finalValid (d : EpochBLSData) (i : ℕ) : Bool :=
  dealerIsValid env d (falseComplainers (adjudicateDealerComplaints env d).2 i) i &&
    !(adjudicateDealerComplaints env d).1.contains i &&
    !((adjudicateDealerComplaints env d).2.map DealerComplaint.complainerIndex).contains i

theorem finalValid_spec (hi : finalValid env d i) :
    (d.dealerPart i).dealerAddress ≠ [] ∧ i ∉ (adjudicateDealerComplaints env d).1 := by
  unfold finalValid dealerIsValid at hi
  simp only [and_eq_true, decide_eq_true_eq, not_eq_true', ← not_eq_true,
    contains_iff_mem] at hi
  exact ⟨hi.1.1.1.2, hi.1.2⟩

variable (env) in
def finalValidDealers (d : EpochBLSData) : List Bool :=
  (List.range env.participants.length).map (finalValid env d)

theorem getD_finalValidDealers (i : ℕ) : (finalValidDealers env d).getD i false =
    (decide (i < env.participants.length) && finalValid env d i) := by
  unfold finalValidDealers
  by_cases hi : i < env.participants.length
  · simp [hi]
  · simp [hi]

variable (env) in
def finalDealers (d : EpochBLSData) : List ℕ :=
  (List.range env.participants.length).filter fun i => (finalValidDealers env d).getD i false

theorem applyComplaintFaultMaps_eq :
    applyComplaintFaultMaps ((List.range env.participants.length).map fun dealer =>
        dealerIsValid env d (falseComplainers (adjudicateDealerComplaints env d).2 dealer) dealer)
      (adjudicateDealerComplaints env d).1
      ((adjudicateDealerComplaints env d).2.map DealerComplaint.complainerIndex) =
    finalValidDealers env d := by
  refine ext_getElem (by simp [applyComplaintFaultMaps, finalValidDealers]) ?_
  simp [applyComplaintFaultMaps, finalValidDealers, finalValid]

theorem length_finalValidDealers : (finalValidDealers env d).length = env.participants.length := by
  unfold finalValidDealers
  rw [length_map, length_range]

theorem getD_finalValidDealers_iff : (finalValidDealers env d).getD i false = true ↔
    i < env.participants.length ∧ finalValid env d i := by
  rw [getD_finalValidDealers, and_eq_true, decide_eq_true_eq]

variable [AddCommMonoid G]

theorem submitDealerPart_inOrder {msg : MsgSubmitDealerPart} {sent : List Event} (h : InOrder env H d)
    (hfollows : Follows env H ⟨⟨d, height⟩, sent⟩ (.dealerPart msg))
    (hok : submitDealerPart env height msg d = .ok d') : InOrder env H d' := by
  obtain ⟨htime, i, hi, hpart, rfl⟩ := submitDealerPart_spec hok
  have hphase : d.dkgPhase = .dealing := (of_decide_eq_true htime).1
  obtain ⟨hvotes, hcomplaints⟩ := h.early hphase
  -- there are no votes and no complaints yet
  have hnone : ∀ k complaint, d.dealerComplaints.get? k ≠ some complaint := by
    intro k complaint hget
    rw [hcomplaints] at hget
    nomatch hget
  refine ⟨?_, ?_, ?_, fun k c hget => absurd hget (hnone k c), ?_, ?_,
    fun k c hget => absurd hget (hnone k c), fun k c hget => absurd hget (hnone k c), .inl hphase,
    fun _ => ⟨hvotes, hcomplaints⟩, by simp [hphase], by simp [hphase], by simp [hphase]⟩
  · intro j hj
    rw [dealerPart_insert] at hj ⊢
    split at hj
    · next heq => rw [if_pos heq]; exact hpart
    · next hne => rw [if_neg hne]; exact h.parts j hj
  · intro v j hvote
    change d.votes v j = true at hvote
    rw [votes_of_empty hvotes] at hvote
    nomatch hvote
  · intro v j _ _ hvote
    exact absurd (submission_of_empty hvotes v) hvote
  · intro j hj c hc
    rw [dealerPart_insert] at hc
    split at hc
    · next heq => exact (hfollows htime j hj (heq ▸ hi)).points c hc
    · exact h.points j hj c hc
  · intro j _ hsubmitted
    exact absurd (submission_of_empty hvotes j) hsubmitted

theorem submitVerificationVector_inOrder {sent : List Event} (h : InOrder env H d)
    (hfollows : Follows env H ⟨⟨d, height⟩, sent⟩ (.verification msg))
    (hok : submitVerificationVector env height msg d = .ok d') : InOrder env H d' := by
  obtain ⟨htime, i, m', hi, hlength, hproofs, hm, rfl⟩ := submitVerificationVector_spec hok
  have hphase : d.dkgPhase = .verifying := (of_decide_eq_true htime).1
  have hsub (j : ℕ) : submission { d with
      verificationSubmissions := d.verificationSubmissions.insert i msg.dealerValidity
      dealerComplaints := m' } j = if j = i then msg.dealerValidity else d.submission j :=
    submission_insert j msg.dealerValidity
  have hnonempty (j : ℕ) (hj : j = i ∨ d.submission j ≠ []) :
      (if j = i then msg.dealerValidity else d.submission j) ≠ [] := by
    split
    · exact vector_ne_nil hi hlength
    · next hne => exact hj.resolve_left hne
  refine ⟨h.parts, ?_, ?_, ?_, h.points, ?_, ?_, ?_, .inr (.inl hphase), by simp [hphase],
    h.dealt, by simp [hphase], by simp [hphase]⟩
  · -- proofs
    intro v j hvote hne
    unfold votes at hvote
    rw [hsub] at hvote
    split at hvote
    · next hv => exact validateDealerValidityProofs_points hproofs hvote (hv ▸ hne)
    · exact h.proofs v j hvote hne
  · -- evidence
    intro v j hv hj hsubmitted hvote hpart
    unfold votes at hvote
    rw [hsub] at hsubmitted hvote
    split at hvote
    · next heq =>
      rw [heq] at hv ⊢
      exact hm.evidence j (mem_range.mpr hj) hvote ((h.parts j hpart).requiresEvidence hpart hv)
    · next hne =>
      rw [if_neg hne] at hsubmitted
      obtain ⟨c, hc⟩ := h.evidence v j hv hj hsubmitted hvote hpart
      exact ⟨c, hm.kept _ c hc⟩
  · -- complaints
    intro k c hget
    rcases hm.new k c hget with hold | ⟨_, -, hdealer, hk, rfl⟩
    · obtain ⟨hk, hdealer, hcomplainer, hsubmitted⟩ := h.complaints k c hold
      exact ⟨hk, hdealer, hcomplainer, hsub _ ▸ hnonempty _ (.inr hsubmitted)⟩
    · exact ⟨hk, mem_range.mp hdealer, participantIndex_lt hi, hsub _ ▸ hnonempty _ (.inl rfl)⟩
  · -- votes
    intro j hj hsubmitted dealer hdealer
    unfold votes
    rw [hsub] at hsubmitted ⊢
    split
    · next heq => exact (hfollows htime j hj (heq ▸ hi)).marks dealer hdealer
    · next hne =>
      rw [if_neg hne] at hsubmitted
      exact h.votes j hj hsubmitted dealer hdealer
  · -- answers
    intro k c hget hmem hdone
    rcases hm.new k c hget with hold | ⟨_, -, -, -, rfl⟩
    · exact h.answers k c hold hmem hdone
    · nomatch hdone
  · -- hopeless
    intro k c hget hmem
    rcases hm.new k c hget with hold | ⟨complaint, hcomplaint, -, -, rfl⟩
    · exact h.hopeless k c hold hmem
    · exact ((hfollows htime i hmem hi).complaints complaint hcomplaint).2.2.2

theorem respondDealerComplaints_inOrder {msg : MsgRespondDealerComplaints} {sent : List Event}
    (h : InOrder env H d) (hfollows : Follows env H ⟨⟨d, height⟩, sent⟩ (.respond msg))
    (hok : respondDealerComplaints env height msg d = .ok d') : InOrder env H d' := by
  obtain ⟨htime, hfrom, m', rfl, hm⟩ := respondDealerComplaints_spec hok
  have hphase : d.dkgPhase = .disputing := (of_decide_eq_true htime).1
  refine ⟨h.parts, h.proofs, ?_, ?_, h.points, h.votes, ?_, ?_, .inr (.inr (.inl hphase)),
    by simp [hphase], h.dealt, h.voted, by simp [hphase]⟩
  · intro v j hv hj hsubmitted hvote hpart
    obtain ⟨c, hc⟩ := h.evidence v j hv hj hsubmitted hvote hpart
    obtain ⟨c', hc', -⟩ := hm.kept _ c hc
    exact ⟨c', hc'⟩
  · intro k c' hget'
    obtain ⟨c, hget, rfl | ⟨-, response, -, -, rfl⟩⟩ := hm.new k c' hget'
    · exact h.complaints k c' hget
    · exact h.complaints k c hget
  · intro k c' hget' hmem hdone
    obtain ⟨c, hget, rfl | ⟨hopen, response, hresponse, hk, rfl⟩⟩ := hm.new k c' hget'
    · exact h.answers k c' hget hmem hdone
    · -- the answer is one of the dealer, who is honest
      have hdealer : c.dealerIndex = msg.dealerIndex :=
        (Prod.mk.inj (toLex_inj.mp ((h.complaints k c hget).1.symm.trans hk))).1
      obtain ⟨complaint, hcomplaint, -, hverify⟩ :=
        (hfollows htime msg.dealerIndex (hdealer ▸ hmem) hfrom).valid response hresponse
      rw [← hk, hget] at hcomplaint
      cases hcomplaint
      exact hverify
  · intro k c' hget' hmem
    obtain ⟨c, hget, rfl | ⟨-, response, -, -, rfl⟩⟩ := hm.new k c' hget'
    · exact h.hopeless k c' hget hmem
    · exact h.hopeless k c hget hmem

/-! ### The ends of the phases -/

section

variable (hmaj : HasMajority env H) (hH : ∀ i ∈ H, i < env.participants.length)
  (h : InOrder env H d)

include hmaj h in
theorem transitionToVerifyingPhase_inOrder (height : ℕ)
    (hdealt : ∀ i ∈ H, (d.dealerPart i).dealerAddress ≠ []) :
    transitionToVerifyingPhase env height d = { d with
      dkgPhase := .verifying
      verifyingPhaseDeadlineBlock := height + env.verificationPhaseDurationBlocks } ∧
    InOrder env H (transitionToVerifyingPhase env height d) := by
  have hslots : env.iTotalSlots <
      2 * env.slotsOf (fun i => decide ((d.dealerPart i).dealerAddress ≠ [])) :=
    hmaj.of_subset fun i hi => decide_eq_true (hdealt i hi)
  have heq : transitionToVerifyingPhase env height d = { d with
      dkgPhase := .verifying
      verifyingPhaseDeadlineBlock := height + env.verificationPhaseDurationBlocks } := by
    unfold transitionToVerifyingPhase
    rw [slotsOf_mod, if_pos (by omega)]
  refine ⟨heq, ?_⟩
  rw [heq]
  exact ⟨h.parts, h.proofs, h.evidence, h.complaints, h.points, h.votes, h.answers, h.hopeless,
    .inr (.inl rfl), nofun, fun _ => hdealt, by simp, nofun⟩

include hmaj hH h in
theorem transitionFromVerifyingToDisputing_inOrder (height : ℕ) (hphase : d.dkgPhase = .verifying)
    (hvoted : ∀ i ∈ H, d.submission i ≠ []) :
    (∃ candidates, transitionFromVerifyingToDisputing env height d = { d with
      candidateValidDealers := candidates
      dkgPhase := .disputing
      disputingPhaseDeadlineBlock := height + env.disputePhaseDurationBlocks }) ∧
    InOrder env H (transitionFromVerifyingToDisputing env height d) := by
  have hslots : env.iTotalSlots < 2 * env.slotsOf (fun i => decide (d.submission i ≠ [])) :=
    hmaj.of_subset fun i hi => decide_eq_true (hvoted i hi)
  obtain ⟨candidates, heq⟩ : ∃ candidates, transitionFromVerifyingToDisputing env height d = { d with
      candidateValidDealers := candidates
      dkgPhase := .disputing
      disputingPhaseDeadlineBlock := height + env.disputePhaseDurationBlocks } := by
    unfold transitionFromVerifyingToDisputing
    rw [slotsOf_mod, if_neg (by omega), determineValidDealersWithConsensus_eq hmaj hH]
    exact ⟨_, rfl⟩
  refine ⟨⟨candidates, heq⟩, ?_⟩
  rw [heq]
  have hdealt := h.dealt (by rw [hphase]; exact nofun)
  exact ⟨h.parts, h.proofs, h.evidence, h.complaints, h.points, h.votes, h.answers, h.hopeless,
    .inr (.inr (.inl rfl)), nofun, fun _ => hdealt, fun _ => hvoted, nofun⟩

variable (hphase : d.dkgPhase = .disputing)
  (hanswered : ∀ k complaint, d.dealerComplaints.get? k = some complaint →
    complaint.dealerIndex ∈ H → verifyDealerComplaintResponse env d complaint)

include h in
theorem honest_not_falseComplainer {c : DealerComplaint}
    (hc : c ∈ (adjudicateDealerComplaints env d).2) : c.complainerIndex ∉ H := by
  intro hmem
  obtain ⟨k, hget, hgood⟩ := falseComplaints_spec hc
  rw [not_verify_of_hopeless (h.hopeless k c hget hmem)] at hgood
  nomatch hgood

include h in
theorem honest_not_excluded (dealer : ℕ) {i : ℕ} (hi : i ∈ H) :
    (falseComplainers (adjudicateDealerComplaints env d).2 dealer).contains i = false := by
  rw [← not_eq_true, contains_iff_mem]
  intro hmem
  obtain ⟨c, hc, hci⟩ := mem_map.mp hmem
  exact honest_not_falseComplainer h (mem_filter.mp hc).1 (hci ▸ hi)

include hmaj h hphase in
theorem dealerIsValid_of_honest (hi : i ∈ H) :
    dealerIsValid env d (falseComplainers (adjudicateDealerComplaints env d).2 i) i := by
  obtain ⟨hpos, hquorum⟩ := Weights.quorum_of_majority env.roster.total hmaj fun j hj =>
    honest_not_excluded h i (of_decide_eq_true hj)
  have hdealt := h.dealt (by rw [hphase]; exact nofun) i hi
  have hcommitments : (d.dealerPart i).commitments ≠ [] := by
    intro hnil
    have hlength := (h.parts i hdealt).commitments
    rw [hnil] at hlength
    nomatch hlength
  -- the dealer's own slots and those of the other honest participants
  have hown : env.slotsOf (fun j => decide (j ∈ H)) =
      (env.participants.map BLSParticipantInfo.slots).getD i 0 +
        env.slotsOf fun j => decide (j ∈ H) && !decide (j = i) :=
    Weights.weigh_erase (decide_eq_true hi)
  have hvotes : env.slotsOf (fun j => decide (j ∈ H) && !decide (j = i)) ≤
      env.slotsOf fun verifier =>
        !(falseComplainers (adjudicateDealerComplaints env d).2 i).contains verifier &&
          !decide (verifier = i) && d.votes verifier i := by
    refine slotsOf_mono ?_
    intro j hj
    simp only [and_eq_true, decide_eq_true_eq] at hj
    rw [honest_not_excluded h i hj.1, hj.2, h.votes j hj.1 (h.voted (.inl hphase) j hj.1) i hi]
    rfl
  unfold dealerIsValid
  simp only [and_eq_true, decide_eq_true_eq]
  exact ⟨⟨⟨hpos, le_trans (hquorum.trans hown.le) (Nat.add_le_add_left hvotes _)⟩,
    hdealt⟩, hcommitments⟩

include hmaj h hphase hanswered in
theorem finalValid_of_honest (hi : i ∈ H) : finalValid env d i := by
  have hfault : (adjudicateDealerComplaints env d).1.contains i = false := by
    rw [← not_eq_true, contains_iff_mem]
    intro hmem
    obtain ⟨k, c, hget, hci, hbad⟩ := dealerFaults_spec hmem
    rw [hanswered k c hget (hci ▸ hi)] at hbad
    nomatch hbad
  have hcomplainer : ((adjudicateDealerComplaints env d).2.map
      DealerComplaint.complainerIndex).contains i = false := by
    rw [← not_eq_true, contains_iff_mem]
    intro hmem
    obtain ⟨c, hc, hci⟩ := mem_map.mp hmem
    exact honest_not_falseComplainer h hc (hci ▸ hi)
  unfold finalValid
  rw [dealerIsValid_of_honest hmaj h hphase hi, hfault, hcomplainer]
  rfl

include h in
theorem verify_of_finalValid (hi : finalValid env d i) {k : ℕ ×ₗ ℕ} {c : DealerComplaint}
    (hget : d.dealerComplaints.get? k = some c) (hci : c.dealerIndex = i) :
    verifyDealerComplaintResponse env d c := by
  obtain ⟨-, hdealer, hcomplainer, -⟩ := h.complaints k c hget
  have hrange : env.inRange c := by
    simp only [Env.inRange, hdealer, hcomplainer, decide_true, Bool.and_self]
  by_contra hbad
  exact (finalValid_spec hi).2 (hci ▸ mem_dealerFaults hget hrange (Bool.eq_false_iff.mpr hbad))

include hH h hphase in
/-- All of the honest voted for a dealer that is valid: a vote against it comes with a complaint
that has no answer. -/
theorem votes_of_finalValid {i j : ℕ} (hi : finalValid env d i) (hlt : i < env.participants.length)
    (hj : j ∈ H) : d.votes j i := by
  by_contra hno
  obtain ⟨c, hget⟩ := h.evidence j i (hH j hj) hlt (h.voted (.inl hphase) j hj)
    (eq_false_iff.mpr hno) (finalValid_spec hi).1
  obtain ⟨hk, -⟩ := h.complaints _ c hget
  obtain ⟨hdealer, hcomplainer⟩ := Prod.mk.inj (toLex_inj.mp hk)
  have hgood := verify_of_finalValid h hi hget hdealer.symm
  rw [not_verify_of_hopeless (h.hopeless _ c hget (hcomplainer ▸ hj))] at hgood
  nomatch hgood

include hmaj hH h hphase in
theorem points_of_finalValid (hi : finalValid env d i) (hlt : i < env.participants.length) :
    ∀ c ∈ (d.dealerPart i).commitments, (env.point c).isSome := by
  by_cases hmem : i ∈ H
  · exact h.points i hmem
  obtain ⟨j, hj⟩ := hmaj.nonempty
  refine h.proofs j i (votes_of_finalValid hH h hphase hi hlt hj) ?_
  rintro rfl
  exact hmem hj

include hmaj hH h hphase in
theorem constantPoint_of_finalValid {i : ℕ} (hi : finalValid env d i)
    (hlt : i < env.participants.length) :
    ∃ c, (d.dealerPart i).commitments.head? = some c ∧
      env.point c = some (env.constantPoint d i) := by
  have hlength := (h.parts i (finalValid_spec hi).1).commitments
  have hpoints := points_of_finalValid hmaj hH h hphase hi hlt
  unfold Env.constantPoint
  cases hcommitments : (d.dealerPart i).commitments with
  | nil =>
    rw [hcommitments] at hlength
    nomatch hlength
  | cons c =>
    rw [hcommitments] at hpoints
    obtain ⟨_, hpoint⟩ := isSome_iff_exists.mp (hpoints c mem_cons_self)
    refine ⟨c, rfl, ?_⟩
    rw [head?_cons, bind_some, hpoint, getD_some]

include hmaj hH h hphase hanswered in
theorem computeGroupPublicKey_eq : computeGroupPublicKey env d (finalValidDealers env d) =
      some (env.crypto.compress ((finalDealers env d).map (env.constantPoint d)).sum) := by
  have hmap : ((finalDealers env d).filterMap fun i =>
      (d.dealerPart i).commitments.head?).mapM env.point =
        some ((finalDealers env d).map (env.constantPoint d)) := by
    refine mapM_filterMap ?_
    intro i hi
    obtain ⟨hlt, hvalid⟩ := getD_finalValidDealers_iff.mp (mem_filter.mp hi).2
    exact constantPoint_of_finalValid hmaj hH h hphase hvalid hlt
  -- an honest dealer is among them
  obtain ⟨j, hj⟩ := hmaj.nonempty
  have hvalid := finalValid_of_honest hmaj h hphase hanswered hj
  obtain ⟨c, hc, -⟩ := constantPoint_of_finalValid hmaj hH h hphase hvalid (hH j hj)
  have hne : (finalDealers env d).filterMap (fun i => (d.dealerPart i).commitments.head?) ≠ [] := by
    refine ne_nil_of_mem (mem_filterMap.mpr ⟨j, mem_filter.mpr ⟨?_, ?_⟩, hc⟩)
    · exact mem_range.mpr (hH j hj)
    · exact getD_finalValidDealers_iff.mpr ⟨hH j hj, hvalid⟩
  unfold computeGroupPublicKey aggregateG2Points
  rw [length_finalValidDealers, ← finalDealers]
  simp only [hne, if_false, hmap, map_some]

include hmaj hH h hphase in
theorem precomputeSlotPublicKeys_isSome :
    ∃ keys, precomputeSlotPublicKeys env d (finalValidDealers env d) = some keys := by
  have hactive : (((List.range (finalValidDealers env d).length).filter fun i =>
      (finalValidDealers env d).getD i false && decide ((d.dealerPart i).commitments ≠ [])).mapM
        fun i => (d.dealerPart i).commitments.mapM env.crypto.uncompress).isSome := by
    refine mapM_isSome_iff.mpr ?_
    intro i hi
    have hflag := (and_eq_true_iff.mp (mem_filter.mp hi).2).1
    obtain ⟨hlt, hvalid⟩ := getD_finalValidDealers_iff.mp hflag
    refine mapM_isSome_iff.mpr ?_
    intro c hc
    obtain ⟨_, hpoint⟩ := isSome_iff_exists.mp
      (points_of_finalValid hmaj hH h hphase hvalid hlt c hc)
    exact isSome_of_eq_some (filter_eq_some_iff.mp hpoint).1
  obtain ⟨_, hactive⟩ := isSome_iff_exists.mp hactive
  unfold precomputeSlotPublicKeys
  simp only [hactive]
  exact ⟨_, rfl⟩

include hmaj h hphase hanswered in
theorem sumDealerSlots_finalValidDealers (hH : ∀ i ∈ H, i < env.participants.length) :
    env.iTotalSlots < 2 * sumDealerSlots env (finalValidDealers env d) := by
  unfold sumDealerSlots
  rw [slotsOf_mod]
  refine hmaj.of_subset ?_
  intro i hi
  exact getD_finalValidDealers_iff.mpr ⟨hH i hi, finalValid_of_honest hmaj h hphase hanswered hi⟩

include hmaj hH h hphase hanswered in
theorem finalizeDisputingPhase_eq : ∃ candidates slotPublicKeys,
    finalizeDisputingPhase env d = { d with
      candidateValidDealers := candidates
      groupPublicKey := env.crypto.compress ((finalDealers env d).map (env.constantPoint d)).sum
      dkgPhase := .completed
      validDealers := finalValidDealers env d
      slotPublicKeys := slotPublicKeys } := by
  obtain ⟨slotPublicKeys, hkeys⟩ := precomputeSlotPublicKeys_isSome hmaj hH h hphase
  have hsum := sumDealerSlots_finalValidDealers hmaj h hphase hanswered hH
  -- neither key looks at the candidates
  have hgroup (candidates : List Bool) : computeGroupPublicKey env
      { d with candidateValidDealers := candidates } (finalValidDealers env d) =
        computeGroupPublicKey env d (finalValidDealers env d) := rfl
  have hkeys (candidates : List Bool) : precomputeSlotPublicKeys env
      { d with candidateValidDealers := candidates } (finalValidDealers env d) =
        some slotPublicKeys := hkeys
  refine ⟨(List.range env.participants.length).map fun dealer =>
    dealerIsValid env d (falseComplainers (adjudicateDealerComplaints env d).2 dealer) dealer,
    slotPublicKeys, ?_⟩
  unfold finalizeDisputingPhase
  simp only [determineValidDealersWithConsensus_eq hmaj hH, applyComplaintFaultMaps_eq, hgroup,
    computeGroupPublicKey_eq hmaj hH h hphase hanswered, hkeys]
  rw [if_neg (by omega)]

include hmaj hH h hphase hanswered in
theorem finalizeDisputingPhase_inOrder : (finalizeDisputingPhase env d).dkgPhase = .completed ∧
      InOrder env H (finalizeDisputingPhase env d) := by
  obtain ⟨_, _, heq⟩ := finalizeDisputingPhase_eq hmaj hH h hphase hanswered
  rw [heq]
  have hdealt := h.dealt (by rw [hphase]; exact nofun)
  refine ⟨rfl, h.parts, h.proofs, h.evidence, h.complaints, h.points, h.votes, h.answers, h.hopeless,
    .inr (.inr (.inr rfl)), nofun, fun _ => hdealt, fun _ => h.voted (.inl hphase), fun _ => ?_⟩
  obtain ⟨j, hj⟩ := hmaj.nonempty
  refine ⟨?_, ?_, ?_, ?_, ?_, ?_, rfl⟩
  · intro i hi
    exact getD_finalValidDealers_iff.mpr ⟨hH i hi, finalValid_of_honest hmaj h hphase hanswered hi⟩
  · intro i hi _
    obtain ⟨hlt, hvalid⟩ := getD_finalValidDealers_iff.mp hi
    exact ⟨j, hj, votes_of_finalValid hH h hphase hvalid hlt hj⟩
  · intro i hi
    obtain ⟨-, hvalid⟩ := getD_finalValidDealers_iff.mp hi
    have hsubmitted := (finalValid_spec hvalid).1
    exact ⟨hsubmitted, (h.parts i hsubmitted).commitments⟩
  · intro i hi k complaint hget hdealer
    obtain ⟨-, hvalid⟩ := getD_finalValidDealers_iff.mp hi
    exact verify_of_finalValid h hvalid hget hdealer
  · have hsum := sumDealerSlots_finalValidDealers hmaj h hphase hanswered hH
    unfold sumDealerSlots at hsum
    rw [slotsOf_mod] at hsum
    exact hsum
  · intro i hi
    obtain ⟨hlt, hvalid⟩ := getD_finalValidDealers_iff.mp hi
    exact constantPoint_of_finalValid hmaj hH h hphase hvalid hlt

variable (env) in
def Chain.remaining (c : Chain) : ℕ :=
  match c.data.dkgPhase with
  | .dealing => c.data.dealingPhaseDeadlineBlock - c.height + 1 +
      (env.verificationPhaseDurationBlocks + 1) + (env.disputePhaseDurationBlocks + 1)
  | .verifying => c.data.verifyingPhaseDeadlineBlock - c.height + 1 +
      (env.disputePhaseDurationBlocks + 1)
  | .disputing => c.data.disputingPhaseDeadlineBlock - c.height + 1
  | _ => 0

def blocks (events : List Event) : ℕ :=
  (events.filter fun e => match e with | .endBlock _ => true | _ => false).length

variable (env H) in
/-- What `H` has sent in time is there. -/
def Received (d : EpochBLSData) : Event → Prop
  | .dealerPart msg => ∀ h ∈ H, env.participantIndex msg.creator = some h →
      (d.dealerPart h).dealerAddress ≠ []
  | .verification msg => ∀ h ∈ H, env.participantIndex msg.creator = some h → d.submission h ≠ []
  | .respond msg => ∀ h ∈ H, msg.IsFrom env h → ∀ response ∈ msg.responses, ∃ c,
      d.dealerComplaints.get? (toLex (h, response.complainerIndex)) = some c ∧ c.responseSubmitted
  | .endBlock _ => True

omit [AddCommMonoid G] in
theorem Received.mono {e : Event} (h : Received env H d e) (hgrows : Grows d d') :
    Received env H d' e := by
  cases e with
  | dealerPart => exact fun j hj hi => hgrows.parts j (h j hj hi)
  | verification => exact fun j hj hi => hgrows.submissions j (h j hj hi)
  | respond =>
    intro j hj hfrom response hresponse
    obtain ⟨c, hget, hdone⟩ := h j hj hfrom response hresponse
    exact ⟨c, hgrows.answers _ c hget hdone, hdone⟩
  | endBlock => trivial

structure Session.Kept (env : Env G) (H : Finset ℕ) (s : Session) : Prop where
  inOrder : InOrder env H s.chain.data
  received : ∀ e ∈ s.sent, Received env H s.chain.data e

/-- **What `H` sends in time is received.** -/
theorem received_of_follows {c : Chain} {sent : List Event} {e : Event} (h : InOrder env H c.data)
    (hfollows : Follows env H ⟨c, sent⟩ e) (htime : c.inTime e) :
    Received env H (step env e c).data e := by
  have hgrows : Grows c.data (step env e c).data := step_grows e c
  cases e with
  | dealerPart msg =>
    intro j hj hi
    by_cases hnew : (c.data.dealerPart j).dealerAddress = []
    · simp only [step, submitDealerPart_ok htime hi hnew (hfollows htime j hj hi), commit]
      rw [dealerPart_insert, if_pos rfl]
      exact creator_ne_nil hi
    · exact hgrows.parts j hnew
  | verification msg =>
    intro j hj hi
    by_cases hnew : c.data.submission j = []
    · have hfree : ∀ dealer, c.data.dealerComplaints.get? (toLex (dealer, j)) = none := by
        intro dealer
        by_contra hsome
        obtain ⟨complaint, hget⟩ := ne_none_iff_exists'.mp hsome
        obtain ⟨hk, -, -, hsubmitted⟩ := h.complaints _ complaint hget
        rw [← (Prod.mk.inj (toLex_inj.mp hk)).2] at hsubmitted
        exact hsubmitted hnew
      obtain ⟨d', hd'⟩ := submitVerificationVector_ok htime hi hnew h.parts hfree
        (hfollows htime j hj hi)
      simp only [step, hd', commit]
      obtain ⟨-, i, m', hi', hlength, -, -, rfl⟩ := submitVerificationVector_spec hd'
      cases hi.symm.trans hi'
      rw [submission_insert, if_pos rfl]
      exact vector_ne_nil hi hlength
    · exact hgrows.submissions j hnew
  | respond msg =>
    intro j hj hfrom
    obtain rfl := hfrom.1
    have hhonest := hfollows htime _ hj hfrom
    obtain ⟨d', hd', hdone⟩ := respondDealerComplaints_ok htime hfrom (fun response hresponse => by
      obtain ⟨complaint, hget, -⟩ := hhonest.valid response hresponse
      obtain ⟨hk, -, hcomplainer, -⟩ := h.complaints _ complaint hget
      rwa [(Prod.mk.inj (toLex_inj.mp hk)).2]) hhonest
    simp only [step, hd', commit]
    exact hdone
  | endBlock => trivial

include hmaj hH in
theorem processDKGPhaseTransition_inOrder {s : Session} {skipped : ℕ} (h : s.Kept env H)
    (hfollows : Follows env H s (.endBlock skipped)) :
    InOrder env H (step env (.endBlock skipped) s.chain).data ∧
      (step env (.endBlock skipped) s.chain).remaining env ≤ s.chain.remaining env - 1 := by
  obtain ⟨c, sent⟩ := s
  have hreceived : ∀ e ∈ sent, Received env H c.data e := h.received
  replace h : InOrder env H c.data := h.inOrder
  change InOrder env H (processDKGPhaseTransition env c.height c.data) ∧
    Chain.remaining env ⟨processDKGPhaseTransition env c.height c.data, c.height + 1 + skipped⟩ ≤ _
  unfold processDKGPhaseTransition
  simp only [Follows] at hfollows
  rcases h.phase with hphase | hphase | hphase | hphase
  · simp only [hphase] at hfollows ⊢
    split
    · next hdeadline =>
      have hdealt : ∀ i ∈ H, (c.data.dealerPart i).dealerAddress ≠ [] := by
        intro i hi
        obtain ⟨msg, hmsg, hfrom⟩ := hfollows hdeadline i hi
        exact hreceived _ hmsg i hi hfrom
      obtain ⟨heq, hnext⟩ := transitionToVerifyingPhase_inOrder hmaj h c.height hdealt
      refine ⟨hnext, ?_⟩
      rw [heq]
      simp only [Chain.remaining, hphase]
      omega
    · refine ⟨h, ?_⟩
      simp only [Chain.remaining, hphase]
      omega
  · simp only [hphase] at hfollows ⊢
    split
    · next hdeadline =>
      have hvoted : ∀ i ∈ H, c.data.submission i ≠ [] := by
        intro i hi
        obtain ⟨msg, hmsg, hfrom⟩ := hfollows hdeadline i hi
        exact hreceived _ hmsg i hi hfrom
      obtain ⟨⟨_, heq⟩, hnext⟩ := transitionFromVerifyingToDisputing_inOrder
        hmaj hH h c.height hphase hvoted
      refine ⟨hnext, ?_⟩
      rw [heq]
      simp only [Chain.remaining, hphase]
      omega
    · refine ⟨h, ?_⟩
      simp only [Chain.remaining, hphase]
      omega
  · simp only [hphase] at hfollows ⊢
    split
    · next hdeadline =>
      have hanswered : ∀ k complaint, c.data.dealerComplaints.get? k = some complaint →
          complaint.dealerIndex ∈ H → verifyDealerComplaintResponse env c.data complaint := by
        intro k complaint hget hmem
        obtain ⟨msg, hmsg, hfrom, response, hresponse, hcomplainer⟩ :=
          hfollows hdeadline k complaint hget hmem
        obtain ⟨complaint', hget', hdone⟩ := hreceived _ hmsg _ hmem hfrom response hresponse
        rw [hcomplainer, ← (h.complaints k complaint hget).1, hget] at hget'
        cases hget'
        exact h.answers k complaint hget hmem hdone
      obtain ⟨hcompleted, hnext⟩ := finalizeDisputingPhase_inOrder hmaj hH h hphase hanswered
      refine ⟨hnext, ?_⟩
      simp only [Chain.remaining, hcompleted]
      omega
    · refine ⟨h, ?_⟩
      simp only [Chain.remaining, hphase]
      omega
  · simp only [hphase]
    refine ⟨h, ?_⟩
    simp only [Chain.remaining, hphase]
    omega

/-- A message keeps the order if it does when it is accepted, and then changes neither the phase
nor the deadlines. -/
theorem commit_inOrder {c : Chain} {result : Except DkgError EpochBLSData}
    (h : InOrder env H c.data) (hok : ∀ d', result = .ok d' →
      InOrder env H d' ∧ Chain.remaining env ⟨d', c.height⟩ = c.remaining env) :
    InOrder env H (commit c.data result) ∧
      Chain.remaining env ⟨commit c.data result, c.height⟩ ≤ c.remaining env := by
  cases result with
  | error => exact ⟨h, le_rfl⟩
  | ok d' => exact ⟨(hok d' rfl).1, (hok d' rfl).2.le⟩

include hmaj hH in
theorem step_inOrder {s : Session} {e : Event} (h : s.Kept env H) (hfollows : Follows env H s e) :
    InOrder env H (step env e s.chain).data ∧
      (step env e s.chain).remaining env ≤ s.chain.remaining env - blocks [e] := by
  cases e with
  | dealerPart =>
    refine commit_inOrder h.inOrder fun d' hok =>
      ⟨submitDealerPart_inOrder h.inOrder hfollows hok, ?_⟩
    obtain ⟨-, _, -, -, rfl⟩ := submitDealerPart_spec hok
    rfl
  | verification =>
    refine commit_inOrder h.inOrder fun d' hok =>
      ⟨submitVerificationVector_inOrder h.inOrder hfollows hok, ?_⟩
    obtain ⟨-, _, _, -, -, -, -, rfl⟩ := submitVerificationVector_spec hok
    rfl
  | respond =>
    refine commit_inOrder h.inOrder fun d' hok =>
      ⟨respondDealerComplaints_inOrder h.inOrder hfollows hok, ?_⟩
    obtain ⟨-, -, _, rfl, -⟩ := respondDealerComplaints_spec hok
    rfl
  | endBlock => exact processDKGPhaseTransition_inOrder hmaj hH h hfollows

include hmaj hH in
theorem step_kept {s : Session} {e : Event} (h : s.Kept env H) (hfollows : Follows env H s e) :
    (s.step env e).Kept env H := by
  refine ⟨(step_inOrder hmaj hH h hfollows).1, fun e' he' => ?_⟩
  have hold : ∀ e' ∈ s.sent, Received env H (step env e s.chain).data e' := fun e' he' =>
    (h.received e' he').mono (step_grows e s.chain)
  simp only [Session.step] at he'
  split at he'
  · next htime =>
    rcases mem_cons.mp he' with rfl | he'
    · exact received_of_follows h.inOrder hfollows htime
    · exact hold e' he'
  · exact hold e' he'

theorem blocks_cons (e : Event) (events : List Event) :
    blocks (e :: events) = blocks [e] + blocks events := by
  unfold blocks
  rw [← length_append, ← filter_append, singleton_append]

include hmaj hH in
theorem run_inOrder {events : List Event} {s : Session} (h : s.Kept env H)
    (hfollows : Along.EachStep (Session.step env) (Follows env H) events s) :
    InOrder env H (Along.run (step env) events s.chain).data ∧
      (Along.run (step env) events s.chain).remaining env ≤ s.chain.remaining env - blocks events := by
  induction events generalizing s with
  | nil => exact ⟨h.inOrder, le_rfl⟩
  | cons _ _ ih =>
    obtain ⟨-, _⟩ := step_inOrder hmaj hH h hfollows.1
    obtain ⟨hall, hrest⟩ := ih (step_kept hmaj hH h hfollows.1) hfollows.2
    refine ⟨hall, hrest.trans ?_⟩
    rw [blocks_cons]
    simp only [Session.step]
    omega

theorem initiateKeyGenerationForEpoch_inOrder (height : ℕ) :
    InOrder env H (initiateKeyGenerationForEpoch env height) := by
  refine ⟨fun i hi => absurd rfl hi, fun v i hvote => (nomatch hvote), ?_, nofun, nofun, ?_, nofun,
    nofun, .inl rfl, fun _ => ⟨rfl, rfl⟩, fun hne => absurd rfl hne,
    by simp [initiateKeyGenerationForEpoch], nofun⟩
  · intro v i _ _ hsubmitted
    exact absurd rfl hsubmitted
  · intro i _ hsubmitted
    exact absurd rfl hsubmitted

end

/-- **An honest majority of slots gets its key.**  Whatever the others send, the generation does
not fail; it is over after as many blocks as its phases last, and one more for each; and when it is,
all honest dealers are valid, every other valid dealer was checked by an honest participant, has
dealt, and has answered its complaints, the valid dealers have more than half of the slots, and the
key is the sum of their constant commitments. -/
theorem honest_majority_completes (env : Env G) (H : Finset ℕ)
    (hH : ∀ i ∈ H, i < env.participants.length) (hmaj : HasMajority env H) (height : ℕ)
    (events : List Event)
    (hfollows : Along.EachStep (Session.step env) (Follows env H) events
      ⟨⟨initiateKeyGenerationForEpoch env height, height⟩, []⟩) :
    let d := (Along.run (step env) events ⟨initiateKeyGenerationForEpoch env height, height⟩).data
    d.dkgPhase ≠ .failed ∧ (d.dkgPhase = .completed → Outcome env H d) ∧
      (env.dealingPhaseDurationBlocks + env.verificationPhaseDurationBlocks +
        env.disputePhaseDurationBlocks + 3 ≤ blocks events → d.dkgPhase = .completed) := by
  obtain ⟨h, hremaining⟩ := run_inOrder hmaj hH
    (s := ⟨⟨initiateKeyGenerationForEpoch env height, height⟩, []⟩)
    ⟨initiateKeyGenerationForEpoch_inOrder height, nofun⟩ hfollows
  dsimp only at h hremaining
  refine ⟨?_, h.outcome, ?_⟩
  · intro hfailed
    rcases h.phase with hphase | hphase | hphase | hphase <;> exact nomatch hphase.symm.trans hfailed
  intro henough
  have hstart : Chain.remaining env ⟨initiateKeyGenerationForEpoch env height, height⟩ =
      height + env.dealingPhaseDurationBlocks - height + 1 +
        (env.verificationPhaseDurationBlocks + 1) + (env.disputePhaseDurationBlocks + 1) := rfl
  -- nothing is left to wait for
  have hzero : Chain.remaining env (Along.run (step env) events
      ⟨initiateKeyGenerationForEpoch env height, height⟩) = 0 := by omega
  rcases h.phase with hphase | hphase | hphase | hphase
  on_goal 4 => exact hphase
  all_goals
    simp only [Chain.remaining, hphase] at hzero
    omega

variable (env) in
/-- **What a completed generation rests on**, whoever took part. -/
structure Justified (d : EpochBLSData) : Prop where
  majority : env.iTotalSlots / 2 < env.slotsOf d.valid
  approved : ∀ i, d.valid i →
    dealerIsValid env d (falseComplainers (adjudicateDealerComplaints env d).2 i) i
  answered : ∀ k c, d.dealerComplaints.get? k = some c → env.inRange c →
    if verifyDealerComplaintResponse env d c then d.valid c.complainerIndex = false
    else d.valid c.dealerIndex = false
  keys : computeGroupPublicKey env d d.validDealers = some d.groupPublicKey ∧
    precomputeSlotPublicKeys env d d.validDealers = some d.slotPublicKeys

theorem finalizeDisputingPhase_justified (h : finalizeDisputingPhase env d = d')
    (hdone : d'.dkgPhase = .completed) : Justified env d' := by
  unfold finalizeDisputingPhase determineValidDealersWithConsensus at h
  by_cases hnone : env.participants = []
  · simp only [hnone, if_true] at h
    nomatch h ▸ hdone
  simp only [if_neg hnone, applyComplaintFaultMaps_eq] at h
  split at h
  · nomatch h ▸ hdone
  next hsum =>
  split at h
  · nomatch h ▸ hdone
  next hgroup =>
  split at h
  · nomatch h ▸ hdone
  next hslots =>
  subst h
  have hvalid : ∀ i, (finalValidDealers env d).getD i false = true → finalValid env d i :=
    fun i hi => (getD_finalValidDealers_iff.mp hi).2
  simp only [finalValid, and_eq_true, not_eq_true', ← not_eq_true, contains_iff_mem] at hvalid
  rw [sumDealerSlots, slotsOf_mod] at hsum
  refine ⟨not_le.mp hsum, fun i hi => (hvalid i hi).1.1, fun k c hget hrange => ?_, hgroup, hslots⟩
  split
  · next hgood =>
    refine eq_false_of_ne_true fun hi => (hvalid _ hi).2 (mem_map.mpr ⟨c, ?_, rfl⟩)
    exact mem_filter.mpr ⟨mem_filter.mpr ⟨mem_complaints.mpr ⟨k, hget⟩, hrange⟩, hgood⟩
  · next hbad =>
    exact eq_false_of_ne_true fun hi =>
      (hvalid _ hi).1.2 (mem_dealerFaults hget hrange (eq_false_of_ne_true hbad))

/-- **One event** leaves a completed generation alone, and completes only a justified one. -/
theorem step_cases (env : Env G) (e : Event) (c : Chain) : (step env e c).data = c.data ∨
    c.data.dkgPhase ≠ .completed ∧
      ((step env e c).data.dkgPhase = .completed → Justified env (step env e c).data) := by
  -- a message that is taken leaves the phase
  have hmessage {result : Except DkgError EpochBLSData} (h : ∀ d, result = .ok d →
      c.data.dkgPhase ≠ .completed ∧ d.dkgPhase = c.data.dkgPhase) :
      commit c.data result = c.data ∨ c.data.dkgPhase ≠ .completed ∧
        ((commit c.data result).dkgPhase = .completed → Justified env (commit c.data result)) := by
    cases result with
    | error => exact .inl rfl
    | ok d =>
      obtain ⟨hopen, hsame⟩ := h d rfl
      exact .inr ⟨hopen, fun hdone => absurd (hsame.symm.trans hdone) hopen⟩
  cases e with
  | dealerPart =>
    refine hmessage fun d h => ?_
    obtain ⟨htime, _, -, -, rfl⟩ := submitDealerPart_spec h
    exact ⟨(of_decide_eq_true htime).1 ▸ nofun, rfl⟩
  | verification =>
    refine hmessage fun d h => ?_
    obtain ⟨htime, _, _, -, -, -, -, rfl⟩ := submitVerificationVector_spec h
    exact ⟨(of_decide_eq_true htime).1 ▸ nofun, rfl⟩
  | respond =>
    refine hmessage fun d h => ?_
    obtain ⟨htime, -, _, rfl, -⟩ := respondDealerComplaints_spec h
    exact ⟨(of_decide_eq_true htime).1 ▸ nofun, rfl⟩
  | endBlock =>
    have hfinal := finalizeDisputingPhase_justified (rfl : finalizeDisputingPhase env c.data = _)
    simp only [step, processDKGPhaseTransition, transitionToVerifyingPhase,
      transitionFromVerifyingToDisputing, markDKGAsFailed]
    grind

/-- **A completed key is justified and final**, with any participants: the valid dealers have a
majority, were voted for, have answered all complaints and made no false one, the keys are computed
from theirs, and no later event changes anything. -/
theorem completed_is_final (env : Env G) (height : ℕ) (events : List Event) :
    let c := Along.run (step env) events ⟨initiateKeyGenerationForEpoch env height, height⟩
    c.data.dkgPhase = .completed →
      Justified env c.data ∧ ∀ later, (Along.run (step env) later c).data = c.data := by
  intro c hdone
  constructor
  · refine Along.run_invariant (P := fun c : Chain => c.data.dkgPhase = .completed →
      Justified env c.data) (fun c e h hdone => ?_) (by exact nofun) events hdone
    rcases step_cases env e c with hsame | ⟨-, hjustified⟩
    · rw [hsame] at hdone ⊢
      exact h hdone
    · exact hjustified hdone
  · intro later
    refine Along.run_invariant (P := fun c' : Chain => c'.data = c.data) (fun c' e h => ?_) rfl later
    rcases step_cases env e c' with hsame | ⟨hopen, -⟩
    · exact hsame.trans h
    · exact absurd (h ▸ hdone) hopen

end

def sampleCrypto : Crypto ℕ where
  uncompress bytes := some bytes.length
  inG2 _ := true
  compress point := List.replicate point 1
  order := 7
  encryptWithSeedForParticipant share _ _ := some share
  verifyShareAgainstCommitments _ _ _ := true
  buildDealerValidityProofHash _ _ := []
  verifyBLSPartialSignature _ _ _ := true

def sampleRoster : Roster :=
  Roster.assign [(⟨[1], [], []⟩, 1), (⟨[2], [], []⟩, 1), (⟨[3], [], []⟩, 1)] (by decide) (by decide)

def sampleEnv : Env ℕ := ⟨sampleRoster, 1, 1, 0, 1, 2, sampleCrypto⟩

def sampleShare : Bytes := List.replicate 32 1

def sampleChain : Chain := ⟨initiateKeyGenerationForEpoch sampleEnv 5, 5⟩

def sampleEvents : List Event :=
  [.dealerPart ⟨[1], [[1], [1, 1]], [[sampleShare], [sampleShare], [sampleShare]]⟩,
   .dealerPart ⟨[2], [[1, 1], [1]], [[sampleShare], [sampleShare], [sampleShare]]⟩,
   .endBlock 0,
   .verification ⟨[1], [true, true, false], [⟨1, [1]⟩], []⟩,
   .verification ⟨[2], [true, true, false], [⟨0, [1]⟩], []⟩,
   .verification ⟨[3], [false, true, false], [⟨1, [1]⟩], [⟨0, 2, 0⟩]⟩,
   .endBlock 0,
   .respond ⟨[1], 0, [⟨2, sampleShare, sampleShare⟩]⟩,
   .endBlock 0, .endBlock 0, .endBlock 0, .endBlock 0]

theorem sampleEvents_follow :
    Along.EachStep (Session.step sampleEnv) (Follows sampleEnv {0, 1}) sampleEvents
      ⟨sampleChain, []⟩ := by
  have hcases {P : ℕ → Prop} (h0 : P 0) (h1 : P 1) : ∀ i ∈ ({0, 1} : Finset ℕ), P i := by
    intro i hi
    rcases Finset.mem_insert.mp hi with rfl | hi
    · exact h0
    · rw [Finset.mem_singleton.mp hi]
      exact h1
  have hpart (creator : Address) (commitments : List Bytes) (h : commitments.length = 2) :
      MsgSubmitDealerPart.Honest sampleEnv
        ⟨creator, commitments, [[sampleShare], [sampleShare], [sampleShare]]⟩ :=
    ⟨h, fun _ _ => rfl, .cons rfl (.cons rfl (.cons rfl .nil))⟩
  -- the only complaint is that of the third against the first
  have hall : ∀ e ∈ (Along.run (step sampleEnv) (sampleEvents.take 9) sampleChain).data
      |>.dealerComplaints.entries, e.2.dealerIndex = 0 ∧ e.2.complainerIndex = 2 := by
    decide
  refine ⟨fun _ _ _ _ => hpart _ _ rfl, fun _ _ _ _ => hpart _ _ rfl, fun _ => hcases ?_ ?_,
    fun _ h _ hi => ?_, fun _ h _ hi => ?_, fun _ h hh hi => ?_, fun _ => hcases ?_ ?_,
    fun _ h _ hfrom => ?_, fun hdeadline => absurd hdeadline (by decide),
    fun _ k complaint hget _ => ?_, trivial, trivial, trivial⟩
  · exact ⟨_, .tail _ (.head _), by decide⟩
  · exact ⟨_, .head _, by decide⟩
  · cases (show some 0 = some h from hi)
    exact ⟨rfl, by decide, by decide, by decide, by decide, by decide, nofun⟩
  · cases (show some 1 = some h from hi)
    exact ⟨rfl, by decide, by decide, by decide, by decide, by decide, nofun⟩
  · cases (show some 2 = some h from hi)
    exact absurd hh (by decide)
  · exact ⟨_, .tail _ (.tail _ (.head _)), by decide⟩
  · exact ⟨_, .tail _ (.head _), by decide⟩
  · refine ⟨nofun, by decide, fun response hresponse => ?_⟩
    obtain rfl := mem_singleton.mp hresponse
    exact ⟨_, rfl, rfl, by decide⟩
  · obtain ⟨hdealer, hcomplainer⟩ := hall _ (get?_eq_some_iff.mp hget)
    rw [hdealer]
    exact ⟨_, .head _, ⟨rfl, rfl⟩, _, .head _, hcomplainer.symm⟩

theorem honest_majority_completes_sample :
    HasMajority sampleEnv {0, 1} ∧
      (Along.run (step sampleEnv) sampleEvents sampleChain).data.dkgPhase = .completed ∧
      Outcome sampleEnv {0, 1} (Along.run (step sampleEnv) sampleEvents sampleChain).data := by
  have hmaj : HasMajority sampleEnv {0, 1} := by
    unfold HasMajority
    decide
  obtain ⟨-, houtcome, hdone⟩ := honest_majority_completes sampleEnv {0, 1} (by decide) hmaj 5
    sampleEvents sampleEvents_follow
  exact ⟨hmaj, hdone (by decide), houtcome (hdone (by decide))⟩

theorem completed_is_final_sample :
    Justified sampleEnv (Along.run (step sampleEnv) sampleEvents sampleChain).data :=
  (completed_is_final sampleEnv 5 sampleEvents (by decide)).1

end Dkg
