/-
The messages of a key generation.

What each handler does when it takes a message, and which messages it does take: those that a
participant sends who follows the protocol, in the phase they are for and before its deadline.

Main results: `submitDealerPart_ok`, `submitVerificationVector_ok`, `respondDealerComplaints_ok`,
`step_grows`.
-/
import Gonka.Bls.KeyGeneration
import Gonka.Lib.Checked
import Mathlib.Data.Finset.Basic

namespace Dkg

open OrdMap List EpochBLSData

open ThresholdSigning (Address DKGPhase)

section

variable {G : Type} (env : Env G)

/-- A message in the phase it is for, before the deadline. -/
def Chain.inTime (c : Chain) : Event → Bool
  | .dealerPart _ => c.data.dkgPhase = .dealing ∧ c.height ≤ c.data.dealingPhaseDeadlineBlock
  | .verification _ => c.data.dkgPhase = .verifying ∧ c.height ≤ c.data.verifyingPhaseDeadlineBlock
  | .respond _ => c.data.dkgPhase = .disputing ∧ c.height < c.data.disputingPhaseDeadlineBlock
  | .endBlock _ => false

def MsgSubmitDealerPart.part (msg : MsgSubmitDealerPart) : DealerPartStorage :=
  ⟨msg.creator, msg.commitments, msg.encryptedSharesForParticipants⟩

/-- Commitments that are points, and ciphertexts for every slot and key of everybody. -/
structure MsgSubmitDealerPart.Honest (msg : MsgSubmitDealerPart) : Prop where
  commitments : msg.commitments.length = env.tSlotsDegree + 1
  points : ∀ c ∈ msg.commitments, (env.point c).isSome
  shares : Forall₂ (fun p encryptedShares => encryptedShares.length = expectedEncryptedSharesCount p)
    env.participants msg.encryptedSharesForParticipants

def MsgSubmitVerificationVector.marks (msg : MsgSubmitVerificationVector) (dealer : ℕ) : Bool :=
  msg.dealerValidity.getD dealer false

/-- The complaint of participant `i`, as it is stored. -/
def VerificationDealerComplaint.stored (complaint : VerificationDealerComplaint) (i : ℕ) :
    DealerComplaint where
  dealerIndex := complaint.dealerIndex
  complainerIndex := i
  disputedSlotIndex := complaint.disputedSlotIndex
  disputedCiphertextIndex := complaint.disputedCiphertextIndex

/-- The ciphertext is one of a slot of the participant. -/
def VerificationDealerComplaint.Owned (complaint : VerificationDealerComplaint)
    (p : BLSParticipantInfo) : Prop :=
  let keysPerSlot := 1 + p.allowedSecp256k1PublicKeys.length
  let slotStart := (complaint.disputedSlotIndex - p.slotStartIndex) * keysPerSlot
  p.slotStartIndex ≤ complaint.disputedSlotIndex ∧ complaint.disputedSlotIndex ≤ p.slotEndIndex ∧
    slotStart ≤ complaint.disputedCiphertextIndex ∧
    complaint.disputedCiphertextIndex < slotStart + keysPerSlot

def DealerComplaint.answered (complaint : DealerComplaint) (response : DealerComplaintResponse) :
    DealerComplaint :=
  { complaint with
    responseSubmitted := true
    responseShareBytes := response.responseShareBytes
    responseOpeningMaterial := response.responseOpeningMaterial }

variable [AddCommMonoid G]

/-- No answer to the complaint is valid. -/
def Hopeless (d : EpochBLSData) (complaint : DealerComplaint) : Prop :=
  ∀ response, verifyDealerComplaintResponse env d (complaint.answered response) = false

/-- The vector of participant `i`: it marks all of `H`, with a proof for each of the others that it
marks, and complains about the other dealers, where it must and only where there is no valid
answer. -/
structure MsgSubmitVerificationVector.Honest (H : Finset ℕ) (d : EpochBLSData) (i : ℕ)
    (msg : MsgSubmitVerificationVector) : Prop where
  length : msg.dealerValidity.length = env.participants.length
  marks : ∀ dealer ∈ H, msg.marks dealer
  proofs : (msg.dealerValidityProofs.map DealerValidityProof.dealerIndex).Nodup ∧
    ∀ proof ∈ msg.dealerValidityProofs, proof.proofSignature ≠ [] ∧ msg.marks proof.dealerIndex
  proved : ∀ dealer < env.participants.length, msg.marks dealer → dealer ≠ i →
    ∃ proof ∈ msg.dealerValidityProofs, proof.dealerIndex = dealer ∧
      verifyDealerValidityProof env d dealer (participantSlotIndices env i) proof.proofSignature
  distinct : (msg.dealerComplaints.map VerificationDealerComplaint.dealerIndex).Nodup
  complains : ∀ dealer < env.participants.length, (d.dealerPart dealer).dealerAddress ≠ [] →
    msg.marks dealer = false → ∃ complaint ∈ msg.dealerComplaints, complaint.dealerIndex = dealer
  complaints : ∀ complaint ∈ msg.dealerComplaints, complaint.dealerIndex ≠ i ∧
    (d.dealerPart complaint.dealerIndex).dealerAddress ≠ [] ∧
    (∃ p, env.participants[i]? = some p ∧ complaint.Owned p) ∧ Hopeless env d (complaint.stored i)

/-- The message comes from the dealer it speaks for. -/
def MsgRespondDealerComplaints.IsFrom (msg : MsgRespondDealerComplaints) (i : ℕ) : Prop :=
  msg.dealerIndex = i ∧ (env.participants[i]?).map BLSParticipantInfo.address = some msg.creator

/-- Valid answers to complaints that have none. -/
structure MsgRespondDealerComplaints.Honest (d : EpochBLSData) (msg : MsgRespondDealerComplaints) :
    Prop where
  nonempty : msg.responses ≠ []
  distinct : (msg.responses.map DealerComplaintResponse.complainerIndex).Nodup
  valid : ∀ response ∈ msg.responses, ∃ complaint,
    d.dealerComplaints.get? (toLex (msg.dealerIndex, response.complainerIndex)) = some complaint ∧
      complaint.responseSubmitted = false ∧
      verifyDealerComplaintResponse env d (complaint.answered response)

omit [AddCommMonoid G] in
/-- The dealer part has the right number of commitments, and ciphertexts of the right shape for
everybody. -/
structure PartOk (part : DealerPartStorage) : Prop where
  commitments : part.commitments.length = env.tSlotsDegree + 1
  shares : ∀ v < env.participants.length, ∃ encryptedShares p,
    part.participantShares[v]? = some encryptedShares ∧ env.participants[v]? = some p ∧
      encryptedShares ≠ [] ∧ validateEncryptedSharesShape p encryptedShares

end

section

variable {G : Type} {env : Env G} {height : ℕ} {d d' : EpochBLSData}

theorem mapM_isSome_iff {α β : Type} {f : α → Option β} {l : List α} :
    (l.mapM f).isSome ↔ ∀ a ∈ l, (f a).isSome := by
  induction l with
  | nil => simp
  | cons a l ih =>
    rw [mapM_cons, forall_mem_cons, ← ih]
    cases f a with
    | none => simp
    | some => cases l.mapM f <;> simp

theorem slots_pos (p : BLSParticipantInfo) : 0 < p.slots := Nat.succ_pos _

theorem participantIndex_spec {creator : Address} {i : ℕ}
    (h : env.participantIndex creator = some i) :
    ∃ p, env.participants[i]? = some p ∧ p.address = creator := by
  obtain ⟨hlt, hp, -⟩ := findIdx?_eq_some_iff_getElem.mp h
  exact ⟨env.participants[i], getElem?_eq_getElem hlt, by simpa using hp⟩

theorem participantIndex_lt {creator : Address} {i : ℕ}
    (h : env.participantIndex creator = some i) : i < env.participants.length := by
  obtain ⟨p, hp, -⟩ := participantIndex_spec h
  exact (List.getElem?_eq_some_iff.mp hp).1

theorem creator_ne_nil {creator : Address} {i : ℕ} (h : env.participantIndex creator = some i) :
    creator ≠ [] := by
  obtain ⟨p, hp, rfl⟩ := participantIndex_spec h
  exact env.roster.named p (mem_of_getElem? hp)

theorem vector_ne_nil {creator : Address} {i : ℕ} {validity : List Bool}
    (hi : env.participantIndex creator = some i) (hlength : validity.length = env.participants.length) :
    validity ≠ [] := by
  rintro rfl
  have hlt := participantIndex_lt hi
  rw [← hlength] at hlt
  nomatch hlt

theorem submitDealerPart_spec {msg : MsgSubmitDealerPart}
    (h : submitDealerPart env height msg d = .ok d') :
    Chain.inTime ⟨d, height⟩ (.dealerPart msg) ∧ ∃ i, env.participantIndex msg.creator = some i ∧
      PartOk env msg.part ∧ d' = { d with dealerParts := d.dealerParts.insert i msg.part } := by
  unfold submitDealerPart at h
  split at h
  · nomatch h
  next hphase =>
  split at h
  · nomatch h
  next htime =>
  refine ⟨decide_eq_true ⟨not_not.mp hphase, not_lt.mp htime⟩, ?_⟩
  split at h
  · nomatch h
  next i hi =>
  split at h
  · nomatch h
  split at h
  · nomatch h
  next hlength =>
  split at h
  · nomatch h
  next hcommitments =>
  split at h
  · nomatch h
  next hshape =>
  refine ⟨i, hi, ⟨not_not.mp hcommitments, ?_⟩, (Except.ok.inj h).symm⟩
  intro v hv
  have hv' : v < msg.encryptedSharesForParticipants.length := by
    rw [not_not.mp hlength]
    exact hv
  have hmem : (env.participants[v], msg.encryptedSharesForParticipants[v]) ∈
      env.participants.zip msg.encryptedSharesForParticipants := by
    rw [← getElem_zip (h := by simp; omega)]
    exact getElem_mem _
  have hok := all_eq_true.mp (not_not.mp hshape) _ hmem
  refine ⟨_, _, getElem?_eq_getElem hv', getElem?_eq_getElem hv, ?_, hok⟩
  -- there is at least one ciphertext for each slot
  intro hempty
  simp only [validateEncryptedSharesShape, hempty, length_nil,
    expectedEncryptedSharesCount, decide_eq_true_eq] at hok
  have hpos := Nat.mul_pos (slots_pos env.participants[v]) (Nat.add_pos_left Nat.one_pos
      env.participants[v].allowedSecp256k1PublicKeys.length)
  exact absurd hok hpos.ne

/-- **A dealer part is taken** from who has sent none. -/
theorem submitDealerPart_ok {msg : MsgSubmitDealerPart} {i : ℕ}
    (htime : Chain.inTime ⟨d, height⟩ (.dealerPart msg))
    (hi : env.participantIndex msg.creator = some i) (hnew : (d.dealerPart i).dealerAddress = [])
    (h : msg.Honest env) : submitDealerPart env height msg d =
      .ok { d with dealerParts := d.dealerParts.insert i msg.part } := by
  obtain ⟨hphase, hdeadline⟩ := of_decide_eq_true htime
  obtain ⟨hlength, hshares⟩ := forall₂_iff_zip.mp h.shares
  have hall : (env.participants.zip msg.encryptedSharesForParticipants).all
      (fun e => validateEncryptedSharesShape e.1 e.2) = true :=
    all_eq_true.mpr fun _ he => decide_eq_true (hshares he)
  unfold submitDealerPart
  rw [if_neg (not_not.mpr hphase), if_neg (not_lt.mpr hdeadline), hi]
  simp only [hnew, ← hlength, h.commitments, hall, ne_eq, not_true_eq_false, if_false]
  rfl

theorem dealerPart_insert (i j : ℕ) (part : DealerPartStorage) :
    ({ d with dealerParts := d.dealerParts.insert i part }).dealerPart j =
      if j = i then part else d.dealerPart j := by
  unfold dealerPart
  rw [get?_insert]
  split <;> rfl

theorem submission_of_empty (h : d.verificationSubmissions = ∅) (v : ℕ) : d.submission v = [] := by
  unfold submission
  rw [h]
  rfl

theorem votes_of_empty (h : d.verificationSubmissions = ∅) (v i : ℕ) : d.votes v i = false := by
  unfold votes
  rw [submission_of_empty h]
  rfl

theorem PartOk.requiresEvidence {i v : ℕ} (h : PartOk env (d.dealerPart i))
    (hsubmitted : (d.dealerPart i).dealerAddress ≠ []) (hv : v < env.participants.length) :
    requiresEvidence env d i v := by
  obtain ⟨_, _, hshares, hp, hne, hshape⟩ := h.shares v hv
  simp only [Dkg.requiresEvidence, hshares, hp, hsubmitted, h.commitments, hne, hshape, ne_eq,
    not_false_eq_true, decide_true, Bool.and_self]

variable (env) in
/-- What the loop over the dealers does to the complaints. -/
structure Complains (msg : MsgSubmitVerificationVector) (i : ℕ) (d : EpochBLSData)
    (dealers : List ℕ) (m m' : OrdMap (ℕ ×ₗ ℕ) DealerComplaint) : Prop where
  kept : ∀ k c, m.get? k = some c → m'.get? k = some c
  new : ∀ k c, m'.get? k = some c → m.get? k = some c ∨
    ∃ complaint ∈ msg.dealerComplaints, complaint.dealerIndex ∈ dealers ∧
      k = toLex (complaint.dealerIndex, i) ∧ c = complaint.stored i
  evidence : ∀ dealer ∈ dealers, msg.dealerValidity.getD dealer false = false →
    requiresEvidence env d dealer i → ∃ c, m'.get? (toLex (dealer, i)) = some c

variable {msg : MsgSubmitVerificationVector} {i : ℕ} {dealers dealers' : List ℕ}
  {m m₁ m' : OrdMap (ℕ ×ₗ ℕ) DealerComplaint}

theorem Complains.append (h : Complains env msg i d dealers m m₁)
    (h' : Complains env msg i d dealers' m₁ m') :
    Complains env msg i d (dealers ++ dealers') m m' := by
  refine ⟨fun k c hget => h'.kept k c (h.kept k c hget), ?_, ?_⟩
  · intro k c hget
    rcases h'.new k c hget with hold | ⟨complaint, hmem, hdealer, hk, hc⟩
    · rcases h.new k c hold with hold | ⟨complaint, hmem, hdealer, hk, hc⟩
      · exact .inl hold
      · exact .inr ⟨complaint, hmem, mem_append_left _ hdealer, hk, hc⟩
    · exact .inr ⟨complaint, hmem, mem_append_right _ hdealer, hk, hc⟩
  · intro dealer hdealer hvote hrequires
    rcases mem_append.mp hdealer with hdealer | hdealer
    · obtain ⟨c, hc⟩ := h.evidence dealer hdealer hvote hrequires
      exact ⟨c, h'.kept _ c hc⟩
    · exact h'.evidence dealer hdealer hvote hrequires

theorem recordComplaint_spec {dealer : ℕ} (h : recordComplaint env msg i d dealer = .ok d') :
    ∃ m', d' = { d with dealerComplaints := m' } ∧
      Complains env msg i d [dealer] d.dealerComplaints m' := by
  have hsame (hno : msg.dealerValidity.getD dealer false = false →
      ¬ requiresEvidence env d dealer i) (hd : d = d') :
      ∃ m', d' = { d with dealerComplaints := m' } ∧
        Complains env msg i d [dealer] d.dealerComplaints m' := by
    refine ⟨d.dealerComplaints, hd.symm, fun _ _ hget => hget, fun _ _ hget => .inl hget, ?_⟩
    intro dealer' hdealer hvote hrequires
    rw [mem_singleton.mp hdealer] at hvote hrequires
    exact absurd hrequires (hno hvote)
  unfold recordComplaint at h
  split at h
  · next hvote =>
    exact hsame (fun hfalse => nomatch hvote.symm.trans hfalse) (Except.ok.inj h)
  split at h
  · split at h
    · nomatch h
    · next hrequires =>
      exact hsame (fun _ => hrequires) (Except.ok.inj h)
  · next complaint hfind =>
    split at h
    · nomatch h
    split at h
    · nomatch h
    next hfree =>
    have hdealer : complaint.dealerIndex = dealer := by
      simpa using find?_some hfind
    have hmem := mem_of_find?_eq_some hfind
    refine ⟨_, (Except.ok.inj h).symm, ?_, ?_, ?_⟩
    · intro k c hget
      rw [get?_insert]
      split
      · next hk =>
        rw [hk] at hget
        rw [hget] at hfree
        exact absurd rfl hfree
      · exact hget
    · intro k c hget
      rw [get?_insert] at hget
      split at hget
      · next hk =>
        refine .inr ⟨complaint, hmem, hdealer ▸ mem_singleton_self _, hdealer ▸ hk, ?_⟩
        rw [← Option.some.inj hget, ← hdealer]
        rfl
      · exact .inl hget
    · intro dealer' hdealer' _ _
      rw [mem_singleton.mp hdealer', get?_insert, if_pos rfl]
      exact ⟨_, rfl⟩

theorem recordComplaints_spec (h : dealers.foldlM (recordComplaint env msg i) d = .ok d') :
    ∃ m', d' = { d with dealerComplaints := m' } ∧
      Complains env msg i d dealers d.dealerComplaints m' := by
  induction dealers generalizing d with
  | nil =>
    refine ⟨d.dealerComplaints, (Except.ok.inj h).symm, fun _ _ hget => hget,
      fun _ _ hget => .inl hget, ?_⟩
    intro dealer hdealer
    nomatch hdealer
  | cons dealer _ ih =>
    rw [foldlM_cons, Checked.bind_eq_ok_iff] at h
    obtain ⟨_, hone, hrest⟩ := h
    obtain ⟨_, rfl, h₁⟩ := recordComplaint_spec hone
    obtain ⟨m', rfl, h'⟩ := ih hrest
    -- the dealer parts are the same all along
    exact ⟨m', rfl, h₁.append ⟨h'.kept, h'.new, h'.evidence⟩⟩

theorem submission_insert (j : ℕ) (validity : List Bool) :
    ({ d with verificationSubmissions := d.verificationSubmissions.insert i validity,
              dealerComplaints := m' }).submission j =
      if j = i then validity else d.submission j := by
  unfold submission
  rw [get?_insert]
  split <;> rfl

theorem validateComplaintIndices_ok {complaint : VerificationDealerComplaint} {p : BLSParticipantInfo}
    (hne : complaint.dealerIndex ≠ i) (hp : env.participants[i]? = some p) (h : complaint.Owned p)
    (hpart : PartOk env (d.dealerPart complaint.dealerIndex)) :
    validateComplaintIndices env d complaint.dealerIndex i complaint = true := by
  have hi : i < env.participants.length := (List.getElem?_eq_some_iff.mp hp).1
  obtain ⟨encryptedShares, p', hshares, hp', hnonempty, hshape⟩ := hpart.shares i hi
  cases hp.symm.trans hp'
  have hlength : encryptedShares.length = p.slots * (1 + p.allowedSecp256k1PublicKeys.length) :=
    of_decide_eq_true hshape
  obtain ⟨hstart, hend, hfirst, hlast⟩ := h
  unfold validateComplaintIndices
  simp only [hp, hshares, hne, ne_eq, not_false_eq_true, decide_true, Bool.true_and]
  unfold ciphertextKey
  rw [hlength, Nat.mul_mod_right, Nat.mul_div_cancel_left _ (slots_pos p),
    if_neg (not_or.mpr ⟨hnonempty, not_not.mpr rfl⟩),
    if_neg (not_or.mpr ⟨not_lt.mpr hstart, not_lt.mpr hend⟩)]
  simp only [if_neg (not_or.mpr ⟨not_lt.mpr hfirst, not_le.mpr hlast⟩), Option.isSome_some]

/-- What answers of the dealer do to the complaints. -/
structure Answers (dealer : ℕ) (responses : List DealerComplaintResponse)
    (m m' : OrdMap (ℕ ×ₗ ℕ) DealerComplaint) : Prop where
  kept : ∀ k c, m.get? k = some c → ∃ c', m'.get? k = some c' ∧
    (c.responseSubmitted = true → c' = c)
  new : ∀ k c', m'.get? k = some c' → ∃ c, m.get? k = some c ∧ (c' = c ∨
    c.responseSubmitted = false ∧ ∃ response ∈ responses,
      k = toLex (dealer, response.complainerIndex) ∧ c' = c.answered response)

theorem Answers.append {dealer : ℕ} {l l' : List DealerComplaintResponse} (h : Answers dealer l m m₁)
    (h' : Answers dealer l' m₁ m') : Answers dealer (l ++ l') m m' := by
  constructor
  · intro k c hget
    obtain ⟨c₁, hget₁, hsame⟩ := h.kept k c hget
    obtain ⟨c', hget', hsame'⟩ := h'.kept k c₁ hget₁
    refine ⟨c', hget', fun hdone => ?_⟩
    cases hsame hdone
    exact hsame' hdone
  · intro k c' hget'
    obtain ⟨c₁, hget₁, hor'⟩ := h'.new k c' hget'
    obtain ⟨c, hget, hor⟩ := h.new k c₁ hget₁
    refine ⟨c, hget, ?_⟩
    rcases hor with rfl | ⟨hopen, response, hmem, hk, rfl⟩
    · refine hor'.imp_right fun ⟨hopen, response, hmem, hk, hc'⟩ => ?_
      exact ⟨hopen, response, mem_append_right _ hmem, hk, hc'⟩
    · -- what is answered is not answered again
      rcases hor' with rfl | ⟨hopen', -⟩
      · exact .inr ⟨hopen, response, mem_append_left _ hmem, hk, rfl⟩
      · nomatch hopen'

theorem recordResponse_spec {dealer : ℕ} {response : DealerComplaintResponse}
    (h : recordResponse env dealer d response = .ok d') :
    ∃ m', d' = { d with dealerComplaints := m' } ∧ Answers dealer [response] d.dealerComplaints m' := by
  unfold recordResponse at h
  iterate 3
    split at h
    · nomatch h
  next complaint hcomplaint =>
  split at h
  · nomatch h
  next hopen =>
  have hopen := Bool.eq_false_of_not_eq_true hopen
  refine ⟨_, (Except.ok.inj h).symm, fun k c hget => ?_, fun k c' hget' => ?_⟩
  · rw [get?_insert]
    split
    · next hk =>
      rw [hk, hcomplaint] at hget
      cases hget
      exact ⟨_, rfl, fun hdone => nomatch hopen.symm.trans hdone⟩
    · exact ⟨c, hget, fun _ => rfl⟩
  · rw [get?_insert] at hget'
    split at hget'
    · next hk =>
      rw [hk]
      exact ⟨complaint, hcomplaint,
        .inr ⟨hopen, response, mem_singleton_self _, rfl, (Option.some.inj hget').symm⟩⟩
    · exact ⟨c', hget', .inl rfl⟩

theorem recordResponses_spec {dealer : ℕ} {responses : List DealerComplaintResponse}
    (h : responses.foldlM (recordResponse env dealer) d = .ok d') :
    ∃ m', d' = { d with dealerComplaints := m' } ∧ Answers dealer responses d.dealerComplaints m' := by
  induction responses generalizing d with
  | nil =>
    cases h
    exact ⟨_, rfl, fun _ c hget => ⟨c, hget, fun _ => rfl⟩, fun _ c hget => ⟨c, hget, .inl rfl⟩⟩
  | cons response responses ih =>
    rw [foldlM_cons, Checked.bind_eq_ok_iff] at h
    obtain ⟨_, hone, hrest⟩ := h
    obtain ⟨_, rfl, h₁⟩ := recordResponse_spec hone
    obtain ⟨m', rfl, h'⟩ := ih hrest
    exact ⟨m', rfl, h₁.append h'⟩

theorem respondDealerComplaints_spec {msg : MsgRespondDealerComplaints}
    (h : respondDealerComplaints env height msg d = .ok d') :
    Chain.inTime ⟨d, height⟩ (.respond msg) ∧ msg.IsFrom env msg.dealerIndex ∧
      ∃ m', d' = { d with dealerComplaints := m' } ∧
        Answers msg.dealerIndex msg.responses d.dealerComplaints m' := by
  unfold respondDealerComplaints at h
  split at h
  · nomatch h
  next hphase =>
  split at h
  · nomatch h
  next htime =>
  refine ⟨decide_eq_true ⟨not_not.mp hphase, not_le.mp htime⟩, ?_⟩
  split at h
  · nomatch h
  next dealer hdealer =>
  split at h
  · nomatch h
  next hcreator =>
  refine ⟨⟨rfl, ?_⟩, ?_⟩
  · rw [hdealer, Option.map_some, not_not.mp hcreator]
  split at h
  · nomatch h
  · exact recordResponses_spec h

theorem recordResponses_ok {dealer : ℕ} {responses : List DealerComplaintResponse}
    (hdistinct : (responses.map DealerComplaintResponse.complainerIndex).Nodup)
    (hlt : ∀ response ∈ responses, response.complainerIndex < env.participants.length)
    (hvalid : ∀ response ∈ responses, ∃ complaint,
      d.dealerComplaints.get? (toLex (dealer, response.complainerIndex)) = some complaint ∧
        complaint.responseSubmitted = false ∧
        verifyDealerComplaintResponse env d (complaint.answered response)) :
    ∃ d', responses.foldlM (recordResponse env dealer) d = .ok d' ∧
      ∀ response ∈ responses, ∃ c,
        d'.dealerComplaints.get? (toLex (dealer, response.complainerIndex)) = some c ∧
          c.responseSubmitted = true := by
  induction responses generalizing d with
  | nil => exact ⟨d, rfl, nofun⟩
  | cons response responses ih =>
    rw [map_cons, nodup_cons] at hdistinct
    obtain ⟨complaint, hget, hopen, hverify⟩ := hvalid response mem_cons_self
    have hlengths : response.responseShareBytes.length = dkgShareBytesLen ∧
        response.responseOpeningMaterial.length = dkgOpeningSeedLen := by
      simp only [verifyDealerComplaintResponse, Bool.and_eq_true, decide_eq_true_eq] at hverify
      exact ⟨hverify.1.1.2, hverify.1.2⟩
    have hone : recordResponse env dealer d response = .ok { d with
        dealerComplaints := d.dealerComplaints.insert (toLex (dealer, response.complainerIndex))
          (complaint.answered response) } := by
      unfold recordResponse
      rw [if_neg (not_le.mpr (hlt response mem_cons_self)),
        if_neg (not_or.mpr ⟨not_not.mpr hlengths.1, not_not.mpr hlengths.2⟩), hget]
      simp only [hopen, Bool.false_eq_true, if_false]
      rfl
    obtain ⟨d', hrest, hdone⟩ := ih (d := { d with
        dealerComplaints := d.dealerComplaints.insert (toLex (dealer, response.complainerIndex))
          (complaint.answered response) }) hdistinct.2
      (fun r hr => hlt r (mem_cons_of_mem _ hr)) (fun r hr => by
        -- the others are about other complaints
        have hne : toLex (dealer, r.complainerIndex) ≠ toLex (dealer, response.complainerIndex) :=
          fun heq => hdistinct.1 (mem_map.mpr ⟨r, hr, (Prod.mk.inj (toLex_inj.mp heq)).2⟩)
        rw [get?_insert, if_neg hne]
        exact hvalid r (mem_cons_of_mem _ hr))
    refine ⟨d', by rw [foldlM_cons, hone]; exact hrest, fun r hr => ?_⟩
    rcases mem_cons.mp hr with rfl | hr
    · obtain ⟨m', rfl, hm⟩ := recordResponses_spec hrest
      obtain ⟨c, hc, hsame⟩ := hm.kept _ _ (get?_insert_self ..)
      exact ⟨c, hc, by rw [hsame rfl]; rfl⟩
    · exact hdone r hr

/-- **Answers are taken** from the dealer, to complaints that have none. -/
theorem respondDealerComplaints_ok {msg : MsgRespondDealerComplaints}
    (htime : Chain.inTime ⟨d, height⟩ (.respond msg)) (hfrom : msg.IsFrom env msg.dealerIndex)
    (hlt : ∀ response ∈ msg.responses, response.complainerIndex < env.participants.length)
    (h : msg.Honest env d) :
    ∃ d', respondDealerComplaints env height msg d = .ok d' ∧
      ∀ response ∈ msg.responses, ∃ c,
        d'.dealerComplaints.get? (toLex (msg.dealerIndex, response.complainerIndex)) = some c ∧
          c.responseSubmitted = true := by
  obtain ⟨hphase, hdeadline⟩ := of_decide_eq_true htime
  obtain ⟨d', hd', hdone⟩ := recordResponses_ok h.distinct hlt h.valid
  obtain ⟨dealer, hdealer, haddress⟩ := Option.map_eq_some_iff.mp hfrom.2
  refine ⟨d', ?_, hdone⟩
  unfold respondDealerComplaints
  rw [if_neg (not_not.mpr hphase), if_neg (not_le.mpr hdeadline), hdealer]
  simp only [haddress, h.nonempty, ne_eq, not_true_eq_false, if_false]
  exact hd'

variable [AddCommMonoid G] {H : Finset ℕ}

theorem verifyDealerValidityProof_points {dealer : ℕ} {slots : List ℕ} {proof : Bytes}
    (h : verifyDealerValidityProof env d dealer slots proof) :
    ∀ c ∈ (d.dealerPart dealer).commitments, (env.point c).isSome := by
  unfold verifyDealerValidityProof buildDealerSlotPublicKeysForSlots at h
  split at h
  · nomatch h
  next hkeys =>
  split at hkeys
  · nomatch hkeys
  · obtain ⟨_, hpoints, -⟩ := Option.bind_eq_some_iff.mp hkeys
    exact mapM_isSome_iff.mp (Option.isSome_of_eq_some hpoints)

theorem validateDealerValidityProofs_points (h : validateDealerValidityProofs env msg d i)
    {dealer : ℕ} (hvote : msg.dealerValidity.getD dealer false) (hne : dealer ≠ i) :
    ∀ c ∈ (d.dealerPart dealer).commitments, (env.point c).isSome := by
  have hlt : dealer < msg.dealerValidity.length := by
    by_contra hge
    rw [getD_eq_getElem?_getD, getElem?_eq_none (not_lt.mp hge)] at hvote
    nomatch hvote
  have hall := (Bool.and_eq_true_iff.mp h).2
  have hone := all_eq_true.mp hall dealer (mem_range.mpr hlt)
  simp only [hvote, hne, Bool.not_true, decide_false, Bool.or_self, Bool.false_or] at hone
  split at hone
  · nomatch hone
  · exact verifyDealerValidityProof_points hone

theorem submitVerificationVector_spec (h : submitVerificationVector env height msg d = .ok d') :
    Chain.inTime ⟨d, height⟩ (.verification msg) ∧ ∃ i m', env.participantIndex msg.creator = some i ∧
      msg.dealerValidity.length = env.participants.length ∧
      validateDealerValidityProofs env msg d i ∧
      Complains env msg i d (List.range env.participants.length) d.dealerComplaints m' ∧
      d' = { d with
        verificationSubmissions := d.verificationSubmissions.insert i msg.dealerValidity
        dealerComplaints := m' } := by
  unfold submitVerificationVector at h
  split at h
  · nomatch h
  next hphase =>
  split at h
  · nomatch h
  next htime =>
  refine ⟨decide_eq_true ⟨not_not.mp hphase, not_lt.mp htime⟩, ?_⟩
  split at h
  · nomatch h
  next i hi =>
  split at h
  · nomatch h
  split at h
  · nomatch h
  next hlength =>
  split at h
  · nomatch h
  next hproofs =>
  split at h
  · nomatch h
  obtain ⟨m', rfl, hm⟩ := recordComplaints_spec h
  rw [not_not.mp hlength] at hm
  exact ⟨i, m', hi, not_not.mp hlength, by simpa using hproofs, ⟨hm.kept, hm.new, hm.evidence⟩, rfl⟩

theorem length_others_le (h : msg.Honest env H d i) :
    ((List.range msg.dealerValidity.length).filter fun dealer =>
        msg.marks dealer && decide (dealer ≠ i)).length ≤ msg.dealerValidityProofs.length := by
  rw [← length_map DealerValidityProof.dealerIndex]
  refine ((nodup_range.filter _).subperm fun dealer hdealer => ?_).length_le
  obtain ⟨hlt, hmarked⟩ := mem_filter.mp hdealer
  simp only [Bool.and_eq_true, decide_eq_true_eq] at hmarked
  obtain ⟨proof, hproof, hindex, -⟩ :=
    h.proved dealer (h.length ▸ mem_range.mp hlt) hmarked.1 hmarked.2
  exact mem_map.mpr ⟨proof, hproof, hindex⟩

theorem marks_lt {dealer : ℕ} (h : msg.marks dealer) : dealer < msg.dealerValidity.length := by
  by_contra hge
  rw [MsgSubmitVerificationVector.marks, getD_eq_getElem?_getD,
    getElem?_eq_none (not_lt.mp hge)] at h
  nomatch h

theorem length_proofs_le (h : msg.Honest env H d i) : msg.dealerValidityProofs.length ≤
    ((List.range msg.dealerValidity.length).filter fun dealer =>
      msg.marks dealer && decide (dealer ≠ i)).length + if msg.marks i then 1 else 0 := by
  have hself : (if msg.marks i then [i] else []).length = if msg.marks i then 1 else 0 := by
    split <;> rfl
  rw [← hself, ← length_append, ← length_map DealerValidityProof.dealerIndex]
  refine (h.proofs.1.subperm fun dealer hdealer => ?_).length_le
  obtain ⟨proof, hproof, rfl⟩ := mem_map.mp hdealer
  have hmarked := (h.proofs.2 proof hproof).2
  by_cases hi : proof.dealerIndex = i
  · rw [hi] at hmarked ⊢
    simp [hmarked]
  · refine mem_append_left _ (mem_filter.mpr ⟨mem_range.mpr (marks_lt hmarked), ?_⟩)
    simp [hmarked, hi]

theorem validateDealerValidityProofs_ok (h : msg.Honest env H d i) :
    validateDealerValidityProofs env msg d i = true := by
  have hshape : msg.dealerValidityProofs.all (fun proof =>
      decide (proof.dealerIndex < env.participants.length) && decide (proof.proofSignature ≠ []) &&
        msg.marks proof.dealerIndex) = true := by
    refine all_eq_true.mpr fun proof hproof => ?_
    obtain ⟨hsignature, hmarked⟩ := h.proofs.2 proof hproof
    have hlt := marks_lt hmarked
    rw [h.length] at hlt
    simp [hlt, hsignature, hmarked]
  unfold validateDealerValidityProofs
  simp only [Bool.and_eq_true, decide_eq_true_eq]
  refine ⟨⟨⟨⟨length_others_le h, length_proofs_le h⟩, hshape⟩, h.proofs.1⟩,
    all_eq_true.mpr fun dealer hdealer => ?_⟩
  change (!msg.marks dealer || decide (dealer = i) || _) = true
  by_cases hskip : msg.marks dealer = false ∨ dealer = i
  · rcases hskip with hskip | hskip <;> simp [hskip]
  obtain ⟨hmarked, hne⟩ := not_or.mp hskip
  obtain ⟨proof, hproof, hindex, hvalid⟩ :=
    h.proved dealer (h.length ▸ mem_range.mp hdealer) (Bool.eq_true_of_not_eq_false hmarked) hne
  -- no other proof is for this dealer
  have hfind : msg.dealerValidityProofs.find? (fun proof => proof.dealerIndex = dealer) =
      some proof := by
    have hsome : (msg.dealerValidityProofs.find? fun proof => proof.dealerIndex = dealer).isSome :=
      find?_isSome.mpr ⟨proof, hproof, decide_eq_true hindex⟩
    obtain ⟨proof', hproof'⟩ := Option.isSome_iff_exists.mp hsome
    have hindex' : proof'.dealerIndex = dealer := by simpa using find?_some hproof'
    rw [hproof', inj_on_of_nodup_map h.proofs.1 (mem_of_find?_eq_some hproof') hproof
      (hindex'.trans hindex.symm)]
  rw [hfind]
  simp [hvalid]

theorem recordComplaints_ok (h : msg.Honest env H d i)
    (hparts : ∀ j, (d.dealerPart j).dealerAddress ≠ [] → PartOk env (d.dealerPart j))
    (hdistinct : dealers.Nodup) (hlt : ∀ dealer ∈ dealers, dealer < env.participants.length)
    (hnew : ∀ dealer ∈ dealers, d.dealerComplaints.get? (toLex (dealer, i)) = none) :
    ∃ d', dealers.foldlM (recordComplaint env msg i) d = .ok d' := by
  induction dealers generalizing d with
  | nil => exact ⟨d, rfl⟩
  | cons dealer dealers ih =>
    obtain ⟨hnotin, hdistinct⟩ := nodup_cons.mp hdistinct
    obtain ⟨d₁, hone⟩ : ∃ d₁, recordComplaint env msg i d dealer = .ok d₁ := by
      unfold recordComplaint
      split
      · exact ⟨_, rfl⟩
      next hmarked =>
      split
      · next hnone =>
        refine ⟨d, if_neg fun hrequires => ?_⟩
        -- a dealer that has dealt would have its complaint
        simp only [requiresEvidence, Bool.and_eq_true, decide_eq_true_eq] at hrequires
        obtain ⟨complaint, hmem, hindex⟩ := h.complains dealer (hlt dealer mem_cons_self)
          hrequires.1.1 (Bool.eq_false_of_not_eq_true hmarked)
        exact find?_eq_none.mp hnone complaint hmem (decide_eq_true hindex)
      · next complaint hfind =>
        have hindex : complaint.dealerIndex = dealer := by simpa using find?_some hfind
        obtain ⟨hne, hdealt, ⟨p, hp, howned⟩, -⟩ := h.complaints complaint (mem_of_find?_eq_some hfind)
        rw [← hindex, validateComplaintIndices_ok hne hp howned (hparts _ hdealt), hindex,
          hnew dealer mem_cons_self]
        exact ⟨_, rfl⟩
    obtain ⟨m₁, rfl, hm⟩ := recordComplaint_spec hone
    have hfree : ∀ dealer' ∈ dealers, m₁.get? (toLex (dealer', i)) = none := by
      intro dealer' hdealer'
      by_contra hsome
      obtain ⟨c, hc⟩ := Option.ne_none_iff_exists'.mp hsome
      rcases hm.new _ c hc with hold | ⟨complaint, -, hmem, hk, -⟩
      · rw [hnew dealer' (mem_cons_of_mem _ hdealer')] at hold
        nomatch hold
      · cases Prod.mk.inj (toLex_inj.mp hk) with
        | intro heq =>
          rw [heq, mem_singleton.mp hmem] at hdealer'
          exact hnotin hdealer'
    obtain ⟨d', hrest⟩ := ih (d := { d with dealerComplaints := m₁ }) { h with } hparts hdistinct
      (fun dealer' hdealer' => hlt dealer' (mem_cons_of_mem _ hdealer')) hfree
    refine ⟨d', ?_⟩
    rw [foldlM_cons, hone]
    exact hrest

/-- **A vector is taken** from who has sent none. -/
theorem submitVerificationVector_ok (htime : Chain.inTime ⟨d, height⟩ (.verification msg))
    (hi : env.participantIndex msg.creator = some i) (hnew : d.submission i = [])
    (hparts : ∀ j, (d.dealerPart j).dealerAddress ≠ [] → PartOk env (d.dealerPart j))
    (hfree : ∀ dealer, d.dealerComplaints.get? (toLex (dealer, i)) = none)
    (h : msg.Honest env H d i) : ∃ d', submitVerificationVector env height msg d = .ok d' := by
  obtain ⟨hphase, hdeadline⟩ := of_decide_eq_true htime
  obtain ⟨d', hd'⟩ := recordComplaints_ok
    (d := { d with verificationSubmissions := d.verificationSubmissions.insert i msg.dealerValidity })
    { h with } hparts nodup_range (fun _ hdealer => h.length ▸ mem_range.mp hdealer)
    (fun dealer _ => hfree dealer)
  refine ⟨d', ?_⟩
  unfold submitVerificationVector
  rw [if_neg (not_not.mpr hphase), if_neg (not_lt.mpr hdeadline), hi]
  simp only [hnew, h.length, validateDealerValidityProofs_ok h, h.distinct, ne_eq, not_true_eq_false,
    if_false, Bool.not_true, Bool.false_eq_true]
  rw [← h.length]
  exact hd'

/-! ### Nothing is taken back -/

structure Grows (d d' : EpochBLSData) : Prop where
  parts : ∀ i, (d.dealerPart i).dealerAddress ≠ [] → (d'.dealerPart i).dealerAddress ≠ []
  submissions : ∀ i, d.submission i ≠ [] → d'.submission i ≠ []
  answers : ∀ k c, d.dealerComplaints.get? k = some c → c.responseSubmitted = true →
    d'.dealerComplaints.get? k = some c

theorem commit_grows {result : Except DkgError EpochBLSData} (h : ∀ d', result = .ok d' → Grows d d') :
    Grows d (commit d result) := by
  cases result with
  | error => exact ⟨fun _ h => h, fun _ h => h, fun _ _ h _ => h⟩
  | ok d' => exact h d' rfl

variable (env height d) in
theorem processDKGPhaseTransition_maps :
    (processDKGPhaseTransition env height d).dealerParts = d.dealerParts ∧
      (processDKGPhaseTransition env height d).verificationSubmissions = d.verificationSubmissions ∧
      (processDKGPhaseTransition env height d).dealerComplaints = d.dealerComplaints := by
  simp only [processDKGPhaseTransition, transitionToVerifyingPhase, transitionFromVerifyingToDisputing,
    finalizeDisputingPhase, markDKGAsFailed]
  grind

/-- **No event takes back** a dealer part, a vector or an answer. -/
theorem step_grows (e : Event) (c : Chain) : Grows c.data (step env e c).data := by
  cases e with
  | dealerPart msg =>
    refine commit_grows fun d' hok => ?_
    obtain ⟨-, i, hi, -, rfl⟩ := submitDealerPart_spec hok
    refine ⟨fun j hj => ?_, fun _ h => h, fun _ _ h _ => h⟩
    rw [dealerPart_insert]
    split
    · exact creator_ne_nil hi
    · exact hj
  | verification msg =>
    refine commit_grows fun d' hok => ?_
    obtain ⟨-, i, m', hi, hlength, -, hm, rfl⟩ := submitVerificationVector_spec hok
    refine ⟨fun _ h => h, fun j hj => ?_, fun k c hget _ => hm.kept k c hget⟩
    rw [submission_insert]
    split
    · exact vector_ne_nil hi hlength
    · exact hj
  | respond msg =>
    refine commit_grows fun d' hok => ?_
    obtain ⟨-, -, m', rfl, hm⟩ := respondDealerComplaints_spec hok
    refine ⟨fun _ h => h, fun _ h => h, fun k c hget hdone => ?_⟩
    obtain ⟨c', hget', hsame⟩ := hm.kept k c hget
    rw [hget', hsame hdone]
  | endBlock =>
    obtain ⟨hparts, hsubmissions, hcomplaints⟩ := processDKGPhaseTransition_maps env c.height c.data
    refine ⟨fun i h => ?_, fun i h => ?_, fun k c' h _ => ?_⟩
    · show ((processDKGPhaseTransition env c.height c.data).dealerPart i).dealerAddress ≠ []
      unfold dealerPart at h ⊢
      rwa [hparts]
    · show (processDKGPhaseTransition env c.height c.data).submission i ≠ []
      unfold submission at h ⊢
      rwa [hsubmissions]
    · show (processDKGPhaseTransition env c.height c.data).dealerComplaints.get? k = some c'
      rwa [hcomplaints]

end

end Dkg
