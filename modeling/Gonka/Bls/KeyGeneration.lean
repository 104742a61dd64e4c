/-
Distributed key generation of an epoch.

Every participant owns a range of slots.  In the dealing phase it submits the commitments of a
polynomial and the shares of the others, encrypted; in the verifying phase a vector that says
which dealers it found valid, with a proof for each, and a complaint for each that it did not;
in the disputing phase the dealers answer the complaints by opening the disputed ciphertext.
The end of a block moves the generation on when the deadline of its phase has come, or fails it.

The dealer parts, the vectors and the complaints are stored under keys of their own; a
participant without an entry reads as one with an empty entry.  Points form a commutative monoid
`G`; the encryption and the checks of shares and proofs are left open.

`Roster` holds what `AssignSlots` and the start of the generation guarantee, so that the checks
for empty ranges of slots, which can never fail, are left out of the functions below.
-/
import Gonka.Bls.ThresholdSigning
import Gonka.Lib.Weights

namespace Dkg

open List

open ThresholdSigning (Address DKGPhase)

/-! ### Participants -/

structure BLSParticipantInfo where
  address : Address
  secp256k1PublicKey : Bytes
  allowedSecp256k1PublicKeys : List Bytes
  slotStartIndex : ℕ
  slotEndIndex : ℕ

def BLSParticipantInfo.slots (p : BLSParticipantInfo) : ℕ := p.slotEndIndex - p.slotStartIndex + 1

def buildAllowedSecp256k1Keys (p : BLSParticipantInfo) : List Bytes :=
  p.secp256k1PublicKey :: p.allowedSecp256k1PublicKeys

/-- `expectedEncryptedSharesCount`: one ciphertext for each slot and key. -/
def expectedEncryptedSharesCount (p : BLSParticipantInfo) : ℕ :=
  p.slots * (1 + p.allowedSecp256k1PublicKeys.length)

structure ParticipantKeys where
  address : Address
  secp256k1PublicKey : Bytes
  allowedSecp256k1PublicKeys : List Bytes

/-- The last part of `AssignSlots`: contiguous ranges, none for those without slots. -/
def assignRanges : ℕ → List (ParticipantKeys × ℕ) → List BLSParticipantInfo
  | _, [] => []
  | currentSlot, (p, slotCount) :: rest =>
    if slotCount = 0 then assignRanges currentSlot rest
    else
      ⟨p.address, p.secp256k1PublicKey, p.allowedSecp256k1PublicKeys, currentSlot,
        currentSlot + slotCount - 1⟩ :: assignRanges (currentSlot + slotCount) rest

/-- The participants of a generation: their ranges have all slots, a `uint32`. -/
structure Roster where
  participants : List BLSParticipantInfo
  iTotalSlots : ℕ
  iTotalSlots_lt : iTotalSlots < 2 ^ 32
  named : ∀ p ∈ participants, p.address ≠ []
  ordered : ∀ p ∈ participants, p.slotStartIndex ≤ p.slotEndIndex
  total : (participants.map BLSParticipantInfo.slots).sum = iTotalSlots

theorem assignRanges_ordered (currentSlot : ℕ) (counts : List (ParticipantKeys × ℕ)) :
    ∀ p ∈ assignRanges currentSlot counts, p.slotStartIndex ≤ p.slotEndIndex := by
  induction counts generalizing currentSlot with
  | nil => intro p hp; nomatch hp
  | cons e _ ih =>
    obtain ⟨q, slotCount⟩ := e
    intro p hp
    unfold assignRanges at hp
    split at hp
    · exact ih currentSlot p hp
    next hne =>
    rcases mem_cons.mp hp with rfl | hp
    · show currentSlot ≤ currentSlot + slotCount - 1
      omega
    · exact ih _ p hp

theorem assignRanges_total (currentSlot : ℕ) (counts : List (ParticipantKeys × ℕ)) :
    ((assignRanges currentSlot counts).map BLSParticipantInfo.slots).sum =
      (counts.map Prod.snd).sum := by
  induction counts generalizing currentSlot with
  | nil => rfl
  | cons e _ ih =>
    obtain ⟨q, slotCount⟩ := e
    unfold assignRanges
    split
    · next hzero =>
      rw [ih, map_cons, sum_cons, hzero, Nat.zero_add]
    next hne =>
    rw [map_cons, sum_cons, ih, map_cons, sum_cons]
    show currentSlot + slotCount - 1 - currentSlot + 1 + _ = slotCount + _
    omega

theorem assignRanges_named {counts : List (ParticipantKeys × ℕ)}
    (h : ∀ e ∈ counts, e.1.address ≠ []) (currentSlot : ℕ) :
    ∀ p ∈ assignRanges currentSlot counts, p.address ≠ [] := by
  induction counts generalizing currentSlot with
  | nil => intro p hp; nomatch hp
  | cons e counts ih =>
    obtain ⟨q, slotCount⟩ := e
    have hrest := (forall_mem_cons.mp h).2
    intro p hp
    unfold assignRanges at hp
    split at hp
    · exact ih hrest currentSlot p hp
    · rcases mem_cons.mp hp with rfl | hp
      · exact h (q, slotCount) mem_cons_self
      · exact ih hrest _ p hp

def Roster.assign (counts : List (ParticipantKeys × ℕ)) (hlt : (counts.map Prod.snd).sum < 2 ^ 32)
    (hnamed : ∀ e ∈ counts, e.1.address ≠ []) : Roster where
  participants := assignRanges 0 counts
  iTotalSlots := (counts.map Prod.snd).sum
  iTotalSlots_lt := hlt
  named := assignRanges_named hnamed 0
  ordered := assignRanges_ordered 0 counts
  total := assignRanges_total 0 counts

/-! ### The data of an epoch -/

structure DealerPartStorage where
  dealerAddress : Address := []
  commitments : List Bytes := []
  /-- the ciphertexts for each participant -/
  participantShares : List (List Bytes) := []

structure DealerComplaint where
  dealerIndex : ℕ
  complainerIndex : ℕ
  disputedSlotIndex : ℕ
  disputedCiphertextIndex : ℕ
  responseSubmitted : Bool := false
  responseShareBytes : Bytes := []
  responseOpeningMaterial : Bytes := []

structure EpochBLSData where
  dkgPhase : DKGPhase
  dealingPhaseDeadlineBlock : ℕ
  verifyingPhaseDeadlineBlock : ℕ
  disputingPhaseDeadlineBlock : ℕ := 0
  dealerParts : OrdMap ℕ DealerPartStorage := ∅
  verificationSubmissions : OrdMap ℕ (List Bool) := ∅
  /-- by dealer and complainer -/
  dealerComplaints : OrdMap (ℕ ×ₗ ℕ) DealerComplaint := ∅
  candidateValidDealers : List Bool := []
  validDealers : List Bool := []
  groupPublicKey : Bytes := []
  slotPublicKeys : List Bytes := []

def EpochBLSData.dealerPart (d : EpochBLSData) (i : ℕ) : DealerPartStorage :=
  (d.dealerParts.get? i).getD {}

def EpochBLSData.submission (d : EpochBLSData) (i : ℕ) : List Bool :=
  (d.verificationSubmissions.get? i).getD []

/-- What the code gets from its cryptographic libraries. -/
structure Crypto (G : Type) where
  /-- a compressed point of the curve -/
  uncompress : Bytes → Option G
  /-- the point is in the subgroup -/
  inG2 : G → Bool
  compress : G → Bytes
  /-- the order of the scalar field -/
  order : ℕ
  encryptWithSeedForParticipant : Bytes → Bytes → Bytes → Option Bytes
  verifyShareAgainstCommitments : Bytes → ℕ → List Bytes → Bool
  buildDealerValidityProofHash : ℕ → ℕ → Bytes
  /-- by the public keys of slots -/
  verifyBLSPartialSignature : Bytes → Bytes → List (ℕ × Bytes) → Bool

structure Env (G : Type) where
  roster : Roster
  epochId : ℕ
  tSlotsDegree : ℕ
  dealingPhaseDurationBlocks : ℕ
  verificationPhaseDurationBlocks : ℕ
  disputePhaseDurationBlocks : ℕ
  crypto : Crypto G

inductive DkgError where
  | wrongPhase
  | deadlinePassed
  | notParticipant
  | alreadySubmitted
  | wrongLength
  | wrongShape
  | invalidProofs
  | duplicateComplaint
  | missingEvidence
  | invalidComplaint
  | complaintExists
  | notDealer
  | noResponses
  | complaintNotFound
  | alreadyAnswered

section

variable {G : Type} [AddCommMonoid G] (env : Env G)

abbrev Env.participants : List BLSParticipantInfo := env.roster.participants

abbrev Env.iTotalSlots : ℕ := env.roster.iTotalSlots

def Env.slotsOf (sel : ℕ → Bool) : ℕ :=
  Weights.weigh (env.participants.map BLSParticipantInfo.slots) sel

def Env.participantIndex (creator : Address) : Option ℕ :=
  env.participants.findIdx? fun p => p.address = creator

def initiateKeyGenerationForEpoch (height : ℕ) : EpochBLSData where
  dkgPhase := .dealing
  dealingPhaseDeadlineBlock := height + env.dealingPhaseDurationBlocks
  verifyingPhaseDeadlineBlock :=
    height + env.dealingPhaseDurationBlocks + env.verificationPhaseDurationBlocks

structure MsgSubmitDealerPart where
  creator : Address
  commitments : List Bytes
  encryptedSharesForParticipants : List (List Bytes)

def validateEncryptedSharesShape (p : BLSParticipantInfo) (encryptedShares : List Bytes) : Bool :=
  encryptedShares.length = expectedEncryptedSharesCount p

def submitDealerPart (height : ℕ) (msg : MsgSubmitDealerPart) (d : EpochBLSData) :
    Except DkgError EpochBLSData :=
  if d.dkgPhase ≠ .dealing then .error .wrongPhase
  else if d.dealingPhaseDeadlineBlock < height then .error .deadlinePassed
  else match env.participantIndex msg.creator with
    | none => .error .notParticipant
    | some i =>
      if (d.dealerPart i).dealerAddress ≠ [] then .error .alreadySubmitted
      else if msg.encryptedSharesForParticipants.length ≠ env.participants.length then
        .error .wrongLength
      else if msg.commitments.length ≠ env.tSlotsDegree + 1 then .error .wrongLength
      else if ¬ (env.participants.zip msg.encryptedSharesForParticipants).all
          (fun e => validateEncryptedSharesShape e.1 e.2) then .error .wrongShape
      else .ok { d with
        dealerParts := d.dealerParts.insert i
          ⟨msg.creator, msg.commitments, msg.encryptedSharesForParticipants⟩ }

/-! ### Verifying -/

structure VerificationDealerComplaint where
  dealerIndex : ℕ
  disputedSlotIndex : ℕ
  disputedCiphertextIndex : ℕ

structure DealerValidityProof where
  dealerIndex : ℕ
  proofSignature : Bytes

structure MsgSubmitVerificationVector where
  creator : Address
  dealerValidity : List Bool
  dealerValidityProofs : List DealerValidityProof
  dealerComplaints : List VerificationDealerComplaint

def Env.point (commitment : Bytes) : Option G :=
  (env.crypto.uncompress commitment).filter env.crypto.inG2

def Env.slotPublicKey (points : List G) (slot : ℕ) : Bytes :=
  env.crypto.compress
    (points.zipIdx.map fun e => ((slot + 1) ^ e.2 % env.crypto.order) • e.1).sum

def buildDealerSlotPublicKeysForSlots (commitments : List Bytes) (slotIndices : List ℕ) :
    Option (List (ℕ × Bytes)) :=
  if commitments = [] then none
  else do
    let points ← commitments.mapM env.point
    if slotIndices.all (· < env.iTotalSlots) then
      some (slotIndices.map fun slot => (slot, env.slotPublicKey points slot))
    else none

def verifyDealerValidityProof (d : EpochBLSData) (dealerIndex : ℕ) (slotIndices : List ℕ)
    (proofSignature : Bytes) : Bool :=
  match buildDealerSlotPublicKeysForSlots env (d.dealerPart dealerIndex).commitments slotIndices with
  | none => false
  | some slotPublicKeys =>
    env.crypto.verifyBLSPartialSignature proofSignature
      (env.crypto.buildDealerValidityProofHash env.epochId dealerIndex) slotPublicKeys

def participantSlotIndices (participantIndex : ℕ) : List ℕ :=
  match env.participants[participantIndex]? with
  | none => []
  | some p => (List.range p.slots).map (p.slotStartIndex + ·)

/-- `validateDealerValidityProofs`: one proof for each dealer that is marked valid, with or
without one for oneself. -/
def validateDealerValidityProofs (msg : MsgSubmitVerificationVector) (d : EpochBLSData)
    (participantIndex : ℕ) : Bool :=
  let marked (dealer : ℕ) := msg.dealerValidity.getD dealer false
  let trueNonSelfDealerCount :=
    ((List.range msg.dealerValidity.length).filter fun i => marked i && i ≠ participantIndex).length
  let maxProofCount := trueNonSelfDealerCount + if marked participantIndex then 1 else 0
  decide (trueNonSelfDealerCount ≤ msg.dealerValidityProofs.length) &&
  decide (msg.dealerValidityProofs.length ≤ maxProofCount) &&
  msg.dealerValidityProofs.all (fun proof => decide (proof.dealerIndex < env.participants.length) &&
    decide (proof.proofSignature ≠ []) && marked proof.dealerIndex) &&
  decide (msg.dealerValidityProofs.map DealerValidityProof.dealerIndex).Nodup &&
  (List.range msg.dealerValidity.length).all fun dealer =>
    !marked dealer || decide (dealer = participantIndex) ||
      match msg.dealerValidityProofs.find? (fun proof => proof.dealerIndex = dealer) with
      | none => false
      | some proof => verifyDealerValidityProof env d dealer
          (participantSlotIndices env participantIndex) proof.proofSignature

/-- The place of a ciphertext among those of its slot, if it is one of them: the index of the
key it is for. -/
def ciphertextKey (p : BLSParticipantInfo) (encryptedShares : List Bytes) (slot ciphertext : ℕ) :
    Option ℕ :=
  if encryptedShares = [] ∨ encryptedShares.length % p.slots ≠ 0 then none
  else if slot < p.slotStartIndex ∨ p.slotEndIndex < slot then none
  else
    let keysPerSlot := encryptedShares.length / p.slots
    let slotStart := (slot - p.slotStartIndex) * keysPerSlot
    if ciphertext < slotStart ∨ slotStart + keysPerSlot ≤ ciphertext then none
    else some (ciphertext - slotStart)

def validateComplaintIndices (d : EpochBLSData) (dealerIndex complainerIndex : ℕ)
    (complaint : VerificationDealerComplaint) : Bool :=
  match env.participants[complainerIndex]? with
  | none => false
  | some p =>
    decide (dealerIndex ≠ complainerIndex) &&
      match (d.dealerPart dealerIndex).participantShares[complainerIndex]? with
      | none => false
      | some encryptedShares =>
        (ciphertextKey p encryptedShares complaint.disputedSlotIndex
          complaint.disputedCiphertextIndex).isSome

def requiresEvidence (d : EpochBLSData) (dealerIndex participantIndex : ℕ) : Bool :=
  let dealerPart := d.dealerPart dealerIndex
  decide (dealerPart.dealerAddress ≠ []) &&
  decide (dealerPart.commitments.length = env.tSlotsDegree + 1) &&
  match dealerPart.participantShares[participantIndex]?, env.participants[participantIndex]? with
  | some encryptedShares, some p =>
    decide (encryptedShares ≠ []) && validateEncryptedSharesShape p encryptedShares
  | _, _ => false

/-- One turn of the loop of `SubmitVerificationVector`: the evidence for a vote against a
dealer. -/
def recordComplaint (msg : MsgSubmitVerificationVector) (participantIndex : ℕ) (d : EpochBLSData)
    (dealerIndex : ℕ) : Except DkgError EpochBLSData :=
  if msg.dealerValidity.getD dealerIndex false then .ok d
  else match msg.dealerComplaints.find? (fun c => c.dealerIndex = dealerIndex) with
    | none =>
      if requiresEvidence env d dealerIndex participantIndex then .error .missingEvidence else .ok d
    | some complaint =>
      if !validateComplaintIndices env d dealerIndex participantIndex complaint then
        .error .invalidComplaint
      else if (d.dealerComplaints.get? (toLex (dealerIndex, participantIndex))).isSome then
        .error .complaintExists
      else .ok { d with
        dealerComplaints := d.dealerComplaints.insert (toLex (dealerIndex, participantIndex))
          { dealerIndex := dealerIndex
            complainerIndex := participantIndex
            disputedSlotIndex := complaint.disputedSlotIndex
            disputedCiphertextIndex := complaint.disputedCiphertextIndex } }

def submitVerificationVector (height : ℕ) (msg : MsgSubmitVerificationVector) (d : EpochBLSData) :
    Except DkgError EpochBLSData :=
  if d.dkgPhase ≠ .verifying then .error .wrongPhase
  else if d.verifyingPhaseDeadlineBlock < height then .error .deadlinePassed
  else match env.participantIndex msg.creator with
    | none => .error .notParticipant
    | some i =>
      if d.submission i ≠ [] then .error .alreadySubmitted
      else if msg.dealerValidity.length ≠ env.participants.length then .error .wrongLength
      else if !validateDealerValidityProofs env msg d i then .error .invalidProofs
      else if ¬ (msg.dealerComplaints.map VerificationDealerComplaint.dealerIndex).Nodup then
        .error .duplicateComplaint
      else (List.range msg.dealerValidity.length).foldlM (recordComplaint env msg i)
        { d with verificationSubmissions := d.verificationSubmissions.insert i msg.dealerValidity }

/-! ### Disputing -/

structure DealerComplaintResponse where
  complainerIndex : ℕ
  responseShareBytes : Bytes
  responseOpeningMaterial : Bytes

structure MsgRespondDealerComplaints where
  creator : Address
  dealerIndex : ℕ
  responses : List DealerComplaintResponse

def dkgShareBytesLen : ℕ := 32
def dkgOpeningSeedLen : ℕ := 32

/-- One turn of the loop of `RespondDealerComplaints`. -/
def recordResponse (dealerIndex : ℕ) (d : EpochBLSData) (response : DealerComplaintResponse) :
    Except DkgError EpochBLSData :=
  if env.participants.length ≤ response.complainerIndex then .error .notParticipant
  else if response.responseShareBytes.length ≠ dkgShareBytesLen ∨
      response.responseOpeningMaterial.length ≠ dkgOpeningSeedLen then .error .wrongLength
  else match d.dealerComplaints.get? (toLex (dealerIndex, response.complainerIndex)) with
    | none => .error .complaintNotFound
    | some complaint =>
      if complaint.responseSubmitted then .error .alreadyAnswered
      else .ok { d with
        dealerComplaints := d.dealerComplaints.insert (toLex (dealerIndex, response.complainerIndex))
          { complaint with
            responseSubmitted := true
            responseShareBytes := response.responseShareBytes
            responseOpeningMaterial := response.responseOpeningMaterial } }

def respondDealerComplaints (height : ℕ) (msg : MsgRespondDealerComplaints) (d : EpochBLSData) :
    Except DkgError EpochBLSData :=
  if d.dkgPhase ≠ .disputing then .error .wrongPhase
  else if d.disputingPhaseDeadlineBlock ≤ height then .error .deadlinePassed
  else match env.participants[msg.dealerIndex]? with
    | none => .error .notParticipant
    | some dealer =>
      if dealer.address ≠ msg.creator then .error .notDealer
      else if msg.responses = [] then .error .noResponses
      else msg.responses.foldlM (recordResponse env msg.dealerIndex) d

def verifyDealerComplaintResponse (d : EpochBLSData) (complaint : DealerComplaint) : Bool :=
  complaint.responseSubmitted &&
  decide (complaint.responseShareBytes.length = dkgShareBytesLen) &&
  decide (complaint.responseOpeningMaterial.length = dkgOpeningSeedLen) &&
  let dealerPart := d.dealerPart complaint.dealerIndex
  match env.participants[complaint.complainerIndex]?,
      dealerPart.participantShares[complaint.complainerIndex]? with
  | some complainer, some participantShares =>
    let allowedKeys := buildAllowedSecp256k1Keys complainer
    decide (participantShares.length / complainer.slots = allowedKeys.length) &&
    match ciphertextKey complainer participantShares complaint.disputedSlotIndex
        complaint.disputedCiphertextIndex with
    | none => false
    | some keyIndex =>
      match env.crypto.encryptWithSeedForParticipant complaint.responseShareBytes
          (allowedKeys.getD keyIndex []) complaint.responseOpeningMaterial with
      | none => false
      | some reencryptedCiphertext =>
        decide (participantShares[complaint.disputedCiphertextIndex]? = some reencryptedCiphertext) &&
          env.crypto.verifyShareAgainstCommitments complaint.responseShareBytes
            complaint.disputedSlotIndex dealerPart.commitments
  | _, _ => false

def Env.inRange (complaint : DealerComplaint) : Bool :=
  decide (complaint.dealerIndex < env.participants.length) &&
    decide (complaint.complainerIndex < env.participants.length)

/-- `adjudicateDealerComplaints`: the dealers at fault, and the complaints that were false. -/
def adjudicateDealerComplaints (d : EpochBLSData) : List ℕ × List DealerComplaint :=
  let complaints := (d.dealerComplaints.entries.map Prod.snd).filter env.inRange
  ((complaints.filter fun c => !verifyDealerComplaintResponse env d c).map DealerComplaint.dealerIndex,
    complaints.filter fun c => verifyDealerComplaintResponse env d c)

def falseComplainers (falseComplaints : List DealerComplaint) (dealerIndex : ℕ) : List ℕ :=
  (falseComplaints.filter fun c => c.dealerIndex = dealerIndex).map DealerComplaint.complainerIndex

def applyComplaintFaultMaps (validDealers : List Bool) (dealerFaults complainerFaults : List ℕ) :
    List Bool :=
  validDealers.mapIdx fun i valid => valid && !dealerFaults.contains i && !complainerFaults.contains i

/-! ### Phases -/

def EpochBLSData.votes (d : EpochBLSData) (verifier dealer : ℕ) : Bool :=
  (d.submission verifier).getD dealer false

/-- One turn of the loop of `determineValidDealersWithConsensus`.  The slots of excluded verifiers
count neither for nor against; the dealer's own slots count for it. -/
def dealerIsValid (d : EpochBLSData) (excludedVerifiers : List ℕ) (dealer : ℕ) : Bool :=
  let effectiveTotalSlots := env.iTotalSlots - env.slotsOf excludedVerifiers.contains
  let dealerOwnSlots := (env.participants.map BLSParticipantInfo.slots).getD dealer 0
  let validVotingSlots := dealerOwnSlots + env.slotsOf fun verifier =>
    !excludedVerifiers.contains verifier && !decide (verifier = dealer) && d.votes verifier dealer
  decide (0 < effectiveTotalSlots) && decide (effectiveTotalSlots / 2 + 1 ≤ validVotingSlots) &&
    decide ((d.dealerPart dealer).dealerAddress ≠ []) &&
    decide ((d.dealerPart dealer).commitments ≠ [])

def determineValidDealersWithConsensus (d : EpochBLSData) (excludedByDealer : ℕ → List ℕ) :
    Option (List Bool) :=
  if env.participants = [] then none
  else some ((List.range env.participants.length).map fun dealer =>
    dealerIsValid env d (excludedByDealer dealer) dealer)

/-- `sumDealerSlots`, a `uint32`. -/
def sumDealerSlots (validDealers : List Bool) : ℕ :=
  env.slotsOf (fun i => validDealers.getD i false) % 2 ^ 32

def aggregateG2Points (points : List Bytes) : Option Bytes :=
  (points.mapM env.point).map fun ps => env.crypto.compress ps.sum

/-- `ComputeGroupPublicKey`; dealers without commitments are passed over. -/
def computeGroupPublicKey (d : EpochBLSData) (validDealers : List Bool) : Option Bytes :=
  let dealers := (List.range validDealers.length).filter fun i => validDealers.getD i false
  let commitments := dealers.filterMap fun i => (d.dealerPart i).commitments.head?
  if commitments = [] then none else aggregateG2Points env commitments

def precomputeSlotPublicKeys (d : EpochBLSData) (validDealers : List Bool) : Option (List Bytes) := do
  let dealers := (List.range validDealers.length).filter fun i =>
    validDealers.getD i false && decide ((d.dealerPart i).commitments ≠ [])
  let active ← dealers.mapM fun i => (d.dealerPart i).commitments.mapM env.crypto.uncompress
  let maxCoeffs := (active.map List.length).foldl max 0
  let totalCommitments := (List.range maxCoeffs).map fun j => (active.filterMap (·[j]?)).sum
  some ((List.range env.iTotalSlots).map fun slot =>
    if active = [] then [] else env.slotPublicKey totalCommitments slot)

def markDKGAsFailed (d : EpochBLSData) : EpochBLSData := { d with dkgPhase := .failed }

/-- `TransitionToVerifyingPhase`, with `CalculateSlotsWithDealerParts`. -/
def transitionToVerifyingPhase (height : ℕ) (d : EpochBLSData) : EpochBLSData :=
  let slotsWithDealerParts :=
    env.slotsOf (fun i => decide ((d.dealerPart i).dealerAddress ≠ [])) % 2 ^ 32
  if env.iTotalSlots / 2 < slotsWithDealerParts then
    { d with
      dkgPhase := .verifying
      verifyingPhaseDeadlineBlock := height + env.verificationPhaseDurationBlocks }
  else markDKGAsFailed d

/-- `transitionFromVerifyingToDisputing`, with `CalculateSlotsWithVerificationVectors`. -/
def transitionFromVerifyingToDisputing (height : ℕ) (d : EpochBLSData) : EpochBLSData :=
  let slotsWithVerification := env.slotsOf (fun i => decide (d.submission i ≠ [])) % 2 ^ 32
  if slotsWithVerification ≤ env.iTotalSlots / 2 then markDKGAsFailed d
  else match determineValidDealersWithConsensus env d (fun _ => []) with
    | none => markDKGAsFailed d
    | some candidateValidDealers =>
      { d with
        candidateValidDealers := candidateValidDealers
        dkgPhase := .disputing
        disputingPhaseDeadlineBlock := height + env.disputePhaseDurationBlocks }

def finalizeDisputingPhase (d : EpochBLSData) : EpochBLSData :=
  let (dealerFaults, falseComplaints) := adjudicateDealerComplaints env d
  match determineValidDealersWithConsensus env d (falseComplainers falseComplaints) with
  | none => markDKGAsFailed d
  | some candidateValidDealers =>
    let d := { d with candidateValidDealers := candidateValidDealers }
    let finalValidDealers := applyComplaintFaultMaps candidateValidDealers dealerFaults
      (falseComplaints.map DealerComplaint.complainerIndex)
    if sumDealerSlots env finalValidDealers ≤ env.iTotalSlots / 2 then markDKGAsFailed d
    else match computeGroupPublicKey env d finalValidDealers with
      | none => markDKGAsFailed d
      | some groupPublicKey =>
        match precomputeSlotPublicKeys env d finalValidDealers with
        | none => markDKGAsFailed
            { d with groupPublicKey := groupPublicKey, validDealers := finalValidDealers }
        | some slotPublicKeys =>
          { d with
            groupPublicKey := groupPublicKey
            dkgPhase := .completed
            validDealers := finalValidDealers
            slotPublicKeys := slotPublicKeys }

def processDKGPhaseTransition (height : ℕ) (d : EpochBLSData) : EpochBLSData :=
  match d.dkgPhase with
  | .dealing =>
    if d.dealingPhaseDeadlineBlock ≤ height then transitionToVerifyingPhase env height d else d
  | .verifying =>
    if d.verifyingPhaseDeadlineBlock ≤ height then transitionFromVerifyingToDisputing env height d
    else d
  | .disputing =>
    if d.disputingPhaseDeadlineBlock ≤ height then finalizeDisputingPhase env d else d
  | _ => d

structure Chain where
  data : EpochBLSData
  height : ℕ

inductive Event where
  | dealerPart (msg : MsgSubmitDealerPart)
  | verification (msg : MsgSubmitVerificationVector)
  | respond (msg : MsgRespondDealerComplaints)
  | endBlock (skipped : ℕ)

def commit (d : EpochBLSData) : Except DkgError EpochBLSData → EpochBLSData
  | .error _ => d
  | .ok d => d

def step : Event → Chain → Chain
  | .dealerPart msg, c => { c with data := commit c.data (submitDealerPart env c.height msg c.data) }
  | .verification msg, c =>
    { c with data := commit c.data (submitVerificationVector env c.height msg c.data) }
  | .respond msg, c =>
    { c with data := commit c.data (respondDealerComplaints env c.height msg c.data) }
  | .endBlock skipped, c =>
    ⟨processDKGPhaseTransition env c.height c.data, c.height + 1 + skipped⟩

end

end Dkg
