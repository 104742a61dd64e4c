/-
The escrow of the bridge, and the outcome of every mint.

The signing requests and the messages kept for refunds live in two modules, and hooks that may
fail keep them in step.  What holds all the time is `Ledger`: a message is kept only for a
request that is not cancelled, and a mint is completed, or kept, or refunded once with its
request cancelled; and the coins of the escrow are what the mints brought in and neither
refunds nor releases took out.  Every micro-step of the BLS module keeps it, with any hooks
failing, and so do the messages of the bridge.

Coins that are paid from the escrow to the escrow itself stay there: a release or a refund may
name any account that is not blocked, and the escrow is not.

Main results: `bridge_escrow_conserved`, `release_to_escrow_counts_twice`.
-/
import Gonka.Bls.SigningSound
import Gonka.Bridge.Operations

namespace Bridge

open OrdMap Option ThresholdSigning

open Relation (ReflTransGen)
open ThresholdSigning (RequestId Address World Hooks SigningData Store Sound Change Micro Micros Moves
  ThresholdSigningRequest Status Advances)

def statusOf (s : Store) (id : RequestId) : Option Status := (s.requests.get? id).map (·.status)

variable {id : RequestId}

theorem statusOf_eq {s : Store} {r : ThresholdSigningRequest}
    (h : s.requests.get? id = some r) : statusOf s id = some r.status := by
  unfold statusOf
  rw [h]
  rfl

theorem statusOf_storeRequest (s : Store) (r : ThresholdSigningRequest) (id : RequestId) :
    statusOf (s.storeRequest r) id = if id = r.requestId then some r.status else statusOf s id := by
  unfold statusOf
  rw [Store.get?_storeRequest]
  split <;> rfl

theorem Change.status {senv : ThresholdSigning.Env} {height : ℕ} {s s' : Store}
    (hc : Change senv height s s') (h : Sound senv s) {st : Status}
    (hst : statusOf s id = some st) :
    ∃ st', statusOf s' id = some st' ∧ (st' = .cancelled ↔ st = .cancelled) ∧
      (st = .completed → st' = .completed) := by
  obtain ⟨r₀, hget, rfl⟩ := map_eq_some_iff.mp hst
  rcases hc.updates h with ⟨r, hu, -, hnext, hnot⟩ | ⟨hrequests, -⟩
  · by_cases hid : id = r.requestId
    · subst hid
      obtain ⟨-, hcompleted, hcancelled⟩ := hnext r₀ hget
      refine ⟨r.status, ?_, ⟨fun h' => absurd h' hnot, fun h' => absurd h' hcancelled⟩,
        fun h' => absurd h' hcompleted⟩
      exact statusOf_eq (by rw [hu.requests, if_pos rfl])
    · refine ⟨r₀.status, statusOf_eq ?_, Iff.rfl, fun h => h⟩
      rw [hu.requests, if_neg hid, hget]
  · exact ⟨r₀.status, statusOf_eq (by rw [hrequests, hget]), Iff.rfl, fun h => h⟩

/-! ### The ledger -/

def Mint.paid (m : Mint) : ℕ := (m.refunds.map (·.2)).sum

/-- The request is there and not cancelled. -/
def Open (s : Store) (id : RequestId) : Prop := ∃ st, statusOf s id = some st ∧ st ≠ .cancelled

/-- The message that is kept tells the amount that was taken, and who paid it. -/
structure Matches (env : Env) (msg : MsgRequestBridgeMint) (m : Mint) : Prop where
  amount : env.newIntFromString msg.amount = some (m.amount : ℤ)
  account : env.accAddressFromBech32 msg.creator = some m.account
  receives : env.blockedAddr m.account = false

/-- The mint is completed, or its message kept. -/
def Unpaid (w : World State) (id : RequestId) (m : Mint) : Prop :=
  m.refunds = [] ∧
    (statusOf w.store id = some .completed ∨ ∃ msg, w.app.mintRefunds.get? id = some msg)

/-- The mint is refunded, once and in full, and its request cancelled. -/
def Refunded (w : World State) (id : RequestId) (m : Mint) : Prop :=
  statusOf w.store id = some .cancelled ∧ id ∈ w.app.refunded ∧
    ∃ recipient, m.refunds = [(recipient, m.amount)]

/-- **What holds between the two modules.** -/
structure Ledger (env : Env) (w : World State) : Prop where
  sound : Sound env.signing w.store
  pendingMint : ∀ id msg, w.app.mintRefunds.get? id = some msg →
    Open w.store id ∧ ∃ m, w.app.mints.get? id = some m ∧ Matches env msg m
  pendingWithdrawal : ∀ id msg, w.app.withdrawalRefunds.get? id = some msg →
    Open w.store id ∧ w.app.mints.get? id = none
  mint : ∀ id m, w.app.mints.get? id = some m → 0 < m.amount ∧ (Unpaid w id m ∨ Refunded w id m)
  refunded : ∀ id ∈ w.app.refunded, statusOf w.store id = some .cancelled
  nodup : w.app.refunded.Nodup
  balance : Bank.balance w.app.balances env.escrow + w.app.released +
      w.app.mints.sum (fun _ m => m.paid) =
    w.app.mints.sum (fun _ m => m.amount) + w.app.paidToEscrow

structure Entry (env : Env) (w : World State) (id : RequestId) : Prop where
  pendingMint : ∀ msg, w.app.mintRefunds.get? id = some msg →
    Open w.store id ∧ ∃ m, w.app.mints.get? id = some m ∧ Matches env msg m
  pendingWithdrawal : ∀ msg, w.app.withdrawalRefunds.get? id = some msg →
    Open w.store id ∧ w.app.mints.get? id = none
  mint : ∀ m, w.app.mints.get? id = some m → 0 < m.amount ∧ (Unpaid w id m ∨ Refunded w id m)
  refunded : id ∈ w.app.refunded → statusOf w.store id = some .cancelled

structure SameAt (w w' : World State) (id : RequestId) : Prop where
  status : statusOf w'.store id = statusOf w.store id
  mintRefunds : w'.app.mintRefunds.get? id = w.app.mintRefunds.get? id
  withdrawalRefunds : w'.app.withdrawalRefunds.get? id = w.app.withdrawalRefunds.get? id
  mints : w'.app.mints.get? id = w.app.mints.get? id
  refunded : id ∈ w'.app.refunded ↔ id ∈ w.app.refunded

/-- A step of an event that requests no mint. -/
inductive Quiet (env : Env) (height : ℕ) : World State → World State → Prop
  | change {s s' b} (h : Change env.signing height s s') : Quiet env height ⟨s, b⟩ ⟨s', b⟩
  | cleanup {s b b' id} (hst : statusOf s id = some .completed)
      (h : cleanupBridgePendingRefundByBlsRequestID id b = some b') :
      Quiet env height ⟨s, b⟩ ⟨s, b'⟩
  | refundMint {s b b' id request msg msg'} (hget : s.requests.get? id = some request)
      (hended : request.status = .failed ∨ request.status = .expired)
      (hkept : b.mintRefunds.get? id = some msg) (hamount : msg'.amount = msg.amount)
      (h : refundPendingBridgeMintFromEscrow env id msg' b = some b') :
      Quiet env height ⟨s, b⟩ ⟨s.storeRequest { request with status := .cancelled },
        { b' with mintRefunds := b'.mintRefunds.erase id }⟩
  | refundWithdrawal {s b b' out id request msg msg'} (hget : s.requests.get? id = some request)
      (hended : request.status = .failed ∨ request.status = .expired)
      (hkept : b.withdrawalRefunds.get? id = some msg)
      (h : refundPendingBridgeWithdrawalByMint env out id msg' b = some b') :
      Quiet env height ⟨s, b⟩
        ⟨s.storeRequest { request with status := .cancelled }, dropWithdrawal id b'⟩
  | requestWithdrawal {out msg txBytes w w'}
      (h : requestBridgeWithdrawal env out height msg txBytes w = some w') : Quiet env height w w'
  | release {s b b' ownerAddress amount}
      (h : handleNativeTokenRelease env ownerAddress amount b = some b') :
      Quiet env height ⟨s, b⟩ ⟨s, b'⟩

section

variable {env : Env} {out : Outside} {height : ℕ} {s s' : Store} {b b' : State}

variable {w w' : World State} {m : Mint} {msg : MsgRequestBridgeMint}
  {request : ThresholdSigningRequest} {txBytes : Bytes} {c : Chain}

theorem Entry.congr (h : Entry env w id) (hsame : SameAt w w' id) : Entry env w' id := by
  obtain ⟨hstatus, hmsg, hmsg', hm, hin⟩ := hsame
  obtain ⟨hpending, hwithdrawal, hmint, hrefunded⟩ := h
  simp only [Open, Unpaid, Refunded, ← hstatus, ← hmsg, ← hmsg', ← hm, ← hin] at *
  exact ⟨hpending, hwithdrawal, hmint, hrefunded⟩

theorem Ledger.update (h : Ledger env w) (id : RequestId) (hsound : Sound env.signing w'.store)
    (hothers : ∀ id', id' ≠ id → SameAt w w' id') (hentry : Entry env w' id)
    (hnodup : w'.app.refunded.Nodup)
    (hbalance : Bank.balance w'.app.balances env.escrow + w'.app.released +
        w'.app.mints.sum (fun _ m => m.paid) =
      w'.app.mints.sum (fun _ m => m.amount) + w'.app.paidToEscrow) : Ledger env w' := by
  have hentries : ∀ id', Entry env w' id' := by
    intro id'
    by_cases hid : id' = id
    · exact hid ▸ hentry
    · exact Entry.congr ⟨h.pendingMint id', h.pendingWithdrawal id', h.mint id', h.refunded id'⟩
        (hothers id' hid)
  exact ⟨hsound, fun id' => (hentries id').pendingMint, fun id' => (hentries id').pendingWithdrawal,
    fun id' => (hentries id').mint, fun id' => (hentries id').refunded, hnodup, hbalance⟩

theorem Ledger.known (h : Ledger env w)
    (hm : w.app.mints.get? id = some m) : (statusOf w.store id).isSome := by
  rcases (h.mint id m hm).2 with ⟨-, hst | ⟨msg, hmsg⟩⟩ | ⟨hst, -⟩
  · rw [hst]
    rfl
  · obtain ⟨_, hst, -⟩ := (h.pendingMint id msg hmsg).1
    rw [hst]
    rfl
  · rw [hst]
    rfl

theorem Ledger.unrecorded (h : Ledger env w)
    (hnew : w.store.requests.get? id = none) : w.app.mints.get? id = none := by
  rw [eq_none_iff_forall_ne_some]
  intro m hm
  have hknown := h.known hm
  unfold statusOf at hknown
  rw [hnew] at hknown
  nomatch hknown

variable (h : Ledger env ⟨s, b⟩) (hget : s.requests.get? id = some request)
  (hstatus : request.status = .failed ∨ request.status = .expired)

include h in
theorem Ledger.change (hc : Change env.signing height s s') : Ledger env ⟨s', b⟩ := by
  have hopen : ∀ id, Open s id → Open s' id := by
    rintro _ ⟨_, hst, hnot⟩
    obtain ⟨st', hst', hiff, -⟩ := Change.status hc h.sound hst
    exact ⟨st', hst', fun hcancelled => hnot (hiff.mp hcancelled)⟩
  have hcancelled : ∀ id, statusOf s id = some .cancelled → statusOf s' id = some .cancelled := by
    intro id hst
    obtain ⟨_, hst', hiff, -⟩ := Change.status hc h.sound hst
    rw [hst', hiff.mpr rfl]
  have hcompleted : ∀ id, statusOf s id = some .completed → statusOf s' id = some .completed := by
    intro id hst
    obtain ⟨_, hst', -, hkeep⟩ := Change.status hc h.sound hst
    rw [hst', hkeep rfl]
  refine ⟨((ThresholdSigning.Move.change hc).sound h.sound).1, ?_, ?_, ?_, ?_, h.nodup, h.balance⟩
  · intro id msg hmsg
    obtain ⟨ho, hm⟩ := h.pendingMint id msg hmsg
    exact ⟨hopen id ho, hm⟩
  · intro id msg hmsg
    obtain ⟨ho, hm⟩ := h.pendingWithdrawal id msg hmsg
    exact ⟨hopen id ho, hm⟩
  · intro id m hm
    obtain ⟨hpos, ⟨hnone, hst | hkept⟩ | ⟨hst, hpaid⟩⟩ := h.mint id m hm
    · exact ⟨hpos, .inl ⟨hnone, .inl (hcompleted id hst)⟩⟩
    · exact ⟨hpos, .inl ⟨hnone, .inr hkept⟩⟩
    · exact ⟨hpos, .inr ⟨hcancelled id hst, hpaid⟩⟩
  · intro id hid
    exact hcancelled id (h.refunded id hid)

theorem releaseFromEscrow_spec {recipient : Address} {n : ℕ}
    (h : releaseFromEscrow env recipient n b = some b') :
    ∃ balances paidToEscrow, b' = { b with balances := balances, paidToEscrow := paidToEscrow } ∧
      Bank.balance balances env.escrow + n + b.paidToEscrow =
        Bank.balance b.balances env.escrow + paidToEscrow := by
  unfold releaseFromEscrow at h
  split at h
  · nomatch h
  obtain ⟨balances, hsend, rfl⟩ := map_eq_some_iff.mp h
  refine ⟨balances, _, rfl, ?_⟩
  have hbalance := Bank.balance_send hsend env.escrow
  rw [if_pos rfl] at hbalance
  by_cases hself : recipient = env.escrow
  · rw [if_pos hself.symm] at hbalance
    rw [if_pos hself]
    omega
  · rw [if_neg (Ne.symm hself)] at hbalance
    rw [if_neg hself]
    omega

theorem refundPendingBridgeMintFromEscrow_spec
    (h : refundPendingBridgeMintFromEscrow env id msg b = some b') :
    ∃ recipient n balances paidToEscrow, env.newIntFromString msg.amount = some ((n : ℕ) : ℤ) ∧
      b' = { b with
        balances := balances
        paidToEscrow := paidToEscrow
        mints := b.mints.modify id fun m => { m with refunds := (recipient, n) :: m.refunds }
        refunded := id :: b.refunded } ∧
      Bank.balance balances env.escrow + n + b.paidToEscrow =
        Bank.balance b.balances env.escrow + paidToEscrow := by
  simp only [refundPendingBridgeMintFromEscrow, bind_eq_bind, bind_eq_some_iff] at h
  obtain ⟨recipient, -, amountInt, hamount, h⟩ := h
  split at h
  · nomatch h
  next hpos =>
  obtain ⟨_, hrelease, rfl⟩ := map_eq_some_iff.mp h
  obtain ⟨balances, paidToEscrow, rfl, hbalance⟩ := releaseFromEscrow_spec hrelease
  refine ⟨recipient, amountInt.toNat, balances, paidToEscrow, ?_, rfl, hbalance⟩
  rw [hamount, Int.toNat_of_nonneg (by omega)]

theorem refundPendingBridgeWithdrawalByMint_spec {msg : MsgRequestBridgeWithdrawal}
    (h : refundPendingBridgeWithdrawalByMint env out id msg b = some b') :
    b' = { b with refunded := id :: b.refunded } := by
  simp only [refundPendingBridgeWithdrawalByMint, bind_eq_bind, bind_eq_some_iff] at h
  obtain ⟨_, -, _, -, h⟩ := h
  split at h
  · nomatch h
  · split at h
    · exact (some.inj h).symm
    · nomatch h

theorem statusOf_cancel (hid : request.requestId = id) (id' : RequestId) :
    statusOf (s.storeRequest { request with status := .cancelled }) id' =
      if id' = id then some .cancelled else statusOf s id' := by
  subst hid
  exact statusOf_storeRequest s { request with status := .cancelled } id'

theorem Sound.cancel (h : Sound env.signing s) (hget : s.requests.get? id = some request)
    (hstatus : request.status = .failed ∨ request.status = .expired) :
    Sound env.signing (s.storeRequest { request with status := .cancelled }) := by
  have hget' : s.requests.get? request.requestId = some request := by
    rw [h.keyed id request hget]
    exact hget
  obtain ⟨hu, hr⟩ := cancel_updates h hget' hstatus
  exact hu.sound hr h

section

include h hget hstatus

theorem Ledger.not_refunded : statusOf s id ≠ some .cancelled ∧ id ∉ b.refunded := by
  have hnot : statusOf s id ≠ some .cancelled := by
    rw [statusOf_eq hget]
    rcases hstatus with h | h <;> rw [h] <;> decide
  exact ⟨hnot, fun hin => hnot (h.refunded id hin)⟩

/-- **A mint is refunded, and its request cancelled with it.** -/
theorem Ledger.refundMint {msg' : MsgRequestBridgeMint} (hkept : b.mintRefunds.get? id = some msg)
    (hamount : msg'.amount = msg.amount)
    (hrefund : refundPendingBridgeMintFromEscrow env id msg' b = some b') :
    Ledger env ⟨s.storeRequest { request with status := .cancelled },
      { b' with mintRefunds := b'.mintRefunds.erase id }⟩ := by
  obtain ⟨recipient, n, _, _, hn, rfl, _⟩ :=
    refundPendingBridgeMintFromEscrow_spec hrefund
  have hid := h.sound.keyed id request hget
  obtain ⟨hcancelled, hnew⟩ := h.not_refunded hget hstatus
  obtain ⟨-, m, hm, hmatches⟩ := h.pendingMint id msg hkept
  -- what is paid is what was taken, and nothing was paid before
  have hn' : n = m.amount := by
    rw [hamount, hmatches.amount] at hn
    exact_mod_cast (some.inj hn).symm
  have hnone : m.refunds = [] := by
    rcases (h.mint id m hm).2 with ⟨hnone, -⟩ | ⟨hst, -⟩
    · exact hnone
    · exact absurd hst hcancelled
  refine h.update id (Sound.cancel h.sound hget hstatus) (fun id' hne => ⟨?_, ?_, rfl, ?_, ?_⟩)
    ⟨?_, ?_, ?_, ?_⟩ (List.nodup_cons.mpr ⟨hnew, h.nodup⟩) ?_
  · rw [statusOf_cancel hid, if_neg hne]
  · rw [get?_erase, if_neg hne]
  · rw [get?_modify, if_neg hne]
  · simp [hne]
  · intro msg'' hmsg
    rw [get?_erase, if_pos rfl] at hmsg
    nomatch hmsg
  · intro msg'' hmsg
    exact absurd (hm.symm.trans (h.pendingWithdrawal id msg'' hmsg).2) (by simp)
  · intro m' hm'
    rw [get?_modify, if_pos rfl, hm] at hm'
    cases hm'
    refine ⟨(h.mint id m hm).1, .inr ⟨?_, List.mem_cons_self, recipient, ?_⟩⟩
    · rw [statusOf_cancel hid, if_pos rfl]
    · show (recipient, n) :: m.refunds = [(recipient, m.amount)]
      rw [hn', hnone]
  · intro _
    rw [statusOf_cancel hid, if_pos rfl]
  · have hpaid := sum_modify (fun _ m => Mint.paid m)
      (fun m => { m with refunds := (recipient, n) :: m.refunds }) hm
    have htaken := sum_modify (fun _ m => Mint.amount m)
      (fun m => { m with refunds := (recipient, n) :: m.refunds }) hm
    have hbefore := h.balance
    simp only [Mint.paid, hnone, List.map_nil, List.sum_nil, List.map_cons, List.sum_cons] at hpaid
    simp only [Mint.paid] at hbefore htaken ⊢
    omega

theorem Ledger.refundWithdrawal {msg msg' : MsgRequestBridgeWithdrawal}
    (hkept : b.withdrawalRefunds.get? id = some msg)
    (hrefund : refundPendingBridgeWithdrawalByMint env out id msg' b = some b') :
    Ledger env ⟨s.storeRequest { request with status := .cancelled }, dropWithdrawal id b'⟩ := by
  obtain rfl := refundPendingBridgeWithdrawalByMint_spec hrefund
  have hid := h.sound.keyed id request hget
  obtain ⟨-, hnomint⟩ := h.pendingWithdrawal id msg hkept
  refine h.update id (Sound.cancel h.sound hget hstatus) (fun id' hne => ⟨?_, rfl, ?_, rfl, ?_⟩)
    ⟨?_, ?_, ?_, ?_⟩ (List.nodup_cons.mpr ⟨(h.not_refunded hget hstatus).2, h.nodup⟩) h.balance
  · rw [statusOf_cancel hid, if_neg hne]
  · exact (get?_erase _ _ _).trans (if_neg hne)
  · simp [dropWithdrawal, hne]
  · intro msg'' hmsg
    obtain ⟨-, m, hm, -⟩ := h.pendingMint id msg'' hmsg
    exact absurd (hm.symm.trans hnomint) (by simp)
  · intro msg'' hmsg
    rw [dropWithdrawal, get?_erase, if_pos rfl] at hmsg
    nomatch hmsg
  · intro m hm
    exact absurd (hm.symm.trans hnomint) (by simp)
  · intro _
    rw [statusOf_cancel hid, if_pos rfl]

end

include h in
theorem Ledger.cleanup (hst : statusOf s id = some .completed)
    (hb : cleanupBridgePendingRefundByBlsRequestID id b = some b') : Ledger env ⟨s, b'⟩ := by
  unfold cleanupBridgePendingRefundByBlsRequestID at hb
  split at hb
  · nomatch hb
  cases hb
  refine h.update id h.sound (fun id' hne => ⟨rfl, ?_, ?_, rfl, Iff.rfl⟩)
    ⟨?_, ?_, ?_, h.refunded id⟩ h.nodup h.balance
  · exact (get?_erase _ _ _).trans (if_neg hne)
  · exact (get?_erase _ _ _).trans (if_neg hne)
  · intro msg hmsg
    have hmsg' : (b.mintRefunds.erase id).get? id = some msg := hmsg
    rw [get?_erase, if_pos rfl] at hmsg'
    nomatch hmsg'
  · intro msg hmsg
    have hmsg' : (b.withdrawalRefunds.erase id).get? id = some msg := hmsg
    rw [get?_erase, if_pos rfl] at hmsg'
    nomatch hmsg'
  · intro m hm
    obtain ⟨hpos, ⟨hun, -⟩ | hpaid⟩ := h.mint id m hm
    · exact ⟨hpos, .inl ⟨hun, .inl hst⟩⟩
    · exact ⟨hpos, .inr hpaid⟩

theorem processAutoRefund_spec {close : Bool}
    (h : processAutoRefundForFailedBridgeOperation env out id b = some (close, b')) :
    (close = false ∧ b' = b) ∨
    (close = true ∧ ((∃ msg b₁, b.mintRefunds.get? id = some msg ∧
        refundPendingBridgeMintFromEscrow env id msg b = some b₁ ∧
        b' = { b₁ with mintRefunds := b₁.mintRefunds.erase id }) ∨
      ∃ msg msg' b₁, b.withdrawalRefunds.get? id = some msg ∧
        refundPendingBridgeWithdrawalByMint env out id msg' b = some b₁ ∧ b' = dropWithdrawal id b₁)) := by
  unfold processAutoRefundForFailedBridgeOperation at h
  split at h
  · nomatch h
  split at h
  · next msg hmsg =>
    obtain ⟨_, hauto, heq⟩ := map_eq_some_iff.mp h
    cases heq
    obtain ⟨b₁, hrefund, rfl⟩ := map_eq_some_iff.mp hauto
    exact .inr ⟨rfl, .inl ⟨msg, b₁, hmsg, hrefund, rfl⟩⟩
  · split at h
    · next msg hmsg =>
      obtain ⟨_, hauto, heq⟩ := map_eq_some_iff.mp h
      cases heq
      simp only [processAutoRefundWithdrawal, bind_eq_bind, bind_eq_some_iff,
        some.injEq] at hauto
      obtain ⟨_, -, _, -, b₁, hrefund, rfl⟩ := hauto
      exact .inr ⟨rfl, .inr ⟨msg, _, b₁, hmsg, hrefund, rfl⟩⟩
    · cases h
      exact .inl ⟨rfl, rfl⟩

theorem requestSignature_spec (h : Sound env.signing s) (hid : id ≠ []) {epoch : ℕ}
    {data : List Bytes} (hreq : requestSignature env height id epoch data s = some s') :
    Change env.signing height s s' ∧ s.requests.get? id = none ∧ Open s' id := by
  unfold requestSignature at hreq
  split at hreq
  · next hok =>
    cases hreq
    refine ⟨requestThresholdSignature_change hid hok, ?_⟩
    obtain ⟨-, -, ⟨hnew, rfl⟩ | ⟨existing, hget, hended, hattempt, -⟩⟩ :=
      requestThresholdSignature_spec hok
    · refine ⟨hnew, .collecting, ?_, by decide⟩
      show statusOf (s.storeRequest (newRequest env.signing height 1 _)) id = _
      rw [statusOf_storeRequest]
      exact if_pos rfl
    · exact absurd ((h.requests id existing hget).spent hended) (Nat.not_le_of_lt hattempt)
  · nomatch hreq

theorem requestIdHash_ne_nil (requestID : Bytes) : requestIdHash env requestID ≠ [] := by
  intro hnil
  have hlen := env.keccak256_length requestID
  rw [show env.signing.crypto.keccak256 requestID = [] from hnil] at hlen
  nomatch hlen

/-- What `RequestBridgeMint` does when it succeeds. -/
structure Minted (env : Env) (height : ℕ) (msg : MsgRequestBridgeMint) (w w' : World State)
    (id : RequestId) (m : Mint) : Prop where
  named : id ≠ []
  kept : Matches env msg m
  positive : 0 < m.amount
  unpaid : m.refunds = []
  notEscrow : m.account ≠ env.escrow
  sent : Bank.send m.account env.escrow m.amount w.app.balances = some w'.app.balances
  request : ∃ epoch data, requestSignature env height id epoch data w.store = some w'.store
  app : w'.app = { w.app with
    balances := w'.app.balances
    mintRefunds := w.app.mintRefunds.insert id msg
    mints := w.app.mints.insert id m }

theorem requestBridgeMint_spec (h : requestBridgeMint env out height msg txBytes w = some w') :
    ∃ id m, Minted env height msg w w' id m := by
  simp only [requestBridgeMint, bind_eq_bind, bind_eq_some_iff] at h
  obtain ⟨account, haccount, h⟩ := h
  split at h
  · nomatch h
  next hvalid =>
  split at h
  · nomatch h
  simp only [bind_eq_some_iff, some.injEq] at h
  obtain ⟨amountInt, hamount, _, htransfer, epoch, -, _, -, data, -, _, hs, _, hset, rfl⟩ := h
  have hpos : 0 < amountInt := by
    simp only [validateBridgeMintRequest, hamount, Bool.not_eq_true', Bool.not_eq_false,
      Bool.and_eq_true, decide_eq_true_eq] at hvalid
    exact hvalid.1.1
  have hcast : ((amountInt.toNat : ℕ) : ℤ) = amountInt := Int.toNat_of_nonneg hpos.le
  unfold transferToEscrow at htransfer
  split at htransfer
  · nomatch htransfer
  next hsender =>
  obtain ⟨_, hsend, rfl⟩ := map_eq_some_iff.mp htransfer
  obtain ⟨hescrow, hblocked⟩ := not_or.mp hsender
  simp only [setBridgeMintPendingRefund] at hset
  split at hset
  · nomatch hset
  split at hset
  · nomatch hset
  cases hset
  exact ⟨_, ⟨account, amountInt.toNat, []⟩, requestIdHash_ne_nil _,
    ⟨hamount.trans (congrArg some hcast.symm), haccount, by simpa using hblocked⟩,
    by simpa using hpos, rfl, hescrow, hsend, ⟨epoch, data, hs⟩, rfl⟩

/-- **A mint takes its coins, and keeps the message.** -/
theorem Ledger.requestMint (h : Ledger env w)
    (hm : Minted env height msg w w' id m) : Ledger env w' := by
  obtain ⟨hnamed, hkept, hpos, hunpaid, hescrow, hsent, ⟨_, _, hreq⟩, happ⟩ := hm
  obtain ⟨hchange, hnew, hopen⟩ := requestSignature_spec h.sound hnamed hreq
  -- nothing is on record under the new id
  have hnomint := h.unrecorded hnew
  have hnowithdrawal : ∀ msg', w.app.withdrawalRefunds.get? id ≠ some msg' := by
    intro msg' hmsg'
    obtain ⟨_, hst, -⟩ := (h.pendingWithdrawal id msg' hmsg').1
    unfold statusOf at hst
    rw [hnew] at hst
    nomatch hst
  have h' : Ledger env ⟨w'.store, w.app⟩ := h.change hchange
  obtain ⟨_, b'⟩ := w'
  generalize b'.balances = balances at hsent happ
  obtain rfl : b' = _ := happ
  refine h'.update id h'.sound (fun id' hne => ⟨rfl, ?_, rfl, ?_, Iff.rfl⟩)
    ⟨?_, ?_, ?_, h'.refunded id⟩ h'.nodup ?_
  · exact get?_insert_of_ne _ _ hne
  · exact get?_insert_of_ne _ _ hne
  · intro msg' hmsg
    cases (get?_insert_self _ _ _).symm.trans hmsg
    exact ⟨hopen, m, get?_insert_self _ _ _, hkept⟩
  · intro msg' hmsg
    exact absurd hmsg (hnowithdrawal msg')
  · intro m' hm'
    cases (get?_insert_self _ _ _).symm.trans hm'
    exact ⟨hpos, .inl ⟨hunpaid, .inr ⟨msg, get?_insert_self _ _ _⟩⟩⟩
  · have hbalance := Bank.balance_send hsent env.escrow
    rw [if_neg (Ne.symm hescrow), if_pos rfl] at hbalance
    have hbefore := h.balance
    simp only [sum_insert_of_none _ _ hnomint, show m.paid = 0 by rw [Mint.paid, hunpaid]; rfl]
    omega

theorem requestBridgeWithdrawal_spec {msg : MsgRequestBridgeWithdrawal}
    (h : requestBridgeWithdrawal env out height msg txBytes w = some w') :
    ∃ id epoch data refs, id ≠ [] ∧
      requestSignature env height id epoch data w.store = some w'.store ∧
      w'.app = { w.app with
        withdrawalRefunds := w.app.withdrawalRefunds.insert id msg
        withdrawalTokenRefs := refs } := by
  simp only [requestBridgeWithdrawal, bind_eq_bind, bind_eq_some_iff] at h
  obtain ⟨_, -, h⟩ := h
  split at h
  · nomatch h
  simp only [bind_eq_some_iff, some.injEq] at h
  obtain ⟨epoch, -, _, -, data, -, _, hs, _, hset, rfl⟩ := h
  unfold setBridgeWithdrawalPendingRefund at hset
  split at hset
  · nomatch hset
  split at hset
  · nomatch hset
  · cases hset
    exact ⟨_, epoch, data, _, requestIdHash_ne_nil _, hs, rfl⟩

theorem Ledger.requestWithdrawal {msg : MsgRequestBridgeWithdrawal} (h : Ledger env w)
    (hw : requestBridgeWithdrawal env out height msg txBytes w = some w') : Ledger env w' := by
  obtain ⟨_, _, _, _, hid, hreq, happ⟩ := requestBridgeWithdrawal_spec hw
  obtain ⟨hchange, hnew, hopen⟩ := requestSignature_spec h.sound hid hreq
  have hnomint := h.unrecorded hnew
  obtain ⟨hsound, hpending, hwithdrawal, hmint, hrefunded, hnodup, hbalance⟩ := h.change hchange
  obtain ⟨_, b'⟩ := w'
  obtain rfl : b' = _ := happ
  refine ⟨hsound, hpending, ?_, hmint, hrefunded, hnodup, hbalance⟩
  intro id' msg' hmsg
  rw [get?_insert] at hmsg
  split at hmsg
  · next heq =>
    subst heq
    exact ⟨hopen, hnomint⟩
  · exact hwithdrawal id' msg' hmsg

/-- A request that is not cancelled can be cancelled only after it ended. -/
theorem cancelThresholdSigningRequest_spec (hopen : Open s id)
    (h : cancelThresholdSigningRequest id s = some s') :
    ∃ request, s.requests.get? id = some request ∧
      (request.status = .failed ∨ request.status = .expired) ∧
      s' = s.storeRequest { request with status := .cancelled } := by
  unfold cancelThresholdSigningRequest at h
  split at h
  · nomatch h
  split at h
  · nomatch h
  split at h
  · next hok =>
    cases h
    obtain ⟨request, hget, ⟨hcancelled, -⟩ | ⟨hended, hs⟩⟩ :=
      cancelThresholdSignature_spec hok
    · obtain ⟨_, hst, hnot⟩ := hopen
      rw [statusOf_eq hget] at hst
      exact absurd (some.inj hst ▸ hcancelled) hnot
    · exact ⟨request, hget, hended, hs⟩
  · nomatch h

/-- What a successful cancellation does: as the failure hook, with a recipient or contract that
governance may name. -/
theorem cancelBridgeOperation_spec {requestID executor : Bytes} {options : BridgeCancelOptions}
    (h : Ledger env w) (hc : cancelBridgeOperation env out requestID executor options w = some w') :
    ∃ id request, id = requestIdHash env requestID ∧ w.store.requests.get? id = some request ∧
      (request.status = .failed ∨ request.status = .expired) ∧
      w'.store = w.store.storeRequest { request with status := .cancelled } ∧
      ((∃ msg msg' b, w.app.mintRefunds.get? id = some msg ∧ msg'.amount = msg.amount ∧
        refundPendingBridgeMintFromEscrow env id msg' w.app = some b ∧
        w'.app = { b with mintRefunds := b.mintRefunds.erase id }) ∨
      ∃ msg msg' b, w.app.withdrawalRefunds.get? id = some msg ∧
        refundPendingBridgeWithdrawalByMint env out id msg' w.app = some b ∧
        w'.app = dropWithdrawal id b) := by
  simp only [cancelBridgeOperation] at hc
  split at hc
  · next msg hmsg =>
    unfold cancelPendingBridgeMint at hc
    split at hc
    · nomatch hc
    simp only [bind_eq_bind, bind_eq_some_iff, some.injEq] at hc
    obtain ⟨s, hs, b, hb, rfl⟩ := hc
    obtain ⟨request, hget, hended, rfl⟩ :=
      cancelThresholdSigningRequest_spec (h.pendingMint _ msg hmsg).1 hs
    exact ⟨_, request, rfl, hget, hended, rfl,
      .inl ⟨msg, { msg with creator := options.recipient msg.creator }, b, hmsg, rfl, hb, rfl⟩⟩
  · split at hc
    · next msg hmsg =>
      unfold cancelPendingBridgeWithdrawal at hc
      split at hc
      · nomatch hc
      simp only [bind_eq_bind, bind_eq_some_iff, some.injEq] at hc
      obtain ⟨_, -, _, -, _, hs, b, hb, rfl⟩ := hc
      obtain ⟨request, hget, hended, rfl⟩ :=
        cancelThresholdSigningRequest_spec (h.pendingWithdrawal _ msg hmsg).1 hs
      exact ⟨_, request, rfl, hget, hended, rfl, .inr ⟨msg, _, b, hmsg, hb, rfl⟩⟩
    · nomatch hc

theorem handleNativeTokenRelease_spec {ownerAddress amount : Bytes}
    (h : handleNativeTokenRelease env ownerAddress amount b = some b') :
    ∃ balances paidToEscrow n, b' = { b with
        balances := balances
        paidToEscrow := paidToEscrow
        released := b.released + n } ∧
      Bank.balance balances env.escrow + n + b.paidToEscrow =
        Bank.balance b.balances env.escrow + paidToEscrow := by
  simp only [handleNativeTokenRelease, bind_eq_bind, bind_eq_some_iff] at h
  obtain ⟨_, -, _, -, h⟩ := h
  split at h
  · nomatch h
  · obtain ⟨_, hrelease, rfl⟩ := map_eq_some_iff.mp h
    obtain ⟨balances, paidToEscrow, rfl, hbalance⟩ := releaseFromEscrow_spec hrelease
    exact ⟨balances, paidToEscrow, _, rfl, hbalance⟩

include h in
theorem Ledger.release {ownerAddress amount : Bytes}
    (hr : handleNativeTokenRelease env ownerAddress amount b = some b') : Ledger env ⟨s, b'⟩ := by
  obtain ⟨balances, paidToEscrow, n, rfl, _⟩ := handleNativeTokenRelease_spec hr
  refine ⟨h.sound, h.pendingMint, h.pendingWithdrawal, h.mint, h.refunded, h.nodup, ?_⟩
  have hbefore := h.balance
  show Bank.balance balances env.escrow + (b.released + n) + _ = _ + paidToEscrow
  simp only at hbefore ⊢
  omega

theorem Ledger.quiet (h : Ledger env w) (hq : Quiet env height w w') : Ledger env w' := by
  cases hq with
  | change hc => exact h.change hc
  | cleanup hst hb => exact h.cleanup hst hb
  | refundMint hget hended hkept hamount hb => exact h.refundMint hget hended hkept hamount hb
  | refundWithdrawal hget hended hkept hb => exact h.refundWithdrawal hget hended hkept hb
  | requestWithdrawal hw => exact h.requestWithdrawal hw
  | release hr => exact h.release hr

theorem Micro.quiet (hm : Micro env.signing height (blsHooks env out) w w') :
    ReflTransGen (Quiet env height) w w' := by
  rcases hm with ⟨app, hc⟩ | ⟨request, hget, hstatus, hhook⟩ | ⟨request, hget, hstatus, hhook⟩ |
    ⟨request, hget, hstatus, hhook⟩
  · exact .single (.change hc)
  all_goals
    simp only [blsHooks] at hhook
    split at hhook
    · nomatch hhook
  · exact .single (.cleanup ((statusOf_eq hget).trans (by rw [hstatus])) hhook)
  · rcases processAutoRefund_spec hhook with ⟨-, rfl⟩ | ⟨hclose, -⟩
    · exact .refl
    · nomatch hclose
  · rcases processAutoRefund_spec hhook with ⟨hclose, -⟩ |
      ⟨-, ⟨msg, b₁, hmsg, hrefund, rfl⟩ | ⟨msg, msg', b₁, hmsg, hrefund, rfl⟩⟩
    · nomatch hclose
    · exact .single (.refundMint hget hstatus hmsg rfl hrefund)
    · exact .single (.refundWithdrawal hget hstatus hmsg hrefund)

theorem Micros.quiet (hm : Micros env.signing height (blsHooks env out) w w') :
    ReflTransGen (Quiet env height) w w' := by
  induction hm with
  | refl => exact .refl
  | tail _ hstep ih => exact ih.trans (Micro.quiet hstep)

theorem Ledger.event (h : Ledger env c.world) (e : Event) :
    (∃ msg id m, Minted env c.height msg c.world (Bridge.step env e c).world id m) ∨
      ReflTransGen (Quiet env c.height) c.world (Bridge.step env e c).world := by
  match e with
  | .requestMint out msg txBytes =>
    simp only [Bridge.step]
    match hw : requestBridgeMint env out c.height msg txBytes c.world with
    | none => exact .inr .refl
    | some w => exact .inl ⟨msg, requestBridgeMint_spec hw⟩
  | .requestWithdrawal out msg txBytes =>
    simp only [Bridge.step]
    match hw : requestBridgeWithdrawal env out c.height msg txBytes c.world with
    | none => exact .inr .refl
    | some w => exact .inr (.single (.requestWithdrawal hw))
  | .addPartial out id slots signature submitter =>
    simp only [Bridge.step]
    match hw : addPartialSignature env.signing (blsHooks env out) c.height id slots
      signature submitter c.world with
    | .error _ => exact .inr .refl
    | .ok w =>
      exact .inr (Micros.quiet (addPartialSignature_micros h.sound.keyed hw))
  | .cancel out requestID executor options =>
    simp only [Bridge.step]
    match hw : cancelBridgeOperation env out requestID executor options c.world with
    | none => exact .inr .refl
    | some ⟨s, b⟩ =>
      obtain ⟨id, request, -, hget, hended, rfl, ⟨msg, msg', b, hmsg, hamount, hb, rfl⟩ |
        ⟨msg, msg', b, hmsg, hb, rfl⟩⟩ := cancelBridgeOperation_spec h hw
      · exact .inr (.single (.refundMint hget hended hmsg hamount hb))
      · exact .inr (.single (.refundWithdrawal hget hended hmsg hb))
  | .release ownerAddress amount =>
    simp only [Bridge.step]
    match hb : handleNativeTokenRelease env ownerAddress amount c.world.app with
    | none => exact .inr .refl
    | some b => exact .inr (.single (.release hb))
  | .endBlock out skipped =>
    exact .inr (Micros.quiet (endBlock_micros h.sound.keyed h.sound.named))

theorem Ledger.step (h : Ledger env c.world) (e : Event) :
    Ledger env (Bridge.step env e c).world := by
  rcases h.event e with ⟨_, _, _, hm⟩ | hquiet
  · exact h.requestMint hm
  · generalize (Bridge.step env e c).world = w' at hquiet ⊢
    induction hquiet with
    | refl => exact h
    | tail _ hq ih => exact ih.quiet hq

theorem Ledger.moves_quiet (h : Ledger env w) (hq : Quiet env height w w') :
    Moves env.signing height w.store w'.store := by
  have hcancels : ∀ {s : Store} {b : State} {id : RequestId} {request : ThresholdSigningRequest},
      Ledger env ⟨s, b⟩ → s.requests.get? id = some request →
      request.status = .failed ∨ request.status = .expired →
      Moves env.signing height s (s.storeRequest { request with status := .cancelled }) := by
    intro s b id request h hget hended
    refine .single (.cancels request ?_ hended)
    rw [h.sound.keyed id request hget]
    exact hget
  cases hq with
  | change hc => exact .single (.change hc)
  | cleanup => exact .refl
  | refundMint hget hended => exact hcancels h hget hended
  | refundWithdrawal hget hended => exact hcancels h hget hended
  | requestWithdrawal hw =>
    obtain ⟨_, _, _, _, hid, hreq, -⟩ := requestBridgeWithdrawal_spec hw
    exact .single (.change (requestSignature_spec h.sound hid hreq).1)
  | release => exact .refl

theorem Ledger.moves (h : Ledger env c.world) (e : Event) :
    Moves env.signing c.height c.world.store (Bridge.step env e c).world.store := by
  rcases h.event e with ⟨_, _, _, hm⟩ | hquiet
  · obtain ⟨_, _, hreq⟩ := hm.request
    exact .single (.change (requestSignature_spec h.sound hm.named hreq).1)
  · generalize (Bridge.step env e c).world = w' at hquiet ⊢
    suffices hboth : Ledger env w' ∧ Moves env.signing c.height c.world.store w'.store from hboth.2
    induction hquiet with
    | refl => exact ⟨h, .refl⟩
    | tail _ hq ih => exact ⟨ih.1.quiet hq, ih.2.trans (ih.1.moves_quiet hq)⟩

theorem ledger_genesis {balances : OrdMap Address ℕ} (hempty : Bank.balance balances env.escrow = 0) :
    Ledger env ⟨{}, { balances := balances }⟩ where
  sound := sound_empty
  pendingMint _ _ h := nomatch h
  pendingWithdrawal _ _ h := nomatch h
  mint _ _ h := nomatch h
  refunded _ h := nomatch h
  nodup := List.nodup_nil
  balance := by
    simp only [hempty, sum_empty]

/-- Mints stay on record with their payer and amount, and refunds are only added. -/
structure Keeps (b b' : State) : Prop where
  mints : ∀ id, (b'.mints.get? id).map (fun m => (m.account, m.amount)) =
    (b.mints.get? id).map (fun m => (m.account, m.amount))
  refunded : b.refunded <:+ b'.refunded

theorem Keeps.refl (b : State) : Keeps b b := ⟨fun _ => rfl, List.suffix_refl _⟩

theorem Keeps.trans {b₁ b₂ b₃ : State} (h₁ : Keeps b₁ b₂) (h₂ : Keeps b₂ b₃) : Keeps b₁ b₃ :=
  ⟨fun id => (h₂.mints id).trans (h₁.mints id), h₁.refunded.trans h₂.refunded⟩

theorem Quiet.keeps (hq : Quiet env height w w') : Keeps w.app w'.app := by
  cases hq with
  | change => exact Keeps.refl _
  | cleanup _ hb =>
    unfold cleanupBridgePendingRefundByBlsRequestID at hb
    split at hb
    · nomatch hb
    · cases hb
      exact ⟨fun _ => rfl, List.suffix_refl _⟩
  | @refundMint s b b' id _ _ _ _ _ _ _ hb =>
    obtain ⟨_, _, _, _, -, rfl, -⟩ :=
      refundPendingBridgeMintFromEscrow_spec hb
    refine ⟨fun id' => ?_, List.suffix_cons _ _⟩
    show (OrdMap.get? (b.mints.modify id _) id').map _ = _
    rw [get?_modify]
    split
    · next heq => rw [heq, map_map]; rfl
    · rfl
  | refundWithdrawal _ _ _ hb =>
    obtain rfl := refundPendingBridgeWithdrawalByMint_spec hb
    exact ⟨fun _ => rfl, List.suffix_cons _ _⟩
  | requestWithdrawal hw =>
    obtain ⟨_, _, _, _, -, -, happ⟩ := requestBridgeWithdrawal_spec hw
    rw [happ]
    exact ⟨fun _ => rfl, List.suffix_refl _⟩
  | release hb =>
    obtain ⟨_, _, _, rfl, -⟩ := handleNativeTokenRelease_spec hb
    exact ⟨fun _ => rfl, List.suffix_refl _⟩

/-- What an event does to the records: nothing is lost, requests advance, and a new mint has
taken its amount from its payer. -/
structure Records (w w' : World State) : Prop where
  advances : Advances w.store w'.store
  refunded : w.app.refunded <:+ w'.app.refunded
  mints : ∀ id m, w.app.mints.get? id = some m → ∃ m', w'.app.mints.get? id = some m' ∧
    m'.account = m.account ∧ m'.amount = m.amount
  taken : ∀ id m, w.app.mints.get? id = none → w'.app.mints.get? id = some m →
    Bank.balance w'.app.balances m.account + m.amount = Bank.balance w.app.balances m.account

theorem Keeps.records (h : Keeps w.app w'.app)
    (hadv : Advances w.store w'.store) : Records w w' := by
  refine ⟨hadv, h.refunded, ?_, ?_⟩
  · intro id m hm
    have hkept := h.mints id
    rw [hm] at hkept
    obtain ⟨m', hm', heq⟩ := map_eq_some_iff.mp hkept
    obtain ⟨haccount, hamount⟩ := Prod.mk.inj heq
    exact ⟨m', hm', haccount, hamount⟩
  · intro id m hnone hsome
    have hkept := h.mints id
    rw [hnone, hsome] at hkept
    nomatch hkept

theorem Minted.records (hm : Minted env height msg w w' id m) (h : Ledger env w)
    (hadv : Advances w.store w'.store) : Records w w' := by
  obtain ⟨hnamed, -, -, -, hescrow, hsent, ⟨_, _, hreq⟩, happ⟩ := hm
  obtain ⟨-, hnew, -⟩ := requestSignature_spec h.sound hnamed hreq
  have hmints : w'.app.mints = w.app.mints.insert id m := by rw [happ]
  refine ⟨hadv, happ ▸ List.suffix_refl _, ?_, ?_⟩
  · intro id' m' hm'
    have hne : id' ≠ id := by
      rintro rfl
      exact absurd (hm'.symm.trans (h.unrecorded hnew)) (by simp)
    refine ⟨m', ?_, rfl, rfl⟩
    rw [hmints, get?_insert, if_neg hne, hm']
  · intro id' m' hnone hsome
    rw [hmints, get?_insert] at hsome
    split at hsome
    · cases hsome
      have hbalance := Bank.balance_send hsent m.account
      rwa [if_pos rfl, if_neg hescrow] at hbalance
    · rw [hnone] at hsome
      nomatch hsome

theorem Ledger.records (h : Ledger env c.world) (e : Event) :
    Records c.world (Bridge.step env e c).world := by
  have hadv := ((h.moves e).sound h.sound).2
  rcases h.event e with ⟨_, _, _, hm⟩ | hquiet
  · exact hm.records h hadv
  · refine Keeps.records ?_ hadv
    generalize (Bridge.step env e c).world = w' at hquiet ⊢
    induction hquiet with
    | refl => exact Keeps.refl _
    | tail _ hq ih => exact ih.trans hq.keeps

def pendingTotal (w : World State) : ℕ :=
  w.app.mints.sum fun id m =>
    if statusOf w.store id = some .completed ∨ m.refunds ≠ [] then 0 else m.amount

def completedTotal (w : World State) : ℕ :=
  w.app.mints.sum fun id m => if statusOf w.store id = some .completed then m.amount else 0

/-- **The escrow holds what it should, and every mint has one outcome.** -/
structure Conserved (env : Env) (w : World State) : Prop where
  balance : Bank.balance w.app.balances env.escrow + w.app.released =
    pendingTotal w + completedTotal w + w.app.paidToEscrow
  /-- at most one refund, of what was taken -/
  once : ∀ id m, w.app.mints.get? id = some m →
    m.refunds = [] ∨ id ∈ w.app.refunded ∧ ∃ recipient, m.refunds = [(recipient, m.amount)]
  nodup : w.app.refunded.Nodup
  /-- what is refunded is cancelled, so neither completed nor open to signatures -/
  cancelled : ∀ id ∈ w.app.refunded, statusOf w.store id = some .cancelled
  refused : ∀ id ∈ w.app.refunded, ∀ (hooks : Hooks State) height slots signature submitter,
    ThresholdSigning.addPartialSignature env.signing hooks height id slots signature submitter w =
      .error (.notCollecting .cancelled)
  /-- every refund that is still due can be paid -/
  payable : w.app.released ≤ completedTotal w → ∀ id msg, w.app.mintRefunds.get? id = some msg →
    statusOf w.store id ≠ some .completed →
    (refundPendingBridgeMintFromEscrow env id msg w.app).isSome

theorem Ledger.totals (h : Ledger env w) : w.app.mints.sum (fun _ m => m.amount) =
      pendingTotal w + completedTotal w + w.app.mints.sum (fun _ m => m.paid) := by
  unfold pendingTotal completedTotal
  rw [← sum_add, ← sum_add]
  refine sum_congr ?_
  intro id m hm
  rcases (h.mint id m hm).2 with ⟨hunpaid, -⟩ | ⟨hst, -, _, hpaid⟩
  · simp only [Mint.paid, hunpaid, ne_eq, not_true_eq_false, or_false, List.map_nil, List.sum_nil]
    split <;> omega
  · simp [Mint.paid, hpaid, hst]

theorem Ledger.balance_eq (h : Ledger env w) :
    Bank.balance w.app.balances env.escrow + w.app.released =
      pendingTotal w + completedTotal w + w.app.paidToEscrow := by
  have hbalance := h.balance
  have htotals := h.totals
  omega

theorem Ledger.payable (h : Ledger env w) (hreleased : w.app.released ≤ completedTotal w)
    (hmsg : w.app.mintRefunds.get? id = some msg) (hst : statusOf w.store id ≠ some .completed) :
    (refundPendingBridgeMintFromEscrow env id msg w.app).isSome := by
  obtain ⟨⟨_, hopen, hnot⟩, m, hm, hamount, haccount, hreceives⟩ := h.pendingMint id msg hmsg
  have hunpaid : m.refunds = [] := by
    rcases (h.mint id m hm).2 with ⟨hunpaid, -⟩ | ⟨hcancelled, -⟩
    · exact hunpaid
    · exact absurd (some.inj (hopen.symm.trans hcancelled)) hnot
  -- the amount is one of the pending ones, which the escrow holds
  have hpending : m.amount ≤ pendingTotal w := by
    have hle := le_sum (fun id (m : Mint) =>
      if statusOf w.store id = some .completed ∨ m.refunds ≠ [] then 0 else m.amount) hm
    have hnot : ¬ (statusOf w.store id = some .completed ∨ m.refunds ≠ []) := by
      simp [hst, hunpaid]
    simpa only [if_neg hnot, pendingTotal] using hle
  have hbalance := h.balance_eq
  have hsend : (Bank.send env.escrow m.account m.amount w.app.balances).isSome :=
    Bank.send_isSome_iff.mpr (by omega)
  have hpos := (h.mint id m hm).1
  simp only [refundPendingBridgeMintFromEscrow, haccount, hamount, bind_eq_bind,
    bind_some]
  rw [if_neg (by omega)]
  simpa [releaseFromEscrow, hreceives] using hsend

theorem Ledger.conserved (h : Ledger env w) : Conserved env w where
  balance := h.balance_eq
  once id m hm := by
    rcases (h.mint id m hm).2 with ⟨hunpaid, -⟩ | ⟨-, hin, hpaid⟩
    · exact .inl hunpaid
    · exact .inr ⟨hin, hpaid⟩
  nodup := h.nodup
  cancelled := h.refunded
  refused id hid hooks height slots signature submitter := by
    obtain ⟨_, hget, hstatus⟩ := map_eq_some_iff.mp (h.refunded id hid)
    simp only [addPartialSignature, hget, hstatus]
    exact if_pos (by decide)
  payable hreleased id msg hmsg hst := h.payable hreleased hmsg hst

end

/-- **The escrow in every run.**  From a chain whose escrow is empty, with hooks that fail or not:
after every event the escrow holds the pending and the completed mints but for what was released,
where coins paid to the escrow itself stay; every mint is refunded at most once, in full, and its
request then cancelled for good; and no record is lost. -/
theorem bridge_escrow_conserved (env : Env) (balances : OrdMap Address ℕ) (height : ℕ)
    (hempty : Bank.balance balances env.escrow = 0) (events : List Event) :
    Along.EachStep (step env)
      (fun c e => Conserved env (step env e c).world ∧ Records c.world (step env e c).world)
      events ⟨⟨{}, { balances := balances }⟩, height⟩ := by
  refine Along.EachStep.of_invariant (I := fun c => Ledger env c.world) (Q := fun _ _ => True)
    ?_ ?_ (ledger_genesis hempty) (Along.eachStep_of_forall (fun _ _ _ => trivial) _)
  · intro c e h _
    exact h.step e
  · intro c e h _
    exact ⟨(h.step e).conserved, h.records e⟩

/-- Addresses are their own texts, and amounts are single bytes; account `[9]` is the escrow. -/
def sampleEnv : Env where
  signing := ThresholdSigning.sampleEnv
  keccak256_length _ := rfl
  gonkaChainIdHash := []
  escrow := [9]
  blockedAddr _ := false
  accAddressFromBech32 := some
  newIntFromString
    | [n] => some (n.toNat : ℤ)
    | _ => none
  prepareBridgeMintSignatureData _ _ _ _ := some []
  prepareBridgeWithdrawalSignatureData _ _ _ _ _ := some []

def sampleOutside : Outside where
  currentEpochGroup := some 1
  hasBridgeAddresses _ := true
  isBridgeContractAddress _ _ := true
  wrappedTokenByWrappedAddress _ := none
  wrappedContractReverseIndex _ := none
  wrappedTokenContract _ := none
  mintTokens _ _ _ := true
  hookFault _ := false

/-- Account `[4]` mints five coins of ten. -/
def sampleMint : Event := .requestMint sampleOutside ⟨[4], [5], [], "ethereum", []⟩ []

def sampleGenesis : Chain := ⟨⟨{}, { balances := OrdMap.insert ∅ [4] 10 }⟩, 1⟩

/-- The mint expires twice, and is refunded. -/
theorem bridge_escrow_conserved_sample :
    let events := [sampleMint, .endBlock sampleOutside 1, .endBlock sampleOutside 1, .endBlock sampleOutside 0]
    (Along.run (step sampleEnv) events sampleGenesis).world.app.refunded = [List.replicate 32 0] ∧
    Along.EachStep (step sampleEnv)
      (fun c e => Conserved sampleEnv (step sampleEnv e c).world ∧
        Records c.world (step sampleEnv e c).world) events sampleGenesis :=
  ⟨by decide +kernel, bridge_escrow_conserved sampleEnv _ 1 (by decide +kernel) _⟩

/-- A native release that names the escrow itself: the five coins of the pending mint are
released, and still there. -/
theorem release_to_escrow_counts_twice :
    let w := (Along.run (step sampleEnv) [sampleMint, .release [9] [5]] sampleGenesis).world
    Bank.balance w.app.balances sampleEnv.escrow = 5 ∧ w.app.released = 5 ∧
      pendingTotal w = 5 ∧ completedTotal w = 0 := by
  decide +kernel

end Bridge
