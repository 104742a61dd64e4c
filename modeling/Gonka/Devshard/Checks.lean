/-
Signature checks and the warm keys they bind.

The checks of a transaction touch the machine in one place only: a signature by
a warm key may bind the key to its slot.  `WarmGrowth` says what any sequence of
checks can do, passed or not, and `runChecks` runs a list of checks that must all
pass.

Main result: `runChecks_growth`.
-/
import Gonka.Devshard.Machine

namespace Devshard

open Wire

/-- The world `w'` is `w` after some signature checks. -/
structure WarmGrowth (env : Env) (w w' : World) : Prop where
  same : w' = { w with sm.warmKeys := w'.sm.warmKeys, warmQueries := w'.warmQueries }
  keeps : ∀ {slot key}, w.sm.warmKeys.get? slot = some key → w'.sm.warmKeys.get? slot = some key
  sound : ∀ {slot key}, w'.sm.warmKeys.get? slot = some key → w.sm.warmKeys.get? slot = none →
    key ≠ w.sm.slotAddress slot ∧
      ∃ resolver queries, env.warmResolver = some resolver ∧
        resolver queries key (w.sm.slotAddress slot) = true

namespace WarmGrowth

variable {env : Env} {w w₁ w₂ : World}

theorem refl : WarmGrowth env w w where
  same := rfl
  keeps := id
  sound h hn := absurd h (by simp [hn])

section

variable (h : WarmGrowth env w w₁)
include h

theorem slotAddress_eq (slot : ℕ) : w₁.sm.slotAddress slot = w.sm.slotAddress slot := by
  rw [h.same]
  rfl

theorem escrowID_eq : w₁.sm.escrowID = w.sm.escrowID := by
  rw [h.same]

theorem config_eq : w₁.sm.config = w.sm.config := by
  rw [h.same]

theorem sameSession : SameSession w.sm w₁.sm := by
  rw [h.same]
  exact ⟨rfl, rfl, rfl, rfl, rfl⟩

theorem addressToSlotCount_eq (addr : Address) :
    w₁.sm.addressToSlotCount addr = w.sm.addressToSlotCount addr := by
  rw [h.same]
  rfl

end

theorem trans (h₁ : WarmGrowth env w w₁) (h₂ : WarmGrowth env w₁ w₂) : WarmGrowth env w w₂ where
  same := by
    rw [h₂.same, h₁.same]
  keeps h := h₂.keeps (h₁.keeps h)
  sound := by
    intro slot key hkey hnone
    cases hmid : w₁.sm.warmKeys.get? slot with
    | none => simpa only [h₁.slotAddress_eq] using h₂.sound hkey hmid
    | some key' =>
      -- bound by the first part, and kept by the second
      obtain rfl : key' = key := Option.some_inj.mp ((h₂.keeps hmid).symm.trans hkey)
      exact h₁.sound hmid hnone

end WarmGrowth

/-- A signature of `slot`'s validator that was recovered to `recovered`. -/
structure SigCheck where
  slot : ℕ
  recovered : Address
  deriving DecidableEq

def SigCheck.run (env : Env) (c : SigCheck) (w : World) : Bool × World :=
  acceptSigner env c.slot c.recovered (w.sm.slotAddress c.slot) w

/-- Run the checks in order; `none` at the first that fails. -/
def runChecks (env : Env) : List SigCheck → World → Option World
  | [], w => some w
  | c :: cs, w =>
    match c.run env w with
    | (true, w) => runChecks env cs w
    | (false, _) => none

theorem resolveWarmKey_growth (env : Env) (slot : ℕ) (recovered : Address) (w : World)
    (hne : recovered ≠ w.sm.slotAddress slot) :
    WarmGrowth env w (resolveWarmKey env slot recovered (w.sm.slotAddress slot) w).2 := by
  unfold resolveWarmKey
  split
  · exact .refl
  next hnone =>
  split
  · exact .refl
  next resolver hres =>
  split
  · next hok =>
    refine ⟨rfl, fun {s key} h => ?_, fun {s key} h hn => ?_⟩
    · have hs : s ≠ slot := by
        rintro rfl
        simp [hnone] at h
      show (w.sm.warmKeys.insert slot recovered).get? s = some key
      rw [OrdMap.get?_insert, if_neg hs]
      exact h
    · replace h : (w.sm.warmKeys.insert slot recovered).get? s = some key := h
      by_cases hs : s = slot
      · subst hs
        rw [OrdMap.get?_insert_self, Option.some_inj] at h
        subst h
        exact ⟨hne, resolver, _, hres, hok⟩
      · rw [OrdMap.get?_insert, if_neg hs, hn] at h
        cases h
  · exact ⟨rfl, id, fun h hn => absurd h (by simp [hn])⟩

theorem SigCheck.run_growth (env : Env) (c : SigCheck) (w : World) :
    WarmGrowth env w (c.run env w).2 := by
  unfold SigCheck.run acceptSigner
  split
  · next hne => exact resolveWarmKey_growth env c.slot c.recovered w hne
  · exact .refl

/-- **Checks change nothing but the warm keys**, and those only by bindings the
resolver accepted. -/
theorem runChecks_growth {env : Env} {cs : List SigCheck} {w w' : World}
    (h : runChecks env cs w = some w') : WarmGrowth env w w' := by
  induction cs generalizing w with
  | nil =>
    obtain rfl : w = w' := by simpa [runChecks] using h
    exact .refl
  | cons c _ ih =>
    have hc := c.run_growth env w
    simp only [runChecks] at h
    split at h
    · next hrun =>
      rw [hrun] at hc
      exact hc.trans (ih h)
    · cases h

/-- The world `w'` is `w` after checks of recovered signers, whether they passed or
failed. -/
inductive Checked (env : Env) (w : World) : World → Prop
  | refl : Checked env w w
  | run {w₁ : World} {data sig : Bytes} (c : SigCheck) (h : Checked env w w₁)
      (hsigned : env.recoverAddress data sig = some c.recovered) :
      Checked env w (c.run env w₁).2

theorem Checked.trans {env : Env} {w w₁ w₂ : World} (h : Checked env w w₁)
    (h' : Checked env w₁ w₂) : Checked env w w₂ := by
  induction h' with
  | refl => exact h
  | run c _ hsigned ih => exact .run c ih hsigned

theorem Checked.growth {env : Env} {w w' : World} (h : Checked env w w') : WarmGrowth env w w' := by
  induction h with
  | refl => exact .refl
  | run c _ _ ih => exact ih.trans (c.run_growth env _)

/-- The proposer signature of a message of `slot` recovers to `recovered`. -/
def ProposerSigned (env : Env) (sm : StateMachine) (msgWithoutSig : Option Bytes) (sig : Bytes)
    (slot : ℕ) (recovered : Address) : Prop :=
  ∃ data, msgWithoutSig = some data ∧ env.recoverAddress data sig = some recovered ∧
    (slot = maxUint32 → recovered = sm.slotAddress slot)

variable {env : Env} {msg : Option Bytes} {sig : Bytes} {slot : ℕ} {w w' : World}

theorem verifyProposerSig_ok_iff :
    verifyProposerSig env msg sig (w.sm.slotAddress slot) slot w = .ok () w' ↔
      ∃ recovered, ProposerSigned env w.sm msg sig slot recovered ∧
        runChecks env [⟨slot, recovered⟩] w = some w' := by
  unfold verifyProposerSig ProposerSigned
  cases msg with
  | none => simp
  | some data =>
    cases hrec : env.recoverAddress data sig with
    | none => simp [hrec]
    | some recovered =>
      by_cases hne : recovered = w.sm.slotAddress slot
      · simp [hrec, hne, runChecks, SigCheck.run, acceptSigner]
      by_cases hmax : slot = maxUint32
      · subst hmax
        simp [hrec, hne]
      simp only [hrec, hne, ne_eq, not_false_eq_true, if_true, hmax, if_false, runChecks,
        SigCheck.run, acceptSigner, false_imp_iff, and_true, Option.some_inj,
        exists_eq_left']
      split <;> simp_all

theorem verifyProposerSig_checked {o : Outcome Unit}
    (h : verifyProposerSig env msg sig (w.sm.slotAddress slot) slot w = o) :
    Checked env w o.world := by
  subst h
  unfold verifyProposerSig
  split
  · exact .refl
  split
  · exact .refl
  next recovered hrec =>
  split
  · next hne =>
    split
    · exact .refl
    have hc := Checked.run ⟨slot, recovered⟩ (Checked.refl (w := w)) hrec
    unfold SigCheck.run acceptSigner at hc
    rw [if_pos hne] at hc
    split <;> next hres =>
      rw [hres] at hc
      exact hc
  · exact .refl

end Devshard
