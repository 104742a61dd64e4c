/-
Write-once journals.

A journal keeps one entry per number and never replaces one.  Replicas start in a
common state and apply the entries in order, so that the state of a replica is a
function of how far it has read, whoever wrote the entries and however far the
journal has grown since.

Main result: `fold_extends`.
-/
import Mathlib.Data.Nat.Basic
import Gonka.Lib.OrdMap

namespace Journal

variable {ρ σ : Type*}

/-- Every entry of `log` is one of `log'`. -/
def Extends (log log' : OrdMap ℕ ρ) : Prop :=
  ∀ n r, log.get? n = some r → log'.get? n = some r

theorem Extends.refl (log : OrdMap ℕ ρ) : Extends log log := fun _ _ h => h

variable {log : OrdMap ℕ ρ} {n : ℕ}

theorem Extends.trans {log' log'' : OrdMap ℕ ρ} (h : Extends log log')
    (h' : Extends log' log'') : Extends log log'' :=
  fun n r hr => h' n r (h n r hr)

/-- Write an entry unless its number is taken. -/
def offer (log : OrdMap ℕ ρ) (n : ℕ) (r : ρ) : OrdMap ℕ ρ :=
  match log.get? n with
  | none => log.insert n r
  | some _ => log

theorem extends_offer (log : OrdMap ℕ ρ) (n : ℕ) (r : ρ) : Extends log (offer log n r) := by
  intro k r' hr'
  unfold offer
  split
  · next hnone =>
    have hk : k ≠ n := by
      rintro rfl
      rw [hnone] at hr'
      cases hr'
    rw [OrdMap.get?_insert_of_ne _ _ hk]
    exact hr'
  · exact hr'

theorem get?_offer {k : ℕ} {r r' : ρ}
    (h : (offer log n r).get? k = some r') : log.get? k = some r' ∨ k = n ∧ r' = r := by
  unfold offer at h
  split at h
  · rw [OrdMap.get?_insert] at h
    split at h
    · next hk =>
      cases h
      exact .inr ⟨hk, rfl⟩
    · exact .inl h
  · exact .inl h

section
variable (apply : ρ → σ → Option σ) (start : σ)

/-- The state after the entries `1, …, n`, if they are all there and all apply. -/
def fold (log : OrdMap ℕ ρ) : ℕ → Option σ
  | 0 => some start
  | n + 1 =>
    match fold log n, log.get? (n + 1) with
    | some s, some r => apply r s
    | _, _ => none

variable {apply start}

theorem fold_succ {s' : σ} : fold apply start log (n + 1) = some s' ↔
      ∃ s r, fold apply start log n = some s ∧ log.get? (n + 1) = some r ∧ apply r s = some s' := by
  rw [fold]
  constructor
  · intro h
    split at h
    · next s r hs hr => exact ⟨s, r, hs, hr, h⟩
    · cases h
  · rintro ⟨s, r, hs, hr, h⟩
    rw [hs, hr]
    exact h

theorem get?_of_fold {s : σ} (hs : fold apply start log n = some s) {k : ℕ} (hk : k < n) :
    ∃ r, log.get? (k + 1) = some r := by
  induction n generalizing s with
  | zero => cases hk
  | succ n ih =>
    obtain ⟨_, r, hs₀, hr, -⟩ := fold_succ.mp hs
    rcases Nat.lt_succ_iff_lt_or_eq.mp hk with hlt | rfl
    · exact ih hs₀ hlt
    · exact ⟨r, hr⟩

/-- **What has been read stays as it is** when the journal grows. -/
theorem fold_extends {log' : OrdMap ℕ ρ} (h : Extends log log') {s : σ}
    (hs : fold apply start log n = some s) : fold apply start log' n = some s := by
  induction n generalizing s with
  | zero => exact hs
  | succ n ih =>
    obtain ⟨s₀, r, hs₀, hr, happly⟩ := fold_succ.mp hs
    exact fold_succ.mpr ⟨s₀, r, ih hs₀, h _ _ hr, happly⟩

variable (apply start) in
/-- Every entry can be reached and applied. -/
def Replayable (log : OrdMap ℕ ρ) : Prop :=
  ∀ n r, log.get? n = some r → ∃ s, fold apply start log n = some s

/-- A writer that has read everything before its entry, and could apply the entry,
keeps the journal replayable. -/
theorem Replayable.offer (h : Replayable apply start log) {r : ρ} {s s' : σ}
    (hs : fold apply start log n = some s) (happly : apply r s = some s') :
    Replayable apply start (offer log (n + 1) r) := by
  have hgrow := extends_offer log (n + 1) r
  intro k r' hr'
  rcases get?_offer hr' with hold | ⟨rfl, rfl⟩
  · obtain ⟨t, ht⟩ := h k r' hold
    exact ⟨t, fold_extends hgrow ht⟩
  · exact ⟨s', fold_succ.mpr ⟨s, _, fold_extends hgrow hs, hr', happly⟩⟩

/-- A replica that has read `n` entries reads the next. -/
theorem Replayable.next (h : Replayable apply start log) {r : ρ} {s : σ}
    (hs : fold apply start log n = some s) (hr : log.get? (n + 1) = some r) :
    ∃ s', apply r s = some s' ∧ fold apply start log (n + 1) = some s' := by
  obtain ⟨s', hs'⟩ := h _ _ hr
  obtain ⟨_, _, hs₀, hr₀, happly⟩ := fold_succ.mp hs'
  rw [hs] at hs₀
  rw [hr] at hr₀
  cases hs₀
  cases hr₀
  exact ⟨s', happly, hs'⟩

end

end Journal
