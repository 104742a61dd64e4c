/-
Computations that check before they act.

A handler is a chain of checks and lookups, each of which may end it with an error.  It succeeds
exactly when each link does, so that a success is taken apart link by link.
-/
import Mathlib.Data.List.Basic

namespace Checked

universe u

variable {ε σ : Type*} {α β : Type u}

/-- Go on if `p` holds. -/
def require (p : Prop) [Decidable p] (error : ε) : Except ε PUnit.{u + 1} :=
  if p then .ok ⟨⟩ else .error error

theorem require_eq_ok_iff {p : Prop} [Decidable p] {error : ε} {x : PUnit.{u + 1}} :
    require p error = .ok x ↔ p := by
  unfold require
  by_cases h : p <;> simp [h]

theorem bind_eq_ok_iff {x : Except ε α} {f : α → Except ε β} {b : β} :
    (x >>= f) = .ok b ↔ ∃ a, x = .ok a ∧ f a = .ok b := by
  cases x with
  | error =>
    constructor
    · intro h
      cases h
    · rintro ⟨a, h, -⟩
      cases h
  | ok a =>
    constructor
    · intro h
      exact ⟨a, rfl, h⟩
    · rintro ⟨_, h, hb⟩
      cases h
      exact hb

theorem pure_eq_ok_iff {a b : α} : (pure a : Except ε α) = .ok b ↔ a = b :=
  ⟨fun h => Except.ok.inj h, fun h => congrArg Except.ok h⟩

def found (error : ε) : Option α → Except ε α
  | none => .error error
  | some a => .ok a

theorem found_eq_ok_iff {error : ε} {x : Option α} {a : α} :
    found error x = .ok a ↔ x = some a := by
  cases x <;> simp [found]

/-- The state after a transaction. -/
def commit (s : σ) : Except ε σ → σ
  | .error _ => s
  | .ok s' => s'

theorem commit_cases {P : σ → Prop} {s : σ} {result : Except ε σ} (hfirst : P s)
    (hok : ∀ s', result = .ok s' → P s') : P (commit s result) := by
  cases result with
  | error => exact hfirst
  | ok s' => exact hok s' rfl

theorem foldlM_ok {σ : Type u} {f : σ → α → Except ε σ} {P : σ → Prop} {l : List α} {s s' : σ}
    (hround : ∀ s, ∀ a ∈ l, ∀ s', P s → f s a = .ok s' → P s') (hfirst : P s)
    (h : l.foldlM f s = .ok s') : P s' := by
  induction l generalizing s with
  | nil =>
    cases h
    exact hfirst
  | cons a l ih =>
    rw [List.foldlM_cons, bind_eq_ok_iff] at h
    obtain ⟨s₁, ha, hrest⟩ := h
    exact ih (fun s b hb => hround s b (List.mem_cons_of_mem a hb))
      (hround s a List.mem_cons_self s₁ hfirst ha) hrest

end Checked
