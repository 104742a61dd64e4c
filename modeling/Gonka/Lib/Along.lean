/-
Properties along a run.

A system in a state takes one input after the other.  A property may hold in every
state of the run, or of every input in the state that it meets; the first is decided
by the second when one step decides it.

Main result: `throughout_iff_eachStep`.
-/
import Mathlib.Data.List.Basic

namespace Along

variable {σ α : Type*} (step : α → σ → σ)

/-- The state after the inputs. -/
def run (inputs : List α) (s : σ) : σ := inputs.foldl (fun s a => step a s) s

/-- `P` holds in the first state of the run and after every input. -/
def Throughout (P : σ → Prop) : List α → σ → Prop
  | [], s => P s
  | a :: inputs, s => P s ∧ Throughout P inputs (step a s)

/-- `Q` holds of every input and the state that it meets. -/
def EachStep (Q : σ → α → Prop) : List α → σ → Prop
  | [], _ => True
  | a :: inputs, s => Q s a ∧ EachStep Q inputs (step a s)

instance EachStep.decidable {Q : σ → α → Prop} [∀ s a, Decidable (Q s a)] :
    ∀ inputs s, Decidable (EachStep step Q inputs s)
  | [], _ => .isTrue trivial
  | a :: inputs, s =>
    @instDecidableAnd _ _ (inferInstanceAs (Decidable (Q s a)))
      (EachStep.decidable inputs (step a s))

variable {step} {P I : σ → Prop} {Q : σ → α → Prop}

theorem Throughout.first {inputs : List α} {s : σ} (h : Throughout step P inputs s) : P s := by
  cases inputs with
  | nil => exact h
  | cons => exact h.1

theorem eachStep_of_forall {inputs : List α} (h : ∀ a ∈ inputs, ∀ s, Q s a) (s : σ) :
    EachStep step Q inputs s := by
  induction inputs generalizing s with
  | nil => trivial
  | cons a _ ih =>
    exact ⟨h a List.mem_cons_self s, ih (fun a' ha' => h a' (List.mem_cons_of_mem a ha')) _⟩

theorem eachStep_congr {Q' : σ → α → Prop} (h : ∀ s a, Q s a ↔ Q' s a) (inputs : List α) (s : σ) :
    EachStep step Q inputs s ↔ EachStep step Q' inputs s := by
  induction inputs generalizing s with
  | nil => exact Iff.rfl
  | cons a _ ih => exact and_congr (h s a) (ih _)

theorem run_append (inputs inputs' : List α) (s : σ) :
    run step (inputs ++ inputs') s = run step inputs' (run step inputs s) :=
  List.foldl_append ..

theorem run_of_eachStep (hstep : ∀ s a, P s → Q s a → P (step a s)) {inputs : List α} {s : σ}
    (hfirst : P s) (h : EachStep step Q inputs s) : P (run step inputs s) := by
  induction inputs generalizing s with
  | nil => exact hfirst
  | cons a _ ih => exact ih (hstep s a hfirst h.1) h.2

theorem throughout_of_eachStep (hinv : ∀ s a, I s → I (step a s))
    (hstep : ∀ s a, I s → P s → Q s a → P (step a s)) {inputs : List α} {s : σ} (hI : I s)
    (hfirst : P s) (h : EachStep step Q inputs s) : Throughout step P inputs s := by
  induction inputs generalizing s with
  | nil => exact hfirst
  | cons a _ ih => exact ⟨hfirst, ih (hinv s a hI) (hstep s a hI hfirst h.1) h.2⟩

theorem run_invariant (hstep : ∀ s a, P s → P (step a s)) {s : σ} (h : P s) (inputs : List α) :
    P (run step inputs s) :=
  run_of_eachStep (Q := fun _ _ => True) (fun s a h _ => hstep s a h) h
    (eachStep_of_forall (fun _ _ _ => trivial) s)

theorem EachStep.of_invariant {G : σ → α → Prop} (hinv : ∀ s a, I s → Q s a → I (step a s))
    (hstep : ∀ s a, I s → Q s a → G s a) {inputs : List α} {s : σ} (hfirst : I s)
    (h : EachStep step Q inputs s) : EachStep step G inputs s := by
  induction inputs generalizing s with
  | nil => trivial
  | cons a _ ih =>
    exact ⟨hstep s a hfirst h.1, ih (hinv s a hfirst h.1) h.2⟩

/-- **A run keeps `P` exactly when every step does.**  `I` is what a step keeps as
long as it keeps `P`. -/
theorem throughout_iff_eachStep (hinv : ∀ s a, I s → P (step a s) → I (step a s))
    (hstep : ∀ s a, I s → P s → (P (step a s) ↔ Q s a)) {inputs : List α} {s : σ} (hI : I s)
    (hfirst : P s) : Throughout step P inputs s ↔ EachStep step Q inputs s := by
  induction inputs generalizing s with
  | nil => exact iff_of_true hfirst trivial
  | cons a _ ih =>
    constructor
    · rintro ⟨-, hrest⟩
      have hnext := hrest.first
      exact ⟨(hstep s a hI hfirst).mp hnext, (ih (hinv s a hI hnext) hnext).mp hrest⟩
    · rintro ⟨hgood, hrest⟩
      have hnext := (hstep s a hI hfirst).mpr hgood
      exact ⟨hfirst, (ih (hinv s a hI hnext) hnext).mpr hrest⟩

end Along
