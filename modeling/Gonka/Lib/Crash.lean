/-
Programs that may crash.

A program issues commands to an outside that outlives it, a disk or a database, one
atomic command after the other.  Between any two of them the process may crash.  Then
its memory is lost, and what it has done outside remains.

Main result: `System.throughout_iff`.
-/
import Gonka.Lib.Along

namespace Crash

/-- What becomes of a command: it is done, or it fails before or after its effect. -/
inductive Fault where
  | none
  | before
  | after
  deriving DecidableEq

/-- A program that issues commands `c` and gets answers in `ρ c`. -/
inductive Prog {κ : Type} (ρ : κ → Type) (α : Type) where
  | ret (a : α)
  | call (c : κ) (k : ρ c → Prog ρ α)

variable {κ σ ω : Type} {ρ : κ → Type} {α β : Type}

namespace Prog

def bind : Prog ρ α → (α → Prog ρ β) → Prog ρ β
  | ret a, f => f a
  | call c k, f => call c fun r => (k r).bind f

instance : Monad (Prog ρ) where
  pure := ret
  bind := bind

/-- A single command. -/
def issue (c : κ) : Prog ρ (ρ c) := call c ret

/-- All commands of the program are of one kind. -/
def All (C : κ → Prop) : Prog ρ α → Prop
  | ret _ => True
  | call c k => C c ∧ ∀ r, (k r).All C

theorem all_issue {C : κ → Prop} {c : κ} (h : C c) : (issue c : Prog ρ (ρ c)).All C :=
  ⟨h, fun _ => trivial⟩

theorem All.bind {C : κ → Prop} {p : Prog ρ α} {f : α → Prog ρ β} (h : p.All C)
    (hf : ∀ a, (f a).All C) : (p >>= f).All C := by
  induction p with
  | ret a => exact hf a
  | call c k ih => exact ⟨h.1, fun r => ih r (h.2 r)⟩

end Prog

section
variable (exec : ω → (c : κ) → σ → ρ c × σ) (pre : κ → σ → Prop) (good : σ → Prop)

/-- Every command of the program meets its precondition, and the program ends in `Q`, as
long as the state stays good. -/
def Obeys : Prog ρ α → (α → σ → Prop) → σ → Prop
  | .ret a, Q, s => Q a s
  | .call c k, Q, s => pre c s ∧ ∀ w, good (exec w c s).2 → Obeys (k (exec w c s).1) Q (exec w c s).2

end

section
variable {exec : ω → (c : κ) → σ → ρ c × σ} {pre : κ → σ → Prop} {good : σ → Prop}

theorem Obeys.mono {p : Prog ρ α} {Q Q' : α → σ → Prop} {s : σ} (h : Obeys exec pre good p Q s)
    (hQ : ∀ a s, Q a s → Q' a s) : Obeys exec pre good p Q' s := by
  induction p generalizing s with
  | ret a => exact hQ a s h
  | call c k ih => exact ⟨h.1, fun w hgood => ih _ (h.2 w hgood)⟩

theorem Obeys.bind {p : Prog ρ α} {f : α → Prog ρ β} {Q : β → σ → Prop} {s : σ}
    (h : Obeys exec pre good p (fun a s => Obeys exec pre good (f a) Q s) s) :
    Obeys exec pre good (p >>= f) Q s := by
  induction p generalizing s with
  | ret => exact h
  | call c k ih => exact ⟨h.1, fun w hgood => ih _ (h.2 w hgood)⟩

theorem Obeys.and {p : Prog ρ α} {Q Q' : α → σ → Prop} {s : σ} (h : Obeys exec pre good p Q s)
    (h' : Obeys exec pre good p Q' s) : Obeys exec pre good p (fun a s => Q a s ∧ Q' a s) s := by
  induction p generalizing s with
  | ret => exact ⟨h, h'⟩
  | call c k ih => exact ⟨h.1, fun w hgood => ih _ (h.2 w hgood) (h'.2 w hgood)⟩

theorem obeys_of_all {C : κ → Prop} {F : σ → Prop} (hpre : ∀ c s, C c → pre c s)
    (hkeep : ∀ w c s, C c → F s → F (exec w c s).2) {p : Prog ρ α} (h : p.All C) {s : σ} (hF : F s) :
    Obeys exec pre good p (fun _ s => F s) s := by
  induction p generalizing s with
  | ret => exact hF
  | call c k ih => exact ⟨hpre c s h.1, fun w _ => ih _ (h.2 _) (hkeep w c s h.1 hF)⟩

theorem obeys_issue {c : κ} {Q : ρ c → σ → Prop} {s : σ} (hpre : pre c s)
    (hpost : ∀ w, good (exec w c s).2 → Q (exec w c s).1 (exec w c s).2) :
    Obeys exec pre good (Prog.issue c) Q s :=
  ⟨hpre, hpost⟩

end

/-- A process that is down, works on a program, or waits for calls with its memory. -/
inductive Process (ρ : κ → Type) (μ : Type) where
  | down
  | busy (p : Prog ρ (Option μ))
  | up (m : μ)

structure System (σ : Type) (ρ : κ → Type) (μ : Type) where
  disk : σ
  process : Process ρ μ := .down

inductive Input (ω ι ο : Type) where
  /-- The process starts, if it is down. -/
  | start (i : ι)
  /-- A call, if the process is not at work. -/
  | call (o : ο)
  /-- The next command, or the end of the program. -/
  | step (w : ω)
  | crash

namespace System

variable {μ ι ο : Type} (exec : ω → (c : κ) → σ → ρ c × σ) (boot : ι → Prog ρ (Option μ))
  (op : ο → μ → Prog ρ μ)

def step (input : Input ω ι ο) (s : System σ ρ μ) : System σ ρ μ :=
  match input, s.process with
  | .start i, .down => { s with process := .busy (boot i) }
  | .call o, .up m => { s with process := .busy (op o m >>= fun m => pure (some m)) }
  | .step w, .busy (.call c k) =>
    { disk := (exec w c s.disk).2, process := .busy (k (exec w c s.disk).1) }
  | .step _, .busy (.ret none) => { s with process := .down }
  | .step _, .busy (.ret (some m)) => { s with process := .up m }
  | .crash, _ => { s with process := .down }
  | _, _ => s

/-- The input is a command that spoils the state. -/
def Spoils (spoils : ω → κ → σ → Prop) (s : System σ ρ μ) (input : Input ω ι ο) : Prop :=
  match input, s.process with
  | .step w, .busy (.call c _) => spoils w c s.disk
  | _, _ => False

instance (spoils : ω → κ → σ → Prop) [∀ w c d, Decidable (spoils w c d)] (s : System σ ρ μ)
    (input : Input ω ι ο) : Decidable (s.Spoils spoils input) := by
  unfold Spoils
  split
  · infer_instance
  · exact .isFalse not_false

variable (pre : κ → σ → Prop) (good : σ → Prop) (holds : μ → σ → Prop)

/-- The invariant of the process: the rest of its program obeys, its memory is true. -/
def Sane (s : System σ ρ μ) : Prop :=
  match s.process with
  | .down => True
  | .busy p => Obeys exec pre good p (fun r d => ∀ m, r = some m → holds m d) s.disk
  | .up m => holds m s.disk

variable {exec boot op pre good holds} {spoils : ω → κ → σ → Prop}

variable
  (hboot : ∀ i d, good d → Obeys exec pre good (boot i) (fun r d => ∀ m, r = some m → holds m d) d)
  (hop : ∀ o m d, good d → holds m d → Obeys exec pre good (op o m) holds d)
  (hexec : ∀ w c d, good d → pre c d → (good (exec w c d).2 ↔ ¬ spoils w c d))

include hboot hop in
theorem sane_step {s : System σ ρ μ} (hsane : s.Sane exec pre good holds) (hgood : good s.disk)
    (input : Input ω ι ο) (hnext : good (s.step exec boot op input).disk) :
    (s.step exec boot op input).Sane exec pre good holds := by
  obtain ⟨disk, process⟩ := s
  cases process with
  | down =>
    cases input with
    | start i => exact hboot i disk hgood
    | call | step | crash => trivial
  | up m =>
    cases input with
    | start => exact hsane
    | call o =>
      refine Obeys.bind ((hop o m disk hgood hsane).mono fun m' d hm => ?_)
      intro m'' heq
      cases heq
      exact hm
    | step => exact hsane
    | crash => trivial
  | busy p =>
    cases input with
    | start | call => exact hsane
    | crash => trivial
    | step w =>
      cases p with
      | call => exact hsane.2 w hnext
      | ret r =>
        cases r with
        | none => trivial
        | some m => exact hsane m rfl

include hexec in
theorem good_step_iff {s : System σ ρ μ} (hsane : s.Sane exec pre good holds) (hgood : good s.disk)
    (input : Input ω ι ο) :
    good (s.step exec boot op input).disk ↔ ¬ s.Spoils spoils input := by
  obtain ⟨disk, process⟩ := s
  cases process with
  | down | up =>
    cases input with
    | start | call | step | crash => exact iff_of_true hgood not_false
  | busy p =>
    cases input with
    | start | call | crash => exact iff_of_true hgood not_false
    | step w =>
      cases p with
      | call c => exact hexec w c disk hgood hsane.1
      | ret r =>
        cases r with
        | none | some => exact iff_of_true hgood not_false

include hboot hop hexec in
/-- **The state outside stays good exactly as long as no command spoils it**, in every
run with any crashes; and so does what follows from it and a sane process. -/
theorem throughout_iff {R : System σ ρ μ → Prop}
    (hR : ∀ s, s.Sane exec pre good holds → good s.disk → R s) {s : System σ ρ μ}
    (hsane : s.Sane exec pre good holds) (hgood : good s.disk) (inputs : List (Input ω ι ο)) :
    Along.Throughout (step exec boot op) (fun s => good s.disk ∧ R s) inputs s ↔
      Along.EachStep (step exec boot op) (fun s input => ¬ s.Spoils spoils input) inputs s := by
  refine Along.throughout_iff_eachStep
    (I := fun s => s.Sane exec pre good holds ∧ good s.disk) ?_ ?_ ⟨hsane, hgood⟩
    ⟨hgood, hR s hsane hgood⟩
  · rintro s input ⟨hsane, hgood⟩ ⟨hnext, -⟩
    exact ⟨sane_step hboot hop hsane hgood input hnext, hnext⟩
  rintro s input ⟨hsane, hgood⟩ -
  rw [← good_step_iff hexec hsane hgood input]
  constructor
  · exact fun h => h.1
  · intro hnext
    exact ⟨hnext, hR _ (sane_step hboot hop hsane hgood input hnext) hnext⟩

end System

end Crash
