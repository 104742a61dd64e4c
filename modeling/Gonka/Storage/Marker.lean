/-
The `.pg-bound` marker guards the sessions in Postgres.

The marker is written ahead of every insert and removed only when Postgres is proved
empty.  One path does without it: a start in mode postgres copies the sessions of
SQLite first, moves the SQLite files away, and writes the marker last.

Main results: `guarded_throughout_iff`, `crash_after_quarantine`.
-/
import Gonka.Storage.Modes

namespace Devshard.Storage

open Crash OrdMap Option

/-! ### Guards -/

namespace Store

def inMeta (s : Store) (escrow : ℕ) : Bool := (s.metaDB.bind fun idx => idx.get? escrow).isSome

/-- Postgres holds the escrow, which got there through this directory. -/
def Held (s : Store) (escrow : ℕ) : Prop := escrow ∈ s.through ∧ (s.sessions.get? escrow).isSome

instance (s : Store) (escrow : ℕ) : Decidable (s.Held escrow) := by
  unfold Held
  infer_instance

/-- What Postgres holds is marked, or still in SQLite's index. -/
def Guarded (s : Store) : Prop := ∀ escrow, s.Held escrow → s.marker = true ∨ s.inMeta escrow = true

instance (s : Store) : Decidable s.Guarded :=
  decidable_of_iff (∀ escrow ∈ s.through, (s.sessions.get? escrow).isSome →
    s.marker = true ∨ s.inMeta escrow = true)
    ⟨fun h escrow hheld => h escrow hheld.1 hheld.2, fun h escrow hmem hsome => h escrow ⟨hmem, hsome⟩⟩

end Store

def Pre : Command → Store → Prop
  | .pgCreate escrow _, s | .pgCopy escrow, s => s.marker = true ∨ s.inMeta escrow = true
  | .removePGBound, s => s.sessions = ∅
  | _, _ => True

/-- The command takes a session out of SQLite's index that Postgres holds and nothing
marks: the rename of `quarantineSQLiteArtifacts`, a prune of SQLite, or the removal of a
stale mapping when SQLite is opened. -/
def Unguards (w : Crash.Fault) : Command → Store → Prop
  | .quarantineMeta, s => w = .none ∧ s.marker = false ∧ ∃ escrow ∈ s.through, (s.sessions.get? escrow).isSome
  | .pruneMeta cut, s => w ≠ .before ∧ s.marker = false ∧
      ∃ escrow ∈ s.through, (s.sessions.get? escrow).isSome ∧
        (s.metaDB.bind fun idx => idx.get? escrow).any cut.drops
  | .deleteMeta escrow epoch, s => w ≠ .before ∧ s.marker = false ∧
      escrow ∈ s.through ∧ (s.sessions.get? escrow).isSome ∧
        (s.metaDB.bind fun idx => idx.get? escrow) = some epoch
  | _, _ => False

instance (w : Crash.Fault) (c : Command) (s : Store) : Decidable (Unguards w c s) := by
  unfold Unguards
  split
  · infer_instance
  · infer_instance
  · infer_instance
  · exact .isFalse not_false

theorem write_cases (w : Crash.Fault) (s s' : Store) :
    (write w s s').2 = s ∧ w = .before ∨ (write w s s').2 = s' ∧ w ≠ .before := by
  cases w with
  | none => exact .inr ⟨rfl, nofun⟩
  | before => exact .inl ⟨rfl, rfl⟩
  | after => exact .inr ⟨rfl, nofun⟩

theorem syscall_cases (w : Crash.Fault) (s s' : Store) :
    (syscall w s s').2 = s ∧ w ≠ .none ∨ (syscall w s s').2 = s' ∧ w = .none := by
  unfold syscall
  split
  · next h => exact .inr ⟨rfl, h⟩
  · next h => exact .inl ⟨rfl, h⟩

variable {w : Crash.Fault} {s' : Store} {escrow : ℕ} {pg : Sessions}

variable {s : Store}

theorem write_keeps {P : Store → Prop} (h : P s) (h' : P s') : P (write w s s').2 := by
  rcases write_cases w s s' with ⟨heq, -⟩ | ⟨heq, -⟩
  · rw [heq]
    exact h
  · rw [heq]
    exact h'

theorem syscall_keeps {P : Store → Prop} (h : P s) (h' : P s') : P (syscall w s s').2 := by
  rcases syscall_cases w s s' with ⟨heq, -⟩ | ⟨heq, -⟩
  · rw [heq]
    exact h
  · rw [heq]
    exact h'

theorem query_eq_some {α : Type} {answer result : α}
    (h : (query w answer s).1 = some result) : answer = result := by
  simp only [query] at h
  split at h
  · exact some_inj.mp h
  · cases h

def Command.Local : Command → Prop
  | .hasSQLiteArtifacts | .openMeta | .readEpochFiles | .deleteMeta _ _ | .insertMeta _ _
  | .pruneMeta _ | .openEpochFile _ | .insertSession _ _ | .listEpochFiles | .removeEpochFile _
  | .closeSQLite | .quarantineMeta | .quarantineEpochFile _ => True
  | _ => False

/-- The marker and the tables in Postgres are as before. -/
structure SameRemote (s s' : Store) : Prop where
  marker : s'.marker = s.marker
  sessions : s'.sessions = s.sessions
  index : s'.index = s.index
  through : s'.through = s.through

theorem SameRemote.refl (s : Store) : SameRemote s s := ⟨rfl, rfl, rfl, rfl⟩

theorem SameRemote.trans {s'' : Store} (h : SameRemote s s') (h' : SameRemote s' s'') :
    SameRemote s s'' :=
  ⟨h'.marker.trans h.marker, h'.sessions.trans h.sessions, h'.index.trans h.index,
    h'.through.trans h.through⟩

theorem exec_local (w : Crash.Fault) {c : Command} (hc : c.Local) (s : Store) :
    SameRemote s (exec w c s).2 := by
  cases c with
  | hasSQLiteArtifacts => exact .refl s
  | openMeta =>
    cases w with
    | none => exact ⟨rfl, rfl, rfl, rfl⟩
    | before => exact .refl s
    | after => exact ⟨rfl, rfl, rfl, rfl⟩
  | readEpochFiles =>
    simp only [exec]
    split <;> exact .refl s
  | deleteMeta => exact write_keeps (.refl s) ⟨rfl, rfl, rfl, rfl⟩
  | insertMeta =>
    simp only [exec]
    split
    · exact .refl s
    split
    · exact .refl s
    · exact write_keeps (.refl s) ⟨rfl, rfl, rfl, rfl⟩
  | pruneMeta => exact write_keeps (.refl s) ⟨rfl, rfl, rfl, rfl⟩
  | openEpochFile =>
    simp only [exec]
    split
    · exact write_keeps (.refl s) (.refl s)
    · exact write_keeps (.refl s) ⟨rfl, rfl, rfl, rfl⟩
  | insertSession => exact write_keeps (.refl s) ⟨rfl, rfl, rfl, rfl⟩
  | listEpochFiles => exact .refl s
  | removeEpochFile => exact syscall_keeps (.refl s) ⟨rfl, rfl, rfl, rfl⟩
  | closeSQLite => exact write_keeps (.refl s) (.refl s)
  | quarantineMeta | quarantineEpochFile => exact syscall_keeps (.refl s) ⟨rfl, rfl, rfl, rfl⟩
  | _ => exact hc.elim

/-! ### One command -/

theorem Store.Guarded.of_held (h : s.Guarded) (hheld : ∀ escrow, s'.Held escrow → s.Held escrow)
    (hmarker : s'.marker = s.marker)
    (hmeta : ∀ escrow, s.inMeta escrow = true → s'.inMeta escrow = true) : s'.Guarded := by
  intro escrow hescrow
  rw [hmarker]
  exact (h escrow (hheld escrow hescrow)).imp_right (hmeta escrow)

theorem Store.Guarded.of_sameRemote (h : s.Guarded) (hsame : SameRemote s s')
    (hmeta : ∀ escrow, s.inMeta escrow = true → s'.inMeta escrow = true) : s'.Guarded := by
  refine h.of_held (fun escrow hheld => ?_) hsame.marker hmeta
  unfold Store.Held at hheld
  rwa [hsame.sessions, hsame.through] at hheld

theorem get?_filter_isSome {p : ℕ → ℕ → Bool} {m : Sessions} {k : ℕ}
    (h : ((m.filter p).get? k).isSome) : (m.get? k).isSome := by
  rw [get?_filter] at h
  obtain ⟨v, hv⟩ := isSome_iff_exists.mp h
  exact isSome_iff_exists.mpr ⟨v, (filter_eq_some_iff.mp hv).1⟩

theorem guarded_filter_iff (hg : s.Guarded) (p : ℕ → ℕ → Bool) :
    ({ s with metaDB := s.metaDB.map (OrdMap.filter p) } : Store).Guarded ↔
      ¬ (s.marker = false ∧ ∃ escrow ∈ s.through, (s.sessions.get? escrow).isSome ∧
        (s.metaDB.bind fun idx => idx.get? escrow).any (fun epoch => ¬ p escrow epoch)) := by
  have hmeta : ∀ escrow, ({ s with metaDB := s.metaDB.map (OrdMap.filter p) } : Store).inMeta escrow
      = ((s.metaDB.bind fun idx => idx.get? escrow).filter (p escrow)).isSome := by
    intro escrow
    cases s.metaDB with
    | none => rfl
    | some idx =>
      show ((idx.filter p).get? escrow).isSome = _
      rw [get?_filter]
      rfl
  constructor
  · rintro hg' ⟨hmarker, escrow, hthrough, hsession, hdrop⟩
    rcases hg' escrow ⟨hthrough, hsession⟩ with hmarked | hkept
    · exact Bool.false_ne_true (hmarker.symm.trans hmarked)
    rw [hmeta] at hkept
    obtain ⟨_, hepoch, hnot⟩ := (any_eq_true _ _).mp hdrop
    rw [hepoch, filter_some, if_neg (of_decide_eq_true hnot)] at hkept
    cases hkept
  · rintro hfree escrow ⟨hthrough, hsession⟩
    by_cases hmarker : s.marker = true
    · exact .inl hmarker
    right
    have hmarker : s.marker = false := Bool.eq_false_iff.mpr hmarker
    have hin := (hg escrow ⟨hthrough, hsession⟩).resolve_left (Bool.eq_false_iff.mp hmarker)
    rw [hmeta]
    obtain ⟨epoch, hepoch⟩ := isSome_iff_exists.mp hin
    rw [hepoch, filter_some]
    by_cases hp : p escrow epoch = true
    · rw [if_pos hp]
      rfl
    · refine absurd ⟨hmarker, escrow, hthrough, hsession, ?_⟩ hfree
      rw [hepoch, any_some]
      exact decide_eq_true hp

theorem write_guarded_iff {lost : Prop} (hg : s.Guarded)
    (h : s'.Guarded ↔ ¬ lost) : (write w s s').2.Guarded ↔ ¬ (w ≠ .before ∧ lost) := by
  rcases write_cases w s s' with ⟨heq, hw⟩ | ⟨heq, hw⟩
  · rw [heq]
    exact iff_of_true hg fun hlost => hlost.1 hw
  · rw [heq, h]
    exact not_congr (iff_and_self.mpr fun _ => hw)

theorem syscall_guarded_iff {lost : Prop} (hg : s.Guarded)
    (h : s'.Guarded ↔ ¬ lost) : (syscall w s s').2.Guarded ↔ ¬ (w = .none ∧ lost) := by
  rcases syscall_cases w s s' with ⟨heq, hw⟩ | ⟨heq, hw⟩
  · rw [heq]
    exact iff_of_true hg fun hlost => hw hlost.1
  · rw [heq, h]
    exact not_congr (iff_and_self.mpr fun _ => hw)

theorem guarded_quarantine_iff (s : Store) : ({ s with metaDB := none } : Store).Guarded ↔
    ¬ (s.marker = false ∧ ∃ escrow ∈ s.through, (s.sessions.get? escrow).isSome) := by
  constructor
  · rintro hg ⟨hmarker, escrow, hthrough, hsession⟩
    rcases hg escrow ⟨hthrough, hsession⟩ with hmarked | hkept
    · exact Bool.false_ne_true (hmarker.symm.trans hmarked)
    · cases hkept
  · rintro hfree escrow ⟨hthrough, hsession⟩
    left
    by_contra hmarker
    exact hfree ⟨Bool.eq_false_iff.mpr hmarker, escrow, hthrough, hsession⟩

theorem Store.Guarded.add (hg : s.Guarded) (hguard : s.marker = true ∨ s.inMeta escrow = true)
    (hheld : ∀ escrow', s'.Held escrow' → escrow' = escrow ∨ s.Held escrow')
    (hmarker : s'.marker = s.marker) (hmeta : s'.metaDB = s.metaDB) : s'.Guarded := by
  intro escrow' hescrow
  have hin : s'.inMeta escrow' = s.inMeta escrow' := by
    unfold Store.inMeta
    rw [hmeta]
  rw [hmarker, hin]
  rcases hheld escrow' hescrow with rfl | hold
  · exact hguard
  · exact hg escrow' hold

theorem guarded_openMeta (w : Crash.Fault) (hg : s.Guarded) : (exec w .openMeta s).2.Guarded := by
  have hopen : ({ s with metaDB := some (s.metaDB.getD ∅) } : Store).Guarded := by
    refine hg.of_sameRemote ⟨rfl, rfl, rfl, rfl⟩ fun escrow hin => ?_
    unfold Store.inMeta at hin ⊢
    cases hmeta : s.metaDB with
    | none =>
      rw [hmeta] at hin
      cases hin
    | some => rwa [hmeta] at hin
  cases w with
  | none => exact hopen
  | before => exact hg
  | after => exact hopen

theorem guarded_insertMeta (w : Crash.Fault) (hg : s.Guarded) (escrow epoch : ℕ) :
    (exec w (.insertMeta escrow epoch) s).2.Guarded := by
  simp only [exec]
  split
  · exact hg
  next idx hidx =>
  split
  · exact hg
  refine write_keeps hg (hg.of_sameRemote ⟨rfl, rfl, rfl, rfl⟩ fun escrow' hin => ?_)
  unfold Store.inMeta at hin ⊢
  rw [hidx] at hin
  show ((idx.insert escrow epoch).get? escrow').isSome = true
  rw [get?_insert]
  split
  · rfl
  · exact hin

theorem guarded_pgCreate (w : Crash.Fault) (hg : s.Guarded) (epoch : ℕ)
    (hguard : s.marker = true ∨ s.inMeta escrow = true) :
    (exec w (.pgCreate escrow epoch) s).2.Guarded := by
  simp only [exec]
  split
  · exact hg
  refine write_keeps hg (hg.add hguard (fun escrow' hheld => ?_) rfl rfl)
  obtain ⟨hthrough, hsession⟩ := hheld
  by_cases heq : escrow' = escrow
  · exact .inl heq
  right
  rw [get?_insert_of_ne _ _ heq] at hsession
  exact ⟨(List.mem_cons.mp hthrough).resolve_left heq, hsession⟩

/-- **One command.**  Issued where it may be, a command keeps the guards exactly if it
does not take away the last one. -/
theorem guarded_exec_iff (w : Crash.Fault) (c : Command) (s : Store) (hg : s.Guarded) (hpre : Pre c s) :
    (exec w c s).2.Guarded ↔ ¬ Unguards w c s := by
  cases c with
  | quarantineMeta => exact syscall_guarded_iff hg (guarded_quarantine_iff s)
  | pruneMeta =>
    refine write_guarded_iff hg ((guarded_filter_iff hg _).trans ?_)
    simp only [not_not, Bool.decide_eq_true, decide_eq_true_eq]
  | deleteMeta escrow epoch =>
    refine write_guarded_iff hg ((guarded_filter_iff hg _).trans (not_congr (and_congr_right fun _ => ?_)))
    simp only [any_eq_true, decide_eq_true_eq, not_not]
    constructor
    · rintro ⟨_, hthrough, hsession, _, hepoch, rfl, rfl⟩
      exact ⟨hthrough, hsession, hepoch⟩
    · rintro ⟨hthrough, hsession, hepoch⟩
      exact ⟨escrow, hthrough, hsession, epoch, hepoch, rfl, rfl⟩
  | openMeta => exact iff_of_true (guarded_openMeta w hg) not_false
  | insertMeta escrow epoch => exact iff_of_true (guarded_insertMeta w hg escrow epoch) not_false
  | pgCreate _ epoch => exact iff_of_true (guarded_pgCreate w hg epoch hpre) not_false
  | pgCopy =>
    refine iff_of_true (write_keeps hg (hg.add hpre (fun escrow' hheld => ?_) rfl rfl)) not_false
    exact (List.mem_cons.mp hheld.1).imp_right fun hold => ⟨hold, hheld.2⟩
  | removePGBound =>
    -- Postgres is empty: nothing needs a guard
    refine iff_of_true (syscall_keeps hg fun escrow hheld => ?_) not_false
    have hsession : (s.sessions.get? escrow).isSome = true := hheld.2
    rw [show s.sessions = ∅ from hpre] at hsession
    cases hsession
  | writePGBound => exact iff_of_true (write_keeps hg fun escrow _ => .inl rfl) not_false
  | pgDropPartition =>
    exact iff_of_true (write_keeps hg (hg.of_held
      (fun escrow hheld => ⟨hheld.1, get?_filter_isSome hheld.2⟩) rfl fun _ h => h)) not_false
  | openEpochFile =>
    refine iff_of_true ?_ not_false
    simp only [exec]
    split <;> exact write_keeps hg hg
  | readEpochFiles =>
    refine iff_of_true ?_ not_false
    simp only [exec]
    split <;> exact hg
  | removeEpochFile | quarantineEpochFile => exact iff_of_true (syscall_keeps hg hg) not_false
  | insertSession | closeSQLite | pgConnect | pgDeleteStale | pgInsertMissing | pgDeleteIndex =>
    exact iff_of_true (write_keeps hg hg) not_false
  | readPGBound | hasSQLiteArtifacts | listEpochFiles | pgSessions | pgLookup | pgSessionMeta
  | pgPartitions | pgHasAnySessionsLive => exact iff_of_true hg not_false

/-! ### SQLite -/

/-- The program issues its commands where they may be issued, and ends in `Q`. -/
abbrev Obey {α : Type} (p : Prog α) (Q : α → Store → Prop) (s : Store) : Prop :=
  Crash.Obeys exec Pre Store.Guarded p Q s

theorem obey_local {α : Type} {p : Prog α} (h : p.All Command.Local) (s : Store) :
    Obey p (fun _ s' => SameRemote s s') s := by
  refine obeys_of_all (fun c s' hc => ?_) (fun w c s' hc hsame => hsame.trans (exec_local w hc s')) h
    (.refl s)
  cases c with
  | pgCreate | pgCopy | removePGBound => exact hc.elim
  | _ => trivial

theorem all_issue {C : Command → Prop} {c : Command} (h : C c) : (issue c).All C :=
  Crash.Prog.all_issue h

theorem removeStaleMeta_local (found : Sessions) (mapped : List (ℕ × ℕ)) (idx : Sessions) :
    (removeStaleMeta found mapped idx).All Command.Local := by
  induction mapped generalizing idx with
  | nil => trivial
  | cons _ _ ih =>
    unfold removeStaleMeta
    split
    · exact ih idx
    refine .bind (all_issue trivial) fun done => ?_
    split
    · exact ih _
    · trivial

theorem repairMeta_local (found : List (ℕ × ℕ)) (idx : Sessions) :
    (repairMeta found idx).All Command.Local := by
  induction found generalizing idx with
  | nil => trivial
  | cons _ _ ih =>
    unfold repairMeta
    split
    · split
      · trivial
      · exact ih idx
    · refine .bind (all_issue trivial) fun done => ?_
      split
      · exact ih _
      · trivial

theorem newSQLite_local : newSQLite.All Command.Local := by
  refine .bind (all_issue trivial) fun opened => ?_
  split
  · trivial
  refine .bind (all_issue trivial) fun read => ?_
  split
  · trivial
  refine .bind (removeStaleMeta_local _ _ _) fun left => ?_
  split
  · trivial
  · exact repairMeta_local _ _

theorem openSQLiteDrain_local : openSQLiteDrain.All Command.Local := by
  refine .bind (all_issue trivial) fun artifacts => ?_
  split
  · trivial
  · trivial
  refine .bind newSQLite_local fun opened => ?_
  split
  · trivial
  split
  · trivial
  refine .bind (all_issue trivial) fun closed => ?_
  split <;> trivial

theorem quarantineSQLiteArtifacts_local : quarantineSQLiteArtifacts.All Command.Local := by
  have hfiles : ∀ epochs, (quarantineEpochFiles epochs).All Command.Local := by
    intro epochs
    induction epochs with
    | nil => trivial
    | cons _ _ ih =>
      refine .bind (all_issue trivial) fun done => ?_
      split
      · exact ih
      · trivial
  refine .bind (all_issue trivial) fun done => ?_
  split
  · refine .bind (all_issue trivial) fun files => ?_
    split
    · trivial
    · exact hfiles _
  · trivial

/-- The index in memory is part of the one on disk. -/
def Mapped (idx : Sessions) (s : Store) : Prop :=
  ∀ escrow, (idx.get? escrow).isSome = true → s.inMeta escrow = true

/-- Where `NewSQLite` succeeds, what it has in memory is on disk. -/
def Opened (opened : Option Sessions) (s : Store) : Prop := ∀ idx, opened = some idx → Mapped idx s

theorem removeStaleMeta_mapped (found : Sessions) (mapped : List (ℕ × ℕ)) {idx : Sessions}
    (h : Mapped idx s) : Obey (removeStaleMeta found mapped idx) Opened s := by
  induction mapped generalizing idx s with
  | nil =>
    rintro _ ⟨⟩
    exact h
  | cons _ _ ih =>
    unfold removeStaleMeta
    split
    · exact ih h
    refine .bind (obeys_issue trivial fun w _ => ?_)
    cases w with
    | none =>
      refine ih fun escrow' hescrow' => ?_
      rw [get?_erase] at hescrow'
      split at hescrow'
      · cases hescrow'
      next hne =>
      have hin := h escrow' hescrow'
      unfold Store.inMeta at hin ⊢
      cases hmeta : s.metaDB with
      | none =>
        rw [hmeta] at hin
        cases hin
      | some idx' =>
        rw [hmeta] at hin
        obtain ⟨epoch', hepoch'⟩ := isSome_iff_exists.mp hin
        have hepoch' : idx'.get? escrow' = some epoch' := hepoch'
        simp only [exec, write, hmeta, map_some, bind_some, get?_filter, hepoch',
          filter_some, decide_not, hne, false_and, decide_false, Bool.not_false, if_true,
          isSome_some]
    | before =>
      rintro _ ⟨⟩
    | after =>
      rintro _ ⟨⟩

theorem insertMeta_done {epoch : ℕ}
    (h : (exec w (.insertMeta escrow epoch) s).1 = true) : ∃ idx, s.metaDB = some idx ∧
      (exec w (.insertMeta escrow epoch) s).2 = { s with metaDB := some (idx.insert escrow epoch) } := by
  simp only [exec] at h ⊢
  split at h
  · cases h
  next idx hidx =>
  rw [hidx]
  refine ⟨idx, rfl, ?_⟩
  split at h
  · cases h
  next hnew =>
  simp only [if_neg hnew]
  cases w with
  | none => rfl
  | before => cases h
  | after => cases h

theorem repairMeta_mapped (found : List (ℕ × ℕ)) {idx : Sessions} (h : Mapped idx s) :
    Obey (repairMeta found idx) Opened s := by
  induction found generalizing idx s with
  | nil =>
    rintro _ ⟨⟩
    exact h
  | cons entry _ ih =>
    obtain ⟨escrow, epoch⟩ := entry
    unfold repairMeta
    split
    · split
      · rintro _ ⟨⟩
      · exact ih h
    refine .bind (obeys_issue trivial fun w _ => ?_)
    split
    · next hdone =>
      obtain ⟨idx', hidx', hnext⟩ := insertMeta_done hdone
      rw [hnext]
      refine ih fun escrow' hescrow' => ?_
      have hin := h escrow'
      unfold Store.inMeta at hin ⊢
      rw [hidx'] at hin
      show ((idx'.insert escrow epoch).get? escrow').isSome = true
      rw [get?_insert] at hescrow' ⊢
      split
      · rfl
      · next hne =>
        rw [if_neg hne] at hescrow'
        exact hin hescrow'
    · rintro _ ⟨⟩

theorem newSQLite_mapped (s : Store) : Obey newSQLite Opened s := by
  refine .bind (obeys_issue trivial fun w _ => ?_)
  cases w with
  | before =>
    rintro _ ⟨⟩
  | after =>
    rintro _ ⟨⟩
  | none =>
    refine .bind (obeys_issue trivial fun w _ => ?_)
    split
    · rintro idx ⟨⟩
    next found _ =>
    have hmapped : Mapped (s.metaDB.getD ∅)
        (exec w .readEpochFiles { s with metaDB := some (s.metaDB.getD ∅) }).2 := by
      intro escrow hescrow
      simp only [exec]
      split <;> exact hescrow
    refine .bind ((removeStaleMeta_mapped found _ hmapped).mono fun left s' hleft => ?_)
    split
    · rintro idx ⟨⟩
    · next idx => exact repairMeta_mapped _ (hleft idx rfl)

theorem openSQLiteDrain_obeys (s : Store) : Obey openSQLiteDrain
    (fun opened s' => (∀ idx, opened = some (some idx) → Mapped idx s') ∧ SameRemote s s') s := by
  refine Obeys.and ?_ (obey_local openSQLiteDrain_local s)
  refine .bind (obeys_issue trivial fun w _ => ?_)
  split
  · rintro idx ⟨⟩
  · rintro idx ⟨⟩
  refine .bind ((newSQLite_mapped _).mono fun opened s' hopened => ?_)
  split
  · rintro idx ⟨⟩
  next idx =>
  split
  · rintro _ ⟨⟩
    exact hopened idx rfl
  refine .bind (obeys_issue trivial fun w _ => ?_)
  split <;> rintro _ ⟨⟩

/-- The index table has every session, with its epoch. -/
def Indexed (s : Store) : Prop :=
  ∀ escrow epoch, s.sessions.get? escrow = some epoch → s.index.get? escrow = some epoch

def Fresh (pg : Sessions) (s : Store) : Prop :=
  ∀ escrow, (s.sessions.get? escrow).isSome = true → (pg.get? escrow).isSome = true

theorem Indexed.congr (h : Indexed s) (hsessions : s'.sessions = s.sessions)
    (hindex : s'.index = s.index) : Indexed s' := by
  unfold Indexed
  rw [hsessions, hindex]
  exact h

theorem Fresh.congr (h : Fresh pg s) (hsessions : s'.sessions = s.sessions) : Fresh pg s' := by
  unfold Fresh
  rw [hsessions]
  exact h

theorem sessions_eq_empty {m : Sessions}
    (h : ∀ escrow, (s.sessions.get? escrow).isSome = true → (m.get? escrow).isSome = true)
    (hempty : m.keys = []) : s.sessions = ∅ := by
  rw [eq_empty_of_keys hempty] at h
  refine ext_get? fun escrow => ?_
  cases hget : s.sessions.get? escrow with
  | none => rfl
  | some epoch => cases h escrow (isSome_iff_exists.mpr ⟨epoch, hget⟩)

theorem openPostgresReady_obeys (s : Store) : Obey openPostgresReady
    (fun opened s' => (∀ pg, opened = some pg → Fresh pg s' ∧ Indexed s') ∧ s'.marker = s.marker) s := by
  refine .bind (obeys_issue trivial fun w _ => ?_)
  have hconnect : (exec w .pgConnect s).2 = s := write_keeps (P := fun s' => s' = s) rfl rfl
  rw [hconnect]
  split
  swap
  · exact ⟨nofun, rfl⟩
  refine .bind (obeys_issue trivial fun w _ => ?_)
  split
  · exact ⟨nofun, rfl⟩
  next loaded hloaded =>
  obtain rfl : s.sessions = loaded := query_eq_some hloaded
  refine .bind (obeys_issue trivial fun w _ => ?_)
  cases w with
  | before | after => exact ⟨nofun, rfl⟩
  | none =>
    refine .bind (obeys_issue trivial fun w _ => ?_)
    cases w with
    | before | after => exact ⟨nofun, rfl⟩
    | none =>
      refine ⟨?_, rfl⟩
      rintro _ ⟨⟩
      refine ⟨fun escrow h => h, fun escrow epoch hsession => ?_⟩
      have hsession : s.sessions.get? escrow = some epoch := hsession
      show ((s.index.filter fun escrow epoch => s.sessions.get? escrow = some epoch).addMissing
        s.sessions).get? escrow = some epoch
      rw [get?_addMissing, get?_filter]
      cases hget : s.index.get? escrow with
      | none =>
        exact hsession
      | some epoch' =>
        rw [filter_some]
        split
        · next hmatch =>
          have hmatch : s.sessions.get? escrow = some epoch' := of_decide_eq_true hmatch
          rw [hsession] at hmatch
          exact hmatch.symm
        · exact hsession

/-- The marker is there when `ensurePGBoundLocked` succeeds. -/
theorem ensurePGBound_obeys {pgBoundSet : Bool} (hset : pgBoundSet = true → s.marker = true) :
    Obey (ensurePGBound pgBoundSet) (fun r s' => (r.1 = true ∨ r.2 = true → s'.marker = true) ∧
      s'.sessions = s.sessions ∧ s'.index = s.index) s := by
  unfold ensurePGBound
  split
  · next h => exact ⟨fun _ => hset h, rfl, rfl⟩
  refine .bind (obeys_issue trivial fun w _ => ?_)
  cases w with
  | none => exact ⟨fun _ => rfl, rfl, rfl⟩
  | before | after => exact ⟨nofun, rfl, rfl⟩

theorem reconcilePGBound_obeys {pgBoundSet : Bool} (hfresh : Fresh pg s)
    (hset : pgBoundSet = true → s.marker = true) :
    Obey (reconcilePGBound pg pgBoundSet) (fun r s' => (r.2 = true → s'.marker = true) ∧
      s'.sessions = s.sessions ∧ s'.index = s.index) s := by
  refine .bind (obeys_issue trivial fun w _ => ?_)
  split
  · exact ⟨hset, rfl, rfl⟩
  next present hpresent =>
  obtain rfl : s.marker = present := query_eq_some hpresent
  split
  · exact (ensurePGBound_obeys fun h => h).mono fun r s' h => ⟨fun hr => h.1 (.inr hr), h.2⟩
  next hempty =>
  split
  · next hmarker =>
    refine .bind (obeys_issue (sessions_eq_empty hfresh (not_not.mp hempty)) fun w _ => ?_)
    cases w with
    | none => exact ⟨nofun, rfl, rfl⟩
    | before | after => exact ⟨fun _ => hmarker, rfl, rfl⟩
  · exact ⟨nofun, rfl, rfl⟩

/-! ### Starts -/

structure Router.Holds (r : Router) (s : Store) : Prop where
  bound : r.pgBoundSet = true → s.marker = true
  indexed : r.pg.isSome = true → Indexed s
  /-- SQLite alone takes new sessions only where nothing marks Postgres. -/
  alone : r.pg = none → r.degradedOwnerOnly = false → s.marker = false
  waiting : r.reconnects = true → r.pg = none → r.degradedOwnerOnly = true

def Booted (booted : Option Router) (s : Store) : Prop := ∀ r, booted = some r → r.Holds s

theorem pgCreate_indexed (w : Crash.Fault) (h : Indexed s) (escrow epoch : ℕ) :
    Indexed (exec w (.pgCreate escrow epoch) s).2 := by
  simp only [exec]
  split
  · exact h
  refine write_keeps h fun escrow' epoch' hsession => ?_
  rw [get?_insert] at hsession ⊢
  split
  · next heq => rwa [if_pos heq] at hsession
  · next hne =>
    rw [if_neg hne] at hsession
    exact h escrow' epoch' hsession

theorem pgCreate_same (w : Crash.Fault) (s : Store) (escrow epoch : ℕ) :
    (exec w (.pgCreate escrow epoch) s).2.metaDB = s.metaDB ∧
    (exec w (.pgCreate escrow epoch) s).2.marker = s.marker := by
  simp only [exec]
  split
  · exact ⟨rfl, rfl⟩
  · exact write_keeps (P := fun s' => s'.metaDB = s.metaDB ∧ s'.marker = s.marker) ⟨rfl, rfl⟩ ⟨rfl, rfl⟩

theorem pgCreate_fresh {epoch : ℕ} (h : Fresh pg s)
    (hdone : (exec w (.pgCreate escrow epoch) s).1 = true) :
    Fresh (pg.insert escrow epoch) (exec w (.pgCreate escrow epoch) s).2 := by
  simp only [exec] at hdone ⊢
  split at hdone
  · cases hdone
  next hepoch =>
  rw [if_neg hepoch]
  cases w with
  | before | after => cases hdone
  | none =>
    intro escrow' hsession
    have hsession : ((s.sessions.insert escrow epoch).get? escrow').isSome = true := hsession
    rw [get?_insert] at hsession ⊢
    split
    · rfl
    · next hne =>
      rw [if_neg hne] at hsession
      exact h escrow' hsession

theorem Fresh.insert (h : Fresh pg s) (escrow epoch : ℕ) : Fresh (pg.insert escrow epoch) s := by
  intro escrow' hsession
  rw [get?_insert]
  split
  · rfl
  · exact h escrow' hsession

/-- What a migration leaves: the files as they were, the tables indexed, and after a
success the index in memory complete. -/
def Migrated (pg : Sessions) (s : Store) (r : Bool × Sessions) (s' : Store) : Prop :=
  s'.metaDB = s.metaDB ∧ Indexed s' ∧ (Fresh pg s → r.1 = true → Fresh r.2 s')

theorem migrateOneSQLiteSession_obeys (epoch : ℕ) (pg : Sessions) (hin : s.inMeta escrow = true)
    (hindexed : Indexed s) :
    Obey (migrateOneSQLiteSession escrow epoch pg) (Migrated pg s) s := by
  have hcopy : ∀ s', s'.metaDB = s.metaDB → Indexed s' → (Fresh pg s → Fresh (pg.insert escrow epoch) s') →
      Obey (issue (.pgCopy escrow) >>= fun copied => pure (copied, pg.insert escrow epoch))
        (Migrated pg s) s' := by
    intro s' hmeta hindexed' hfresh
    have hin' : s'.inMeta escrow = true := by
      unfold Store.inMeta
      rw [hmeta]
      exact hin
    refine .bind (obeys_issue (.inr hin') fun w _ => ?_)
    cases w with
    | none => exact ⟨hmeta, hindexed', fun h _ => hfresh h⟩
    | before | after => exact ⟨hmeta, hindexed', nofun⟩
  refine .bind (obeys_issue trivial fun w _ => ?_)
  split
  · exact ⟨rfl, hindexed, nofun⟩
  · split
    · exact ⟨rfl, hindexed, nofun⟩
    · exact hcopy s rfl hindexed fun h => h.insert escrow epoch
  · refine .bind (obeys_issue (.inr hin) fun w _ => ?_)
    obtain ⟨hmeta, -⟩ := pgCreate_same w s escrow epoch
    have hindexed' := pgCreate_indexed w hindexed escrow epoch
    split
    · next hdone => exact hcopy _ hmeta hindexed' fun h => pgCreate_fresh h hdone
    · exact ⟨hmeta, hindexed', nofun⟩

theorem migrateSQLiteSessions_obeys {list : List (ℕ × ℕ)} (pg : Sessions)
    (hin : ∀ entry ∈ list, s.inMeta entry.1 = true) (hindexed : Indexed s) :
    Obey (migrateSQLiteSessions list pg) (Migrated pg s) s := by
  induction list generalizing pg s with
  | nil => exact ⟨rfl, hindexed, fun h _ => h⟩
  | cons entry list ih =>
    obtain ⟨_, epoch⟩ := entry
    refine .bind ((migrateOneSQLiteSession_obeys epoch pg (hin _ List.mem_cons_self) hindexed).mono
      fun r s₁ ⟨hmeta₁, hindexed₁, hfresh₁⟩ => ?_)
    have hin₁ : ∀ entry ∈ list, s₁.inMeta entry.1 = true := by
      intro entry hentry
      unfold Store.inMeta
      rw [hmeta₁]
      exact hin entry (List.mem_cons_of_mem _ hentry)
    refine .bind ((ih r.2 hin₁ hindexed₁).mono fun r' s₂ ⟨hmeta₂, hindexed₂, hfresh₂⟩ => ?_)
    refine ⟨hmeta₂.trans hmeta₁, hindexed₂, fun hfresh hall => ?_⟩
    obtain ⟨hone, hrest⟩ := (Bool.and_eq_true _ _).mp hall
    exact hfresh₂ (hfresh₁ hfresh hone) hrest

theorem migrateDrain_obeys {sqlite : Sessions} (hmapped : Mapped sqlite s) (hfresh : Fresh pg s)
    (hindexed : Indexed s) :
    Obey (migrateDrain sqlite pg) (fun migrated s' => ∀ pg', migrated = some pg' →
      Fresh pg' s' ∧ Indexed s') s := by
  have hin : ∀ entry ∈ sqlite.entries, s.inMeta entry.1 = true := fun entry hentry =>
    hmapped entry.1 (isSome_iff_exists.mpr ⟨entry.2, get?_eq_some_iff.mpr hentry⟩)
  refine .bind ((migrateSQLiteSessions_obeys pg hin hindexed).mono fun r s₁ hmigrated => ?_)
  obtain ⟨-, hindexed₁, hfresh₁⟩ := hmigrated
  refine .bind (obeys_issue trivial fun w _ => ?_)
  have hclose : (exec w .closeSQLite s₁).2 = s₁ := write_keeps (P := fun s' => s' = s₁) rfl rfl
  rw [hclose]
  split
  swap
  · rintro pg' ⟨⟩
  next hall =>
  have hfresh₁ := hfresh₁ hfresh ((Bool.and_eq_true _ _).mp hall).1
  refine .bind ((obey_local quarantineSQLiteArtifacts_local s₁).mono fun done s₂ hsame => ?_)
  split
  · rintro pg' ⟨⟩
    exact ⟨hfresh₁.congr hsame.sessions, hindexed₁.congr hsame.sessions hsame.index⟩
  · rintro _ ⟨⟩

theorem attachPostgres_obeys {sqlite : Option Sessions} (hfresh : Fresh pg s)
    (hindexed : Indexed s) : Obey (attachPostgres sqlite pg) Booted s := by
  have hunset : false = true → s.marker = true := nofun
  refine .bind ((reconcilePGBound_obeys hfresh hunset).mono
    fun r s' ⟨hbound, hsessions, hindex⟩ => ?_)
  split
  · rintro r' ⟨⟩
    exact ⟨hbound, fun _ => hindexed.congr hsessions hindex, nofun, nofun⟩
  · rintro _ ⟨⟩

theorem newHAStorage_obeys (s : Store) : Obey newHAStorage Booted s := by
  refine .bind ((openPostgresReady_obeys s).mono fun opened s₁ hopened => ?_)
  obtain ⟨hopened, -⟩ := hopened
  split
  · rintro r ⟨⟩
  next pg =>
  obtain ⟨hfresh, hindexed⟩ := hopened pg rfl
  refine .bind ((openSQLiteDrain_obeys s₁).mono fun drain s₂ hdrain => ?_)
  obtain ⟨hdrain, hsame⟩ := hdrain
  have hfresh₂ := hfresh.congr hsame.sessions
  have hindexed₂ := hindexed.congr hsame.sessions hsame.index
  split
  · rintro r ⟨⟩
  · exact attachPostgres_obeys hfresh₂ hindexed₂
  next sqlite =>
  refine .bind ((migrateDrain_obeys (hdrain sqlite rfl) hfresh₂ hindexed₂).mono
    fun migrated s₃ hmigrated => ?_)
  split
  · rintro r ⟨⟩
  · next pg' =>
    obtain ⟨hfresh₃, hindexed₃⟩ := hmigrated pg' rfl
    exact attachPostgres_obeys hfresh₃ hindexed₃

theorem newStorageLocal_obeys (s : Store) : Obey newStorageLocal Booted s := by
  refine .bind (obeys_issue trivial fun w _ => ?_)
  split
  · rintro r ⟨⟩
  · refine .bind ((openSQLiteDrain_obeys s).mono fun drain s₁ _ => ?_)
    split
    · rintro r ⟨⟩
      exact ⟨nofun, nofun, nofun, nofun⟩
    · rintro r ⟨⟩
  next hpresent =>
  have hmarker : s.marker = false := query_eq_some hpresent
  refine .bind ((obey_local newSQLite_local s).mono fun opened s₁ hsame => ?_)
  split
  · rintro r ⟨⟩
  · rintro r ⟨⟩
    exact ⟨nofun, nofun, fun _ _ => hsame.marker.trans hmarker, nofun⟩

theorem newStorageFlexible_obeys (s : Store) : Obey newStorageFlexible Booted s := by
  refine .bind ((openSQLiteDrain_obeys s).mono fun drain s₁ _ => ?_)
  split
  · rintro r ⟨⟩
  refine .bind ((openPostgresReady_obeys s₁).mono fun opened s₂ hopened => ?_)
  obtain ⟨hopened, -⟩ := hopened
  split
  · rintro r ⟨⟩
    exact ⟨nofun, nofun, nofun, fun _ _ => rfl⟩
  · next pg =>
    obtain ⟨hfresh, hindexed⟩ := hopened pg rfl
    exact attachPostgres_obeys hfresh hindexed

theorem newStorage_obeys (mode : Mode) (s : Store) : Obey (newStorage mode) Booted s := by
  cases mode with
  | postgres => exact newHAStorage_obeys s
  | sqlite => exact newStorageLocal_obeys s
  | hybrid => exact newStorageFlexible_obeys s

/-! ### Calls -/

namespace Router

variable {r : Router} {s : Store}

theorem Holds.of_sameRemote {s' : Store} (h : r.Holds s) (hsame : SameRemote s s')
    (sqlite : Option Sessions) : ({ r with sqlite } : Router).Holds s' where
  bound hset := hsame.marker.trans (h.bound hset)
  indexed hpg := (h.indexed hpg).congr hsame.sessions hsame.index
  alone hpg hdegraded := hsame.marker.trans (h.alone hpg hdegraded)
  waiting := h.waiting

theorem holds_attached {pg : Sessions} {pgBoundSet : Bool} (hbound : pgBoundSet = true → s.marker = true)
    (hindexed : Indexed s) (r : Router) :
    ({ r with pg := some pg, pgBoundSet } : Router).Holds s :=
  ⟨hbound, fun _ => hindexed, nofun, nofun⟩

theorem maybeClearPGBound_obeys (h : r.Holds s) : Obey r.maybeClearPGBound Router.Holds s := by
  unfold maybeClearPGBound
  split
  · exact h
  next hpg =>
  split
  · exact h
  have hindexed := h.indexed (by rw [hpg]; rfl)
  refine .bind (obeys_issue trivial fun w _ => ?_)
  split
  · next hlive =>
    have hempty : s.index.keys = [] := not_not.mp (of_decide_eq_false (query_eq_some hlive))
    have hsessions : s.sessions = ∅ := by
      refine sessions_eq_empty (fun escrow hsession => ?_) hempty
      obtain ⟨epoch, hepoch⟩ := isSome_iff_exists.mp hsession
      exact isSome_iff_exists.mpr ⟨epoch, hindexed escrow epoch hepoch⟩
    refine .bind (obeys_issue hsessions fun w _ => ?_)
    cases w with
    | none => exact ⟨nofun, fun _ => hindexed, fun hnone => (nomatch hpg.symm.trans hnone), h.waiting⟩
    | before | after => exact h
  · exact h

theorem insertSQLite_obeys (h : r.Holds s) (idx : Sessions) (escrow epoch : ℕ) :
    Obey (r.insertSQLite idx escrow epoch) Router.Holds s := by
  have hsame : ∀ {s' : Store}, SameRemote s s' → r.Holds s' := fun hsame => h.of_sameRemote hsame r.sqlite
  refine .bind (obeys_issue trivial fun w _ => ?_)
  have hopen := exec_local w (c := .openEpochFile epoch) trivial s
  split
  swap
  · exact hsame hopen
  refine .bind (obeys_issue trivial fun w _ => ?_)
  have hinsert := hopen.trans (exec_local w (c := .insertSession escrow epoch) trivial _)
  split
  swap
  · exact hsame hinsert
  split
  · exact hsame hinsert
  refine .bind (obeys_issue trivial fun w _ => ?_)
  have hmeta := hinsert.trans (exec_local w (c := .insertMeta escrow epoch) trivial _)
  split
  · exact h.of_sameRemote hmeta _
  · exact hsame hmeta

theorem createSQLite_obeys (h : r.Holds s) (escrow epoch : ℕ) :
    Obey (r.createSQLite escrow epoch) Router.Holds s := by
  unfold createSQLite
  split
  · exact h
  next idx _ =>
  split
  · split
    · exact h
    · exact insertSQLite_obeys h idx escrow epoch
  refine .bind (obeys_issue trivial fun w _ => ?_)
  have hread : r.Holds (exec w .readEpochFiles s).2 :=
    h.of_sameRemote (exec_local w (c := .readEpochFiles) trivial s) r.sqlite
  split
  · exact hread
  split
  · exact hread
  · exact insertSQLite_obeys hread idx escrow epoch

theorem createPostgres_obeys (h : r.Holds s) (escrow epoch : ℕ) :
    Obey (r.createPostgres escrow epoch) Router.Holds s := by
  unfold createPostgres
  split
  · exact h
  next hpg =>
  have hindexed := h.indexed (by rw [hpg]; rfl)
  refine .bind ((ensurePGBound_obeys h.bound).mono fun ensured s₁ hensured => ?_)
  obtain ⟨hmarker, hsessions, hindex⟩ := hensured
  have hindexed₁ := hindexed.congr hsessions hindex
  split
  · next pgBoundSet =>
    exact ⟨fun hset => hmarker (.inr hset), fun _ => hindexed₁,
      fun hnone => (nomatch hpg.symm.trans hnone), h.waiting⟩
  next pgBoundSet =>
  have hmarker : s₁.marker = true := hmarker (.inl rfl)
  refine .bind (obeys_issue (.inl hmarker) fun w _ => ?_)
  have hmarker₂ := (pgCreate_same w s₁ escrow epoch).2.trans hmarker
  have hindexed₂ := pgCreate_indexed w hindexed₁ escrow epoch
  split
  · exact holds_attached (fun _ => hmarker₂) hindexed₂ r
  · exact maybeClearPGBound_obeys ⟨fun _ => hmarker₂, fun _ => hindexed₂,
      fun hnone => (nomatch hpg.symm.trans hnone), h.waiting⟩

theorem backendFor_obeys (h : r.Holds s) (escrow : ℕ) :
    Obey (r.backendFor escrow) (fun chosen s' => chosen.2.Holds s') s := by
  unfold backendFor
  split
  · split
    · split <;> exact h
    · exact h
  · exact h
  next pg _ hpg _ =>
  have hpgs : ∀ pg', ({ r with pg := some pg' } : Router).Holds s := fun pg' =>
    holds_attached h.bound (h.indexed (by rw [hpg]; rfl)) r
  have howns : Obey (pgOwns escrow pg) (fun _ s' => s' = s) s := by
    unfold pgOwns
    split
    · rfl
    refine .bind (obeys_issue trivial fun w _ => ?_)
    split <;> rfl
  refine .bind (howns.mono fun owned s' hsame => ?_)
  subst hsame
  dsimp only
  split <;> exact hpgs _

theorem createSession_obeys (h : r.Holds s) (escrow epoch : ℕ) :
    Obey (r.createSession escrow epoch) Router.Holds s := by
  refine .bind ((backendFor_obeys h escrow).mono fun chosen s₁ h₁ => ?_)
  split
  · exact h₁
  · exact createSQLite_obeys h₁ escrow epoch
  · exact createPostgres_obeys h₁ escrow epoch
  split
  · exact h₁
  split
  · exact createSQLite_obeys h₁ escrow epoch
  · exact createPostgres_obeys h₁ escrow epoch

theorem pruneSQLite_local (cut : Cut) (idx : Sessions) : (pruneSQLite cut idx).All Command.Local := by
  have hfiles : ∀ epochs, (removeEpochFiles epochs).All Command.Local := by
    intro epochs
    induction epochs with
    | nil => trivial
    | cons _ _ ih =>
      refine .bind (all_issue trivial) fun done => ?_
      split
      · exact ih
      · trivial
  have hlisted : (epochFiles cut).All Command.Local := by
    unfold epochFiles
    split
    · trivial
    · trivial
    · exact all_issue trivial
  refine .bind hlisted fun listed => ?_
  split
  · trivial
  refine .bind (hfiles _) fun done => ?_
  split
  · refine .bind (all_issue trivial) fun done => ?_
    split <;> trivial
  · trivial

theorem pruneDrain_obeys (h : r.Holds s) (cut : Cut) :
    Obey (r.pruneDrain cut) (fun pruned s' => pruned.2.Holds s') s := by
  unfold pruneDrain
  split
  · exact h
  · exact .bind ((obey_local (pruneSQLite_local cut _) s).mono fun pruned s' hsame =>
      h.of_sameRemote hsame _)

theorem dropPartitions_obeys (epochs : List ℕ) (s : Store) : Obey (dropPartitions epochs)
    (fun done s' => s'.marker = s.marker ∧ s'.index = s.index ∧
      (∀ escrow epoch, s'.sessions.get? escrow = some epoch → s.sessions.get? escrow = some epoch) ∧
      (done = true → ∀ escrow epoch, s'.sessions.get? escrow = some epoch → epoch ∉ epochs)) s := by
  induction epochs generalizing s with
  | nil => exact ⟨rfl, rfl, fun _ _ h => h, fun _ _ _ _ => List.not_mem_nil⟩
  | cons epoch₀ _ ih =>
    refine .bind (obeys_issue trivial fun w _ => ?_)
    have hfilter : ∀ escrow epoch, (s.sessions.filter fun _ epoch' => epoch' ≠ epoch₀).get? escrow
        = some epoch → s.sessions.get? escrow = some epoch ∧ epoch ≠ epoch₀ := by
      intro escrow epoch hget
      rw [get?_filter] at hget
      obtain ⟨hget, hne⟩ := filter_eq_some_iff.mp hget
      exact ⟨hget, of_decide_eq_true hne⟩
    cases w with
    | none =>
      refine (ih _).mono fun done s' hrest => ?_
      obtain ⟨hmarker, hindex, hsub, hgone⟩ := hrest
      refine ⟨hmarker, hindex, fun escrow epoch hget => (hfilter _ _ (hsub _ _ hget)).1,
        fun hdone escrow epoch hget hmem => ?_⟩
      rcases List.mem_cons.mp hmem with heq | hmem
      · exact (hfilter _ _ (hsub _ _ hget)).2 heq
      · exact hgone hdone escrow epoch hget hmem
    | before => exact ⟨rfl, rfl, fun _ _ h => h, nofun⟩
    | after => exact ⟨rfl, rfl, fun _ _ hget => (hfilter _ _ hget).1, nofun⟩

theorem prunePostgres_obeys (h : Indexed s) (cut : Cut) (idx : Sessions) :
    Obey (prunePostgres cut idx) (fun _ s' => Indexed s' ∧ s'.marker = s.marker) s := by
  have hlisted : Obey (partitions cut) (fun listed s' => s' = s ∧ ∀ epochs, listed = some epochs →
      ∀ escrow epoch, s.sessions.get? escrow = some epoch → cut.drops epoch = true →
        epoch ∈ epochs) s := by
    unfold partitions
    split
    · refine ⟨rfl, ?_⟩
      rintro _ ⟨⟩ _ _ - hdrops
      exact List.mem_singleton.mpr (of_decide_eq_true hdrops)
    · refine ⟨rfl, ?_⟩
      rintro _ ⟨⟩ _ epoch - hdrops
      have hlt : epoch < 0 := of_decide_eq_true hdrops
      exact absurd hlt (Nat.not_lt_zero _)
    · refine obeys_issue trivial fun w _ => ⟨rfl, fun epochs hepochs escrow epoch hget _ => ?_⟩
      rw [← query_eq_some hepochs]
      exact List.mem_dedup.mpr (List.mem_map.mpr ⟨_, get?_eq_some_iff.mp hget, rfl⟩)
  refine .bind (hlisted.mono fun listed s' hlisted => ?_)
  obtain ⟨rfl, hall⟩ := hlisted
  split
  · exact ⟨h, rfl⟩
  next epochs =>
  refine .bind ((dropPartitions_obeys _ s').mono fun done s₁ hdropped => ?_)
  obtain ⟨hmarker, hindex, hsub, hgone⟩ := hdropped
  have hindexed₁ : Indexed s₁ := by
    intro escrow epoch hget
    rw [hindex]
    exact h escrow epoch (hsub escrow epoch hget)
  split
  swap
  · exact ⟨hindexed₁, hmarker⟩
  next hdone =>
  refine .bind (obeys_issue trivial fun w _ => ?_)
  have hpost : Indexed (exec w (.pgDeleteIndex cut) s₁).2 ∧
      (exec w (.pgDeleteIndex cut) s₁).2.marker = s'.marker := by
    refine write_keeps (P := fun s => Indexed s ∧ s.marker = s'.marker) ⟨hindexed₁, hmarker⟩
      ⟨fun escrow epoch hget => ?_, hmarker⟩
    show (s₁.index.filter _).get? escrow = some epoch
    rw [get?_filter, hindexed₁ escrow epoch hget, filter_some, if_pos]
    -- a session that remains is not of a dropped epoch
    refine decide_eq_true fun hdrops => ?_
    have hmem := hall epochs rfl escrow epoch (hsub escrow epoch hget) hdrops
    exact hgone hdone escrow epoch hget (List.mem_filter.mpr ⟨hmem, hdrops⟩)
  split <;> exact hpost

theorem prune_obeys (h : r.Holds s) (cut : Cut) : Obey (r.prune cut) Router.Holds s := by
  refine .bind ((pruneDrain_obeys h cut).mono fun pruned s₁ h₁ => ?_)
  split
  · exact h₁
  next r₁ =>
  split
  · exact h₁
  next idx hpg =>
  refine .bind ((prunePostgres_obeys (h₁.indexed (by rw [hpg]; rfl)) cut idx).mono fun pruned s₂ h₂ => ?_)
  obtain ⟨hindexed, hmarker⟩ := h₂
  have hholds : ∀ idx', ({ r₁ with pg := some idx' } : Router).Holds s₂ := fun idx' =>
    holds_attached (fun hset => hmarker.trans (h₁.bound hset)) hindexed r₁
  split
  · exact hholds _
  · exact maybeClearPGBound_obeys (hholds _)

theorem promotePostgres_obeys (h : r.Holds s) : Obey r.promotePostgres Router.Holds s := by
  unfold promotePostgres
  split
  · exact h
  next hwaits =>
  rw [not_or, Bool.not_eq_false, Bool.not_eq_true, isSome_eq_false_iff,
    isNone_iff_eq_none] at hwaits
  obtain ⟨hreconnects, hpg⟩ := hwaits
  have hdegraded := h.waiting hreconnects hpg
  have hdetached : ∀ {s' : Store} {pgBoundSet : Bool}, (pgBoundSet = true → s'.marker = true) →
      ({ r with pgBoundSet } : Router).Holds s' := fun hbound =>
    ⟨hbound, fun hsome => (nomatch hpg ▸ hsome), fun _ hnot => (nomatch hdegraded.symm.trans hnot),
      h.waiting⟩
  refine .bind ((openPostgresReady_obeys s).mono fun opened s₁ hopened => ?_)
  obtain ⟨hopened, hmarker⟩ := hopened
  have hbound₁ : r.pgBoundSet = true → s₁.marker = true := fun hset => hmarker.trans (h.bound hset)
  split
  · exact hdetached hbound₁
  next pg =>
  obtain ⟨hfresh, hindexed⟩ := hopened pg rfl
  refine .bind ((reconcilePGBound_obeys hfresh hbound₁).mono fun reconciled s₂ h₂ => ?_)
  obtain ⟨hbound₂, hsessions, hindex⟩ := h₂
  split
  · exact ⟨hbound₂, fun _ => hindexed.congr hsessions hindex, nofun, nofun⟩
  · exact hdetached hbound₂

theorem serve_obeys (op : Op) (h : r.Holds s) : Obey (r.serve op) Router.Holds s := by
  cases op with
  | createSession escrow epoch => exact createSession_obeys h escrow epoch
  | prune cut => exact prune_obeys h cut
  | promotePostgres => exact promotePostgres_obeys h

end Router

/-- The memory of a process that serves SQLite alone and takes new sessions: SQLite's
index has what Postgres holds, so that no session is opened a second time. -/
def Node.NoFork (n : Node) : Prop :=
  match n.process with
  | .up r => r.pg = none → r.degradedOwnerOnly = false →
      ∀ escrow, n.disk.Held escrow → n.disk.inMeta escrow = true
  | _ => True

/-- The input is a command that takes away the last guard of a session. -/
def Node.Unguards (n : Node) (input : Node.Input) : Prop :=
  Crash.System.Spoils Storage.Unguards n input

/-- **Sessions in Postgres stay guarded.**  For every sequence of starts in any mode,
calls, faults of files and databases, and crashes between any two of their steps: the
sessions stay guarded, and SQLite alone never opens a session that Postgres holds,
exactly as long as no step takes a session out of SQLite's index that Postgres holds and
nothing marks. -/
theorem guarded_throughout_iff (store : Store) (hguarded : store.Guarded)
    (inputs : List Node.Input) :
    Along.Throughout Node.step (fun n => n.disk.Guarded ∧ n.NoFork) inputs { disk := store } ↔
      Along.EachStep Node.step (fun n input => ¬ n.Unguards input) inputs { disk := store } := by
  have hdown : Crash.System.Sane exec Pre Store.Guarded Router.Holds ({ disk := store } : Node) := trivial
  refine Crash.System.throughout_iff (fun mode disk _ => newStorage_obeys mode disk)
    (fun op r disk _ h => Router.serve_obeys op h) guarded_exec_iff (fun n hsane hgood => ?_) hdown
    hguarded inputs
  obtain ⟨_, process⟩ := n
  cases process with
  | down | busy => trivial
  | up =>
    intro hpg hdegraded escrow hheld
    have hmarker := Router.Holds.alone hsane hpg hdegraded
    exact (hgood escrow hheld).resolve_left (Bool.eq_false_iff.mp hmarker)

instance (n : Node) (input : Node.Input) : Decidable (n.Unguards input) := by
  unfold Node.Unguards
  infer_instance

def steps (n : ℕ) : List Node.Input := List.replicate n (.step .none)

def hybridInputs : List Node.Input :=
  [.start .hybrid] ++ steps 7 ++ [.call (.createSession 7 1)] ++ steps 3
    ++ [.crash, .start .sqlite] ++ steps 3

theorem guarded_throughout_hybrid :
    Along.Throughout Node.step (fun n => n.disk.Guarded ∧ n.NoFork) hybridInputs { disk := {} } :=
  (guarded_throughout_iff {} (by decide) hybridInputs).mpr (by decide)

def Node.servesEmpty (n : Node) : Bool :=
  match n.process with
  | .up r => r.pg.isNone && !r.degradedOwnerOnly && (r.sqlite.map OrdMap.keys == some [])
  | _ => false

/-- A session in SQLite; a start in mode postgres that migrates it, moves the SQLite files
away and crashes before it writes the marker; a start in mode sqlite. -/
def quarantineInputs : List Node.Input :=
  [.start .sqlite] ++ steps 4 ++ [.call (.createSession 7 1)] ++ steps 5
    ++ [.crash, .start .postgres] ++ steps 15 ++ [.crash, .start .sqlite] ++ steps 4

/-- Postgres holds the session, nothing in the directory says so, and the store that is
open is empty and writable. -/
theorem crash_after_quarantine :
    let n := Along.run Node.step quarantineInputs { disk := {} }
    n.disk.Held 7 ∧ ¬ n.disk.Guarded ∧ n.servesEmpty = true := by
  decide

end Devshard.Storage
