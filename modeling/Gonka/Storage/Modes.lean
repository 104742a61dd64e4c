/-
Storage modes (`storage.NewStorage`, `HybridStorage`).

A devshard host keeps its sessions in SQLite files of its store directory, in
Postgres, or in both.  The mode of a start decides where new sessions go.  The file
`.pg-bound` in the directory says that Postgres holds sessions, so that a later start
in mode sqlite does not open an empty store beside them.

Everything that outlives a process is a `Store`; files and tables are changed by one
`Command` after the other, and every command may fail before or after its effect.  The
functions of the source are programs over commands.  Escrow ids are numbers; of a
session only its epoch is kept.
-/
import Mathlib.Data.Nat.Basic
import Mathlib.Data.List.Dedup
import Gonka.Lib.Crash
import Gonka.Lib.OrdMap

namespace Devshard.Storage

open Crash

/-! ### What outlives a process -/

abbrev Sessions := OrdMap ℕ ℕ

structure Store where
  /-- `.pg-bound` exists. -/
  marker : Bool := false
  /-- The table `escrow_epoch` of `_meta.db`, if the file exists. -/
  metaDB : Option Sessions := none
  /-- The escrows in the `sessions` of each `epoch_*.db`. -/
  files : OrdMap ℕ (List ℕ) := ∅
  /-- `devshard_sessions`. -/
  sessions : Sessions := ∅
  /-- `devshard_session_index`. -/
  index : Sessions := ∅
  /-- Ghost: the escrows that were created in or migrated to Postgres through this
  directory. -/
  through : List ℕ := []

/-- The epochs that `PruneEpoch` or `pruneBefore` drops. -/
inductive Cut where
  | epoch (epochID : ℕ)
  | before (cutoff : ℕ)

def Cut.drops : Cut → ℕ → Bool
  | .epoch epochID, k => k = epochID
  | .before cutoff, k => k < cutoff

inductive Command where
  | readPGBound
  /-- Up to the rename of the temporary file; the directory is synced after it. -/
  | writePGBound
  | removePGBound
  | hasSQLiteArtifacts
  /-- Open `_meta.db`, or create it, and load the index. -/
  | openMeta
  /-- The sessions in the epoch files. -/
  | readEpochFiles
  | deleteMeta (escrow epoch : ℕ)
  | insertMeta (escrow epoch : ℕ)
  | pruneMeta (cut : Cut)
  | openEpochFile (epoch : ℕ)
  | insertSession (escrow epoch : ℕ)
  | listEpochFiles
  | removeEpochFile (epoch : ℕ)
  | closeSQLite
  /-- The renames of `quarantineSQLiteArtifacts`. -/
  | quarantineMeta
  | quarantineEpochFile (epoch : ℕ)
  | pgConnect
  | pgSessions
  | pgDeleteStale (loaded : Sessions)
  | pgInsertMissing (loaded : Sessions)
  | pgLookup (escrow : ℕ)
  | pgSessionMeta (escrow : ℕ)
  /-- The transaction of `CreateSession`. -/
  | pgCreate (escrow epoch : ℕ)
  /-- The rest of a session's migration. -/
  | pgCopy (escrow : ℕ)
  | pgPartitions
  | pgDropPartition (epoch : ℕ)
  | pgDeleteIndex (cut : Cut)
  | pgHasAnySessionsLive

/-- A query answers `none` if it fails, a write whether it is done. -/
@[reducible] def Command.Answer : Command → Type
  | .readPGBound | .hasSQLiteArtifacts | .pgHasAnySessionsLive => Option Bool
  | .openMeta | .readEpochFiles | .pgSessions => Option Sessions
  | .listEpochFiles | .pgPartitions => Option (List ℕ)
  | .pgLookup _ | .pgSessionMeta _ => Option (Option ℕ)
  | _ => Bool

def collectSessions (epoch : ℕ) : List ℕ → Sessions → Option Sessions
  | [], found => some found
  | escrow :: escrows, found =>
    if (found.get? escrow).any (fun epoch' => epoch' ≠ epoch) then none
    else collectSessions epoch escrows (found.insert escrow epoch)

def collectEpochSessions : List (ℕ × List ℕ) → Sessions → Option Sessions
  | [], found => some found
  | (epoch, escrows) :: files, found =>
    (collectSessions epoch escrows found).bind (collectEpochSessions files)

def query {α : Type} (w : Crash.Fault) (a : α) (s : Store) : Option α × Store :=
  (if w = .none then some a else none, s)

/-- A write with the effect `s'`, which may fail after it. -/
def write (w : Crash.Fault) (s s' : Store) : Bool × Store :=
  match w with
  | .none => (true, s')
  | .before => (false, s)
  | .after => (false, s')

def syscall (w : Crash.Fault) (s s' : Store) : Bool × Store :=
  if w = .none then (true, s') else (false, s)

def exec (w : Crash.Fault) : (c : Command) → Store → c.Answer × Store
  | .readPGBound, s => query w s.marker s
  | .writePGBound, s => write w s { s with marker := true }
  | .removePGBound, s => syscall w s { s with marker := false }
  | .hasSQLiteArtifacts, s => query w (s.metaDB.isSome || s.files.keys ≠ []) s
  | .openMeta, s =>
    let idx := s.metaDB.getD ∅
    match w with
    | .none => (some idx, { s with metaDB := some idx })
    | .before => (none, s)
    | .after => (none, { s with metaDB := some idx })
  | .readEpochFiles, s =>
    match collectEpochSessions s.files.entries ∅ with
    | none => (none, s)
    | some found => query w found s
  | .deleteMeta escrow epoch, s =>
    write w s { s with
      metaDB := s.metaDB.map (OrdMap.filter fun escrow' epoch' => ¬ (escrow' = escrow ∧ epoch' = epoch)) }
  | .insertMeta escrow epoch, s =>
    match s.metaDB with
    | none => (false, s)
    | some idx =>
      if (idx.get? escrow).isSome then (false, s)
      else write w s { s with metaDB := some (idx.insert escrow epoch) }
  | .pruneMeta cut, s =>
    write w s { s with metaDB := s.metaDB.map (OrdMap.filter fun _ epoch => ¬ cut.drops epoch) }
  | .openEpochFile epoch, s =>
    match s.files.get? epoch with
    | some _ => write w s s
    | none => write w s { s with files := s.files.insert epoch [] }
  | .insertSession escrow epoch, s =>
    write w s { s with files := s.files.modify epoch fun escrows =>
      if escrow ∈ escrows then escrows else escrow :: escrows }
  | .listEpochFiles, s => query w s.files.keys s
  | .removeEpochFile epoch, s => syscall w s { s with files := s.files.erase epoch }
  | .closeSQLite, s => write w s s
  | .quarantineMeta, s => syscall w s { s with metaDB := none }
  | .quarantineEpochFile epoch, s => syscall w s { s with files := s.files.erase epoch }
  | .pgConnect, s => write w s s
  | .pgSessions, s => query w s.sessions s
  | .pgDeleteStale loaded, s =>
    write w s { s with index := s.index.filter fun escrow epoch => loaded.get? escrow = some epoch }
  | .pgInsertMissing loaded, s => write w s { s with index := s.index.addMissing loaded }
  | .pgLookup escrow, s => query w (s.index.get? escrow) s
  | .pgSessionMeta escrow, s =>
    query w ((s.index.get? escrow).filter fun epoch => s.sessions.get? escrow = some epoch) s
  | .pgCreate escrow epoch, s =>
    if (s.index.get? escrow).any (fun epoch' => epoch' ≠ epoch) then (false, s)
    else write w s { s with
      sessions := s.sessions.insert escrow epoch
      index := s.index.insert escrow epoch
      through := escrow :: s.through }
  | .pgCopy escrow, s => write w s { s with through := escrow :: s.through }
  | .pgPartitions, s => query w (s.sessions.entries.map Prod.snd).dedup s
  | .pgDropPartition epoch, s =>
    write w s { s with sessions := s.sessions.filter fun _ epoch' => epoch' ≠ epoch }
  | .pgDeleteIndex cut, s =>
    write w s { s with index := s.index.filter fun _ epoch => ¬ cut.drops epoch }
  | .pgHasAnySessionsLive, s => query w (s.index.keys ≠ [] : Bool) s

abbrev Prog := Crash.Prog Command.Answer

def issue (c : Command) : Prog c.Answer := Crash.Prog.issue c

/-- The first loop of `reconcileMetaFromEpochFiles`: mappings without a session go. -/
def removeStaleMeta (found : Sessions) : List (ℕ × ℕ) → Sessions → Prog (Option Sessions)
  | [], idx => pure (some idx)
  | (escrow, epoch) :: mapped, idx =>
    if found.get? escrow = some epoch then removeStaleMeta found mapped idx
    else do
      if ← issue (.deleteMeta escrow epoch) then removeStaleMeta found mapped (idx.erase escrow)
      else pure none

def repairMeta : List (ℕ × ℕ) → Sessions → Prog (Option Sessions)
  | [], idx => pure (some idx)
  | (escrow, epoch) :: found, idx =>
    match idx.get? escrow with
    | some epoch' => if epoch' ≠ epoch then pure none else repairMeta found idx
    | none => do
      if ← issue (.insertMeta escrow epoch) then repairMeta found (idx.insert escrow epoch)
      else pure none

/-- `NewSQLite`, with the index in memory. -/
def newSQLite : Prog (Option Sessions) := do
  match ← issue .openMeta with
  | none => pure none
  | some idx =>
    match ← issue .readEpochFiles with
    | none => pure none
    | some found =>
      match ← removeStaleMeta found idx.entries idx with
      | none => pure none
      | some idx => repairMeta found.entries idx

/-- `openSQLiteDrain`: SQLite, if it has sessions. -/
def openSQLiteDrain : Prog (Option (Option Sessions)) := do
  match ← issue .hasSQLiteArtifacts with
  | none => pure none
  | some false => pure (some none)
  | some true =>
    match ← newSQLite with
    | none => pure none
    | some idx =>
      if idx.keys ≠ [] then pure (some (some idx))
      else if ← issue .closeSQLite then pure (some none) else pure none

/-- `openPostgresReady`: connect and rebuild the index. -/
def openPostgresReady : Prog (Option Sessions) := do
  if ← issue .pgConnect then
    match ← issue .pgSessions with
    | none => pure none
    | some loaded =>
      if ← issue (.pgDeleteStale loaded) then
        if ← issue (.pgInsertMissing loaded) then pure (some loaded) else pure none
      else pure none
  else pure none

/-- The memory of a `HybridStorage`. -/
structure Router where
  /-- The index of SQLite, if it is open. -/
  sqlite : Option Sessions := none
  /-- The index of Postgres, if it is connected. -/
  pg : Option Sessions := none
  preferPG : Bool := false
  /-- New sessions are refused (`newSessionErr`). -/
  degradedOwnerOnly : Bool := false
  /-- The reconnect loop runs. -/
  reconnects : Bool := false
  pgBoundSet : Bool := false

/-- `ensurePGBoundLocked`: whether it succeeds, and `pgBoundSet`. -/
def ensurePGBound (pgBoundSet : Bool) : Prog (Bool × Bool) := do
  if pgBoundSet then pure (true, true)
  else if ← issue .writePGBound then pure (true, true)
  else pure (false, false)

/-- `reconcilePGBoundFor`: whether it succeeds, and `pgBoundSet`. -/
def reconcilePGBound (pg : Sessions) (pgBoundSet : Bool) : Prog (Bool × Bool) := do
  match ← issue .readPGBound with
  | none => pure (false, pgBoundSet)
  | some present =>
    if pg.keys ≠ [] then ensurePGBound present
    else if present then
      if ← issue .removePGBound then pure (true, false) else pure (false, true)
    else pure (true, false)

def Router.maybeClearPGBound (r : Router) : Prog Router := do
  match r.pg with
  | none => pure r
  | some pg =>
    if r.pgBoundSet = false ∨ pg.keys ≠ [] then pure r
    else
      match ← issue .pgHasAnySessionsLive with
      | some false =>
        if ← issue .removePGBound then pure { r with pgBoundSet := false } else pure r
      | _ => pure r

/-- `migrateOneSQLiteSession`: whether it succeeds, and the index of Postgres. -/
def migrateOneSQLiteSession (escrow epoch : ℕ) (pg : Sessions) : Prog (Bool × Sessions) := do
  match ← issue (.pgSessionMeta escrow) with
  | none => pure (false, pg)
  | some (some epoch') =>
    if epoch' ≠ epoch then pure (false, pg)
    else do
      let copied ← issue (.pgCopy escrow)
      pure (copied, pg.insert escrow epoch)
  | some none =>
    if ← issue (.pgCreate escrow epoch) then do
      let copied ← issue (.pgCopy escrow)
      pure (copied, pg.insert escrow epoch)
    else pure (false, pg)

/-- `MigrateSQLiteSessions`.  The workers only change the order; those that remain go on
after an error. -/
def migrateSQLiteSessions : List (ℕ × ℕ) → Sessions → Prog (Bool × Sessions)
  | [], pg => pure (true, pg)
  | (escrow, epoch) :: rest, pg => do
    let (migrated, pg) ← migrateOneSQLiteSession escrow epoch pg
    let (others, pg) ← migrateSQLiteSessions rest pg
    pure (migrated && others, pg)

def quarantineEpochFiles : List ℕ → Prog Bool
  | [] => pure true
  | epoch :: epochs => do
    if ← issue (.quarantineEpochFile epoch) then quarantineEpochFiles epochs else pure false

def quarantineSQLiteArtifacts : Prog Bool := do
  if ← issue .quarantineMeta then
    match ← issue .listEpochFiles with
    | none => pure false
    | some epochs => quarantineEpochFiles epochs
  else pure false

/-- The migration of `newHAStorage`: the index of Postgres after it. -/
def migrateDrain (sqlite pg : Sessions) : Prog (Option Sessions) := do
  let (migrated, pg) ← migrateSQLiteSessions sqlite.entries pg
  let closed ← issue .closeSQLite
  if migrated && closed then
    if ← quarantineSQLiteArtifacts then pure (some pg) else pure none
  else pure none

/-- The end of a start with Postgres: `reconcilePGBoundAtBoot`. -/
def attachPostgres (sqlite : Option Sessions) (pg : Sessions) : Prog (Option Router) := do
  match ← reconcilePGBound pg false with
  | (true, pgBoundSet) => pure (some { sqlite, pg := some pg, preferPG := true, pgBoundSet })
  | (false, _) => pure none

def newHAStorage : Prog (Option Router) := do
  match ← openPostgresReady with
  | none => pure none
  | some pg =>
    match ← openSQLiteDrain with
    | none => pure none
    | some none => attachPostgres none pg
    | some (some sqlite) =>
      match ← migrateDrain sqlite pg with
      | none => pure none
      | some pg => attachPostgres none pg

def newStorageLocal : Prog (Option Router) := do
  match ← issue .readPGBound with
  | none => pure none
  | some true =>
    match ← openSQLiteDrain with
    | some (some sqlite) => pure (some { sqlite := some sqlite, degradedOwnerOnly := true })
    | _ => pure none
  | some false =>
    match ← newSQLite with
    | none => pure none
    | some sqlite => pure (some { sqlite := some sqlite })

def newStorageFlexible : Prog (Option Router) := do
  match ← openSQLiteDrain with
  | none => pure none
  | some sqlite =>
    match ← openPostgresReady with
    | none => pure (some { sqlite, degradedOwnerOnly := true, reconnects := true })
    | some pg => attachPostgres sqlite pg

inductive Mode where
  | sqlite
  | hybrid
  | postgres
  deriving DecidableEq

/-- `NewStorage`, with `PGHOST` set for the modes that need it. -/
def newStorage : Mode → Prog (Option Router)
  | .postgres => newHAStorage
  | .sqlite => newStorageLocal
  | .hybrid => newStorageFlexible

namespace Router

/-- The reconnect loop, once around: `promotePostgres`. -/
def promotePostgres (r : Router) : Prog Router := do
  if r.reconnects = false ∨ r.pg.isSome then pure r
  else
    match ← openPostgresReady with
    | none => pure r
    | some pg =>
      match ← reconcilePGBound pg r.pgBoundSet with
      | (true, pgBoundSet) =>
        pure { r with pg := some pg, preferPG := true, degradedOwnerOnly := false, pgBoundSet }
      | (false, pgBoundSet) => pure { r with pgBoundSet }

inductive Backend where
  | sqlite
  | pg

/-- `owns` for Postgres: `lookupEpoch` asks the database for what it does not know, and
keeps the answer. -/
def pgOwns (escrow : ℕ) (pg : Sessions) : Prog (Bool × Sessions) := do
  match pg.get? escrow with
  | some _ => pure (true, pg)
  | none =>
    match ← issue (.pgLookup escrow) with
    | some (some epoch) => pure (true, pg.insert escrow epoch)
    | _ => pure (false, pg)

/-- `backendFor`: an error, or the backend if there is one. -/
def backendFor (r : Router) (escrow : ℕ) : Prog (Option (Option Backend) × Router) := do
  match r.pg, r.sqlite with
  | none, sqlite =>
    if r.degradedOwnerOnly then
      if (sqlite.bind fun idx => idx.get? escrow).isSome then pure (some (some .sqlite), r)
      else pure (some none, r)
    else pure (some (some .sqlite), r)
  | some _, none => pure (some (some .pg), r)
  | some pg, some idx =>
    let (owned, pg) ← pgOwns escrow pg
    let r := { r with pg := some pg }
    match (idx.get? escrow).isSome, owned with
    | true, true => pure (none, r)
    | true, false => pure (some (some .sqlite), r)
    | false, true => pure (some (some .pg), r)
    | false, false => pure (some none, r)

def newSessionBackend (r : Router) : Backend :=
  if r.preferPG && r.pg.isSome then .pg
  else if r.sqlite.isSome then .sqlite
  else .pg

/-- The end of `CreateSession` of SQLite: the row of the session, and its mapping. -/
def insertSQLite (r : Router) (idx : Sessions) (escrow epoch : ℕ) : Prog Router := do
  if ← issue (.openEpochFile epoch) then
    if ← issue (.insertSession escrow epoch) then
      match idx.get? escrow with
      | some _ => pure r
      | none =>
        if ← issue (.insertMeta escrow epoch) then
          pure { r with sqlite := some (idx.insert escrow epoch) }
        else pure r
    else pure r
  else pure r

/-- `CreateSession` of SQLite: an escrow stays in its epoch. -/
def createSQLite (r : Router) (escrow epoch : ℕ) : Prog Router := do
  match r.sqlite with
  | none => pure r
  | some idx =>
    match idx.get? escrow with
    | some epoch' => if epoch' ≠ epoch then pure r else r.insertSQLite idx escrow epoch
    | none =>
      match ← issue .readEpochFiles with
      | none => pure r
      | some found =>
        if (found.get? escrow).any (fun epoch' => epoch' ≠ epoch) then pure r
        else r.insertSQLite idx escrow epoch

/-- `CreateSession` in Postgres: the marker, then the insert. -/
def createPostgres (r : Router) (escrow epoch : ℕ) : Prog Router := do
  match r.pg with
  | none => pure r
  | some pg =>
    match ← ensurePGBound r.pgBoundSet with
    | (false, pgBoundSet) => pure { r with pgBoundSet }
    | (true, pgBoundSet) =>
      let r := { r with pgBoundSet }
      if ← issue (.pgCreate escrow epoch) then pure { r with pg := some (pg.insert escrow epoch) }
      else r.maybeClearPGBound

def createSession (r : Router) (escrow epoch : ℕ) : Prog Router := do
  match ← r.backendFor escrow with
  | (none, r) => pure r
  | (some (some .sqlite), r) => r.createSQLite escrow epoch
  | (some (some .pg), r) => r.createPostgres escrow epoch
  | (some none, r) =>
    if r.degradedOwnerOnly then pure r
    else
      match r.newSessionBackend with
      | .sqlite => r.createSQLite escrow epoch
      | .pg => r.createPostgres escrow epoch

def removeEpochFiles : List ℕ → Prog Bool
  | [] => pure true
  | epoch :: epochs => do
    if ← issue (.removeEpochFile epoch) then removeEpochFiles epochs else pure false

def epochFiles : Cut → Prog (Option (List ℕ))
  | .epoch epochID => pure (some [epochID])
  | .before 0 => pure (some [])
  | .before _ => issue .listEpochFiles

/-- `PruneEpoch` and `pruneBefore` of SQLite: files, mappings, memory. -/
def pruneSQLite (cut : Cut) (idx : Sessions) : Prog (Bool × Sessions) := do
  match ← epochFiles cut with
  | none => pure (false, idx)
  | some epochs =>
    if ← removeEpochFiles (epochs.filter cut.drops) then
      if ← issue (.pruneMeta cut) then pure (true, idx.filter fun _ epoch => ¬ cut.drops epoch)
      else pure (false, idx)
    else pure (false, idx)

def dropPartitions : List ℕ → Prog Bool
  | [] => pure true
  | epoch :: epochs => do
    if ← issue (.pgDropPartition epoch) then dropPartitions epochs else pure false

def partitions : Cut → Prog (Option (List ℕ))
  | .epoch epochID => pure (some [epochID])
  | .before 0 => pure (some [])
  | .before _ => issue .pgPartitions

/-- `PruneEpoch` and `pruneBefore` of Postgres: partitions, index, memory. -/
def prunePostgres (cut : Cut) (idx : Sessions) : Prog (Bool × Sessions) := do
  match ← partitions cut with
  | none => pure (false, idx)
  | some epochs =>
    if ← dropPartitions (epochs.filter cut.drops) then
      if ← issue (.pgDeleteIndex cut) then pure (true, idx.filter fun _ epoch => ¬ cut.drops epoch)
      else pure (false, idx)
    else pure (false, idx)

def pruneDrain (r : Router) (cut : Cut) : Prog (Bool × Router) := do
  match r.sqlite with
  | none => pure (true, r)
  | some idx =>
    let (pruned, idx) ← pruneSQLite cut idx
    pure (pruned, { r with sqlite := some idx })

/-- `PruneEpoch` and `pruneBefore`: every backend, then the marker.  An error ends it. -/
def prune (r : Router) (cut : Cut) : Prog Router := do
  match ← r.pruneDrain cut with
  | (false, r) => pure r
  | (true, r) =>
    match r.pg with
    | none => pure r
    | some idx =>
      match ← prunePostgres cut idx with
      | (false, idx) => pure { r with pg := some idx }
      | (true, idx) => maybeClearPGBound { r with pg := some idx }

end Router

inductive Op where
  | createSession (escrow epoch : ℕ)
  | prune (cut : Cut)
  | promotePostgres

def Router.serve : Op → Router → Prog Router
  | .createSession escrow epoch, r => r.createSession escrow epoch
  | .prune cut, r => r.prune cut
  | .promotePostgres, r => r.promotePostgres

/-- A store directory with its process, if one runs. -/
abbrev Node := Crash.System Store Command.Answer Router

abbrev Node.Input := Crash.Input Crash.Fault Mode Op

def Node.step (input : Node.Input) (n : Node) : Node :=
  Crash.System.step exec newStorage Router.serve input n

end Devshard.Storage
