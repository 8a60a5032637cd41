import AiGateway.Codex.Credentials
import AiGateway.Lib.Run

/-! Token refreshes and quota resets: an operation holds the lock of its credential in memory
and writes a durable intent before it calls the provider. -/
namespace AiGateway.Codex
open Domain Lib Lib.Stage

/-- An operation in progress, together with the record its caller was handed. -/
structure SqliteCodexOperation where
  record : CodexCredential
  attempt : Uuid
  generation : Int
  updatedAt : Int
  startedAt : Option Int
  kind : OperationKind
  /-- The request of the operation has been sent, which consumes it. -/
  dispatched : Bool
  deriving DecidableEq

def reserveCodexOperation (db : Database) (id : Uuid) (kind : OperationKind) (attempt : Uuid) :
    Except RepositoryError (Option SqliteCodexOperation) :=
  match db.live id with
  | none => .ok none
  | some record => do
    ensure (!db.pending id) .conflict
    .ok (some ⟨record, attempt, record.refreshGeneration, record.updatedAt, none, kind, false⟩)

namespace SqliteCodexOperation

def insertIntent (db : Database) (id : Uuid) (operation : SqliteCodexOperation)
    (startedAt : Int) : Except RepositoryError Database := do
  ensure (db.operations.values.all (fun row => row.attempt != operation.attempt)) .storage
  .ok { db with
    operations := db.operations.insert id
      ⟨operation.attempt, operation.kind, operation.generation, startedAt⟩ }

/-- The row the operation was reserved on is still the current one. -/
def current (operation : SqliteCodexOperation) (row : CodexCredential) : Bool :=
  row.refreshGeneration == operation.generation && row.updatedAt == operation.updatedAt

def prepareDispatch (db : Database) (id : Uuid) (operation : SqliteCodexOperation)
    (now : Int) : Except RepositoryError (Database × SqliteCodexOperation) := do
  ensure operation.startedAt.isNone .conflict
  ensure ((db.live id).any operation.current) .conflict
  ensure (!db.pending id) .conflict
  let db ← operation.insertIntent db id now
  .ok (db, { operation with startedAt := some now })

/-- The intent of the operation is in force: its row is there and the credential has the
generation it was written for. -/
def inForce (db : Database) (id : Uuid) (operation : SqliteCodexOperation) : Bool :=
  (db.operations.get id).any
      (fun row => row.attempt == operation.attempt && row.generation == operation.generation) &&
    (db.live id).any (fun row => row.refreshGeneration == operation.generation)

def release (db : Database) (id : Uuid) (operation : SqliteCodexOperation) :
    Except RepositoryError Database := do
  ensure operation.startedAt.isSome .conflict
  ensure (operation.inForce db id) .conflict
  .ok { db with operations := db.operations.erase id }

def completeRefresh (db : Database) (id : Uuid) (operation : SqliteCodexOperation)
    (expectedGeneration : Int) (now : Int) : Except RepositoryError Database := do
  ensure (expectedGeneration == operation.generation) .conflict
  let db ← operation.release db id
  let updated ← persistCodexTokenRefresh db id expectedGeneration now
  orReject updated .conflict

/-- A failed refresh keeps its intent: the provider may have rotated the token. -/
def fail (db : Database) (id : Uuid) (operation : SqliteCodexOperation) (permanent : Bool)
    (code summary : String) (now : Int) : Except RepositoryError Database := do
  let released ← operation.release db id
  let marked ← markCodexCredentialError released id permanent code summary now
  let startedAt ← orReject operation.startedAt .storage
  operation.insertIntent marked id startedAt

def completeReset (db : Database) (id : Uuid) (operation : SqliteCodexOperation) (event : Uuid)
    (requested : Int) (outcome : CodexQuotaResetOutcome) (windows : Int) :
    Except RepositoryError Database := do
  let db ← operation.release db id
  let history ← recordCodexQuotaResetTransaction db.history id event requested outcome windows
  .ok { db with history }

end SqliteCodexOperation

/-- What the checks of the callers let through to `prepare_dispatch`: `observed` is the
generation the caller of a refresh saw, if it names one. -/
def callerChecks (observed : Option Int) (operation : SqliteCodexOperation) : Bool :=
  let record := operation.record
  let usable := record.enabled && record.runtimeStatus != .disabled
  match operation.kind with
  | .refresh =>
    observed.all (fun generation => generation == record.refreshGeneration) && usable &&
      !(record.reauthRequired && observed.isSome)
  | .quotaReset => usable && !record.reauthRequired

/-- What the provider and the administrators see of the operations. -/
inductive TraceEvent where
  | dispatched (id : Uuid) (kind : OperationKind) (attempt : Uuid) (generation : Int)
  | completed (id : Uuid) (kind : OperationKind) (attempt : Uuid) (generation : Int)
  | reauthorized (id : Uuid)
  deriving DecidableEq

structure System where
  database : Database
  /-- The operations in progress; each holds the lock of its credential. -/
  held : Table Uuid SqliteCodexOperation
  /-- What has happened, the newest event first. -/
  trace : List TraceEvent

def System.initial : System := ⟨.empty, ∅, []⟩

/-- How an operation in progress ends with a report to the database. -/
inductive Report where
  | completeRefresh (expectedGeneration : Int) (now : Int)
  | fail (permanent : Bool) (code summary : String) (now : Int)
  | completeReset (event : Uuid) (requested : Int) (outcome : CodexQuotaResetOutcome)
      (windows : Int)

def Report.kind : Report → OperationKind
  | .completeRefresh _ _ => .refresh
  | .fail _ _ _ _ => .refresh
  | .completeReset _ _ _ _ => .quotaReset

def Report.succeeds : Report → Bool
  | .fail _ _ _ _ => false
  | _ => true

def Report.apply (report : Report) (db : Database) (id : Uuid) (operation : SqliteCodexOperation) :
    Except RepositoryError Database :=
  match report with
  | .completeRefresh expectedGeneration now => operation.completeRefresh db id expectedGeneration now
  | .fail permanent code summary now => operation.fail db id permanent code summary now
  | .completeReset event requested outcome windows =>
    operation.completeReset db id event requested outcome windows

/-- A write transaction on the credentials outside the operations. -/
inductive Edit where
  | create (id : Uuid) (input : CodexCredentialCreate) (ids : CodexQuotaWindowKind → Uuid)
  | update (id : Uuid) (input : CodexCredentialUpdateInput) (expectedUpdatedAt : Int)
  | batch (items : List CodexCredentialBatchTarget) (operation : CodexCredentialBatchOperation)
  | delete (id : Uuid) (expectedUpdatedAt : Int)
  | persistQuota (id : Uuid) (quota : CodexQuotaUpdate) (ids : CodexQuotaWindowKind → Uuid)
  | recordError (id : Uuid) (code summary : String)
  | setUserId (id : Uuid)
  | recordReset (id event : Uuid) (requestedAt : Int) (outcome : CodexQuotaResetOutcome)
      (windowsReset : Int)

/-- Errors recorded outside a refresh are never permanent. -/
def Edit.apply (edit : Edit) (db : Database) (now : Int) : Except RepositoryError Database :=
  match edit with
  | .create id input ids => createCodexCredential db ids id input now
  | .update id input expectedUpdatedAt => updateCodexCredential db id input expectedUpdatedAt now
  | .batch items operation => updateCodexCredentialsBatch db items operation now
  | .delete id expectedUpdatedAt => deleteCodexCredential db id expectedUpdatedAt now
  | .persistQuota id quota ids => persistCodexQuota db ids id quota now
  | .recordError id code summary => markCodexCredentialError db id false code summary now
  | .setUserId id => setCodexUserIdIfMissing db id now
  | .recordReset id event requestedAt outcome windowsReset =>
    recordCodexQuotaReset db id event requestedAt outcome windowsReset

inductive Move where
  | edit (edit : Edit) (now : Int)
  | reauthorize (id : Uuid) (input : CodexCredentialCreate) (ids : CodexQuotaWindowKind → Uuid)
      (now : Int)
  | reserve (id : Uuid) (kind : OperationKind) (attempt : Uuid)
  | prepare (id : Uuid) (observed : Option Int) (now : Int)
  | dispatch (id : Uuid)
  | report (id : Uuid) (report : Report)
  | drop (id : Uuid)
  | crash

namespace System

/-- The state after a transaction, which leaves no mark when it is rejected. -/
def commit (s : System) : Except RepositoryError Database → System
  | .ok database => { s with database }
  | .error _ => s

def reauthorize (s : System) (id : Uuid) (input : CodexCredentialCreate)
    (ids : CodexQuotaWindowKind → Uuid) (now : Int) : System :=
  match reauthorizeCodexCredential s.database (s.held.get id).isNone ids id input now with
  | .ok database => { s with database, trace := .reauthorized id :: s.trace }
  | .error _ => s

/-- Reserving waits while the lock of the credential is held. -/
def reserve (s : System) (id : Uuid) (kind : OperationKind) (attempt : Uuid) : System :=
  if (s.held.get id).isSome then s
  else match reserveCodexOperation s.database id kind attempt with
    | .ok (some operation) => { s with held := s.held.insert id operation }
    | _ => s

def dropOperation (s : System) (id : Uuid) : System := { s with held := s.held.erase id }

/-- A caller whose checks fail drops the operation. -/
def prepare (allow : Option Int → SqliteCodexOperation → Bool) (s : System) (id : Uuid)
    (observed : Option Int) (now : Int) : System :=
  match s.held.get id with
  | none => s
  | some operation =>
    if allow observed operation then
      match operation.prepareDispatch s.database id now with
      | .ok (database, operation) => { s with database, held := s.held.insert id operation }
      | .error _ => s
    else s.dropOperation id

def dispatch (s : System) (id : Uuid) : System :=
  match s.held.get id with
  | none => s
  | some operation =>
    if operation.startedAt.isSome && !operation.dispatched then
      { s with
        held := s.held.insert id { operation with dispatched := true }
        trace := .dispatched id operation.kind operation.attempt operation.generation :: s.trace }
    else s

/-- A report consumes its operation whether it commits or not. -/
def report (s : System) (id : Uuid) (report : Report) : System :=
  match s.held.get id with
  | none => s
  | some operation =>
    if operation.kind = report.kind then
      match report.apply s.database id operation with
      | .ok database =>
        { database
          held := s.held.erase id
          trace := if report.succeeds then
              .completed id operation.kind operation.attempt operation.generation :: s.trace
            else s.trace }
      | .error _ => s.dropOperation id
    else s

/-- One step; `allow` stands for the checks a caller makes before it prepares its dispatch. -/
def step (allow : Option Int → SqliteCodexOperation → Bool) (s : System) : Move → System
  | .edit edit now => s.commit (edit.apply s.database now)
  | .reauthorize id input ids now => s.reauthorize id input ids now
  | .reserve id kind attempt => s.reserve id kind attempt
  | .prepare id observed now => s.prepare allow id observed now
  | .dispatch id => s.dispatch id
  | .report id report => s.report id report
  | .drop id => s.dropOperation id
  | .crash => { s with held := ∅ }

end System
end AiGateway.Codex
