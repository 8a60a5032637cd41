import AiGateway.Codex.QuotaWindows

/-! The write transactions on Codex credentials. Each is a function of the database and of
the transaction's time; a rejected transaction is rolled back. -/
namespace AiGateway.Codex
open Domain Lib Lib.Stage

structure CodexCredentialCreate where
  label : Bytes
  enabled : Bool
  quotaThresholdPercent : Int
  quota : Option CodexQuotaUpdate
  deriving DecidableEq

structure CodexCredentialUpdateInput where
  label : Bytes
  enabled : Bool
  quotaThresholdPercent : Int
  deriving DecidableEq

inductive CodexCredentialBatchOperation where
  | enable
  | disable
  | delete
  deriving DecidableEq

structure CodexCredentialBatchTarget where
  id : Uuid
  updatedAt : Int
  deriving DecidableEq

def validateCredentialSettings (label : Bytes) (quotaThresholdPercent : Int) :
    Except RepositoryError Unit :=
  ensure (!((trim label).isEmpty || decide (label.length > 100) ||
    !decide (1 ≤ quotaThresholdPercent ∧ quotaThresholdPercent ≤ 100))) .validation

/-- The status a report gives an enabled credential. -/
def runtimeStatusForQuota (quota : CodexQuotaUpdate) (threshold : Int) : RuntimeStatus :=
  if !quota.allowed || quota.limitReached then .unavailable
  else if max (quota.primaryUsedPercent.getD 0) (quota.secondaryUsedPercent.getD 0) ≥ threshold then
    .draining
  else .active

namespace CodexCredential

/-- The arms of the status expressions that read the stored quota; an absent value makes no
comparison true. -/
def storedQuotaStatus (row : CodexCredential) (threshold : Int) : RuntimeStatus :=
  if row.quotaAllowed = some false ∨ row.quotaLimitReached = some true then .unavailable
  else if max (row.primaryUsedPercent.getD 0) (row.secondaryUsedPercent.getD 0) ≥ threshold then
    .draining
  else .active

def setQuota (row : CodexCredential) (quota : CodexQuotaUpdate) (checkedAt : Int)
    (primaryResetAt secondaryResetAt : Option Int) : CodexCredential :=
  { row with
    quotaAllowed := some quota.allowed
    quotaLimitReached := some quota.limitReached
    primaryUsedPercent := quota.primaryUsedPercent
    primaryWindowSeconds := quota.primaryWindowSeconds
    primaryResetAt := primaryResetAt
    secondaryUsedPercent := quota.secondaryUsedPercent
    secondaryWindowSeconds := quota.secondaryWindowSeconds
    secondaryResetAt := secondaryResetAt
    quotaCheckedAt := some checkedAt
    quotaResetCreditsAvailable := quota.resetCreditsAvailable }

/-- A new row before its quota columns are set. -/
def fresh (input : CodexCredentialCreate) (status : RuntimeStatus) (now : Int) :
    CodexCredential where
  label := trim input.label
  refreshGeneration := 0
  reauthRequired := false
  enabled := input.enabled
  quotaThresholdPercent := input.quotaThresholdPercent
  runtimeStatus := status
  quotaAllowed := none
  quotaLimitReached := none
  primaryUsedPercent := none
  primaryWindowSeconds := none
  primaryResetAt := none
  secondaryUsedPercent := none
  secondaryWindowSeconds := none
  secondaryResetAt := none
  quotaCheckedAt := none
  quotaResetCreditsAvailable := none
  lastErrorCode := none
  lastErrorSummary := none
  updatedAt := now
  deletedAt := none

end CodexCredential

def encodeOptional : Option Int → Except RepositoryError (Option Int)
  | none => .ok none
  | some t => some <$> encodeTimestamp t

def bindQuota (quota : CodexQuotaUpdate) :
    Except RepositoryError (CodexCredential → CodexCredential) := do
  let primaryResetAt ← encodeOptional quota.primaryResetAt
  let secondaryResetAt ← encodeOptional quota.secondaryResetAt
  let checkedAt ← encodeTimestamp quota.checkedAt
  .ok (·.setQuota quota checkedAt primaryResetAt secondaryResetAt)

def bindOptionalQuota : Option CodexQuotaUpdate →
    Except RepositoryError (CodexCredential → CodexCredential)
  | none => .ok id
  | some quota => bindQuota quota

def reconcileReport (db : Database) (ids : CodexQuotaWindowKind → Uuid) (channelId : Uuid) :
    Option CodexQuotaUpdate → Except RepositoryError Database
  | none => .ok db
  | some quota => do
    let history ← reconcileCodexQuotaWindows db.history ids channelId quota
    .ok { db with history }

def createdStatus (input : CodexCredentialCreate) : RuntimeStatus :=
  if input.enabled then
    match input.quota with
    | none => .active
    | some quota => runtimeStatusForQuota quota input.quotaThresholdPercent
  else .disabled

/-- The branch of `insert_codex_credential` for an identity that is not known yet. -/
def createCodexCredential (db : Database) (ids : CodexQuotaWindowKind → Uuid) (channelId : Uuid)
    (input : CodexCredentialCreate) (now : Int) : Except RepositoryError Database := do
  validateCredentialSettings input.label input.quotaThresholdPercent
  let setQuota ← bindOptionalQuota input.quota
  ensure (db.credentials.get channelId).isNone .storage
  let row := setQuota (.fresh input (createdStatus input) now)
  reconcileReport { db with credentials := db.credentials.insert channelId row } ids channelId
    input.quota

/-- The report counts unless a newer one is stored. -/
def newestReport (existing : Option Int) (quota : Option CodexQuotaUpdate) :
    Option CodexQuotaUpdate :=
  quota.filter (fun quota => existing.all (fun checkedAt => decide (quota.checkedAt ≥ checkedAt)))

/-- Removing the pending refresh that a reauthorization replaces; `lockFree` tells whether the
lock of the credential can be taken. -/
def reauthorize (db : Database) (lockFree : Bool) (id : Uuid) : Except RepositoryError Database :=
  match db.operations.get id with
  | none => .ok db
  | some operation => do
    ensure (operation.kind == .refresh) .conflict
    ensure lockFree .conflict
    .ok { db with operations := db.operations.erase id }

/-- The status of a reauthorized credential: the report counts if there is one, and the stored
quota otherwise. -/
def reauthorizedStatus (input : CodexCredentialCreate) (quota : Option CodexQuotaUpdate)
    (row : CodexCredential) : RuntimeStatus :=
  if !input.enabled then .disabled
  else match quota with
    | some quota => runtimeStatusForQuota quota input.quotaThresholdPercent
    | none => row.storedQuotaStatus input.quotaThresholdPercent

/-- The branch of `insert_codex_credential` for the identity of an existing credential. -/
def reauthorizeCodexCredential (db : Database) (lockFree : Bool)
    (ids : CodexQuotaWindowKind → Uuid) (channelId : Uuid) (input : CodexCredentialCreate)
    (now : Int) : Except RepositoryError Database := do
  validateCredentialSettings input.label input.quotaThresholdPercent
  let db ← reauthorize db lockFree channelId
  let existing ← orReject (db.live channelId) .notFound
  let quota := newestReport existing.quotaCheckedAt input.quota
  let setQuota ← bindOptionalQuota quota
  let updated ← db.updateCredential channelId (fun _ => true) (fun row =>
    setQuota
      { row with
        updatedAt := now
        label := trim input.label
        refreshGeneration := row.refreshGeneration + 1
        reauthRequired := false
        enabled := input.enabled
        quotaThresholdPercent := input.quotaThresholdPercent
        runtimeStatus := reauthorizedStatus input quota row
        lastErrorCode := none
        lastErrorSummary := none })
  let db ← orReject updated .storage
  reconcileReport db ids channelId quota

/-- The status after an edit that leaves the quota columns alone. -/
def editedStatus (row : CodexCredential) (enabled : Bool) (threshold : Int) : RuntimeStatus :=
  if !enabled then .disabled
  else if row.reauthRequired then .unavailable
  else row.storedQuotaStatus threshold

def updateCodexCredential (db : Database) (channelId : Uuid) (input : CodexCredentialUpdateInput)
    (expectedUpdatedAt now : Int) : Except RepositoryError Database := do
  validateCredentialSettings input.label input.quotaThresholdPercent
  ensure (db.live channelId).isSome .notFound
  let expected ← encodeTimestamp expectedUpdatedAt
  let updated ← db.updateCredential channelId (fun row => row.updatedAt == expected) (fun row =>
    { row with
      updatedAt := now
      label := trim input.label
      quotaThresholdPercent := input.quotaThresholdPercent
      enabled := input.enabled
      runtimeStatus := editedStatus row input.enabled input.quotaThresholdPercent })
  orReject updated .conflict

def setCodexCredentialEnabled (db : Database) (channelId : Uuid) (expectedUpdatedAt : Int)
    (enabled : Bool) (now : Int) : Except RepositoryError Database := do
  ensure (db.live channelId).isSome .notFound
  let expected ← encodeTimestamp expectedUpdatedAt
  let updated ← db.updateCredential channelId (fun row => row.updatedAt == expected) (fun row =>
    { row with
      updatedAt := now
      enabled := enabled
      runtimeStatus := editedStatus row enabled row.quotaThresholdPercent })
  orReject updated .conflict

def deleteCodexCredential (db : Database) (channelId : Uuid) (expectedUpdatedAt now : Int) :
    Except RepositoryError Database := do
  ensure (db.live channelId).isSome .notFound
  let expected ← encodeTimestamp expectedUpdatedAt
  let updated ← db.updateCredential channelId (fun row => row.updatedAt == expected) (fun row =>
    { row with
      updatedAt := now
      enabled := false
      runtimeStatus := .disabled
      reauthRequired := false
      quotaAllowed := none
      quotaLimitReached := none
      primaryUsedPercent := none
      primaryWindowSeconds := none
      primaryResetAt := none
      secondaryUsedPercent := none
      secondaryWindowSeconds := none
      secondaryResetAt := none
      quotaResetCreditsAvailable := none
      quotaCheckedAt := none
      lastErrorCode := none
      lastErrorSummary := none
      deletedAt := some now })
  orReject updated .conflict

def updateCodexCredentialsBatch (db : Database) (items : List CodexCredentialBatchTarget)
    (operation : CodexCredentialBatchOperation) (now : Int) :
    Except RepositoryError Database := do
  ensure (!items.isEmpty && decide (items.length ≤ 100)) .validation
  ensure (decide (items.map (·.id)).Nodup) .validation
  items.foldlM (fun db item =>
    match operation with
    | .enable => setCodexCredentialEnabled db item.id item.updatedAt true now
    | .disable => setCodexCredentialEnabled db item.id item.updatedAt false now
    | .delete => deleteCodexCredential db item.id item.updatedAt now) db

/-- The row changes of a completed refresh, `none` when the generation has moved on. -/
def persistCodexTokenRefresh (db : Database) (channelId : Uuid) (expectedGeneration : Int)
    (now : Int) : Except RepositoryError (Option Database) :=
  db.updateCredential channelId (fun row => row.refreshGeneration == expectedGeneration) (fun row =>
    { row with
      updatedAt := now
      refreshGeneration := row.refreshGeneration + 1
      reauthRequired := false
      runtimeStatus :=
        if !row.enabled then .disabled else row.storedQuotaStatus row.quotaThresholdPercent
      lastErrorCode := none
      lastErrorSummary := none })

/-- Recording an error of the credential; a permanent one asks for a new authorization. -/
def markCodexCredentialError (db : Database) (channelId : Uuid) (permanent : Bool)
    (code summary : String) (now : Int) : Except RepositoryError Database := do
  let updated ← db.updateCredential channelId (fun _ => true) (fun row =>
    let keeps := row.reauthRequired && !permanent
    { row with
      updatedAt := now
      reauthRequired := row.reauthRequired || permanent
      runtimeStatus := if permanent then .unavailable else row.runtimeStatus
      lastErrorCode := if keeps then row.lastErrorCode else some code
      lastErrorSummary := if keeps then row.lastErrorSummary else some summary })
  .ok (updated.getD db)

def persistCodexQuota (db : Database) (ids : CodexQuotaWindowKind → Uuid) (channelId : Uuid)
    (quota : CodexQuotaUpdate) (now : Int) : Except RepositoryError Database := do
  ensure (db.live channelId).isSome .notFound
  let db ← reconcileReport db ids channelId (some quota)
  let setQuota ← bindQuota quota
  let checkedAt ← encodeTimestamp quota.checkedAt
  let updated ← db.updateCredential channelId
    (fun row => row.quotaCheckedAt.all (fun stored => decide (stored ≤ checkedAt))) (fun row =>
    setQuota
      { row with
        updatedAt := now
        runtimeStatus :=
          if !row.enabled then .disabled
          else if row.reauthRequired then .unavailable
          else runtimeStatusForQuota quota row.quotaThresholdPercent
        lastErrorCode := if row.reauthRequired then row.lastErrorCode else none
        lastErrorSummary := if row.reauthRequired then row.lastErrorSummary else none })
  .ok (updated.getD db)

/-- The backfill of a missing user id, which is not among the modelled columns: it touches
the row when it applies. -/
def setCodexUserIdIfMissing (db : Database) (channelId : Uuid) (now : Int) :
    Except RepositoryError Database := do
  let updated ← db.updateCredential channelId (fun _ => true) ({ · with updatedAt := now })
  .ok (updated.getD db)

def recordCodexQuotaReset (db : Database) (channelId eventId : Uuid) (requestedAt : Int)
    (outcome : CodexQuotaResetOutcome) (windowsReset : Int) : Except RepositoryError Database := do
  ensure (db.live channelId).isSome .notFound
  let history ← recordCodexQuotaResetTransaction db.history channelId eventId requestedAt outcome
    windowsReset
  .ok { db with history }

end AiGateway.Codex
