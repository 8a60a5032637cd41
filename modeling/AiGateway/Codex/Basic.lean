import AiGateway.Domain.Basic
import AiGateway.Lib.Checked
import AiGateway.Lib.Utf8
import Mathlib.Data.UInt

/-! The store of the Codex connector: how times are kept, the rows of its tables and the
fenced update statement. -/
namespace AiGateway.Codex
open Domain Lib

/-- Times are nanoseconds since the Unix epoch, durations nanoseconds. -/
def seconds (n : Int) : Int := n * 1000000000

def minUtc : Int := seconds (-8334601228800)
def maxUtc : Int := seconds 8210266876800 - 1

def checkedDateTime (t : Int) : Option Int :=
  if minUtc ≤ t ∧ t ≤ maxUtc then some t else none

/-- The start of the year 2000, from which stored microseconds are counted. -/
def storageEpoch : Int := seconds 946684800

/-- The whole microseconds of a time, cut towards the storage epoch. -/
def timestamp (t : Int) : Int := storageEpoch + (t - storageEpoch).tdiv 1000 * 1000

/-- Years 0 to 9999, whose texts have the one accepted length. -/
def Storable (t : Int) : Prop := seconds (-62167219200) ≤ t ∧ t < seconds 253402300800

instance (t : Int) : Decidable (Storable t) := inferInstanceAs (Decidable (_ ∧ _))

inductive RepositoryError where
  | notFound
  | conflict
  | validation
  | storage
  deriving DecidableEq

/-- The value a time has once it is bound to a statement. -/
def encodeTimestamp (t : Int) : Except RepositoryError Int :=
  if Storable (timestamp t) then .ok (timestamp t) else .error .storage

inductive RuntimeStatus where
  | active
  | draining
  | unavailable
  | disabled
  deriving DecidableEq

inductive OperationKind where
  | refresh
  | quotaReset
  deriving DecidableEq

inductive CodexQuotaWindowKind where
  | primary
  | secondary
  deriving DecidableEq

def CodexQuotaWindowKind.all : List CodexQuotaWindowKind := [.primary, .secondary]

inductive CodexQuotaResetOutcome where
  | reset
  | nothingToReset
  | noCredit
  | alreadyRedeemed
  deriving DecidableEq

inductive ResetReason where
  | natural
  | manual
  | openaiOfficial
  deriving DecidableEq

structure CodexQuotaUpdate where
  allowed : Bool
  limitReached : Bool
  primaryUsedPercent : Option Int
  primaryWindowSeconds : Option Int
  primaryResetAt : Option Int
  secondaryUsedPercent : Option Int
  secondaryWindowSeconds : Option Int
  secondaryResetAt : Option Int
  resetCreditsAvailable : Option Int
  checkedAt : Int
  deriving DecidableEq

/-- A row of `codex_oauth_credentials`, without the tokens and the identity columns. -/
structure CodexCredential where
  label : Bytes
  refreshGeneration : Int
  reauthRequired : Bool
  enabled : Bool
  quotaThresholdPercent : Int
  runtimeStatus : RuntimeStatus
  quotaAllowed : Option Bool
  quotaLimitReached : Option Bool
  primaryUsedPercent : Option Int
  primaryWindowSeconds : Option Int
  primaryResetAt : Option Int
  secondaryUsedPercent : Option Int
  secondaryWindowSeconds : Option Int
  secondaryResetAt : Option Int
  quotaCheckedAt : Option Int
  quotaResetCreditsAvailable : Option Int
  lastErrorCode : Option String
  lastErrorSummary : Option String
  updatedAt : Int
  deletedAt : Option Int
  deriving DecidableEq

/-- A row of `_gateway_codex_operations`; its credential is the key. -/
structure OperationRow where
  attempt : Uuid
  kind : OperationKind
  generation : Int
  startedAt : Int
  deriving DecidableEq

/-- A row of `codex_quota_window_periods`. -/
structure WindowPeriod where
  id : Uuid
  credentialId : Uuid
  windowKind : CodexQuotaWindowKind
  windowSeconds : Int
  startedAt : Int
  scheduledResetAt : Int
  endedAt : Option Int
  resetReason : Option ResetReason
  initialUsedPercent : Int
  lastUsedPercent : Int
  firstObservedAt : Int
  lastObservedAt : Int
  deriving DecidableEq

/-- A row of `codex_quota_reset_events`. -/
structure ResetEvent where
  id : Uuid
  credentialId : Uuid
  requestedAt : Int
  outcome : CodexQuotaResetOutcome
  windowsReset : Int
  primaryAppliedAt : Option Int
  secondaryAppliedAt : Option Int
  deriving DecidableEq

/-- The quota history of all credentials, rows in the order of their insertion. -/
structure QuotaHistory where
  periods : List WindowPeriod
  events : List ResetEvent
  deriving DecidableEq

structure Database where
  credentials : Table Uuid CodexCredential
  operations : Table Uuid OperationRow
  history : QuotaHistory

def Database.empty : Database := ⟨∅, ∅, ⟨[], []⟩⟩

namespace Database

/-- The row of a credential that is not deleted. -/
def live (db : Database) (id : Uuid) : Option CodexCredential :=
  (db.credentials.get id).filter (fun row => row.deletedAt.isNone)

def pending (db : Database) (id : Uuid) : Bool := (db.operations.get id).isSome

/-- An update of one live credential row, `none` when no row qualifies. The fence aborts it
while an operation of the credential is pending. -/
def updateCredential (db : Database) (id : Uuid) (qualifies : CodexCredential → Bool)
    (set : CodexCredential → CodexCredential) : Except RepositoryError (Option Database) :=
  match db.live id with
  | none => .ok none
  | some row =>
    if qualifies row then
      if db.pending id then .error .storage
      else .ok (some { db with credentials := db.credentials.insert id (set row) })
    else .ok none

variable {db : Database} {id : Uuid} {qualifies : CodexCredential → Bool}
  {set : CodexCredential → CodexCredential}

theorem live_eq_some {row : CodexCredential} :
    db.live id = some row ↔ db.credentials.get id = some row ∧ row.deletedAt = none := by
  simp [live, Option.filter_eq_some_iff]

theorem updateCredential_eq_some {db' : Database} :
    db.updateCredential id qualifies set = .ok (some db') ↔
      ∃ row, db.live id = some row ∧ qualifies row = true ∧ db.operations.get id = none ∧
        db' = { db with credentials := db.credentials.insert id (set row) } := by
  unfold updateCredential
  cases hr : db.live id with
  | none => simp
  | some row =>
    cases hq : qualifies row with
    | false => simp [hq]
    | true =>
      cases hp : db.operations.get id with
      | none =>
        simp only [if_true, pending, hp, Option.isSome_none, Bool.false_eq_true, if_false,
          Except.ok.injEq, Option.some.injEq, true_and, hq, exists_eq_left']
        exact eq_comm
      | some op => simp [hq, pending, hp]

theorem updateCredential_eq_none
    (h : db.updateCredential id qualifies set = .ok none) (row : CodexCredential)
    (hr : db.live id = some row) : qualifies row = false := by
  unfold updateCredential at h
  rw [hr] at h
  cases hq : qualifies row with
  | false => rfl
  | true =>
    cases hp : db.pending id <;> simp [hq, hp] at h

end Database

section Timestamp
variable {s t : Int}

theorem timestamp_mono (h : s ≤ t) : timestamp s ≤ timestamp t := by
  have hc : (s - storageEpoch).tdiv 1000 ≤ (t - storageEpoch).tdiv 1000 :=
    Int.tdiv_le_tdiv (by decide) (Int.sub_le_sub_right h _)
  exact Int.add_le_add_left (Int.mul_le_mul_of_nonneg_right hc (by decide)) _

theorem timestamp_timestamp (t : Int) : timestamp (timestamp t) = timestamp t := by
  unfold timestamp
  rw [add_sub_cancel_left, Int.mul_tdiv_cancel _ (by decide)]

end Timestamp
end AiGateway.Codex
