import AiGateway.Domain.Basic
import AiGateway.Lib.Reload
import AiGateway.Lib.Table

/-! The credentials the data plane serves from memory. Every operation on the committed
credentials ends with a reload of the map. -/
namespace AiGateway.Codex.Runtime
open Domain Lib Reload

/-- A committed credential, with the columns the data plane uses. -/
structure CodexCredentialRecord where
  channelId : Uuid
  accountId : Option String
  accessToken : String
  isFedramp : Bool
  accessTokenExpiresAt : Option ℤ
  refreshGeneration : ℤ
  runtimeStatus : String
  deriving DecidableEq

inductive CodexCredentialStatus where
  | active
  | draining
  | unavailable
  | disabled
  deriving DecidableEq

def CodexCredentialStatus.parse (value : String) : Option CodexCredentialStatus :=
  if value = "active" then some .active
  else if value = "draining" then some .draining
  else if value = "unavailable" then some .unavailable
  else if value = "disabled" then some .disabled
  else none

structure CompiledCodexCredential where
  credentialId : Uuid
  accountId : Option String
  accessToken : String
  isFedramp : Bool
  accessTokenExpiresAt : Option ℤ
  refreshGeneration : ℤ
  status : CodexCredentialStatus
  deriving DecidableEq

def CompiledCodexCredential.accessTokenExpired (credential : CompiledCodexCredential) (now : ℤ) :
    Bool :=
  credential.accessTokenExpiresAt.any (fun expiresAt => decide (expiresAt ≤ now))

inductive CodexCredentialUnavailable where
  | missing
  | draining
  | unavailable
  | disabled
  | expired
  deriving DecidableEq

/-- The snapshot of the map. -/
abbrev Snapshot := Table Uuid CompiledCodexCredential

def insertRecord (credentials : Snapshot) (record : CodexCredentialRecord) : Snapshot :=
  match CodexCredentialStatus.parse record.runtimeStatus with
  | none => credentials
  | some status =>
    credentials.insert record.channelId
      { credentialId := record.channelId
        accountId := record.accountId
        accessToken := record.accessToken
        isFedramp := record.isFedramp
        accessTokenExpiresAt := record.accessTokenExpiresAt
        refreshGeneration := record.refreshGeneration
        status := status }

/-- The map that `replace` installs. -/
def replace (records : List CodexCredentialRecord) : Snapshot := records.foldl insertRecord ∅

def credential (snapshot : Snapshot) (credentialId : Uuid) (affinityCacheHit : Bool) (now : ℤ) :
    Except CodexCredentialUnavailable CompiledCodexCredential :=
  match snapshot.get credentialId with
  | none => .error .missing
  | some credential =>
    match credential.status with
    | .disabled => .error .disabled
    | .unavailable => .error .unavailable
    | .draining =>
      if !affinityCacheHit then .error .draining
      else if credential.accessTokenExpired now then .error .expired
      else .ok credential
    | .active => if credential.accessTokenExpired now then .error .expired else .ok credential

/-- The repository and the map, with the operations in progress. A transaction is any change of the
committed credentials, `none` when it is rejected; `run_maintenance` begins with a reload. -/
abbrev Service := State (List CodexCredentialRecord) Snapshot

def Service.step : Service → Event (List CodexCredentialRecord) → Service := State.step replace

/-- A service that has loaded the committed credentials. -/
def Service.initialized (records : List CodexCredentialRecord) : Service := loaded replace records

/-- Between operations the map is that of the committed credentials, so long as reloads replace it
in the order of their reads and none is cut short. -/
theorem map_follows_commits (records : List CodexCredentialRecord)
    (events : List (Event (List CodexCredentialRecord)))
    (horder : Along Service.step State.InOrder (Service.initialized records) events)
    (hquiet : (run Service.step (Service.initialized records) events).Quiet) :
    (run Service.step (Service.initialized records) events).memory =
      replace (run Service.step (Service.initialized records) events).store :=
  State.memory_of_quiet horder hquiet

def activeRecord : CodexCredentialRecord := ⟨1, some "account", "token", false, none, 0, "active"⟩

/-- The transaction of an edit that disables a credential. -/
def disable (id : Uuid) (records : List CodexCredentialRecord) :
    Option (List CodexCredentialRecord) :=
  if records.any (fun record => decide (record.channelId = id)) then
    some (records.map (fun record =>
      if record.channelId = id then { record with runtimeStatus := "disabled" } else record))
  else none

/-- Maintenance begins before the edit has ended, and reads after it. -/
def orderly : List (Event (List CodexCredentialRecord)) :=
  [.start (some (disable 1)), .advance 0, .advance 0, .start none, .advance 1, .advance 0,
    .advance 1]

/-- Maintenance reads, an edit disables the credential and ends, and maintenance installs what it
has read. -/
def overtaken : List (Event (List CodexCredentialRecord)) :=
  [.start none, .advance 0, .start (some (disable 1)), .advance 1, .advance 1, .advance 1,
    .advance 0]

theorem quiet_of_tasks {s : Service} {n : ℕ} (h : s.tasks = List.replicate n .ended) : s.Quiet :=
  fun _ hm => List.eq_of_mem_replicate (h ▸ hm)

theorem map_follows_commits_orderly :
    (run Service.step (Service.initialized [activeRecord]) orderly).memory =
      replace [{ activeRecord with runtimeStatus := "disabled" }] := by
  have hor : Along Service.step State.InOrder (Service.initialized [activeRecord]) orderly := by
    refine ⟨trivial, ?_, ?_, trivial, ?_, ?_, ?_, trivial⟩ <;> intro stamp seen hf <;>
      cases hf <;> decide
  have hq : (run Service.step (Service.initialized [activeRecord]) orderly).Quiet :=
    quiet_of_tasks (n := 2) rfl
  exact map_follows_commits [activeRecord] orderly hor hq

/-- With every operation ended, the map serves a credential that an edit has disabled. -/
theorem disabled_credential_is_served :
    (run Service.step (Service.initialized [activeRecord]) overtaken).Quiet ∧
    (run Service.step (Service.initialized [activeRecord]) overtaken).store =
      [{ activeRecord with runtimeStatus := "disabled" }] ∧
    (credential (run Service.step (Service.initialized [activeRecord]) overtaken).memory 1 false
      0).isOk = true :=
  ⟨quiet_of_tasks (n := 2) rfl, rfl, rfl⟩

end AiGateway.Codex.Runtime
