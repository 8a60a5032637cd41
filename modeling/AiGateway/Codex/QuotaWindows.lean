import AiGateway.Codex.Basic
import AiGateway.Lib.Rows

/-! Reconciling the recorded quota windows of a credential with what the provider reports. -/
namespace AiGateway.Codex
open Domain Lib Lib.Stage

def quotaWindowIdentityTolerance : Int := seconds 90

def manualResetMatchWindow : Int := seconds (15 * 60)

structure ObservedCodexQuotaWindow where
  usedPercent : Int
  windowSeconds : Int
  resetAt : Int
  deriving DecidableEq

/-- The report of one window: three values or none, each in its range. -/
def observedCodexQuotaWindow (quota : CodexQuotaUpdate) (kind : CodexQuotaWindowKind) :
    Except RepositoryError (Option ObservedCodexQuotaWindow) :=
  let values := match kind with
    | .primary => (quota.primaryUsedPercent, quota.primaryWindowSeconds, quota.primaryResetAt)
    | .secondary =>
      (quota.secondaryUsedPercent, quota.secondaryWindowSeconds, quota.secondaryResetAt)
  match values with
  | (none, none, none) => .ok none
  | (some usedPercent, some windowSeconds, some resetAt) =>
    if 0 ≤ usedPercent ∧ usedPercent ≤ 100 ∧ 0 < windowSeconds then
      .ok (some ⟨usedPercent, windowSeconds, resetAt⟩)
    else .error .validation
  | _ => .error .validation

namespace ResetEvent

def appliedAt (event : ResetEvent) : CodexQuotaWindowKind → Option Int
  | .primary => event.primaryAppliedAt
  | .secondary => event.secondaryAppliedAt

def setAppliedAt (event : ResetEvent) (time : Int) : CodexQuotaWindowKind → ResetEvent
  | .primary => { event with primaryAppliedAt := some time }
  | .secondary => { event with secondaryAppliedAt := some time }

def appliedCount (event : ResetEvent) : Int := (if event.primaryAppliedAt.isNone then 0 else 1) +
    (if event.secondaryAppliedAt.isNone then 0 else 1)

def claimable (event : ResetEvent) (channelId : Uuid) (kind : CodexQuotaWindowKind)
    (latest earliest : Int) : Bool :=
  event.credentialId == channelId &&
    (event.outcome == .reset || event.outcome == .alreadyRedeemed) &&
    decide (event.windowsReset > event.appliedCount) &&
    decide (event.requestedAt ≤ latest) && decide (event.requestedAt ≥ earliest) &&
    (event.appliedAt kind).isNone

/-- The row that sorts first, newest request and then greatest id. -/
def newer (event other : ResetEvent) : ResetEvent :=
  if event.requestedAt < other.requestedAt ∨
      event.requestedAt = other.requestedAt ∧ event.id < other.id then other else event

end ResetEvent

namespace QuotaHistory

def current (history : QuotaHistory) (channelId : Uuid) (kind : CodexQuotaWindowKind) :
    Option WindowPeriod :=
  history.periods.find? (fun period =>
    period.credentialId == channelId && period.windowKind == kind && period.endedAt.isNone)

def updatePeriod (history : QuotaHistory) (id : Uuid) (set : WindowPeriod → WindowPeriod) :
    QuotaHistory :=
  { history with periods := updateRow (·.id) id set history.periods }

/-- The unique index over the bounds of a window's periods; `id` is the row being written. -/
def identityFree (history : QuotaHistory) (id channelId : Uuid) (kind : CodexQuotaWindowKind)
    (startedAt scheduledResetAt : Int) : Bool :=
  history.periods.all (fun period => period.id == id || !(period.credentialId == channelId &&
    period.windowKind == kind && period.startedAt == startedAt &&
    period.scheduledResetAt == scheduledResetAt))

def markApplied (history : QuotaHistory) (id : Uuid) (kind : CodexQuotaWindowKind)
    (time : Int) : QuotaHistory :=
  { history with events := updateRow (·.id) id (·.setAppliedAt time kind) history.events }

def newestClaimable (history : QuotaHistory) (channelId : Uuid) (kind : CodexQuotaWindowKind)
    (latest earliest : Int) : Option ResetEvent :=
  match history.events.filter (fun event => event.claimable channelId kind latest earliest) with
  | [] => none
  | event :: events => some (events.foldl ResetEvent.newer event)

end QuotaHistory

/-- A new open period, first observed with this report. -/
def openPeriod (id channelId : Uuid) (kind : CodexQuotaWindowKind)
    (observation : ObservedCodexQuotaWindow) (startedAt resetAt observedAt : Int) :
    WindowPeriod where
  id := id
  credentialId := channelId
  windowKind := kind
  windowSeconds := observation.windowSeconds
  startedAt := startedAt
  scheduledResetAt := resetAt
  endedAt := none
  resetReason := none
  initialUsedPercent := observation.usedPercent
  lastUsedPercent := observation.usedPercent
  firstObservedAt := observedAt
  lastObservedAt := observedAt

def insertCodexQuotaWindowPeriod (history : QuotaHistory) (id channelId : Uuid)
    (kind : CodexQuotaWindowKind) (observation : ObservedCodexQuotaWindow)
    (startedAt checkedAt : Int) : Except RepositoryError QuotaHistory := do
  let storedStart ← encodeTimestamp startedAt
  let storedReset ← encodeTimestamp observation.resetAt
  let observedAt ← encodeTimestamp checkedAt
  ensure (decide (storedStart < storedReset)) .storage
  ensure (history.periods.all (fun period => period.id != id)) .storage
  ensure (history.current channelId kind).isNone .storage
  ensure (history.identityFree id channelId kind storedStart storedReset) .storage
  .ok { history with
    periods := history.periods ++
      [openPeriod id channelId kind observation storedStart storedReset observedAt] }

/-- Whether a manual reset explains the transition; its event is then used up for the window.
A bound outside the calendar panics, which rolls the transaction back. -/
def claimManualCodexQuotaReset (history : QuotaHistory) (channelId : Uuid)
    (kind : CodexQuotaWindowKind) (transitionStartedAt observedAt : Int) :
    Except RepositoryError (QuotaHistory × Bool) := do
  let latest ← orReject (checkedDateTime (transitionStartedAt + manualResetMatchWindow)) .storage
  let earliest ← orReject (checkedDateTime (transitionStartedAt - manualResetMatchWindow)) .storage
  let storedLatest ← encodeTimestamp latest
  let storedEarliest ← encodeTimestamp earliest
  match history.newestClaimable channelId kind storedLatest storedEarliest with
  | none => .ok (history, false)
  | some event => do
    let appliedAt ← encodeTimestamp observedAt
    .ok (history.markApplied event.id kind appliedAt, true)

def timestampsWithin (left right tolerance : Int) : Bool :=
  decide ((left - right).natAbs ≤ tolerance)

/-- The report names the open period again. -/
def samePeriod (current : WindowPeriod) (observation : ObservedCodexQuotaWindow) : Bool :=
  current.windowSeconds == observation.windowSeconds &&
    timestampsWithin current.scheduledResetAt observation.resetAt quotaWindowIdentityTolerance

def WindowPeriod.latestSameStart (current : WindowPeriod) : Int :=
  (checkedDateTime (current.startedAt + quotaWindowIdentityTolerance)).getD current.startedAt

def WindowPeriod.naturalBoundary (current : WindowPeriod) : Int :=
  (checkedDateTime (current.scheduledResetAt - quotaWindowIdentityTolerance)).getD
    current.scheduledResetAt

/-- An observation within the open period. -/
def WindowPeriod.observe (period : WindowPeriod) (usedPercent : Int) (observedAt : Int) :
    WindowPeriod :=
  { period with
    lastUsedPercent := if period.lastObservedAt ≤ observedAt then usedPercent
      else period.lastUsedPercent
    lastObservedAt := max period.lastObservedAt observedAt }

/-- An unused period takes the bounds of the report. -/
def WindowPeriod.shift (period : WindowPeriod) (observation : ObservedCodexQuotaWindow)
    (startedAt resetAt observedAt : Int) : WindowPeriod :=
  { period with
    windowSeconds := observation.windowSeconds
    startedAt := startedAt
    scheduledResetAt := resetAt
    lastUsedPercent := observation.usedPercent
    lastObservedAt := max period.lastObservedAt observedAt }

def WindowPeriod.close (period : WindowPeriod) (reason : ResetReason) (endedAt : Int) :
    WindowPeriod :=
  { period with endedAt := some endedAt, resetReason := some reason }

/-- Before the natural boundary a transition may be due to a manual reset. -/
def claimTransition (history : QuotaHistory) (channelId : Uuid) (kind : CodexQuotaWindowKind)
    (current : WindowPeriod) (startedAt checkedAt : Int) :
    Except RepositoryError (QuotaHistory × Bool) :=
  if startedAt < current.naturalBoundary then
    claimManualCodexQuotaReset history channelId kind startedAt checkedAt
  else .ok (history, false)

/-- Why and when the open period ended. -/
def WindowPeriod.transition (current : WindowPeriod) (startedAt : Int) (manualReset : Bool) :
    ResetReason × Int :=
  if startedAt ≥ current.naturalBoundary then (.natural, current.scheduledResetAt)
  else if manualReset then (.manual, startedAt)
  else (.openaiOfficial, startedAt)

/-- A report whose window starts later than the open period: an unused period is moved, any
other is closed and followed by a new one. -/
def advanceCodexQuotaWindow (history : QuotaHistory) (id channelId : Uuid)
    (kind : CodexQuotaWindowKind) (observation : ObservedCodexQuotaWindow)
    (current : WindowPeriod) (startedAt checkedAt : Int) :
    Except RepositoryError QuotaHistory := do
  let (claimed, manualReset) ← claimTransition history channelId kind current startedAt checkedAt
  if current.initialUsedPercent == 0 && current.lastUsedPercent == 0 &&
      decide (startedAt < current.naturalBoundary) && !manualReset then do
    let storedStart ← encodeTimestamp startedAt
    let storedReset ← encodeTimestamp observation.resetAt
    let observedAt ← encodeTimestamp checkedAt
    ensure (decide (storedStart < storedReset)) .storage
    ensure (claimed.identityFree current.id channelId kind storedStart storedReset) .storage
    .ok (claimed.updatePeriod current.id (·.shift observation storedStart storedReset observedAt))
  else do
    let (reason, endedAt) := current.transition startedAt manualReset
    let storedEnd ← encodeTimestamp endedAt
    ensure (decide (storedEnd ≥ current.startedAt)) .storage
    insertCodexQuotaWindowPeriod (claimed.updatePeriod current.id (·.close reason storedEnd))
      id channelId kind observation startedAt checkedAt

/-- Reconciling one window; `id` is the id a new period would get. -/
def reconcileCodexQuotaWindow (history : QuotaHistory) (id channelId : Uuid)
    (kind : CodexQuotaWindowKind) (observation : ObservedCodexQuotaWindow)
    (checkedAt : Int) : Except RepositoryError QuotaHistory := do
  let startedAt ← orReject
    (checkedDateTime (observation.resetAt - seconds observation.windowSeconds)) .validation
  match history.current channelId kind with
  | none => insertCodexQuotaWindowPeriod history id channelId kind observation startedAt checkedAt
  | some current =>
    if checkedAt < current.lastObservedAt then .ok history
    else if samePeriod current observation || decide (startedAt ≤ current.latestSameStart) then do
      let observedAt ← encodeTimestamp checkedAt
      .ok (history.updatePeriod current.id (·.observe observation.usedPercent observedAt))
    else advanceCodexQuotaWindow history id channelId kind observation current startedAt checkedAt

def reconcileCodexQuotaWindows (history : QuotaHistory) (ids : CodexQuotaWindowKind → Uuid)
    (channelId : Uuid) (quota : CodexQuotaUpdate) : Except RepositoryError QuotaHistory :=
  CodexQuotaWindowKind.all.foldlM (fun history kind => do
    match ← observedCodexQuotaWindow quota kind with
    | none => .ok history
    | some observation =>
      reconcileCodexQuotaWindow history (ids kind) channelId kind observation quota.checkedAt)
    history

def recordCodexQuotaResetTransaction (history : QuotaHistory) (channelId eventId : Uuid)
    (requestedAt : Int) (outcome : CodexQuotaResetOutcome) (windowsReset : Int) :
    Except RepositoryError QuotaHistory := do
  ensure (decide (0 ≤ windowsReset ∧ windowsReset ≤ 2)) .validation
  let storedRequest ← encodeTimestamp requestedAt
  ensure (history.events.all (fun event => event.id != eventId)) .storage
  .ok { history with
    events := history.events ++
      [⟨eventId, channelId, storedRequest, outcome, windowsReset, none, none⟩] }

end AiGateway.Codex
