import AiGateway.Domain.CompiledRouting
import Mathlib.Algebra.Order.Ring.Rat

/-! Request admission of one process: the quota precheck, requests per minute and concurrency of
each API key. Counters are the 32-bit ones of the source; a panic is no answer. -/
namespace AiGateway.Admission
open Domain Lib

def window : Duration := Duration.fromSecs 60

structure KeyState where
  windowStartedAt : Option Duration
  requestsInWindow : ℕ
  inFlight : ℕ
  deriving DecidableEq

structure AdmissionState where
  keys : Table Uuid KeyState
  settledQuotaUsed : Table Uuid ℚ

inductive AdmissionError where
  | rateLimited (retryAfter : ℕ)
  | concurrentLimited
  | insufficientQuota
  deriving DecidableEq

/-- The remaining time in seconds, rounded up. -/
def retryAfter (now resetAt : Duration) : ℕ :=
  let remaining := resetAt - now
  remaining / 1000000000 + if remaining % 1000000000 ≠ 0 then 1 else 0

def u32Max : ℕ := 2 ^ 32 - 1

/-- One more, up to the largest 32-bit number. -/
def saturatingSucc (count : ℕ) : ℕ := min (count + 1) u32Max

namespace KeyState

def default : KeyState := ⟨none, 0, 0⟩

/-- What the sweep of an admission keeps. -/
def retained (now : Duration) (state : KeyState) : Bool :=
  decide (0 < state.inFlight) ||
    state.windowStartedAt.any (fun started => decide (now - started ≤ window))

def refreshed (now : Duration) (state : KeyState) : KeyState :=
  if state.windowStartedAt.all (fun started => decide (window ≤ now - started)) then
    { state with windowStartedAt := some now, requestsInWindow := 0 }
  else state

def counted (state : KeyState) : KeyState :=
  { state with requestsInWindow := saturatingSucc state.requestsInWindow }

def occupied (state : KeyState) : KeyState :=
  { state with inFlight := saturatingSucc state.inFlight }

def rateLimited (state : KeyState) (key : CompiledApiKey) : Bool :=
  key.requestsPerMinute.any (fun limit => decide (limit ≤ state.requestsInWindow))

def concurrentLimited (state : KeyState) (key : CompiledApiKey) : Bool :=
  key.maxConcurrentRequests.any (fun limit => decide (limit ≤ state.inFlight))

/-- The gates after the quota. A concurrency rejection keeps the request it counted. -/
def admitRequest (now : Duration) (key : CompiledApiKey) (state : KeyState) :
    Option (Except AdmissionError Unit × KeyState) :=
  let state := state.refreshed now
  if state.rateLimited key then
    state.windowStartedAt.map (fun started =>
      (.error (.rateLimited (retryAfter now (started + window))), state))
  else if state.counted.concurrentLimited key then
    some (.error .concurrentLimited, state.counted)
  else some (.ok (), state.counted.occupied)

end KeyState

namespace AdmissionState

def new : AdmissionState := ⟨∅, ∅⟩

def prune (now : Duration) (all : AdmissionState) : AdmissionState :=
  { all with keys := all.keys.retain (fun _ state => state.retained now) }

def quotaUsed (all : AdmissionState) (key : CompiledApiKey) : ℚ :=
  match all.settledQuotaUsed.get key.id with
  | none => key.quotaUsedAmount
  | some used => max used key.quotaUsedAmount

/-- The admission of one request: a sweep over idle keys, the quota, then the gates of the key. -/
def admitRequest (now : Duration) (all : AdmissionState) (key : CompiledApiKey) :
    Option (Except AdmissionError Unit × AdmissionState) :=
  let all := all.prune now
  if key.quotaExhaustedAt (all.quotaUsed key) then some (.error .insufficientQuota, all)
  else
    (((all.keys.get key.id).getD .default).admitRequest now key).map (fun answer =>
      (answer.1, { all with keys := all.keys.insert key.id answer.2 }))

/-- The drop of a lease, which expects the state of its key. -/
def dropLease (now : Duration) (all : AdmissionState) (keyId : Uuid) : Option AdmissionState :=
  (all.keys.get keyId).map (fun state =>
    let state := { state with inFlight := state.inFlight - 1 }
    if state.inFlight = 0 ∧
        state.windowStartedAt.any (fun started => decide (window < now - started)) then
      { all with keys := all.keys.erase keyId }
    else { all with keys := all.keys.insert keyId state })

def recordSettledQuotaUsage (all : AdmissionState) (keyId : Uuid) (quotaUsedAmount : ℚ) :
    AdmissionState :=
  let settled :=
    match all.settledQuotaUsed.get keyId with
    | none => quotaUsedAmount
    | some current => max current quotaUsedAmount
  { all with settledQuotaUsed := all.settledQuotaUsed.insert keyId settled }

def inFlight (all : AdmissionState) (keyId : Uuid) : ℕ :=
  (all.keys.get keyId).elim 0 KeyState.inFlight

def requestsInWindow (all : AdmissionState) (keyId : Uuid) : ℕ :=
  (all.keys.get keyId).elim 0 KeyState.requestsInWindow

/-- The requests the rate gate compares with the limit: those of the window still open. -/
def currentRequests (all : AdmissionState) (now : Duration) (keyId : Uuid) : ℕ :=
  (((all.keys.get keyId).getD .default).refreshed now).requestsInWindow

end AdmissionState

end AiGateway.Admission
