import AiGateway.Codex.Basic
import AiGateway.Journal.Codec
import AiGateway.Lib.Insertion

/-! The rows of metering facts and of the query log, as events are written to and compared with
them. A row stands under its identifier. -/
namespace AiGateway.Pipeline
open Domain Lib Billing Journal Lib.Stage
open Codex (timestamp Storable)

inductive RepositoryError where
  | validation
  | storage
  | duplicateDisappeared (id : Uuid)
  | settlementClaimInvalidated (id : Uuid)
  deriving DecidableEq

structure FactRow where
  startedAt : ℤ
  completedAt : ℤ
  userId : Uuid
  apiKeyId : Uuid
  requestSource : Bytes
  apiFormat : Bytes
  apiOperation : Bytes
  requestProtocol : Bytes
  clientModel : String
  upstreamModel : Option String
  modelRuleId : Option Uuid
  channelGroupId : Option Uuid
  channelId : Option Uuid
  modelId : Option Uuid
  outcome : Bytes
  inputTokens : Option I64
  cachedInputTokens : Option I64
  cacheWriteTokens : Option I64
  outputTokens : Option I64
  reasoningTokens : Option I64
  currency : Option String
  priceUnitTokens : Option I64
  priceEffectiveAt : Option ℤ
  inputUnitPrice : Option ℚ
  cachedInputUnitPrice : Option ℚ
  cacheWriteUnitPrice : Option ℚ
  outputUnitPrice : Option ℚ
  costAmount : Option ℚ
  peakPricing : Bool
  deriving DecidableEq

/-- The query log keeps what the fact keeps and more. -/
structure RequestLogRow extends FactRow where
  responseStatusCode : Option (Fin 65536)
  streamed : Bool
  ttftMs : Option I32
  totalDurationMs : Option I32
  outputTokensPerSecond : Option ℚ
  errorCode : Option String
  errorSummary : Option String
  reasoningEffort : Option String
  fastMode : Bool
  deriving DecidableEq

def effectiveCostAmount (event : RequestLogEvent) : Option Decimal :=
  if event.outcome.forcesZeroCost then some 0 else event.billing.bind RequestBilling.costAmount

/-- How the columns of a row see times and decimals. -/
structure Reading where
  time : ℤ → ℤ
  price : Decimal → ℚ
  amount : Decimal → ℚ
  rate : Decimal → ℚ

section Columns
variable (reading : Reading) (event : RequestLogEvent)

def usage : Option RequestUsage := event.billing.bind RequestBilling.usage

def price : Option RequestPriceSnapshot := event.billing.map RequestBilling.price

def factColumns : FactRow where
  startedAt := reading.time event.startedAt
  completedAt := reading.time event.completedAt
  userId := event.userId
  apiKeyId := event.apiKeyId
  requestSource := event.requestSource.name
  apiFormat := formatName event.apiFormat
  apiOperation := operationName event.apiOperation
  requestProtocol := protocolName event.requestProtocol
  clientModel := event.clientModel
  upstreamModel := event.upstreamModel
  modelRuleId := event.modelRuleId
  channelGroupId := event.channelGroupId
  channelId := event.channelId
  modelId := event.modelId
  outcome := outcomeName event.outcome
  inputTokens := (usage event).map RequestUsage.inputTokens
  cachedInputTokens := (usage event).map RequestUsage.cachedInputTokens
  cacheWriteTokens := (usage event).map RequestUsage.cacheWriteTokens
  outputTokens := (usage event).map RequestUsage.outputTokens
  reasoningTokens := (usage event).map RequestUsage.reasoningTokens
  currency := (price event).map RequestPriceSnapshot.currency
  priceUnitTokens := (price event).map RequestPriceSnapshot.priceUnitTokens
  priceEffectiveAt := (price event).map (fun price => reading.time price.priceEffectiveAt)
  inputUnitPrice := (price event).map (fun price => reading.price price.prices.input)
  cachedInputUnitPrice := (price event).map (fun price => reading.price price.prices.cachedInput)
  cacheWriteUnitPrice := (price event).map (fun price => reading.price price.prices.cacheWrite)
  outputUnitPrice := (price event).map (fun price => reading.price price.prices.output)
  costAmount := (effectiveCostAmount event).map reading.amount
  peakPricing := (event.billing.map RequestBilling.peakPricing).getD false

def logColumns (status : Option (Fin 65536)) : RequestLogRow where
  toFactRow := factColumns reading event
  responseStatusCode := status
  streamed := event.streamed
  ttftMs := event.ttftMs
  totalDurationMs := some event.totalDurationMs
  outputTokensPerSecond :=
    (event.billing.bind RequestBilling.outputTokensPerSecond).map reading.rate
  errorCode := event.errorCode
  errorSummary := event.errorSummary
  reasoningEffort := event.reasoningEffort
  fastMode := event.fastMode

end Columns

def written : Reading := ⟨timestamp, (quantize · 12), (quantize · 8), (quantize · 4)⟩

/-- A time whose text can not be read back stays as it is. -/
def normalizeTimestamp (t : ℤ) : ℤ := if Storable (timestamp t) then timestamp t else t

/-- The comparison of the query log takes the decimals as they are. -/
def exact : Reading := ⟨normalizeTimestamp, Decimal.value, Decimal.value, Decimal.value⟩

/-- Rows of earlier versions are compared under the current name of their operation. -/
def FactRow.current (row : FactRow) : FactRow :=
  { row with apiOperation := normalizeStoredName row.apiOperation row.requestProtocol }

def RequestLogRow.matchesEvent (row : RequestLogRow) (event : RequestLogEvent)
    (status : Option (Fin 65536)) : Bool :=
  decide ({ row with toFactRow := row.toFactRow.current } = logColumns exact event status)

def optionalText (scale : ℕ) : Option Decimal → Except RepositoryError (Option ℚ)
  | none => .ok none
  | some value => some <$> orReject (columnText value scale) .validation

def factObject (event : RequestLogEvent) : Except RepositoryError FactRow := do
  let inputUnitPrice ← optionalText 12 ((price event).map (·.prices.input))
  let cachedInputUnitPrice ← optionalText 12 ((price event).map (·.prices.cachedInput))
  let cacheWriteUnitPrice ← optionalText 12 ((price event).map (·.prices.cacheWrite))
  let outputUnitPrice ← optionalText 12 ((price event).map (·.prices.output))
  let costAmount ← optionalText 8 (effectiveCostAmount event)
  return { factColumns written event with
    inputUnitPrice, cachedInputUnitPrice, cacheWriteUnitPrice, outputUnitPrice, costAmount }

def logObject (event : RequestLogEvent) (status : Option (Fin 65536)) :
    Except RepositoryError RequestLogRow := do
  let outputTokensPerSecond ← optionalText 4
    (event.billing.bind RequestBilling.outputTokensPerSecond)
  let fact ← factObject event
  return { logColumns written event status with toFactRow := fact, outputTokensPerSecond }

/-- The decimals of an event, by the places of their columns, that its fact has to hold. -/
def factDecimals (event : RequestLogEvent) : List (ℕ × Option Decimal) :=
  [(12, (price event).map (·.prices.input)), (12, (price event).map (·.prices.cachedInput)),
    (12, (price event).map (·.prices.cacheWrite)), (12, (price event).map (·.prices.output)),
    (8, effectiveCostAmount event)]

def logDecimals (event : RequestLogEvent) : List (ℕ × Option Decimal) :=
  (4, event.billing.bind RequestBilling.outputTokensPerSecond) :: factDecimals event

/-- The columns hold the decimals. -/
def Hold (decimals : List (ℕ × Option Decimal)) : Prop :=
  ∀ column ∈ decimals, ∀ value, column.2 = some value → (columnText value column.1).isSome = true

variable {scale : ℕ} {event : RequestLogEvent}

theorem optionalText_eq_ok {column : Option Decimal} {text : Option ℚ} :
    optionalText scale column = .ok text ↔ text = column.map (quantize · scale) ∧
      ∀ v, column = some v → (columnText v scale).isSome = true := by
  cases column with
  | none =>
    constructor
    · intro h
      cases h
      exact ⟨rfl, fun v hv => by cases hv⟩
    · rintro ⟨rfl, -⟩
      rfl
  | some v =>
    cases hc : columnText v scale with
    | none => simp [optionalText, hc, orReject, Functor.map, Except.map]
    | some stored =>
      have hs := columnText_eq_quantize hc
      have ht : optionalText scale (some v) = .ok (some (quantize v scale)) := by
        simp [optionalText, hc, orReject, Functor.map, Except.map, hs]
      rw [ht, Except.ok.injEq]
      constructor
      · rintro rfl
        refine ⟨rfl, fun same hsa => ?_⟩
        cases hsa
        rw [hc]
        rfl
      · rintro ⟨rfl, -⟩
        rfl

theorem factObject_eq_ok {row : FactRow} :
    factObject event = .ok row ↔ row = factColumns written event ∧ Hold (factDecimals event) := by
  simp only [factObject, bind_eq_ok, optionalText_eq_ok, Hold, factDecimals,
    List.forall_mem_cons, pure, Except.pure, Except.ok.injEq]
  constructor
  · rintro ⟨_, ⟨rfl, h₁⟩, _, ⟨rfl, h₂⟩, _, ⟨rfl, h₃⟩, _, ⟨rfl, h₄⟩, _, ⟨rfl, h₅⟩, rfl⟩
    exact ⟨by simp [factColumns, written, Function.comp_def], h₁, h₂, h₃, h₄, h₅, by simp⟩
  · rintro ⟨rfl, h₁, h₂, h₃, h₄, h₅, -⟩
    exact ⟨_, ⟨rfl, h₁⟩, _, ⟨rfl, h₂⟩, _, ⟨rfl, h₃⟩, _, ⟨rfl, h₄⟩, _, ⟨rfl, h₅⟩,
      by simp [factColumns, written, Function.comp_def]⟩

theorem logObject_eq_ok {status : Option (Fin 65536)} {row : RequestLogRow} :
    logObject event status = .ok row ↔
      row = logColumns written event status ∧ Hold (logDecimals event) := by
  simp only [logObject, bind_eq_ok, optionalText_eq_ok, factObject_eq_ok, Hold, logDecimals,
    List.forall_mem_cons, pure, Except.pure, Except.ok.injEq]
  constructor
  · rintro ⟨_, ⟨rfl, hr⟩, _, ⟨rfl, hf⟩, rfl⟩
    exact ⟨by simp [logColumns, written], hr, hf⟩
  · rintro ⟨rfl, hr, hf⟩
    exact ⟨_, ⟨rfl, hr⟩, _, ⟨rfl, hf⟩, by simp [logColumns, written]⟩

/-- An answered request without a price. -/
def answered : RequestLogEvent where
  id := 1
  startedAt := 0
  completedAt := 0
  userId := 1
  apiKeyId := 1
  requestSource := .client
  apiFormat := .openAiChatCompletions
  apiOperation := .chatCompletions
  requestProtocol := .nonStream
  clientModel := "model"
  reasoningEffort := none
  fastMode := false
  upstreamModel := some "model"
  modelRuleId := none
  channelGroupId := none
  channelId := none
  upstreamCredential := none
  modelId := some 1
  outcome := .succeeded
  responseStatusCode := some 200
  streamed := false
  ttftMs := none
  totalDurationMs := ⟨5, by decide, by decide⟩
  billing := none
  errorCode := none
  errorSummary := none

end AiGateway.Pipeline
