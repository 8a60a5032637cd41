import AiGateway.Lib.Json
import AiGateway.Domain.Basic

/-! Token counters read from the usage object of a response. -/
namespace AiGateway.Usage

open Lib Domain

def maxUsageBytes : ℕ := 64 * 1024

inductive UsageFormat where
  | openAiChatCompletions | openAiResponses | openAiImages | anthropicMessages
  deriving DecidableEq

structure ResponseUsage where
  inputTokens : I64
  cachedInputTokens : I64
  cacheWriteTokens : I64
  outputTokens : I64
  reasoningTokens : I64
  deriving DecidableEq

namespace ResponseUsage

/-- Cache and reasoning counters are parts of the totals. -/
def validate (usage : ResponseUsage) : Bool :=
  decide (0 ≤ usage.inputTokens.value) && decide (0 ≤ usage.cachedInputTokens.value) &&
    decide (0 ≤ usage.cacheWriteTokens.value) && decide (0 ≤ usage.outputTokens.value) &&
    decide (0 ≤ usage.reasoningTokens.value) &&
    decide (usage.cachedInputTokens.value ≤ usage.inputTokens.value) &&
    decide (usage.cacheWriteTokens.value ≤ usage.inputTokens.value) &&
    decide (usage.reasoningTokens.value ≤ usage.outputTokens.value)

end ResponseUsage

section Tokens

def zeroTokens : I64 := Signed.saturating 0

def token (value : Option Json) : Option I64 :=
  (value.bind Json.asI64).filter (fun count => decide (0 ≤ count.value))

/-- A field that is absent, or is a token count; anything else is an error. -/
def optionalToken (usage : Json) (key : String) : Option (Option I64) :=
  match usage.get (utf8 key) with
  | none => some none
  | some value => (token (some value)).map some

def details (usage : Json) (key : String) : Option (Option Json) :=
  match usage.get (utf8 key) with
  | none | some .null => some none
  | some (.object members) => some (some (.object members))
  | some _ => none

def detailToken (details : Option Json) (key : String) : Option (Option I64) :=
  match details with
  | none => some none
  | some details => optionalToken details key

end Tokens

structure CounterNames where
  input : String
  output : String
  inputDetails : String
  outputDetails : String

def counterNames : UsageFormat → CounterNames
  | .openAiChatCompletions =>
    ⟨"prompt_tokens", "completion_tokens", "prompt_tokens_details", "completion_tokens_details"⟩
  | _ => ⟨"input_tokens", "output_tokens", "input_tokens_details", "output_tokens_details"⟩

def parseAnthropicCounters (usage : Json) : Option ResponseUsage := do
  let uncached ← token (usage.get (utf8 "input_tokens"))
  let cached := (← optionalToken usage "cache_read_input_tokens").getD zeroTokens
  let written := (← optionalToken usage "cache_creation_input_tokens").getD zeroTokens
  let withCached ← uncached.checkedAdd cached
  let input ← withCached.checkedAdd written
  let output ← token (usage.get (utf8 "output_tokens"))
  return ⟨input, cached, written, output, zeroTokens⟩

def parseOpenAiCounters (format : UsageFormat) (usage : Json) : Option ResponseUsage := do
  let names := counterNames format
  let inputDetails ← details usage names.inputDetails
  let outputDetails ← details usage names.outputDetails
  let nestedCached ← detailToken inputDetails "cached_tokens"
  let cached ←
    if format = .openAiChatCompletions then do
      let hit ← optionalToken usage "prompt_cache_hit_tokens"
      let _ ← optionalToken usage "prompt_cache_miss_tokens"
      pure (hit.or nestedCached)
    else pure nestedCached
  let written ← detailToken inputDetails "cache_write_tokens"
  let creation ← detailToken inputDetails "cache_creation_tokens"
  let input ← token (usage.get (utf8 names.input))
  let output ← token (usage.get (utf8 names.output))
  let reasoning ← detailToken outputDetails "reasoning_tokens"
  return ⟨input, cached.getD zeroTokens, (written.or creation).getD zeroTokens, output,
    reasoning.getD zeroTokens⟩

def parseGeneralUsage (codec : JsonCodec) (format : UsageFormat) (usage : Json) :
    Option ResponseUsage := do
  guard (usage.isObject = true ∧ (codec.serialize usage).length ≤ maxUsageBytes)
  let parsed ←
    if format = .anthropicMessages then parseAnthropicCounters usage
    else parseOpenAiCounters format usage
  guard (parsed.validate = true)
  return parsed

/-- The counters of a stream so far; each event replaces those it names. -/
structure AnthropicUsageSnapshot where
  input : Option I64
  cached : Option I64
  written : Option I64
  output : Option I64
  deriving DecidableEq

namespace AnthropicUsageSnapshot

def initial : AnthropicUsageSnapshot := ⟨none, some zeroTokens, some zeroTokens, none⟩

def invalid : AnthropicUsageSnapshot := ⟨none, none, none, none⟩

def updated (usage : Json) (key : String) (counter : Option I64) : Option I64 :=
  match usage.get (utf8 key) with
  | none => counter
  | some value => token (some value)

def observe (snapshot : AnthropicUsageSnapshot) (usage : Json) : AnthropicUsageSnapshot :=
  ⟨updated usage "input_tokens" snapshot.input,
    updated usage "cache_read_input_tokens" snapshot.cached,
    updated usage "cache_creation_input_tokens" snapshot.written,
    updated usage "output_tokens" snapshot.output⟩

def count (value : I64) : Json := .number (.int value.value)

/-- The snapshot as a usage object, once every counter is known. -/
def toJson (snapshot : AnthropicUsageSnapshot) : Option Json := do
  let input ← snapshot.input
  let cached ← snapshot.cached
  let written ← snapshot.written
  let output ← snapshot.output
  return .object [(utf8 "cache_creation_input_tokens", count written),
    (utf8 "cache_read_input_tokens", count cached), (utf8 "input_tokens", count input),
    (utf8 "output_tokens", count output)]

end AnthropicUsageSnapshot

/-- A plugin is a function of the usage object it is given. -/
inductive UsageParserConfig where
  | general (format : UsageFormat)
  | plugin (call : Json → Option ResponseUsage)

def boundedUsageBody (codec : JsonCodec) (usage : Json) : Bool :=
  usage.isObject && decide ((codec.serialize usage).length ≤ maxUsageBytes)

def UsageParserConfig.parse (codec : JsonCodec) (usage : Json) (snapshot : AnthropicUsageSnapshot) :
    UsageParserConfig → Option ResponseUsage × AnthropicUsageSnapshot
  | .general .anthropicMessages =>
    if boundedUsageBody codec usage then
      let snapshot := snapshot.observe usage
      (snapshot.toJson.bind (parseGeneralUsage codec .anthropicMessages), snapshot)
    else (none, .invalid)
  | .general format => (parseGeneralUsage codec format usage, snapshot)
  | .plugin call => (if boundedUsageBody codec usage then call usage else none, snapshot)

def defaultUsageFormat : ApiFormat → UsageFormat
  | .openAiChatCompletions => .openAiChatCompletions
  | .openAiResponses => .openAiResponses
  | .openAiImages => .openAiImages

def usageObject (value : Json) : Option Json := ((value.get (utf8 "usage")).or
    ((value.get (utf8 "response")).bind (Json.get · (utf8 "usage")))).or
    ((value.get (utf8 "message")).bind (Json.get · (utf8 "usage")))

def isTerminalUsageEvent (value : Json) : ApiFormat → Bool
  | .openAiChatCompletions =>
    ((value.get (utf8 "choices")).bind Json.asArray).any (fun choices =>
      choices.isEmpty || choices.any (fun choice =>
        (choice.get (utf8 "finish_reason")).any (fun reason => !reason.isNull)))
  | .openAiResponses =>
    ((value.get (utf8 "type")).bind Json.asStr).any (fun kind =>
      (["response.completed", "response.failed", "response.incomplete",
        "response.cancelled"].map utf8).contains kind)
  | .openAiImages => false

end AiGateway.Usage
