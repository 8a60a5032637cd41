import AiGateway.Usage.ErrorDetails
import AiGateway.Usage.Framer
import AiGateway.Usage.Parse

/-! The usage collector over an event stream. -/
namespace AiGateway.Usage

open Lib Domain Transforms

def maxSseFrameBytes : ℕ := 8 * 1024 * 1024

inductive SseTerminalOutcome where
  | completed | failed
  deriving DecidableEq

structure SseFrameObservation where
  value : Option Json
  terminalOutcome : Option SseTerminalOutcome
  error : Option ResponseErrorDetails
  deriving DecidableEq

section Observe

variable (env : UsageEnv) (format : ApiFormat)

def failureEvents : List Bytes :=
  ["response.failed", "response.incomplete", "response.cancelled"].map utf8

def unknownUsage : Json := .object [(utf8 "usage", .null)]

def eventFailed (event : Option Bytes) (value : Option Json) : Bool :=
  let eventType := value.bind (fun value => (value.get (utf8 "type")).bind Json.asStr)
  decide (event = some (utf8 "error")) || decide (eventType = some (utf8 "error")) ||
    (value.bind (Json.get · (utf8 "error"))).any (fun error => !error.isNull) ||
    decide (format = .openAiResponses) &&
      (event.any failureEvents.contains || eventType.any failureEvents.contains)

def eventCompleted (event : Option Bytes) (data : Bytes) (value : Option Json) : Bool :=
  let eventType := value.bind (fun value => (value.get (utf8 "type")).bind Json.asStr)
  decide (data = utf8 "[DONE]") ||
    decide (format = .openAiResponses) && (decide (event = some (utf8 "response.completed")) ||
      decide (eventType = some (utf8 "response.completed")))

def observeFields (fields : SseFields) : SseFrameObservation :=
  let data := fields.data.getD []
  let value := fields.data.bind env.codec.parse
  let failed := eventFailed format fields.event value
  let completed := eventCompleted format fields.event data value
  { value :=
      if completed = true ∧ data ≠ utf8 "[DONE]" ∧ value.any Json.isObject = false then
        some unknownUsage
      else value
    terminalOutcome :=
      if failed then some .failed else if completed then some .completed else none
    error :=
      if failed then
        some (match value with
          | none => .fromMessage none (env.fromUtf8Lossy data)
          | some value => extractResponseError env value)
      else none }

def observeSseFrame (frame : Bytes) : SseFrameObservation :=
  observeFields env format (usageFields frame)

/-- What a scan of the buffer observed, up to the first terminal frame. -/
structure BufferScan where
  frames : List Bytes
  values : List Json
  terminalOutcome : Option SseTerminalOutcome
  error : Option ResponseErrorDetails
  rest : Bytes

def scanBuffer (bytes : Bytes) : BufferScan :=
  match _h : sseFrameEnd bytes with
  | none => ⟨[], [], none, none, bytes⟩
  | some size =>
    let frame := bytes.take size
    let observation := observeSseFrame env format frame
    if observation.terminalOutcome.isSome then
      ⟨[frame], observation.value.toList, observation.terminalOutcome, observation.error,
        bytes.drop size⟩
    else
      let below := scanBuffer (bytes.drop size)
      ⟨frame :: below.frames, observation.value.toList ++ below.values, below.terminalOutcome,
        below.error, below.rest⟩
termination_by bytes.length
decreasing_by
  have hbounds := sseFrameEndFrom_bounds _h
  rw [List.length_drop]
  omega

end Observe

structure SseUsageScanner where
  bytes : Bytes
  disabled : Bool

namespace SseUsageScanner

variable (env : UsageEnv) (format : ApiFormat)

def initial : SseUsageScanner := ⟨[], false⟩

def push (scanner : SseUsageScanner) (chunk : Bytes) : BufferScan × SseUsageScanner :=
  if scanner.disabled then (⟨[], [], none, none, []⟩, scanner)
  else if maxSseFrameBytes < scanner.bytes.length + chunk.length then
    (⟨[], [unknownUsage], none, none, []⟩, ⟨[], true⟩)
  else
    let scan := scanBuffer env format (scanner.bytes ++ chunk)
    (scan, ⟨scan.rest, false⟩)

/-- The bytes behind the last frame are a frame at the end of the stream. -/
def finalize (scanner : SseUsageScanner) : SseFrameObservation × SseUsageScanner :=
  if scanner.disabled then (⟨none, none, none⟩, scanner)
  else (observeSseFrame env format scanner.bytes, ⟨[], false⟩)

end SseUsageScanner

/-- The counts recorded so far. An invalid terminal summary must not fall back to earlier counts. -/
structure UsageTally where
  apiFormat : ApiFormat
  parser : UsageParserConfig
  snapshot : AnthropicUsageSnapshot
  latestUsage : Option ResponseUsage
  terminalUsage : Option ResponseUsage
  terminalUsageSeen : Bool

namespace UsageTally

variable (codec : JsonCodec)

def initial (format : ApiFormat) (parser : UsageParserConfig) : UsageTally :=
  ⟨format, parser, .initial, none, none, false⟩

/-- Records a usage object of a value, as the terminal summary or as one more count. -/
def recordSource (tally : UsageTally) (value source : Json) (summary : Bool) : UsageTally :=
  let (usage, snapshot) := tally.parser.parse codec source tally.snapshot
  if isTerminalUsageEvent value tally.apiFormat || summary then
    { tally with
      snapshot := snapshot, latestUsage := usage, terminalUsage := usage, terminalUsageSeen := true }
  else if usage.isNone then
    { tally with snapshot := snapshot, latestUsage := usage, terminalUsage := none }
  else { tally with snapshot := snapshot, latestUsage := usage }

/-- In a stream the usage object is looked for in the event. -/
def recordValue (tally : UsageTally) (value : Json) (summary : Bool) : UsageTally :=
  match usageObject value with
  | none => tally
  | some source => tally.recordSource codec value source summary

/-- The last value of a batch that held a terminal frame is its summary. -/
def record (terminal : Bool) : UsageTally → List Json → UsageTally
  | tally, [] => tally
  | tally, value :: values =>
    record terminal (tally.recordValue codec value (terminal && values.isEmpty)) values

def latest (tally : UsageTally) : Option ResponseUsage :=
  if tally.terminalUsageSeen then tally.terminalUsage else tally.latestUsage

end UsageTally

structure UsageCollector where
  tally : UsageTally
  scanner : SseUsageScanner
  sseTerminalOutcome : Option SseTerminalOutcome
  responseError : Option ResponseErrorDetails

namespace UsageCollector

variable (env : UsageEnv)

def withParser (format : ApiFormat) (parser : UsageParserConfig) : UsageCollector :=
  ⟨.initial format parser, .initial, none, none⟩

def new (format : ApiFormat) : UsageCollector :=
  withParser format (.general (defaultUsageFormat format))

def observe (collector : UsageCollector) (chunk : Bytes) : UsageCollector :=
  if collector.sseTerminalOutcome.isSome then collector
  else
    let (scan, scanner) := collector.scanner.push env collector.tally.apiFormat chunk
    ⟨collector.tally.record env.codec scan.terminalOutcome.isSome scan.values, scanner,
      scan.terminalOutcome, scan.error⟩

def finalize (collector : UsageCollector) : UsageCollector :=
  if collector.sseTerminalOutcome.isSome then collector
  else
    let (observation, scanner) := collector.scanner.finalize env collector.tally.apiFormat
    ⟨collector.tally.record env.codec observation.terminalOutcome.isSome observation.value.toList,
      scanner, observation.terminalOutcome, observation.error⟩

structure Report where
  usage : Option ResponseUsage
  outcome : Option SseTerminalOutcome
  error : Option ResponseErrorDetails
  deriving DecidableEq

def report (collector : UsageCollector) : Report :=
  ⟨collector.tally.latest, collector.sseTerminalOutcome, collector.responseError⟩

def observeAll (collector : UsageCollector) (chunks : List Bytes) : UsageCollector :=
  chunks.foldl (observe env) collector

end UsageCollector

end AiGateway.Usage
