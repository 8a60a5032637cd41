import AiGateway.Lib.Utf8
import AiGateway.Usage.Collector

/-! The guard of the response adapter: a plugin may rewrite bodies and events, within what the gateway
keeps for itself. -/
namespace AiGateway.Streaming

open Lib Lib.Stage Domain Transforms Usage

def maxResponseJsonBytes : ℕ := 8 * 1024 * 1024

structure ResponseEvent where
  event : Option Bytes
  data : Bytes
  id : Option Bytes
  deriving DecidableEq

/-- What a plugin answers to a call for a body; nothing if it fails. -/
structure ResponsePlugin where
  responseJson : ApiOperation → ℕ → Bytes → Option (Json × Bytes)

structure ResponseAdaptationError where
  deriving DecidableEq

abbrev Adapted (α : Type) := Except ResponseAdaptationError α

section Guard

def protectedKeys : List Bytes :=
  ["usage", "id", "object", "model", "created", "created_at", "type", "status", "error",
    "incomplete_details", "finish_reason", "sequence_number", "index", "output_index",
    "content_index", "call_id", "item_id", "response_id", "name", "namespace", "role"].map utf8

mutual

/-- What the gateway keeps for itself of a value; null where there is nothing of it. -/
def protectedFields : Json → Json
  | .object members =>
    let kept := protectedMembers members
    if kept.isEmpty then .null else .object kept
  | .array items =>
    let children := protectedItems items
    if children.any (fun child => !child.isNull) then .array children else .null
  | _ => .null

def protectedItems : List Json → List Json
  | [] => []
  | item :: items => protectedFields item :: protectedItems items

def protectedMembers : List (Bytes × Json) → List (Bytes × Json)
  | [] => []
  | (key, value) :: members =>
    if protectedKeys.contains key then (key, value) :: protectedMembers members
    else
      let child := protectedFields value
      if child.isNull then protectedMembers members else (key, child) :: protectedMembers members

end

def singleEventKeys : List Bytes :=
  ["usage", "sequence_number", "tool_calls", "function_call"].map utf8

mutual

def requiresSingleEvent : Json → Bool
  | .object members =>
    members.any (fun member => singleEventKeys.contains member.1) || anyMemberSingle members
  | .array items => anyItemSingle items
  | _ => false

def anyItemSingle : List Json → Bool
  | [] => false
  | item :: items => requiresSingleEvent item || anyItemSingle items

def anyMemberSingle : List (Bytes × Json) → Bool
  | [] => false
  | (_, value) :: members => requiresSingleEvent value || anyMemberSingle members

end

mutual

def containsFinishReason : Json → Bool
  | .object members =>
    (members.lookup (utf8 "finish_reason")).any (fun reason => !reason.isNull) ||
      anyMemberFinished members
  | .array items => anyItemFinished items
  | _ => false

def anyItemFinished : List Json → Bool
  | [] => false
  | item :: items => containsFinishReason item || anyItemFinished items

def anyMemberFinished : List (Bytes × Json) → Bool
  | [] => false
  | (_, value) :: members => containsFinishReason value || anyMemberFinished members

end

variable (codec : JsonCodec)

def object (body : Bytes) : Adapted Json := do
  let value ← orReject (codec.parse body) ⟨⟩
  ensure value.isObject ⟨⟩
  return value

def terminalKinds : List Bytes :=
  ["response.completed", "response.failed", "response.incomplete", "response.cancelled",
    "error"].map utf8

def terminalInput (input : ResponseEvent) (before : Json) : Bool :=
  ((before.get (utf8 "type")).bind Json.asStr).any terminalKinds.contains ||
    input.event.any terminalKinds.contains ||
    (before.get (utf8 "error")).any (fun error => !error.isNull) || containsFinishReason before

def validateEvents (input : ResponseEvent) (output : List ResponseEvent) : Adapted Unit :=
  if trim input.data = utf8 "[DONE]" then ensure (decide (output = [input])) ⟨⟩
  else do
    let before ← object codec input.data
    ensure (!(output.isEmpty ||
      (requiresSingleEvent before || terminalInput input before) && output.length != 1)) ⟨⟩
    output.forM fun event => do
      ensure (decide (event.event = input.event) && decide (event.id = input.id)) ⟨⟩
      let after ← object codec event.data
      ensure ((protectedFields after).sameValue (protectedFields before)) ⟨⟩

end Guard

section Wire

/-- The fields and the id read so far. -/
structure EventLines where
  fields : SseFields
  id : Option Bytes

def EventLines.readLine (lines : EventLines) (line : Bytes) : EventLines where
  fields := lines.fields.readLine line
  id :=
    match sseField line with
    | some (field, value) =>
      if field = utf8 "id" ∧ value.contains 0 = false then some value else lines.id
    | none => lines.id

def isBreak (byte : UInt8) : Bool := byte = 13 || byte = 10

def decodeEvent (frame : Bytes) : Adapted (Option ResponseEvent) := do
  ensure (decide (frame.length ≤ FrameScan.maxFrameBytes)) ⟨⟩
  ensure (validUtf8 frame) ⟨⟩
  let lines := ((frame.splitOnP isBreak).filter (fun line => !line.isEmpty)).foldl
    EventLines.readLine ⟨.empty, none⟩
  return lines.fields.data.map (fun data => ⟨lines.fields.event, data, lines.id⟩)

def encodeField (name : String) : Option Bytes → Adapted Bytes
  | none => .ok []
  | some value => do
    ensure (!value.any (fun byte => isBreak byte || byte = 0)) ⟨⟩
    return utf8 (name ++ ": ") ++ value ++ [10]

def encodeDataLine (line : Bytes) : Adapted Bytes := do
  ensure (!line.contains 13) ⟨⟩
  return utf8 "data: " ++ line ++ [10]

def encodeEvent (event : ResponseEvent) : Adapted Bytes := do
  let name ← encodeField "event" event.event
  let id ← encodeField "id" event.id
  let data ← (event.data.splitOn 10).mapM encodeDataLine
  let encoded := name ++ id ++ data.flatten ++ [10]
  ensure (decide (encoded.length ≤ FrameScan.maxFrameBytes)) ⟨⟩
  return encoded

end Wire

structure ResponseAdapterConfig where
  plugin : ResponsePlugin
  operation : ApiOperation

def ResponseAdapterConfig.adaptJson (codec : JsonCodec) (config : ResponseAdapterConfig)
    (status : ℕ) (body : Bytes) : Adapted Bytes := do
  ensure (decide (body.length ≤ maxResponseJsonBytes)) ⟨⟩
  let before ← object codec body
  let (metadata, output) ← orReject (config.plugin.responseJson config.operation status body) ⟨⟩
  ensure (decide (metadata = .object []) && decide (output.length ≤ maxResponseJsonBytes)) ⟨⟩
  let after ← object codec output
  ensure ((protectedFields before).sameValue (protectedFields after)) ⟨⟩
  return output

end AiGateway.Streaming
