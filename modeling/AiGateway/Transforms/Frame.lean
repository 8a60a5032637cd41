import AiGateway.Lib.Lines
import AiGateway.Transforms.Plan

/-! Event patches applied to one frame of an event stream. -/
namespace AiGateway.Transforms

open Lib Lib.Stage Domain

/-- The field and the value of a line; a line that starts with a colon is a comment. -/
def sseField (line : Bytes) : Option (Bytes × Bytes) :=
  if line.head? = some 58 then none
  else
    let field := line.takeWhile (· != 58)
    let value := (line.drop field.length).tail
    some (field, if value.head? = some 32 then value.tail else value)

structure SseFields where
  event : Option Bytes
  data : Option Bytes
  deriving DecidableEq

namespace SseFields

def empty : SseFields := ⟨none, none⟩

def joinData (value : Bytes) : Option Bytes → Bytes
  | none => value
  | some data => data ++ 10 :: value

def readLine (fields : SseFields) (content : Bytes) : SseFields :=
  match sseField content with
  | none => fields
  | some (field, value) =>
    if field = utf8 "event" then ⟨some value, fields.data⟩
    else if field = utf8 "data" then ⟨fields.event, some (joinData value fields.data)⟩
    else fields

def readFrom (fields : SseFields) (lines : List Line) : SseFields :=
  lines.foldl (fun fields line => fields.readLine line.content) fields

def ofLines (lines : List Line) : SseFields := readFrom empty lines

end SseFields

def isDataLine (line : Line) : Bool :=
  (sseField line.content).any (fun field => decide (field.1 = utf8 "data"))

/-- The first data line takes the new value and the others go. -/
def rewriteLines (json : Bytes) : Bool → List Line → List Line
  | _, [] => []
  | replaced, line :: lines =>
    if isDataLine line then
      if replaced then rewriteLines json true lines
      else ⟨utf8 "data: " ++ json, line.ending⟩ :: rewriteLines json true lines
    else line :: rewriteLines json replaced lines

def rewriteSseDataLines (frame json : Bytes) : Bytes :=
  let head := headLines frame
  (rewriteLines json false head.1).flatMap Line.bytes ++ head.2

section Apply

variable (codec : JsonCodec)

/-- The patches of the entries that name the event, in order, and whether there was one. -/
def applyMatchingEntries {Event : Type} [DecidableEq Event] (selector : Event) :
    Json → List (SsePatchEntry Event) → Except TransformApplyError (Json × Bool)
  | value, [] => .ok (value, false)
  | value, entry :: entries =>
    if entry.event = selector ∧ entry.json.isEmpty = false then do
      let value ← applyJsonPatchValue codec value entry.json
      let result ← applyMatchingEntries selector value entries
      return (result.1, true)
    else applyMatchingEntries selector value entries

def applyMatchingChatEntries (value : Json) (entries : List (SsePatchEntry ChatCompletionsSseEvent)) :
    Except TransformApplyError (Json × Bool) :=
  applyMatchingEntries codec .chatCompletionChunk value entries

def applyMatchingResponseEntries (value : Json) (entries : List (SsePatchEntry ResponsesSseEvent))
    (selector : ResponsesSseEvent) : Except TransformApplyError (Json × Bool) :=
  applyMatchingEntries codec selector value entries

def patchEvent {format : ApiFormat} (event : Option Bytes) (value : Json) :
    SseEventPatchPlan format → Except TransformApplyError (Json × Bool)
  | .openAiChatCompletions entries =>
    if (value.get (utf8 "object")).bind Json.asStr ≠ some (utf8 "chat.completion.chunk") ∨
        event.any (fun name => !name.isEmpty) then .ok (value, false)
    else applyMatchingChatEntries codec value entries
  | .openAiResponses entries =>
    match (value.get (utf8 "type")).bind Json.asStr with
    | none => .ok (value, false)
    | some eventType =>
      match responseSelector eventType with
      | none => .ok (value, false)
      | some selector =>
        if event.any (fun name => decide (name ≠ eventType)) then .ok (value, false)
        else applyMatchingResponseEntries codec value entries selector
  | .openAiImages => .ok (value, false)

def transformSseFrame {format : ApiFormat} (frame : Bytes) (plan : SseEventPatchPlan format) :
    Except TransformApplyError Bytes :=
  let fields := SseFields.ofLines (headLines frame).1
  match fields.data.bind codec.parse with
  | none => .ok frame
  | some value =>
    if value.isObject = false then .ok frame
    else do
      let result ← patchEvent codec fields.event value plan
      if result.2 then return rewriteSseDataLines frame (codec.serialize result.1)
      else return frame

end Apply

end AiGateway.Transforms
