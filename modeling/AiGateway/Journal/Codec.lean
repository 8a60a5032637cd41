import AiGateway.Journal.Event
import AiGateway.Lib.Checked

/-! The versioned rows of the journal: the current version is read as it was written, the earlier
ones are patched first. -/
namespace AiGateway.Journal
open Domain Lib Billing Checked Lib.Stage

def requestLogSchemaVersion : ℤ := 8

structure EncodedRequestLog where
  requestLogId : Uuid
  schemaVersion : ℤ
  payload : Bytes
  deriving DecidableEq

inductive JournalCodecError where
  | serialize
  /-- The name of the field if it is reported as missing. -/
  | deserialize (missing : Option Bytes)
  | unsupportedVersion (version : ℤ)
  | identifierMismatch
  deriving DecidableEq

section Fields

def idField : Bytes := utf8 "id"

def apiFormatField : Bytes := utf8 "api_format"

def apiOperationField : Bytes := utf8 "api_operation"

def requestProtocolField : Bytes := utf8 "request_protocol"

def upstreamCredentialField : Bytes := utf8 "upstream_credential"

end Fields

/-- The derived readers of JSON values and texts: an event has the identifier of its object, an object
is read by its keys, and reading a text as an event and as a value agree where both succeed. -/
structure JournalReader where
  uuid : Json → Option Uuid
  fromValue : Json → Option RequestLogEvent
  parse : Bytes → Option Json
  readEvent : Bytes → Option RequestLogEvent
  /-- The probe of the oldest version. -/
  readStreamed : Bytes → Option Bool
  id_of_fromValue : ∀ members id event, fromValue (.object members) = some event →
    members.lookup idField = some id → uuid id = some event.id
  fromValue_congr : ∀ members others, (∀ key, members.lookup key = others.lookup key) →
    fromValue (.object members) = fromValue (.object others)
  readEvent_agrees : ∀ payload value event, readEvent payload = some event →
    parse payload = some value → fromValue value = some event

/-- The derived writer beside its readers, which read these events back. -/
structure JournalCodec (events : Set RequestLogEvent) extends JournalReader where
  toValue : RequestLogEvent → Json
  toVec : RequestLogEvent → Bytes
  parse_toVec : ∀ event ∈ events, parse (toVec event) = some (toValue event)
  fromValue_toValue : ∀ event ∈ events, fromValue (toValue event) = some event
  credential_toValue : ∀ event ∈ events, ((toValue event).get upstreamCredentialField).isSome = true

/-- The current name of a stored operation. -/
def normalizeStoredName (name protocol : Bytes) : Bytes :=
  if name = utf8 "chat_completions" then utf8 "chat_completion"
  else if name = utf8 "standalone_web_search" then utf8 "web_search"
  else if name = utf8 "responses" ∧ protocol = utf8 "websocket" then utf8 "responses-ws"
  else name

def fromHttpStreamed (streamed : Bool) : RequestProtocol := if streamed then .sse else .nonStream

/-- The operation of a row that only has a format. -/
def legacyOperation (format : ApiFormat) (protocol : Option Bytes) : ApiOperation :=
  if format = .openAiResponses ∧ protocol = some (utf8 "websocket") then .responsesWebSocket
  else ApiOperation.legacyDefault format

def insertLegacyOperation (members : List (Bytes × Json)) :
    Checked JournalCodecError (List (Bytes × Json)) := do
  let format ← lift (orReject (members.lookup apiFormatField) (.deserialize (some apiFormatField)))
  let format ← lift (orReject (readFormat format) (.deserialize none))
  let protocol := (members.lookup requestProtocolField).bind Json.asStr
  .ok (insertMember apiOperationField (.string (operationName (legacyOperation format protocol)))
    members)

/-- The stored name of the operation is replaced when the row names a protocol too. -/
def normalizeOperation (value : Json) : Json :=
  match value with
  | .object members =>
    match (members.lookup apiOperationField).bind Json.asStr,
      (members.lookup requestProtocolField).bind Json.asStr with
    | some name, some protocol =>
      .object (insertMember apiOperationField (.string (normalizeStoredName name protocol)) members)
    | _, _ => value
  | _ => value

namespace JournalReader
variable (reader : JournalReader)

def readValue (payload : Bytes) : Checked JournalCodecError Json :=
  lift (orReject (reader.parse payload) (.deserialize none))

def typed (value : Json) : Checked JournalCodecError RequestLogEvent :=
  lift (orReject (reader.fromValue value) (.deserialize none))

def decodeLegacyOperation (payload : Bytes) : Checked JournalCodecError RequestLogEvent := do
  let value ← reader.readValue payload
  reader.typed (normalizeOperation value)

/-- A payload that is no object panics. -/
def decodeV2 (payload : Bytes) : Checked JournalCodecError RequestLogEvent := do
  let streamed ← lift (orReject (reader.readStreamed payload) (.deserialize none))
  let value ← reader.readValue payload
  let members ← demand value.asObject
  let members ← insertLegacyOperation (insertMember requestProtocolField
    (.string (protocolName (fromHttpStreamed streamed))) members)
  reader.typed (.object members)

def decodeV3 (payload : Bytes) : Checked JournalCodecError RequestLogEvent := do
  let value ← reader.readValue payload
  let members ← demand value.asObject
  let members ← insertLegacyOperation members
  reader.typed (.object members)

def decodeCurrent (payload : Bytes) : Checked JournalCodecError RequestLogEvent := do
  let value ← reader.readValue payload
  lift (ensure (value.get upstreamCredentialField).isSome
    (.deserialize (some upstreamCredentialField)))
  reader.typed value

/-- The typed reading of one version. -/
def decodePayload (version : ℤ) (payload : Bytes) : Checked JournalCodecError RequestLogEvent :=
  if version = 2 then reader.decodeV2 payload
  else if version = 3 then reader.decodeV3 payload
  else if 4 ≤ version ∧ version ≤ 6 then reader.decodeLegacyOperation payload
  else if version = 7 then lift (orReject (reader.readEvent payload) (.deserialize none))
  else if version = requestLogSchemaVersion then reader.decodeCurrent payload
  else .error (.rejected (.unsupportedVersion version))

/-- Rows of earlier versions name no credential, whatever their payload has there. -/
def stripCredential (version : ℤ) (event : RequestLogEvent) : RequestLogEvent :=
  if version < requestLogSchemaVersion then { event with upstreamCredential := none } else event

def decode (row : EncodedRequestLog) : Checked JournalCodecError RequestLogEvent := do
  let event ← reader.decodePayload row.schemaVersion row.payload
  let event := stripCredential row.schemaVersion event
  lift (ensure (event.id == row.requestLogId) .identifierMismatch)
  return event

end JournalReader

def JournalCodec.encode {events : Set RequestLogEvent} (codec : JournalCodec events)
    (event : RequestLogEvent) : EncodedRequestLog :=
  ⟨event.id, requestLogSchemaVersion, codec.toVec event⟩

end AiGateway.Journal
