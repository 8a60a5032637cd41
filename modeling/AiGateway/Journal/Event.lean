import AiGateway.Billing.Request
import AiGateway.Domain.Basic
import AiGateway.Lib.JsonPatch

/-! The request-log event and the names its enumerations have in texts. -/
namespace AiGateway.Journal
open Domain Lib Billing

inductive RequestLogSource where
  | client
  | scheduledTest
  deriving DecidableEq

structure RequestCredentialAttribution where
  credentialId : Option Uuid
  deriving DecidableEq

structure RequestLogEvent where
  id : Uuid
  startedAt : ℤ
  completedAt : ℤ
  userId : Uuid
  apiKeyId : Uuid
  requestSource : RequestLogSource
  apiFormat : ApiFormat
  apiOperation : ApiOperation
  requestProtocol : RequestProtocol
  clientModel : String
  reasoningEffort : Option String
  fastMode : Bool
  upstreamModel : Option String
  modelRuleId : Option Uuid
  channelGroupId : Option Uuid
  channelId : Option Uuid
  upstreamCredential : Option RequestCredentialAttribution
  modelId : Option Uuid
  outcome : RequestLogOutcome
  responseStatusCode : Option (Fin 65536)
  streamed : Bool
  ttftMs : Option I32
  totalDurationMs : I32
  billing : Option RequestBilling
  errorCode : Option String
  errorSummary : Option String
  deriving DecidableEq

def RequestLogSource.name : RequestLogSource → Bytes
  | .client => utf8 "client"
  | .scheduledTest => utf8 "scheduled_test"

def formatName : ApiFormat → Bytes
  | .openAiChatCompletions => utf8 "open_ai_chat_completions"
  | .openAiResponses => utf8 "open_ai_responses"
  | .openAiImages => utf8 "open_ai_images"

def formatNames : List (Bytes × ApiFormat) :=
  [.openAiChatCompletions, .openAiResponses, .openAiImages].map (fun format =>
    (formatName format, format))

/-- A unit variant: its name, or an object with the name as its only key. -/
def readFormat : Json → Option ApiFormat
  | .string name => formatNames.lookup name
  | .object [(name, .null)] => formatNames.lookup name
  | _ => none

def operationName (operation : ApiOperation) : Bytes := utf8 operation.asStr

def protocolName : RequestProtocol → Bytes
  | .nonStream => utf8 "non_stream"
  | .sse => utf8 "sse"
  | .webSocket => utf8 "websocket"

def outcomeName : RequestLogOutcome → Bytes
  | .succeeded => utf8 "succeeded"
  | .failed => utf8 "failed"
  | .rejected => utf8 "rejected"
  | .cancelled => utf8 "cancelled"

end AiGateway.Journal
