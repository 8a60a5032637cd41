import AiGateway.Transforms.Headers

/-! Transform documents, the plans they compile to, and the composition of two layers. -/
namespace AiGateway.Transforms
open List

open Lib Lib.Stage Domain

inductive TransformCompileError where
  | documentMustBeObject | unknownField | unsupportedVersion | invalidApiFormat | formatMismatch
  | headerPlanMustBeObject | headerSetMustBeObject | headerRemoveMustBeArray
  | headerRenameMustBeObject | headerNameMustBeString | headerValueMustBeString | invalidHeaderName
  | invalidHeaderValue | protectedHeader | conflictingHeaderOperation | patchMustBeArray
  | patchOperationMustBeObject | patchOperationMissingField | unsupportedPatchOperation
  | patchValueRequired | patchValueForbidden | patchIndexRequired | patchIndexForbidden
  | patchConditionMustBeObject | patchConditionMustHaveOnePredicate | invalidPatchCondition
  | incompatiblePatchCondition | invalidValueExpression | valueExpressionTooDeep | templateTooLong
  | invalidJsonPointer | rootJsonPointer | protectedJsonPath | conflictingJsonOperation
  | incompatibleJsonPatchLayers | sseEventPatchesMustBeArray | ssePatchEntryMustBeObject
  | ssePatchEntryMissingField | unsupportedSseEvent | duplicateSseEvent | protectedSseJsonPath
  deriving DecidableEq

abbrev Compiled (α : Type) := Except TransformCompileError α

abbrev Members := List (Bytes × Json)

def contains (members : Members) (key : String) : Bool := (members.lookup (utf8 key)).isSome

def rejectUnknown (members : Members) (allowed : List String) : Compiled Unit :=
  ensure (members.all (fun member => (allowed.map utf8).contains member.1)) .unknownField

section Headers

def checkedHeader (raw : Bytes) (scope : HeaderScope) : Compiled HeaderName := do
  let name ← orReject (headerNameFromBytes raw) .invalidHeaderName
  ensure (!isProtectedHeader name scope) .protectedHeader
  return name

/-- The names seen so far and the operations. -/
abbrev HeaderProgress := List HeaderName × HeaderPlan

def claimName (seen : List HeaderName) (name : HeaderName) : Compiled (List HeaderName) := do
  ensure (!seen.contains name) .conflictingHeaderOperation
  return name :: seen

def compileHeaderSet (scope : HeaderScope) (progress : HeaderProgress) (entry : Bytes × Json) :
    Compiled HeaderProgress := do
  let name ← checkedHeader entry.1 scope
  let seen ← claimName progress.1 name
  let text ← orReject entry.2.asStr .headerValueMustBeString
  let value ← orReject (headerValueFromStr text) .invalidHeaderValue
  return (seen, progress.2 ++ [.set name value])

def compileHeaderRemove (scope : HeaderScope) (progress : HeaderProgress) (entry : Json) :
    Compiled HeaderProgress := do
  let raw ← orReject entry.asStr .headerNameMustBeString
  let name ← checkedHeader raw scope
  let seen ← claimName progress.1 name
  return (seen, progress.2 ++ [.remove name])

def compileHeaderRename (scope : HeaderScope) (progress : HeaderProgress) (entry : Bytes × Json) :
    Compiled HeaderProgress := do
  let source ← checkedHeader entry.1 scope
  let raw ← orReject entry.2.asStr .headerNameMustBeString
  let target ← checkedHeader raw scope
  let seen ← claimName progress.1 source
  let seen ← claimName seen target
  return (seen, progress.2 ++ [.rename source target])

/-- Runs a stage over the entries of an optional field. -/
def compileField {α : Type} (field : Option Json) (entries : Json → Option (List α))
    (wrongType : TransformCompileError) (stage : HeaderProgress → α → Compiled HeaderProgress)
    (progress : HeaderProgress) : Compiled HeaderProgress :=
  match field with
  | none => .ok progress
  | some value => do
    let entries ← orReject (entries value) wrongType
    entries.foldlM stage progress

def compileHeaders (value : Option Json) (scope : HeaderScope) : Compiled HeaderPlan :=
  match value with
  | none => .ok []
  | some value => do
    let object ← orReject value.asObject .headerPlanMustBeObject
    rejectUnknown object ["set", "remove", "rename"]
    let progress ← compileField (object.lookup (utf8 "set")) Json.asObject .headerSetMustBeObject
      (compileHeaderSet scope) ([], [])
    let progress ← compileField (object.lookup (utf8 "remove")) Json.asArray .headerRemoveMustBeArray
      (compileHeaderRemove scope) progress
    let progress ← compileField (object.lookup (utf8 "rename")) Json.asObject
      .headerRenameMustBeObject (compileHeaderRename scope) progress
    return progress.2

end Headers

section Patches

inductive TransformDocumentVersion where
  | v1 | v2
  deriving DecidableEq

inductive PatchScope where
  | request
  | sse (format : ApiFormat)
  deriving DecidableEq

def parsePointer (raw : Bytes) : Compiled JsonPointer := do
  let tokens ← orReject (decodePointer raw) .invalidJsonPointer
  return ⟨raw, tokens⟩

/-- The path ends at the array or at one of its items. -/
def isArrayItemOrItsIndex (tokens : List Bytes) (array : Bytes) : Bool :=
  match tokens.findIdx? (· == array) with
  | none => false
  | some position => decide (tokens.length ≤ position + 2)

def names (tokens : List Bytes) (keys : List String) : Bool :=
  tokens.any (fun token => (keys.map utf8).contains token)

def isImmutableSsePath (tokens : List Bytes) : ApiFormat → Bool
  | .openAiChatCompletions =>
    names (tokens.take 1) ["id", "object", "created", "model"] || tokens.isEmpty ||
      isArrayItemOrItsIndex tokens (utf8 "choices") || names tokens ["id", "index", "item_id"]
  | .openAiResponses =>
    names (tokens.take 1) ["type", "sequence_number"] || tokens.isEmpty ||
      decide (tokens = [utf8 "response"]) ||
      (decide (tokens.head? = some (utf8 "response")) &&
        names ((tokens.drop 1).take 1) ["id", "status"]) ||
      isArrayItemOrItsIndex tokens (utf8 "output") ||
      names tokens ["id", "item_id", "call_id", "response_id", "index", "output_index",
        "content_index", "type", "sequence_number"]
  | .openAiImages => true

def validatePointer (pointer : JsonPointer) (scope : PatchScope) : Compiled Unit := do
  ensure (!pointer.tokens.isEmpty) .rootJsonPointer
  match scope with
  | .request => ensure (!names pointer.tokens ["model", "stream"]) .protectedJsonPath
  | .sse format => ensure (!isImmutableSsePath pointer.tokens format) .protectedSseJsonPath

def parseJsonValueType (kind : Bytes) : Compiled JsonValueType :=
  if kind = utf8 "object" then .ok .object
  else if kind = utf8 "array" then .ok .array
  else if kind = utf8 "string" then .ok .string
  else if kind = utf8 "number" then .ok .number
  else if kind = utf8 "boolean" then .ok .boolean
  else if kind = utf8 "null" then .ok .null
  else .error .invalidPatchCondition

def compilePatchCondition (value : Option Json) : Compiled (Option JsonCondition) :=
  match value with
  | none => .ok none
  | some value => do
    let object ← orReject value.asObject .patchConditionMustBeObject
    rejectUnknown object ["exists", "type", "equals"]
    ensure (object.length == 1) .patchConditionMustHaveOnePredicate
    match object.lookup (utf8 "exists") with
    | some expected => do
      let expected ← orReject expected.asBool .invalidPatchCondition
      return some (.exists expected)
    | none =>
      match (object.lookup (utf8 "type")).bind Json.asStr with
      | some kind => do
        let kind ← parseJsonValueType kind
        return some (.type kind)
      | none =>
        match object.lookup (utf8 "equals") with
        | some expected => .ok (some (.equals expected))
        | none => .error .patchConditionMustHaveOnePredicate

def maxValueExpressionDepth : ℕ := 32

def maxTemplateBytes : ℕ := 4 * 1024

/-- An object of one member whose key is a marker. -/
def markedExpression (members : Members) : Option (Compiled JsonValueExpression) :=
  match members with
  | [(key, value)] =>
    if key = utf8 "$ref" then
      some (if value.asStr = some (utf8 "current") then .ok .current
        else .error .invalidValueExpression)
    else if key = utf8 "$template" then
      some (do
        let text ← orReject value.asStr .invalidValueExpression
        ensure (decide (text.length ≤ maxTemplateBytes)) .templateTooLong
        return .template text)
    else if key = utf8 "$literal" then some (.ok (.literal value))
    else none
  | _ => none

mutual

def compileValueExpression (depth : ℕ) : Json → Compiled JsonValueExpression
  | .array values =>
    if maxValueExpressionDepth < depth then .error .valueExpressionTooDeep
    else (compileItems (depth + 1) values).map .array
  | .object members =>
    if maxValueExpressionDepth < depth then .error .valueExpressionTooDeep
    else
      match markedExpression members with
      | some marked => marked
      | none => (compileEntries (depth + 1) members).map .object
  | value =>
    if maxValueExpressionDepth < depth then .error .valueExpressionTooDeep
    else .ok (.literal value)

def compileItems (depth : ℕ) : List Json → Compiled (List JsonValueExpression)
  | [] => .ok []
  | value :: values => do
    let first ← compileValueExpression depth value
    let rest ← compileItems depth values
    return first :: rest

def compileEntries (depth : ℕ) : Members → Compiled (List (Bytes × JsonValueExpression))
  | [] => .ok []
  | (key, value) :: members => do
    let first ← compileValueExpression depth value
    let rest ← compileEntries depth members
    return (key, first) :: rest

end

def compileV1PatchOperation (object : Members) (op : Bytes) (path : JsonPointer) :
    Compiled JsonPatchOperation := do
  rejectUnknown object ["op", "path", "value"]
  if op = utf8 "add" then do
    let value ← orReject (object.lookup (utf8 "value")) .patchValueRequired
    return .add path value
  else if op = utf8 "replace" then do
    let value ← orReject (object.lookup (utf8 "value")) .patchValueRequired
    return .replace path value
  else if op = utf8 "remove" then do
    ensure (!contains object "value") .patchValueForbidden
    return .remove path
  else .error .unsupportedPatchOperation

def requireValue (object : Members) : Compiled JsonValueExpression := do
  let value ← orReject (object.lookup (utf8 "value")) .patchValueRequired
  compileValueExpression 0 value

def forbidValue (object : Members) : Compiled Unit :=
  ensure (!contains object "value") .patchValueForbidden

def forbidIndex (object : Members) : Compiled Unit :=
  ensure (!contains object "index") .patchIndexForbidden

def requireIndex (object : Members) : Compiled ℕ :=
  orReject ((object.lookup (utf8 "index")).bind Json.asU64) .patchIndexRequired

def compileAdvancedOperation (object : Members) (op : Bytes) (path : JsonPointer)
    (condition : Option JsonCondition) : Compiled AdvancedJsonOperation :=
  if op = utf8 "add" then do
    forbidIndex object
    let value ← requireValue object
    return .add path value condition
  else if op = utf8 "replace" then do
    forbidIndex object
    let value ← requireValue object
    return .replace path value condition
  else if op = utf8 "remove" then do
    forbidValue object
    forbidIndex object
    return .remove path condition
  else if op = utf8 "array_append" then do
    forbidIndex object
    let value ← requireValue object
    return .arrayAppend path value condition
  else if op = utf8 "array_prepend" then do
    forbidIndex object
    let value ← requireValue object
    return .arrayPrepend path value condition
  else if op = utf8 "array_insert" then do
    let index ← requireIndex object
    let value ← requireValue object
    return .arrayInsert path index value condition
  else if op = utf8 "array_remove" then do
    forbidValue object
    let index ← requireIndex object
    return .arrayRemove path index condition
  else if op = utf8 "merge" then do
    forbidIndex object
    let value ← requireValue object
    return .merge path value condition
  else .error .unsupportedPatchOperation

def isExistsFalse : Option JsonCondition → Bool
  | some (.exists false) => true
  | _ => false

def compileV2PatchOperation (object : Members) (op : Bytes) (path : JsonPointer) :
    Compiled JsonPatchOperation := do
  rejectUnknown object ["op", "path", "value", "index", "when"]
  let condition ← compilePatchCondition (object.lookup (utf8 "when"))
  let operation ← compileAdvancedOperation object op path condition
  ensure (!(operation.requiresExistingTarget && isExistsFalse operation.condition))
    .incompatiblePatchCondition
  return .advanced operation

def pointersConflict (left right : JsonPointer) : Bool :=
  left.tokens.isPrefixOf right.tokens || right.tokens.isPrefixOf left.tokens

def operationIsArrayOnly : JsonPatchOperation → Bool
  | .advanced operation => operation.isArrayOperation
  | _ => false

def jsonOperationsConflict (left right : JsonPatchOperation) : Bool :=
  pointersConflict (operationPath left) (operationPath right) &&
    !(decide (operationPath left = operationPath right) && operationIsArrayOnly left &&
      operationIsArrayOnly right)

def compileOperation (scope : PatchScope) (version : TransformDocumentVersion) (value : Json) :
    Compiled JsonPatchOperation := do
  let object ← orReject value.asObject .patchOperationMustBeObject
  let op ← orReject ((object.lookup (utf8 "op")).bind Json.asStr) .patchOperationMissingField
  let raw ← orReject ((object.lookup (utf8 "path")).bind Json.asStr) .patchOperationMissingField
  let path ← parsePointer raw
  validatePointer path scope
  match version with
  | .v1 => compileV1PatchOperation object op path
  | .v2 => compileV2PatchOperation object op path

def compilePatchStep (scope : PatchScope) (version : TransformDocumentVersion)
    (operations : JsonPatchPlan) (value : Json) : Compiled JsonPatchPlan := do
  let operation ← compileOperation scope version value
  ensure (!operations.any (jsonOperationsConflict · operation)) .conflictingJsonOperation
  return operations ++ [operation]

def compilePatch (value : Option Json) (scope : PatchScope) (version : TransformDocumentVersion) :
    Compiled JsonPatchPlan :=
  match value with
  | none => .ok []
  | some value => do
    let values ← orReject value.asArray .patchMustBeArray
    values.foldlM (compilePatchStep scope version) []

end Patches

section Events

inductive ChatCompletionsSseEvent where
  | chatCompletionChunk
  deriving DecidableEq

inductive ResponsesSseEvent where
  | responseOutputTextDelta | responseRefusalDelta | responseFunctionCallArgumentsDelta
  | responseOutputTextDone | responseCompleted
  deriving DecidableEq

structure SsePatchEntry (Event : Type) where
  event : Event
  json : JsonPatchPlan

inductive SseEventPatchPlan : ApiFormat → Type where
  | openAiChatCompletions (entries : List (SsePatchEntry ChatCompletionsSseEvent)) :
      SseEventPatchPlan .openAiChatCompletions
  | openAiResponses (entries : List (SsePatchEntry ResponsesSseEvent)) :
      SseEventPatchPlan .openAiResponses
  | openAiImages : SseEventPatchPlan .openAiImages

namespace SseEventPatchPlan

def empty : (format : ApiFormat) → SseEventPatchPlan format
  | .openAiChatCompletions => openAiChatCompletions []
  | .openAiResponses => openAiResponses []
  | .openAiImages => openAiImages

def hasOperations {format : ApiFormat} : SseEventPatchPlan format → Bool
  | openAiChatCompletions entries => entries.any (fun entry => !entry.json.isEmpty)
  | openAiResponses entries => entries.any (fun entry => !entry.json.isEmpty)
  | openAiImages => false

def append {format : ApiFormat} :
    SseEventPatchPlan format → SseEventPatchPlan format → SseEventPatchPlan format
  | openAiChatCompletions left, openAiChatCompletions right => openAiChatCompletions (left ++ right)
  | openAiResponses left, openAiResponses right => openAiResponses (left ++ right)
  | openAiImages, openAiImages => openAiImages

end SseEventPatchPlan

def responseSelector (event : Bytes) : Option ResponsesSseEvent :=
  if event = utf8 "response.output_text.delta" then some .responseOutputTextDelta
  else if event = utf8 "response.refusal.delta" then some .responseRefusalDelta
  else if event = utf8 "response.function_call_arguments.delta" then
    some .responseFunctionCallArgumentsDelta
  else if event = utf8 "response.output_text.done" then some .responseOutputTextDone
  else if event = utf8 "response.completed" then some .responseCompleted
  else none

def sseEntryObject (value : Json) : Compiled Members := do
  let object ← orReject value.asObject .ssePatchEntryMustBeObject
  rejectUnknown object ["event", "json"]
  ensure (contains object "json") .ssePatchEntryMissingField
  return object

def sseEventName (object : Members) : Compiled Bytes :=
  orReject ((object.lookup (utf8 "event")).bind Json.asStr) .ssePatchEntryMissingField

def parseChatCompletionsSseEvent (object : Members) : Compiled ChatCompletionsSseEvent := do
  let name ← sseEventName object
  ensure (decide (name = utf8 "chat.completion.chunk")) .unsupportedSseEvent
  return .chatCompletionChunk

def parseResponsesSseEvent (object : Members) : Compiled ResponsesSseEvent := do
  let name ← sseEventName object
  orReject (responseSelector name) .unsupportedSseEvent

/-- One entry behind those already compiled; each event is named once. -/
def compileEntry {Event : Type} [DecidableEq Event] (format : ApiFormat)
    (version : TransformDocumentVersion) (parseEvent : Members → Compiled Event)
    (entries : List (SsePatchEntry Event)) (value : Json) : Compiled (List (SsePatchEntry Event)) := do
  let object ← sseEntryObject value
  let event ← parseEvent object
  ensure (!entries.any (fun entry => decide (entry.event = event))) .duplicateSseEvent
  let json ← compilePatch (object.lookup (utf8 "json")) (.sse format) version
  return entries ++ [⟨event, json⟩]

def compileSseEntries (entries : List Json) (version : TransformDocumentVersion) :
    (format : ApiFormat) → Compiled (SseEventPatchPlan format)
  | .openAiChatCompletions => do
    let compiled ← entries.foldlM
      (compileEntry .openAiChatCompletions version parseChatCompletionsSseEvent) []
    return .openAiChatCompletions compiled
  | .openAiResponses => do
    let compiled ← entries.foldlM (compileEntry .openAiResponses version parseResponsesSseEvent) []
    return .openAiResponses compiled
  | .openAiImages => if entries.isEmpty then .ok .openAiImages else .error .unsupportedSseEvent

def compileSseEventPatches (value : Option Json) (format : ApiFormat)
    (version : TransformDocumentVersion) : Compiled (SseEventPatchPlan format) :=
  match value with
  | none => .ok (SseEventPatchPlan.empty format)
  | some value => do
    let entries ← orReject value.asArray .sseEventPatchesMustBeArray
    compileSseEntries entries version format

end Events

structure TransformPlan where
  apiFormat : ApiFormat
  requestHeaders : HeaderPlan
  responseHeaders : HeaderPlan
  requestJson : JsonPatchPlan
  sseEventPatches : SseEventPatchPlan apiFormat

def TransformPlan.noop (format : ApiFormat) : TransformPlan :=
  ⟨format, [], [], [], SseEventPatchPlan.empty format⟩

def parseDocumentVersion (value : Option Json) : Compiled TransformDocumentVersion :=
  match value.bind Json.asU64 with
  | some 1 => .ok .v1
  | some 2 => .ok .v2
  | _ => .error .unsupportedVersion

def parseFormat (value : Option Bytes) : Compiled ApiFormat :=
  if value = some (utf8 "open_ai_chat_completions") then .ok .openAiChatCompletions
  else if value = some (utf8 "open_ai_responses") then .ok .openAiResponses
  else if value = some (utf8 "open_ai_images") then .ok .openAiImages
  else .error .invalidApiFormat

def compileDocument (document : Json) (expectedFormat : ApiFormat) : Compiled TransformPlan := do
  let object ← orReject document.asObject .documentMustBeObject
  if object.isEmpty then return .noop expectedFormat
  rejectUnknown object ["version", "api_format", "request_headers", "response_headers",
    "request_json", "sse"]
  let version ← parseDocumentVersion (object.lookup (utf8 "version"))
  let format ← parseFormat ((object.lookup (utf8 "api_format")).bind Json.asStr)
  ensure (decide (format = expectedFormat)) .formatMismatch
  let requestHeaders ← compileHeaders (object.lookup (utf8 "request_headers")) .request
  let responseHeaders ← compileHeaders (object.lookup (utf8 "response_headers")) .response
  let requestJson ← compilePatch (object.lookup (utf8 "request_json")) .request version
  let sseEventPatches ← compileSseEventPatches (object.lookup (utf8 "sse")) format version
  return ⟨format, requestHeaders, responseHeaders, requestJson, sseEventPatches⟩

section Compose

def operationRemovedPath : JsonPatchOperation → Option JsonPointer
  | .remove path => some path
  | .advanced operation => if operation.isRemove then some operation.path else none
  | _ => none

def operationCanCreateTarget : JsonPatchOperation → Bool
  | .add .. => true
  | .advanced operation => operation.canCreateTarget
  | _ => false

def removedPathInvalidatesOperation (removed : JsonPointer) (operation : JsonPatchOperation) : Bool :=
  let path := operationPath operation
  removed.tokens.isPrefixOf path.tokens &&
    (decide (removed.tokens.length < path.tokens.length) || !operationCanCreateTarget operation)

def rejectRemovedAncestors (defaults override : JsonPatchPlan) : Compiled Unit :=
  ensure (defaults.all (fun operation =>
    match operationRemovedPath operation with
    | none => true
    | some removed => !override.any (removedPathInvalidatesOperation removed)))
    .incompatibleJsonPatchLayers

def rejectEntryAncestors {Event : Type} [DecidableEq Event]
    (defaults override : List (SsePatchEntry Event)) : Compiled Unit :=
  forM defaults (fun entry =>
    match override.find? (fun other => decide (other.event = entry.event)) with
    | none => .ok ()
    | some other => rejectRemovedAncestors entry.json other.json)

def rejectSseRemovedAncestors {format : ApiFormat} :
    SseEventPatchPlan format → SseEventPatchPlan format → Compiled Unit
  | .openAiChatCompletions defaults, .openAiChatCompletions override =>
    rejectEntryAncestors defaults override
  | .openAiResponses defaults, .openAiResponses override => rejectEntryAncestors defaults override
  | .openAiImages, .openAiImages => .ok ()

/-- The defaults run before the override. -/
def TransformPlan.compose (defaults override : TransformPlan) : Compiled TransformPlan :=
  if hformat : override.apiFormat = defaults.apiFormat then do
    let overridePatches := hformat ▸ override.sseEventPatches
    rejectRemovedAncestors defaults.requestJson override.requestJson
    rejectSseRemovedAncestors defaults.sseEventPatches overridePatches
    return ⟨defaults.apiFormat, defaults.requestHeaders ++ override.requestHeaders,
      defaults.responseHeaders ++ override.responseHeaders,
      defaults.requestJson ++ override.requestJson,
      defaults.sseEventPatches.append overridePatches⟩
  else .error .formatMismatch

end Compose

/-- The plans the gateway can hold. -/
inductive TransformPlan.Built : TransformPlan → Prop where
  | noop (format : ApiFormat) : Built (.noop format)
  | compiled {document : Json} {format : ApiFormat} {plan : TransformPlan}
      (h : compileDocument document format = .ok plan) : Built plan
  | composed {defaults override plan : TransformPlan} (hdefaults : Built defaults)
      (hoverride : Built override) (h : defaults.compose override = .ok plan) : Built plan

section Validated

/-- The operation's pointer is well formed and passed the check of its scope. -/
def PathChecked (scope : PatchScope) (operation : JsonPatchOperation) : Prop :=
  (operationPath operation).WellFormed ∧ validatePointer (operationPath operation) scope = .ok ()

def PlanChecked (scope : PatchScope) (plan : JsonPatchPlan) : Prop :=
  ∀ operation ∈ plan, PathChecked scope operation

variable {scope : PatchScope} {object : Members} {op : Bytes} {path : JsonPointer}
  {operation : JsonPatchOperation} {version : TransformDocumentVersion} {fmt : ApiFormat}

theorem PlanChecked.append {first second : JsonPatchPlan}
    (hf : PlanChecked scope first) (hs : PlanChecked scope second) :
    PlanChecked scope (first ++ second) := by
  intro operation hm
  rcases mem_append.mp hm with h | h
  · exact hf operation h
  · exact hs operation h

theorem wellFormed_parsePointer {raw : Bytes} {pointer : JsonPointer}
    (h : parsePointer raw = .ok pointer) : pointer.WellFormed := by
  simp only [parsePointer, bind_eq_ok, orReject_eq_ok] at h
  obtain ⟨toks, ht, hp⟩ := h
  cases hp
  exact ht

theorem operationPath_compileV1 (h : compileV1PatchOperation object op path = .ok operation) :
    operationPath operation = path := by
  simp only [compileV1PatchOperation, bind_eq_ok] at h
  obtain ⟨_, -, h⟩ := h
  split_ifs at h
  · simp only [bind_eq_ok] at h
    obtain ⟨v, -, hop⟩ := h
    cases hop
    rfl
  · simp only [bind_eq_ok] at h
    obtain ⟨v, -, hop⟩ := h
    cases hop
    rfl
  · simp only [bind_eq_ok] at h
    obtain ⟨_, -, hop⟩ := h
    cases hop
    rfl

theorem path_compileAdvanced {condition : Option JsonCondition} {operation : AdvancedJsonOperation}
    (h : compileAdvancedOperation object op path condition = .ok operation) :
    operation.path = path := by
  unfold compileAdvancedOperation at h
  -- each operation takes two stages and then the given path
  split_ifs at h <;>
    · simp only [bind_eq_ok] at h
      obtain ⟨_, -, _, -, hop⟩ := h
      cases hop
      rfl

theorem operationPath_compileV2 (h : compileV2PatchOperation object op path = .ok operation) :
    operationPath operation = path := by
  simp only [compileV2PatchOperation, bind_eq_ok] at h
  obtain ⟨_, -, condition, -, advanced, ha, _, -, hop⟩ := h
  cases hop
  exact path_compileAdvanced ha

theorem pathChecked_compileOperation {v : Json}
    (h : compileOperation scope version v = .ok operation) : PathChecked scope operation := by
  simp only [compileOperation, bind_eq_ok] at h
  obtain ⟨object, -, op, -, raw, -, path, hp, ⟨⟩, hva, hv⟩ := h
  have hs : operationPath operation = path := by
    cases version with
    | v1 => exact operationPath_compileV1 hv
    | v2 => exact operationPath_compileV2 hv
  rw [PathChecked, hs]
  exact ⟨wellFormed_parsePointer hp, hva⟩

variable {v : Option Json} {Event : Type}

theorem planChecked_compilePatch {plan : JsonPatchPlan}
    (h : compilePatch v scope version = .ok plan) : PlanChecked scope plan := by
  cases v with
  | none =>
    cases h
    exact forall_mem_nil _
  | some v =>
    simp only [compilePatch, bind_eq_ok] at h
    obtain ⟨vs, -, hf⟩ := h
    refine foldlM_invariant (fun _ plan => PlanChecked scope plan)
      (forall_mem_nil _) ?_ hf
    intro _ v ops ops' _ hc hs
    simp only [compilePatchStep, bind_eq_ok] at hs
    obtain ⟨operation, hop, _, -, hr⟩ := hs
    cases hr
    refine hc.append ?_
    intro o hm
    rw [mem_singleton.mp hm]
    exact pathChecked_compileOperation hop

def EntriesChecked {Event : Type} (scope : PatchScope) (entries : List (SsePatchEntry Event)) : Prop :=
  ∀ entry ∈ entries, PlanChecked scope entry.json

variable {first second es : List (SsePatchEntry Event)}

theorem EntriesChecked.append (hf : EntriesChecked scope first)
    (hs : EntriesChecked scope second) : EntriesChecked scope (first ++ second) := by
  intro e hm
  rcases mem_append.mp hm with h | h
  · exact hf e h
  · exact hs e h

def SseEventPatchPlan.Checked {format : ApiFormat} : SseEventPatchPlan format → Prop
  | .openAiChatCompletions entries => EntriesChecked (.sse .openAiChatCompletions) entries
  | .openAiResponses entries => EntriesChecked (.sse .openAiResponses) entries
  | .openAiImages => True

theorem SseEventPatchPlan.checked_empty (fmt : ApiFormat) :
    (SseEventPatchPlan.empty fmt).Checked := by
  cases fmt with
  | openAiChatCompletions => exact forall_mem_nil _
  | openAiResponses => exact forall_mem_nil _
  | openAiImages => trivial

theorem SseEventPatchPlan.Checked.append {first second : SseEventPatchPlan fmt}
    (hf : first.Checked) (hs : second.Checked) : (first.append second).Checked := by
  cases first with
  | openAiChatCompletions es =>
    cases second with
    | openAiChatCompletions others => exact EntriesChecked.append hf hs
  | openAiResponses es =>
    cases second with
    | openAiResponses others => exact EntriesChecked.append hf hs
  | openAiImages =>
    cases second
    trivial

theorem entriesChecked_compile [DecidableEq Event]
    {parseEvent : Members → Compiled Event} {vs : List Json}
    (h : vs.foldlM (compileEntry fmt version parseEvent) [] = .ok es) :
    EntriesChecked (.sse fmt) es := by
  refine foldlM_invariant (fun _ es => EntriesChecked (.sse fmt) es)
    (forall_mem_nil _) ?_ h
  intro _ v es es' _ hc hs
  simp only [compileEntry, bind_eq_ok] at hs
  obtain ⟨object, -, ev, -, _, -, json, hj, hr⟩ := hs
  cases hr
  refine hc.append ?_
  intro e hm
  rw [mem_singleton.mp hm]
  exact planChecked_compilePatch hj

theorem checked_compileSseEventPatches {plan : SseEventPatchPlan fmt}
    (h : compileSseEventPatches v fmt version = .ok plan) : plan.Checked := by
  cases v with
  | none =>
    cases h
    exact SseEventPatchPlan.checked_empty fmt
  | some v =>
    simp only [compileSseEventPatches, bind_eq_ok] at h
    obtain ⟨vs, -, h⟩ := h
    cases fmt with
    | openAiChatCompletions =>
      simp only [compileSseEntries, bind_eq_ok] at h
      obtain ⟨es, he, hp⟩ := h
      cases hp
      exact entriesChecked_compile he
    | openAiResponses =>
      simp only [compileSseEntries, bind_eq_ok] at h
      obtain ⟨es, he, hp⟩ := h
      cases hp
      exact entriesChecked_compile he
    | openAiImages =>
      cases plan
      trivial

/-- Every path of the plan was checked in its scope. -/
structure TransformPlan.Checked (plan : TransformPlan) : Prop where
  request : PlanChecked .request plan.requestJson
  events : plan.sseEventPatches.Checked

namespace TransformPlan

theorem checked_noop (fmt : ApiFormat) : (noop fmt).Checked :=
  ⟨forall_mem_nil _, SseEventPatchPlan.checked_empty fmt⟩

variable {plan : TransformPlan}

theorem checked_compileDocument {doc : Json}
    (h : compileDocument doc fmt = .ok plan) : plan.Checked := by
  simp only [compileDocument, bind_eq_ok] at h
  obtain ⟨object, -, h⟩ := h
  split_ifs at h
  · cases h
    exact checked_noop fmt
  · simp only [bind_eq_ok] at h
    obtain ⟨_, -, version, -, decl, -, _, -, requestHeaders, -, responseHeaders, -, requestJson,
      hr, evs, he, hp⟩ := h
    cases hp
    exact ⟨planChecked_compilePatch hr, checked_compileSseEventPatches he⟩

variable {defaults override : TransformPlan}

/-- A composed plan runs the operations of the defaults and then those of the override. -/
theorem compose_eq_ok (h : defaults.compose override = .ok plan) :
    ∃ hf : override.apiFormat = defaults.apiFormat,
      plan = ⟨defaults.apiFormat, defaults.requestHeaders ++ override.requestHeaders,
        defaults.responseHeaders ++ override.responseHeaders,
        defaults.requestJson ++ override.requestJson,
        defaults.sseEventPatches.append (hf ▸ override.sseEventPatches)⟩ := by
  unfold compose at h
  split_ifs at h with hf
  simp only [bind_eq_ok] at h
  obtain ⟨_, -, _, -, hp⟩ := h
  cases hp
  exact ⟨hf, rfl⟩

theorem Checked.compose (hd : defaults.Checked)
    (hov : override.Checked) (h : defaults.compose override = .ok plan) : plan.Checked := by
  obtain ⟨fmt', _, _, _, evs'⟩ := override
  obtain ⟨hf, rfl⟩ := compose_eq_ok h
  cases hf
  exact ⟨hd.request.append hov.request, hd.events.append hov.events⟩

theorem Built.checked (h : plan.Built) : plan.Checked := by
  induction h with
  | noop fmt => exact checked_noop fmt
  | compiled h => exact checked_compileDocument h
  | composed _ _ h hd hov => exact hd.compose hov h

end TransformPlan

end Validated

end AiGateway.Transforms
