import AiGateway.Lib.Bytes

/-! Scalar types of the data plane. -/
namespace AiGateway.Domain
open List

abbrev Uuid := BitVec 128

instance lawfulBEqUuid : LawfulBEq Uuid := inferInstance

def Uuid.nil : Uuid := 0

def Uuid.hyphenated (id : Uuid) : String :=
  "-".intercalate [(id.extractLsb' 96 32).toHex, (id.extractLsb' 80 16).toHex,
    (id.extractLsb' 64 16).toHex, (id.extractLsb' 48 16).toHex, (id.extractLsb' 0 48).toHex]

def Uuid.asBytes (id : Uuid) : List UInt8 :=
  (List.range 16).map (fun i => ⟨id.extractLsb' (8 * (15 - i)) 8⟩)

def Uuid.fromSlice (bytes : Lib.Bytes) : Option Uuid :=
  if bytes.length = 16 then some (BitVec.ofNat 128 (Lib.leNat bytes.reverse)) else none

theorem Uuid.asBytes_eq (id : Uuid) : id.asBytes = (Lib.leBytes 16 id.toNat).reverse := by
  apply ext_getElem
  · simp [Uuid.asBytes]
  · intro i h h'
    simp only [Uuid.asBytes, getElem_map, getElem_range, getElem_reverse,
      Lib.getElem_leBytes, Lib.length_leBytes]
    have hp : 256 ^ (16 - 1 - i) = 2 ^ (8 * (15 - i)) := by
      rw [show (256 : ℕ) = 2 ^ 8 from rfl, ← Nat.pow_mul]
    rw [hp]
    apply UInt8.toBitVec_inj.mp
    apply BitVec.eq_of_toNat_eq
    simp [Nat.shiftRight_eq_div_pow]

theorem Uuid.length_asBytes (id : Uuid) : id.asBytes.length = 16 := by
  rw [Uuid.asBytes_eq, length_reverse, Lib.length_leBytes]

theorem Uuid.fromSlice_asBytes (id : Uuid) : Uuid.fromSlice id.asBytes = some id := by
  unfold Uuid.fromSlice
  rw [Uuid.asBytes_eq, length_reverse, Lib.length_leBytes, if_pos rfl, reverse_reverse,
    Lib.leNat_leBytes_of_lt id.isLt, BitVec.ofNat_toNat, BitVec.setWidth_eq]

abbrev Digest := BitVec 256

/-- A time span, or a reading of the monotonic clock, in nanoseconds. -/
abbrev Duration := ℕ

def Duration.fromMillis (millis : ℕ) : Duration := millis * 1000000

def Duration.fromSecs (secs : ℕ) : Duration := secs * 1000000000

def Duration.asMillis (value : Duration) : ℕ := value / 1000000

inductive ApiFormat where
  | openAiChatCompletions
  | openAiResponses
  | openAiImages
  deriving DecidableEq

inductive ApiOperation where
  | chatCompletions
  | responses
  | responsesWebSocket
  | standaloneWebSearch
  | imagesGeneration
  | imagesEdit
  deriving DecidableEq

inductive CapabilityTransport where
  | httpJson
  | httpSse
  | websocket
  | multipart
  deriving DecidableEq

inductive RequestProtocol where
  | nonStream
  | sse
  | webSocket
  deriving DecidableEq

inductive ConnectorKind where
  | openAiCompatible
  | codexOauth
  | plugin (id : String)
  deriving DecidableEq

inductive SelectionStrategy where
  | weightedRandom
  | weightedRoundRobin
  deriving DecidableEq

inductive RequestCompression where
  | default
  | zstd
  deriving DecidableEq

def ApiFormat.parse (value : String) : Option ApiFormat :=
  match value with
  | "open_ai_chat_completions" => some .openAiChatCompletions
  | "open_ai_responses" => some .openAiResponses
  | "open_ai_images" => some .openAiImages
  | _ => none

def ConnectorKind.parse (value : String) : Option ConnectorKind :=
  match value with
  | "general" => some .openAiCompatible
  | "codex" => some .codexOauth
  | _ =>
    if value.isEmpty || decide (64 < value.utf8ByteSize) ||
        !(value.toList.head?.any Char.isLower) ||
        !(value.toList.all (fun c => c.isLower || c.isDigit || c == '_' || c == '-')) then none
    else some (.plugin value)

def SelectionStrategy.parse (value : String) : Option SelectionStrategy :=
  match value with
  | "weighted_random" => some .weightedRandom
  | "weighted_round_robin" => some .weightedRoundRobin
  | _ => none

def RequestCompression.parse (value : String) : Option RequestCompression :=
  match value with
  | "default" => some .default
  | "zstd" => some .zstd
  | _ => none

def RequestCompression.isEncoded : RequestCompression → Bool
  | .zstd => true
  | .default => false

namespace ApiOperation

def apiFormat : ApiOperation → ApiFormat
  | .chatCompletions => .openAiChatCompletions
  | .responses | .responsesWebSocket | .standaloneWebSearch => .openAiResponses
  | .imagesGeneration | .imagesEdit => .openAiImages

def legacyDefault : ApiFormat → ApiOperation
  | .openAiChatCompletions => .chatCompletions
  | .openAiResponses => .responses
  | .openAiImages => .imagesGeneration

def forLegacyFormat (apiFormat : String) : ApiOperation :=
  ((ApiFormat.parse apiFormat).map legacyDefault).getD .chatCompletions

def transports : ApiOperation → List CapabilityTransport
  | .chatCompletions | .responses => [.httpJson, .httpSse]
  | .responsesWebSocket => [.websocket]
  | .standaloneWebSearch | .imagesGeneration => [.httpJson]
  | .imagesEdit => [.multipart]

def asStr : ApiOperation → String
  | .chatCompletions => "chat_completion"
  | .responses => "responses"
  | .responsesWebSocket => "responses-ws"
  | .standaloneWebSearch => "web_search"
  | .imagesGeneration => "images_generation"
  | .imagesEdit => "images_edit"

end ApiOperation
end AiGateway.Domain
