import AiGateway.Lib.JsonText
import AiGateway.Lib.Utf8

/-! The code and the text that are kept of an upstream error. -/
namespace AiGateway.Usage

open Lib

def maxErrorCodeBytes : ℕ := 100

def maxErrorSummaryBytes : ℕ := 16 * 1024

structure ResponseErrorDetails where
  code : Option Bytes
  summary : Option Bytes
  deriving DecidableEq

/-- Reading and writing of JSON values, and the decoding of bytes that need not be a text. -/
structure UsageEnv where
  codec : JsonCodec
  toWriterPretty : Json → Bytes
  fromUtf8Lossy : Bytes → Bytes

section Sanitize

/-- The characters of a text, each with its continuation bytes. -/
def chars (text : Bytes) : List Bytes :=
  text.foldr (fun byte characters =>
    match characters with
    | character :: rest =>
      if character.head?.any isContinuation then (byte :: character) :: rest
      else [byte] :: character :: rest
    | [] => [[byte]]) []

def isControl : Bytes → Bool
  | [byte] => byte < 32 || byte = 127
  | [first, second] => first = 0xC2 && second < 0xA0
  | _ => false

/-- The loop over the characters: what is kept of them, and whether some were cut off. A line feed
behind a carriage return is skipped. -/
def sanitizeFrom (maximumBytes : ℕ) (multiline : Bool) : List Bytes → Bytes → Bool → Bytes × Bool
  | [], sanitized, _ => (sanitized, false)
  | character :: rest, sanitized, previousWasCr =>
    if multiline ∧ character = [10] ∧ previousWasCr then
      sanitizeFrom maximumBytes multiline rest sanitized false
    else
      let kept :=
        if multiline ∧ character = [13] then [10]
        else if multiline ∧ (character = [10] ∨ character = [9]) then character
        else if isControl character then [32]
        else character
      if sanitized.length + kept.length > maximumBytes then (sanitized, true)
      else
        sanitizeFrom maximumBytes multiline rest (sanitized ++ kept)
          (multiline && decide (character = [13]))

/-- The last boundary of characters at or before a position. -/
def charBoundary (text : Bytes) : ℕ → ℕ
  | 0 => 0
  | position + 1 =>
    if (text.drop (position + 1)).head?.any isContinuation then charBoundary text position
    else position + 1

def ellipsis : Bytes := [0xE2, 0x80, 0xA6]

def sanitizeErrorText (value : Bytes) (maximumBytes : ℕ) (multiline forceTruncated : Bool) :
    Option Bytes :=
  let (sanitized, truncated) := sanitizeFrom maximumBytes multiline (chars value) [] false
  let trimmed := trim sanitized
  if trimmed = [] then none
  else if forceTruncated || truncated then
    let target := min trimmed.length (maximumBytes - ellipsis.length)
    some (trimmed.take (charBoundary trimmed target) ++ ellipsis)
  else some trimmed

end Sanitize

def ResponseErrorDetails.fromMessage (code : Option Bytes) (message : Bytes) : ResponseErrorDetails where
  code := code.bind (sanitizeErrorText · maxErrorCodeBytes false false)
  summary := sanitizeErrorText message maxErrorSummaryBytes true false

section Extract
variable (env : UsageEnv)

def errorScalar : Json → Option Bytes
  | .string text => some text
  | .number value => some (env.codec.serialize (.number value))
  | .bool value => some (env.codec.serialize (.bool value))
  | .null | .array _ | .object _ => none

/-- The value is written behind the message, as far as there is room; the writer fails at the first
byte beyond it. -/
def renderErrorSummary (value : Json) (message : Option Bytes) : Option Bytes :=
  match value with
  | .string text => sanitizeErrorText text maxErrorSummaryBytes true false
  | _ =>
    let summary := (message.bind (sanitizeErrorText · maxErrorSummaryBytes true false)).getD []
    let summary :=
      if summary.length < maxErrorSummaryBytes ∧ summary ≠ [] then summary ++ [10, 10] else summary
    let remaining := maxErrorSummaryBytes - summary.length
    let written := env.toWriterPretty value
    sanitizeErrorText (summary ++ env.fromUtf8Lossy (written.take remaining)) maxErrorSummaryBytes
      true (decide (remaining < written.length))

def extractResponseError (value : Json) : ResponseErrorDetails :=
  let nestedError := ((value.get (utf8 "error")).filter (!·.isNull)).or
    (((value.get (utf8 "response")).bind (·.get (utf8 "error"))).filter (!·.isNull))
  let code := (nestedError.bind (fun error =>
      ((error.get (utf8 "code")).bind (errorScalar env)).or
        ((error.get (utf8 "type")).bind (errorScalar env)))).or
    ((value.get (utf8 "code")).bind (errorScalar env))
  let message := (nestedError.bind (fun error =>
      match error with
      | .string message => some message
      | _ => (error.get (utf8 "message")).bind Json.asStr)).or
    ((value.get (utf8 "message")).bind Json.asStr)
  { code := code.bind (sanitizeErrorText · maxErrorCodeBytes false false)
    summary := renderErrorSummary env value message }

end Extract

/-- Reads the texts of these values, and every text as it is. -/
def UsageEnv.ofValues (values : List Json) : UsageEnv := ⟨.ofValues values, Json.pretty, id⟩

end AiGateway.Usage
