import AiGateway.Transforms.Compose
import AiGateway.Transforms.Framer

/-! Frames with rewritten data lines, and the same events as WebSocket messages. -/
namespace AiGateway.Transforms
open List

open Lib Lib.Stage Domain

section Lines

/-- The lines a rewrite keeps: the first data line and all lines of other fields. -/
def keptLines : Bool → List Line → List Line
  | _, [] => []
  | seen, line :: lines =>
    if isDataLine line then
      if seen then keptLines true lines else line :: keptLines true lines
    else line :: keptLines seen lines

/-- No CR ends up in front of a blank line that is a single LF. -/
def EndsApart (frame : Bytes) : Prop := (headLines frame).2 = [10] →
    ∀ line ∈ (keptLines false (headLines frame).1).getLast?, line.ending ≠ [13]

theorem map_ending_rewriteLines (json : Bytes) (seen : Bool) (lines : List Line) :
    (rewriteLines json seen lines).map Line.ending = (keptLines seen lines).map Line.ending := by
  induction lines generalizing seen with
  | nil => rfl
  | cons line lines ih =>
    rw [rewriteLines, keptLines]
    split_ifs
    · exact ih true
    · rw [map_cons, map_cons, ih true]
    · rw [map_cons, map_cons, ih seen]

theorem filter_rewriteLines (json : Bytes) (seen : Bool) (lines : List Line) :
    (rewriteLines json seen lines).filter (!isDataLine ·) = lines.filter (!isDataLine ·) := by
  induction lines generalizing seen with
  | nil => rfl
  | cons line lines ih =>
    rw [rewriteLines]
    split_ifs with hd hs
    · rw [ih, filter_cons_of_neg (by simp [hd])]
    · rw [filter_cons_of_neg (by simp [isDataLine_rewritten]), ih, filter_cons_of_neg (by simp [hd])]
    · rw [filter_cons_of_pos (by simp [hd]), filter_cons_of_pos (by simp [hd]), ih]

theorem data_readFrom_ne_none {lines : List Line} {fields : SseFields}
    (h : fields.data ≠ none ∨ lines.any isDataLine = true) :
    (fields.readFrom lines).data ≠ none := by
  induction lines generalizing fields with
  | nil => exact h.resolve_right (by simp)
  | cons line lines ih =>
    refine ih ?_
    dsimp only
    by_cases hd : isDataLine line = true
    · obtain ⟨v, hr⟩ := readLine_of_data hd fields
      rw [hr]
      exact .inl (Option.some_ne_none _)
    · rw [(readLine_of_not_data (Bool.eq_false_iff.mpr hd) fields none).1]
      simpa [hd] using h

theorem headLines_of_lines {lines : List Line} {blank : Bytes} (hl : ∀ line ∈ lines, line.WellFormed)
    (hb : IsBlank blank) (he : blank = [10] → ∀ line ∈ lines.getLast?, line.ending ≠ [13]) :
    headLines (lines.flatMap Line.bytes ++ blank) = (lines, blank) := by
  rcases headLines_flatMap hl hb with hr | ⟨pre, ct, rfl, hbl, -⟩
  · exact hr
  · exact absurd rfl (he hbl ⟨ct, [13]⟩ (by rw [getLast?_concat]; rfl))

theorem getLast?_ending_rewriteLines (json : Bytes) (lines : List Line) :
    (rewriteLines json false lines).getLast?.map Line.ending =
      (keptLines false lines).getLast?.map Line.ending := by
  rw [← getLast?_map, map_ending_rewriteLines, getLast?_map]

/-- Rewriting the data lines of a complete frame gives a complete frame unless a CR comes to stand in
front of a blank LF, and then a frame with the same event, the new data and the same other lines. -/
theorem rewritten_frame_is_complete (frame json : Bytes) (hframe : CompleteFrame frame)
    (hdata : (headLines frame).1.any isDataLine = true) (hjson : NoBreak json) :
    let lines := headLines frame
    let rewritten := headLines (rewriteSseDataLines frame json)
    (CompleteFrame (rewriteSseDataLines frame json) ↔ EndsApart frame) ∧
      (EndsApart frame → rewritten.2 = lines.2 ∧
        SseFields.ofLines rewritten.1 = ⟨(SseFields.ofLines lines.1).event, some json⟩ ∧
        rewritten.1.filter (!isDataLine ·) = lines.1.filter (!isDataLine ·)) := by
  have hw := wellFormed_rewriteLines hjson false (headLines_spec frame).2
  have hlast := getLast?_ending_rewriteLines json (headLines frame).1
  have hr : EndsApart frame → headLines (rewriteSseDataLines frame json) =
      (rewriteLines json false (headLines frame).1, (headLines frame).2) := by
    refine fun hends => headLines_of_lines hw hframe (fun hb line hm hcr => ?_)
    rw [show (rewriteLines json false (headLines frame).1).getLast? = some line from hm] at hlast
    obtain ⟨kept, hk, he⟩ := Option.map_eq_some_iff.mp hlast.symm
    exact hends hb kept hk (he.trans hcr)
  intro lines rewritten
  refine ⟨⟨fun hc hb kept hk hcr => ?_, fun hends => ?_⟩, fun hends => ?_⟩
  · -- the last line takes the blank LF, and nothing is left to end the frame
    rw [show (keptLines false (headLines frame).1).getLast? = some kept from hk] at hlast
    obtain ⟨⟨ct, _⟩, hm, he⟩ := Option.map_eq_some_iff.mp hlast
    obtain rfl := he.trans hcr
    obtain ⟨pre, hp⟩ := getLast?_eq_some_iff.mp hm
    rw [CompleteFrame, rewriteSseDataLines, hb, headLines_joined hw hp] at hc
    cases hc
  · rw [CompleteFrame, hr hends]
    exact hframe
  · rw [show rewritten = _ from hr hends]
    exact ⟨rfl, ofLines_rewriteLines json (data_readFrom_ne_none (.inr hdata)),
      filter_rewriteLines json false _⟩

/-- Two lines, the first with a CR, and a blank line that the second one keeps apart from it. -/
def mixedFrame (blank : Bytes) : Bytes :=
  [⟨utf8 "data: 1", [13]⟩, ⟨utf8 "data: 2", [10]⟩].flatMap Line.bytes ++ blank

theorem headLines_mixedFrame {blank : Bytes} (hb : IsBlank blank) :
    headLines (mixedFrame blank) = ([⟨utf8 "data: 1", [13]⟩, ⟨utf8 "data: 2", [10]⟩], blank) := by
  refine headLines_of_lines (forall_mem_cons.mpr ⟨?_, forall_mem_singleton.mpr ?_⟩) hb ?_
  · exact ⟨by decide, by unfold NoBreak; decide +kernel, by decide⟩
  · exact ⟨by decide, by unfold NoBreak; decide +kernel, by decide⟩
  · rintro - line ⟨⟩
    decide

/-- With a blank CRLF the two data lines become one. -/
theorem rewritten_frame_is_complete_crlf :
    rewriteSseDataLines (mixedFrame [13, 10]) (utf8 "0") = utf8 "data: 0\r\r\n" ∧
      CompleteFrame (rewriteSseDataLines (mixedFrame [13, 10]) (utf8 "0")) := by
  have hl := headLines_mixedFrame (show IsBlank [13, 10] from rfl)
  refine ⟨by rw [rewriteSseDataLines, hl]; decide +kernel, ?_⟩
  refine (rewritten_frame_is_complete _ _ ?_ ?_ ?_).1.mpr ?_
  · rw [CompleteFrame, hl]
    rfl
  · rw [hl]
    decide +kernel
  · unfold NoBreak
    decide +kernel
  · intro hb
    rw [hl] at hb
    cases hb

/-- Without the second data line the CR takes the blank LF, and the frame has no end. -/
theorem rewritten_frame_loses_its_end :
    CompleteFrame (mixedFrame [10]) ∧ (headLines (mixedFrame [10])).1.any isDataLine = true ∧
      NoBreak (utf8 "0") ∧ ¬ CompleteFrame (rewriteSseDataLines (mixedFrame [10]) (utf8 "0")) := by
  have hl := headLines_mixedFrame (show IsBlank [10] from rfl)
  have hr : rewriteSseDataLines (mixedFrame [10]) (utf8 "0") = utf8 "data: 0\r\n" := by
    rw [rewriteSseDataLines, hl]
    decide +kernel
  have hn : nextLine (utf8 "data: 0\r\n") = some (⟨utf8 "data: 0", [13, 10]⟩, []) := by decide +kernel
  refine ⟨?_, ?_, by unfold NoBreak; decide +kernel, ?_⟩
  · rw [CompleteFrame, hl]
    rfl
  · rw [hl]
    decide +kernel
  · rw [CompleteFrame, hr, headLines_of_some hn, if_neg (by decide), headLines_of_none rfl]
    exact fun h => by cases h

end Lines

section WebSocket

variable (codec : JsonCodec)

/-- The serialization of a value does not fail. -/
def applyWebsocketEventPlan {format : ApiFormat} (payload : Bytes) (plan : SseEventPatchPlan format) :
    Except TransformApplyError Bytes :=
  if plan.hasOperations = false then .ok payload
  else if FrameScan.maxFrameBytes < payload.length then .error .sseFrameTooLarge
  else
    match plan with
    | .openAiResponses entries =>
      match codec.parse payload with
      | none => .ok payload
      | some value =>
        if value.isObject = false then .ok payload
        else
          match (value.get (utf8 "type")).bind Json.asStr with
          | none => .ok payload
          | some eventType =>
            match responseSelector eventType with
            | none => .ok payload
            | some selector => do
              let result ← applyMatchingResponseEntries codec value entries selector
              if result.2 then return codec.serialize result.1 else return payload
    | _ => .ok payload

def dataFrame (ending blank payload : Bytes) : Bytes :=
  [⟨utf8 "data: " ++ payload, ending⟩].flatMap Line.bytes ++ blank

variable {codec} {payload ending blank : Bytes}

theorem headLines_dataFrame (hp : NoBreak payload)
    (he : ending = [10] ∨ ending = [13, 10] ∨ ending = [13]) (hb : IsBlank blank)
    (ha : ending = [13] → blank ≠ [10]) :
    headLines (dataFrame ending blank payload) = ([⟨utf8 "data: " ++ payload, ending⟩], blank) := by
  have hn : NoBreak (utf8 "data: ") := by unfold NoBreak; decide +kernel
  refine headLines_of_lines (forall_mem_singleton.mpr ⟨cons_ne_nil _ _, ?_, he⟩) hb ?_
  · exact forall_mem_append.mpr ⟨hn, hp⟩
  · rintro hbl line ⟨⟩ hcr
    exact ha hcr hbl

theorem dataFrame_inj {o : Bytes}
    (h : dataFrame ending blank payload = dataFrame ending blank o) : payload = o := by
  have h' := append_cancel_right h
  simp only [flatMap_singleton, Line.bytes] at h'
  exact append_cancel_left (append_cancel_right h')

theorem applyMatchingEntries_of_no_operations {es : List (SsePatchEntry ResponsesSseEvent)}
    (h : (SseEventPatchPlan.openAiResponses es).hasOperations = false)
    (selector : ResponsesSseEvent) (v : Json) :
    applyMatchingResponseEntries codec v es selector = .ok (v, false) := by
  refine applyMatchingEntries_of_not_named ?_ v
  refine any_eq_false.mpr (fun e hm hn => ?_)
  have he := any_eq_false.mp h e hm
  simp_all

/-- The frame of a message is transformed to the frame of the transformed message. -/
theorem transformSseFrame_dataFrame (es : List (SsePatchEntry ResponsesSseEvent))
    (hs : payload.length ≤ FrameScan.maxFrameBytes)
    (hl : headLines (dataFrame ending blank payload) =
      ([⟨utf8 "data: " ++ payload, ending⟩], blank)) :
    transformSseFrame codec (dataFrame ending blank payload) (.openAiResponses es) =
      (applyWebsocketEventPlan codec payload (.openAiResponses es)).map
        (dataFrame ending blank) := by
  have hf : SseFields.ofLines [(⟨utf8 "data: " ++ payload, ending⟩ : Line)] = ⟨none, some payload⟩ := rfl
  have hr : ∀ json, rewriteSseDataLines (dataFrame ending blank payload) json =
      dataFrame ending blank json := by
    intro json
    rw [rewriteSseDataLines, hl]
    rfl
  rw [applyWebsocketEventPlan, if_neg (Nat.not_lt.mpr hs), transformSseFrame, hl, hf]
  simp only [Option.bind_some]
  cases codec.parse payload with
  | none => split_ifs <;> rfl
  | some v =>
    simp only [patchEvent]
    cases (v.get (utf8 "type")).bind Json.asStr with
    | none => split_ifs <;> rfl
    | some eventType =>
      dsimp only
      cases responseSelector eventType with
      | none => split_ifs <;> rfl
      | some selector =>
        dsimp only [Option.any_none]
        rw [if_neg Bool.false_ne_true]
        split_ifs with ho hn hn
        · rfl
        · rfl
        · rw [applyMatchingEntries_of_no_operations hn]
          rfl
        · cases applyMatchingResponseEntries codec v es selector with
          | error err => rfl
          | ok res =>
            obtain ⟨v, changed⟩ := res
            cases changed with
            | false => rfl
            | true => exact congrArg Except.ok (hr _)

/-- A message and its frame of one data line are rewritten alike, for every way to end the lines. -/
theorem transports_rewrite_alike (codec : JsonCodec) (plan : SseEventPatchPlan .openAiResponses)
    (payload ending blank : Bytes) (hsize : payload.length ≤ FrameScan.maxFrameBytes)
    (hpayload : NoBreak payload) (hending : ending = [10] ∨ ending = [13, 10] ∨ ending = [13])
    (hblank : IsBlank blank) (hapart : ending = [13] → blank ≠ [10]) :
    (∀ payload', applyWebsocketEventPlan codec payload plan = .ok payload' ↔
      transformSseFrame codec (dataFrame ending blank payload) plan =
        .ok (dataFrame ending blank payload')) ∧
    ∀ error, applyWebsocketEventPlan codec payload plan = .error error ↔
      transformSseFrame codec (dataFrame ending blank payload) plan = .error error := by
  have hl := headLines_dataFrame hpayload hending hblank hapart
  obtain ⟨entries, rfl⟩ : ∃ entries, plan = .openAiResponses entries := by
    cases plan
    exact ⟨_, rfl⟩
  rw [transformSseFrame_dataFrame entries hsize hl]
  cases applyWebsocketEventPlan codec payload (.openAiResponses entries) with
  | error error => exact ⟨fun _ => by simp [Except.map], fun _ => by simp [Except.map]⟩
  | ok result =>
    refine ⟨fun payload' => ⟨?_, fun h => ?_⟩, fun _ => by simp [Except.map]⟩
    · rintro ⟨⟩
      rfl
    · exact congrArg Except.ok (dataFrame_inj (Except.ok.inj h))

def deltaEvent (text : String) : Json :=
  .object [(utf8 "delta", .string (utf8 text)), (utf8 "type", .string (utf8 "response.output_text.delta"))]

def deltaText (text : String) : Bytes :=
  utf8 ("\x7b\"delta\":\"" ++ text ++ "\",\"type\":\"response.output_text.delta\"\x7d")

/-- Replaces the text of every delta. -/
def maskingPlan : SseEventPatchPlan .openAiResponses :=
  .openAiResponses [⟨.responseOutputTextDelta,
    [.advanced (.replace (deltaPointer "/delta" ["delta"]) (.literal (.string (utf8 "*"))) none)]⟩]

theorem transports_rewrite_alike_masked :
    let codec := JsonCodec.ofValues [deltaEvent "x"]
    applyWebsocketEventPlan codec (deltaText "x") maskingPlan = .ok (deltaText "*") ∧
      transformSseFrame codec (dataFrame [13, 10] [10] (deltaText "x")) maskingPlan =
        .ok (dataFrame [13, 10] [10] (deltaText "*")) := by
  intro codec
  have hm : applyWebsocketEventPlan codec (deltaText "x") maskingPlan = .ok (deltaText "*") := by
    decide +kernel
  refine ⟨hm, ((transports_rewrite_alike codec maskingPlan (deltaText "x") [13, 10] [10] ?_ ?_
    (.inr (.inl rfl)) rfl (by decide)).1 (deltaText "*")).mp hm⟩
  · decide +kernel
  · unfold NoBreak
    decide +kernel

end WebSocket

end AiGateway.Transforms
