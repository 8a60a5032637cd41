import AiGateway.Streaming.Wire

/-! An encoded event is read back as it is, and as nothing else, by every reader of frames. -/
namespace AiGateway.Streaming
open List

open Lib Lib.Stage Domain Transforms Usage

section Lines

variable {enc : Bytes} {ev : ResponseEvent}

theorem contentLines_of_lines {lines : List Bytes} (h : ∀ line ∈ lines, line ≠ [] ∧ NoBreak line) :
    contentLines (lines.flatMap (· ++ [10]) ++ [10]) = lines := by
  induction lines with
  | nil => rfl
  | cons line lines ih =>
    obtain ⟨⟨hne, hli⟩, hl⟩ := forall_mem_cons.mp h
    rw [flatMap_cons, append_assoc, contentLines_append hli (.inl rfl), if_neg hne, ih hl]
    rfl

/-- A field is read as it was written; one blank behind the colon is not part of the value. -/
theorem sseField_append (name v : Bytes) (hne : name ≠ []) (hn : (58 : UInt8) ∉ name) :
    sseField (name ++ 58 :: 32 :: v) = some (name, v) := by
  obtain ⟨first, name, rfl⟩ := exists_cons_of_ne_nil hne
  have ht : (first :: name ++ 58 :: 32 :: v).takeWhile (· != 58) = first :: name := by
    rw [takeWhile_append_of_pos]
    · exact append_nil _
    · intro byte hm
      exact bne_iff_ne.mpr (fun heq => hn (heq ▸ hm))
  have hf : first ≠ 58 := fun heq => hn (heq ▸ mem_cons_self)
  rw [sseField, if_neg (by simpa using hf)]
  simp only [ht, drop_left]
  rfl

theorem readLine_event (lines : EventLines) (v : Bytes) :
    lines.readLine (utf8 "event: " ++ v) = ⟨⟨some v, lines.fields.data⟩, lines.id⟩ := by
  have hf : sseField (utf8 "event: " ++ v) = some (utf8 "event", v) :=
    sseField_append (utf8 "event") v (by decide) (by decide)
  have hn : utf8 "event" ≠ utf8 "id" := by decide
  simp [EventLines.readLine, SseFields.readLine, hf, hn]

theorem readLine_id (lines : EventLines) {v : Bytes} (hv : (0 : UInt8) ∉ v) :
    lines.readLine (utf8 "id: " ++ v) = ⟨lines.fields, some v⟩ := by
  have hf : sseField (utf8 "id: " ++ v) = some (utf8 "id", v) :=
    sseField_append (utf8 "id") v (by decide) (by decide)
  have hn : utf8 "id" ≠ utf8 "event" ∧ utf8 "id" ≠ utf8 "data" := by decide
  simp [EventLines.readLine, SseFields.readLine, hf, hn, hv]

theorem readLine_data (lines : EventLines) (v : Bytes) :
    lines.readLine (utf8 "data: " ++ v) =
      ⟨⟨lines.fields.event, some (SseFields.joinData v lines.fields.data)⟩, lines.id⟩ := by
  have hf : sseField (utf8 "data: " ++ v) = some (utf8 "data", v) :=
    sseField_append (utf8 "data") v (by decide) (by decide)
  have hn : utf8 "data" ≠ utf8 "event" ∧ utf8 "data" ≠ utf8 "id" := by decide
  simp [EventLines.readLine, SseFields.readLine, hf, hn]

/-- The lines behind the first are joined to it. -/
theorem foldl_readLine_data (pieces : List Bytes) (name id : Option Bytes) (data : Bytes) :
    (pieces.map (utf8 "data: " ++ ·)).foldl EventLines.readLine ⟨⟨name, some data⟩, id⟩ =
      ⟨⟨name, some (data ++ pieces.flatMap (10 :: ·))⟩, id⟩ := by
  induction pieces generalizing data with
  | nil => rw [flatMap_nil, append_nil]; rfl
  | cons piece pieces ih =>
    rw [map_cons, foldl_cons, readLine_data]
    refine (ih _).trans ?_
    rw [flatMap_cons, SseFields.joinData, append_assoc]

theorem foldl_readLine_lines (hid : ∀ id ∈ ev.id, (0 : UInt8) ∉ id) :
    ev.lines.foldl EventLines.readLine ⟨.empty, none⟩ = ⟨⟨ev.event, some ev.data⟩, ev.id⟩ := by
  obtain ⟨name, data, id⟩ := ev
  obtain ⟨piece, pieces, hs, hj⟩ := splitOn_join 10 data
  have hn : (name.toList.map (utf8 "event: " ++ ·)).foldl EventLines.readLine ⟨.empty, none⟩ =
      ⟨⟨name, none⟩, none⟩ := by
    cases name with
    | none => rfl
    | some name => exact readLine_event _ name
  have his : (id.toList.map (utf8 "id: " ++ ·)).foldl EventLines.readLine ⟨⟨name, none⟩, none⟩ =
      ⟨⟨name, none⟩, id⟩ := by
    cases id with
    | none => rfl
    | some id => exact readLine_id _ (hid id rfl)
  rw [ResponseEvent.lines, foldl_append, foldl_append, hn, his, hs, map_cons, foldl_cons,
    readLine_data, hj]
  exact foldl_readLine_data pieces name id piece

/-- The fields of an event are texts. -/
structure ResponseEvent.IsText (written : ResponseEvent) : Prop where
  event : ∀ name ∈ written.event, validUtf8 name = true
  data : validUtf8 written.data = true
  id : ∀ id ∈ written.id, validUtf8 id = true

theorem validUtf8_pieces (piece : Bytes) (pieces : List Bytes) :
    validUtf8 (piece ++ pieces.flatMap (10 :: ·)) = (validUtf8 piece && pieces.all validUtf8) := by
  induction pieces generalizing piece with
  | nil => rw [flatMap_nil, append_nil, all_nil, Bool.and_true]
  | cons next pieces ih =>
    rw [flatMap_cons, cons_append, validUtf8_append_ascii (by decide), ih, all_cons]

theorem ResponseEvent.IsText.lines (h : ev.IsText) :
    ∀ line ∈ ev.lines, validUtf8 line = true := by
  have hf : ∀ (field v : Bytes), validUtf8 field = true → validUtf8 v = true →
      validUtf8 (field ++ 32 :: v) = true := by
    intro field v hn hv
    rw [validUtf8_append_ascii (by decide), hn, hv, Bool.and_self]
  obtain ⟨piece, pieces, hs, hj⟩ := splitOn_join 10 ev.data
  have hd := h.data
  rw [hj, validUtf8_pieces, Bool.and_eq_true, all_eq_true] at hd
  refine forall_mem_append.mpr ⟨forall_mem_append.mpr ⟨?_, ?_⟩, ?_⟩
  · refine forall_mem_map.mpr (fun name hm => ?_)
    exact hf (utf8 "event:") name (by decide +kernel) (h.event name (Option.mem_toList.mp hm))
  · refine forall_mem_map.mpr (fun id hm => ?_)
    exact hf (utf8 "id:") id (by decide +kernel) (h.id id (Option.mem_toList.mp hm))
  · refine forall_mem_map.mpr (fun line hm => ?_)
    refine hf (utf8 "data:") line (by decide +kernel) ?_
    rw [hs] at hm
    rcases mem_cons.mp hm with rfl | hm
    · exact hd.1
    · exact hd.2 line hm

theorem validUtf8_of_lines {lines : List Bytes} (h : ∀ line ∈ lines, validUtf8 line = true) :
    validUtf8 (lines.flatMap (· ++ [10]) ++ [10]) = true := by
  induction lines with
  | nil => rfl
  | cons line lines ih =>
    obtain ⟨hli, hl⟩ := forall_mem_cons.mp h
    rw [flatMap_cons, append_assoc, append_assoc, singleton_append,
      validUtf8_append_ascii (by decide), hli, ih hl, Bool.and_self]

theorem decodeEvent_encodeEvent (ht : ev.IsText) (h : encodeEvent ev = .ok enc) :
    decodeEvent enc = .ok (some ev) := by
  obtain ⟨rfl, hli, hz, hl⟩ := encodeEvent_eq_ok h
  have hc := contentLines_of_lines hli
  rw [contentLines] at hc
  rw [decodeEvent, decide_eq_true hl, validUtf8_of_lines ht.lines, hc, foldl_readLine_lines hz]
  rfl

theorem usageFields_encodeEvent (h : encodeEvent ev = .ok enc) :
    usageFields enc = ⟨ev.event, some ev.data⟩ := by
  have he := (sseFrameEnd_encodeEvent h).1
  obtain ⟨rfl, hl, hz, -⟩ := encodeEvent_eq_ok h
  rw [usageFields, ← contentLines_of_wholeFrame (.inl he), contentLines_of_lines hl,
    ← fields_foldl_readLine ev.lines ⟨.empty, none⟩, foldl_readLine_lines hz]

/-- The transformer waits for no byte behind the line feed of the blank line. -/
theorem cutFrame_encodeEvent (h : encodeEvent ev = .ok enc) :
    cutFrame .fresh enc = .complete enc [] := by
  obtain ⟨hen, hl⟩ := sseFrameEnd_encodeEvent h
  obtain ⟨he, -, -, -⟩ := encodeEvent_eq_ok h
  have hc := cutAgrees_cutFrame [] false enc (by simpa using hl)
  rw [Bool.not_false, ← sseFrameEnd, hen] at hc
  rcases hc with hc | ⟨-, hc⟩
  · rwa [nil_append, take_length, drop_length] at hc
  · rcases getLast_of_pendingCr hc rfl with hn | hla
    · simp [he] at hn
    · simp [he] at hla

/-- What is encoded is one frame to every reader: the adapter reads the event back, the collector and
the transformer cut off all bytes at once, and both find the name and the data of the event. -/
theorem encoded_event_is_one_frame (codec : JsonCodec) (format : ApiFormat) (event : ResponseEvent)
    (encoded : Bytes) (htext : event.IsText) (h : encodeEvent event = .ok encoded) :
    decodeEvent encoded = .ok (some event) ∧
    sseFrameEnd encoded = some encoded.length ∧
    ((SseTransformer.new (SseEventPatchPlan.empty format)).push encoded).nextFrame codec =
      (.ok (some ⟨encoded, encoded⟩), ⟨SseEventPatchPlan.empty format, .fresh, some []⟩) ∧
    usageFields encoded = ⟨event.event, some event.data⟩ ∧
    frameFields encoded = ⟨event.event, some event.data⟩ := by
  have he := (sseFrameEnd_encodeEvent h).1
  have hf := usageFields_encodeEvent h
  refine ⟨decodeEvent_encodeEvent htext h, he, ?_, hf, ?_⟩
  · simp only [SseTransformer.nextFrame, SseTransformer.push, SseTransformer.new,
      cutFrame_encodeEvent h, transformSseFrame_empty]
    rfl
  · rw [frameFields, ← usageFields_of_completeFrame (completeFrame_of_sseFrameEnd he), hf]

/-- An empty name, an id with a leading blank and data with an empty line. -/
theorem encoded_event_is_one_frame_blank :
    let event : ResponseEvent := ⟨some [], utf8 "a\n\n b", some (utf8 " 7")⟩
    let encoded := utf8 "event: \nid:  7\ndata: a\ndata: \ndata:  b\n\n"
    encodeEvent event = .ok encoded ∧ decodeEvent encoded = .ok (some event) := by
  have h : encodeEvent ⟨some [], utf8 "a\n\n b", some (utf8 " 7")⟩ =
      .ok (utf8 "event: \nid:  7\ndata: a\ndata: \ndata:  b\n\n") := by decide +kernel
  refine ⟨h, (encoded_event_is_one_frame (.ofValues []) .openAiResponses _ _ ?_ h).1⟩
  exact ⟨by rintro _ ⟨⟩; decide +kernel, by decide +kernel, by rintro _ ⟨⟩; decide +kernel⟩

end Lines

end AiGateway.Streaming
