import AiGateway.Transforms.Protected

/-! A composed plan does what its two layers do one after the other. -/
namespace AiGateway.Transforms
open Bool

open Lib Lib.Stage Domain

section Rewriting

theorem isDataLine_rewritten (json ending : Bytes) :
    isDataLine ⟨utf8 "data: " ++ json, ending⟩ = true := by
  rfl

/-- A rewritten list has one data line, so a second rewrite replaces its value. -/
theorem rewriteLines_rewriteLines (json json' : Bytes) (repl : Bool) (lines : List Line) :
    rewriteLines json' repl (rewriteLines json repl lines) = rewriteLines json' repl lines := by
  induction lines generalizing repl with
  | nil => rfl
  | cons line lines ih =>
    by_cases hd : isDataLine line = true
    · cases repl with
      | true => simp only [rewriteLines, hd, if_true, ih]
      | false =>
        simp only [rewriteLines, hd, if_true, false_eq_true, if_false, isDataLine_rewritten, ih]
    · simp only [rewriteLines, hd, false_eq_true, if_false, ih]

theorem length_rewriteLines_le (json : Bytes) (repl : Bool) (lines : List Line) :
    (rewriteLines json repl lines).length ≤ lines.length := by
  induction lines generalizing repl with
  | nil => exact le_rfl
  | cons line lines ih =>
    rw [rewriteLines]
    split_ifs
    · exact (ih true).trans (Nat.le_succ _)
    · exact Nat.succ_le_succ (ih true)
    · exact Nat.succ_le_succ (ih repl)

theorem length_rewriteLines (json json' : Bytes) (repl : Bool) (lines : List Line) :
    (rewriteLines json repl lines).length = (rewriteLines json' repl lines).length := by
  induction lines generalizing repl with
  | nil => rfl
  | cons line lines ih =>
    rw [rewriteLines, rewriteLines]
    split_ifs
    · exact ih true
    · exact congrArg Nat.succ (ih true)
    · exact congrArg Nat.succ (ih repl)

theorem rewriteLines_append (json : Bytes) (repl : Bool) (pre after : List Line) :
    rewriteLines json repl (pre ++ after) = rewriteLines json repl pre ++
        rewriteLines json (repl || pre.any isDataLine) after := by
  induction pre generalizing repl with
  | nil => simp [rewriteLines]
  | cons line pre ih =>
    by_cases hd : isDataLine line = true
    · cases repl <;> simp [rewriteLines, hd, ih]
    · simp [rewriteLines, hd, ih]

variable {json : Bytes}

/-- Where a rewrite keeps the last line, its ending stays behind. -/
theorem flatMap_rewriteLines_last {repl : Bool} {pre : List Line}
    {ct ending : Bytes} (extra : Bytes)
    (hk : (rewriteLines json repl (pre ++ [⟨ct, ending⟩])).length =
      (pre ++ [(⟨ct, ending⟩ : Line)]).length) :
    (rewriteLines json repl (pre ++ [⟨ct, ending ++ extra⟩])).flatMap Line.bytes =
      (rewriteLines json repl (pre ++ [⟨ct, ending⟩])).flatMap Line.bytes ++ extra := by
  have hs : isDataLine ⟨ct, ending ++ extra⟩ = isDataLine ⟨ct, ending⟩ := rfl
  have hle := length_rewriteLines_le json repl pre
  rw [rewriteLines_append, rewriteLines_append]
  rw [rewriteLines_append, List.length_append, List.length_append] at hk
  by_cases hd : isDataLine ⟨ct, ending⟩ = true
  · cases hr : (repl || pre.any isDataLine) with
    | true =>
      simp only [hr, rewriteLines, hd, if_true, List.length_nil, List.length_singleton]
        at hk
      omega
    | false =>
      simp [rewriteLines, hs, hd, Line.bytes]
  · simp [rewriteLines, hs, hd, Line.bytes]

theorem wellFormed_rewriteLines (hj : NoBreak json) (repl : Bool)
    {lines : List Line} (hl : ∀ line ∈ lines, line.WellFormed) :
    ∀ line ∈ rewriteLines json repl lines, line.WellFormed := by
  induction lines generalizing repl with
  | nil => exact List.forall_mem_nil _
  | cons line lines ih =>
    obtain ⟨hli, hl⟩ := List.forall_mem_cons.mp hl
    rw [rewriteLines]
    split_ifs
    · exact ih true hl
    · refine List.forall_mem_cons.mpr ⟨⟨?_, ?_, hli.ending⟩, ih true hl⟩
      · exact List.cons_ne_nil _ _
      · intro byte hm
        rcases List.mem_append.mp hm with hm | hm
        · have hla : ∀ byte ∈ utf8 "data: ", byte ≠ 10 ∧ byte ≠ 13 := by decide +kernel
          exact hla byte hm
        · exact hj byte hm
    · exact List.forall_mem_cons.mpr ⟨hli, ih repl hl⟩

end Rewriting

section Fields

open SseFields

variable {line : Line}

theorem readLine_of_not_data (hl : isDataLine line = false) (fields : SseFields)
    (data : Option Bytes) :
    (fields.readLine line.content).data = fields.data ∧
      (SseFields.mk fields.event data).readLine line.content =
        ⟨(fields.readLine line.content).event, data⟩ := by
  unfold readLine
  cases hf : sseField line.content with
  | none => exact ⟨rfl, rfl⟩
  | some field =>
    have hne : field.1 ≠ utf8 "data" := by simpa [isDataLine, hf] using hl
    by_cases he : field.1 = utf8 "event"
    · simp [he]
    · simp [he, hne]

theorem readLine_of_data (hl : isDataLine line = true) (fields : SseFields) :
    ∃ v, fields.readLine line.content = ⟨fields.event, some (joinData v fields.data)⟩ := by
  cases hf : sseField line.content with
  | none => simp [isDataLine, hf] at hl
  | some field =>
    have hd : field.1 = utf8 "data" := by simpa [isDataLine, hf] using hl
    refine ⟨field.2, ?_⟩
    simp only [readLine, hf, hd]
    rfl

theorem readFrom_rewriteLines_true (json : Bytes) (lines : List Line) (fields : SseFields)
    (data : Option Bytes) :
    readFrom ⟨fields.event, data⟩ (rewriteLines json true lines) =
      ⟨(readFrom fields lines).event, data⟩ := by
  induction lines generalizing fields with
  | nil => rfl
  | cons line lines ih =>
    by_cases hd : isDataLine line = true
    · obtain ⟨v, hr⟩ := readLine_of_data hd fields
      simp only [rewriteLines, hd, if_true, readFrom, List.foldl_cons, hr]
      exact ih ⟨fields.event, some (joinData v fields.data)⟩
    · have hr := (readLine_of_not_data (eq_false_iff.mpr hd) fields data).2
      simp only [rewriteLines, hd, false_eq_true, if_false, readFrom, List.foldl_cons, hr]
      exact ih _

theorem readFrom_rewriteLines_false (json : Bytes) (lines : List Line) (ev : Option Bytes)
    (hd : (readFrom ⟨ev, none⟩ lines).data ≠ none) :
    readFrom ⟨ev, none⟩ (rewriteLines json false lines) =
      ⟨(readFrom ⟨ev, none⟩ lines).event, some json⟩ := by
  induction lines generalizing ev with
  | nil => exact absurd rfl hd
  | cons line lines ih =>
    by_cases hl : isDataLine line = true
    · obtain ⟨v, hr⟩ := readLine_of_data hl ⟨ev, none⟩
      have hw : (SseFields.mk ev none).readLine (utf8 "data: " ++ json) = ⟨ev, some json⟩ := rfl
      simp only [rewriteLines, hl, if_true, false_eq_true, if_false, readFrom, List.foldl_cons, hw, hr]
      exact readFrom_rewriteLines_true json lines ⟨ev, some (joinData v none)⟩ (some json)
    · have hr := (readLine_of_not_data (eq_false_iff.mpr hl) ⟨ev, none⟩ none).2
      simp only [rewriteLines, hl, false_eq_true, if_false, readFrom, List.foldl_cons]
        at hd ⊢
      rw [hr] at hd ⊢
      exact ih _ hd

theorem ofLines_rewriteLines (json : Bytes) {lines : List Line} (hd : (ofLines lines).data ≠ none) :
    ofLines (rewriteLines json false lines) = ⟨(ofLines lines).event, some json⟩ :=
  readFrom_rewriteLines_false json lines none hd

theorem ofLines_append_last (pre : List Line) (ct ending ending' : Bytes) :
    ofLines (pre ++ [⟨ct, ending⟩]) = ofLines (pre ++ [⟨ct, ending'⟩]) := by
  simp only [ofLines, readFrom, List.foldl_append, List.foldl_cons, List.foldl_nil]

end Fields

section Frames

/-- The lines of a complete frame are followed by one blank line and nothing else. -/
def CompleteFrame (frame : Bytes) : Prop := IsBlank (headLines frame).2

/-- A rewritten frame has the same event and the new data, and a second rewrite of it is a rewrite of
the first frame. -/
theorem reread_rewriteSseDataLines {fr json : Bytes} (hfr : CompleteFrame fr)
    (hjs : NoBreak json) (hd : (SseFields.ofLines (headLines fr).1).data ≠ none) :
    SseFields.ofLines (headLines (rewriteSseDataLines fr json)).1 =
        ⟨(SseFields.ofLines (headLines fr).1).event, some json⟩ ∧
      ∀ json', rewriteSseDataLines (rewriteSseDataLines fr json) json' =
        rewriteSseDataLines fr json' := by
  have hli := wellFormed_rewriteLines hjs false (headLines_spec fr).2
  have hf := ofLines_rewriteLines json hd
  have hr := headLines_flatMap hli hfr
  have ht := fun json' => rewriteLines_rewriteLines json json' false (headLines fr).1
  rcases hr with hs | ⟨pre, ct, hl, hbl, hj⟩
  · refine ⟨by rw [rewriteSseDataLines, hs, hf], fun json' => ?_⟩
    rw [rewriteSseDataLines, rewriteSseDataLines, hs, ht]
    rfl
  · -- the last line took the blank LF; the second rewrite keeps that line, so the bytes agree
    refine ⟨?_, fun json' => ?_⟩
    · rw [rewriteSseDataLines, hj, ofLines_append_last pre ct [13, 10] [13], ← hl, hf]
    · have hk : (rewriteLines json' false (pre ++ [⟨ct, [13]⟩])).length =
          (pre ++ [(⟨ct, [13]⟩ : Line)]).length := by
        rw [← hl, ht, length_rewriteLines json' json]
      have hb := flatMap_rewriteLines_last [10] hk
      rw [rewriteSseDataLines, rewriteSseDataLines, hj, List.append_nil]
      rw [List.singleton_append] at hb
      rw [hb, ← hl, ht, rewriteSseDataLines, hbl]

end Frames

section Events

variable {codec : JsonCodec} {Event : Type} {res : Json} {plan first second : SseEventPatchPlan fmt}
  {ev : Option Bytes}

theorem applyMatchingEntries_append [DecidableEq Event] (selector : Event) (v : Json)
    (first second : List (SsePatchEntry Event)) :
    applyMatchingEntries codec selector v (first ++ second) =
      (applyMatchingEntries codec selector v first).bind (fun patched =>
        (applyMatchingEntries codec selector patched.1 second).map
          (fun res => (res.1, patched.2 || res.2))) := by
  induction first generalizing v with
  | nil =>
    simp only [List.nil_append, applyMatchingEntries, Except.bind, Bool.false_or]
    cases applyMatchingEntries codec selector v second <;> rfl
  | cons e first ih =>
    rw [List.cons_append, applyMatchingEntries, applyMatchingEntries]
    split_ifs
    · cases applyJsonPatchValue codec v e.json with
      | error err => rfl
      | ok next =>
        simp only [bind, Except.bind, pure, Except.pure, ih]
        cases applyMatchingEntries codec selector next first with
        | error err => rfl
        | ok patched =>
          simp only
          cases applyMatchingEntries codec selector patched.1 second with
          | error err => rfl
          | ok res => rfl
    · exact ih v

variable {v : Json} {fmt : ApiFormat}

theorem applyMatchingEntries_unchanged [DecidableEq Event] {selector : Event} {es : List (SsePatchEntry Event)}
    (h : applyMatchingEntries codec selector v es = .ok (res, false)) : res = v := by
  induction es with
  | nil =>
    cases h
    rfl
  | cons e es ih =>
    rw [applyMatchingEntries] at h
    split_ifs at h
    · simp only [bind_eq_ok] at h
      obtain ⟨_, -, _, -, hr⟩ := h
      cases hr
    · exact ih h

theorem isObject_of_allowedPath {scope : PatchScope} {path : List Bytes} {old new : Json}
    (hp : allowedPath scope path) (h : Json.ChangedAt path old new) :
    new.isObject = old.isObject := by
  cases path with
  | nil => exact absurd rfl hp.1
  | cons tok toks => exact h.isObject_eq

theorem SseEventPatchPlan.Checked.isObject_patchEvent (hp : plan.Checked)
    {res : Json × Bool} (h : patchEvent codec ev v plan = .ok res) :
    res.1.isObject = v.isObject := by
  cases plan with
  | openAiChatCompletions es =>
    rw [patchEvent] at h
    split_ifs at h
    · cases h
      rfl
    · exact EntriesChecked.preserves (fun _ _ _ => isObject_of_allowedPath) hp h
  | openAiResponses es =>
    simp only [patchEvent] at h
    split at h
    · cases h
      rfl
    · split at h
      · cases h
        rfl
      · split_ifs at h
        · cases h
          rfl
        · exact EntriesChecked.preserves (fun _ _ _ => isObject_of_allowedPath) hp h
  | openAiImages =>
    cases h
    rfl

theorem patchEvent_unchanged
    (h : patchEvent codec ev v plan = .ok (res, false)) : res = v := by
  cases plan with
  | openAiChatCompletions es =>
    rw [patchEvent] at h
    split_ifs at h
    · cases h
      rfl
    · exact applyMatchingEntries_unchanged h
  | openAiResponses es =>
    simp only [patchEvent] at h
    split at h
    · cases h
      rfl
    · split at h
      · cases h
        rfl
      · split_ifs at h
        · cases h
          rfl
        · exact applyMatchingEntries_unchanged h
  | openAiImages =>
    cases h
    rfl

/-- The second plan meets the same event as the first: no patch touches what selects it. -/
theorem patchEvent_append
    (hf : first.Checked) (ev : Option Bytes) (v : Json) :
    patchEvent codec ev v (first.append second) = (patchEvent codec ev v first).bind (fun patched =>
        (patchEvent codec ev patched.1 second).map
          (fun res => (res.1, patched.2 || res.2))) := by
  cases first with
  | openAiChatCompletions es =>
    cases second with
    | openAiChatCompletions others =>
      simp only [SseEventPatchPlan.append, patchEvent, applyMatchingChatEntries]
      split_ifs with hg
      · simp only [Except.bind, Except.map, if_pos hg, Bool.or_false]
      · rw [applyMatchingEntries_append]
        cases hp : applyMatchingEntries codec .chatCompletionChunk v es with
        | error err => rfl
        | ok patched =>
          have hob : patched.1.get (utf8 "object") = v.get (utf8 "object") :=
            congrArg ChatProtected.object
              (EntriesChecked.preserves (fun _ _ _ => chatProtected_eq) hf hp)
          simp only [Except.bind, hob, if_neg hg]
  | openAiResponses es =>
    cases second with
    | openAiResponses others =>
      simp only [SseEventPatchPlan.append, patchEvent, applyMatchingResponseEntries]
      cases ht : (v.get (utf8 "type")).bind Json.asStr with
      | none => simp only [Except.bind, Except.map, ht, Bool.or_false]
      | some eventType =>
        simp only
        cases hs : responseSelector eventType with
        | none => simp only [Except.bind, Except.map, ht, hs, Bool.or_false]
        | some selector =>
          simp only
          split_ifs with hg
          · simp only [Except.bind, Except.map, ht, hs, if_pos hg, Bool.or_false]
          · rw [applyMatchingEntries_append]
            cases hp : applyMatchingEntries codec selector v es with
            | error err => rfl
            | ok patched =>
              have hk : patched.1.get (utf8 "type") = v.get (utf8 "type") :=
                congrArg ResponsesProtected.type
                  (EntriesChecked.preserves (fun _ _ _ => responsesProtected_eq) hf hp)
              simp only [Except.bind, hk, ht, hs, if_neg hg]
  | openAiImages =>
    cases second
    rfl

/-- Reading back what was written gives the value. -/
def ReadsBack (codec : JsonCodec) (value : Json) : Prop :=
  codec.parse (codec.serialize value) = some value

theorem applyJsonPatchPlan_append {first second : JsonPatchPlan} {body : Bytes}
    (hc : ∀ doc v, codec.parse body = some doc →
      applyJsonPatchValue codec doc first = .ok v → ReadsBack codec v) :
    applyJsonPatchPlan codec body (first ++ second) =
      (applyJsonPatchPlan codec body first).bind (applyJsonPatchPlan codec · second) := by
  cases first with
  | nil => rfl
  | cons op first =>
    cases second with
    | nil =>
      rw [List.append_nil]
      cases applyJsonPatchPlan codec body (op :: first) <;> rfl
    | cons op' second =>
      simp only [applyJsonPatchPlan, List.cons_append, List.isEmpty_cons, false_eq_true, if_false]
      cases hp : codec.parse body with
      | none => rfl
      | some doc =>
        have ha : applyJsonPatchValue codec doc
              ((op :: first) ++ op' :: second) = _ :=
          applyJsonPatchValue_append doc (op :: first) (op' :: second)
        rw [List.cons_append] at ha
        simp only [ha]
        cases hf : applyJsonPatchValue codec doc (op :: first) with
        | error err => rfl
        | ok v =>
          have hb : codec.parse (codec.serialize v) = some v := hc doc v hp hf
          simp only [Except.bind, Except.map, hb]

/-- The value a plan gives the event of a frame. -/
def patchedFrameValue (codec : JsonCodec) {format : ApiFormat} (frame : Bytes)
    (plan : SseEventPatchPlan format) : Option Json :=
  let fields := SseFields.ofLines (headLines frame).1
  (fields.data.bind codec.parse).bind (fun value =>
    (patchEvent codec fields.event value plan).toOption.map Prod.fst)

def framed (codec : JsonCodec) (frame : Bytes) (patched : Json × Bool) : Bytes :=
  if patched.2 then rewriteSseDataLines frame (codec.serialize patched.1) else frame

variable {fr : Bytes}

theorem transformSseFrame_of_object (plan : SseEventPatchPlan fmt)
    (hv : (SseFields.ofLines (headLines fr).1).data.bind codec.parse = some v)
    (hob : v.isObject = true) :
    transformSseFrame codec fr plan =
      (patchEvent codec (SseFields.ofLines (headLines fr).1).event v plan).map
        (framed codec fr) := by
  simp only [transformSseFrame, hv, hob, true_eq_false, if_false]
  cases patchEvent codec (SseFields.ofLines (headLines fr).1).event v plan with
  | error err => rfl
  | ok patched =>
    obtain ⟨next, changed⟩ := patched
    cases changed <;> rfl

/-- Without an object as data a frame passes unchanged, whatever the plan. -/
theorem transformSseFrame_of_not_object (plan : SseEventPatchPlan fmt)
    (hv : ∀ v, (SseFields.ofLines (headLines fr).1).data.bind codec.parse = some v →
      v.isObject = false) : transformSseFrame codec fr plan = .ok fr := by
  unfold transformSseFrame
  cases hp : (SseFields.ofLines (headLines fr).1).data.bind codec.parse with
  | none => simp only [hp]
  | some v => simp only [hp, hv v hp, if_true]

theorem transformSseFrame_append
    (hfi : first.Checked) (hfr : CompleteFrame fr)
    (hc : ∀ v, patchedFrameValue codec fr first = some v → ReadsBack codec v) :
    transformSseFrame codec fr (first.append second) =
      (transformSseFrame codec fr first).bind (transformSseFrame codec · second) := by
  by_cases hp : ∀ v, (SseFields.ofLines (headLines fr).1).data.bind codec.parse =
      some v → v.isObject = false
  · rw [transformSseFrame_of_not_object _ hp, transformSseFrame_of_not_object _ hp]
    exact (transformSseFrame_of_not_object second hp).symm
  · simp only [not_forall, not_eq_false] at hp
    obtain ⟨v, hv, hob⟩ := hp
    rw [transformSseFrame_of_object _ hv hob, transformSseFrame_of_object _ hv hob,
      patchEvent_append hfi]
    cases hpa : patchEvent codec (SseFields.ofLines (headLines fr).1).event v first with
    | error err => rfl
    | ok patched =>
      obtain ⟨next, changed⟩ := patched
      cases changed with
      | false =>
        -- the first layer named another event: the second one sees the same frame
        have hsa := patchEvent_unchanged hpa
        subst hsa
        change _ = transformSseFrame codec fr second
        rw [transformSseFrame_of_object _ hv hob]
        simp only [Except.bind, Bool.false_or]
        cases patchEvent codec (SseFields.ofLines (headLines fr).1).event next second <;> rfl
      | true =>
        have hd : (SseFields.ofLines (headLines fr).1).data ≠ none := by
          intro hno
          rw [hno] at hv
          cases hv
        obtain ⟨hf, ht⟩ := reread_rewriteSseDataLines hfr (codec.oneLine next) hd
        have hb : codec.parse (codec.serialize next) = some next := by
          refine hc next ?_
          simp only [patchedFrameValue, hv, Option.bind_some, hpa]
          rfl
        have hr : (SseFields.ofLines (headLines
            (rewriteSseDataLines fr (codec.serialize next))).1).data.bind codec.parse = some next := by
          rw [hf]
          exact hb
        have hn : next.isObject = true := (hfi.isObject_patchEvent hpa).trans hob
        change _ = transformSseFrame codec (rewriteSseDataLines fr (codec.serialize next)) second
        rw [transformSseFrame_of_object _ hr hn, hf]
        simp only [Except.bind, Bool.true_or]
        cases hs : patchEvent codec (SseFields.ofLines (headLines fr).1).event next second with
        | error err => rfl
        | ok res =>
          obtain ⟨last, changed⟩ := res
          cases changed with
          | false =>
            rw [patchEvent_unchanged hs]
            rfl
          | true => exact congrArg Except.ok (ht (codec.serialize last)).symm

/-- A composed plan gives a body, a header map and a complete frame what the defaults and then the
override give it. -/
theorem compose_runs_layers_in_order (codec : JsonCodec) {defaults override plan : TransformPlan}
    (hdefaults : defaults.Built) (h : defaults.compose override = .ok plan) :
    (∀ body, (∀ document value, codec.parse body = some document →
        applyJsonPatchValue codec document defaults.requestJson = .ok value →
        ReadsBack codec value) →
      applyJsonPatchPlan codec body plan.requestJson =
        (applyJsonPatchPlan codec body defaults.requestJson).bind
          (applyJsonPatchPlan codec · override.requestJson)) ∧
    (∀ headers, applyHeaderPlan headers plan.requestHeaders =
      (applyHeaderPlan headers defaults.requestHeaders).bind
        (applyHeaderPlan · override.requestHeaders)) ∧
    (∀ headers, applyResponseHeaderPlan headers plan.responseHeaders =
      (applyResponseHeaderPlan headers defaults.responseHeaders).bind
        (applyResponseHeaderPlan · override.responseHeaders)) ∧
    ∀ frame, CompleteFrame frame →
      (∀ value, patchedFrameValue codec frame defaults.sseEventPatches = some value →
        ReadsBack codec value) →
      transformSseFrame codec frame plan.sseEventPatches =
        (transformSseFrame codec frame defaults.sseEventPatches).bind
          (transformSseFrame codec · override.sseEventPatches) := by
  have hch := hdefaults.checked.events
  obtain ⟨format, _, _, _, events⟩ := defaults
  obtain ⟨format', _, _, _, events'⟩ := override
  obtain ⟨hf, rfl⟩ := TransformPlan.compose_eq_ok h
  cases hf
  exact ⟨fun _ hc => applyJsonPatchPlan_append hc,
    fun headers => applyHeaderPlanInScope_append headers _ _ .request,
    fun headers => applyHeaderPlanInScope_append headers _ _ .response,
    fun _ hfr hc => transformSseFrame_append hch hfr hc⟩

def chunkWith (content : String) : Json := .object [
    (utf8 "choices", .array [.object [(utf8 "delta",
      .object [(utf8 "content", .string (utf8 content))])]]),
    (utf8 "object", .string (utf8 "chat.completion.chunk"))]

def patchedBody : Json :=
  .object [(utf8 "model", .string (utf8 "m")), (utf8 "temperature", .number (.int 1))]

def chunkCodec : JsonCodec := .ofValues [deltaBody, patchedBody, chunkWith "y", chunkWith "x"]

def bodyText : Bytes := utf8 "\x7b\"model\":\"m\"\x7d"

def chunkFrame : Bytes := utf8 "data: \x7b\"choices\":[\x7b\"delta\":\x7b\"content\":\"y\"\x7d\x7d],\"object\":\"chat.completion.chunk\"\x7d\n\n"

theorem compose_runs_layers_in_order_delta :
    ∃ plan, deltaPlan.compose deltaPlan = .ok plan ∧
      applyJsonPatchPlan chunkCodec bodyText plan.requestJson =
        .ok (utf8 "\x7b\"model\":\"m\",\"temperature\":1\x7d") ∧
      applyJsonPatchPlan chunkCodec bodyText plan.requestJson =
        (applyJsonPatchPlan chunkCodec bodyText deltaPlan.requestJson).bind
          (applyJsonPatchPlan chunkCodec · deltaPlan.requestJson) ∧
      CompleteFrame chunkFrame ∧
      transformSseFrame chunkCodec chunkFrame plan.sseEventPatches =
        (transformSseFrame chunkCodec chunkFrame deltaPlan.sseEventPatches).bind
          (transformSseFrame chunkCodec · deltaPlan.sseEventPatches) := by
  have hc : compileDocument deltaDocument .openAiChatCompletions = .ok deltaPlan := rfl
  have hl := fun plan (h : deltaPlan.compose deltaPlan = .ok plan) =>
    compose_runs_layers_in_order chunkCodec (.compiled hc) h
  have hf : CompleteFrame chunkFrame := by
    unfold CompleteFrame IsBlank
    decide +kernel
  refine ⟨_, rfl, by decide +kernel, (hl _ rfl).1 _ ?_, hf, (hl _ rfl).2.2.2 _ hf ?_⟩
  · intro document value hd hv
    have hb : chunkCodec.parse bodyText = some deltaBody := by decide +kernel
    have hr : applyJsonPatchValue chunkCodec deltaBody deltaPlan.requestJson = .ok patchedBody := by
      decide +kernel
    cases hb.symm.trans hd
    cases hr.symm.trans hv
    unfold ReadsBack
    decide +kernel
  · intro value hv
    have hp : patchedFrameValue chunkCodec chunkFrame deltaPlan.sseEventPatches =
        some (chunkWith "x") := by
      decide +kernel
    cases hp.symm.trans hv
    unfold ReadsBack
    decide +kernel

end Events

end AiGateway.Transforms
