import AiGateway.Lib.JsonText
import AiGateway.Transforms.Frame

/-! The fields that no accepted transform changes. -/
namespace AiGateway.Transforms
open List

open Lib Lib.Stage Domain

section Views

structure RequestProtected where
  model : Option Json
  stream : Option Json

def requestProtected (body : Json) : RequestProtected :=
  ⟨body.get (utf8 "model"), body.get (utf8 "stream")⟩

structure OutputItemProtected where
  id : Option Json
  type : Option Json
  callId : Option Json

def outputItemProtected (item : Json) : OutputItemProtected :=
  ⟨item.get (utf8 "id"), item.get (utf8 "type"), item.get (utf8 "call_id")⟩

/-- The items of an output array; the length of the list is the length of the array. -/
def outputProtected (output : Json) : Option (List OutputItemProtected) :=
  output.asArray.map (List.map outputItemProtected)

structure ResponsesProtected where
  type : Option Json
  sequenceNumber : Option Json
  itemId : Option Json
  outputIndex : Option Json
  contentIndex : Option Json
  responseId : Option Json
  responseStatus : Option Json
  responseOutput : Option (List OutputItemProtected)

def responsesProtected (event : Json) : ResponsesProtected where
  type := event.get (utf8 "type")
  sequenceNumber := event.get (utf8 "sequence_number")
  itemId := event.get (utf8 "item_id")
  outputIndex := event.get (utf8 "output_index")
  contentIndex := event.get (utf8 "content_index")
  responseId := (event.get (utf8 "response")).bind (Json.get · (utf8 "id"))
  responseStatus := (event.get (utf8 "response")).bind (Json.get · (utf8 "status"))
  responseOutput := (event.get (utf8 "response")).bind
    (fun response => (response.get (utf8 "output")).bind outputProtected)

/-- The index of every choice; the length of the list is the number of choices. -/
def choicesProtected (choices : Json) : Option (List (Option Json)) :=
  choices.asArray.map (List.map (Json.get · (utf8 "index")))

structure ChatProtected where
  id : Option Json
  object : Option Json
  created : Option Json
  model : Option Json
  choices : Option (List (Option Json))

def chatProtected (chunk : Json) : ChatProtected where
  id := chunk.get (utf8 "id")
  object := chunk.get (utf8 "object")
  created := chunk.get (utf8 "created")
  model := chunk.get (utf8 "model")
  choices := (chunk.get (utf8 "choices")).bind choicesProtected

end Views

section Paths

open Json (ChangedAt)

variable {toks : List Bytes} {keys : List String} {path : List Bytes} {old new : Json}
  {key : String} {tok : Bytes}

theorem not_mem_of_names (h : names toks keys = false) (hk : key ∈ keys) : utf8 key ∉ toks := by
  intro hm
  have hn : names toks keys = true :=
    any_eq_true.mpr ⟨utf8 key, hm, contains_iff_mem.mpr (mem_map_of_mem hk)⟩
  rw [hn] at h
  cases h

theorem ne_head_of_names (h : names (tok :: toks) keys = false) (hk : key ∈ keys) :
    utf8 key ≠ tok :=
  fun heq => not_mem_of_names h hk (heq ▸ mem_cons_self)

theorem names_tail (h : names (tok :: toks) keys = false) : names toks keys = false := by
  simp only [names, any_cons, Bool.or_eq_false_iff] at h
  exact h.2

/-- What the check of a scope says about the tokens. -/
def allowedPath (scope : PatchScope) (tokens : List Bytes) : Prop := tokens ≠ [] ∧
    match scope with
    | .request => names tokens ["model", "stream"] = false
    | .sse format => isImmutableSsePath tokens format = false

theorem allowedPath_of_validatePointer {pointer : JsonPointer} {scope : PatchScope}
    (h : validatePointer pointer scope = .ok ()) : allowedPath scope pointer.tokens := by
  simp only [validatePointer, bind_eq_ok, ensure_eq_ok] at h
  obtain ⟨_, hr, hs⟩ := h
  refine ⟨by simpa using hr, ?_⟩
  cases scope with
  | request => simpa using ensure_eq_ok.mp hs
  | sse fmt => simpa using ensure_eq_ok.mp hs

theorem requestProtected_eq (hp : allowedPath .request path)
    (h : ChangedAt path old new) : requestProtected new = requestProtected old := by
  obtain ⟨hr, hn⟩ := hp
  cases path with
  | nil => exact absurd rfl hr
  | cons tok toks =>
    have hg : ∀ key ∈ ["model", "stream"], new.get (utf8 key) = old.get (utf8 key) :=
      fun key hk => h.get_of_ne (ne_head_of_names hn hk)
    simp only [requestProtected, hg "model" (by decide), hg "stream" (by decide)]

/-- A path through an array that the check lets pass goes below one of the items. -/
theorem below_item_of_check (pre : List Bytes) {array : Bytes} (hb : array ∉ pre)
    (h : isArrayItemOrItsIndex (pre ++ array :: toks) array = false) :
    ∃ i field rest, toks = i :: field :: rest := by
  have hp : (pre ++ array :: toks).findIdx? (· == array) = some pre.length := by
    rw [List.findIdx?_append, List.findIdx?_eq_none_iff.mpr]
    · simp [List.findIdx?_cons]
    · intro tok hm
      simpa using fun heq : tok = array => hb (heq ▸ hm)
  simp only [isArrayItemOrItsIndex, hp, length_append, length_cons,
    decide_eq_false_iff_not, not_le] at h
  match toks, h with
  | i :: field :: rest, _ => exact ⟨i, field, rest, rfl⟩
  | [_], h => simp at h
  | [], h => simp at h

theorem chatProtected_eq
    (hp : allowedPath (.sse .openAiChatCompletions) path) (h : ChangedAt path old new) :
    chatProtected new = chatProtected old := by
  obtain ⟨hr, hc⟩ := hp
  cases path with
  | nil => exact absurd rfl hr
  | cons tok toks =>
    simp only [isImmutableSsePath, Bool.or_eq_false_iff] at hc
    obtain ⟨⟨⟨hf, -⟩, ha⟩, hn⟩ := hc
    have hg : ∀ key ∈ ["id", "object", "created", "model"],
        new.get (utf8 key) = old.get (utf8 key) :=
      fun key hk => h.get_of_ne (ne_head_of_names hf hk)
    have hch : (new.get (utf8 "choices")).bind choicesProtected =
        (old.get (utf8 "choices")).bind choicesProtected := by
      refine h.bind_get choicesProtected ?_
      rintro rfl
      obtain ⟨i, field, rest, rfl⟩ := below_item_of_check [] not_mem_nil ha
      refine ⟨cons_ne_nil _ _, fun below below' hb => ?_⟩
      refine hb.map_items _ (cons_ne_nil _ _) (fun item item' hit => ?_)
      exact hit.get_of_ne (ne_head_of_names (names_tail (names_tail hn)) (by decide))
    simp only [chatProtected, hg "id" (by decide), hg "object" (by decide),
      hg "created" (by decide), hg "model" (by decide), hch]

theorem outputProtected_eq
    (ha : isArrayItemOrItsIndex (utf8 "response" :: utf8 "output" :: toks) (utf8 "output") = false)
    (hn : names toks ["id", "item_id", "call_id", "response_id", "index", "output_index",
      "content_index", "type", "sequence_number"] = false)
    (h : ChangedAt toks old new) : outputProtected new = outputProtected old := by
  obtain ⟨i, field, rest, rfl⟩ := below_item_of_check [utf8 "response"] (by decide) ha
  refine h.map_items _ (cons_ne_nil _ _) (fun item item' hit => ?_)
  have hg : ∀ key ∈ ["id", "item_id", "call_id", "response_id", "index", "output_index",
      "content_index", "type", "sequence_number"], item'.get (utf8 key) = item.get (utf8 key) :=
    fun key hk => hit.get_of_ne (ne_head_of_names (names_tail hn) hk)
  simp only [outputItemProtected, hg "id" (by decide), hg "type" (by decide),
    hg "call_id" (by decide)]

theorem responsesProtected_eq
    (hpa : allowedPath (.sse .openAiResponses) path) (h : ChangedAt path old new) :
    responsesProtected new = responsesProtected old := by
  obtain ⟨hro, hch⟩ := hpa
  cases path with
  | nil => exact absurd rfl hro
  | cons tok toks =>
    simp only [isImmutableSsePath, Bool.or_eq_false_iff] at hch
    obtain ⟨⟨⟨⟨⟨-, -⟩, hr⟩, hf⟩, ha⟩, hn⟩ := hch
    have hg : ∀ key ∈ ["id", "item_id", "call_id", "response_id", "index", "output_index",
        "content_index", "type", "sequence_number"], new.get (utf8 key) = old.get (utf8 key) :=
      fun key hk => h.get_of_ne (ne_head_of_names hn hk)
    -- a path through the response goes on to one of its members
    have hb : utf8 "response" = tok → ∃ field rest, toks = field :: rest ∧
        names [field] ["id", "status"] = false := by
      rintro rfl
      cases toks with
      | nil => simp at hr
      | cons field rest => exact ⟨field, rest, rfl, by simpa using hf⟩
    have hm : ∀ key ∈ ["id", "status"],
        (new.get (utf8 "response")).bind (Json.get · (utf8 key)) =
          (old.get (utf8 "response")).bind (Json.get · (utf8 key)) := by
      intro key hk
      refine h.bind_get _ (fun ht => ?_)
      obtain ⟨field, rest, rfl, hp⟩ := hb ht
      exact ⟨cons_ne_nil _ _,
        fun below below' hc => hc.get_of_ne (ne_head_of_names hp hk)⟩
    have hou : (new.get (utf8 "response")).bind
          (fun resp => (resp.get (utf8 "output")).bind outputProtected) =
        (old.get (utf8 "response")).bind
          (fun resp => (resp.get (utf8 "output")).bind outputProtected) := by
      refine h.bind_get _ (fun ht => ?_)
      obtain ⟨field, rest, rfl, -⟩ := hb ht
      refine ⟨cons_ne_nil _ _, fun below below' hc => ?_⟩
      refine hc.bind_get outputProtected (fun hk => ?_)
      subst ht hk
      obtain ⟨i, inner, more, hre⟩ := below_item_of_check [utf8 "response"] (by decide) ha
      exact ⟨hre ▸ cons_ne_nil _ _,
        fun _ _ => outputProtected_eq ha (names_tail (names_tail hn))⟩
    simp only [responsesProtected, hg "type" (by decide), hg "sequence_number" (by decide),
      hg "item_id" (by decide), hg "output_index" (by decide), hg "content_index" (by decide),
      hm "id" (by decide), hm "status" (by decide), hou]

end Paths

section Plans

open Json (ChangedAt)

variable {codec : JsonCodec} {α : Type} {view : Json → α} {scope : PatchScope}

/-- A checked plan keeps what no change at an allowed path touches. -/
theorem PlanChecked.preserves
    (hv : ∀ path old new, allowedPath scope path → ChangedAt path old new → view new = view old)
    {plan : JsonPatchPlan} (hp : PlanChecked scope plan) {doc res : Json}
    (h : applyJsonPatchValue codec doc plan = .ok res) : view res = view doc :=
  applyJsonPatchValue_preserves view (allowedPath scope) hv
    (fun op hm => ⟨(hp op hm).1, allowedPath_of_validatePointer (hp op hm).2⟩) h

theorem EntriesChecked.preserves {Event : Type} [DecidableEq Event]
    (hv : ∀ path old new, allowedPath scope path → ChangedAt path old new → view new = view old)
    {es : List (SsePatchEntry Event)} (he : EntriesChecked scope es)
    {selector : Event} {v : Json} {res : Json × Bool}
    (h : applyMatchingEntries codec selector v es = .ok res) :
    view res.1 = view v := by
  induction es generalizing v res with
  | nil =>
    cases h
    rfl
  | cons e es ih =>
    have hr : EntriesChecked scope es :=
      fun o hm => he o (mem_cons_of_mem _ hm)
    rw [applyMatchingEntries] at h
    split_ifs at h
    · simp only [bind_eq_ok] at h
      obtain ⟨patched, hp, below, hb, hre⟩ := h
      cases hre
      rw [ih hr hb, (he e mem_cons_self).preserves hv hp]
    · exact ih hr h

/-- Whatever the event, a patch that succeeds keeps the protected fields of the format. -/
def SseEventPatchPlan.KeepsProtected (codec : JsonCodec) {format : ApiFormat} :
    SseEventPatchPlan format → Prop
  | .openAiChatCompletions entries => ∀ value result changed,
    applyMatchingChatEntries codec value entries = .ok (result, changed) →
      chatProtected result = chatProtected value
  | .openAiResponses entries => ∀ selector value result changed,
    applyMatchingResponseEntries codec value entries selector = .ok (result, changed) →
      responsesProtected result = responsesProtected value
  | .openAiImages => True

theorem SseEventPatchPlan.Checked.keepsProtected {fmt : ApiFormat} {plan : SseEventPatchPlan fmt}
    (h : plan.Checked) : plan.KeepsProtected codec := by
  cases plan with
  | openAiChatCompletions es =>
    intro v res changed ha
    exact EntriesChecked.preserves (fun _ _ _ => chatProtected_eq) h ha
  | openAiResponses es =>
    intro selector v res changed ha
    exact EntriesChecked.preserves (fun _ _ _ => responsesProtected_eq) h ha
  | openAiImages => trivial

/-- Compiled documents and their compositions keep the protected fields of requests and events. -/
theorem protected_fields_survive (codec : JsonCodec) {plan : TransformPlan} (hplan : plan.Built) :
    (∀ body result, applyJsonPatchValue codec body plan.requestJson = .ok result →
      requestProtected result = requestProtected body) ∧
    plan.sseEventPatches.KeepsProtected codec :=
  ⟨fun _ _ ha => hplan.checked.request.preserves (fun _ _ _ => requestProtected_eq) ha,
    hplan.checked.events.keepsProtected⟩

/-- A version 2 document that patches requests and the deltas of chat chunks. -/
def deltaDocument : Json := .object [
    (utf8 "api_format", .string (utf8 "open_ai_chat_completions")),
    (utf8 "request_json", .array [.object [
      (utf8 "op", .string (utf8 "add")), (utf8 "path", .string (utf8 "/temperature")),
      (utf8 "value", .number (.int 1))]]),
    (utf8 "sse", .array [.object [
      (utf8 "event", .string (utf8 "chat.completion.chunk")),
      (utf8 "json", .array [.object [
        (utf8 "op", .string (utf8 "replace")),
        (utf8 "path", .string (utf8 "/choices/0/delta/content")),
        (utf8 "value", .string (utf8 "x"))]])]]),
    (utf8 "version", .number (.int 2))]

def deltaPointer (raw : String) (tokens : List String) : JsonPointer := ⟨utf8 raw, tokens.map utf8⟩

def deltaPlan : TransformPlan where
  apiFormat := .openAiChatCompletions
  requestHeaders := []
  responseHeaders := []
  requestJson := [.advanced (.add (deltaPointer "/temperature" ["temperature"])
    (.literal (.number (.int 1))) none)]
  sseEventPatches := .openAiChatCompletions [⟨.chatCompletionChunk,
    [.advanced (.replace (deltaPointer "/choices/0/delta/content" ["choices", "0", "delta", "content"])
      (.literal (.string (utf8 "x"))) none)]⟩]

def deltaBody : Json := .object [(utf8 "model", .string (utf8 "m"))]

def deltaCodec : JsonCodec := .ofValues [deltaBody]

theorem protected_fields_survive_delta :
    compileDocument deltaDocument .openAiChatCompletions = .ok deltaPlan ∧
    (∃ result, applyJsonPatchValue deltaCodec deltaBody deltaPlan.requestJson = .ok result ∧
      result ≠ deltaBody ∧ requestProtected result = requestProtected deltaBody) ∧
    deltaPlan.sseEventPatches.KeepsProtected deltaCodec := by
  have hc : compileDocument deltaDocument .openAiChatCompletions = .ok deltaPlan := rfl
  have hk := protected_fields_survive deltaCodec (.compiled hc)
  exact ⟨hc, ⟨_, rfl, by decide, hk.1 _ _ rfl⟩, hk.2⟩

end Plans

end AiGateway.Transforms
