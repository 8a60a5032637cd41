import AiGateway.Journal.Codec
import AiGateway.RequestLog.Admissions

/-! Reading the journal back: what is written is read, a row of an earlier version is read to the
event it holds, a row with a foreign payload is rejected, and only the oldest versions can panic. -/
namespace AiGateway.Journal
open Domain Lib Billing Checked Lib.Stage

/-- The event has the identifier that an object names. -/
def Named (reader : JournalReader) (value : Json) (event : RequestLogEvent) : Prop :=
  ∀ id, value.get idField = some id → reader.uuid id = some event.id

/-- Where the decoder expects an object, a value is one. In version 2 it expects one only after its
probe. -/
def ObjectWhereExpected (reader : JournalReader) (row : EncodedRequestLog) : Prop :=
  row.schemaVersion = 3 ∨ row.schemaVersion = 2 ∧ (reader.readStreamed row.payload).isSome →
    ∀ value, reader.parse row.payload = some value → value.isObject = true

section Reading
variable {rd : JournalReader} {v : Json} {ms : List (Bytes × Json)} {payload : Bytes}
  {ev : RequestLogEvent}

theorem readValue_of_parse (h : rd.parse payload = some v) : rd.readValue payload = .ok v :=
  congrArg lift (orReject_eq_ok.mpr h)

theorem typed_of_fromValue (h : rd.fromValue v = some ev) : rd.typed v = .ok ev :=
  congrArg lift (orReject_eq_ok.mpr h)

/-- Typed readings of a value with the same identifier member. -/
theorem typed_meets {patched : Json} (h : patched.get idField = v.get idField) :
    Meets True (rd.typed patched) (Named rd v) := by
  refine meets_lift (fun ev he id hid => ?_)
  have hr := orReject_eq_ok.mp he
  rw [← h] at hid
  cases patched with
  | object ms => exact rd.id_of_fromValue ms id ev hr hid
  | null | bool _ | number _ | string _ | array _ => cases hid

theorem get_insertMember {key : Bytes} (hne : idField ≠ key) (inserted : Json) :
    (Json.object (insertMember key inserted ms)).get idField = (Json.object ms).get idField :=
  lookup_insertMember_of_ne hne inserted ms

theorem insertLegacyOperation_meets : Meets True (insertLegacyOperation ms) (fun patched =>
    (Json.object patched).get idField = (Json.object ms).get idField) := by
  refine meets_lift_bind (fun fmt _ => meets_lift_bind (fun fmt _ => ?_))
  exact get_insertMember (by decide +kernel) _

theorem get_normalizeOperation (v : Json) :
    (normalizeOperation v).get idField = v.get idField := by
  cases v with
  | object ms =>
    unfold normalizeOperation
    dsimp only
    split
    · exact get_insertMember (by decide +kernel) _
    · rfl
  | null | bool _ | number _ | string _ | array _ => rfl

/-- The reading of any version does not panic and keeps the identifier of the payload. -/
theorem decodePayload_meets {row : EncodedRequestLog} (hob : ObjectWhereExpected rd row) :
    Meets True (rd.decodePayload row.schemaVersion row.payload) (fun ev =>
      ∀ v, rd.parse row.payload = some v → Named rd v ev) := by
  have hs : ∀ {v ev}, rd.parse row.payload = some v → Named rd v ev →
      ∀ o, rd.parse row.payload = some o → Named rd o ev := by
    intro v ev hv hn o hot
    obtain rfl : v = o := Option.some.inj (hv.symm.trans hot)
    exact hn
  have hm : ∀ {v : Json}, v.isObject = true → ∃ ms, v.asObject = some ms ∧ v = .object ms := by
    intro v hv
    cases v with
    | object ms => exact ⟨ms, rfl, rfl⟩
    | null | bool _ | number _ | string _ | array _ => cases hv
  unfold JournalReader.decodePayload
  split_ifs with h2 h3 h4 h7 h8
  · refine meets_lift_bind (fun streamed hp => meets_lift_bind (fun v hv => ?_))
    have hv := orReject_eq_ok.mp hv
    have hs' := Option.isSome_of_eq_some (orReject_eq_ok.mp hp)
    obtain ⟨ms, has, rfl⟩ := hm (hob (.inr ⟨h2, hs'⟩) v hv)
    refine meets_demand_bind has (insertLegacyOperation_meets.bind (fun patched hp => ?_))
    rw [get_insertMember (by decide +kernel)] at hp
    exact (typed_meets hp).mono (fun _ => hs hv)
  · refine meets_lift_bind (fun v hv => ?_)
    have hv := orReject_eq_ok.mp hv
    obtain ⟨ms, has, rfl⟩ := hm (hob (.inl h3) v hv)
    refine meets_demand_bind has (insertLegacyOperation_meets.bind (fun patched hp => ?_))
    exact (typed_meets hp).mono (fun _ => hs hv)
  · refine meets_lift_bind (fun v hv => ?_)
    exact (typed_meets (get_normalizeOperation v)).mono
      (fun _ => hs (orReject_eq_ok.mp hv))
  · refine meets_lift (fun ev he v hv => ?_)
    have hr := rd.readEvent_agrees _ v ev (orReject_eq_ok.mp he) hv
    exact (typed_meets rfl).of_ok (typed_of_fromValue hr)
  · refine meets_lift_bind (fun v hv => meets_lift_bind (fun _ _ => ?_))
    exact (typed_meets rfl).mono (fun _ => hs (orReject_eq_ok.mp hv))
  · exact trivial

theorem decode_meets {row : EncodedRequestLog} (hob : ObjectWhereExpected rd row) :
    Meets True (rd.decode row) (fun ev => ev.id = row.requestLogId ∧
      ∀ v, rd.parse row.payload = some v → Named rd v ev) := by
  refine (decodePayload_meets hob).bind (fun ev hn => meets_lift_bind (fun _ hid => ?_))
  have hs : (JournalReader.stripCredential row.schemaVersion ev).id = ev.id := by
    unfold JournalReader.stripCredential
    split_ifs <;> rfl
  refine ⟨beq_iff_eq.mp (ensure_eq_ok.mp hid), fun v hv id hg => ?_⟩
  rw [hs]
  exact hn v hv id hg

theorem decode_panics {row : EncodedRequestLog} (hob : ¬ ObjectWhereExpected rd row) :
    rd.decode row = .error .panicked := by
  unfold ObjectWhereExpected at hob
  push Not at hob
  obtain ⟨hx, v, hv, ho⟩ := hob
  have hn : v.asObject = none := by
    cases v with
    | object ms => exact absurd rfl ho
    | null | bool _ | number _ | string _ | array _ => rfl
  -- Both versions read the value and then demand its members.
  have hb : ∀ next : List (Bytes × Json) → Checked JournalCodecError RequestLogEvent,
      (rd.readValue row.payload >>= fun v => demand v.asObject >>= next) = .error .panicked := by
    intro next
    rw [readValue_of_parse hv]
    change (demand v.asObject >>= next) = _
    rw [hn]
    rfl
  have hp : rd.decodePayload row.schemaVersion row.payload = .error .panicked := by
    obtain h3 | ⟨h2, hs⟩ := hx
    · rw [h3]
      exact hb _
    · obtain ⟨streamed, hs⟩ := Option.isSome_iff_exists.mp hs
      rw [h2]
      change rd.decodeV2 row.payload = _
      rw [JournalReader.decodeV2, hs]
      exact hb _
  rw [JournalReader.decode, hp]
  rfl

end Reading

/-- A row panics exactly if it has version 3, or version 2 and passes the probe, and its payload is
JSON but no object. What a row is read to has its identifier. -/
theorem decode_returns (reader : JournalReader) (row : EncodedRequestLog) :
    (reader.decode row ≠ .error .panicked ↔ ObjectWhereExpected reader row) ∧
      ∀ event, reader.decode row = .ok event → event.id = row.requestLogId := by
  by_cases hob : ObjectWhereExpected reader row
  · have hm := decode_meets hob
    exact ⟨iff_of_true hm.not_panicked hob, fun _ he => (hm.of_ok he).1⟩
  · have hp := decode_panics hob
    exact ⟨iff_of_false (not_not.mpr hp) hob, fun _ he => nomatch hp.symm.trans he⟩

/-- Reads the text of null, and no event. -/
def nullReader : JournalReader where
  uuid _ := none
  fromValue _ := none
  parse payload := if payload = utf8 "null" then some .null else none
  readEvent _ := none
  readStreamed _ := none
  id_of_fromValue _ _ _ h := absurd h (Option.some_ne_none _).symm
  fromValue_congr _ _ _ := rfl
  readEvent_agrees _ _ _ h := absurd h (Option.some_ne_none _).symm

/-- In version 2 the probe rejects a null. -/
theorem decode_returns_probe : nullReader.decode ⟨0, 2, utf8 "null"⟩ ≠ .error .panicked := by
  refine (decode_returns nullReader ⟨0, 2, utf8 "null"⟩).1.mpr (fun h => ?_)
  obtain h | ⟨-, h⟩ := h
  · exact absurd h (by decide)
  · exact absurd h Bool.false_ne_true

/-- A row of version 3 whose payload is null. -/
theorem null_payload_panics : nullReader.decode ⟨0, 3, utf8 "null"⟩ = .error .panicked := by
  decide +kernel

section Legacy

/-- The lists have the same members, these keys apart. -/
def AgreeOff (keys : List Bytes) (stored full : List (Bytes × Json)) : Prop :=
  ∀ key ∉ keys, stored.lookup key = full.lookup key

/-- The members are read to the event and have the current names. -/
structure Written (reader : JournalReader) (members : List (Bytes × Json)) (event : RequestLogEvent) :
    Prop where
  read : reader.fromValue (.object members) = some event
  operation : members.lookup apiOperationField = some (.string (operationName event.apiOperation))
  protocol : members.lookup requestProtocolField =
    some (.string (protocolName event.requestProtocol))
  format : (members.lookup apiFormatField).bind readFormat = some event.apiFormat

/-- The payload of an earlier version holds the event, if that version can represent it: 4 to 6 have an
older name of the operation, 3 has none, and 2 has no protocol either. -/
inductive Represents (reader : JournalReader) (payload : Bytes) (event : RequestLogEvent) : ℤ → Prop
  | direct (h : reader.readEvent payload = some event) : Represents reader payload event 7
  | renamed {version : ℤ} {full stored : List (Bytes × Json)} {name : Bytes}
    (hversion : 4 ≤ version ∧ version ≤ 6) (hwritten : Written reader full event)
    (hparse : reader.parse payload = some (.object stored))
    (hagree : AgreeOff [apiOperationField] stored full)
    (hstored : stored.lookup apiOperationField = some (.string name))
    (hname : normalizeStoredName name (protocolName event.requestProtocol) =
      operationName event.apiOperation) : Represents reader payload event version
  | unnamed {full stored : List (Bytes × Json)} (hwritten : Written reader full event)
    (hparse : reader.parse payload = some (.object stored))
    (hagree : AgreeOff [apiOperationField] stored full)
    (hoperation : event.apiOperation =
      legacyOperation event.apiFormat (some (protocolName event.requestProtocol))) :
    Represents reader payload event 3
  | streamed {full stored : List (Bytes × Json)} (hwritten : Written reader full event)
    (hparse : reader.parse payload = some (.object stored))
    (hagree : AgreeOff [requestProtocolField, apiOperationField] stored full)
    (hprobe : reader.readStreamed payload = some event.streamed)
    (hprotocol : event.requestProtocol = fromHttpStreamed event.streamed)
    (hoperation : event.apiOperation =
      legacyOperation event.apiFormat (some (protocolName event.requestProtocol))) :
    Represents reader payload event 2

variable {rd : JournalReader} {ev : RequestLogEvent} {full ms : List (Bytes × Json)} {key : Bytes}
  {keys : List Bytes}

theorem AgreeOff.insert {v : Json} (h : AgreeOff (key :: keys) ms full)
    (hk : full.lookup key = some v) : AgreeOff keys (insertMember key v ms) full := by
  intro o ho
  by_cases heq : o = key
  · rw [heq, lookup_insertMember_self, hk]
  · rw [lookup_insertMember_of_ne heq]
    exact h o (List.not_mem_cons_of_ne_of_not_mem heq ho)

theorem Written.typed (h : Written rd full ev) (ha : AgreeOff [] ms full) :
    rd.typed (.object ms) = .ok ev := by
  refine typed_of_fromValue ?_
  rw [rd.fromValue_congr ms full (fun key => ha key List.not_mem_nil), h.read]

/-- The inferred operation is the one of the event. -/
theorem Written.insertLegacyOperation (h : Written rd full ev)
    (ha : AgreeOff [apiOperationField] ms full)
    (hop : ev.apiOperation = legacyOperation ev.apiFormat (some (protocolName ev.requestProtocol))) :
    (insertLegacyOperation ms >>= fun ms => rd.typed (.object ms)) = .ok ev := by
  obtain ⟨value, hv, hf⟩ := Option.bind_eq_some_iff.mp h.format
  have hp := ha requestProtocolField (by decide +kernel)
  rw [h.protocol] at hp
  have hi : Journal.insertLegacyOperation ms = .ok (insertMember apiOperationField
      (.string (operationName ev.apiOperation)) ms) := by
    rw [Journal.insertLegacyOperation, ha apiFormatField (by decide +kernel), hv, hp, hop]
    exact bind_eq_ok.mpr ⟨value, rfl, bind_eq_ok.mpr
      ⟨ev.apiFormat, congrArg lift (orReject_eq_ok.mpr hf), rfl⟩⟩
  rw [hi]
  exact h.typed (ha.insert h.operation)

theorem decodePayload_of_represents {payload : Bytes} {version : ℤ}
    (h : Represents rd payload ev version) : rd.decodePayload version payload = .ok ev := by
  cases h with
  | direct h => exact congrArg lift (orReject_eq_ok.mpr h)
  | renamed hv hw hp ha hs hn =>
    rw [JournalReader.decodePayload, if_neg (by omega), if_neg (by omega), if_pos hv,
      JournalReader.decodeLegacyOperation, readValue_of_parse hp]
    have hpr := ha requestProtocolField (by decide +kernel)
    rw [hw.protocol] at hpr
    change rd.typed _ = _
    simp only [normalizeOperation, hs, hpr, Option.bind_some, Json.asStr, hn]
    exact hw.typed (ha.insert hw.operation)
  | unnamed hw hp ha hop =>
    change rd.decodeV3 payload = _
    rw [JournalReader.decodeV3, readValue_of_parse hp]
    exact hw.insertLegacyOperation ha hop
  | streamed hw hp ha hs hpr hop =>
    change rd.decodeV2 payload = _
    rw [JournalReader.decodeV2, hs, readValue_of_parse hp]
    have hk := hw.protocol
    rw [hpr] at hk
    exact hw.insertLegacyOperation (ha.insert hk) hop

theorem Represents.version_lt {payload : Bytes} {version : ℤ} (h : Represents rd payload ev version) :
    version < requestLogSchemaVersion := by
  cases h with
  | renamed hv => exact hv.2.trans_lt (by decide)
  | direct | unnamed | streamed => decide

/-- The credential is dropped, whatever the payload has there. -/
theorem decode_of_represents {row : EncodedRequestLog}
    (h : Represents rd row.payload ev row.schemaVersion) (hid : row.requestLogId = ev.id) :
    rd.decode row = .ok { ev with upstreamCredential := none } := by
  rw [JournalReader.decode, decodePayload_of_represents h]
  change (lift (ensure _ _) >>= _) = _
  rw [JournalReader.stripCredential, if_pos h.version_lt]
  exact bind_eq_ok.mpr ⟨(), congrArg lift (ensure_eq_ok.mpr (beq_iff_eq.mpr hid.symm)), rfl⟩

end Legacy

section Writing
variable {events : Set RequestLogEvent} (codec : JournalCodec events)

theorem decodePayload_toVec {ev : RequestLogEvent} (hev : ev ∈ events) :
    codec.decodePayload requestLogSchemaVersion (codec.toVec ev) = .ok ev := by
  have ht : codec.typed (codec.toValue ev) = .ok ev :=
    typed_of_fromValue (codec.fromValue_toValue ev hev)
  have hc : ensure ((codec.toValue ev).get upstreamCredentialField).isSome
      (JournalCodecError.deserialize (some upstreamCredentialField)) = .ok () :=
    ensure_eq_ok.mpr (codec.credential_toValue ev hev)
  refine bind_eq_ok.mpr ⟨codec.toValue ev, ?_, ?_⟩
  · exact readValue_of_parse (codec.parse_toVec ev hev)
  · exact bind_eq_ok.mpr ⟨(), congrArg lift hc, ht⟩

theorem decode_encode {ev : RequestLogEvent} (hev : ev ∈ events) :
    codec.decode (codec.encode ev) = .ok ev :=
  bind_eq_ok.mpr ⟨ev, decodePayload_toVec codec hev, bind_eq_ok.mpr
    ⟨(), congrArg lift (ensure_eq_ok.mpr (beq_self_eq_true ev.id)), rfl⟩⟩

end Writing
section Sample

def sampleId : Json := .string (utf8 "00000000-0000-0000-0000-000000000001")

/-- The fields of an event of version 8, in the order they are written. -/
def sampleFields : List (Bytes × Json) :=
  let nil := Json.string (utf8 "00000000-0000-0000-0000-000000000000")
  [("id", sampleId),
    ("started_at", .string (utf8 "1970-01-01T00:00:00Z")),
    ("completed_at", .string (utf8 "1970-01-01T00:00:00Z")), ("user_id", nil), ("api_key_id", nil),
    ("request_source", .string (utf8 "client")),
    ("api_format", .string (utf8 "open_ai_chat_completions")),
    ("api_operation", .string (utf8 "chat_completion")), ("request_protocol", .string (utf8 "sse")),
    ("client_model", .string (utf8 "model")), ("reasoning_effort", .null), ("fast_mode", .bool false),
    ("upstream_model", .null), ("model_rule_id", .null), ("channel_group_id", .null),
    ("channel_id", .null), ("upstream_credential", .null), ("model_id", .null),
    ("outcome", .string (utf8 "failed")), ("response_status_code", .null),
    ("streamed", .bool true), ("ttft_ms", .null), ("total_duration_ms", .number (.int 0)),
    ("billing", .null), ("error_code", .null), ("error_summary", .null)].map
    (fun field => (utf8 field.1, field.2))

def sampleEvent : RequestLogEvent :=
  ⟨1, 0, 0, 0, 0, .client, .openAiChatCompletions, .chatCompletions, .sse, "model", none, false, none,
    none, none, none, none, none, .failed, none, true, none, .saturating 0, none, none, none⟩

/-- The fields of the event that a version before the operation has. -/
def legacyFields : List (Bytes × Json) :=
  sampleFields.filter (fun field => field.1 ∉ [apiOperationField, upstreamCredentialField])

/-- An object is read if it has the fields of the event; its credential may be missing. -/
def readSample : Json → Option RequestLogEvent
  | .object members => if ∀ field ∈ sampleFields, field.1 = upstreamCredentialField ∨
      members.lookup field.1 = some field.2 then some sampleEvent else none
  | _ => none

def parseSample (payload : Bytes) : Option Json :=
  ([sampleFields, legacyFields].find? (fun fields => (Json.object fields).text = payload)).map
    (fun fields => .object (mergeMembers [] fields))

/-- Reads and writes one event; its text of version 3 is read too. -/
def sampleCodec : JournalCodec {sampleEvent} where
  uuid value := if value = sampleId then some 1 else none
  fromValue := readSample
  parse := parseSample
  readEvent payload := (parseSample payload).bind readSample
  readStreamed payload := ((parseSample payload).bind (Json.get · (utf8 "streamed"))).bind Json.asBool
  id_of_fromValue members id event h hid := by
    obtain ⟨hf, he⟩ := Option.ite_none_right_eq_some.mp h
    have hs := (hf (idField, sampleId) List.mem_cons_self).resolve_left (by decide +kernel)
    obtain rfl : id = sampleId := Option.some.inj (hid.symm.trans hs)
    rw [if_pos rfl, ← Option.some.inj he]
    rfl
  fromValue_congr members others h := by simp only [readSample, h]
  readEvent_agrees payload value event h hv := by
    rw [hv] at h
    exact h
  toValue _ := .object (mergeMembers [] sampleFields)
  toVec _ := (Json.object sampleFields).text
  parse_toVec _ _ := by decide +kernel
  fromValue_toValue _ h := by rw [Set.mem_singleton_iff.mp h]; decide +kernel
  credential_toValue _ _ := by decide +kernel

end Sample

section Spool
variable {events : Set RequestLogEvent} [DecidablePred (· ∈ events)] (codec : JournalCodec events)

def JournalCodecError.toSpool (version : Int16) : JournalCodecError → RequestLog.JournalCodecError
  | .serialize => .serialize
  | .deserialize _ => .deserialize
  | .unsupportedVersion _ => .unsupportedVersion version
  | .identifierMismatch => .identifierMismatch

/-- The journal as the codec of the spool, which knows no panics: it writes only the current version,
and reading that never panics. -/
def JournalCodec.toSpool : RequestLog.JournalCodec RequestLogEvent where
  id := RequestLogEvent.id
  serialize event := if event ∈ events then some (codec.toVec event) else none
  deserialize version payload :=
    match codec.decodePayload version.toInt payload with
    | .ok event => .ok (JournalReader.stripCredential version.toInt event)
    | .error (.rejected error) => .error (error.toSpool version)
    | .error .panicked => .error .deserialize
  round_trip h := by
    obtain ⟨hev, hp⟩ := Option.ite_none_right_eq_some.mp h
    cases hp
    have hd := decodePayload_toVec codec hev
    change codec.decodePayload (RequestLog.requestLogSchemaVersion.toInt) _ = _ at hd
    rw [hd]
    rfl

/-- The spool reads the events that the journal decodes. -/
theorem decode_toSpool (record : RequestLog.EncodedRequestLog) (event : RequestLogEvent) :
    codec.toSpool.decode record = .ok event ↔ codec.decode
      ⟨record.requestLogId, record.schemaVersion.toInt, record.payload⟩ = .ok event := by
  unfold RequestLog.JournalCodec.decode JournalReader.decode JournalCodec.toSpool
  dsimp only
  cases codec.decodePayload record.schemaVersion.toInt record.payload with
  | error failure => cases failure <;> exact iff_of_false nofun nofun
  | ok found =>
    by_cases hid : (JournalReader.stripCredential record.schemaVersion.toInt found).id =
        record.requestLogId
    · simp [hid, ensure, lift, pure, Except.pure, bind, Except.bind]
    · simp [hid, ensure, lift, bind, Except.bind]

end Spool
end AiGateway.Journal
