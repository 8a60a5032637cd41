import AiGateway.Lib.JsonText
import AiGateway.Usage.Parse
import AiGateway.Billing.Range

/-! One canonical usage for the two ways of reporting it: an input count next to the cache counts,
or an input total with the cache counts as its details. -/
namespace AiGateway.Usage
open Lib Domain List Billing

theorem utf8_inj {a b : String} (h : utf8 a = utf8 b) : a = b := by
  have hd : a.toUTF8 = b.toUTF8 := ByteArray.ext (Array.toList_inj.mp h)
  exact String.toByteArray_inj.mp hd

theorem get_object_nil (key : Bytes) : (Json.object []).get key = none := rfl

theorem get_object_cons (name key : String) (v : Json) (ms : List (Bytes × Json)) :
    (Json.object ((utf8 name, v) :: ms)).get (utf8 key) =
      if key = name then some v else (Json.object ms).get (utf8 key) := by
  unfold Json.get
  dsimp only
  rw [lookup_cons]
  by_cases hk : key = name
  · subst hk
    simp
  · have hn : (utf8 key == utf8 name) = false := beq_false_of_ne (fun h => hk (utf8_inj h))
    rw [hn, if_neg hk]

/-- What the size of a compact JSON text can be: a count of 64 bits has at most 20 bytes, and a
member its key, with every byte escaped at worst, its value and four separators. -/
structure Compact (codec : JsonCodec) : Prop where
  int : ∀ count : ℕ, count < 2 ^ 64 → (codec.serialize (.number (.int count))).length ≤ 20
  object : ∀ members, (codec.serialize (.object members)).length ≤
    2 + (members.map (fun m => 6 * m.1.length + (codec.serialize m.2).length + 4)).sum

section Fields
variable {usage inputDetails : Json} {fmt : UsageFormat}
  {uncached withCached read written input : I64}

/-- What an exclusive input count with both cache counts is read as. -/
theorem parseAnthropicCounters_eq (hu : token (usage.get (utf8 "input_tokens")) = some uncached)
    (hr : optionalToken usage "cache_read_input_tokens" = some (some read))
    (hw : optionalToken usage "cache_creation_input_tokens" = some (some written))
    (hc : uncached.checkedAdd read = some withCached)
    (hi : withCached.checkedAdd written = some input) :
    parseAnthropicCounters usage = (token (usage.get (utf8 "output_tokens"))).map
      (fun output => ⟨input, read, written, output, zeroTokens⟩) := by
  unfold parseAnthropicCounters
  simp only [hu, hr, hw, Option.bind_eq_bind, Option.bind_some, Option.getD_some, hc, hi]
  cases token (usage.get (utf8 "output_tokens")) <;> rfl

theorem parseAnthropicCounters_eq_some {parsed : ResponseUsage}
    (h : parseAnthropicCounters usage = some parsed) : ∃ uncached read written withCached,
      token (usage.get (utf8 "input_tokens")) = some uncached ∧
      optionalToken usage "cache_read_input_tokens" = some read ∧
      optionalToken usage "cache_creation_input_tokens" = some written ∧
      uncached.checkedAdd (read.getD zeroTokens) = some withCached ∧
      withCached.checkedAdd (written.getD zeroTokens) = some parsed.inputTokens := by
  unfold parseAnthropicCounters at h
  simp only [Option.bind_eq_bind, Option.bind_eq_some_iff] at h
  obtain ⟨uncached, hu, read, hr, written, hw, withCached, hc, input, hi, output, -, hp⟩ := h
  cases hp
  exact ⟨uncached, read, written, withCached, hu, hr, hw, hc, hi⟩

/-- What an input total with both cache counts in its details is read as. -/
theorem parseOpenAiCounters_eq
    (hd : details usage (counterNames fmt).inputDetails = some (some inputDetails))
    (hn : details usage (counterNames fmt).outputDetails = some none)
    (hr : optionalToken inputDetails "cached_tokens" = some (some read))
    (hw : optionalToken inputDetails "cache_write_tokens" = some (some written))
    (hc : optionalToken inputDetails "cache_creation_tokens" = some none)
    (hh : optionalToken usage "prompt_cache_hit_tokens" = some none)
    (hm : optionalToken usage "prompt_cache_miss_tokens" = some none)
    (hi : token (usage.get (utf8 (counterNames fmt).input)) = some input) :
    parseOpenAiCounters fmt usage = (token (usage.get (utf8 (counterNames fmt).output))).map
      (fun output => ⟨input, read, written, output, zeroTokens⟩) := by
  unfold parseOpenAiCounters
  simp only [hd, hn, hi, hh, hm, detailToken, hr, hw, hc, Option.bind_eq_bind, Option.bind_some,
    Option.none_or, Option.some_or, Option.getD_some, Option.getD_none, ite_self]
  cases token (usage.get (utf8 (counterNames fmt).output)) <;> rfl

end Fields

section Encodings

def natural (count : ℕ) : Json := .number (.int count)

/-- The input count leaves the cached and the written tokens out. -/
def anthropicEncoding (uncached read written output : ℕ) : Json :=
  .object [(utf8 "cache_creation_input_tokens", natural written),
    (utf8 "cache_read_input_tokens", natural read), (utf8 "input_tokens", natural uncached),
    (utf8 "output_tokens", natural output)]

/-- The input total includes the cached and the written tokens, which its details repeat. -/
def openAiEncoding (format : UsageFormat) (input read written output : ℕ) : Json :=
  let names := counterNames format
  .object [(utf8 names.input, natural input),
    (utf8 names.inputDetails, .object [(utf8 "cache_write_tokens", natural written),
      (utf8 "cached_tokens", natural read)]),
    (utf8 names.output, natural output)]

variable {count uncached read written output input : ℕ} {codec : JsonCodec}

theorem anthropicEncoding_get :
    let usage := anthropicEncoding uncached read written output
    usage.get (utf8 "input_tokens") = some (natural uncached) ∧
      usage.get (utf8 "cache_read_input_tokens") = some (natural read) ∧
      usage.get (utf8 "cache_creation_input_tokens") = some (natural written) ∧
      usage.get (utf8 "output_tokens") = some (natural output) := by
  simp only [anthropicEncoding, get_object_cons, String.reduceEq, if_false, if_true, and_self]

theorem openAiEncoding_get {fmt : UsageFormat} :
    let usage := openAiEncoding fmt input read written output
    let names := counterNames fmt
    usage.get (utf8 names.input) = some (natural input) ∧
      usage.get (utf8 names.output) = some (natural output) ∧
      usage.get (utf8 names.inputDetails) = some (.object
        [(utf8 "cache_write_tokens", natural written), (utf8 "cached_tokens", natural read)]) ∧
      usage.get (utf8 names.outputDetails) = none ∧
      usage.get (utf8 "prompt_cache_hit_tokens") = none ∧
      usage.get (utf8 "prompt_cache_miss_tokens") = none := by
  cases fmt <;> simp only [openAiEncoding, counterNames, get_object_cons, get_object_nil,
    String.reduceEq, if_false, if_true, and_self]

def counter (count : ℕ) (h : count < 2 ^ 63) : I64 := ⟨count, by omega, by omega⟩

theorem ofInt?_natCast (h : count < 2 ^ 63) :
    (Signed.ofInt? (count : ℤ) : Option I64) = some (counter count h) :=
  dif_pos ⟨by omega, by omega⟩

theorem token_natural : token (some (natural count)) = Signed.ofInt? (count : ℤ) := by
  rw [token, Option.bind_some, natural, Json.asI64]
  by_cases h : count < 2 ^ 63
  · have hn : 0 ≤ (counter count h).value := Int.natCast_nonneg count
    rw [ofInt?_natCast h, Option.filter_some, if_pos (decide_eq_true hn)]
  · rw [Signed.ofInt?, dif_neg (by omega), Option.filter_none]

theorem checkedAdd_counter {a b : ℕ} (ha : a < 2 ^ 63) (hb : b < 2 ^ 63) :
    (counter a ha).checkedAdd (counter b hb) = Signed.ofInt? ((a + b : ℕ) : ℤ) := by
  rfl

/-- The counters once the total fits, whatever the output count is. -/
def canonical (hfits : uncached + read + written < 2 ^ 63) (output : ℕ) : Option ResponseUsage :=
  (Signed.ofInt? (output : ℤ)).map (fun output =>
    ⟨counter (uncached + read + written) hfits, counter read (by omega),
      counter written (by omega), output, zeroTokens⟩)

variable {usage : Json} {key : String}

theorem optionalToken_of_get (h : count < 2 ^ 63)
    (hg : usage.get (utf8 key) = some (natural count)) :
    optionalToken usage key = some (some (counter count h)) := by
  unfold optionalToken
  rw [hg]
  dsimp only
  rw [token_natural, ofInt?_natCast h, Option.map_some]

theorem optionalToken_of_get_none
    (hg : usage.get (utf8 key) = none) : optionalToken usage key = some none := by
  unfold optionalToken
  rw [hg]

theorem parseAnthropicCounters_encoding (hfits : uncached + read + written < 2 ^ 63) :
    parseAnthropicCounters (anthropicEncoding uncached read written output) =
      canonical hfits output := by
  have hu : uncached < 2 ^ 63 := by omega
  have hr : read < 2 ^ 63 := by omega
  have hw : written < 2 ^ 63 := by omega
  have hur : uncached + read < 2 ^ 63 := by omega
  obtain ⟨hgu, hgr, hgw, hgo⟩ := @anthropicEncoding_get uncached read written output
  have hp := parseAnthropicCounters_eq (by rw [hgu, token_natural, ofInt?_natCast hu])
    (optionalToken_of_get hr hgr) (optionalToken_of_get hw hgw)
    ((checkedAdd_counter hu hr).trans (ofInt?_natCast hur))
    ((checkedAdd_counter hur hw).trans (ofInt?_natCast hfits))
  rw [hp, hgo, token_natural, canonical]

theorem parseOpenAiCounters_encoding (fmt : UsageFormat)
    (hfits : uncached + read + written < 2 ^ 63) :
    parseOpenAiCounters fmt
      (openAiEncoding fmt (uncached + read + written) read written output) =
        canonical hfits output := by
  have hr : read < 2 ^ 63 := by omega
  have hw : written < 2 ^ 63 := by omega
  obtain ⟨hgi, hgo, hgd, hgn, hgh, hgm⟩ :=
    @openAiEncoding_get read written output (uncached + read + written) fmt
  have hp := parseOpenAiCounters_eq (by rw [details, hgd]) (by rw [details, hgn])
    (optionalToken_of_get hr (by
      simp only [get_object_cons, String.reduceEq, if_false, if_true]))
    (optionalToken_of_get hw (by simp only [get_object_cons, if_true]))
    (optionalToken_of_get_none (by
      simp only [get_object_cons, get_object_nil, String.reduceEq, if_false]))
    (optionalToken_of_get_none hgh) (optionalToken_of_get_none hgm)
    (by rw [hgi, token_natural, ofInt?_natCast hfits])
  rw [hp, hgo, token_natural, canonical]

theorem value_of_ofInt? {v : ℤ} {a : I64} (h : Signed.ofInt? v = some a) :
    a.value = v := by
  unfold Signed.ofInt? at h
  split_ifs at h
  exact congrArg Signed.value (Option.some.inj h).symm

theorem value_of_optionalToken {a : Option I64}
    (hg : usage.get (utf8 key) = some (natural count)) (h : optionalToken usage key = some a) :
    (a.getD zeroTokens).value = count := by
  unfold optionalToken at h
  rw [hg] at h
  dsimp only at h
  rw [token_natural, Option.map_eq_some_iff] at h
  obtain ⟨b, hb, rfl⟩ := h
  exact value_of_ofInt? hb

theorem parseAnthropicCounters_overflow (hover : 2 ^ 63 ≤ uncached + read + written) :
    parseAnthropicCounters (anthropicEncoding uncached read written output) = none := by
  obtain ⟨hgu, hgr, hgw, -⟩ := @anthropicEncoding_get uncached read written output
  rw [Option.eq_none_iff_forall_ne_some]
  intro parsed hp
  obtain ⟨u, r, w, ur, hu, hr, hw, hur, ht⟩ := parseAnthropicCounters_eq_some hp
  rw [hgu, token_natural] at hu
  have h₁ := value_of_ofInt? hu
  have h₂ := value_of_optionalToken hgr hr
  have h₃ := value_of_optionalToken hgw hw
  have h₄ := value_of_ofInt? hur
  have h₅ := value_of_ofInt? ht
  have hlt := parsed.inputTokens.upper
  omega

/-- The encodings are far smaller than the limit on usage objects. -/
theorem Compact.encodings (hc : Compact codec) (fmt : UsageFormat)
    (hfits : uncached + read + written < 2 ^ 63) (ho : output < 2 ^ 64) :
    (codec.serialize (anthropicEncoding uncached read written output)).length ≤ maxUsageBytes ∧
      (codec.serialize (openAiEncoding fmt (uncached + read + written) read written
        output)).length ≤ maxUsageBytes := by
  have hu := hc.int uncached (by omega)
  have hr := hc.int read (by omega)
  have hw := hc.int written (by omega)
  have hi := hc.int (uncached + read + written) (by omega)
  have hou := hc.int output ho
  have hkeys : ∀ name ∈ ["cache_creation_input_tokens", "cache_read_input_tokens", "input_tokens",
      "output_tokens", "prompt_tokens", "completion_tokens", "input_tokens_details",
      "prompt_tokens_details", "cache_write_tokens", "cached_tokens"],
      (utf8 name).length ≤ 27 := by decide +kernel
  simp only [forall_mem_cons, not_mem_nil, false_imp_iff, implies_true, and_true] at hkeys
  have hm : maxUsageBytes = 65536 := rfl
  constructor
  · refine le_trans (hc.object _) ?_
    simp only [map_cons, map_nil, sum_cons, sum_nil, natural]
    omega
  · have hd := hc.object [(utf8 "cache_write_tokens", natural written),
      (utf8 "cached_tokens", natural read)]
    refine le_trans (hc.object _) ?_
    cases fmt <;>
    · simp only [map_cons, map_nil, sum_cons, sum_nil, natural, counterNames] at hd ⊢
      omega

end Encodings

def requestUsage (usage : ResponseUsage) : RequestUsage where
  inputTokens := usage.inputTokens
  cachedInputTokens := usage.cachedInputTokens
  cacheWriteTokens := usage.cacheWriteTokens
  outputTokens := usage.outputTokens
  reasoningTokens := usage.reasoningTokens

def parseCounters (format : UsageFormat) (usage : Json) : Option ResponseUsage :=
  if format = .anthropicMessages then parseAnthropicCounters usage
  else parseOpenAiCounters format usage

section General
variable {codec : JsonCodec} {fmt : UsageFormat} {usage : Json} {parsed : ResponseUsage}

theorem parseGeneralUsage_eq (codec : JsonCodec) (fmt : UsageFormat) (usage : Json) :
    parseGeneralUsage codec fmt usage =
      if usage.isObject = true ∧ (codec.serialize usage).length ≤ maxUsageBytes then
        (parseCounters fmt usage).filter ResponseUsage.validate
      else none := by
  have hv : ∀ found : Option ResponseUsage, (found.bind (fun parsed =>
      (guard (parsed.validate = true) : Option Unit).bind (fun _ => some parsed))) =
        found.filter ResponseUsage.validate := by
    rintro (_ | parsed)
    · rfl
    · rw [Option.bind_some, Option.filter_some, guard]
      split_ifs <;> rfl
  unfold parseGeneralUsage parseCounters guard
  split_ifs
  · exact hv _
  · exact hv _
  · rfl
  · rfl

theorem validate_of_parse (h : parseGeneralUsage codec fmt usage = some parsed) :
    (requestUsage parsed).validate = true := by
  rw [parseGeneralUsage_eq] at h
  split_ifs at h
  exact (Option.filter_eq_some_iff.mp h).2

end General

/-- Both encodings of the same counts have one canonical usage, an input sum beyond 63 bits has
none, and the parts of every parsed usage lie within its totals, so that the cost formula
subtracts the cached tokens exactly. -/
theorem encodings_meet (codec : JsonCodec) (hcompact : Compact codec) :
    (∀ uncached read written output : ℕ, output < 2 ^ 64 → uncached + read + written < 2 ^ 63 →
      ∀ format : UsageFormat, format ≠ .anthropicMessages →
        let found := parseGeneralUsage codec .anthropicMessages
          (anthropicEncoding uncached read written output)
        found = parseGeneralUsage codec format
          (openAiEncoding format (uncached + read + written) read written output) ∧
        (output < 2 ^ 63 → ∃ usage, found = some usage ∧
          usage.inputTokens.value = uncached + read + written ∧
          usage.cachedInputTokens.value = read ∧ usage.cacheWriteTokens.value = written ∧
          usage.outputTokens.value = output ∧ usage.reasoningTokens.value = 0)) ∧
    (∀ uncached read written output : ℕ, 2 ^ 63 ≤ uncached + read + written →
      parseGeneralUsage codec .anthropicMessages
        (anthropicEncoding uncached read written output) = none) ∧
    ∀ (format : UsageFormat) (usage : Json) (parsed : ResponseUsage),
      parseGeneralUsage codec format usage = some parsed → (requestUsage parsed).validate = true ∧
          ((requestUsage parsed).inputTokens.saturatingSub
            (requestUsage parsed).cachedInputTokens).value =
              parsed.inputTokens.value - parsed.cachedInputTokens.value := by
  refine ⟨fun uncached read written output ho hfits format hf => ?_,
    fun uncached read written output hover => ?_, fun format usage parsed hp => ?_⟩
  · obtain ⟨hsa, hso⟩ := hcompact.encodings format hfits ho
    have ha : parseGeneralUsage codec .anthropicMessages
        (anthropicEncoding uncached read written output) =
          (canonical hfits output).filter ResponseUsage.validate := by
      rw [parseGeneralUsage_eq, if_pos ⟨rfl, hsa⟩, parseCounters, if_pos rfl,
        parseAnthropicCounters_encoding hfits]
    have hb : parseGeneralUsage codec format
        (openAiEncoding format (uncached + read + written) read written output) =
          (canonical hfits output).filter ResponseUsage.validate := by
      rw [parseGeneralUsage_eq, if_pos ⟨rfl, hso⟩, parseCounters, if_neg hf,
        parseOpenAiCounters_encoding format hfits]
    refine ⟨ha.trans hb.symm, fun hlt => ?_⟩
    rw [ha, canonical, ofInt?_natCast hlt, Option.map_some]
    have hz : zeroTokens.value = 0 := rfl
    refine ⟨_, Option.filter_some_pos ?_, rfl, rfl, rfl, rfl, hz⟩
    simp only [ResponseUsage.validate, Bool.and_eq_true, decide_eq_true_eq]
    simp only [counter, hz]
    omega
  · rw [parseGeneralUsage_eq, parseCounters, if_pos rfl, parseAnthropicCounters_overflow hover,
      Option.filter_none, ite_self]
  · have hv := validate_of_parse hp
    obtain ⟨hc, hle, -⟩ := RequestUsage.validate_iff hv
    exact ⟨hv, Signed.value_saturatingSub hc hle⟩

theorem compact_ofValues (values : List Json) : Compact (.ofValues values) :=
  ⟨fun _ hc => Json.length_text_natCast_le (by norm_num) (hc.trans (by norm_num)),
    Json.length_text_object_le⟩

/-- The largest total that fits, one of its tokens read from the cache. -/
theorem encodings_meet_largest :
    let codec := JsonCodec.ofValues []
    codec.serialize (anthropicEncoding (2 ^ 63 - 2) 1 0 5) = utf8
      ("\x7b\"cache_creation_input_tokens\":0,\"cache_read_input_tokens\":1," ++
        "\"input_tokens\":9223372036854775806,\"output_tokens\":5\x7d") ∧
    parseGeneralUsage codec .anthropicMessages (anthropicEncoding (2 ^ 63 - 2) 1 0 5) =
      parseGeneralUsage codec .openAiChatCompletions
        (openAiEncoding .openAiChatCompletions (2 ^ 63 - 2 + 1 + 0) 1 0 5) := by
  intro codec
  refine ⟨by decide +kernel, ?_⟩
  exact ((encodings_meet codec (compact_ofValues [])).1 (2 ^ 63 - 2) 1 0 5 (by decide) (by decide)
    .openAiChatCompletions (by decide)).1

end AiGateway.Usage
