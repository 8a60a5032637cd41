import AiGateway.RequestPolicy.Headers
import Mathlib.Data.List.TakeWhile

/-! What is left of the client's headers when a request leaves the gateway. -/
namespace AiGateway.RequestPolicy
open Lib Transforms Lib.Stage List

section HeaderMap
variable (hdrs : HeaderMap) (name : HeaderName)

theorem getAll_filter (keep : HeaderName → Bool) :
    HeaderMap.getAll (hdrs.filter (fun e => keep e.1)) name =
      if keep name then hdrs.getAll name else [] := by
  unfold HeaderMap.getAll
  rw [filter_filter]
  split_ifs with hk
  · congr 1
    apply filter_congr
    intro e _
    by_cases hn : e.1 = name
    · rw [hn, hk, Bool.and_true]
    · rw [beq_false_of_ne hn, Bool.false_and]
  · rw [map_eq_nil_iff, filter_eq_nil_iff]
    intro e _ hb
    obtain ⟨hn, hke⟩ := Bool.and_eq_true_iff.mp hb
    rw [beq_iff_eq.mp hn] at hke
    exact hk hke

theorem foldl_remove (removed : List HeaderName) :
    removed.foldl HeaderMap.remove hdrs = hdrs.filter (fun e => !removed.contains e.1) := by
  induction removed generalizing hdrs with
  | nil => simp
  | cons first removed ih =>
    rw [foldl_cons, ih, HeaderMap.remove, filter_filter]
    apply filter_congr
    intro e _
    rw [contains_cons, Bool.not_or, Bool.and_comm, bne]

end HeaderMap

section Filter
variable {layer : RequestPolicyLayer} {interface : RequestInterface} {policy : HeaderPolicy}
  {names : List HeaderName} {hdrs filtered : HeaderMap}

/-- A header passes the filter, by its name alone. -/
def passes (policy : HeaderPolicy) (names : List HeaderName) (name : HeaderName) : Bool :=
  headerAction policy name == .allow ||
    headerAction policy name == .ignore && (names.contains name || name == utf8 "connection")

theorem filterHeader_eq_ok {e : HeaderName × HeaderValue} {res : HeaderMap}
    (h : filterHeader layer interface policy (some names) filtered e = .ok res) :
    headerAction policy e.1 ≠ .reject ∧
      res = filtered ++ if passes policy names e.1 then [e] else [] := by
  unfold filterHeader at h
  cases ha : headerAction policy e.1 with
  | allow =>
    rw [ha] at h
    cases h
    have hp : passes policy names e.1 = true := by
      rw [passes, ha]
      rfl
    rw [if_pos hp]
    exact ⟨UnknownAction.noConfusion, rfl⟩
  | ignore =>
    rw [ha] at h
    simp only [Option.any_some] at h
    have hp : passes policy names e.1 = (names.contains e.1 || e.1 == utf8 "connection") := by
      rw [passes, ha]
      rfl
    split_ifs at h with hin
    · cases h
      rw [if_pos (hp.trans hin)]
      exact ⟨UnknownAction.noConfusion, rfl⟩
    · cases h
      rw [if_neg (by rw [hp]; exact hin)]
      exact ⟨UnknownAction.noConfusion, (append_nil _).symm⟩
  | reject =>
    rw [ha] at h
    cases h

variable (h : filterHeaders layer interface policy (some names) hdrs = .ok filtered)
include h

theorem filterHeaders_eq_ok :
    (∀ e ∈ hdrs, headerAction policy e.1 ≠ .reject) ∧
      filtered = hdrs.filter (fun e => passes policy names e.1) := by
  refine foldlM_invariant (fun done cur =>
    (∀ e ∈ done, headerAction policy e.1 ≠ .reject) ∧
      cur = done.filter (fun e => passes policy names e.1)) ?_ ?_ h
  · exact ⟨fun e he => absurd he not_mem_nil, rfl⟩
  · rintro done e cur res - ⟨hd, rfl⟩ hs
    obtain ⟨ha, rfl⟩ := filterHeader_eq_ok hs
    refine ⟨?_, by rw [filter_append, filter_cons, filter_nil]⟩
    intro o hot
    rcases mem_append.mp hot with hot | hot
    · exact hd o hot
    · rw [mem_singleton.mp hot]
      exact ha

/-- The header that declares connection-scoped names passes whenever the filter succeeds. -/
theorem getAll_connection_of_filterHeaders :
    filtered.getAll (utf8 "connection") = hdrs.getAll (utf8 "connection") := by
  obtain ⟨hac, rfl⟩ := filterHeaders_eq_ok h
  rw [getAll_filter]
  split_ifs with hp
  · rfl
  · symm
    rw [HeaderMap.getAll, map_eq_nil_iff, filter_eq_nil_iff]
    intro e he hn
    have ha := hac e he
    rw [beq_iff_eq.mp hn] at ha
    unfold passes at hp
    cases hc : headerAction policy (utf8 "connection") with
    | allow => simp [hc] at hp
    | ignore => simp [hc] at hp
    | reject => exact ha hc

end Filter

/-- The operation gives a header of this name values of its own. -/
def HeaderOperation.Writes (operation : HeaderOperation) (name : HeaderName) : Prop :=
  (∃ value, operation = .set name value) ∨ ∃ source, operation = .rename source name

theorem getAll_remove_self (hdrs : HeaderMap) (name : HeaderName) :
    (hdrs.remove name).getAll name = [] := by
  unfold HeaderMap.remove
  rw [getAll_filter hdrs name (fun o => o != name)]
  simp

variable {hdrs res : HeaderMap}

/-- One operation keeps the values of a name, removes them or writes them. -/
theorem getAll_applyHeaderOperation {connectionNames : List HeaderName} {scope : HeaderScope} {op : HeaderOperation} (name : HeaderName)
    (h : applyHeaderOperation connectionNames scope hdrs op = .ok res) :
    res.getAll name = hdrs.getAll name ∨ res.getAll name = [] ∨ HeaderOperation.Writes op name := by
  cases op with
  | set target v =>
    obtain ⟨_, -, ⟨⟩⟩ := bind_eq_ok.mp h
    by_cases hn : name = target
    · subst hn
      exact .inr (.inr (.inl ⟨v, rfl⟩))
    · exact .inl (HeaderMap.getAll_insert_of_ne _ hn _)
  | remove target =>
    obtain ⟨_, -, ⟨⟩⟩ := bind_eq_ok.mp h
    by_cases hn : name = target
    · subst hn
      exact .inr (.inl (getAll_remove_self _ _))
    · exact .inl (HeaderMap.getAll_remove_of_ne _ hn)
  | rename src target =>
    obtain ⟨_, -, h⟩ := bind_eq_ok.mp h
    obtain ⟨_, -, h⟩ := bind_eq_ok.mp h
    dsimp only at h
    split_ifs at h
    · cases h
      exact .inl rfl
    · cases h
      by_cases hn : name = target
      · subst hn
        exact .inr (.inr (.inr ⟨src, rfl⟩))
      · rw [getAll_foldl_append_of_ne _ hn]
        by_cases hs : name = src
        · subst hs
          exact .inr (.inl (getAll_remove_self _ _))
        · exact .inl (HeaderMap.getAll_remove_of_ne _ hs)

theorem getAll_applyHeaderPlan {plan : HeaderPlan} (name : HeaderName)
    (h : applyHeaderPlan hdrs plan = .ok res) :
    res.getAll name = hdrs.getAll name ∨ res.getAll name = [] ∨
      ∃ op ∈ plan, HeaderOperation.Writes op name := by
  refine foldlM_invariant (fun done cur =>
    cur.getAll name = hdrs.getAll name ∨ cur.getAll name = [] ∨
      ∃ op ∈ done, HeaderOperation.Writes op name) (.inl rfl) ?_ h
  intro done op cur res _ hd hst
  rcases getAll_applyHeaderOperation name hst with hk | hr | hw
  · rw [hk]
    rcases hd with hs | hn | ⟨earlier, he, hw⟩
    · exact .inl hs
    · exact .inr (.inl hn)
    · exact .inr (.inr ⟨earlier, mem_append_left _ he, hw⟩)
  · exact .inr (.inl hr)
  · exact .inr (.inr ⟨op, mem_append_right _ mem_cons_self, hw⟩)

/-- The name is a token of a `Connection` value, the value being split at commas and each piece
trimmed. -/
def DeclaredByConnection (headers : HeaderMap) (name : HeaderName) : Prop :=
  ∃ value ∈ headers.getAll (utf8 "connection"), ∃ token ∈ value.splitOn 44,
    headerNameFromBytes (trimAsciiBytes token) = some name

theorem mem_connectionHeaderNames {name : HeaderName} :
    name ∈ connectionHeaderNames hdrs ↔ DeclaredByConnection hdrs name := by
  simp only [connectionHeaderNames, parseConnectionHeaderNames, mem_flatMap,
    mem_filterMap, DeclaredByConnection]

theorem getAll_sanitizeOutboundRequestHeaders (hdrs : HeaderMap) (name : HeaderName) :
    (sanitizeOutboundRequestHeaders hdrs).getAll name =
      if outboundRequestHeaderIsRemoved (textConnectionHeaderNames hdrs) name then []
      else hdrs.getAll name := by
  unfold sanitizeOutboundRequestHeaders
  rw [foldl_remove, getAll_filter hdrs name (fun o => !List.contains _ o)]
  split_ifs with hk hr hr
  · -- A name the check rejects stays only if it is not there.
    rw [HeaderMap.getAll, map_eq_nil_iff, filter_eq_nil_iff]
    intro e he hn
    have hm : name ∈ (hdrs.map (·.1)).dedup := by
      rw [mem_dedup, ← beq_iff_eq.mp hn]
      exact mem_map_of_mem he
    rw [contains_iff_mem.mpr (mem_filter.mpr ⟨hm, hr⟩)] at hk
    cases hk
  · rfl
  · rfl
  · rw [Bool.not_eq_true, Bool.not_eq_false', contains_iff_mem, mem_filter] at hk
    exact absurd hk.2 hr

/-- The names of a request header that never leave the gateway. -/
def Withheld (client : HeaderMap) (name : HeaderName) : Prop := headerIsHopByHop name = true ∨
    name ∈ [utf8 "host", utf8 "content-length", utf8 "authorization", utf8 "accept-encoding"] ∨
    clientHeaderExplicitlyIgnored name = true ∨ DeclaredByConnection client name

theorem getAll_forwardHeaders (hdrs : HeaderMap) (name : HeaderName) :
    (forwardHeaders hdrs true).getAll name = hdrs.getAll name ∧ ¬ Withheld hdrs name ∨
      (forwardHeaders hdrs true).getAll name = [] := by
  unfold forwardHeaders
  rw [getAll_filter hdrs name (fun o => !(isHopByHop (connectionHeaderNames hdrs) o ||
    (true && ([utf8 "host", utf8 "content-length", utf8 "authorization",
      utf8 "proxy-authorization", utf8 "accept-encoding"].contains o ||
        clientHeaderExplicitlyIgnored o))))]
  split_ifs with hk
  · refine .inl ⟨rfl, ?_⟩
    simp only [isHopByHop, Bool.true_and, Bool.not_or, Bool.and_eq_true, Bool.not_eq_true',
      contains_eq_mem, decide_eq_false_iff_not] at hk
    obtain ⟨⟨hd, hh⟩, hl, hig⟩ := hk
    rintro (hw | hw | hw | hw)
    · rw [hh] at hw
      cases hw
    · refine hl (mem_of_mem_filter (p := fun o => o != utf8 "proxy-authorization")
        ?_)
      exact hw
    · rw [hig] at hw
      cases hw
    · exact hd (mem_connectionHeaderNames.mpr hw)
  · exact .inr rfl

section Pipeline
variable {interface : RequestInterface} {client filtered planned : HeaderMap} {plan : HeaderPlan}

theorem getAll_filterClientHeaders (h : filterClientHeaders interface client = .ok filtered)
    {name : HeaderName} (hp : filtered.getAll name ≠ []) :
    filtered.getAll name = client.getAll name := by
  obtain ⟨-, rfl⟩ := filterHeaders_eq_ok h
  rw [getAll_filter] at hp ⊢
  split_ifs at hp ⊢ with hpa
  · rfl
  · exact absurd rfl hp

/-- Behind the plan the same names are withheld as in front of the filter. -/
theorem withheld_of_plan (hf : filterClientHeaders interface client = .ok filtered)
    (hp : applyHeaderPlan filtered plan = .ok planned) (name : HeaderName) :
    Withheld client name ↔ Withheld planned name := by
  have hn : connectionHeaderNames planned = connectionHeaderNames client := by
    rw [connectionHeaderNames_of_foldlM hp, connectionHeaderNames, connectionHeaderNames,
      getAll_connection_of_filterHeaders hf]
  unfold Withheld
  rw [← mem_connectionHeaderNames, ← mem_connectionHeaderNames, hn]

end Pipeline

section Text

theorem toStr_eq_some {v text : Bytes} :
    toStr v = some text ↔ v.all isTextByte = true ∧ v = text := by
  unfold toStr
  split_ifs with ha
  · rw [Option.some_inj]
    exact ⟨fun h => ⟨ha, h⟩, fun h => h.2⟩
  · refine ⟨fun h => ?_, fun h => absurd h.1 ha⟩
    cases h

variable {byte : UInt8}

/-- The white space with which a piece of text can start is one byte. -/
theorem find?_whitespace {chars : List Bytes} (rest : Bytes)
    (hc : chars = whitespace ∨ chars = whitespace.map reverse) (h : isTextByte byte = true) :
    chars.find? (fun c => c.isPrefixOf (byte :: rest)) =
      if isAsciiWhitespace byte then some [byte] else none := by
  have hne : ∀ other : UInt8, 0x80 ≤ other ∨ 10 ≤ other ∧ other ≤ 13 → (other == byte) = false := by
    intro other ho
    rw [beq_eq_false_iff_ne]
    rintro rfl
    simp only [isTextByte, Bool.or_eq_true, Bool.and_eq_true, decide_eq_true_eq, beq_iff_eq] at h
    grind
  by_cases h9 : 9 = byte
  · subst h9
    rcases hc with rfl | rfl <;> rfl
  · by_cases h32 : 32 = byte
    · subst h32
      rcases hc with rfl | rfl <;> rfl
    · have hw : isAsciiWhitespace byte = false := by
        have hlf := hne 10
        have hff := hne 12
        have hcr := hne 13
        grind [isAsciiWhitespace]
      rw [hw]
      rcases hc with rfl | rfl <;>
        simp [whitespace, isPrefixOf, find?, hne, beq_false_of_ne h9, beq_false_of_ne h32]

theorem stripFront_eq_dropWhile {chars : List Bytes} {fuel : ℕ} {bs : Bytes}
    (hc : chars = whitespace ∨ chars = whitespace.map reverse) (hf : bs.length ≤ fuel)
    (h : ∀ byte ∈ bs, isTextByte byte = true) :
    stripFront chars fuel bs = bs.dropWhile isAsciiWhitespace := by
  induction fuel generalizing bs with
  | zero =>
    rw [length_eq_zero_iff.mp (Nat.le_zero.mp hf)]
    rfl
  | succ fuel ih =>
    cases bs with
    | nil => rcases hc with rfl | rfl <;> rfl
    | cons byte bs =>
      obtain ⟨hb, hbs⟩ := forall_mem_cons.mp h
      rw [stripFront, find?_whitespace bs hc hb, dropWhile_cons]
      cases isAsciiWhitespace byte with
      | true => exact ih (Nat.le_of_succ_le_succ hf) hbs
      | false => rfl

theorem not_isTokenByte_of_isAsciiWhitespace (h : isAsciiWhitespace byte = true) :
    isTokenByte byte = false := by
  simp only [isAsciiWhitespace, contains_eq_mem, decide_eq_true_eq, mem_cons,
    not_mem_nil, or_false] at h
  rcases h with rfl | rfl | rfl | rfl | rfl <;> decide

/-- On a piece of text the two ways to trim give the same name. -/
theorem headerNameFromBytes_trim {tok : Bytes} (h : ∀ byte ∈ tok, isTextByte byte = true) :
    headerNameFromBytes (trim tok) = headerNameFromBytes (trimAsciiBytes tok) := by
  have ht : trim tok =
      ((tok.dropWhile isAsciiWhitespace).reverse.dropWhile isAsciiWhitespace).reverse := by
    unfold trim
    rw [stripFront_eq_dropWhile (.inl rfl) le_rfl h]
    dsimp only
    rw [stripFront_eq_dropWhile (.inr rfl) length_reverse.le]
    exact fun byte hb => h byte (dropWhile_subset _ (mem_reverse.mp hb))
  rw [ht, trimAsciiBytes]
  split_ifs with hbl
  · -- Blanks are no name, and neither is the empty text they are trimmed to.
    have he : tok.dropWhile isAsciiWhitespace = [] := by
      rw [dropWhile_eq_nil_iff]
      exact fun byte hb => all_eq_true.mp hbl byte hb
    rw [he]
    cases tok with
    | nil => rfl
    | cons byte rest =>
      have hb := all_eq_true.mp hbl byte mem_cons_self
      simp [headerNameFromBytes, not_isTokenByte_of_isAsciiWhitespace hb]
  · rfl

theorem mem_textConnectionHeaderNames {name : HeaderName} :
    name ∈ textConnectionHeaderNames hdrs ↔
      ∃ v ∈ hdrs.getAll (utf8 "connection"), v.all isTextByte = true ∧
        ∃ tok ∈ v.splitOn 44, headerNameFromBytes (trimAsciiBytes tok) = some name := by
  unfold textConnectionHeaderNames
  simp only [mem_filterMap, mem_flatMap, toStr_eq_some]
  constructor
  · rintro ⟨tok, ⟨text, ⟨v, hv, hte, rfl⟩, ht⟩, hn⟩
    rw [headerNameFromBytes_trim] at hn
    · exact ⟨v, hv, hte, tok, ht, hn⟩
    · intro byte hb
      exact all_eq_true.mp hte byte (mem_of_mem_splitOn ht hb)
  · rintro ⟨v, hv, hte, tok, ht, hn⟩
    refine ⟨tok, ⟨v, ⟨v, hv, hte, rfl⟩, ht⟩, ?_⟩
    rw [headerNameFromBytes_trim]
    · exact hn
    · intro byte hb
      exact all_eq_true.mp hte byte (mem_of_mem_splitOn ht hb)

end Text

/-- The last check reads the declared names as the plans do, when the `Connection` values are
text. -/
theorem textConnectionHeaderNames_iff
    (ht : ∀ v ∈ hdrs.getAll (utf8 "connection"), v.all isTextByte = true)
    (name : HeaderName) :
    name ∈ textConnectionHeaderNames hdrs ↔ name ∈ connectionHeaderNames hdrs := by
  rw [mem_textConnectionHeaderNames, mem_connectionHeaderNames]
  constructor
  · rintro ⟨v, hv, -, hn⟩
    exact ⟨v, hv, hn⟩
  · rintro ⟨v, hv, hn⟩
    exact ⟨v, hv, ht v hv, hn⟩

/-- The headers a request leaves with carry nothing that is hop-by-hop, withheld or declared
connection-scoped by the client, and what they carry is the client's or the plan's. -/
theorem outbound_headers_are_safe (interface : RequestInterface) (client : HeaderMap)
    (plan : HeaderPlan) {filtered planned : HeaderMap} (hfilter : filterClientHeaders interface client = .ok filtered)
    (hplan : applyHeaderPlan filtered plan = .ok planned) :
    (∀ name, (sanitizeOutboundRequestHeaders (forwardHeaders planned true)).getAll name ≠ [] →
      ¬ Withheld client name ∧
        ((sanitizeOutboundRequestHeaders (forwardHeaders planned true)).getAll name =
            client.getAll name ∨
          ∃ operation ∈ plan, HeaderOperation.Writes operation name)) ∧
    ∀ headers : HeaderMap,
      (∀ value ∈ headers.getAll (utf8 "connection"), value.all isTextByte = true) →
        ∀ name, name ∈ textConnectionHeaderNames headers ↔ name ∈ connectionHeaderNames headers := by
  refine ⟨fun name hp => ?_, fun headers ht => textConnectionHeaderNames_iff ht⟩
  rw [getAll_sanitizeOutboundRequestHeaders] at hp ⊢
  split_ifs at hp ⊢ with hr
  · exact absurd rfl hp
  · rcases getAll_forwardHeaders planned name with ⟨hf, ha⟩ | hn
    · rw [withheld_of_plan hfilter hplan]
      refine ⟨ha, ?_⟩
      rw [hf] at hp ⊢
      rcases getAll_applyHeaderPlan name hplan with hs | hn | hw
      · rw [hs] at hp ⊢
        exact .inl (getAll_filterClientHeaders hfilter hp)
      · exact absurd hn hp
      · exact .inr hw
    · exact absurd hn hp

/-- A client that declares a name next to a byte that is no text, and a plan that renames. -/
def clientExample : HeaderMap :=
  [(utf8 "connection", utf8 "x-request-id," ++ [255]), (utf8 "x-request-id", utf8 "1"),
    (utf8 "authorization", utf8 "Bearer k"), (utf8 "originator", utf8 "a"),
    (utf8 "originator", utf8 "b"), (utf8 "x-unknown", utf8 "2"), (utf8 "range", utf8 "c")]

theorem outbound_headers_are_safe_declared :
    (sanitizeOutboundRequestHeaders (forwardHeaders
        [(utf8 "connection", utf8 "x-request-id," ++ [255]), (utf8 "x-request-id", utf8 "1"),
          (utf8 "authorization", utf8 "Bearer k"), (utf8 "originator", utf8 "a"),
          (utf8 "originator", utf8 "b"), (utf8 "x-range", utf8 "c")] true)).getAll
        (utf8 "originator") = [utf8 "a", utf8 "b"] ∧
      ¬ Withheld clientExample (utf8 "originator") :=
  ⟨by decide +kernel, ((outbound_headers_are_safe .chatCompletions clientExample
    [.rename (utf8 "range") (utf8 "x-range")] rfl rfl).1 (utf8 "originator") (by decide +kernel)).1⟩

/-- A byte that is no text hides the names next to it from the last check alone, which then
leaves such a header where it is. -/
theorem undecodable_value_hides_names : ∃ (headers : HeaderMap) (name : HeaderName),
    name ∈ connectionHeaderNames headers ∧ name ∉ textConnectionHeaderNames headers ∧
      (sanitizeOutboundRequestHeaders headers).getAll name ≠ [] :=
  ⟨[(utf8 "connection", utf8 "x-a," ++ [255]), (utf8 "x-a", utf8 "1")], utf8 "x-a",
    by decide +kernel⟩

end AiGateway.RequestPolicy
