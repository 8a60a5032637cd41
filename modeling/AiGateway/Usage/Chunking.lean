import AiGateway.Usage.Agreement

/-! The report of a collector over every grouping of a stream into chunks. The values of one chunk are
recorded together, and the last of them counts as the summary once the chunk held a terminal frame. -/
namespace AiGateway.Usage
open List Option Bool

open Lib Domain Transforms

section Fields

variable (env : UsageEnv) (format : ApiFormat)

def values (fields : List SseFields) : List Json :=
  fields.flatMap (fun frame => (observeFields env format frame).value.toList)

def lastOutcome (fields : List SseFields) : Option SseTerminalOutcome :=
  fields.getLast?.bind (fun frame => (observeFields env format frame).terminalOutcome)

def lastError (fields : List SseFields) : Option ResponseErrorDetails :=
  fields.getLast?.bind (fun frame => (observeFields env format frame).error)

/-- The visible frames up to the first terminal one. -/
def seenFields (frames : List Bytes) : List SseFields :=
  takeThrough (isTerminal env format) (usageVisible frames)

theorem values_append (first second : List SseFields) :
    values env format (first ++ second) = values env format first ++ values env format second :=
  flatMap_append

variable {fields : SseFields}

theorem value_of_invisible (h : isVisible fields = false) :
    (observeFields env format fields).value = none := by
  obtain ⟨ev, data⟩ := fields
  cases ev with
  | some ev => cases h
  | none =>
    cases data with
    | some data => cases h
    | none =>
      have hd : ([] : Bytes) ≠ utf8 "[DONE]" := by decide
      simp [observeFields, eventCompleted, hd]

theorem terminalOutcome_of_open (h : isTerminal env format fields = false) :
    (observeFields env format fields).terminalOutcome = none := by
  rwa [isTerminal, isSome_eq_false_iff, isNone_iff_eq_none] at h

theorem error_of_open (h : isTerminal env format fields = false) :
    (observeFields env format fields).error = none := by
  have hou := terminalOutcome_of_open env format h
  unfold observeFields at hou ⊢
  dsimp only at hou ⊢
  split_ifs at hou with hf
  exact if_neg hf

section Open

variable {env format} {first : List SseFields} (hopen : first.any (isTerminal env format) = false)
include hopen

/-- Frames without a terminal one say nothing about how the stream ends. -/
theorem bind_getLast?_append_of_open {α : Type} {f : SseFields → Option α}
    (hf : ∀ {fr}, isTerminal env format fr = false → f fr = none)
    (second : List SseFields) :
    (first ++ second).getLast?.bind f = second.getLast?.bind f := by
  rw [List.getLast?_append]
  cases second.getLast? with
  | some fr => rfl
  | none =>
    cases hfi : first.getLast? with
    | none => rfl
    | some fr => exact hf (eq_false_iff.mpr (any_eq_false.mp hopen fr (mem_of_getLast? hfi)))

theorem lastOutcome_append_of_open (second : List SseFields) :
    lastOutcome env format (first ++ second) = lastOutcome env format second :=
  bind_getLast?_append_of_open hopen (terminalOutcome_of_open env format) second

theorem lastError_append_of_open (second : List SseFields) :
    lastError env format (first ++ second) = lastError env format second :=
  bind_getLast?_append_of_open hopen (error_of_open env format) second

end Open

theorem any_takeThrough {α : Type} (p : α → Bool) (l : List α) :
    (takeThrough p l).any p = l.any p := by
  induction l with
  | nil => rfl
  | cons a l ih =>
    rw [takeThrough]
    by_cases ha : p a = true
    · simp [ha]
    · simp [ha, ih]

theorem seenFields_append (first second : List Bytes) :
    seenFields env format (first ++ second) =
      if (seenFields env format first).any (isTerminal env format) then seenFields env format first
      else seenFields env format first ++ seenFields env format second := by
  unfold seenFields
  rw [usageVisible_append, takeThrough_append, any_takeThrough]
  by_cases ha : (usageVisible first).any (isTerminal env format) = true
  · rw [if_pos ha, if_pos ha]
  · rw [if_neg ha, if_neg ha, takeThrough_of_not_any (eq_false_iff.mpr ha)]

/-- The last frame seen is terminal, or none is. -/
theorem lastOutcome_seenFields (frs : List Bytes) :
    (lastOutcome env format (seenFields env format frs)).isSome =
      (seenFields env format frs).any (isTerminal env format) := by
  unfold seenFields
  induction usageVisible frs with
  | nil => rfl
  | cons fr rest ih =>
    rw [takeThrough]
    by_cases hf : isTerminal env format fr = true
    · rw [if_pos hf, any_cons, hf]
      exact hf
    · have hopen : [fr].any (isTerminal env format) = false := by simpa using hf
      rw [if_neg hf, any_cons, Bool.eq_false_iff.mpr hf, ← ih]
      exact congrArg Option.isSome (lastOutcome_append_of_open hopen _)

theorem any_of_lastOutcome {frs : List Bytes}
    (h : lastOutcome env format (seenFields env format frs) = none) :
    (seenFields env format frs).any (isTerminal env format) = false := by
  rw [← lastOutcome_seenFields, h]
  rfl

theorem length_seenFields_le (frs : List Bytes) :
    (seenFields env format frs).length ≤ frs.length := by
  have ht : ∀ l, (takeThrough (isTerminal env format) l).length ≤ l.length := by
    intro l
    induction l with
    | nil => exact Nat.le_refl 0
    | cons fr l ih =>
      rw [takeThrough]
      split_ifs <;> simp [ih]
  exact (ht _).trans ((length_filter_le _ _).trans_eq (length_map _))

variable {fr : Bytes}

theorem seenFields_cons_of_terminal
    (h : isTerminal env format (usageFields fr) = true) (frs : List Bytes) :
    seenFields env format (fr :: frs) = [usageFields fr] := by
  rw [seenFields, usageVisible, map_cons,
    filter_cons_of_pos (isVisible_of_isTerminal env format h), takeThrough, if_pos h]

theorem seenFields_cons_of_open
    (h : isTerminal env format (usageFields fr) = false) (frs : List Bytes) :
    seenFields env format (fr :: frs) =
      [usageFields fr].filter isVisible ++ seenFields env format frs := by
  rw [seenFields, usageVisible, map_cons]
  by_cases hv : isVisible (usageFields fr) = true
  · rw [filter_cons_of_pos hv, filter_cons_of_pos hv, takeThrough, h]
    rfl
  · rw [filter_cons_of_neg hv, filter_cons_of_neg hv]
    rfl

/-- One scan of a buffer, told by the frames it sees. -/
theorem scanBuffer_seen (bs : Bytes) :
    let seen := seenFields env format (drainFrames bs).1
    (scanBuffer env format bs).values = values env format seen ∧
      (scanBuffer env format bs).terminalOutcome = lastOutcome env format seen ∧
      (scanBuffer env format bs).error = lastError env format seen := by
  induction bs using frame_induction with
  | last bs he =>
    rw [scanBuffer_of_none env format he, drainFrames_of_none he]
    exact ⟨rfl, rfl, rfl⟩
  | frame bs size he ih =>
    obtain ⟨hva, hou, her⟩ := ih
    rw [scanBuffer_of_some env format he, drainFrames_of_some he]
    dsimp only
    by_cases hte : isTerminal env format (usageFields (bs.take size)) = true
    · rw [if_pos hte, seenFields_cons_of_terminal env format hte]
      refine ⟨?_, rfl, rfl⟩
      rw [values, flatMap_cons, flatMap_nil, append_nil]
      rfl
    · have hf := eq_false_iff.mpr hte
      have hopen : ([usageFields (bs.take size)].filter isVisible).any
          (isTerminal env format) = false :=
        any_eq_false.mpr fun fr hm =>
          mem_singleton.mp (mem_of_mem_filter hm) ▸ hte
      have hvl : values env format ([usageFields (bs.take size)].filter isVisible) =
          (observeSseFrame env format (bs.take size)).value.toList := by
        by_cases hv : isVisible (usageFields (bs.take size)) = true
        · rw [filter_cons_of_pos hv, filter_nil, values, flatMap_cons, flatMap_nil, append_nil]
          rfl
        · rw [filter_cons_of_neg hv, filter_nil, observeSseFrame,
            value_of_invisible env format (eq_false_iff.mpr hv)]
          rfl
      rw [if_neg hte, seenFields_cons_of_open env format hf, values_append,
        lastOutcome_append_of_open hopen, lastError_append_of_open hopen, hvl]
      exact ⟨congrArg _ hva, hou, her⟩

end Fields

namespace UsageTally

variable (codec : JsonCodec)

theorem record_append (tally : UsageTally) (first second : List Json) :
    tally.record codec false (first ++ second) =
      (tally.record codec false first).record codec false second := by
  induction first generalizing tally with
  | nil => rfl
  | cons v first ih => exact ih _

theorem record_concat (term : Bool) (tally : UsageTally) (first : List Json) (v : Json) :
    tally.record codec term (first ++ [v]) =
      (tally.record codec false first).recordValue codec v term := by
  induction first generalizing tally with
  | nil =>
    change tally.recordValue codec v (term && true) = _
    rw [Bool.and_true]
    rfl
  | cons head first ih =>
    have hn : (first ++ [v]).isEmpty = false := by simp
    rw [cons_append, record, hn, Bool.and_false, ih]
    rfl

/-- The usage of the value, taken as the summary, replaces another summary. -/
def Overrides (tally : UsageTally) (value : Json) : Prop :=
  tally.terminalUsageSeen = true ∧ isTerminalUsageEvent value tally.apiFormat = false ∧
    ∃ source usage, usageObject value = some source ∧
      (tally.parser.parse codec source tally.snapshot).1 = some usage ∧
      tally.terminalUsage ≠ some usage

theorem latest_recordSource (tally : UsageTally) (v src : Json) (summary : Bool) :
    (tally.recordSource codec v src summary).latest =
      if isTerminalUsageEvent v tally.apiFormat || summary then
        (tally.parser.parse codec src tally.snapshot).1
      else if (tally.parser.parse codec src tally.snapshot).1.isNone then none
      else if tally.terminalUsageSeen then tally.terminalUsage
      else (tally.parser.parse codec src tally.snapshot).1 := by
  unfold recordSource latest
  generalize tally.parser.parse codec src tally.snapshot = parsed
  obtain ⟨u, snap⟩ := parsed
  cases isTerminalUsageEvent v tally.apiFormat || summary with
  | true => rfl
  | false =>
    cases u with
    | some u => rfl
    | none =>
      exact ite_self none

/-- Whether a value is recorded as a summary or as one more count shows only where it overrides. -/
theorem latest_recordValue_summary (tally : UsageTally) (v : Json) :
    (tally.recordValue codec v true).latest = (tally.recordValue codec v false).latest ↔
      ¬tally.Overrides codec v := by
  unfold recordValue Overrides
  cases hs : usageObject v with
  | none => simp
  | some src =>
    rw [latest_recordSource, latest_recordSource]
    cases he : isTerminalUsageEvent v tally.apiFormat with
    | true => simp
    | false =>
      cases hu : (tally.parser.parse codec src tally.snapshot).1 with
      | none => simp [hu]
      | some u =>
        cases hseen : tally.terminalUsageSeen with
        | false => simp
        | true => simp [hu, eq_comm]

end UsageTally

section Batched

variable (env : UsageEnv) (format : ApiFormat)

/-- A collector that saw the frames `before` and then, in its last chunk, the frames `batch`. -/
structure Batched (tally : UsageTally) (before batch : List SseFields) (last : UsageCollector) :
    Prop where
  tally_eq : last.tally = (tally.record env.codec false (values env format before)).record env.codec
    (lastOutcome env format (before ++ batch)).isSome (values env format batch)
  outcome_eq : last.sseTerminalOutcome = lastOutcome env format (before ++ batch)
  error_eq : last.responseError = lastError env format (before ++ batch)
  ends_in_batch : (lastOutcome env format (before ++ batch)).isSome = true → batch ≠ []

variable {env format} {tally : UsageTally} {pre batch : List SseFields}
  {last single : UsageCollector} {frs first pre' batch' seen : List SseFields} {term : SseFields}

theorem Batched.prepend (hopen : first.any (isTerminal env format) = false)
    (h : Batched env format (tally.record env.codec false (values env format first)) pre batch
      last) : Batched env format tally (first ++ pre) batch last where
  tally_eq := by
    rw [append_assoc, lastOutcome_append_of_open hopen, values_append, UsageTally.record_append]
    exact h.tally_eq
  outcome_eq := by
    rw [append_assoc, lastOutcome_append_of_open hopen]
    exact h.outcome_eq
  error_eq := by
    rw [append_assoc, lastError_append_of_open hopen]
    exact h.error_eq
  ends_in_batch := by
    rw [append_assoc, lastOutcome_append_of_open hopen]
    exact h.ends_in_batch

/-- No chunk completes more than one frame. -/
def SingleFrames : Bytes → List Bytes → Prop
  | _, [] => True
  | buffer, chunk :: chunks => (drainFrames (buffer ++ chunk)).1.length ≤ 1 ∧
      SingleFrames (drainFrames (buffer ++ chunk)).2 chunks

namespace UsageCollector

variable (env)

/-- Nothing terminal was seen and nothing is reported. -/
structure Open (format : ApiFormat) (collector : UsageCollector) : Prop where
  apiFormat : collector.tally.apiFormat = format
  outcome : collector.sseTerminalOutcome = none
  error : collector.responseError = none
  enabled : collector.scanner.disabled = false

theorem open_withParser (format : ApiFormat) (parser : UsageParserConfig) :
    Open format (withParser format parser) := ⟨rfl, rfl, rfl, rfl⟩

variable {col : UsageCollector}

theorem observeAll_of_terminal
    (h : col.sseTerminalOutcome.isSome = true) (chunks : List Bytes) :
    col.observeAll env chunks = col := by
  induction chunks with
  | nil => rfl
  | cons chunk chunks ih =>
    rw [observeAll, foldl_cons, observe_of_terminal env h]
    exact ih

section Step

variable {env} {col : UsageCollector} (hcollector : col.Open format) {chunk : Bytes}
  (hro : col.scanner.bytes.length + chunk.length ≤ maxSseFrameBytes)
include hcollector hro

theorem batched_observe :
    Batched env format col.tally []
      (seenFields env format (drainFrames (col.scanner.bytes ++ chunk)).1)
      (col.observe env chunk) := by
  obtain ⟨hv, hou, he⟩ := scanBuffer_seen env format (col.scanner.bytes ++ chunk)
  rw [observe_of_room env hcollector.outcome hcollector.enabled rfl hro, hcollector.apiFormat,
    hv, hou, he]
  refine ⟨rfl, rfl, rfl, fun hs hn => ?_⟩
  rw [hn] at hs
  cases hs

theorem sseTerminalOutcome_observe :
    (col.observe env chunk).sseTerminalOutcome = lastOutcome env format
      (seenFields env format (drainFrames (col.scanner.bytes ++ chunk)).1) :=
  (batched_observe hcollector hro).outcome_eq

variable (hopen : lastOutcome env format (seenFields env format (drainFrames (col.scanner.bytes ++ chunk)).1) = none)
include hopen

/-- A chunk without a terminal frame leaves the collector open, with the rest of the buffer. -/
theorem open_observe :
    (col.observe env chunk).Open format ∧ (col.observe env chunk).scanner.bytes =
        (drainFrames (col.scanner.bytes ++ chunk)).2 := by
  obtain ⟨-, hou, -⟩ := scanBuffer_seen env format (col.scanner.bytes ++ chunk)
  obtain ⟨-, -, hr⟩ := frames_scanBuffer env format (col.scanner.bytes ++ chunk)
  have hb : Batched env format col.tally [] _ (col.observe env chunk) :=
    batched_observe hcollector hro
  have he : (col.observe env chunk).responseError = none := by
    rw [hb.error_eq, nil_append, ← append_nil (seenFields _ _ _),
      lastError_append_of_open (any_of_lastOutcome env format hopen)]
    rfl
  have ht : (col.observe env chunk).tally.apiFormat = format := by
    rw [hb.tally_eq, UsageTally.apiFormat_record]
    exact hcollector.apiFormat
  refine ⟨⟨ht, hb.outcome_eq.trans hopen, he, ?_⟩, ?_⟩ <;>
    rw [observe_of_room env hcollector.outcome hcollector.enabled rfl hro]
  rw [hcollector.apiFormat]
  exact hr (hou.trans hopen)

/-- What follows a chunk without a terminal frame, seen from before that chunk. -/
theorem batched_of_observe
    (h : Batched env format (col.observe env chunk).tally pre batch last) :
    Batched env format col.tally
      (seenFields env format (drainFrames (col.scanner.bytes ++ chunk)).1 ++ pre) batch
      last := by
  refine Batched.prepend (any_of_lastOutcome env format hopen) ?_
  rw [(batched_observe hcollector hro).tally_eq, nil_append, hopen] at h
  exact h

end Step

/-- Chunks within the size limit: only the last batch is recorded under the terminal flag. -/
theorem batched_observeAll (hcollector : col.Open format) (chunks : List Bytes)
    (hro : col.scanner.bytes.length + chunks.flatten.length ≤ maxSseFrameBytes) :
    ∃ pre batch, seenFields env format (framesOfChunks col.scanner.bytes chunks).1 = pre ++ batch ∧
      (SingleFrames col.scanner.bytes chunks → batch.length ≤ 1) ∧
      Batched env format col.tally pre batch (col.observeAll env chunks) ∧
      (lastOutcome env format (pre ++ batch) = none → (col.observeAll env chunks).Open format ∧
        (col.observeAll env chunks).scanner.bytes =
          (framesOfChunks col.scanner.bytes chunks).2) := by
  induction chunks generalizing col with
  | nil =>
    refine ⟨[], [], rfl, fun _ => Nat.zero_le 1, ⟨rfl, hcollector.outcome, hcollector.error,
      fun hs => ?_⟩, fun _ => ⟨hcollector, rfl⟩⟩
    cases hs
  | cons chunk chunks ih =>
    rw [flatten_cons, length_append] at hro
    have hc : col.scanner.bytes.length + chunk.length ≤ maxSseFrameBytes := by omega
    have ha : col.observeAll env (chunk :: chunks) =
        (col.observe env chunk).observeAll env chunks := rfl
    rw [ha, framesOfChunks, seenFields_append, ← lastOutcome_seenFields]
    cases hl : lastOutcome env format
        (seenFields env format (drainFrames (col.scanner.bytes ++ chunk)).1) with
    | some out =>
      have hte : (col.observe env chunk).sseTerminalOutcome.isSome = true := by
        rw [sseTerminalOutcome_observe hcollector hc, hl]
        rfl
      rw [observeAll_of_terminal env hte]
      refine ⟨[], _, rfl, fun h => (length_seenFields_le env format _).trans h.1,
        batched_observe hcollector hc, fun hn => ?_⟩
      cases hl.symm.trans hn
    | none =>
      obtain ⟨hopen, hb⟩ := open_observe hcollector hc hl
      have hle := length_drainFrames_le (col.scanner.bytes ++ chunk)
      rw [length_append] at hle
      obtain ⟨pre, batch, hseen, hsingle, hr, he⟩ := ih hopen (by rw [hb]; omega)
      rw [hb] at hseen hsingle he
      refine ⟨_, batch, ?_, fun h => hsingle h.2, batched_of_observe hcollector hc hl hr,
        fun hn => ?_⟩
      · rw [if_neg (by decide), hseen, append_assoc]
      · rw [append_assoc, lastOutcome_append_of_open (any_of_lastOutcome env format hl)]
          at hn
        exact he hn

end UsageCollector

section
variable (h : Batched env format tally pre batch last)
  (hte : isTerminal env format term = true)
  (hseen : pre ++ batch = frs ++ [term])
include h hte hseen

/-- The last frame seen is in the last batch. -/
theorem Batched.split :
    ∃ front, batch = front ++ [term] ∧ frs = pre ++ front ∧
      last.tally = (tally.record env.codec false (values env format pre)).record env.codec true
        (values env format front ++ (observeFields env format term).value.toList) := by
  have hs : (lastOutcome env format (pre ++ batch)).isSome = true := by
    rw [hseen, lastOutcome, List.getLast?_concat]
    exact hte
  have hb := dropLast_concat_getLast (h.ends_in_batch hs)
  rw [← hb, ← append_assoc] at hseen
  obtain ⟨hf, hl⟩ := append_inj' hseen rfl
  cases hl
  refine ⟨batch.dropLast, hb.symm, hf.symm, ?_⟩
  have hv : values env format batch = values env format batch.dropLast ++
      (observeFields env format (batch.getLast (h.ends_in_batch hs))).value.toList := by
    conv_lhs => rw [← hb]
    rw [values_append]
    exact congrArg _ (append_nil _)
  rw [h.tally_eq, hs, hv]

/-- The value of the last batch that stands in for the missing value of the terminal frame. -/
theorem Batched.tally_of_silent (hs : (observeFields env format term).value = none) :
    ∃ front, batch = front ++ [term] ∧ frs = pre ++ front ∧
      (values env format front = [] ∧ last.tally = tally.record env.codec false (values env format frs) ∨
        ∃ earlier v, values env format front = earlier ++ [v] ∧
          last.tally = (tally.record env.codec false (values env format pre ++ earlier)).recordValue
            env.codec v true) := by
  obtain ⟨front, hb, hf, ht⟩ := h.split hte hseen
  refine ⟨front, hb, hf, ?_⟩
  rw [hs, toList_none, append_nil] at ht
  rcases eq_nil_or_concat (values env format front) with hn | ⟨earlier, v, hc⟩
  · rw [hn] at ht
    rw [hf, values_append, hn, append_nil]
    exact .inl ⟨rfl, ht⟩
  · rw [hc, concat_eq_append, UsageTally.record_concat, ← UsageTally.record_append] at ht
    rw [concat_eq_append] at hc
    exact .inr ⟨earlier, v, hc, ht⟩

end

/-- With a value in the terminal frame the grouping does not matter. -/
theorem Batched.tally_of_value {v : Json} (h : Batched env format tally pre batch last)
    (hte : isTerminal env format term = true) (hseen : pre ++ batch = frs ++ [term])
    (hv : (observeFields env format term).value = some v) :
    last.tally =
      (tally.record env.codec false (values env format frs)).recordValue env.codec v true := by
  obtain ⟨front, -, hf, ht⟩ := h.split hte hseen
  rw [ht, hv, toList_some, UsageTally.record_concat, ← UsageTally.record_append, hf, values_append]

theorem Batched.tally_of_single (h : Batched env format tally pre batch last)
    (hte : isTerminal env format term = true) (hseen : pre ++ batch = frs ++ [term])
    (hsingle : batch.length ≤ 1) :
    last.tally = (tally.record env.codec false (values env format frs)).record env.codec true
      (observeFields env format term).value.toList := by
  obtain ⟨front, hb, hf, ht⟩ := h.split hte hseen
  have hfr : front = [] := by
    rw [hb, length_append, length_singleton] at hsingle
    exact length_eq_zero_iff.mp (by omega)
  rw [hfr, append_nil] at hf
  rw [ht, hfr, hf]
  rfl

/-- Without a terminal frame the grouping does not matter. -/
theorem Batched.tally_of_open (h : Batched env format tally pre batch last)
    (hopen : lastOutcome env format (pre ++ batch) = none) :
    last.tally = tally.record env.codec false (values env format (pre ++ batch)) := by
  rw [h.tally_eq, hopen, values_append, UsageTally.record_append]
  rfl

variable (env format)

/-- The terminal frame carries no value, and the last value before it is a usage that overrides an
earlier summary once it is taken for the summary itself. -/
def LateUsage (tally : UsageTally) (seen : List SseFields) : Prop :=
  ∃ frames terminal earlier value, seen = frames ++ [terminal] ∧
    isTerminal env format terminal = true ∧ (observeFields env format terminal).value = none ∧
    values env format frames = earlier ++ [value] ∧
    (tally.record env.codec false earlier).Overrides env.codec value

variable {env format}

section Grouping

variable {tally : UsageTally} {pre batch pre' batch' : List SseFields}
  {last single : UsageCollector} (h : Batched env format tally pre batch last)
  (h' : Batched env format tally pre' batch' single) (hsingle : batch'.length ≤ 1)
  {frs : List SseFields} {term : SseFields}
  (hte : isTerminal env format term = true)
  (hseen : pre ++ batch = frs ++ [term]) (hseen' : pre' ++ batch' = frs ++ [term])
include h h' hsingle hte hseen hseen'

theorem Batched.latest_eq (hl : ¬LateUsage env format tally (frs ++ [term])) :
    last.tally.latest = single.tally.latest := by
  rw [h'.tally_of_single hte hseen' hsingle]
  cases hv : (observeFields env format term).value with
  | some v =>
    rw [h.tally_of_value hte hseen hv]
    rfl
  | none =>
    obtain ⟨front, -, hf, ⟨-, ht⟩ | ⟨earlier, v, hc, ht⟩⟩ := h.tally_of_silent hte hseen hv
    · rw [ht]
      rfl
    · have hva : values env format frs = (values env format pre ++ earlier) ++ [v] := by
        rw [hf, values_append, hc, append_assoc]
      rw [ht, (UsageTally.latest_recordValue_summary env.codec _ v).mpr fun hov =>
        hl ⟨frs, term, _, v, rfl, hte, hv, hva, hov⟩,
        ← UsageTally.record_concat, hva]
      rfl

theorem Batched.latest_ne (hb : pre = [])
    (hla : LateUsage env format tally (frs ++ [term])) :
    last.tally.latest ≠ single.tally.latest := by
  obtain ⟨frs', term', earlier, v, hs, -, hva, hv, hov⟩ := hla
  obtain ⟨rfl, hl⟩ := append_inj' hs rfl
  cases hl
  obtain ⟨front, -, hf, ⟨hn, -⟩ | ⟨earlier', v', hc, ht⟩⟩ := h.tally_of_silent hte hseen hva
  all_goals rw [hb, nil_append] at hf; subst hf
  · rw [hn] at hv
    exact absurd hv.symm (append_ne_nil_of_right_ne_nil _ (cons_ne_nil _ _))
  · rw [hc] at hv
    obtain ⟨rfl, hl⟩ := append_inj' hv rfl
    cases hl
    rw [h'.tally_of_single hte hseen' hsingle, hva, ht, hb, hc, UsageTally.record_concat]
    exact fun heq => (UsageTally.latest_recordValue_summary env.codec _ v).mp heq hov

end Grouping

/-- The frames of a stream one by one, and what is left behind them. -/
def oneByOne (stream : Bytes) : List Bytes := (drainFrames stream).1 ++ [(drainFrames stream).2]

theorem drainFrames_tail (bs : Bytes) :
    drainFrames (drainFrames bs).2 = ([], (drainFrames bs).2) := by
  induction bs using frame_induction with
  | last bs he => rw [drainFrames_of_none he, drainFrames_of_none he]
  | frame bs size he ih =>
    rw [drainFrames_of_some he]
    exact ih

theorem drainFrames_of_mem (bs : Bytes) :
    ∀ fr ∈ (drainFrames bs).1, drainFrames fr = ([fr], []) := by
  intro fr hm
  rw [drainFrames_of_some (sseFrameEnd_of_mem bs fr hm), take_length, drop_length,
    drainFrames_of_none rfl]

theorem singleFrames_oneByOne (stream : Bytes) : SingleFrames [] (oneByOne stream) := by
  have hs : ∀ frs, (∀ fr ∈ frs, drainFrames fr = ([fr], [])) →
      SingleFrames [] (frs ++ [(drainFrames stream).2]) := by
    intro frs hf
    induction frs with
    | nil => simp [SingleFrames, drainFrames_tail]
    | cons fr frs ih =>
      obtain ⟨hfr, hf⟩ := forall_mem_cons.mp hf
      simpa [SingleFrames, hfr] using ih hf
  exact hs _ (drainFrames_of_mem stream)

theorem flatten_oneByOne (stream : Bytes) : (oneByOne stream).flatten = stream := by
  unfold oneByOne
  rw [flatten_append, flatten_singleton]
  induction stream using frame_induction with
  | last stream he =>
    rw [drainFrames_of_none he]
    rfl
  | frame stream size he ih =>
    rw [drainFrames_of_some he, flatten_cons, append_assoc, ih, take_append_drop]

variable (env) (format) (parser : UsageParserConfig)

def streamReport (chunks : List Bytes) : UsageCollector.Report :=
  (((UsageCollector.withParser format parser).observeAll env chunks).finalize env).report

variable {chunks : List Bytes} {stream : Bytes}

/-- The visible frames and the rest of the buffer do not depend on the chunks. -/
theorem framesOfChunks_visible (hsz : chunks.flatten.length ≤ maxSseFrameBytes) :
    usageVisible (framesOfChunks [] chunks).1 = usageVisible (drainFrames chunks.flatten).1 ∧
      (framesOfChunks [] chunks).2 = (drainFrames chunks.flatten).2 := by
  have hf : Reached .fresh := rfl
  have hro : FrameScan.fresh.frame.length + chunks.flatten.length ≤ FrameScan.maxFrameBytes := by
    rw [show FrameScan.fresh.frame.length = 0 from rfl, Nat.zero_add]
    exact hsz
  have hfl : [chunks.flatten].flatten = chunks.flatten := flatten_singleton
  obtain ⟨-, hl, hv⟩ := usageVisible_chunks silentEnv.codec .openAiResponses hf chunks
    hro
  obtain ⟨-, hl', hv'⟩ := usageVisible_chunks silentEnv.codec .openAiResponses hf
    [chunks.flatten] (by rw [hfl]; exact hro)
  rw [hfl] at hl' hv'
  have hon : framesOfChunks (leftBytes .fresh) [chunks.flatten] = drainFrames chunks.flatten :=
    Prod.ext (append_nil _) rfl
  rw [hon] at hl' hv'
  exact ⟨hv.trans hv'.symm, hl.trans hl'.symm⟩

variable {env format parser}

/-- A stream without a terminal frame leaves the same collector behind, however it came. -/
theorem UsageCollector.Open.eq_of_batched (h : Batched env format tally pre batch last)
    (h' : Batched env format tally pre' batch' single) (hseen : pre ++ batch = pre' ++ batch')
    (hopen : lastOutcome env format (pre ++ batch) = none) (hl : last.Open format)
    (hsingle : single.Open format) (hb : last.scanner.bytes = single.scanner.bytes) :
    last = single := by
  have ht : last.tally = single.tally := by
    rw [h.tally_of_open hopen, h'.tally_of_open (hseen ▸ hopen), hseen]
  have he := hl.enabled.trans hsingle.enabled.symm
  have hou := hl.outcome.trans hsingle.outcome.symm
  have her := hl.error.trans hsingle.error.symm
  obtain ⟨tally, ⟨bs, disabled⟩, out, err⟩ := last
  dsimp only at ht he hou her hb
  rw [ht, hb, he, hou, her]

theorem Batched.report_finalize (h : Batched env format tally pre batch last)
    (hs : (lastOutcome env format (pre ++ batch)).isSome = true) :
    (last.finalize env).report =
      ⟨last.tally.latest, lastOutcome env format (pre ++ batch), lastError env format (pre ++ batch)⟩ := by
  rw [← h.outcome_eq] at hs ⊢
  rw [UsageCollector.finalize, if_pos hs, ← h.error_eq]
  rfl

theorem exists_terminal_of_lastOutcome
    (hs : (lastOutcome env format seen).isSome = true) :
    ∃ frs term, seen = frs ++ [term] ∧ isTerminal env format term = true := by
  rcases eq_nil_or_concat seen with hn | ⟨frs, term, hc⟩
  · rw [hn] at hs
    cases hs
  · rw [concat_eq_append] at hc
    rw [hc, lastOutcome, List.getLast?_concat] at hs
    exact ⟨frs, term, hc, hs⟩

variable (env format)

theorem batched_chunks (parser : UsageParserConfig)
    (hsz : chunks.flatten.length ≤ maxSseFrameBytes) :
    ∃ pre batch, pre ++ batch = seenFields env format (drainFrames chunks.flatten).1 ∧
      (SingleFrames [] chunks → batch.length ≤ 1) ∧
      Batched env format (.initial format parser) pre batch
        ((UsageCollector.withParser format parser).observeAll env chunks) ∧
      (lastOutcome env format (pre ++ batch) = none →
        ((UsageCollector.withParser format parser).observeAll env chunks).Open format ∧
        ((UsageCollector.withParser format parser).observeAll env chunks).scanner.bytes =
          (drainFrames chunks.flatten).2) := by
  obtain ⟨hv, hl⟩ := framesOfChunks_visible hsz
  obtain ⟨pre, batch, hseen, hsingle, hb, hopen⟩ :=
    UsageCollector.batched_observeAll env (UsageCollector.open_withParser format parser) chunks
      (by simpa [UsageCollector.withParser, SseUsageScanner.initial] using hsz)
  refine ⟨pre, batch, ?_, hsingle, hb, fun hn => ?_⟩
  · rw [← hseen, seenFields, seenFields, ← hv]
    rfl
  · rw [← hl]
    exact hopen hn

theorem batched_oneByOne (parser : UsageParserConfig) (hsz : stream.length ≤ maxSseFrameBytes) :
    ∃ pre batch, pre ++ batch = seenFields env format (drainFrames stream).1 ∧ batch.length ≤ 1 ∧
      Batched env format (.initial format parser) pre batch
        ((UsageCollector.withParser format parser).observeAll env (oneByOne stream)) ∧
      (lastOutcome env format (pre ++ batch) = none →
        ((UsageCollector.withParser format parser).observeAll env (oneByOne stream)).Open format ∧
        ((UsageCollector.withParser format parser).observeAll env (oneByOne stream)).scanner.bytes =
          (drainFrames stream).2) := by
  have hl : (oneByOne stream).flatten.length ≤ maxSseFrameBytes := by
    rw [flatten_oneByOne]
    exact hsz
  obtain ⟨pre, batch, hseen, hsingle, hr⟩ := batched_chunks env format parser hl
  rw [flatten_oneByOne] at hseen hr
  exact ⟨pre, batch, hseen, hsingle (singleFrames_oneByOne stream), hr⟩

theorem batched_one_chunk (parser : UsageParserConfig) (hsz : stream.length ≤ maxSseFrameBytes) :
    Batched env format (.initial format parser) [] (seenFields env format (drainFrames stream).1)
      ((UsageCollector.withParser format parser).observeAll env [stream]) :=
  UsageCollector.batched_observe (UsageCollector.open_withParser format parser)
    (by simpa [UsageCollector.withParser, SseUsageScanner.initial] using hsz)

variable {env format}

section Report

variable {parser : UsageParserConfig} {stream : Bytes} (hsz : stream.length ≤ maxSseFrameBytes)
include hsz

variable {chunks : List Bytes}

theorem streamReport_of_terminal (hc : chunks.flatten = stream)
    (hs : (lastOutcome env format (seenFields env format (drainFrames stream).1)).isSome = true) :
    streamReport env format parser chunks =
      ⟨((UsageCollector.withParser format parser).observeAll env chunks).tally.latest,
        lastOutcome env format (seenFields env format (drainFrames stream).1),
        lastError env format (seenFields env format (drainFrames stream).1)⟩ := by
  subst hc
  obtain ⟨pre, batch, hseen, -, hb, -⟩ := batched_chunks env format parser hsz
  rw [← hseen] at hs ⊢
  exact hb.report_finalize hs

theorem streamReport_of_open (hc : chunks.flatten = stream)
    (hn : lastOutcome env format (seenFields env format (drainFrames stream).1) = none) :
    streamReport env format parser chunks = streamReport env format parser (oneByOne stream) := by
  subst hc
  obtain ⟨pre, batch, hseen, -, hb, hopen⟩ := batched_chunks env format parser hsz
  obtain ⟨pre', batch', hs', -, hb', ho'⟩ := batched_oneByOne env format parser hsz
  obtain ⟨hl, hby⟩ := hopen (hseen ▸ hn)
  obtain ⟨hsingle, hby'⟩ := ho' (hs' ▸ hn)
  unfold streamReport
  rw [UsageCollector.Open.eq_of_batched hb hb' (hseen.trans hs'.symm) (hseen ▸ hn)
    hl hsingle (hby.trans hby'.symm)]

theorem tally_oneByOne
    (hseen : seenFields env format (drainFrames stream).1 = frs ++ [term])
    (hte : isTerminal env format term = true) :
    ((UsageCollector.withParser format parser).observeAll env (oneByOne stream)).tally =
      ((UsageTally.initial format parser).record env.codec false (values env format frs)).record
        env.codec true (observeFields env format term).value.toList := by
  obtain ⟨pre, batch, hba, hsingle, hb, -⟩ := batched_oneByOne env format parser hsz
  exact hb.tally_of_single hte (hba.trans hseen) hsingle

/-- Fed one by one, only the frames seen matter, and the bytes behind them while none is terminal. -/
theorem streamReport_oneByOne_congr {o : Bytes} (hot : o.length ≤ maxSseFrameBytes)
    (hseen : seenFields env format (drainFrames o).1 = seenFields env format (drainFrames stream).1)
    (hr : (lastOutcome env format (seenFields env format (drainFrames stream).1)).isSome = true ∨
      (drainFrames o).2 = (drainFrames stream).2) :
    streamReport env format parser (oneByOne o) = streamReport env format parser (oneByOne stream) := by
  cases hl : lastOutcome env format (seenFields env format (drainFrames stream).1) with
  | some out =>
    have hs := isSome_of_eq_some hl
    obtain ⟨frs, term, hc, hte⟩ := exists_terminal_of_lastOutcome hs
    rw [streamReport_of_terminal hsz (flatten_oneByOne stream) hs,
      streamReport_of_terminal hot (flatten_oneByOne o) (hseen ▸ hs),
      tally_oneByOne hsz hc hte, tally_oneByOne hot (hseen.trans hc) hte, hseen]
  | none =>
    obtain ⟨pre, batch, hb, -, hba, hopen⟩ := batched_oneByOne env format parser hot
    obtain ⟨pre', batch', hb', -, hba', ho'⟩ := batched_oneByOne env format parser hsz
    rw [hl] at hr
    have ht := hr.resolve_left false_ne_true
    have hn : lastOutcome env format (pre ++ batch) = none := by rw [hb, hseen, hl]
    obtain ⟨hl', hby⟩ := hopen hn
    obtain ⟨hsingle, hby'⟩ := ho' (by rw [hb', hl])
    unfold streamReport
    rw [UsageCollector.Open.eq_of_batched hba hba' (by rw [hb, hseen, hb']) hn
      hl' hsingle (by rw [hby, hby', ht])]

/-- A late usage shows when the whole stream comes in one chunk. -/
theorem streamReport_ne_of_late (hl : LateUsage env format (.initial format parser)
      (seenFields env format (drainFrames stream).1)) :
    streamReport env format parser [stream] ≠ streamReport env format parser (oneByOne stream) := by
  obtain ⟨frs, term, earlier, v, hseen, hte, hsi⟩ := hl
  obtain ⟨pre, batch, hba, hsingle, hb, -⟩ := batched_oneByOne env format parser hsz
  have hs : (lastOutcome env format (seenFields env format (drainFrames stream).1)).isSome = true := by
    rw [hseen, lastOutcome, List.getLast?_concat]
    exact hte
  rw [streamReport_of_terminal hsz flatten_singleton hs,
    streamReport_of_terminal hsz (flatten_oneByOne stream) hs]
  intro heq
  exact (batched_one_chunk env format parser hsz).latest_ne hb hsingle hte
    ((nil_append _).trans hseen) (hba.trans hseen) rfl
    ⟨frs, term, earlier, v, rfl, hte, hsi⟩ (congrArg UsageCollector.Report.usage heq)

theorem streamReport_eq_of_not_late (hc : chunks.flatten = stream)
    (hla : ¬LateUsage env format (.initial format parser)
      (seenFields env format (drainFrames stream).1)) :
    streamReport env format parser chunks = streamReport env format parser (oneByOne stream) := by
  cases hl : lastOutcome env format (seenFields env format (drainFrames stream).1) with
  | none => exact streamReport_of_open hsz hc hl
  | some out =>
    have hs := isSome_of_eq_some hl
    obtain ⟨frs, term, hco, hte⟩ := exists_terminal_of_lastOutcome hs
    obtain ⟨pre', batch', hba', hsingle, hb', -⟩ := batched_oneByOne env format parser hsz
    rw [streamReport_of_terminal hsz hc hs,
      streamReport_of_terminal hsz (flatten_oneByOne stream) hs]
    subst hc
    obtain ⟨pre, batch, hba, -, hb, -⟩ := batched_chunks env format parser hsz
    rw [hb.latest_eq hb' hsingle hte (hba.trans hco) (hba'.trans hco) (hco ▸ hla)]

end Report

/-- Within the size limit the outcome and the error details do not depend on the chunks. The usage is
that of the frames fed one by one for every grouping, exactly if the stream has no late usage; fed one
by one, frames behind the first terminal one do not matter. -/
theorem grouping_matters_only_for_late_usage (env : UsageEnv) (format : ApiFormat)
    (parser : UsageParserConfig) (stream : Bytes) (hsize : stream.length ≤ maxSseFrameBytes) :
    let seen := seenFields env format (drainFrames stream).1
    let reference := streamReport env format parser (oneByOne stream)
    (∀ chunks : List Bytes, chunks.flatten = stream →
      (streamReport env format parser chunks).outcome = reference.outcome ∧
      (streamReport env format parser chunks).error = reference.error) ∧
    ((∀ chunks : List Bytes, chunks.flatten = stream →
        streamReport env format parser chunks = reference) ↔
      ¬LateUsage env format (.initial format parser) seen) ∧
    ∀ other : Bytes, other.length ≤ maxSseFrameBytes →
      seenFields env format (drainFrames other).1 = seen →
      ((lastOutcome env format seen).isSome = true ∨ (drainFrames other).2 = (drainFrames stream).2) →
      streamReport env format parser (oneByOne other) = reference := by
  intro seen reference
  refine ⟨fun chunks hc => ?_, ⟨fun ha hl => ?_, fun hl chunks hc => ?_⟩, ?_⟩
  · cases hla : lastOutcome env format seen with
    | none =>
      rw [streamReport_of_open hsize hc hla]
      exact ⟨rfl, rfl⟩
    | some outcome =>
      have hs : (lastOutcome env format seen).isSome = true := by rw [hla]; rfl
      have hr : reference = _ := streamReport_of_terminal hsize (flatten_oneByOne stream) hs
      rw [streamReport_of_terminal hsize hc hs, hr]
      exact ⟨rfl, rfl⟩
  · exact streamReport_ne_of_late hsize hl (ha [stream] flatten_singleton)
  · exact streamReport_eq_of_not_late hsize hc hl
  · exact fun other hot hseen hre => streamReport_oneByOne_congr hsize hot hseen hre

/-- A chat event with its usage; the last of a response has no choices. -/
def usageEvent (tokens : ℕ) (last : Bool) : Json :=
  .object ((if last then [(utf8 "choices", .array [])] else []) ++
    [(utf8 "usage", .object [(utf8 "completion_tokens", .number (.int tokens)),
      (utf8 "prompt_tokens", .number (.int tokens))])])

def summaryText : String :=
  "\x7b\"choices\":[],\"usage\":\x7b\"completion_tokens\":1,\"prompt_tokens\":1\x7d\x7d"

def countText : String := "\x7b\"usage\":\x7b\"completion_tokens\":2,\"prompt_tokens\":2\x7d\x7d"

def lateEnv : UsageEnv := .ofValues [usageEvent 1 true, usageEvent 2 false]

def summaryFrame : Bytes := utf8 ("data: " ++ summaryText ++ "\n\n")

def countFrame : Bytes := utf8 ("data: " ++ countText ++ "\n\n")

def doneFrame : Bytes := utf8 "data: [DONE]\n\n"

theorem grouping_matters_only_for_late_usage_done :
    (summaryFrame ++ doneFrame).length ≤ maxSseFrameBytes ∧
    ∀ chunks : List Bytes, chunks.flatten = summaryFrame ++ doneFrame →
      streamReport lateEnv .openAiChatCompletions (.general .openAiChatCompletions) chunks =
        streamReport lateEnv .openAiChatCompletions (.general .openAiChatCompletions)
          (oneByOne (summaryFrame ++ doneFrame)) := by
  have hsize : (summaryFrame ++ doneFrame).length ≤ maxSseFrameBytes := by decide +kernel
  have hseen : seenFields lateEnv .openAiChatCompletions (drainFrames (summaryFrame ++ doneFrame)).1 =
      [⟨none, some (utf8 summaryText)⟩, ⟨none, some (utf8 "[DONE]")⟩] := by
    decide +kernel
  have hv : values lateEnv .openAiChatCompletions [⟨none, some (utf8 summaryText)⟩] =
      [usageEvent 1 true] := by
    decide +kernel
  refine ⟨hsize, (grouping_matters_only_for_late_usage lateEnv .openAiChatCompletions
    (.general .openAiChatCompletions) _ hsize).2.1.mpr ?_⟩
  rintro ⟨frames, terminal, earlier, value, hs, -, -, hc, hov⟩
  rw [hseen] at hs
  obtain ⟨rfl, -⟩ := append_inj' (show [_] ++ [_] = frames ++ [terminal] from hs) rfl
  obtain ⟨rfl, -⟩ := append_inj' (show [] ++ [_] = earlier ++ [value] from hv.symm.trans hc) rfl
  cases hov.1

/-- A usage between the summary and the end marker: together with the marker it is reported, in a chunk
of its own the summary is. -/
theorem late_usage_depends_on_chunks :
    (summaryFrame ++ countFrame ++ doneFrame).length ≤ maxSseFrameBytes ∧
    oneByOne (summaryFrame ++ countFrame ++ doneFrame) = [summaryFrame, countFrame, doneFrame, []] ∧
    ((streamReport lateEnv .openAiChatCompletions (.general .openAiChatCompletions)
      [summaryFrame, countFrame, doneFrame, []]).usage.map (·.inputTokens.value)) = some 1 ∧
    ((streamReport lateEnv .openAiChatCompletions (.general .openAiChatCompletions)
      [summaryFrame, countFrame ++ doneFrame]).usage.map (·.inputTokens.value)) = some 2 := by
  refine ⟨?_, ?_, ?_, ?_⟩ <;> decide +kernel

end Batched

end AiGateway.Usage
