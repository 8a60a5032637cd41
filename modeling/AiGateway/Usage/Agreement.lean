import AiGateway.Usage.Collector
import Mathlib.Data.UInt

/-! The frames the collector observes are frames of the transformer. -/
namespace AiGateway.Usage
open List Bool

open Lib Domain Transforms

section TakeThrough

variable {α : Type}

/-- The elements up to the first one with the property, and that one. -/
def takeThrough (p : α → Bool) : List α → List α
  | [] => []
  | a :: l => if p a then [a] else a :: takeThrough p l

theorem takeThrough_append (p : α → Bool) (first second : List α) :
    takeThrough p (first ++ second) =
      if first.any p then takeThrough p first else first ++ takeThrough p second := by
  induction first with
  | nil => rfl
  | cons a first ih =>
    rw [cons_append, takeThrough, takeThrough, any_cons]
    by_cases ha : p a = true
    · simp [ha]
    · simp only [ha, Bool.false_eq_true, if_false, Bool.false_or, ih]
      split_ifs <;> rfl

theorem takeThrough_of_not_any {p : α → Bool} {l : List α} (h : l.any p = false) :
    takeThrough p l = l := by
  have ha := takeThrough_append p l []
  rw [append_nil, h, if_neg Bool.false_ne_true] at ha
  rw [ha]
  exact append_nil l

theorem takeThrough_map {β : Type} (p : β → Bool) (f : α → β) (l : List α) :
    (takeThrough (fun a => p (f a)) l).map f = takeThrough p (l.map f) := by
  induction l with
  | nil => rfl
  | cons a l ih =>
    rw [map_cons, takeThrough, takeThrough]
    split_ifs
    · rfl
    · rw [map_cons, ih]

theorem takeThrough_filter {p q : α → Bool} (h : ∀ a, p a = true → q a = true) (l : List α) :
    (takeThrough p l).filter q = takeThrough p (l.filter q) := by
  induction l with
  | nil => rfl
  | cons a l ih =>
    rw [takeThrough]
    by_cases hp : p a = true
    · simp [hp, h a hp, takeThrough]
    · by_cases hq : q a = true
      · simp [hp, hq, takeThrough, ih]
      · simp [hp, hq, ih]

end TakeThrough

section Scan

variable (env : UsageEnv) (format : ApiFormat)

def isTerminal (fields : SseFields) : Bool := (observeFields env format fields).terminalOutcome.isSome

theorem isVisible_of_isTerminal {fields : SseFields} (h : isTerminal env format fields = true) :
    isVisible fields = true := by
  obtain ⟨ev, data⟩ := fields
  cases ev with
  | some ev => rfl
  | none =>
    cases data with
    | some data => rfl
    | none =>
      have hd : ([] : Bytes) ≠ utf8 "[DONE]" := by decide
      simp [isTerminal, observeFields, eventFailed, eventCompleted, hd] at h

theorem scanBuffer_of_none {bs : Bytes} (h : sseFrameEnd bs = none) :
    scanBuffer env format bs = ⟨[], [], none, none, bs⟩ := by
  rw [scanBuffer]
  split
  · rfl
  · rename_i hs
    rw [h] at hs
    cases hs

theorem scanBuffer_of_some {bs : Bytes} {size : ℕ} (h : sseFrameEnd bs = some size) :
    scanBuffer env format bs =
      if isTerminal env format (usageFields (bs.take size)) then
        ⟨[bs.take size], (observeSseFrame env format (bs.take size)).value.toList,
          (observeSseFrame env format (bs.take size)).terminalOutcome,
          (observeSseFrame env format (bs.take size)).error, bs.drop size⟩
      else
        ⟨bs.take size :: (scanBuffer env format (bs.drop size)).frames,
          (observeSseFrame env format (bs.take size)).value.toList ++
            (scanBuffer env format (bs.drop size)).values,
          (scanBuffer env format (bs.drop size)).terminalOutcome,
          (scanBuffer env format (bs.drop size)).error,
          (scanBuffer env format (bs.drop size)).rest⟩ := by
  rw [scanBuffer]
  split
  · rename_i hn
    rw [h] at hn
    cases hn
  · rename_i size' hs
    rw [h] at hs
    cases hs
    rfl

/-- A scan observes the frames of the buffer up to the first terminal one. -/
theorem frames_scanBuffer (bs : Bytes) :
    (scanBuffer env format bs).frames =
        takeThrough (fun fr => isTerminal env format (usageFields fr)) (drainFrames bs).1 ∧
      (scanBuffer env format bs).terminalOutcome.isSome =
        (drainFrames bs).1.any (fun fr => isTerminal env format (usageFields fr)) ∧
      ((scanBuffer env format bs).terminalOutcome = none →
        (scanBuffer env format bs).rest = (drainFrames bs).2) := by
  induction bs using frame_induction with
  | last bs he =>
    rw [scanBuffer_of_none env format he, drainFrames_of_none he]
    exact ⟨rfl, rfl, fun _ => rfl⟩
  | frame bs size he ih =>
    obtain ⟨hf, houtcome, hr⟩ := ih
    rw [scanBuffer_of_some env format he, drainFrames_of_some he]
    by_cases ht : isTerminal env format (usageFields (bs.take size)) = true
    · rw [if_pos ht]
      refine ⟨?_, ?_, fun hn => ?_⟩
      · rw [takeThrough, if_pos ht]
      · rw [any_cons, ht, Bool.true_or]
        exact ht
      · rw [isTerminal, show (observeFields env format _).terminalOutcome = none from hn] at ht
        cases ht
    · have hfr := eq_false_iff.mpr ht
      rw [if_neg ht]
      refine ⟨?_, ?_, hr⟩
      · rw [takeThrough, if_neg ht, ← hf]
      · rw [any_cons, hfr, Bool.false_or]
        exact houtcome

end Scan

section Collector

namespace UsageTally

variable (codec : JsonCodec)

theorem recordValue_apiFormat (tally : UsageTally) (v : Json) (summary : Bool) :
    (tally.recordValue codec v summary).apiFormat = tally.apiFormat := by
  unfold recordValue recordSource
  cases usageObject v with
  | none => rfl
  | some src =>
    dsimp only
    split_ifs <;> rfl

theorem apiFormat_record (term : Bool) (tally : UsageTally) (vs : List Json) :
    (tally.record codec term vs).apiFormat = tally.apiFormat := by
  induction vs generalizing tally with
  | nil => rfl
  | cons v vs ih =>
    rw [record, ih]
    exact recordValue_apiFormat codec tally v _

end UsageTally

namespace UsageCollector

variable (env : UsageEnv)

def framesSeen : UsageCollector → List Bytes → List Bytes
  | _, [] => []
  | collector, chunk :: chunks =>
    (if collector.sseTerminalOutcome.isSome then []
      else (collector.scanner.push env collector.tally.apiFormat chunk).1.frames) ++
      framesSeen (collector.observe env chunk) chunks

variable {col : UsageCollector}

theorem observe_of_terminal (h : col.sseTerminalOutcome.isSome = true) (chunk : Bytes) :
    col.observe env chunk = col := by
  rw [observe, if_pos h]

theorem framesSeen_of_terminal
    (h : col.sseTerminalOutcome.isSome = true) (chunks : List Bytes) :
    col.framesSeen env chunks = [] := by
  induction chunks with
  | nil => rfl
  | cons chunk chunks ih =>
    rw [framesSeen, if_pos h, observe_of_terminal env h, ih]
    rfl

theorem push_of_room {scanner : SseUsageScanner} (henabled : scanner.disabled = false)
    (format : ApiFormat) {chunk : Bytes}
    (hr : scanner.bytes.length + chunk.length ≤ maxSseFrameBytes) :
    scanner.push env format chunk = (scanBuffer env format (scanner.bytes ++ chunk),
      ⟨(scanBuffer env format (scanner.bytes ++ chunk)).rest, false⟩) := by
  rw [SseUsageScanner.push, henabled, if_neg Bool.false_ne_true, if_neg (by omega)]

variable (houtcome : col.sseTerminalOutcome = none)
  (henabled : col.scanner.disabled = false)
include houtcome henabled

theorem observe_of_room {chunk : Bytes} {scan : BufferScan}
    (hs : scanBuffer env col.tally.apiFormat (col.scanner.bytes ++ chunk) = scan)
    (hr : col.scanner.bytes.length + chunk.length ≤ maxSseFrameBytes) :
    col.observe env chunk =
      ⟨col.tally.record env.codec scan.terminalOutcome.isSome scan.values, ⟨scan.rest, false⟩,
        scan.terminalOutcome, scan.error⟩ := by
  have hn : ¬col.sseTerminalOutcome.isSome = true := by rw [houtcome]; decide
  rw [observe, if_neg hn, push_of_room env henabled _ hr, hs]

/-- Within the size limit the collector observes the frames of its framer up to the first terminal
one. -/
theorem framesSeen_eq (chunks : List Bytes)
    (hro : col.scanner.bytes.length + chunks.flatten.length ≤ maxSseFrameBytes) :
    col.framesSeen env chunks =
      takeThrough (fun fr => isTerminal env col.tally.apiFormat (usageFields fr))
        (framesOfChunks col.scanner.bytes chunks).1 := by
  induction chunks generalizing col with
  | nil => rfl
  | cons chunk chunks ih =>
    rw [flatten_cons, length_append] at hro
    have hc : col.scanner.bytes.length + chunk.length ≤ maxSseFrameBytes := by omega
    obtain ⟨hf, ht, hr⟩ :=
      frames_scanBuffer env col.tally.apiFormat (col.scanner.bytes ++ chunk)
    generalize hsc :
      scanBuffer env col.tally.apiFormat (col.scanner.bytes ++ chunk) = scan at *
    have hn : ¬col.sseTerminalOutcome.isSome = true := by rw [houtcome]; decide
    rw [framesSeen, if_neg hn, push_of_room env henabled _ hc, hsc,
      observe_of_room env houtcome henabled hsc hc, framesOfChunks, takeThrough_append, hf,
      ← ht]
    by_cases hs : scan.terminalOutcome.isSome = true
    · rw [if_pos hs, framesSeen_of_terminal env hs, append_nil]
    · have hop : scan.terminalOutcome = none := by simpa using hs
      have hl := length_drainFrames_le (col.scanner.bytes ++ chunk)
      rw [length_append] at hl
      rw [if_neg hs, takeThrough_of_not_any (by rw [← ht]; simpa using hs),
        ih hop rfl (by dsimp only; rw [hr hop]; omega)]
      rw [UsageTally.apiFormat_record, hr hop]

end UsageCollector

end Collector

section Agreement

variable {format : ApiFormat}

/-- The frames a transformer cuts do not depend on its plan, which can only end the run early. -/
theorem originals_drain (codec : JsonCodec) (plan : SseEventPatchPlan format) (scan : FrameScan)
    (src : Bytes) :
    let run := SseTransformer.drain codec ⟨plan, scan, some src⟩
    run.emitted.map TransformedFrame.original <+:
        framerFrames format (framerRun codec format scan src) ∧
      (run.failure = none → run.emitted.map TransformedFrame.original =
        framerFrames format (framerRun codec format scan src)) := by
  refine drain_induction codec plan
    (motive := fun scan src run =>
      run.emitted.map TransformedFrame.original <+:
          framerFrames format (framerRun codec format scan src) ∧
        (run.failure = none → run.emitted.map TransformedFrame.original =
          framerFrames format (framerRun codec format scan src))) ?_ ?_ ?_ ?_ scan src
  · intro scan src next hc
    refine ⟨ nil_prefix, fun _ => ?_⟩
    rw [framerRun, drain_of_drained hc]
    rfl
  · intro scan src next rest hc
    refine ⟨ nil_prefix, fun hn => ?_⟩
    cases hn
  · intro scan src orig rest err hc hf
    refine ⟨ nil_prefix, fun hn => ?_⟩
    cases hn
  · intro scan src orig rest bs run hc hf hr ih
    rw [framerRun, drain_of_complete_ok hc (transformSseFrame_empty codec format orig)]
    refine ⟨cons_prefix_cons.mpr ⟨rfl, ih.1⟩, fun hn => ?_⟩
    exact congrArg (orig :: ·) (ih.2 hn)

theorem originals_runChunks (codec : JsonCodec) (plan : SseEventPatchPlan format)
    (chunks : List Bytes) :
    let run := SseTransformer.runChunks codec (.new plan) chunks
    run.emitted.map TransformedFrame.original <+:
        framerFrames format (framerRun codec format .fresh chunks.flatten) ∧
      (run.failure = none → run.emitted.map TransformedFrame.original =
        framerFrames format (framerRun codec format .fresh chunks.flatten)) := by
  have hr : (SseTransformer.runChunks codec (.new plan) chunks).observed = _ :=
    observed_runChunks .fresh chunks
  have hd := originals_drain codec plan .fresh chunks.flatten
  simp only [StreamRun.observed, Prod.mk.injEq] at hr
  obtain ⟨he, hf, -⟩ := hr
  dsimp only at hd ⊢
  rw [he, hf]
  exact hd

/-- A frame that is held back ends in a CR. -/
theorem getLast_of_heldFrames {scan : FrameScan} (hr : Reached scan)
    (hh : heldFrames scan ≠ []) : scan.frame.getLast? = some 13 := by
  have hen : endsFrame scan = true := by
    by_contra hop
    exact hh (by rw [heldFrames, if_neg hop])
  have hp : scan.pendingCr = true := (and_eq_true_iff.mp hen).1
  rcases getLast_of_pendingCr hr hp with he | hl
  · rw [Reached, he] at hr
    cases hr
    cases hp
  · exact hl

/-- Within the size limit the usage collector's framer and the transformer's show the same events and
data, except for a last frame whose blank line is a CR at the end of the stream, which the
transformer holds back. The collector stops at the first terminal frame. -/
theorem framers_agree_up_to_last_cr (env : UsageEnv) (format : ApiFormat) (parser : UsageParserConfig)
    (chunks : List Bytes) (hsize : chunks.flatten.length ≤ maxSseFrameBytes) :
    let run := SseTransformer.runChunks env.codec (.new (SseEventPatchPlan.empty format)) chunks
    let held := heldFrames run.transformer.scan
    run.failure = none ∧
    usageVisible (framesOfChunks [] chunks).1 = visible (framerFrames format run ++ held) ∧
    usageVisible ((UsageCollector.withParser format parser).framesSeen env chunks) =
      takeThrough (isTerminal env format) (visible (framerFrames format run ++ held)) ∧
    (held = [] ∨ held = [run.transformer.finish.getD []] ∧ chunks.flatten.getLast? = some 13) ∧
    ∀ plan : SseEventPatchPlan format,
      let other := SseTransformer.runChunks env.codec (.new plan) chunks
      other.emitted.map TransformedFrame.original <+: framerFrames format run ∧
        (other.failure = none →
          other.emitted.map TransformedFrame.original = framerFrames format run) := by
  have hro : FrameScan.fresh.frame.length + chunks.flatten.length ≤ FrameScan.maxFrameBytes := by
    rw [show FrameScan.fresh.frame.length = 0 from rfl, Nat.zero_add]
    exact hsize
  have hfs : Reached .fresh := rfl
  obtain ⟨hf, -, hv⟩ := usageVisible_chunks env.codec format hfs chunks hro
  have hru : (SseTransformer.runChunks env.codec (.new (SseEventPatchPlan.empty format))
      chunks).observed = (framerRun env.codec format .fresh chunks.flatten).observed :=
    observed_runChunks .fresh chunks
  simp only [StreamRun.observed, Prod.mk.injEq] at hru
  obtain ⟨he, hs, hsc⟩ := hru
  intro run held
  have hfr : framerFrames format run =
      framerFrames format (framerRun env.codec format .fresh chunks.flatten) := by
    rw [framerFrames, he]
    rfl
  have hc : usageVisible (framesOfChunks [] chunks).1 = visible (framerFrames format run ++ held) := by
    rw [hfr, show held = _ from congrArg heldFrames hsc]
    exact hv
  refine ⟨hs.trans hf, hc, ?_, ?_, fun plan => ?_⟩
  · have hem : (UsageCollector.withParser format parser).scanner.bytes.length +
        chunks.flatten.length ≤ maxSseFrameBytes := by
      rw [show (UsageCollector.withParser format parser).scanner.bytes.length = 0 from rfl,
        Nat.zero_add]
      exact hsize
    have hse : (UsageCollector.withParser format parser).framesSeen env chunks =
        takeThrough (fun frame => isTerminal env format (usageFields frame))
          (framesOfChunks [] chunks).1 := UsageCollector.framesSeen_eq env rfl rfl chunks hem
    rw [hse, usageVisible, takeThrough_map (isTerminal env format) usageFields,
      takeThrough_filter (fun fields => isVisible_of_isTerminal env format), ← hc]
    rfl
  · by_cases hh : held = []
    · exact .inl hh
    · have hr : Reached run.transformer.scan := by
        rw [hsc]
        exact (drainFrames_eq_framerRun env.codec format chunks.flatten hsize).2.1
      have ha : run.Accounts env.codec _ chunks.flatten :=
        accounts_runChunks env.codec (SseEventPatchPlan.empty format) chunks
      obtain ⟨left, hle, hed⟩ := ha.bytes
      have hl := getLast_of_heldFrames hr hh
      refine .inr ⟨?_, ?_⟩
      · rw [getD_finish]
        change heldFrames run.transformer.scan = _
        rw [heldFrames]
        by_cases hen : endsFrame run.transformer.scan = true
        · rw [if_pos hen]
        · exact absurd (show held = [] by change heldFrames _ = _; rw [heldFrames, if_neg hen]) hh
      · rw [← hle, hed (hs.trans hf), List.getLast?_append, hl]
        rfl
  · have hor := originals_runChunks env.codec plan chunks
    rw [← hfr] at hor
    exact hor

/-- For streams without JSON. -/
def silentEnv : UsageEnv := .ofValues []

/-- A chunk border inside the CRLF of a blank line: the collector cuts early and both see one event. -/
theorem framers_agree_up_to_last_cr_split :
    [utf8 "data: x\r\n\r", utf8 "\n"].flatten.length ≤ maxSseFrameBytes ∧
    usageVisible (framesOfChunks [] [utf8 "data: x\r\n\r", utf8 "\n"]).1 =
      visible (framerFrames .openAiResponses (SseTransformer.runChunks silentEnv.codec
          (.new (SseEventPatchPlan.empty .openAiResponses))
          [utf8 "data: x\r\n\r", utf8 "\n"]) ++
        heldFrames (SseTransformer.runChunks silentEnv.codec
          (.new (SseEventPatchPlan.empty .openAiResponses))
          [utf8 "data: x\r\n\r", utf8 "\n"]).transformer.scan) :=
  have hs : [utf8 "data: x\r\n\r", utf8 "\n"].flatten.length ≤ maxSseFrameBytes := by decide
  ⟨hs, (framers_agree_up_to_last_cr silentEnv .openAiResponses (.general .openAiResponses)
    [utf8 "data: x\r\n\r", utf8 "\n"] hs).2.1⟩

/-- A stream that ends in a CR: the collector has seen the terminal event, the transformer has cut no
frame. -/
theorem last_cr_separates_framers :
    [utf8 "data: [DONE]\r\r"].flatten.length ≤ maxSseFrameBytes ∧
    usageVisible ((UsageCollector.withParser .openAiResponses (.general .openAiResponses)).framesSeen
      silentEnv [utf8 "data: [DONE]\r\r"]) = [⟨none, some (utf8 "[DONE]")⟩] ∧
    visible (framerFrames .openAiResponses (SseTransformer.runChunks silentEnv.codec
      (.new (SseEventPatchPlan.empty .openAiResponses)) [utf8 "data: [DONE]\r\r"])) = [] := by
  refine ⟨by decide, ?_, ?_⟩ <;> decide +kernel

end Agreement

end AiGateway.Usage
