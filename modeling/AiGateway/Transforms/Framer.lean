import AiGateway.Transforms.Frame

/-! The frames a transformer cuts from a stream that arrives in chunks. -/
namespace AiGateway.Transforms
open List Option

open Lib Lib.Stage Domain

/-- The unfinished frame, whether its last line has content, and whether that line ended in a CR whose
successor is not known yet. -/
structure FrameScan where
  frame : Bytes
  lineHasContent : Bool
  pendingCr : Bool
  deriving DecidableEq

namespace FrameScan

def maxFrameBytes : ℕ := 8 * 1024 * 1024

def fresh : FrameScan := ⟨[], false, false⟩

def append (scan : FrameScan) (byte : UInt8) : Option FrameScan :=
  if scan.frame.length = maxFrameBytes then none
  else some ⟨scan.frame ++ [byte], scan.lineHasContent, scan.pendingCr⟩

end FrameScan

/-- What one byte of the source does; a frame can be complete before the byte is taken. -/
inductive ScanStep where
  | more (scan : FrameScan)
  | complete (original : Bytes) (taken : Bool)
  | tooLarge (scan : FrameScan)

namespace FrameScan

/-- A line ended: a blank one completes the frame. -/
def finishLine (scan : FrameScan) (taken : Bool) : ScanStep :=
  if scan.lineHasContent then .more ⟨scan.frame, false, scan.pendingCr⟩
  else .complete scan.frame taken

/-- Takes a byte that is not the second half of a CRLF. -/
def take (scan : FrameScan) (byte : UInt8) : ScanStep :=
  match scan.append byte with
  | none => .tooLarge scan
  | some scan =>
    if byte = 10 then scan.finishLine true
    else if byte = 13 then .more ⟨scan.frame, scan.lineHasContent, true⟩
    else .more ⟨scan.frame, true, scan.pendingCr⟩

def step (scan : FrameScan) (byte : UInt8) : ScanStep :=
  if scan.pendingCr then
    -- a CR is resolved before its successor is taken
    let scan : FrameScan := ⟨scan.frame, scan.lineHasContent, false⟩
    if byte = 10 then
      match scan.append byte with
      | none => .tooLarge scan
      | some scan => scan.finishLine true
    else
      match scan.finishLine false with
      | .more scan => scan.take byte
      | done => done
  else scan.take byte

end FrameScan

inductive Cut where
  | drained (scan : FrameScan)
  | complete (original rest : Bytes)
  | tooLarge (scan : FrameScan) (rest : Bytes)

def cutFrame : FrameScan → Bytes → Cut
  | scan, [] => .drained scan
  | scan, byte :: rest =>
    match scan.step byte with
    | .more scan => cutFrame scan rest
    | .complete original true => .complete original rest
    | .complete original false => .complete original (byte :: rest)
    | .tooLarge scan => .tooLarge scan (byte :: rest)

/-- The source is the chunk from the offset on. -/
structure SseTransformer (format : ApiFormat) where
  plan : SseEventPatchPlan format
  scan : FrameScan
  source : Option Bytes

/-- The bytes handed on, and those they were made of. -/
structure TransformedFrame where
  original : Bytes
  bytes : Bytes
  deriving DecidableEq

namespace SseTransformer

variable {format : ApiFormat}

def new (plan : SseEventPatchPlan format) : SseTransformer format := ⟨plan, .fresh, none⟩

/-- Supplies a chunk after the one before was drained. -/
def push (transformer : SseTransformer format) (bytes : Bytes) : SseTransformer format :=
  ⟨transformer.plan, transformer.scan, some bytes⟩

def nextFrame (codec : JsonCodec) (transformer : SseTransformer format) :
    Except TransformApplyError (Option TransformedFrame) × SseTransformer format :=
  match transformer.source with
  | none => (.ok none, transformer)
  | some source =>
    match cutFrame transformer.scan source with
    | .drained scan => (.ok none, ⟨transformer.plan, scan, none⟩)
    | .tooLarge scan rest => (.error .sseFrameTooLarge, ⟨transformer.plan, scan, some rest⟩)
    | .complete original rest =>
      ((transformSseFrame codec original transformer.plan).map
        (fun bytes => some ⟨original, bytes⟩), ⟨transformer.plan, .fresh, some rest⟩)

def finish (transformer : SseTransformer format) : Option Bytes :=
  if transformer.scan.frame.isEmpty then none else some transformer.scan.frame

end SseTransformer

section Step

open FrameScan

/-- A step keeps every byte, in order, and takes no byte beyond the limit. -/
def ScanStep.Accounts (scan : FrameScan) (byte : UInt8) : ScanStep → Prop
  | .more next => next.frame = scan.frame ++ [byte] ∧ scan.frame.length ≠ maxFrameBytes
  | .complete original true => original = scan.frame ++ [byte] ∧ scan.frame.length ≠ maxFrameBytes
  | .complete original false => original = scan.frame ∧ scan.pendingCr = true
  | .tooLarge next => next.frame = scan.frame

theorem accounts_take (scan : FrameScan) (byte : UInt8) : (scan.take byte).Accounts scan byte := by
  unfold FrameScan.take FrameScan.append
  by_cases hf : scan.frame.length = maxFrameBytes
  · rw [if_pos hf]
    rfl
  · rw [if_neg hf]
    dsimp only
    split_ifs
    · unfold finishLine
      split_ifs
      · exact ⟨rfl, hf⟩
      · exact ⟨rfl, hf⟩
    · exact ⟨rfl, hf⟩
    · exact ⟨rfl, hf⟩

theorem accounts_step (scan : FrameScan) (byte : UInt8) : (scan.step byte).Accounts scan byte := by
  obtain ⟨fr, lineHasContent, pendingCr⟩ := scan
  cases pendingCr with
  | false => exact accounts_take ⟨fr, lineHasContent, false⟩ byte
  | true =>
    by_cases hlf : byte = 10
    · by_cases hf : fr.length = maxFrameBytes
      · simp [FrameScan.step, hlf, FrameScan.append, hf, ScanStep.Accounts]
      · cases lineHasContent <;>
          simp [FrameScan.step, hlf, FrameScan.append, hf, finishLine, ScanStep.Accounts]
    · cases lineHasContent with
      | false => simp [FrameScan.step, hlf, finishLine, ScanStep.Accounts]
      | true =>
        have ht := accounts_take ⟨fr, false, false⟩ byte
        have hs : FrameScan.step ⟨fr, true, true⟩ byte = FrameScan.take ⟨fr, false, false⟩ byte := by
          simp [FrameScan.step, hlf, finishLine]
        rw [hs]
        -- a take never completes a frame without the byte
        cases hc : FrameScan.take ⟨fr, false, false⟩ byte with
        | more next => rwa [hc] at ht
        | tooLarge next => rwa [hc] at ht
        | complete orig taken =>
          rw [hc] at ht
          cases taken with
          | true => exact ht
          | false => exact absurd ht.2 Bool.false_ne_true

end Step

section Cut

/-- The bytes of the unfinished frame and of the source, in order; a frame that is cut off is within
the limit. -/
def Cut.Accounts (scan : FrameScan) (source : Bytes) : Cut → Prop
  | .drained next => next.frame = scan.frame ++ source ∧ next.frame.length ≤ FrameScan.maxFrameBytes
  | .complete original rest =>
    original ++ rest = scan.frame ++ source ∧ original.length ≤ FrameScan.maxFrameBytes ∧
      (rest.length < source.length ∨ rest = source ∧ scan.pendingCr = true)
  | .tooLarge next rest => next.frame ++ rest = scan.frame ++ source

theorem accounts_cutFrame (scan : FrameScan) (hsc : scan.frame.length ≤ FrameScan.maxFrameBytes)
    (src : Bytes) : (cutFrame scan src).Accounts scan src := by
  induction src generalizing scan with
  | nil => exact ⟨(append_nil _).symm, hsc⟩
  | cons byte rest ih =>
    have hs := accounts_step scan byte
    rw [cutFrame]
    cases hc : scan.step byte with
    | more next =>
      rw [hc] at hs
      obtain ⟨hf, hro⟩ := hs
      have hn : next.frame.length ≤ FrameScan.maxFrameBytes := by
        rw [hf, length_append, length_singleton]
        omega
      have hr := ih next hn
      have hb : next.frame ++ rest = scan.frame ++ byte :: rest := by
        rw [hf, append_assoc, singleton_append]
      dsimp only
      cases hcu : cutFrame next rest with
      | drained last =>
        rw [hcu] at hr
        exact ⟨hr.1.trans hb, hr.2⟩
      | tooLarge last left =>
        rw [hcu] at hr
        exact Eq.trans hr hb
      | complete orig left =>
        rw [hcu] at hr
        refine ⟨hr.1.trans hb, hr.2.1, .inl ?_⟩
        rcases hr.2.2 with hsh | ⟨hsa, -⟩
        · exact hsh.trans (Nat.lt_succ_self _)
        · rw [hsa]
          exact Nat.lt_succ_self _
    | complete orig taken =>
      rw [hc] at hs
      cases taken with
      | true =>
        obtain ⟨hor, hro⟩ := hs
        refine ⟨?_, ?_, .inl (Nat.lt_succ_self _)⟩
        · rw [hor, append_assoc, singleton_append]
        · rw [hor, length_append, length_singleton]
          omega
      | false => exact ⟨by rw [hs.1], by rw [hs.1]; exact hsc, .inr ⟨rfl, hs.2⟩⟩
    | tooLarge next =>
      rw [hc] at hs
      change next.frame ++ byte :: rest = _
      rw [show next.frame = scan.frame from hs]

/-- A cut of a longer source starts as the cut of its first part. -/
theorem cutFrame_append (scan : FrameScan) (first second : Bytes) :
    cutFrame scan (first ++ second) =
      match cutFrame scan first with
      | .drained next => cutFrame next second
      | .complete orig rest => .complete orig (rest ++ second)
      | .tooLarge next rest => .tooLarge next (rest ++ second) := by
  induction first generalizing scan with
  | nil => rfl
  | cons byte first ih =>
    rw [cons_append, cutFrame, cutFrame]
    cases scan.step byte with
    | more next => exact ih next
    | complete orig taken => cases taken <;> rfl
    | tooLarge next => rfl

/-- A frame that is complete uses up source bytes or resolves a CR. -/
theorem rest_of_complete {scan : FrameScan} {src orig rest : Bytes}
    (h : cutFrame scan src = .complete orig rest) :
    rest.length < src.length ∨ rest = src ∧ scan.pendingCr = true := by
  induction src generalizing scan with
  | nil => cases h
  | cons byte src ih =>
    have hst := accounts_step scan byte
    rw [cutFrame] at h
    cases hc : scan.step byte with
    | more next =>
      rw [hc] at h
      rcases ih h with hs | ⟨rfl, -⟩
      · exact .inl (hs.trans (Nat.lt_succ_self _))
      · exact .inl (Nat.lt_succ_self _)
    | complete fr taken =>
      rw [hc] at h hst
      cases taken with
      | true =>
        cases h
        exact .inl (Nat.lt_succ_self _)
      | false =>
        cases h
        exact .inr ⟨rfl, hst.2⟩
    | tooLarge next =>
      rw [hc] at h
      cases h

end Cut

section Drain

variable {format : ApiFormat}

/-- The frames handed on, the error that ended the run and the transformer behind it. -/
structure StreamRun (format : ApiFormat) where
  emitted : List TransformedFrame
  failure : Option TransformApplyError
  transformer : SseTransformer format

namespace SseTransformer

/-- Bounds the calls that still give a frame. -/
def work (transformer : SseTransformer format) : ℕ :=
  2 * (transformer.source.getD []).length + transformer.scan.pendingCr.toNat

theorem work_nextFrame {codec : JsonCodec} {transformer next : SseTransformer format}
    {fr : TransformedFrame} (h : transformer.nextFrame codec = (.ok (some fr), next)) :
    next.work < transformer.work := by
  obtain ⟨plan, scan, src⟩ := transformer
  cases src with
  | none => cases h
  | some src =>
    simp only [nextFrame] at h
    cases hc : cutFrame scan src with
    | drained next =>
      rw [hc] at h
      cases h
    | tooLarge next rest =>
      rw [hc] at h
      cases h
    | complete orig rest =>
      rw [hc] at h
      obtain ⟨-, rfl⟩ := Prod.mk.injEq .. ▸ h
      have hr := rest_of_complete hc
      simp only [work, getD_some, FrameScan.fresh, Bool.toNat_false]
      rcases hr with hs | ⟨rfl, hp⟩
      · omega
      · simp [hp]

def drain (codec : JsonCodec) (transformer : SseTransformer format) : StreamRun format :=
  match _h : transformer.nextFrame codec with
  | (.ok none, next) => ⟨[], none, next⟩
  | (.error error, next) => ⟨[], some error, next⟩
  | (.ok (some frame), next) =>
    let run := drain codec next
    ⟨frame :: run.emitted, run.failure, run.transformer⟩
termination_by transformer.work
decreasing_by exact work_nextFrame _h

theorem drain_eq (codec : JsonCodec) (transformer : SseTransformer format) :
    transformer.drain codec =
      match transformer.nextFrame codec with
      | (.ok none, next) => ⟨[], none, next⟩
      | (.error err, next) => ⟨[], some err, next⟩
      | (.ok (some fr), next) =>
        ⟨fr :: (next.drain codec).emitted, (next.drain codec).failure,
          (next.drain codec).transformer⟩ := by
  rw [drain]
  split <;>
    · rename_i h
      rw [h]

/-- Every chunk is drained before the next one, up to the first error. -/
def runChunks (codec : JsonCodec) : SseTransformer format → List Bytes → StreamRun format
  | transformer, [] => ⟨[], none, transformer⟩
  | transformer, chunk :: chunks =>
    let first := drain codec (transformer.push chunk)
    if first.failure.isSome then first
    else
      let rest := runChunks codec first.transformer chunks
      ⟨first.emitted ++ rest.emitted, rest.failure, rest.transformer⟩

end SseTransformer

variable {codec : JsonCodec} {plan : SseEventPatchPlan format} {scan : FrameScan} {src rest : Bytes}
  {next : FrameScan} {orig bs src' : Bytes}

theorem drain_of_drained (h : cutFrame scan src = .drained next) :
    SseTransformer.drain codec ⟨plan, scan, some src⟩ = ⟨[], none, ⟨plan, next, none⟩⟩ := by
  rw [SseTransformer.drain_eq]
  simp only [SseTransformer.nextFrame, h]

theorem drain_of_tooLarge (h : cutFrame scan src = .tooLarge next rest) :
    SseTransformer.drain codec ⟨plan, scan, some src⟩ =
      ⟨[], some .sseFrameTooLarge, ⟨plan, next, some rest⟩⟩ := by
  rw [SseTransformer.drain_eq]
  simp only [SseTransformer.nextFrame, h]

theorem drain_of_complete_error
    (h : cutFrame scan src = .complete orig rest) {err : TransformApplyError}
    (hf : transformSseFrame codec orig plan = .error err) :
    SseTransformer.drain codec ⟨plan, scan, some src⟩ =
      ⟨[], some err, ⟨plan, .fresh, some rest⟩⟩ := by
  rw [SseTransformer.drain_eq]
  simp only [SseTransformer.nextFrame, h, hf, Except.map]

theorem drain_of_complete_ok (h : cutFrame scan src = .complete orig rest)
    (hf : transformSseFrame codec orig plan = .ok bs) :
    SseTransformer.drain codec ⟨plan, scan, some src⟩ =
      ⟨⟨orig, bs⟩ :: (SseTransformer.drain codec ⟨plan, .fresh, some rest⟩).emitted,
        (SseTransformer.drain codec ⟨plan, .fresh, some rest⟩).failure,
        (SseTransformer.drain codec ⟨plan, .fresh, some rest⟩).transformer⟩ := by
  rw [SseTransformer.drain_eq]
  simp only [SseTransformer.nextFrame, h, hf, Except.map]

def StreamRun.observed (run : StreamRun format) :
    List TransformedFrame × Option TransformApplyError × FrameScan :=
  (run.emitted, run.failure, run.transformer.scan)

/-- The rule for a drain: the last call, an error, or a frame and a drain of what is left. -/
theorem drain_induction (codec : JsonCodec) (plan : SseEventPatchPlan format)
    {motive : FrameScan → Bytes → StreamRun format → Prop}
    (drained : ∀ scan src next, cutFrame scan src = .drained next →
      motive scan src ⟨[], none, ⟨plan, next, none⟩⟩)
    (tooLarge : ∀ scan src next rest, cutFrame scan src = .tooLarge next rest →
      motive scan src ⟨[], some .sseFrameTooLarge, ⟨plan, next, some rest⟩⟩)
    (failed : ∀ scan src orig rest err, cutFrame scan src = .complete orig rest →
      transformSseFrame codec orig plan = .error err →
      motive scan src ⟨[], some err, ⟨plan, .fresh, some rest⟩⟩)
    (complete : ∀ scan src orig rest bs run, cutFrame scan src = .complete orig rest →
      transformSseFrame codec orig plan = .ok bs →
      run = SseTransformer.drain codec ⟨plan, .fresh, some rest⟩ → motive .fresh rest run →
      motive scan src ⟨⟨orig, bs⟩ :: run.emitted, run.failure, run.transformer⟩)
    (scan : FrameScan) (src : Bytes) :
    motive scan src (SseTransformer.drain codec ⟨plan, scan, some src⟩) := by
  induction hw : 2 * src.length + scan.pendingCr.toNat using Nat.strong_induction_on
    generalizing scan src with
  | _ work ih =>
    cases hc : cutFrame scan src with
    | drained next =>
      rw [drain_of_drained hc]
      exact drained scan src next hc
    | tooLarge next rest =>
      rw [drain_of_tooLarge hc]
      exact tooLarge scan src next rest hc
    | complete orig rest =>
      cases hf : transformSseFrame codec orig plan with
      | error err =>
        rw [drain_of_complete_error hc hf]
        exact failed scan src orig rest err hc hf
      | ok bs =>
        rw [drain_of_complete_ok hc hf]
        refine complete scan src orig rest bs _ hc hf rfl (ih _ ?_ .fresh rest rfl)
        have hr := rest_of_complete hc
        simp only [FrameScan.fresh, Bool.toNat_false]
        rcases hr with hs | ⟨rfl, hp⟩
        · omega
        · rw [← hw, hp]
          simp

theorem drain_congr {scan' : FrameScan}
    (h : cutFrame scan src = cutFrame scan' src') :
    SseTransformer.drain codec ⟨plan, scan, some src⟩ =
      SseTransformer.drain codec ⟨plan, scan', some src'⟩ := by
  rw [SseTransformer.drain_eq, SseTransformer.drain_eq]
  simp only [SseTransformer.nextFrame, h]

/-- A run that failed stops; any other goes on with the bytes that follow. -/
def StreamRun.followedBy (codec : JsonCodec) (run : StreamRun format) (bytes : Bytes) :
    List TransformedFrame × Option TransformApplyError × FrameScan :=
  if run.failure.isSome then run.observed
  else
    let rest := (run.transformer.push bytes).drain codec
    (run.emitted ++ rest.emitted, rest.failure, rest.transformer.scan)

/-- A source in two parts is drained as the first part and then the second. -/
theorem drain_append (scan : FrameScan) (first second : Bytes) :
    (SseTransformer.drain codec ⟨plan, scan, some (first ++ second)⟩).observed =
      (SseTransformer.drain codec ⟨plan, scan, some first⟩).followedBy codec second := by
  refine drain_induction codec plan
    (motive := fun scan src run =>
      (SseTransformer.drain codec ⟨plan, scan, some (src ++ second)⟩).observed =
        run.followedBy codec second) ?_ ?_ ?_ ?_ scan first
  · intro scan src next hc
    have ha := cutFrame_append scan src second
    rw [hc] at ha
    rw [drain_congr ha]
    rfl
  · intro scan src next rest hc
    have ha := cutFrame_append scan src second
    rw [hc] at ha
    rw [drain_of_tooLarge ha]
    rfl
  · intro scan src orig rest err hc hf
    have ha := cutFrame_append scan src second
    rw [hc] at ha
    rw [drain_of_complete_error ha hf]
    rfl
  · intro scan src orig rest bs run hc hf hr ih
    have ha := cutFrame_append scan src second
    rw [hc] at ha
    rw [drain_of_complete_ok ha hf]
    simp only [StreamRun.observed, StreamRun.followedBy] at ih ⊢
    split_ifs at ih ⊢ <;>
      · simp only [Prod.mk.injEq] at ih
        simp only [ih, cons_append]

theorem transformer_drain (scan : FrameScan) (src : Bytes)
    (h : (SseTransformer.drain codec ⟨plan, scan, some src⟩).failure = none) :
    (SseTransformer.drain codec ⟨plan, scan, some src⟩).transformer =
      ⟨plan, (SseTransformer.drain codec ⟨plan, scan, some src⟩).transformer.scan, none⟩ := by
  revert h
  refine drain_induction codec plan
    (motive := fun _ _ run =>
      run.failure = none → run.transformer = ⟨plan, run.transformer.scan, none⟩) ?_ ?_ ?_ ?_ scan src
  · exact fun _ _ _ _ _ => rfl
  · exact fun _ _ _ _ _ h => nomatch h
  · exact fun _ _ _ _ _ _ _ h => nomatch h
  · exact fun _ _ _ _ _ _ _ _ _ ih => ih

/-- However a stream is cut into chunks, the run is that of the whole stream. -/
theorem observed_runChunks (scan : FrameScan) (chunks : List Bytes) :
    (SseTransformer.runChunks codec ⟨plan, scan, none⟩ chunks).observed =
      (SseTransformer.drain codec ⟨plan, scan, some chunks.flatten⟩).observed := by
  induction chunks generalizing scan with
  | nil =>
    rw [drain_of_drained rfl]
    rfl
  | cons chunk chunks ih =>
    rw [flatten_cons, drain_append, StreamRun.followedBy]
    change StreamRun.observed (if (SseTransformer.drain codec ⟨plan, scan, some chunk⟩).failure.isSome
      then _ else _) = _
    by_cases hf : (SseTransformer.drain codec ⟨plan, scan, some chunk⟩).failure.isSome = true
    · rw [if_pos hf, if_pos hf]
      rfl
    · rw [if_neg hf, if_neg hf]
      have hn : (SseTransformer.drain codec ⟨plan, scan, some chunk⟩).failure = none := by
        simpa using hf
      have ht := transformer_drain scan chunk hn
      have hr := ih (SseTransformer.drain codec ⟨plan, scan, some chunk⟩).transformer.scan
      rw [← ht] at hr
      have hp : (SseTransformer.drain codec ⟨plan, scan, some chunk⟩).transformer.push
          chunks.flatten = ⟨plan,
            (SseTransformer.drain codec ⟨plan, scan, some chunk⟩).transformer.scan,
            some chunks.flatten⟩ := by
        rw [ht]
        rfl
      simp only [StreamRun.observed, Prod.mk.injEq] at hr ⊢
      simp only [SseTransformer.push] at hr ⊢ hp
      rw [hp]
      exact ⟨by rw [hr.1], hr.2.1, hr.2.2⟩

/-- The frames of a run are within the limit and transformed, and with what is left they are the
stream. -/
structure StreamRun.Accounts (codec : JsonCodec) (plan : SseEventPatchPlan format) (stream : Bytes)
    (run : StreamRun format) : Prop where
  withinLimit : ∀ frame ∈ run.emitted, frame.original.length ≤ FrameScan.maxFrameBytes
  transformed : ∀ frame ∈ run.emitted, transformSseFrame codec frame.original plan = .ok frame.bytes
  bytes : ∃ left, (run.emitted.map TransformedFrame.original).flatten ++ left = stream ∧
    (run.failure = none → left = run.transformer.scan.frame)
  failed : ∀ error, run.failure = some error → error = .sseFrameTooLarge ∨
    ∃ original, original <:+: stream ∧ transformSseFrame codec original plan = .error error

theorem accounts_drain (scan : FrameScan) (hs : scan.frame.length ≤ FrameScan.maxFrameBytes)
    (src : Bytes) : (SseTransformer.drain codec ⟨plan, scan, some src⟩).Accounts codec plan
      (scan.frame ++ src) := by
  revert hs
  refine drain_induction codec plan
    (motive := fun scan src run => scan.frame.length ≤ FrameScan.maxFrameBytes →
      run.Accounts codec plan (scan.frame ++ src)) ?_ ?_ ?_ ?_ scan src
  · intro scan src next hc hs
    have hb := accounts_cutFrame scan hs src
    rw [hc] at hb
    exact ⟨forall_mem_nil _, forall_mem_nil _,
      ⟨next.frame, hb.1, fun _ => rfl⟩, fun _ h => nomatch h⟩
  · intro scan src next rest hc hs
    exact ⟨forall_mem_nil _, forall_mem_nil _, ⟨scan.frame ++ src, rfl, fun h => nomatch h⟩,
      fun _ h => .inl (some_inj.mp h).symm⟩
  · intro scan src orig rest err hc hf hs
    have hb := accounts_cutFrame scan hs src
    rw [hc] at hb
    refine ⟨forall_mem_nil _, forall_mem_nil _,
      ⟨scan.frame ++ src, rfl, fun h => nomatch h⟩, fun o h => .inr ⟨orig, ?_, ?_⟩⟩
    · exact ⟨[], rest, hb.1⟩
    · rw [hf, some_inj.mp h]
  · intro scan src orig rest bs run hc hf hru ih hs
    have hb := accounts_cutFrame scan hs src
    rw [hc] at hb
    have hr : run.Accounts codec plan rest := ih (Nat.zero_le _)
    refine ⟨?_, ?_, ?_, ?_⟩
    · exact forall_mem_cons.mpr ⟨hb.2.1, hr.withinLimit⟩
    · exact forall_mem_cons.mpr ⟨hf, hr.transformed⟩
    · obtain ⟨left, hle, hen⟩ := hr.bytes
      refine ⟨left, ?_, hen⟩
      rw [map_cons, flatten_cons, append_assoc, hle]
      exact hb.1
    · intro err he
      rcases hr.failed err he with hl | ⟨fr, hp, hfa⟩
      · exact .inl hl
      · exact .inr ⟨fr, hp.trans ⟨orig, [], by rw [append_nil]; exact hb.1⟩, hfa⟩

end Drain

section Unmatched

variable {format : ApiFormat}

/-- Some entry with operations names the event. -/
def namesEvent {Event : Type} [DecidableEq Event] (selector : Event)
    (entries : List (SsePatchEntry Event)) : Bool :=
  entries.any (fun entry => decide (entry.event = selector) && !entry.json.isEmpty)

def SseEventPatchPlan.matchesEvent (event : Option Bytes) (value : Json) :
    SseEventPatchPlan format → Bool
  | .openAiChatCompletions entries =>
    decide ((value.get (utf8 "object")).bind Json.asStr = some (utf8 "chat.completion.chunk")) &&
      !event.any (fun name => !name.isEmpty) && namesEvent .chatCompletionChunk entries
  | .openAiResponses entries =>
    match (value.get (utf8 "type")).bind Json.asStr with
    | none => false
    | some eventType =>
      match responseSelector eventType with
      | none => false
      | some selector =>
        !event.any (fun name => decide (name ≠ eventType)) && namesEvent selector entries
  | .openAiImages => false

def SseEventPatchPlan.matchesFrame (codec : JsonCodec) (frame : Bytes)
    (plan : SseEventPatchPlan format) : Bool :=
  let fields := SseFields.ofLines (headLines frame).1
  (fields.data.bind codec.parse).any (fun value =>
    value.isObject && plan.matchesEvent fields.event value)

variable {codec : JsonCodec}

theorem applyMatchingEntries_of_not_named {Event : Type} [DecidableEq Event] {selector : Event}
    {es : List (SsePatchEntry Event)} (h : namesEvent selector es = false) (v : Json) :
    applyMatchingEntries codec selector v es = .ok (v, false) := by
  induction es with
  | nil => rfl
  | cons e es ih =>
    simp only [namesEvent, any_cons, Bool.or_eq_false_iff] at h
    have hot : ¬(e.event = selector ∧ e.json.isEmpty = false) := by
      intro hm
      simp [hm.1, hm.2] at h
    rw [applyMatchingEntries, if_neg hot]
    exact ih h.2

variable {plan : SseEventPatchPlan format}

theorem patchEvent_of_not_matched {ev : Option Bytes}
    {v : Json} (h : plan.matchesEvent ev v = false) :
    patchEvent codec ev v plan = .ok (v, false) := by
  cases plan with
  | openAiChatCompletions es =>
    rw [patchEvent]
    split_ifs with hg
    · rfl
    · rw [not_or, not_not] at hg
      refine applyMatchingEntries_of_not_named ?_ v
      simpa [SseEventPatchPlan.matchesEvent, hg.1, hg.2] using h
  | openAiResponses es =>
    simp only [SseEventPatchPlan.matchesEvent] at h
    simp only [patchEvent]
    cases ht : (v.get (utf8 "type")).bind Json.asStr with
    | none => rfl
    | some eventType =>
      rw [ht] at h
      dsimp only at h ⊢
      cases hs : responseSelector eventType with
      | none => rfl
      | some selector =>
        rw [hs] at h
        split_ifs with hg
        · rfl
        · refine applyMatchingEntries_of_not_named ?_ v
          rw [Bool.eq_false_iff.mpr hg] at h
          exact h
  | openAiImages => rfl

theorem transformSseFrame_of_not_matched {fr : Bytes}
    (h : plan.matchesFrame codec fr = false) : transformSseFrame codec fr plan = .ok fr := by
  unfold SseEventPatchPlan.matchesFrame at h
  unfold transformSseFrame
  cases hv : (SseFields.ofLines (headLines fr).1).data.bind codec.parse with
  | none => simp only [hv]
  | some v =>
    simp only [hv, any_some] at h ⊢
    cases hob : v.isObject with
    | false => rfl
    | true =>
      rw [hob, Bool.true_and] at h
      rw [patchEvent_of_not_matched h]
      rfl

theorem accounts_runChunks (codec : JsonCodec) (plan : SseEventPatchPlan format)
    (chunks : List Bytes) :
    (SseTransformer.runChunks codec (.new plan) chunks).Accounts codec plan chunks.flatten := by
  have hr : (SseTransformer.runChunks codec (.new plan) chunks).observed = _ :=
    observed_runChunks .fresh chunks
  have hd : (SseTransformer.drain codec ⟨plan, .fresh, some chunks.flatten⟩).Accounts codec plan
      chunks.flatten := accounts_drain .fresh (Nat.zero_le _) chunks.flatten
  simp only [StreamRun.observed, Prod.mk.injEq] at hr
  obtain ⟨he, hfa, hs⟩ := hr
  obtain ⟨hl, ht, hb, hf⟩ := hd
  rw [← he] at hl ht hb
  rw [← hfa] at hb hf
  rw [← hs] at hb
  exact ⟨hl, ht, hb, hf⟩

theorem getD_finish (transformer : SseTransformer format) :
    transformer.finish.getD [] = transformer.scan.frame := by
  unfold SseTransformer.finish
  split_ifs with he
  · rw [isEmpty_iff.mp he]
    rfl
  · rfl

/-- The frames, the error and the residual depend on the stream alone; the frames and the residual are
the stream; no frame is beyond the limit; and a plan that matches no part of the stream hands on
its bytes. -/
theorem sse_transformer_ignores_chunking (codec : JsonCodec) (plan : SseEventPatchPlan format)
    (chunks : List Bytes) :
    let run := SseTransformer.runChunks codec (.new plan) chunks
    (∀ others : List Bytes, others.flatten = chunks.flatten →
      let other := SseTransformer.runChunks codec (.new plan) others
      other.emitted = run.emitted ∧ other.failure = run.failure ∧
        other.transformer.finish = run.transformer.finish) ∧
    (run.emitted.map TransformedFrame.original).flatten <+: chunks.flatten ∧
    (run.failure = none → (run.emitted.map TransformedFrame.original).flatten ++
      run.transformer.finish.getD [] = chunks.flatten) ∧
    (∀ frame ∈ run.emitted, frame.original.length ≤ FrameScan.maxFrameBytes ∧
      transformSseFrame codec frame.original plan = .ok frame.bytes) ∧
    ((∀ frame, frame <:+: chunks.flatten → plan.matchesFrame codec frame = false) →
      (run.emitted.map TransformedFrame.bytes).flatten =
          (run.emitted.map TransformedFrame.original).flatten ∧
        (run.failure = none ∨ run.failure = some .sseFrameTooLarge)) := by
  intro run
  have ha : run.Accounts codec plan chunks.flatten := accounts_runChunks codec plan chunks
  obtain ⟨left, hl, hen⟩ := ha.bytes
  have hb : (run.emitted.map TransformedFrame.original).flatten <+: chunks.flatten := ⟨left, hl⟩
  refine ⟨?_, hb, ?_, ?_, ?_⟩
  · intro others hot other
    have hoh : other.observed = _ := observed_runChunks .fresh others
    have hr : run.observed = _ := observed_runChunks .fresh chunks
    have hs : other.observed = run.observed := by rw [hoh, hr, hot]
    simp only [StreamRun.observed, Prod.mk.injEq] at hs
    refine ⟨hs.1, hs.2.1, ?_⟩
    unfold SseTransformer.finish
    rw [hs.2.2]
  · intro hf
    rw [getD_finish, ← hen hf, hl]
  · exact fun frame hm => ⟨ha.withinLimit frame hm, ha.transformed frame hm⟩
  · intro hu
    have hp : ∀ frame ∈ run.emitted, frame.original <:+: chunks.flatten := by
      intro frame hm
      have hw : frame.original <:+: (run.emitted.map TransformedFrame.original).flatten :=
        infix_of_mem_flatten (mem_map_of_mem hm)
      exact hw.trans hb.isInfix
    have hpa : ∀ frame ∈ run.emitted, frame.bytes = frame.original := by
      intro frame hm
      have hps := transformSseFrame_of_not_matched (hu frame.original (hp frame hm))
      exact Except.ok.inj ((ha.transformed frame hm).symm.trans hps)
    refine ⟨by rw [map_congr_left hpa], ?_⟩
    cases hf : run.failure with
    | none => exact .inl rfl
    | some error =>
      rcases ha.failed error hf with rfl | ⟨original, hp, he⟩
      · exact .inr rfl
      · rw [transformSseFrame_of_not_matched (hu original hp)] at he
        cases he

end Unmatched

end AiGateway.Transforms
