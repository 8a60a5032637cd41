import AiGateway.Transforms.Framer

/-! The frames the usage collector cuts from its buffer, and those the transformer cuts. -/
namespace AiGateway.Usage
open List Option

open Lib Domain Transforms

/-- The end of the first frame; the flag says that the line has no content yet. -/
def sseFrameEndFrom : Bool → Bytes → Option ℕ
  | _, [] => none
  | blank, byte :: rest =>
    if byte = 13 then
      match rest with
      | [] => if blank then some 1 else none
      | next :: after =>
        if next = 10 then if blank then some 2 else (sseFrameEndFrom true after).map (· + 2)
        else if blank then some 1 else (sseFrameEndFrom true (next :: after)).map (· + 1)
    else if byte = 10 then
      if blank then some 1 else (sseFrameEndFrom true rest).map (· + 1)
    else (sseFrameEndFrom false rest).map (· + 1)

def sseFrameEnd (bytes : Bytes) : Option ℕ := sseFrameEndFrom true bytes

section Ends

theorem sseFrameEndFrom_lf (blank : Bool) (rest : Bytes) :
    sseFrameEndFrom blank (10 :: rest) =
      if blank then some 1 else (sseFrameEndFrom true rest).map (· + 1) := by
  cases rest <;> simp [sseFrameEndFrom]

theorem sseFrameEndFrom_content {byte : UInt8} (h : byte ≠ 10 ∧ byte ≠ 13) (blank : Bool)
    (rest : Bytes) :
    sseFrameEndFrom blank (byte :: rest) = (sseFrameEndFrom false rest).map (· + 1) := by
  cases rest <;> simp [sseFrameEndFrom, h.1, h.2]

theorem sseFrameEndFrom_bounds {blank : Bool} {bs : Bytes} {size : ℕ}
    (h : sseFrameEndFrom blank bs = some size) : 0 < size ∧ size ≤ bs.length := by
  fun_induction sseFrameEndFrom blank bs generalizing size <;>
    simp_all [map_eq_some_iff] <;> grind

end Ends

/-- The frames a drain of the buffer cuts and the bytes it leaves. -/
def drainFrames (bytes : Bytes) : List Bytes × Bytes :=
  match _h : sseFrameEnd bytes with
  | none => ([], bytes)
  | some size =>
    let below := drainFrames (bytes.drop size)
    (bytes.take size :: below.1, below.2)
termination_by bytes.length
decreasing_by
  have hbounds := sseFrameEndFrom_bounds _h
  rw [length_drop]
  omega

/-- Each chunk is added to what the one before left. -/
def framesOfChunks : Bytes → List Bytes → List Bytes × Bytes
  | buffer, [] => ([], buffer)
  | buffer, chunk :: chunks =>
    let drained := drainFrames (buffer ++ chunk)
    let rest := framesOfChunks drained.2 chunks
    (drained.1 ++ rest.1, rest.2)

/-- The lines up to a blank one; the bytes behind the last line end are a line too. -/
def usageLines (bytes : Bytes) : List Bytes :=
  match _h : nextLine bytes with
  | none => if bytes = [] then [] else [bytes]
  | some (line, rest) => if line.content = [] then [] else line.content :: usageLines rest
termination_by bytes.length
decreasing_by exact length_lt_of_nextLine _h

def usageFields (frame : Bytes) : SseFields :=
  (usageLines frame).foldl SseFields.readLine SseFields.empty

section Lines

/-- The frame end found line by line. -/
theorem sseFrameEndFrom_eq_lines (blank : Bool) (bs : Bytes) :
    sseFrameEndFrom blank bs =
      match nextLine bs with
      | none => none
      | some (line, rest) =>
        if blank = true ∧ line.content = [] then some line.ending.length
        else (sseFrameEndFrom true rest).map (line.bytes.length + ·) := by
  induction bs generalizing blank with
  | nil => rfl
  | cons byte rest ih =>
    by_cases hcr : byte = 13
    · subst hcr
      cases rest with
      | nil => cases blank <;> simp [sseFrameEndFrom, nextLine, lineBreak]
      | cons next after =>
        by_cases hlf : next = 10
        · cases blank <;> simp [sseFrameEndFrom, nextLine, lineBreak, hlf, Line.bytes, Nat.add_comm]
        · cases blank <;> simp [sseFrameEndFrom, nextLine, lineBreak, hlf, Line.bytes, Nat.add_comm]
    · by_cases hlf : byte = 10
      · subst hlf
        rw [sseFrameEndFrom_lf]
        cases blank <;> simp [nextLine, lineBreak, Line.bytes, Nat.add_comm]
      · rw [sseFrameEndFrom_content ⟨hlf, hcr⟩, ih false, nextLine, lineBreak_cons_of_ne ⟨hlf, hcr⟩]
        cases nextLine rest with
        | none => rfl
        | some next =>
          simp only [Option.map_some, Bool.false_eq_true, false_and, if_false, Option.map_map,
            reduceCtorEq, and_false]
          refine congrArg (Option.map · _) (funext fun size => ?_)
          simp only [Function.comp_apply, Line.bytes, length_append, length_cons]
          omega

variable {fr : Bytes}

theorem completeFrame_of_sseFrameEnd (h : sseFrameEnd fr = some fr.length) :
    IsBlank (headLines fr).2 := by
  induction hl : fr.length using Nat.strong_induction_on generalizing fr with
  | _ length ih =>
    rw [sseFrameEnd, sseFrameEndFrom_eq_lines] at h
    cases hn : nextLine fr with
    | none =>
      rw [hn] at h
      cases h
    | some next =>
      obtain ⟨line, rest⟩ := next
      obtain ⟨hby, -, hbr⟩ := nextLine_eq_some hn
      rw [hn] at h
      rw [headLines_of_some hn]
      have hs : fr.length = line.bytes.length + rest.length := by
        rw [hby, length_append]
      by_cases hb : line.content = []
      · simp only [hb, and_self, if_true, some_inj] at h
        rw [if_pos hb]
        have he : line.bytes = line.ending := by rw [Line.bytes, hb, nil_append]
        have hr : rest = [] := by
          rw [he] at hs
          exact length_eq_zero_iff.mp (by omega)
        have hf : fr = line.ending := by rw [hby, he, hr, append_nil]
        rw [hr, append_nil] at hbr
        rw [hf]
        exact hbr
      · simp only [hb, and_false, if_false, map_eq_some_iff] at h
        obtain ⟨size, hen, hsu⟩ := h
        rw [if_neg hb]
        have hr : sseFrameEnd rest = some rest.length := by
          rw [sseFrameEnd, hen]
          exact congrArg some (by omega)
        exact ih rest.length (hl ▸ length_lt_of_nextLine hn) hr rfl

theorem usageLines_of_completeFrame (h : IsBlank (headLines fr).2) :
    usageLines fr = (headLines fr).1.map Line.content := by
  induction hl : fr.length using Nat.strong_induction_on generalizing fr with
  | _ length ih =>
    rw [usageLines]
    split
    · rename_i hn
      rw [headLines_of_none hn] at h
      have hli : nextLine fr = some (⟨[], fr⟩, []) := by
        have hbr : lineBreak (fr ++ []) = some (fr, []) := by
          rw [append_nil]
          exact h
        have hno : NoBreak [] := forall_mem_nil _
        have hr := nextLine_of_break hno hbr
        rwa [nil_append, append_nil] at hr
      rw [hli] at hn
      cases hn
    · rename_i line rest hn
      rw [headLines_of_some hn] at h ⊢
      split_ifs with hb
      · rfl
      · rw [if_neg hb] at h
        rw [ih rest.length (hl ▸ length_lt_of_nextLine hn) h rfl]
        rfl

/-- Both readers see the same event and data in a complete frame. -/
theorem usageFields_of_completeFrame (h : IsBlank (headLines fr).2) :
    usageFields fr = SseFields.ofLines (headLines fr).1 := by
  rw [usageFields, usageLines_of_completeFrame h, foldl_map]
  rfl

theorem sseFrameEndFrom_take {blank : Bool} {bs : Bytes} {size : ℕ}
    (h : sseFrameEndFrom blank bs = some size) :
    sseFrameEndFrom blank (bs.take size) = some size := by
  induction hl : bs.length using Nat.strong_induction_on generalizing blank bs size with
  | _ length ih =>
    subst hl
    cases bs with
    | nil => cases h
    | cons byte rest =>
      -- the frame behind the first byte, or behind a line end, is cut the same way
      have hb : ∀ flag (tail : Bytes) below, tail.length < (byte :: rest).length →
          sseFrameEndFrom flag tail = some below →
          sseFrameEndFrom flag (tail.take below) = some below :=
        fun flag tail below hs he => ih tail.length hs he rfl
      by_cases hcr : byte = 13
      · subst hcr
        cases rest with
        | nil =>
          cases blank with
          | false => cases h
          | true =>
            cases h
            rfl
        | cons next after =>
          by_cases hlf : next = 10
          · subst hlf
            cases blank with
            | true =>
              cases h
              rfl
            | false =>
              obtain ⟨below, he, rfl⟩ := map_eq_some_iff.mp h
              have ht := hb true after below (by simp only [length_cons]; omega) he
              simp only [take_succ_cons, sseFrameEndFrom, if_true, Bool.false_eq_true, if_false,
                ht, map_some]
          · cases blank with
            | true =>
              simp only [sseFrameEndFrom, if_true, hlf, if_false, some_inj] at h
              subst h
              rfl
            | false =>
              simp only [sseFrameEndFrom, if_true, hlf, if_false, Bool.false_eq_true] at h
              obtain ⟨below, he, rfl⟩ := map_eq_some_iff.mp h
              have ht := hb true (next :: after) below (by simp) he
              obtain ⟨more, rfl⟩ : ∃ more, below = more + 1 :=
                ⟨below - 1, by have := (sseFrameEndFrom_bounds he).1; omega⟩
              rw [take_succ_cons] at ht
              simp only [take_succ_cons, sseFrameEndFrom, if_true, hlf, Bool.false_eq_true,
                if_false, ht, map_some]
      · by_cases hlf : byte = 10
        · subst hlf
          rw [sseFrameEndFrom_lf] at h
          cases blank with
          | true =>
            cases h
            rfl
          | false =>
            obtain ⟨below, he, rfl⟩ := map_eq_some_iff.mp h
            rw [take_succ_cons, sseFrameEndFrom_lf, if_neg (by decide),
              hb true rest below (by simp) he]
            rfl
        · rw [sseFrameEndFrom_content ⟨hlf, hcr⟩] at h
          obtain ⟨below, he, rfl⟩ := map_eq_some_iff.mp h
          rw [take_succ_cons, sseFrameEndFrom_content ⟨hlf, hcr⟩, hb false rest below (by simp) he]
          rfl

end Lines

section Lazy

open FrameScan

/-- A blank line ended in a CR: the frame is complete, with or without an LF that follows. -/
def endsFrame (scan : FrameScan) : Bool := scan.pendingCr && !scan.lineHasContent

/-- The cut of the transformer is at the frame end, or waits for the byte behind a last CR. -/
def CutAgrees (frame bytes : Bytes) (cut : Cut) : Option ℕ → Prop
  | some size => cut = .complete (frame ++ bytes.take size) (bytes.drop size) ∨
      size = bytes.length ∧ cut = .drained ⟨frame ++ bytes, false, true⟩
  | none => ∃ scan, cut = .drained scan ∧ scan.frame = frame ++ bytes ∧ endsFrame scan = false

theorem CutAgrees.shift {fr taken bs : Bytes} {cut : Cut} {size : Option ℕ}
    (h : CutAgrees (fr ++ taken) bs cut size) :
    CutAgrees fr (taken ++ bs) cut (size.map (· + taken.length)) := by
  cases size with
  | none =>
    obtain ⟨scan, hc, hf, he⟩ := h
    exact ⟨scan, hc, by rw [hf, append_assoc], he⟩
  | some size =>
    rcases h with hc | ⟨hs, hc⟩
    · refine .inl ?_
      change _ = Cut.complete (fr ++ (taken ++ bs).take (size + taken.length))
        ((taken ++ bs).drop (size + taken.length))
      rw [hc, Nat.add_comm, take_length_add_append, drop_length_add_append, append_assoc]
    · refine .inr ⟨?_, by rw [hc, append_assoc]⟩
      rw [hs, length_append, Nat.add_comm]

/-- Resolving a CR one byte later finds the same frame ends as looking one byte ahead. -/
theorem cutAgrees_cutFrame (fr : Bytes) (ct : Bool) (bs : Bytes)
    (hr : fr.length + bs.length ≤ maxFrameBytes) :
    CutAgrees fr bs (cutFrame ⟨fr, ct, false⟩ bs)
      (sseFrameEndFrom (!ct) bs) := by
  induction hl : bs.length using Nat.strong_induction_on generalizing fr ct bs with
  | _ length ih =>
    subst hl
    cases bs with
    | nil => exact ⟨_, rfl, (append_nil fr).symm, rfl⟩
    | cons byte rest =>
      rw [length_cons] at hr
      have hf : fr.length ≠ maxFrameBytes := by omega
      by_cases hcr : byte = 13
      · subst hcr
        have hs : FrameScan.step ⟨fr, ct, false⟩ 13 = .more ⟨fr ++ [13], ct, true⟩ := by
          simp [FrameScan.step, FrameScan.take, FrameScan.append, hf]
        rw [cutFrame, hs]
        cases rest with
        | nil =>
          cases ct with
          | false => exact .inr ⟨rfl, rfl⟩
          | true => exact ⟨_, rfl, rfl, rfl⟩
        | cons next after =>
          rw [length_cons] at hr
          have hf' : fr.length + 1 ≠ maxFrameBytes := by omega
          by_cases hlf : next = 10
          · subst hlf
            cases ct with
            | false =>
              refine .inl ?_
              simp [cutFrame, FrameScan.step, FrameScan.append, finishLine, hf']
            | true =>
              have hn : FrameScan.step ⟨fr ++ [13], true, true⟩ 10 =
                  .more ⟨fr ++ [13, 10], false, false⟩ := by
                simp [FrameScan.step, FrameScan.append, finishLine, hf']
              dsimp only
              rw [cutFrame, hn]
              have hb := ih after.length (by simp only [length_cons]; omega) (fr ++ [13, 10]) false after
                (by rw [length_append]; simp; omega) rfl
              exact hb.shift
          · cases ct with
            | false =>
              have he : sseFrameEndFrom (!false) (13 :: next :: after) = some 1 := by
                simp [sseFrameEndFrom, hlf]
              rw [he]
              refine .inl ?_
              simp [cutFrame, FrameScan.step, finishLine, hlf]
            | true =>
              have hsa : cutFrame ⟨fr ++ [13], true, true⟩ (next :: after) =
                  cutFrame ⟨fr ++ [13], false, false⟩ (next :: after) := by
                rw [cutFrame, cutFrame]
                simp [FrameScan.step, finishLine, hlf]
              dsimp only
              rw [hsa]
              have hb := ih (next :: after).length (by simp) (fr ++ [13]) false (next :: after)
                (by rw [length_append, length_cons]; simp; omega) rfl
              have he : sseFrameEndFrom (!true) (13 :: next :: after) =
                  (sseFrameEndFrom true (next :: after)).map (· + 1) := by
                simp [sseFrameEndFrom, hlf]
              rw [he]
              exact hb.shift
      · by_cases hlf : byte = 10
        · subst hlf
          rw [sseFrameEndFrom_lf]
          cases ct with
          | false =>
            refine .inl ?_
            simp [cutFrame, FrameScan.step, FrameScan.take, FrameScan.append, hf, finishLine]
          | true =>
            have hs : FrameScan.step ⟨fr, true, false⟩ 10 = .more ⟨fr ++ [10], false, false⟩ := by
              simp [FrameScan.step, FrameScan.take, FrameScan.append, hf, finishLine]
            rw [cutFrame, hs]
            have hb := ih rest.length (by simp) (fr ++ [10]) false rest
              (by rw [length_append, length_singleton]; omega) rfl
            exact hb.shift
        · have hs : FrameScan.step ⟨fr, ct, false⟩ byte = .more ⟨fr ++ [byte], true, false⟩ := by
            simp [FrameScan.step, FrameScan.take, FrameScan.append, hf, hcr, hlf]
          rw [cutFrame, hs, sseFrameEndFrom_content ⟨hlf, hcr⟩]
          have hb := ih rest.length (by simp) (fr ++ [byte]) true rest
            (by rw [length_append, length_singleton]; omega) rfl
          exact hb.shift

theorem byte_of_pendingCr {scan next : FrameScan} {byte : UInt8} (h : scan.step byte = .more next)
    (hp : next.pendingCr = true) : byte = 13 := by
  obtain ⟨fr, ct, pend⟩ := scan
  by_contra hcr
  by_cases hf : fr.length = maxFrameBytes <;> by_cases hlf : byte = 10 <;> cases ct <;>
    cases pend <;>
    simp [FrameScan.step, FrameScan.take, FrameScan.append, finishLine, hf, hlf, hcr] at h <;>
    simp [← h] at hp

theorem getLast_of_pendingCr {scan last : FrameScan} {src : Bytes}
    (h : cutFrame scan src = .drained last) (hp : last.pendingCr = true) :
    src = [] ∨ src.getLast? = some 13 := by
  induction src generalizing scan with
  | nil => exact .inl rfl
  | cons byte rest ih =>
    refine .inr ?_
    rw [cutFrame] at h
    cases hs : scan.step byte with
    | more next =>
      rw [hs] at h
      rcases ih h with rfl | hl
      · cases h
        rw [byte_of_pendingCr hs hp]
        rfl
      · cases rest with
        | nil => cases hl
        | cons o rest => rwa [List.getLast?_cons_cons]
    | complete orig taken =>
      rw [hs] at h
      cases taken <;> cases h
    | tooLarge next =>
      rw [hs] at h
      cases h

end Lazy

section Drains

variable {bs : Bytes}

theorem drainFrames_of_none (h : sseFrameEnd bs = none) : drainFrames bs = ([], bs) := by
  rw [drainFrames]
  split
  · rfl
  · rename_i hs
    rw [h] at hs
    cases hs

theorem drainFrames_of_some {size : ℕ} (h : sseFrameEnd bs = some size) :
    drainFrames bs =
      (bs.take size :: (drainFrames (bs.drop size)).1, (drainFrames (bs.drop size)).2) := by
  rw [drainFrames]
  split
  · rename_i hn
    rw [h] at hn
    cases hn
  · rename_i size' hs
    rw [h] at hs
    cases hs
    rfl

/-- Induction over the frames of a buffer. -/
theorem frame_induction {P : Bytes → Prop} (last : ∀ bs, sseFrameEnd bs = none → P bs)
    (frame : ∀ bs size, sseFrameEnd bs = some size → P (bs.drop size) → P bs)
    (bs : Bytes) : P bs := by
  induction hl : bs.length using Nat.strong_induction_on generalizing bs with
  | _ length ih =>
    cases he : sseFrameEnd bs with
    | none => exact last bs he
    | some size =>
      have hb := sseFrameEndFrom_bounds he
      refine frame bs size he (ih (bs.drop size).length ?_ (bs.drop size) rfl)
      rw [length_drop]
      omega

theorem length_drainFrames_le (bs : Bytes) : (drainFrames bs).2.length ≤ bs.length := by
  induction bs using frame_induction with
  | last bs he =>
    rw [drainFrames_of_none he]
  | frame bs size he ih =>
    rw [drainFrames_of_some he]
    rw [length_drop] at ih
    dsimp only
    omega

theorem sseFrameEnd_of_mem (bs : Bytes) :
    ∀ fr ∈ (drainFrames bs).1, sseFrameEnd fr = some fr.length := by
  induction bs using frame_induction with
  | last bs he =>
    rw [drainFrames_of_none he]
    exact forall_mem_nil _
  | frame bs size he ih =>
    rw [drainFrames_of_some he]
    refine forall_mem_cons.mpr ⟨?_, ih⟩
    rw [length_take, Nat.min_eq_left (sseFrameEndFrom_bounds he).2]
    exact sseFrameEndFrom_take he

variable (codec : JsonCodec) (format : ApiFormat)

theorem matchesEvent_empty (ev : Option Bytes) (v : Json) :
    (SseEventPatchPlan.empty format).matchesEvent ev v = false := by
  cases format with
  | openAiChatCompletions => exact Bool.and_false _
  | openAiResponses =>
    simp only [SseEventPatchPlan.empty, SseEventPatchPlan.matchesEvent]
    cases (v.get (utf8 "type")).bind Json.asStr with
    | none => rfl
    | some eventType =>
      dsimp only
      cases responseSelector eventType with
      | none => rfl
      | some selector => exact Bool.and_false _
  | openAiImages => rfl

theorem transformSseFrame_empty (fr : Bytes) :
    transformSseFrame codec fr (SseEventPatchPlan.empty format) = .ok fr := by
  refine transformSseFrame_of_not_matched ?_
  simp only [SseEventPatchPlan.matchesFrame, matchesEvent_empty, Bool.and_false]
  cases (SseFields.ofLines (headLines fr).1).data.bind codec.parse <;> rfl

/-- The transformer's framer: a transformer without operations, on what follows a scan. -/
def framerRun (scan : FrameScan) (bytes : Bytes) : StreamRun format :=
  SseTransformer.drain codec ⟨SseEventPatchPlan.empty format, scan, some bytes⟩

def framerFrames (run : StreamRun format) : List Bytes := run.emitted.map TransformedFrame.original

/-- The frame that waits for the byte behind its CR. -/
def heldFrames (scan : FrameScan) : List Bytes := if endsFrame scan then [scan.frame] else []

/-- What an eager framer has left where a lazy one has this scan. -/
def leftBytes (scan : FrameScan) : Bytes := if endsFrame scan then [] else scan.frame

/-- The scan a framer reaches from the start on its unfinished frame. -/
def Reached (scan : FrameScan) : Prop := cutFrame .fresh scan.frame = .drained scan

theorem reached_of_drained {scan : FrameScan}
    (h : cutFrame .fresh bs = .drained scan) : scan.frame = bs ∧ Reached scan := by
  have ha := accounts_cutFrame .fresh (Nat.zero_le _) bs
  rw [h] at ha
  have hf : scan.frame = bs := ha.1
  exact ⟨hf, by rw [Reached, hf, h]⟩

/-- An eager drain cuts the frames of the lazy one and the frame that is held back. -/
theorem drainFrames_eq_framerRun (bs : Bytes) (hro : bs.length ≤ FrameScan.maxFrameBytes) :
    let run := framerRun codec format .fresh bs
    run.failure = none ∧ Reached run.transformer.scan ∧
      drainFrames bs = (framerFrames format run ++ heldFrames run.transformer.scan,
        leftBytes run.transformer.scan) := by
  have ha : ∀ bs : Bytes, bs.length ≤ FrameScan.maxFrameBytes →
      CutAgrees [] bs (cutFrame .fresh bs) (sseFrameEnd bs) :=
    fun bs hro => cutAgrees_cutFrame [] false bs (by simpa using hro)
  induction bs using frame_induction with
  | last bs he =>
    have ha := he ▸ ha bs hro
    obtain ⟨scan, hc, -, hen⟩ := ha
    obtain ⟨hfr, hr⟩ := reached_of_drained hc
    rw [framerRun, drain_of_drained hc, drainFrames_of_none he]
    refine ⟨rfl, hr, ?_⟩
    simp [framerFrames, heldFrames, leftBytes, hen, hfr]
  | frame bs size he ih =>
    have ha := he ▸ ha bs hro
    rw [drainFrames_of_some he]
    rcases ha with hc | ⟨hs, hc⟩
    · obtain ⟨hf, hr, hd⟩ := ih (by rw [length_drop]; omega)
      rw [framerRun, drain_of_complete_ok hc (transformSseFrame_empty codec format _)]
      refine ⟨hf, hr, ?_⟩
      rw [hd]
      rfl
    · obtain ⟨-, hr⟩ := reached_of_drained hc
      rw [framerRun, drain_of_drained hc]
      refine ⟨rfl, hr, ?_⟩
      have hn : drainFrames [] = ([], []) := drainFrames_of_none rfl
      rw [hs, take_length, drop_length, hn]
      rfl

def frameFields (frame : Bytes) : SseFields := SseFields.ofLines (headLines frame).1

def isVisible (fields : SseFields) : Bool := fields.event.isSome || fields.data.isSome

/-- The event and data of the frames that have either, as the transformer reads them. -/
def visible (frames : List Bytes) : List SseFields := (frames.map frameFields).filter isVisible

/-- The same, as the usage collector reads them. -/
def usageVisible (frames : List Bytes) : List SseFields := (frames.map usageFields).filter isVisible

theorem visible_append (first second : List Bytes) :
    visible (first ++ second) = visible first ++ visible second := by
  rw [visible, map_append, filter_append]
  rfl

theorem usageVisible_append (first second : List Bytes) :
    usageVisible (first ++ second) = usageVisible first ++ usageVisible second := by
  rw [usageVisible, map_append, filter_append]
  rfl

theorem usageVisible_drainFrames (bs : Bytes) :
    usageVisible (drainFrames bs).1 = visible (drainFrames bs).1 := by
  have hs : (drainFrames bs).1.map usageFields = (drainFrames bs).1.map frameFields :=
    map_congr_left (fun fr hm => usageFields_of_completeFrame
      (completeFrame_of_sseFrameEnd (sseFrameEnd_of_mem bs fr hm)))
  rw [usageVisible, hs]
  rfl

variable {scan : FrameScan}

/-- An LF behind the last CR of a frame belongs to its blank line. -/
theorem frameFields_append_lf (hr : Reached scan)
    (hro : scan.frame.length ≤ FrameScan.maxFrameBytes) (hen : endsFrame scan = true) :
    frameFields (scan.frame ++ [10]) = frameFields scan.frame := by
  have ha : CutAgrees [] scan.frame (cutFrame .fresh scan.frame)
      (sseFrameEndFrom true scan.frame) :=
    cutAgrees_cutFrame [] false scan.frame (by simpa using hro)
  rw [show cutFrame .fresh scan.frame = .drained scan from hr] at ha
  have hb : IsBlank (headLines scan.frame).2 := by
    cases he : sseFrameEndFrom true scan.frame with
    | none =>
      rw [he] at ha
      obtain ⟨o, hot, -, hop⟩ := ha
      cases hot
      rw [hen] at hop
      cases hop
    | some size =>
      rw [he] at ha
      rcases ha with hc | ⟨rfl, -⟩
      · cases hc
      · have hb := completeFrame_of_sseFrameEnd he
        exact hb
  have hp : scan.pendingCr = true := (Bool.and_eq_true_iff.mp hen).1
  obtain ⟨hby, hli⟩ := headLines_spec scan.frame
  -- the frame ends in a CR, so its blank line is that CR
  have hcr : (headLines scan.frame).2 = [13] := by
    have hl := getLast_of_pendingCr hr hp
    rcases hb.cases with h | h | h
    · rw [hby, h] at hl
      simp at hl
    · rw [hby, h] at hl
      simp at hl
    · exact h
  have hlf : scan.frame ++ [10] = (headLines scan.frame).1.flatMap Line.bytes ++ [13, 10] := by
    conv_lhs => rw [hby, hcr, append_assoc]
    rfl
  have hre := headLines_flatMap hli (show IsBlank [13, 10] from rfl)
  rw [frameFields, hlf]
  rcases hre with hre | ⟨_, _, _, hne, _⟩
  · rw [hre]
    rfl
  · cases hne

/-- One chunk: what the usage collector has cut and what it has left follow from the framer's scan. -/
theorem usageVisible_chunk (hr : Reached scan) (bs : Bytes)
    (hro : scan.frame.length + bs.length ≤ FrameScan.maxFrameBytes) :
    let run := framerRun codec format scan bs
    let drained := drainFrames (leftBytes scan ++ bs)
    run.failure = none ∧ Reached run.transformer.scan ∧ drained.2 = leftBytes run.transformer.scan ∧
      visible (heldFrames scan) ++ usageVisible drained.1 =
        visible (framerFrames format run ++ heldFrames run.transformer.scan) := by
  dsimp only
  rw [usageVisible_drainFrames]
  cases he : endsFrame scan with
  | false =>
    have ha := cutFrame_append .fresh scan.frame bs
    rw [show cutFrame .fresh scan.frame = .drained scan from hr] at ha
    have hs : framerRun codec format scan bs =
        framerRun codec format .fresh (scan.frame ++ bs) := (drain_congr ha).symm
    obtain ⟨hf, hr', hd⟩ := drainFrames_eq_framerRun codec format
      (scan.frame ++ bs) (by rwa [length_append])
    have hl : leftBytes scan = scan.frame := by rw [leftBytes, he, if_neg Bool.false_ne_true]
    have hh : heldFrames scan = [] := by rw [heldFrames, he, if_neg Bool.false_ne_true]
    rw [hl, hh, hs, hd]
    exact ⟨hf, hr', rfl, rfl⟩
  | true =>
    have hl : leftBytes scan = [] := by rw [leftBytes, he, if_pos rfl]
    rw [hl, nil_append]
    obtain ⟨fr, ct, pend⟩ := scan
    obtain ⟨rfl, hc⟩ := Bool.and_eq_true_iff.mp he
    obtain rfl : ct = false := by simpa using hc
    cases bs with
    | nil =>
      rw [framerRun, drain_of_drained rfl, drainFrames_of_none rfl]
      refine ⟨rfl, hr, hl.symm, ?_⟩
      exact append_nil (visible [fr])
    | cons byte rest =>
      rw [length_cons] at hro
      by_cases hlf : byte = 10
      · subst hlf
        have hfu : fr.length ≠ FrameScan.maxFrameBytes := by
          dsimp only at hro
          omega
        have hcu : cutFrame ⟨fr, false, true⟩ (10 :: rest) = .complete (fr ++ [10]) rest := by
          simp [cutFrame, FrameScan.step, FrameScan.append, hfu, FrameScan.finishLine]
        have hen : sseFrameEnd (10 :: rest) = some 1 := by
          rw [sseFrameEnd, sseFrameEndFrom_lf, if_pos rfl]
        obtain ⟨hf, hr', hd⟩ := drainFrames_eq_framerRun codec format rest (by omega)
        have hfi := frameFields_append_lf hr (by dsimp only at hro ⊢; omega) he
        rw [framerRun, drain_of_complete_ok hcu (transformSseFrame_empty codec format _),
          drainFrames_of_some hen]
        rw [drop_one, tail_cons, hd]
        refine ⟨hf, hr', rfl, ?_⟩
        have hin : visible [List.take 1 (10 :: rest)] = [] := by
          simp [visible, frameFields, headLines_of_isBlank (show IsBlank [10] from rfl),
            SseFields.ofLines, SseFields.readFrom, SseFields.empty, isVisible]
        have hfr : visible [fr ++ [10]] = visible [fr] := by
          simp only [visible, map_cons, map_nil, hfi]
        change visible [fr] ++ visible ([List.take 1 (10 :: rest)] ++ _) =
          visible ([fr ++ [10]] ++ _ ++ _)
        rw [visible_append, hin, append_assoc, visible_append [fr ++ [10]], hfr]
        rfl
      · have hcu : cutFrame ⟨fr, false, true⟩ (byte :: rest) = .complete fr (byte :: rest) := by
          simp [cutFrame, FrameScan.step, FrameScan.finishLine, hlf]
        obtain ⟨hf, hr', hd⟩ := drainFrames_eq_framerRun codec format (byte :: rest)
          (by rw [length_cons]; omega)
        rw [framerRun, drain_of_complete_ok hcu (transformSseFrame_empty codec format _), hd]
        refine ⟨hf, hr', rfl, ?_⟩
        rw [← visible_append]
        rfl

theorem framerRun_append {first : Bytes}
    (hf : (framerRun codec format scan first).failure = none) (second : Bytes) :
    let run := framerRun codec format scan first
    let next := framerRun codec format run.transformer.scan second
    let whole := framerRun codec format scan (first ++ second)
    framerFrames format whole = framerFrames format run ++ framerFrames format next ∧
      whole.failure = next.failure ∧ whole.transformer.scan = next.transformer.scan := by
  have ha : (framerRun codec format scan (first ++ second)).observed = _ :=
    drain_append scan first second
  have ht : (framerRun codec format scan first).transformer = _ :=
    transformer_drain scan first hf
  have hp : (framerRun codec format scan first).transformer.push second =
      ⟨SseEventPatchPlan.empty format, (framerRun codec format scan first).transformer.scan,
        some second⟩ := by
    rw [ht]
    rfl
  change _ = (framerRun codec format scan first).followedBy codec second at ha
  rw [StreamRun.followedBy, hf, hp] at ha
  simp only [isSome_none, Bool.false_eq_true, if_false, StreamRun.observed, Prod.mk.injEq]
    at ha
  refine ⟨?_, ha.2.1, ha.2.2⟩
  rw [framerFrames, ha.1, map_append]
  rfl

theorem length_framerRun_le (hr : scan.frame.length ≤ FrameScan.maxFrameBytes)
    (hf : (framerRun codec format scan bs).failure = none) :
    (framerRun codec format scan bs).transformer.scan.frame.length ≤
      scan.frame.length + bs.length := by
  have ha : (framerRun codec format scan bs).Accounts codec _ (scan.frame ++ bs) :=
    accounts_drain scan hr bs
  obtain ⟨left, hle, he⟩ := ha.bytes
  have hl := congrArg List.length hle
  rw [length_append, length_append] at hl
  rw [← he hf]
  omega

/-- Any number of chunks: the two framers show the same events and data, up to the frame that the
transformer's holds back. -/
theorem usageVisible_chunks (hr : Reached scan) (chunks : List Bytes)
    (hro : scan.frame.length + chunks.flatten.length ≤ FrameScan.maxFrameBytes) :
    let run := framerRun codec format scan chunks.flatten
    let cut := framesOfChunks (leftBytes scan) chunks
    run.failure = none ∧ cut.2 = leftBytes run.transformer.scan ∧
      visible (heldFrames scan) ++ usageVisible cut.1 =
        visible (framerFrames format run ++ heldFrames run.transformer.scan) := by
  induction chunks generalizing scan with
  | nil =>
    rw [framerRun, drain_of_drained rfl]
    exact ⟨rfl, rfl, append_nil _⟩
  | cons chunk chunks ih =>
    rw [flatten_cons, length_append] at hro
    obtain ⟨hf, hr', hl, hv⟩ := usageVisible_chunk codec format hr chunk (by omega)
    have hle := length_framerRun_le codec format (show scan.frame.length ≤ _ by omega) hf
    obtain ⟨hf', hl', hv'⟩ := ih hr' (by omega)
    obtain ⟨hfr, hs, hsc⟩ := framerRun_append codec format hf chunks.flatten
    dsimp only at hfr hs hsc hf' hl' hv' hv hl ⊢
    rw [flatten_cons, hs, hsc, hfr, framesOfChunks]
    rw [hl]
    refine ⟨hf', hl', ?_⟩
    calc visible (heldFrames scan) ++ usageVisible (_ ++ _)
        = (visible (heldFrames scan) ++ usageVisible (drainFrames (leftBytes scan ++ chunk)).1) ++
            usageVisible (framesOfChunks (leftBytes
              (framerRun codec format scan chunk).transformer.scan) chunks).1 := by
          rw [usageVisible_append, append_assoc]
      _ = _ := by
          rw [hv, visible_append, append_assoc, hv', ← visible_append, append_assoc]

end Drains

end AiGateway.Usage
