import AiGateway.Streaming.Adapter

/-! The lines of encoded events, and what a usage collector reads of a whole frame. -/
namespace AiGateway.Streaming
open List Option

open Lib Lib.Stage Domain Transforms Usage

section Wire

/-- One event, with its blank line or cut off by the end of the stream before it. -/
def WholeFrame (frame : Bytes) : Prop :=
  sseFrameEnd frame = some frame.length ∨ sseFrameEnd frame = none

def contentLines (bytes : Bytes) : List Bytes :=
  (bytes.splitOnP isBreak).filter (fun line => !line.isEmpty)

variable {ct fr line enc ending rest bs : Bytes}

theorem isBreak_of_noBreak (h : NoBreak ct) : ∀ byte ∈ ct, isBreak byte = false := by
  intro byte hm
  have hb := h byte hm
  simp [isBreak, hb.1, hb.2]

theorem contentLines_append (hc : NoBreak ct)
    (he : ending = [10] ∨ ending = [13, 10] ∨ ending = [13]) :
    contentLines (ct ++ ending ++ rest) = (if ct = [] then [] else [ct]) ++ contentLines rest := by
  have hf : ∀ (byte : UInt8) (after : Bytes), isBreak byte = true →
      contentLines (ct ++ byte :: after) =
        (if ct = [] then [] else [ct]) ++ contentLines after := by
    intro byte after hb
    rw [contentLines, splitOnP_append_cons_of_forall_mem (isBreak_of_noBreak hc) byte hb]
    cases ct <;> rfl
  have hem : ∀ after : Bytes, contentLines (10 :: after) = contentLines after := by
    intro after
    have hn : ∀ byte ∈ ([] : Bytes), isBreak byte = false := forall_mem_nil _
    rw [contentLines, ← nil_append (10 :: after),
      splitOnP_append_cons_of_forall_mem hn 10 rfl]
    rfl
  rw [append_assoc]
  rcases he with rfl | rfl | rfl
  · exact hf 10 rest rfl
  · rw [← hem rest]
    exact hf 13 (10 :: rest) rfl
  · exact hf 13 rest rfl

theorem noBreak_of_nextLine_none (h : nextLine bs = none) : NoBreak bs := by
  induction bs with
  | nil => exact forall_mem_nil _
  | cons byte bs ih =>
    rw [nextLine] at h
    cases hb : lineBreak (byte :: bs) with
    | some split =>
      rw [hb] at h
      cases h
    | none =>
      rw [hb] at h
      refine forall_mem_cons.mpr ⟨lineBreak_eq_none hb, ih ?_⟩
      exact map_eq_none_iff.mp h

/-- In a whole frame the collector reads every line with content. -/
theorem contentLines_of_wholeFrame (h : WholeFrame fr) :
    contentLines fr = usageLines fr := by
  induction hl : fr.length using Nat.strong_induction_on generalizing fr with
  | _ length ih =>
    rw [usageLines]
    split
    · rename_i hn
      have hbr := isBreak_of_noBreak (noBreak_of_nextLine_none hn)
      rw [contentLines, splitOnP_eq_singleton hbr]
      cases fr <;> rfl
    · rename_i line rest hn
      obtain ⟨hby, hc, hbr⟩ := nextLine_eq_some hn
      have he : line.ending = [10] ∨ line.ending = [13, 10] ∨ line.ending = [13] := by
        rcases (lineBreak_eq_some hbr).2 with h | h | h
        · exact .inl h
        · exact .inr (.inl h)
        · exact .inr (.inr h.1)
      have hs : fr.length = line.bytes.length + rest.length := by
        rw [hby, length_append]
      have hf : contentLines fr =
          (if line.content = [] then [] else [line.content]) ++ contentLines rest := by
        rw [← contentLines_append hc he, ← Line.bytes, ← hby]
      rw [WholeFrame, sseFrameEnd, sseFrameEndFrom_eq_lines, hn] at h
      rw [hf]
      by_cases hb : line.content = []
      · have hr : rest = [] := by
          simp only [hb, and_self, if_true, some_inj, reduceCtorEq, or_false, Line.bytes,
            nil_append] at h hs
          exact length_eq_zero_iff.mp (by omega)
        rw [if_pos hb, if_pos hb, hr]
        rfl
      · have hr : WholeFrame rest := by
          simp only [hb, and_false, if_false, map_eq_some_iff, map_eq_none_iff] at h
          refine h.imp ?_ id
          rintro ⟨size, hen, hsu⟩
          rw [sseFrameEnd, hen]
          exact congrArg some (by omega)
        rw [if_neg hb, if_neg hb, ih rest.length (hl ▸ length_lt_of_nextLine hn) hr rfl]
        rfl

theorem fields_foldl_readLine (lines : List Bytes) (start : EventLines) :
    (lines.foldl EventLines.readLine start).fields = lines.foldl SseFields.readLine start.fields := by
  induction lines generalizing start with
  | nil => rfl
  | cons line lines ih => exact ih _

/-- Lines with content, each ended by a line feed, and a blank line. -/
theorem sseFrameEnd_of_lines {lines : List Bytes} (h : ∀ line ∈ lines, line ≠ [] ∧ NoBreak line) :
    sseFrameEnd (lines.flatMap (· ++ [10]) ++ [10]) =
      some (lines.flatMap (· ++ [10]) ++ [10]).length := by
  induction lines with
  | nil => rfl
  | cons line lines ih =>
    obtain ⟨⟨hne, hli⟩, hl⟩ := forall_mem_cons.mp h
    have hn : nextLine (line ++ [10] ++ (lines.flatMap (· ++ [10]) ++ [10])) =
        some (⟨line, [10]⟩, lines.flatMap (· ++ [10]) ++ [10]) := by
      rw [append_assoc]
      exact nextLine_of_break hli rfl
    have hr := ih hl
    rw [flatMap_cons, append_assoc, sseFrameEnd, sseFrameEndFrom_eq_lines, hn]
    rw [sseFrameEnd] at hr
    simp [hne, hr, Line.bytes]
    omega

def ResponseEvent.lines (event : ResponseEvent) : List Bytes :=
  event.event.toList.map (utf8 "event: " ++ ·) ++ event.id.toList.map (utf8 "id: " ++ ·) ++
    (event.data.splitOn 10).map (utf8 "data: " ++ ·)

theorem encodeField_eq_ok {name : String} {v : Option Bytes}
    (hn : NoBreak (utf8 (name ++ ": ")) ∧ utf8 (name ++ ": ") ≠ [])
    (h : encodeField name v = .ok line) :
    line = (v.toList.map (utf8 (name ++ ": ") ++ ·)).flatMap (· ++ [10]) ∧
      (∀ line ∈ v.toList.map (utf8 (name ++ ": ") ++ ·), line ≠ [] ∧ NoBreak line) ∧
      ∀ text ∈ v, (0 : UInt8) ∉ text := by
  cases v with
  | none =>
    cases h
    exact ⟨rfl, forall_mem_nil _, fun _ hm => by cases hm⟩
  | some v =>
    simp only [encodeField, bind_eq_ok, ensure_eq_ok] at h
    obtain ⟨-, hv, hl⟩ := h
    cases hl
    have hby : ∀ byte ∈ v, (byte ≠ 10 ∧ byte ≠ 13) ∧ byte ≠ 0 := by
      intro byte hm
      have hb := any_eq_false.mp (Bool.not_eq_true' _ ▸ hv) byte hm
      simp only [isBreak, Bool.or_eq_true, decide_eq_true_eq, not_or] at hb
      exact ⟨⟨hb.1.2, hb.1.1⟩, hb.2⟩
    refine ⟨(append_nil _).symm, forall_mem_singleton.mpr ⟨append_ne_nil_of_left_ne_nil hn.2 _, ?_⟩, ?_⟩
    · exact forall_mem_append.mpr ⟨hn.1, fun byte hm => (hby byte hm).1⟩
    · rintro text ⟨⟩ hz
      exact (hby 0 hz).2 rfl

theorem encodeDataLine_eq_ok (hl : (10 : UInt8) ∉ line) (h : encodeDataLine line = .ok enc) :
    enc = (utf8 "data: " ++ line) ++ [10] ∧ NoBreak (utf8 "data: " ++ line) := by
  simp only [encodeDataLine, bind_eq_ok, ensure_eq_ok] at h
  obtain ⟨-, hcr, he⟩ := h
  cases he
  refine ⟨rfl, forall_mem_append.mpr ⟨?_, fun byte hm => ⟨?_, ?_⟩⟩⟩
  · decide +kernel
  · rintro rfl
    exact hl hm
  · rintro rfl
    simp [hm] at hcr

theorem encodeDataLines_eq_ok {pieces data : List Bytes} (hp : ∀ piece ∈ pieces, (10 : UInt8) ∉ piece)
    (h : List.Forall₂ (fun line enc => encodeDataLine line = .ok enc) pieces data) :
    data.flatten = (pieces.map (utf8 "data: " ++ ·)).flatMap (· ++ [10]) ∧
      ∀ line ∈ pieces.map (utf8 "data: " ++ ·), line ≠ [] ∧ NoBreak line := by
  induction h with
  | nil => exact ⟨rfl, forall_mem_nil _⟩
  | @cons piece enc pieces data hpi hr ih =>
    obtain ⟨hh, ht⟩ := forall_mem_cons.mp hp
    obtain ⟨rfl, hli⟩ := encodeDataLine_eq_ok hh hpi
    obtain ⟨hf, hl⟩ := ih ht
    refine ⟨by rw [flatten_cons, hf]; rfl, forall_mem_cons.mpr ⟨⟨?_, hli⟩, hl⟩⟩
    exact append_ne_nil_of_left_ne_nil (by decide) _

/-- An encoded event: its lines, each with content, and a blank line. -/
theorem encodeEvent_eq_ok {ev : ResponseEvent} (h : encodeEvent ev = .ok enc) :
    enc = ev.lines.flatMap (· ++ [10]) ++ [10] ∧
      (∀ line ∈ ev.lines, line ≠ [] ∧ NoBreak line) ∧ (∀ id ∈ ev.id, (0 : UInt8) ∉ id) ∧
      enc.length ≤ FrameScan.maxFrameBytes := by
  simp only [encodeEvent, bind_eq_ok, ensure_eq_ok, decide_eq_true_eq, mapM_eq_ok] at h
  obtain ⟨name, hna, id, hid, data, hd, -, hl, he⟩ := h
  obtain ⟨rfl, hn, -⟩ := encodeField_eq_ok (by unfold NoBreak; decide +kernel) hna
  obtain ⟨rfl, hiL, hz⟩ := encodeField_eq_ok (by unfold NoBreak; decide +kernel) hid
  obtain ⟨hf, hli⟩ := encodeDataLines_eq_ok (fun piece hm => not_mem_of_mem_splitOn hm) hd
  rw [hf, ← flatMap_append, ← flatMap_append] at hl he
  cases he
  refine ⟨rfl, ?_, hz, hl⟩
  exact forall_mem_append.mpr ⟨forall_mem_append.mpr ⟨hn, hiL⟩, hli⟩

theorem sseFrameEnd_encodeEvent {ev : ResponseEvent} (h : encodeEvent ev = .ok enc) :
    sseFrameEnd enc = some enc.length ∧ enc.length ≤ FrameScan.maxFrameBytes := by
  obtain ⟨rfl, hli, -, hl⟩ := encodeEvent_eq_ok h
  exact ⟨sseFrameEnd_of_lines hli, hl⟩

end Wire

end AiGateway.Streaming
