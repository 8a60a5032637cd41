import AiGateway.Lib.Bytes
import Mathlib.Data.List.Basic

/-! Texts read line by line, where LF, CR and CRLF each end a line. -/
namespace AiGateway.Lib
open List

structure Line where
  content : Bytes
  ending : Bytes
  deriving DecidableEq

def Line.bytes (line : Line) : Bytes := line.content ++ line.ending

/-- The line break the bytes start with. -/
def lineBreak : Bytes → Option (Bytes × Bytes)
  | [] => none
  | byte :: rest =>
    if byte = 10 then some ([10], rest)
    else if byte = 13 then
      if rest.head? = some 10 then some ([13, 10], rest.tail) else some ([13], rest)
    else none

def nextLine : Bytes → Option (Line × Bytes)
  | [] => none
  | byte :: rest =>
    match lineBreak (byte :: rest) with
    | some (ending, after) => some (⟨[], ending⟩, after)
    | none => (nextLine rest).map (fun next => (⟨byte :: next.1.content, next.1.ending⟩, next.2))

def NoBreak (content : Bytes) : Prop := ∀ byte ∈ content, byte ≠ 10 ∧ byte ≠ 13

theorem lineBreak_cons_of_ne {byte : UInt8} (h : byte ≠ 10 ∧ byte ≠ 13) (rest : Bytes) :
    lineBreak (byte :: rest) = none := by
  rw [lineBreak, if_neg h.1, if_neg h.2]

variable {rest bs ending ct : Bytes} {line : Line}

theorem lineBreak_eq_none {byte : UInt8} (h : lineBreak (byte :: rest) = none) :
    byte ≠ 10 ∧ byte ≠ 13 := by
  simp only [lineBreak] at h
  split_ifs at h with hlf hcr
  exact ⟨hlf, hcr⟩

theorem lineBreak_eq_some (h : lineBreak bs = some (ending, rest)) :
    bs = ending ++ rest ∧
      (ending = [10] ∨ ending = [13, 10] ∨ ending = [13] ∧ rest.head? ≠ some 10) := by
  cases bs with
  | nil => cases h
  | cons byte after =>
    simp only [lineBreak] at h
    split_ifs at h with hlf hcr hn
    · cases h
      exact ⟨by rw [hlf]; rfl, .inl rfl⟩
    · cases h
      obtain ⟨tail, rfl⟩ := List.head?_eq_some_iff.mp hn
      exact ⟨by rw [hcr]; rfl, .inr (.inl rfl)⟩
    · cases h
      exact ⟨by rw [hcr]; rfl, .inr (.inr ⟨rfl, hn⟩)⟩

/-- A line is the bytes up to the first break and that break. -/
theorem nextLine_eq_some (h : nextLine bs = some (line, rest)) :
    bs = line.bytes ++ rest ∧ NoBreak line.content ∧
      lineBreak (line.ending ++ rest) = some (line.ending, rest) := by
  induction bs generalizing line with
  | nil => cases h
  | cons byte bs ih =>
    rw [nextLine] at h
    cases hb : lineBreak (byte :: bs) with
    | some split =>
      rw [hb] at h
      cases h
      have hby := (lineBreak_eq_some hb).1
      exact ⟨hby, forall_mem_nil _, hby ▸ hb⟩
    | none =>
      rw [hb] at h
      obtain ⟨⟨line', rest'⟩, hn, heq⟩ := Option.map_eq_some_iff.mp h
      cases heq
      obtain ⟨hby, hc, he⟩ := ih hn
      refine ⟨by rw [hby]; rfl, ?_, he⟩
      intro o hm
      rcases mem_cons.mp hm with rfl | hm
      · exact lineBreak_eq_none hb
      · exact hc o hm

theorem nextLine_of_break (hc : NoBreak ct)
    (he : lineBreak (ending ++ rest) = some (ending, rest)) :
    nextLine (ct ++ (ending ++ rest)) = some (⟨ct, ending⟩, rest) := by
  induction ct with
  | nil =>
    cases hb : ending ++ rest with
    | nil =>
      rw [hb] at he
      cases he
    | cons byte bs => rw [nil_append, nextLine, ← hb, he]
  | cons byte ct ih =>
    rw [cons_append, nextLine, lineBreak_cons_of_ne (hc byte mem_cons_self),
      ih (fun o hm => hc o (mem_cons_of_mem _ hm))]
    rfl

theorem length_lt_of_nextLine
    (h : nextLine bs = some (line, rest)) : rest.length < bs.length := by
  obtain ⟨hby, -, he⟩ := nextLine_eq_some h
  have hl := congrArg List.length hby
  rw [length_append, Line.bytes, length_append] at hl
  rcases (lineBreak_eq_some he).2 with hb | hb | ⟨hb, -⟩ <;>
    · rw [hb] at hl
      simp only [length_cons, length_nil] at hl
      omega

/-- The lines before the first blank one, and the bytes from there on. -/
def headLines (bytes : Bytes) : List Line × Bytes :=
  match _h : nextLine bytes with
  | none => ([], bytes)
  | some (line, rest) =>
    if line.content = [] then ([], bytes)
    else
      let below := headLines rest
      (line :: below.1, below.2)
termination_by bytes.length
decreasing_by exact length_lt_of_nextLine _h

theorem headLines_of_none (h : nextLine bs = none) : headLines bs = ([], bs) := by
  rw [headLines]
  split
  · rfl
  · rename_i hs
    rw [h] at hs
    cases hs

theorem headLines_of_some (h : nextLine bs = some (line, rest)) :
    headLines bs = if line.content = [] then ([], bs)
      else (line :: (headLines rest).1, (headLines rest).2) := by
  rw [headLines]
  split
  · rename_i hn
    rw [h] at hn
    cases hn
  · rename_i line' rest' hs
    rw [h] at hs
    cases hs
    rfl

section Rereading

/-- A line of a text: it has content, none of it a break, and ends in a break. -/
structure Line.WellFormed (line : Line) : Prop where
  nonempty : line.content ≠ []
  noBreak : NoBreak line.content
  ending : line.ending = [10] ∨ line.ending = [13, 10] ∨ line.ending = [13]

variable {line : Line} {rest : Bytes}

theorem wellFormed_of_nextLine
    (h : nextLine bs = some (line, rest)) (hc : line.content ≠ []) : line.WellFormed := by
  obtain ⟨-, hn, he⟩ := nextLine_eq_some h
  refine ⟨hc, hn, ?_⟩
  rcases (lineBreak_eq_some he).2 with h | h | ⟨h, -⟩
  · exact .inl h
  · exact .inr (.inl h)
  · exact .inr (.inr h)

theorem headLines_spec (bs : Bytes) :
    bs = (headLines bs).1.flatMap Line.bytes ++ (headLines bs).2 ∧
      ∀ line ∈ (headLines bs).1, line.WellFormed := by
  induction hl : bs.length using Nat.strong_induction_on generalizing bs with
  | _ length ih =>
    cases hn : nextLine bs with
    | none =>
      rw [headLines_of_none hn]
      exact ⟨rfl, forall_mem_nil _⟩
    | some next =>
      obtain ⟨line, rest⟩ := next
      rw [headLines_of_some hn]
      split_ifs with hb
      · exact ⟨rfl, forall_mem_nil _⟩
      · have hs := length_lt_of_nextLine hn
        obtain ⟨hr, hli⟩ := ih rest.length (hl ▸ hs) rest rfl
        refine ⟨?_, forall_mem_cons.mpr ⟨wellFormed_of_nextLine hn hb, hli⟩⟩
        rw [flatMap_cons, append_assoc, ← hr]
        exact (nextLine_eq_some hn).1

/-- A blank line and nothing behind it. -/
def IsBlank (rest : Bytes) : Prop := lineBreak rest = some (rest, [])

theorem IsBlank.cases (h : IsBlank rest) : rest = [10] ∨ rest = [13, 10] ∨ rest = [13] := by
  rcases (lineBreak_eq_some h).2 with h | h | ⟨h, -⟩
  · exact .inl h
  · exact .inr (.inl h)
  · exact .inr (.inr h)

theorem headLines_of_isBlank (h : IsBlank rest) : headLines rest = ([], rest) := by
  have hn : nextLine rest = some (⟨[], rest⟩, []) := by
    have hb : lineBreak (rest ++ []) = some (rest, []) := by rwa [append_nil]
    have hno : NoBreak [] := forall_mem_nil _
    have hl := nextLine_of_break hno hb
    rwa [nil_append, append_nil] at hl
  rw [headLines_of_some hn, if_pos rfl]

theorem headLines_cons (hl : line.WellFormed)
    (hr : line.ending = [13] → rest.head? ≠ some 10) :
    headLines (line.bytes ++ rest) = (line :: (headLines rest).1, (headLines rest).2) := by
  have hb : lineBreak (line.ending ++ rest) = some (line.ending, rest) := by
    rcases hl.ending with h | h | h
    · rw [h]
      rfl
    · rw [h]
      rfl
    · rw [h, singleton_append, lineBreak, if_neg (by decide), if_pos rfl, if_neg (hr h)]
  have hn : nextLine (line.bytes ++ rest) = some (line, rest) := by
    rw [Line.bytes, append_assoc]
    exact nextLine_of_break hl.noBreak hb
  rw [headLines_of_some hn, if_neg hl.nonempty]

theorem head?_bytes_ne (hl : line.WellFormed) (rest : Bytes) :
    (line.bytes ++ rest).head? ≠ some 10 := by
  obtain ⟨ct, ending⟩ := line
  cases ct with
  | nil => exact absurd rfl hl.nonempty
  | cons byte ct =>
    intro heq
    exact (hl.noBreak byte mem_cons_self).1 (Option.some_inj.mp heq)

theorem headLines_append {lines : List Line} (hl : ∀ line ∈ lines, line.WellFormed)
    (hr : ∀ line ∈ lines.getLast?, line.ending = [13] → rest.head? ≠ some 10) :
    headLines (lines.flatMap Line.bytes ++ rest) =
      (lines ++ (headLines rest).1, (headLines rest).2) := by
  induction lines with
  | nil => rfl
  | cons line lines ih =>
    obtain ⟨hli, hl⟩ := forall_mem_cons.mp hl
    rw [flatMap_cons, append_assoc]
    cases lines with
    | nil => exact headLines_cons hli (hr line rfl)
    | cons next lines =>
      rw [headLines_cons hli fun _ => ?_, ih hl hr]
      · rfl
      · rw [flatMap_cons, append_assoc]
        exact head?_bytes_ne (hl next mem_cons_self) _

/-- A CR at the end of the last line takes a blank LF as its second half. -/
theorem headLines_joined {lines pre : List Line} (hl : ∀ line ∈ lines, line.WellFormed)
    (hp : lines = pre ++ [⟨ct, [13]⟩]) :
    headLines (lines.flatMap Line.bytes ++ [10]) = (pre ++ [⟨ct, [13, 10]⟩], []) := by
  subst hp
  obtain ⟨hpr, hla⟩ := forall_mem_append.mp hl
  have hcr := hla _ (mem_singleton_self _)
  have hjo : (⟨ct, [13, 10]⟩ : Line).WellFormed := ⟨hcr.nonempty, hcr.noBreak, .inr (.inl rfl)⟩
  have hby : (pre ++ [(⟨ct, [13]⟩ : Line)]).flatMap Line.bytes ++ [10] =
      (pre ++ [(⟨ct, [13, 10]⟩ : Line)]).flatMap Line.bytes ++ [] := by
    simp [Line.bytes]
  rw [hby, headLines_append (forall_mem_append.mpr ⟨hpr, forall_mem_singleton.mpr hjo⟩) (by simp),
    headLines_of_none rfl, append_nil]

/-- Lines in front of a blank one are read back as they are, except that the last one can join it. -/
theorem headLines_flatMap {lines : List Line} (hl : ∀ line ∈ lines, line.WellFormed)
    (hre : IsBlank rest) :
    headLines (lines.flatMap Line.bytes ++ rest) = (lines, rest) ∨
      ∃ pre ct, lines = pre ++ [⟨ct, [13]⟩] ∧ rest = [10] ∧
        headLines (lines.flatMap Line.bytes ++ rest) = (pre ++ [⟨ct, [13, 10]⟩], []) := by
  by_cases hj : ∃ pre ct, lines = pre ++ [⟨ct, [13]⟩] ∧ rest = [10]
  · obtain ⟨pre, ct, rfl, rfl⟩ := hj
    exact .inr ⟨pre, ct, rfl, rfl, headLines_joined hl rfl⟩
  · rw [headLines_append hl, headLines_of_isBlank hre, append_nil]
    · exact .inl rfl
    · rintro ⟨ct, ending⟩ hm rfl
      obtain ⟨pre, hp⟩ := getLast?_eq_some_iff.mp hm
      rcases hre.cases with h | rfl | rfl
      · exact absurd ⟨pre, ct, hp, h⟩ hj
      · decide
      · decide

end Rereading

end AiGateway.Lib
