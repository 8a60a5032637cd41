import AiGateway.Lib.Bytes

/-! UTF-8 texts as bytes: which bytes are a text, and the white space around one. -/
namespace AiGateway.Lib

def isContinuation (byte : UInt8) : Bool := 0x80 ≤ byte && byte ≤ 0xBF

/-- The bytes that may follow the first byte of a character of three bytes. -/
def secondOfThree (first second : UInt8) : Bool :=
  if first = 0xE0 then 0xA0 ≤ second && second ≤ 0xBF
  else if first = 0xED then 0x80 ≤ second && second ≤ 0x9F
  else isContinuation second

def secondOfFour (first second : UInt8) : Bool :=
  if first = 0xF0 then 0x90 ≤ second && second ≤ 0xBF
  else if first = 0xF4 then 0x80 ≤ second && second ≤ 0x8F
  else isContinuation second

/-- Shortest encodings of scalar values only: no surrogates and nothing above the last plane. -/
def validUtf8 : Bytes → Bool
  | [] => true
  | first :: rest =>
    if first < 0x80 then validUtf8 rest
    else if 0xC2 ≤ first && first ≤ 0xDF then
      match rest with
      | second :: rest => isContinuation second && validUtf8 rest
      | [] => false
    else if 0xE0 ≤ first && first ≤ 0xEF then
      match rest with
      | second :: third :: rest =>
        secondOfThree first second && isContinuation third && validUtf8 rest
      | _ => false
    else if 0xF0 ≤ first && first ≤ 0xF4 then
      match rest with
      | second :: third :: fourth :: rest =>
        secondOfFour first second && isContinuation third && isContinuation fourth && validUtf8 rest
      | _ => false
    else false

theorem not_within {byte low : UInt8} (hb : byte < 0x80) (hl : 0x80 ≤ low) (high : UInt8) :
    (decide (low ≤ byte) && decide (byte ≤ high)) = false := by
  have h : ¬ low ≤ byte := fun hle => UInt8.not_le.mpr hb (UInt8.le_trans hl hle)
  rw [decide_eq_false h, Bool.false_and]

/-- A character of one byte separates texts: no longer character goes across it. -/
theorem validUtf8_append_ascii {byte : UInt8} (hb : byte < 0x80) (text rest : Bytes) :
    validUtf8 (text ++ byte :: rest) = (validUtf8 text && validUtf8 rest) := by
  have hn : isContinuation byte = false := not_within hb (by decide) _
  have htr : ∀ first, secondOfThree first byte = false := by
    intro first
    unfold secondOfThree isContinuation
    split_ifs <;> exact not_within hb (by decide) _
  have hf : ∀ first, secondOfFour first byte = false := by
    intro first
    unfold secondOfFour isContinuation
    split_ifs <;> exact not_within hb (by decide) _
  fun_induction validUtf8 text with
  | case1 =>
    rw [validUtf8.eq_def]
    simp [hb]
  | case2 first text hon ih =>
    rw [validUtf8.eq_def]
    simp [hon, ih]
  | case3 first hon ht second text ih => simp [validUtf8, hon, ht, ih, Bool.and_assoc]
  | case4 first hon ht => simp [validUtf8, hon, ht, hn]
  | case5 first hon ht hs second third text ih =>
    simp [validUtf8, hon, ht, hs, ih, Bool.and_assoc]
  | case6 first text hon ht hs hsh =>
    rcases text with - | ⟨second, - | ⟨third, text⟩⟩
    · cases rest <;> simp [validUtf8, hon, ht, hs, htr]
    · simp [validUtf8, hon, ht, hs, hn]
    · exact (hsh second third text rfl).elim
  | case7 first hon ht hth hs second third fourth text ih =>
    simp [validUtf8, hon, ht, hth, hs, ih, Bool.and_assoc]
  | case8 first text hon ht hth hs hsh =>
    rcases text with - | ⟨second, - | ⟨third, - | ⟨fourth, text⟩⟩⟩
    · rcases rest with - | ⟨_, - | ⟨_, _⟩⟩ <;> simp [validUtf8, hon, ht, hth, hs, hf]
    · cases rest <;> simp [validUtf8, hon, ht, hth, hs, hn]
    · simp [validUtf8, hon, ht, hth, hs, hn]
    · exact (hsh second third fourth text rfl).elim
  | case9 first text hon ht hth hs =>
    rw [validUtf8.eq_def]
    simp [hon, ht, hth, hs]

/-- The encodings of the white space characters. -/
def whitespace : List Bytes :=
  [[0x09], [0x0A], [0x0B], [0x0C], [0x0D], [0x20], [0xC2, 0x85], [0xC2, 0xA0], [0xE1, 0x9A, 0x80],
    [0xE2, 0x80, 0x80], [0xE2, 0x80, 0x81], [0xE2, 0x80, 0x82], [0xE2, 0x80, 0x83],
    [0xE2, 0x80, 0x84], [0xE2, 0x80, 0x85], [0xE2, 0x80, 0x86], [0xE2, 0x80, 0x87],
    [0xE2, 0x80, 0x88], [0xE2, 0x80, 0x89], [0xE2, 0x80, 0x8A], [0xE2, 0x80, 0xA8],
    [0xE2, 0x80, 0xA9], [0xE2, 0x80, 0xAF], [0xE2, 0x81, 0x9F], [0xE3, 0x80, 0x80]]

/-- Strips the characters from the front, at most as many as there is fuel. -/
def stripFront (characters : List Bytes) : ℕ → Bytes → Bytes
  | 0, text => text
  | fuel + 1, text =>
    match characters.find? (fun character => character.isPrefixOf text) with
    | none => text
    | some character => stripFront characters fuel (text.drop character.length)

/-- The text without the white space around it; no character is empty, so its length is fuel enough. -/
def trim (text : Bytes) : Bytes :=
  let front := stripFront whitespace text.length text
  (stripFront (whitespace.map List.reverse) front.length front.reverse).reverse

end AiGateway.Lib
