import AiGateway.Lib.Json
import AiGateway.Lib.Lines
import AiGateway.Lib.Numeral

/-! Compact JSON texts, and codecs that write every value and read the texts of some. -/
namespace AiGateway.Lib
open List

section Escapes

def hexDigit (digit : UInt8) : UInt8 := if digit < 10 then 48 + digit else 87 + digit

/-- The bytes with an escape of two characters. -/
def shortEscapes : List (UInt8 × UInt8) :=
  [(8, 98), (9, 116), (10, 110), (12, 102), (13, 114), (34, 34), (92, 92)]

def escapeByte (byte : UInt8) : Bytes :=
  match shortEscapes.lookup byte with
  | some letter => [92, letter]
  | none =>
    if byte < 32 then utf8 "\\u00" ++ [hexDigit (byte / 16), hexDigit (byte % 16)] else [byte]

def quoted (text : Bytes) : Bytes := 34 :: text.flatMap escapeByte ++ [34]

theorem escapeByte_spec (byte : UInt8) :
    (escapeByte byte).length ≤ 6 ∧ ∀ o ∈ escapeByte byte, o ≠ 10 ∧ o ≠ 13 := by
  have hall : ∀ n < 256, (escapeByte (UInt8.ofNat n)).length ≤ 6 ∧
      (escapeByte (UInt8.ofNat n)).all (fun o => o ≠ 10 ∧ o ≠ 13) = true := by decide +kernel
  obtain ⟨hl, ho⟩ := hall byte.toNat byte.toNat_lt
  rw [UInt8.ofNat_toNat] at hl ho
  exact ⟨hl, fun o hm => of_decide_eq_true (all_eq_true.mp ho o hm)⟩

theorem length_quoted_le (text : Bytes) : (quoted text).length ≤ 6 * text.length + 2 := by
  have hl : (text.flatMap escapeByte).length ≤ 6 * text.length := by
    induction text with
    | nil => rfl
    | cons byte text ih =>
      have hb := (escapeByte_spec byte).1
      rw [flatMap_cons, length_append, length_cons]
      omega
  simp only [quoted, length_append, length_cons, length_nil]
  omega

end Escapes

/-- A finite float is written in full, with one place at least: its digits end. -/
def JsonNumber.toNumeral : JsonNumber → Numeral
  | .int value => ⟨decide (value < 0), value.natAbs, 0⟩
  | .float bits =>
    let exponent := bits.toNat / 2 ^ 52 % 2 ^ 11
    let fraction := bits.toNat % 2 ^ 52
    let mantissa := if exponent = 0 then fraction else 2 ^ 52 + fraction
    let places := 1075 - max exponent 1
    let (digits, scale) :=
      Numeral.trim (10 * mantissa * 2 ^ (max exponent 1 - 1075) * 5 ^ places) places
    ⟨bits.msb, digits, scale + 1⟩

/-- How values are laid out: what stands before an item at a depth, and between a key and its value. -/
structure JsonStyle where
  newline : ℕ → Bytes
  colon : Bytes

def JsonStyle.compact : JsonStyle := ⟨fun _ => [], [58]⟩

def JsonStyle.pretty : JsonStyle := ⟨fun depth => 10 :: List.replicate (2 * depth) 32, [58, 32]⟩

namespace Json

mutual

def write (style : JsonStyle) (depth : ℕ) : Json → Bytes
  | null => utf8 "null"
  | bool value => utf8 (if value then "true" else "false")
  | number value => value.toNumeral.toText
  | string text => quoted text
  | array items => 91 :: (writeItems style (depth + 1) items).drop 1 ++
      ((if items.isEmpty then [] else style.newline depth) ++ [93])
  | object members => 123 :: (writeMembers style (depth + 1) members).drop 1 ++
      ((if members.isEmpty then [] else style.newline depth) ++ [125])

/-- The items with a comma before each. -/
def writeItems (style : JsonStyle) (depth : ℕ) : List Json → Bytes
  | [] => []
  | item :: items => 44 :: style.newline depth ++ (item.write style depth ++ writeItems style depth items)

def writeMembers (style : JsonStyle) (depth : ℕ) : List (Bytes × Json) → Bytes
  | [] => []
  | (key, value) :: members => 44 :: style.newline depth ++
      (quoted key ++ (style.colon ++ (value.write style depth ++ writeMembers style depth members)))

end

def text (value : Json) : Bytes := value.write .compact 0

def pretty (value : Json) : Bytes := value.write .pretty 0

section NoBreak

variable {style : JsonStyle}

theorem noBreak_append {first second : Bytes} (hf : NoBreak first) (hs : NoBreak second) :
    NoBreak (first ++ second) := forall_mem_append.mpr ⟨hf, hs⟩

theorem noBreak_quoted (text : Bytes) : NoBreak (quoted text) := by
  have ht : NoBreak (text.flatMap escapeByte) := by
    intro byte hm
    obtain ⟨o, -, ho⟩ := mem_flatMap.mp hm
    exact (escapeByte_spec o).2 byte ho
  refine forall_mem_cons.mpr ⟨by decide, noBreak_append ht (forall_mem_singleton.mpr (by decide))⟩

theorem noBreak_toText (n : Numeral) : NoBreak n.toText := by
  have hd : ∀ l : List ℕ, (∀ d ∈ l, d ∈ n.digits) → NoBreak (l.map Numeral.digitByte).reverse := by
    intro l hl byte hm
    obtain ⟨d, hd, rfl⟩ := Numeral.byte_of_mem hl hm
    interval_cases d <;> decide
  have ha : NoBreak n.absText := by
    refine forall_mem_append.mpr ⟨hd _ fun _ => mem_of_mem_drop, ?_⟩
    split_ifs
    · exact forall_mem_nil _
    · exact forall_mem_cons.mpr ⟨by decide, hd _ fun _ => mem_of_mem_take⟩
  unfold Numeral.toText
  split_ifs
  · exact forall_mem_cons.mpr ⟨by decide, ha⟩
  · exact ha

theorem noBreak_enclose {left right : UInt8} {inner : Bytes} (empty : Bool) (depth : ℕ)
    (hn : ∀ depth, NoBreak (style.newline depth)) (h : NoBreak inner)
    (hl : left ≠ 10 ∧ left ≠ 13) (hr : right ≠ 10 ∧ right ≠ 13) :
    NoBreak (left :: inner.drop 1 ++ ((if empty then [] else style.newline depth) ++ [right])) := by
  refine noBreak_append (forall_mem_cons.mpr ⟨hl, fun byte hm => h byte (mem_of_mem_drop hm)⟩)
    (noBreak_append ?_ (forall_mem_singleton.mpr hr))
  split_ifs
  · exact forall_mem_nil _
  · exact hn depth

mutual

theorem noBreak_write (hn : ∀ depth, NoBreak (style.newline depth)) (hc : NoBreak style.colon) :
    ∀ (depth : ℕ) (value : Json), NoBreak (value.write style depth)
  | _, null => show NoBreak (utf8 "null") by unfold NoBreak; decide +kernel
  | _, bool value => by
    have hb : ∀ b : Bool, NoBreak (utf8 (if b then "true" else "false")) := by
      unfold NoBreak
      decide +kernel
    exact hb value
  | _, number value => noBreak_toText _
  | _, string text => noBreak_quoted text
  | depth, array items =>
    noBreak_enclose _ depth hn (noBreak_writeItems hn hc (depth + 1) items) (by decide) (by decide)
  | depth, object members =>
    noBreak_enclose _ depth hn (noBreak_writeMembers hn hc (depth + 1) members) (by decide)
      (by decide)

theorem noBreak_writeItems (hn : ∀ depth, NoBreak (style.newline depth)) (hc : NoBreak style.colon) :
    ∀ (depth : ℕ) (items : List Json), NoBreak (writeItems style depth items)
  | _, [] => forall_mem_nil _
  | depth, item :: items => noBreak_append (forall_mem_cons.mpr ⟨by decide, hn depth⟩)
      (noBreak_append (noBreak_write hn hc depth item) (noBreak_writeItems hn hc depth items))

theorem noBreak_writeMembers (hn : ∀ depth, NoBreak (style.newline depth))
    (hc : NoBreak style.colon) : ∀ (depth : ℕ) (members : List (Bytes × Json)),
      NoBreak (writeMembers style depth members)
  | _, [] => forall_mem_nil _
  | depth, (key, value) :: members => noBreak_append (forall_mem_cons.mpr ⟨by decide, hn depth⟩)
      (noBreak_append (noBreak_quoted key) (noBreak_append hc
        (noBreak_append (noBreak_write hn hc depth value) (noBreak_writeMembers hn hc depth members))))

end

theorem noBreak_text (value : Json) : NoBreak value.text :=
  @noBreak_write .compact (fun _ => forall_mem_nil _) (forall_mem_singleton.mpr (by decide))
    0 value

end NoBreak

section Length

mutual

/-- Without line breaks the depth does not show. -/
theorem write_compact (depth : ℕ) : ∀ value : Json, value.write .compact depth = value.text
  | null | bool _ | number _ | string _ => rfl
  | array items => by
    rw [text, write, write, writeItems_compact (depth + 1), ← writeItems_compact (0 + 1)]
    rfl
  | object members => by
    rw [text, write, write, writeMembers_compact (depth + 1), ← writeMembers_compact (0 + 1)]
    rfl

theorem writeItems_compact (depth : ℕ) : ∀ items : List Json,
    writeItems .compact depth items = items.flatMap (fun item => 44 :: item.text)
  | [] => rfl
  | item :: items => by
    rw [writeItems, write_compact depth item, writeItems_compact depth items]
    rfl

theorem writeMembers_compact (depth : ℕ) : ∀ members : List (Bytes × Json),
    writeMembers .compact depth members =
      members.flatMap (fun member => 44 :: (quoted member.1 ++ 58 :: member.2.text))
  | [] => rfl
  | (key, value) :: members => by
    rw [writeMembers, write_compact depth value, writeMembers_compact depth members]
    simp [JsonStyle.compact]

end

theorem length_text_object_le (members : List (Bytes × Json)) : (object members).text.length ≤
    2 + (members.map (fun m => 6 * m.1.length + m.2.text.length + 4)).sum := by
  have hl : (members.flatMap (fun member => 44 :: (quoted member.1 ++ 58 :: member.2.text))).length ≤
      (members.map (fun m => 6 * m.1.length + m.2.text.length + 4)).sum := by
    rw [length_flatMap]
    refine sum_le_sum (fun m _ => ?_)
    have hq := length_quoted_le m.1
    simp only [length_cons, length_append]
    omega
  rw [text, write, writeMembers_compact]
  simp only [JsonStyle.compact, ite_self, nil_append, length_append, length_cons, length_drop,
    length_nil]
  omega

theorem length_text_natCast_le {count width : ℕ} (hw : 0 < width) (h : count < 10 ^ width) :
    (number (.int count)).text.length ≤ width := by
  have hd : (Nat.digits 10 count).length ≤ width :=
    (Nat.digits_length_le_iff (by norm_num) _).mpr h
  have hn : ¬ (count : ℤ) < 0 := by omega
  rw [text, write, JsonNumber.toNumeral, Numeral.toText, if_neg (by simp), Numeral.absText]
  simp only [if_true, append_nil, length_reverse, length_map, length_drop, Numeral.length_digits,
    Int.natAbs_natCast]
  omega

end Length

section Ordered

mutual

def isOrdered : Json → Bool
  | array items => itemsOrdered items
  | object members => decide ((members.map Prod.fst).Pairwise (· < ·)) && membersOrdered members
  | _ => true

def itemsOrdered : List Json → Bool
  | [] => true
  | item :: items => item.isOrdered && itemsOrdered items

def membersOrdered : List (Bytes × Json) → Bool
  | [] => true
  | (_, value) :: members => value.isOrdered && membersOrdered members

end

mutual

theorem ordered_of_isOrdered : ∀ value : Json, value.isOrdered = true → value.Ordered
  | null, _ => .null
  | bool value, _ => .bool value
  | number value, _ => .number value
  | string text, _ => .string text
  | array items, h => .array (ordered_of_itemsOrdered items h)
  | object members, h => by
    obtain ⟨hk, hm⟩ := Bool.and_eq_true_iff.mp h
    exact .object (of_decide_eq_true hk) (ordered_of_membersOrdered members hm)

theorem ordered_of_itemsOrdered :
    ∀ items : List Json, itemsOrdered items = true → ∀ item ∈ items, item.Ordered
  | [], _ => forall_mem_nil _
  | item :: items, h => by
    obtain ⟨hi, hs⟩ := Bool.and_eq_true_iff.mp h
    exact forall_mem_cons.mpr ⟨ordered_of_isOrdered item hi, ordered_of_itemsOrdered items hs⟩

theorem ordered_of_membersOrdered : ∀ members : List (Bytes × Json), membersOrdered members = true →
    ∀ member ∈ members, member.2.Ordered
  | [], _ => forall_mem_nil _
  | (_, value) :: members, h => by
    obtain ⟨hv, hs⟩ := Bool.and_eq_true_iff.mp h
    exact forall_mem_cons.mpr ⟨ordered_of_isOrdered value hv, ordered_of_membersOrdered members hs⟩

end

end Ordered

end Json

/-- Writes every value and reads the texts of these. -/
def JsonCodec.ofValues (values : List Json) : JsonCodec where
  parse bytes := values.find? (fun value => value.isOrdered && decide (value.text = bytes))
  serialize := Json.text
  ordered _ value h := by
    have hf := find?_some h
    exact Json.ordered_of_isOrdered value (Bool.and_eq_true_iff.mp hf).1
  oneLine := Json.noBreak_text

end AiGateway.Lib
