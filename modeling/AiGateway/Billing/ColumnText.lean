import AiGateway.Lib.Decimal
import AiGateway.Lib.Json

/-! The text of a decimal column: what the writer stores, and how it is validated and read. -/
namespace AiGateway.Billing
open List

open Lib

/-- Ties go away from zero. -/
def roundAway (q : ℚ) : ℤ := if 0 ≤ q then ⌊q + 1 / 2⌋ else ⌈q - 1 / 2⌉

/-- The digits of the column types by their places. -/
def columnPrecision : ℕ → Option ℕ
  | 4 => some 14
  | 8 => some 24
  | 12 => some 24
  | _ => none

theorem roundAway_intCast (k : ℤ) : roundAway k = k := by
  unfold roundAway
  split_ifs
  · rw [Int.floor_eq_iff]
    constructor <;> linarith
  · rw [Int.ceil_eq_iff]
    constructor <;> linarith

theorem columnPrecision_bounds {scale precision : ℕ} (h : columnPrecision scale = some precision) :
    0 < precision ∧ precision ≤ 28 ∧ scale ≤ precision := by
  unfold columnPrecision at h
  split at h <;> simp at h <;> omega

namespace Numeric

open Numeral

/-- Rounds to a number of places, a half away from zero. -/
def roundDp (n : Numeral) (dp : ℕ) : Numeral :=
  if n.mantissa = 0 then ⟨n.negative, 0, dp⟩
  else if n.scale ≤ dp then n
  else ⟨n.negative, (n.mantissa + 10 ^ (n.scale - dp) / 2) / 10 ^ (n.scale - dp), dp⟩

def rescale (n : Numeral) (scale : ℕ) : Numeral :=
  let n := roundDp n scale
  ⟨n.negative, n.mantissa * 10 ^ (scale - n.scale), scale⟩

def fitsPrecision (n : Numeral) (precision scale : ℕ) : Bool :=
  let n := n.normalize
  let integer := n.absText.takeWhile (· ≠ 46)
  decide (0 < precision) && decide (precision ≤ 28) && decide (scale ≤ precision) &&
    decide (n.scale ≤ scale) && (integer == [48] || decide (integer.length ≤ precision - scale))

/-- Zero keeps no places. -/
def new (precision scale : ℕ) (n : Numeral) : Option Numeral :=
  if fitsPrecision n precision scale then
    some (if n.mantissa = 0 then ⟨false, 0, 0⟩ else rescale n scale)
  else none

def columnText (n : Numeral) (scale : ℕ) : Option Bytes :=
  let quantized := roundDp n scale
  (columnPrecision scale).bind (fun precision =>
    (new precision scale quantized).map (fun _ => quantized.normalize.toText))

/-- The decimal type has mantissas of 96 bits and up to 28 places. -/
def fromStrExact (text : Bytes) : Option Numeral :=
  (ofText text).filter (fun n => decide (n.mantissa < 2 ^ 96) && decide (n.scale ≤ 28))

def decode (precision scale : ℕ) (text : Bytes) : Option Numeral :=
  ((fromStrExact text).filter (fun n => n.normalize.toText == text)).bind (new precision scale)

variable {m n : Numeral} {precision scale : ℕ}

theorem roundAway_neg (q : ℚ) : roundAway (-q) = -roundAway q := by
  unfold roundAway
  rcases lt_trichotomy q 0 with h | rfl | h
  · rw [if_pos (by linarith), if_neg (by linarith), ← Int.floor_neg]
    ring_nf
  · norm_num
  · rw [if_neg (by linarith), if_pos h.le, ← Int.ceil_neg]
    ring_nf

theorem magnitude_roundDp (n : Numeral) (dp : ℕ) :
    (roundDp n dp).magnitude = roundAway (n.magnitude * 10 ^ dp) / 10 ^ dp := by
  unfold roundDp magnitude
  split_ifs with hz hle
  · have h0 : roundAway 0 = 0 := by exact_mod_cast roundAway_intCast 0
    simp [hz, h0]
  · have hk : (n.mantissa : ℚ) / 10 ^ n.scale * 10 ^ dp =
        ((n.mantissa * 10 ^ (dp - n.scale) : ℤ) : ℚ) := by
      rw [← Nat.sub_add_cancel hle, pow_add, Nat.add_sub_cancel]
      push_cast
      field_simp
    rw [hk, roundAway_intCast, ← hk]
    field_simp
  · obtain ⟨d, hd⟩ : ∃ d, n.scale = dp + (d + 1) := ⟨n.scale - dp - 1, by omega⟩
    have hhalf : 10 ^ (d + 1) / 2 = 5 * 10 ^ d := by omega
    have hq : (n.mantissa : ℚ) / 10 ^ n.scale * 10 ^ dp + 1 / 2 =
        ((n.mantissa + 5 * 10 ^ d : ℕ) : ℚ) / ((10 ^ (d + 1) : ℕ) : ℚ) := by
      rw [hd]
      push_cast
      field_simp
      ring
    rw [roundAway, if_pos (by positivity), hq, Rat.floor_natCast_div_natCast, hd,
      Nat.add_sub_cancel_left, hhalf, ← Int.natCast_div, Int.cast_natCast]

theorem value_roundDp (n : Numeral) (dp : ℕ) :
    (roundDp n dp).value = roundAway (n.value * 10 ^ dp) / 10 ^ dp := by
  have hn : (roundDp n dp).negative = n.negative := by
    unfold roundDp
    split_ifs <;> rfl
  unfold value
  rw [hn, magnitude_roundDp]
  split_ifs
  · rw [neg_mul, roundAway_neg, Int.cast_neg, neg_div]
  · rfl

theorem scale_roundDp_le (n : Numeral) (dp : ℕ) : (roundDp n dp).scale ≤ dp := by
  unfold roundDp
  split_ifs with _ hle
  · exact le_rfl
  · exact hle
  · exact le_rfl

theorem value_roundDp_of_le {dp : ℕ} (h : n.normalize.scale ≤ dp) : (roundDp n dp).value = n.value := by
  rw [value_roundDp, ← value_normalize n, ← value_roundDp]
  unfold roundDp
  split_ifs with hz
  · rw [value_of_mantissa_eq_zero hz]
    exact value_of_mantissa_eq_zero rfl
  · rfl

theorem value_rescale (n : Numeral) (scale : ℕ) : (rescale n scale).value = (roundDp n scale).value := by
  have hs := scale_roundDp_le n scale
  have hg : (rescale n scale).magnitude = (roundDp n scale).magnitude := by
    simp only [rescale, magnitude]
    rw [div_eq_div_iff (by positivity) (by positivity)]
    rw [Nat.cast_mul, Nat.cast_pow, Nat.cast_ofNat, mul_assoc, ← pow_add, Nat.sub_add_cancel hs]
  unfold value
  rw [hg]
  rfl

/-- The digits before the point are few enough when the number is small enough. -/
theorem fitsPrecision_iff (hc : columnPrecision scale = some precision) :
    fitsPrecision n precision scale = true ↔
      n.normalize.scale ≤ scale ∧ |n.value| < 10 ^ (precision - scale) := by
  obtain ⟨hpo, hp, hs⟩ := columnPrecision_bounds hc
  have hd : 0 < precision - scale := by
    unfold columnPrecision at hc
    split at hc <;> cases hc <;> decide
  have hlen : (n.normalize.absText.takeWhile (· ≠ 46)).length ≤ precision - scale ↔
      |n.value| < 10 ^ (precision - scale) := by
    rw [(takeWhile_absText _).1, length_reverse, length_map, length_drop, length_digits,
      ← value_normalize, abs_value, magnitude, div_lt_iff₀ (by positivity), ← pow_add]
    have hdig := Nat.digits_length_le_iff (b := 10) (k := precision - scale + n.normalize.scale)
      (by norm_num) n.normalize.mantissa
    norm_cast
    omega
  rw [← hlen]
  simp only [fitsPrecision, hpo, hp, hs, decide_true, Bool.true_and, Bool.and_eq_true,
    Bool.or_eq_true, decide_eq_true_iff, beq_iff_eq]
  refine and_congr_right fun _ => ⟨fun h => h.elim (fun h1 => ?_) id, .inr⟩
  rw [h1]
  exact hd

theorem fitsPrecision_congr (h : m.normalize = n.normalize) :
    fitsPrecision m precision scale = fitsPrecision n precision scale := by
  unfold fitsPrecision
  rw [h]

theorem value_new (hc : columnPrecision scale = some precision) (h : new precision scale n = some m) :
    m.value = n.value := by
  unfold new at h
  split_ifs at h with hf hz
  · cases h
    rw [value_of_mantissa_eq_zero hz]
    exact value_of_mantissa_eq_zero rfl
  · cases h
    rw [← value_roundDp_of_le ((fitsPrecision_iff hc).mp hf).1]
    exact value_rescale n scale

theorem columnText_eq (hc : columnPrecision scale = some precision) :
    columnText n scale = if fitsPrecision (roundDp n scale) precision scale then
      some (roundDp n scale).normalize.toText else none := by
  unfold columnText new
  rw [hc, Option.bind_some]
  split_ifs <;> rfl

theorem columnText_congr (h : (roundDp m scale).value = (roundDp n scale).value) :
    columnText m scale = columnText n scale := by
  have hn := normalize_eq_of_value_eq h
  cases hc : columnPrecision scale with
  | none => simp [columnText, hc]
  | some precision => rw [columnText_eq hc, columnText_eq hc, fitsPrecision_congr hn, hn]

/-- What a column stores is the rounded number, if it has few enough digits before the point; its
text is read back as that number, which is stored as the same text again. -/
theorem column_text_exact (hc : columnPrecision scale = some precision) (n : Numeral) :
    let quantized : ℚ := roundAway (n.value * 10 ^ scale) / 10 ^ scale
    ((∃ text, columnText n scale = some text) ↔ |quantized| < 10 ^ (precision - scale)) ∧
    ∀ text, columnText n scale = some text →
      (∃ stored, decode precision scale text = some stored ∧ stored.value = quantized ∧
        (roundDp stored scale).value = stored.value ∧ columnText stored scale = some text) ∧
      ∀ m : Numeral, m.value = n.value → columnText m scale = some text := by
  intro quantized
  have hq : (roundDp n scale).value = quantized := value_roundDp n scale
  have hfits : fitsPrecision (roundDp n scale) precision scale = true ↔
      |quantized| < 10 ^ (precision - scale) := by
    rw [fitsPrecision_iff hc, hq]
    exact and_iff_right ((scale_normalize_le _).trans (scale_roundDp_le n scale))
  rw [columnText_eq hc, ← hfits]
  refine ⟨by simp, fun text ht => ?_⟩
  split_ifs at ht with hf
  obtain rfl := Option.some.inj ht
  have hidem : (roundDp n scale).normalize.normalize = (roundDp n scale).normalize :=
    normalize_eq_of_value_eq (value_normalize _)
  obtain ⟨stored, hst⟩ : ∃ stored, new precision scale (roundDp n scale).normalize = some stored := by
    rw [new, if_pos ((fitsPrecision_congr hidem).trans hf)]
    exact ⟨_, rfl⟩
  have hv : stored.value = quantized := by rw [value_new hc hst, value_normalize, hq]
  have hround : (roundDp stored scale).value = stored.value := by
    rw [value_roundDp, hv, ← hq, ← value_roundDp]
    exact value_roundDp_of_le ((scale_normalize_le _).trans (scale_roundDp_le n scale))
  obtain ⟨hplaces, hlt⟩ := (fitsPrecision_iff hc).mp hf
  obtain ⟨-, hp, hs⟩ := columnPrecision_bounds hc
  have hbits : (roundDp n scale).normalize.mantissa < 2 ^ 96 := by
    rw [← value_normalize, abs_value, magnitude, div_lt_iff₀ (by positivity), ← pow_add] at hlt
    calc (roundDp n scale).normalize.mantissa
        < 10 ^ (precision - scale + (roundDp n scale).normalize.scale) := by exact_mod_cast hlt
      _ ≤ 10 ^ 28 := Nat.pow_le_pow_right (by norm_num) (by omega)
      _ < 2 ^ 96 := by norm_num
  refine ⟨⟨stored, ?_, hv, hround, ?_⟩, fun m hm => ?_⟩
  · rw [decode, fromStrExact, ofText_toText, Option.filter_some_pos, Option.filter_some_pos]
    · exact hst
    · rw [hidem, beq_self_eq_true]
    · simp only [hbits, (hplaces.trans (hs.trans hp)), decide_true, Bool.and_self]
  · rw [columnText_congr (n := n) (by rw [hround, hv, hq]), columnText_eq hc, if_pos hf]
  · rw [columnText_congr (n := n) (by rw [value_roundDp, value_roundDp, hm]), columnText_eq hc,
      if_pos hf]

/-- Half a unit of the last place is stored as one. -/
theorem column_text_exact_half :
    columnText ⟨true, 1000000005, 9⟩ 8 = some (utf8 "-1.00000001") ∧
      ∃ stored, decode 24 8 (utf8 "-1.00000001") = some stored ∧
        columnText stored 8 = some (utf8 "-1.00000001") := by
  have ht : columnText ⟨true, 1000000005, 9⟩ 8 = some (utf8 "-1.00000001") := by decide +kernel
  obtain ⟨⟨stored, hd, -, -, hagain⟩, -⟩ := (column_text_exact rfl _).2 _ ht
  exact ⟨ht, stored, hd, hagain⟩

end Numeric

section Decimals

/-- The number that the text of a column stands for, if the column holds the value. -/
def columnText (value : Decimal) (scale : ℕ) : Option ℚ :=
  (Numeric.columnText value.toNumeral scale).bind (fun text => (Numeral.ofText text).map Numeral.value)

def amountText (value : Decimal) : Option ℚ := columnText value 8

def rateText (value : Decimal) : Option ℚ := columnText value 4

/-- The value a column of this many places rounds to. -/
def quantize (value : Decimal) (scale : ℕ) : ℚ := roundAway (value.value * 10 ^ scale) / 10 ^ scale

variable {v : Decimal} {precision scale : ℕ}

theorem columnText_eq_ite (hc : columnPrecision scale = some precision) :
    columnText v scale =
      if |quantize v scale| < 10 ^ (precision - scale) then some (quantize v scale) else none := by
  have hq : (Numeric.roundDp v.toNumeral scale).value = quantize v scale := by
    rw [Numeric.value_roundDp, Decimal.value_toNumeral, quantize]
  have hf := Numeric.fitsPrecision_iff (n := Numeric.roundDp v.toNumeral scale) hc
  have hs := (Numeral.scale_normalize_le _).trans (Numeric.scale_roundDp_le v.toNumeral scale)
  rw [and_iff_right hs, hq] at hf
  rw [columnText, Numeric.columnText_eq hc]
  split_ifs with h1 h2 h2
  · rw [Option.bind_some, Numeral.ofText_toText, Option.map_some, Numeral.value_normalize, hq]
  · exact absurd (hf.mp h1) h2
  · exact absurd (hf.mpr h2) h1
  · rfl

theorem columnText_eq_quantize {text : ℚ} (h : columnText v scale = some text) :
    text = quantize v scale := by
  cases hc : columnPrecision scale with
  | none => simp [columnText, Numeric.columnText, hc] at h
  | some precision =>
    rw [columnText_eq_ite hc] at h
    split_ifs at h
    exact (Option.some.inj h).symm

/-- A value with few enough places is stored as it is, if the column is wide enough. -/
theorem isSome_columnText_roundDp (digits : ℕ) (hc : columnPrecision scale = some (digits + scale))
    (hn : 0 ≤ v.value) :
    (columnText (v.roundDp scale) scale).isSome ↔ (v.roundDp scale).value < 10 ^ digits := by
  have hr : (v.roundDp scale).value = roundEven (v.value * 10 ^ scale) / 10 ^ scale := rfl
  have hq : quantize (v.roundDp scale) scale = (v.roundDp scale).value := by
    rw [quantize, hr, div_mul_cancel₀ _ (by positivity), roundAway_intCast]
  have h0 : 0 ≤ (v.roundDp scale).value := roundAt_nonneg hn
  rw [columnText_eq_ite hc, hq, abs_of_nonneg h0, Nat.add_sub_cancel]
  split_ifs with hlt
  · exact iff_of_true rfl hlt
  · exact iff_of_false (by simp) hlt

end Decimals
end AiGateway.Billing
