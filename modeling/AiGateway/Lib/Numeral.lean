import AiGateway.Lib.Bytes
import Mathlib.Data.Nat.Digits.Lemmas
import Mathlib.Data.Rat.Floor
import Mathlib.Tactic.Positivity

/-! Decimal numerals: a sign, a mantissa and a number of places. Trailing zeros are dropped in the
normal form, which the number determines; texts of numerals are read back. -/
namespace AiGateway.Lib
open List

structure Numeral where
  negative : Bool
  mantissa : ℕ
  scale : ℕ
  deriving DecidableEq

namespace Numeral

def magnitude (n : Numeral) : ℚ := n.mantissa / 10 ^ n.scale

def value (n : Numeral) : ℚ := if n.negative then -n.magnitude else n.magnitude

/-- Drops zeros at the end while places are left. -/
def trim : (mantissa scale : ℕ) → ℕ × ℕ
  | mantissa, 0 => (mantissa, 0)
  | mantissa, scale + 1 =>
    if mantissa % 10 = 0 then trim (mantissa / 10) scale else (mantissa, scale + 1)

/-- Zero is positive and has no places. -/
def normalize (n : Numeral) : Numeral :=
  if n.mantissa = 0 then ⟨false, 0, 0⟩
  else ⟨n.negative, (trim n.mantissa n.scale).1, (trim n.mantissa n.scale).2⟩

/-- The digits from the last one, with one before the point at least. -/
def digits (n : Numeral) : List ℕ := Nat.digitsAppend 10 (n.scale + 1) n.mantissa

def digitByte (digit : ℕ) : UInt8 := UInt8.ofNat (48 + digit)

def absText (n : Numeral) : Bytes := ((n.digits.drop n.scale).map digitByte).reverse ++
    if n.scale = 0 then [] else 46 :: ((n.digits.take n.scale).map digitByte).reverse

def toText (n : Numeral) : Bytes := if n.negative then 45 :: n.absText else n.absText

/-- Reads digits with one point at most between them. -/
def readAbs (text : Bytes) : Option (ℕ × ℕ) :=
  let whole := text.takeWhile (· ≠ 46)
  let fraction := (text.dropWhile (· ≠ 46)).drop 1
  if whole ≠ [] ∧ (whole ++ fraction).all (fun byte => 48 ≤ byte ∧ byte ≤ 57) then
    some (Nat.ofDigits 10 ((whole ++ fraction).reverse.map (·.toNat - 48)), fraction.length)
  else none

def ofText (text : Bytes) : Option Numeral :=
  let negative := decide (text.head? = some 45)
  (readAbs (if negative then text.drop 1 else text)).map (fun read => ⟨negative, read.1, read.2⟩)

variable {m n : Numeral}

section Text

theorem digit_lt {d : ℕ} (h : d ∈ n.digits) : d < 10 :=
  Nat.lt_of_mem_digitsAppend (by norm_num : 1 < 10) _ _ h

theorem digitByte_spec {d : ℕ} (h : d < 10) : digitByte d ≠ 46 ∧ digitByte d ≠ 45 ∧
    (48 ≤ digitByte d ∧ digitByte d ≤ 57) ∧ (digitByte d).toNat - 48 = d := by
  interval_cases d <;> decide

theorem ofDigits_digits (n : Numeral) : Nat.ofDigits 10 n.digits = n.mantissa := by
  rw [digits, Nat.digitsAppend, Nat.ofDigits_append_replicate_zero, Nat.ofDigits_digits]

theorem length_digits (n : Numeral) :
    n.digits.length = max (n.scale + 1) (Nat.digits 10 n.mantissa).length := by
  rw [digits, Nat.digitsAppend, length_append, length_replicate]
  omega

theorem byte_of_mem {byte : UInt8} {l : List ℕ} (hl : ∀ d ∈ l, d ∈ n.digits)
    (h : byte ∈ (l.map digitByte).reverse) : ∃ d < 10, byte = digitByte d := by
  obtain ⟨d, hd, rfl⟩ := mem_map.mp (mem_reverse.mp h)
  exact ⟨d, digit_lt (hl d hd), rfl⟩

/-- The point ends the digits before it. -/
theorem takeWhile_absText (n : Numeral) :
    n.absText.takeWhile (· ≠ 46) = ((n.digits.drop n.scale).map digitByte).reverse ∧
      (n.absText.dropWhile (· ≠ 46)).drop 1 = ((n.digits.take n.scale).map digitByte).reverse := by
  have hw : ∀ byte ∈ ((n.digits.drop n.scale).map digitByte).reverse, (byte ≠ 46 : Bool) = true := by
    intro byte hb
    obtain ⟨d, hd, rfl⟩ := byte_of_mem (fun _ => mem_of_mem_drop) hb
    exact decide_eq_true (digitByte_spec hd).1
  unfold absText
  rw [takeWhile_append_of_pos hw, dropWhile_append_of_pos hw]
  split_ifs with hs
  · simp [hs]
  · simp

theorem readAbs_absText (n : Numeral) : readAbs n.absText = some (n.mantissa, n.scale) := by
  obtain ⟨hw, hf⟩ := takeWhile_absText n
  have hlen := n.length_digits
  have hall : ((n.digits.drop n.scale).map digitByte).reverse ++
      ((n.digits.take n.scale).map digitByte).reverse = (n.digits.map digitByte).reverse := by
    rw [← reverse_append, ← map_append, take_append_drop]
  have hwhole : ((n.digits.drop n.scale).map digitByte).reverse ≠ [] := by
    rw [ne_eq, reverse_eq_nil_iff, map_eq_nil_iff, drop_eq_nil_iff]
    omega
  have hdigit : (n.digits.map digitByte).reverse.all (fun byte => 48 ≤ byte ∧ byte ≤ 57) := by
    refine all_eq_true.mpr (fun byte hb => decide_eq_true ?_)
    obtain ⟨d, hd, rfl⟩ := byte_of_mem (fun _ h => h) hb
    exact (digitByte_spec hd).2.2.1
  have hid : n.digits.map ((fun byte : UInt8 => byte.toNat - 48) ∘ digitByte) = n.digits := by
    conv_rhs => rw [← map_id n.digits]
    exact map_congr_left (fun d hd => (digitByte_spec (digit_lt hd)).2.2.2)
  unfold readAbs
  dsimp only
  rw [hw, hf, hall, if_pos ⟨hwhole, hdigit⟩, reverse_reverse, map_map, hid, ofDigits_digits]
  simp only [length_reverse, length_map, length_take]
  rw [Nat.min_eq_left (by omega)]

theorem head_absText (n : Numeral) : n.absText.head? ≠ some 45 := by
  intro hh
  obtain ⟨rest, hr⟩ := head?_eq_some_iff.mp hh
  have hm : 45 ∈ n.absText.takeWhile (· ≠ 46) := by
    rw [hr]
    simp
  rw [(takeWhile_absText n).1] at hm
  obtain ⟨d, hd, heq⟩ := byte_of_mem (fun _ => mem_of_mem_drop) hm
  exact (digitByte_spec hd).2.1 heq.symm

theorem ofText_toText (n : Numeral) : ofText n.toText = some n := by
  have hr := readAbs_absText n
  obtain ⟨negative, mantissa, scale⟩ := n
  cases negative with
  | true => simp [ofText, toText, hr]
  | false => simp [ofText, toText, head_absText, hr]

end Text

section Normal

theorem trim_spec (mantissa scale : ℕ) : (trim mantissa scale).2 ≤ scale ∧
    ((trim mantissa scale).2 = 0 ∨ (trim mantissa scale).1 % 10 ≠ 0) ∧
      (trim mantissa scale).1 * 10 ^ (scale - (trim mantissa scale).2) = mantissa := by
  induction scale generalizing mantissa with
  | zero => simp [trim]
  | succ scale ih =>
    unfold trim
    split_ifs with hz
    · obtain ⟨hle, hn, hv⟩ := ih (mantissa / 10)
      rw [Nat.succ_sub hle, pow_succ, ← mul_assoc]
      omega
    · simp [hz]

/-- No zero at the end of the places, and no sign at zero. -/
def Normal (n : Numeral) : Prop :=
  (n.mantissa = 0 → n.negative = false) ∧ (n.scale = 0 ∨ n.mantissa % 10 ≠ 0)

theorem normal_normalize (n : Numeral) : n.normalize.Normal := by
  unfold normalize
  split_ifs with hz
  · exact ⟨fun _ => rfl, .inl rfl⟩
  · obtain ⟨-, hn, hv⟩ := trim_spec n.mantissa n.scale
    refine ⟨fun h => absurd ?_ hz, hn⟩
    rw [← hv, show (trim n.mantissa n.scale).1 = 0 from h, zero_mul]

theorem scale_normalize_le (n : Numeral) : n.normalize.scale ≤ n.scale := by
  unfold normalize
  split_ifs
  · exact Nat.zero_le _
  · exact (trim_spec n.mantissa n.scale).1

theorem value_of_mantissa_eq_zero (h : n.mantissa = 0) : n.value = 0 := by
  simp [value, magnitude, h]

@[simp] theorem value_normalize (n : Numeral) : n.normalize.value = n.value := by
  unfold normalize
  split_ifs with hz
  · rw [value_of_mantissa_eq_zero hz]
    exact value_of_mantissa_eq_zero rfl
  · obtain ⟨hle, -, hv⟩ := trim_spec n.mantissa n.scale
    have hm : (n.mantissa : ℚ) = (trim n.mantissa n.scale).1 *
        10 ^ (n.scale - (trim n.mantissa n.scale).2) := by exact_mod_cast hv.symm
    have hs : (10 : ℚ) ^ n.scale = 10 ^ (n.scale - (trim n.mantissa n.scale).2) *
        10 ^ (trim n.mantissa n.scale).2 := by rw [← pow_add, Nat.sub_add_cancel hle]
    have hg : n.magnitude = (trim n.mantissa n.scale).1 / 10 ^ (trim n.mantissa n.scale).2 := by
      rw [magnitude, hm, hs]
      field_simp
    unfold value
    rw [hg]
    rfl

theorem abs_value (n : Numeral) : |n.value| = n.magnitude := by
  have hn : 0 ≤ n.magnitude := by
    unfold magnitude
    positivity
  unfold value
  split_ifs
  · rw [abs_neg, abs_of_nonneg hn]
  · exact abs_of_nonneg hn

theorem value_of_magnitude {m : ℤ} {scale : ℕ} (hn : n.negative = decide (m < 0))
    (hm : n.magnitude = m.natAbs / 10 ^ scale) : n.value = m / 10 ^ scale := by
  rw [value, hn, hm, Nat.cast_natAbs]
  split_ifs with hneg
  · rw [abs_of_neg (of_decide_eq_true hneg), Int.cast_neg, neg_div, neg_neg]
  · rw [abs_of_nonneg (by simpa using hneg)]

theorem Normal.scale_le (hn : n.Normal)
    (h : m.mantissa * 10 ^ n.scale = n.mantissa * 10 ^ m.scale) : n.scale ≤ m.scale := by
  by_contra hlt
  obtain ⟨k, hk⟩ := Nat.exists_eq_add_of_lt (not_le.mp hlt)
  have hd : n.mantissa = m.mantissa * 10 ^ k * 10 := by
    apply Nat.eq_of_mul_eq_mul_right (show 0 < 10 ^ m.scale by positivity)
    rw [← h, hk]
    ring
  have hz := hn.2
  omega

/-- A number has one normal form. -/
theorem Normal.eq_of_value_eq (hm : m.Normal) (hn : n.Normal) (h : m.value = n.value) : m = n := by
  have hmag : m.magnitude = n.magnitude := by rw [← abs_value, ← abs_value, h]
  have hcross : m.mantissa * 10 ^ n.scale = n.mantissa * 10 ^ m.scale := by
    unfold magnitude at hmag
    rw [div_eq_div_iff (by positivity) (by positivity)] at hmag
    exact_mod_cast hmag
  have hs : m.scale = n.scale := le_antisymm (hm.scale_le hcross.symm) (hn.scale_le hcross)
  have hv : m.mantissa = n.mantissa := by
    rw [hs] at hcross
    exact Nat.eq_of_mul_eq_mul_right (by positivity) hcross
  have hneg : m.negative = n.negative := by
    by_cases hz : m.mantissa = 0
    · rw [hm.1 hz, hn.1 (hv ▸ hz)]
    · have hpos : 0 < m.magnitude := by
        unfold magnitude
        positivity
      unfold value at h
      cases hmn : m.negative <;> cases hnn : n.negative <;> simp [hmn, hnn] at h ⊢ <;> linarith
  cases m
  simp_all

theorem normalize_eq_of_value_eq (h : m.value = n.value) : m.normalize = n.normalize :=
  m.normal_normalize.eq_of_value_eq n.normal_normalize (by simpa using h)

end Normal
end Numeral
end AiGateway.Lib
