import AiGateway.Billing.ColumnText
import Mathlib.Algebra.Order.Field.Power

/-! The exact sum of stored amounts: it is kept in units of the eighth place and rebuilt as a
decimal from groups of four digits. -/
namespace AiGateway.Billing
open List

open Lib Numeral

/-- The number has a mantissa of 96 bits at this many places. -/
def FitsPlaces (scale : ℕ) (q : ℚ) : Prop := ∃ m : ℤ, |m| < 2 ^ 96 ∧ q = m / 10 ^ scale

def decimal (n : ℕ) : Numeral := ⟨false, n, 0⟩

/-- The decimal operations, exact wherever the true result is a decimal. Powers are those of the base of
the digit groups. -/
structure DecimalOps where
  rescale : Numeral → ℕ → Numeral
  checkedPowi : Numeral → ℤ → Option Numeral
  checkedMul : Numeral → Numeral → Option Numeral
  checkedAdd : Numeral → Numeral → Option Numeral
  rescale_exact : ∀ n, ∀ scale ≤ 28, FitsPlaces scale n.value →
    (rescale n scale).value = n.value ∧ (rescale n scale).scale = scale
  powi_exact : ∀ k, ∀ scale ≤ 28, FitsPlaces scale (10000 ^ k) →
    ∃ r, checkedPowi (decimal 10000) k = some r ∧ r.value = 10000 ^ k
  mul_exact : ∀ m n, ∀ scale ≤ 28, FitsPlaces scale (m.value * n.value) →
    ∃ r, checkedMul m n = some r ∧ r.value = m.value * n.value
  add_exact : ∀ m n, ∀ scale ≤ 28, FitsPlaces scale (m.value + n.value) →
    ∃ r, checkedAdd m n = some r ∧ r.value = m.value + n.value

theorem value_decimal (n : ℕ) : (decimal n).value = n := by
  simp [value, magnitude, decimal]

section Rounded

/-- The result as a decimal of 96 bits. -/
def round (q : ℚ) : Option Numeral := (Decimal.fit q).map Decimal.toNumeral

theorem round_exact {q : ℚ} {scale : ℕ} (hs : scale ≤ 28) (h : FitsPlaces scale q) :
    ∃ r, round q = some r ∧ r.value = q := by
  obtain ⟨m, hm, hq⟩ := h
  obtain ⟨d, hd, hv⟩ := Decimal.fit_of_representable hs hm hq
  exact ⟨d.toNumeral, by rw [round, hd]; rfl, by rw [Decimal.value_toNumeral, hv]⟩

theorem value_rescale_of_fits {n : Numeral} {scale : ℕ} (h : FitsPlaces scale n.value) :
    (Numeric.rescale n scale).value = n.value := by
  obtain ⟨m, -, hm⟩ := h
  rw [Numeric.value_rescale, Numeric.value_roundDp, hm, div_mul_cancel₀ _ (by positivity),
    roundAway_intCast]

/-- The operations of decimals with 96 bits: a result that needs more digits is rounded, and one that
is too large fails, as a negative power of zero does. -/
def DecimalOps.rounded : DecimalOps where
  rescale := Numeric.rescale
  checkedPowi n k := if n.value = 0 ∧ k < 0 then none else round (n.value ^ k)
  checkedMul m n := round (m.value * n.value)
  checkedAdd m n := round (m.value + n.value)
  rescale_exact _ _ _ h := ⟨value_rescale_of_fits h, rfl⟩
  powi_exact k scale hs h := by
    rw [value_decimal, if_neg (by norm_num)]
    exact round_exact hs h
  mul_exact _ _ _ hs h := round_exact hs h
  add_exact _ _ _ hs h := round_exact hs h

end Rounded

namespace CostSum

def signedMantissa (n : Numeral) : ℤ := if n.negative then -n.mantissa else n.mantissa

/-- The sum is its `units`. -/
def add (ops : DecimalOps) (units : ℤ) (amount : Numeral) : ℤ :=
  units + signedMantissa (ops.rescale amount 8)

def number (n : ℕ) (digits : List ℕ) : ℕ := digits.foldl (fun n d => n * 10 + d) n

/-- Adds one group at its weight; a group of zeros adds nothing. -/
def addGroup (ops : DecimalOps) (value : Numeral) (digit : ℕ) (weight : ℤ) : Option Numeral :=
  if digit = 0 then some value
  else do
    let power ← ops.checkedPowi (decimal 10000) weight
    let part ← ops.checkedMul (decimal digit) power
    ops.checkedAdd value part

/-- Adds the groups of four digits, the most significant first. -/
def addGroups (ops : DecimalOps) (value : Numeral) : List ℕ → Option Numeral
  | a :: b :: c :: d :: rest =>
    (addGroup ops value (number 0 [a, b, c, d]) (↑(rest.length / 4 + 1) - 3)).bind
      (fun value => addGroups ops value rest)
  | _ => some value

/-- `none` is the overflow error. -/
def finish (ops : DecimalOps) (units : ℤ) : Option Numeral :=
  let digits := (Nat.digits 10 units.natAbs).reverse
  if units = 0 then some (decimal 0)
  else do
    let padded := replicate ((digits.length + 3) / 4 * 4 - digits.length) 0 ++ digits
    let value ← addGroups ops (decimal 0) padded
    return ops.rescale { value with negative := decide (units < 0) } 8

/-- An amount of a column with 24 digits, eight of them after the point. -/
def Stored : Type := { n : Numeral // ∃ k : ℤ, |k| < 10 ^ 24 ∧ n.value = k / 10 ^ 8 }

def addAll (ops : DecimalOps) (units : ℤ) (amounts : List Stored) : ℤ :=
  amounts.foldl (fun units amount => add ops units amount.val) units

def total (amounts : List Stored) : ℚ := (amounts.map (fun amount => amount.val.value)).sum

variable (ops : DecimalOps) {n : ℕ} {value : Numeral}

theorem value_eq (n : Numeral) : n.value = signedMantissa n / 10 ^ n.scale := by
  unfold value signedMantissa magnitude
  split_ifs <;> push_cast <;> ring

theorem number_eq (n : ℕ) (l : List ℕ) : number n l = n * 10 ^ l.length + number 0 l := by
  unfold number
  induction l generalizing n with
  | nil => simp
  | cons d l ih =>
    rw [foldl_cons, foldl_cons, ih, ih (0 * 10 + d), length_cons, pow_succ]
    ring

theorem number_padded (k n : ℕ) :
    number 0 (replicate k 0 ++ (Nat.digits 10 n).reverse) = n := by
  have hz : number 0 (replicate k 0) = 0 := by
    induction k with
    | zero => rfl
    | succ k ih => exact ih
  have hd : number 0 (Nat.digits 10 n).reverse = n := by
    conv_rhs => rw [← Nat.ofDigits_digits 10 n, Nat.ofDigits_eq_foldr]
    rw [number, foldl_reverse]
    congr 1
    funext d n
    simp
    ring
  rw [number, foldl_append]
  unfold number at hz
  rw [hz]
  exact hd

/-- A group behind `r` others is worth its number times `10000 ^ (r - 2)`. -/
theorem addGroup_exact {digit r : ℕ} (hb : (n * 10 ^ 4 + digit) * 10 ^ (4 * r) < 2 ^ 96)
    (hv : value.value = n * 10 ^ 4 * 10 ^ (4 * r) / 10 ^ 8) :
    ∃ v, addGroup ops value digit (↑(r + 1) - 3) = some v ∧
      v.value = (n * 10 ^ 4 + digit : ℕ) * 10 ^ (4 * r) / 10 ^ 8 := by
  unfold addGroup
  split_ifs with hz
  · exact ⟨value, rfl, by rw [hv, hz]; push_cast; ring⟩
  -- every intermediate result is a whole number of units below the bound
  have fits {m : ℕ} (hm : m ≤ (n * 10 ^ 4 + digit) * 10 ^ (4 * r)) : FitsPlaces 8 (m / 10 ^ 8) :=
    ⟨m, by rw [Nat.abs_cast]; exact_mod_cast hm.trans_lt hb, by simp⟩
  have hp : (10000 : ℚ) ^ ((↑(r + 1) : ℤ) - 3) = (10 ^ (4 * r) : ℕ) / 10 ^ 8 := by
    rw [show ((r + 1 : ℕ) : ℤ) - 3 = r - 2 by omega, zpow_sub₀ (by norm_num), pow_mul]
    norm_num
  obtain ⟨power, hpow, hpv⟩ := ops.powi_exact _ 8 (by norm_num)
    (hp ▸ fits (Nat.le_mul_of_pos_left _ (by omega)))
  have hm : (decimal digit).value * power.value = (digit * 10 ^ (4 * r) : ℕ) / 10 ^ 8 := by
    rw [hpv, hp, value_decimal]
    push_cast
    ring
  obtain ⟨part, hmul, hmv⟩ := ops.mul_exact _ _ 8 (by norm_num)
    (hm ▸ fits (Nat.mul_le_mul_right _ (Nat.le_add_left ..)))
  have ha : value.value + part.value = ((n * 10 ^ 4 + digit) * 10 ^ (4 * r) : ℕ) / 10 ^ 8 := by
    rw [hv, hmv, hm]
    push_cast
    ring
  obtain ⟨v, hadd, hav⟩ := ops.add_exact _ _ 8 (by norm_num) (ha ▸ fits le_rfl)
  refine ⟨v, by rw [hpow]; simp [hmul, hadd], ?_⟩
  rw [hav, ha]
  push_cast
  rfl

/-- With `n` read, the digits still to come are added without overflow. -/
theorem addGroups_exact {l : List ℕ} (hl : 4 ∣ l.length) (hb : number n l < 2 ^ 96)
    (hv : value.value = n * 10 ^ l.length / 10 ^ 8) :
    ∃ r, addGroups ops value l = some r ∧ r.value = number n l / 10 ^ 8 := by
  induction value, l using addGroups.induct generalizing n with
  | case1 value a b c d rest ih =>
    have hn : number n (a :: b :: c :: d :: rest) =
        number (n * 10 ^ 4 + number 0 [a, b, c, d]) rest :=
      congrArg (number · rest) (number_eq n [a, b, c, d])
    rw [hn] at hb ⊢
    obtain ⟨r, hr⟩ : 4 ∣ rest.length := by simpa using hl
    have hb' : (n * 10 ^ 4 + number 0 [a, b, c, d]) * 10 ^ (4 * r) < 2 ^ 96 := by
      rw [number_eq, hr] at hb
      omega
    have hv' : value.value = n * 10 ^ 4 * 10 ^ (4 * r) / 10 ^ 8 := by
      rw [hv]
      push_cast [length_cons, hr]
      ring
    obtain ⟨v, hg, hvv⟩ := addGroup_exact ops hb' hv'
    rw [addGroups, hr, Nat.mul_div_cancel_left r (by norm_num), hg]
    exact ih v ⟨r, hr⟩ hb (by rw [hvv, hr])
  | case2 l value hl' =>
    -- fewer than four digits are left, and the groups are whole
    rcases l with - | ⟨a, - | ⟨b, - | ⟨c, - | ⟨d, rest⟩⟩⟩⟩
    · exact ⟨value, rfl, by simpa [number] using hv⟩
    · simp at hl
    · simp at hl
    · simp at hl
    · exact (hl' a b c d rest rfl).elim

theorem finish_exact {units : ℤ} (hb : |units| < 2 ^ 96) :
    ∃ r, finish ops units = some r ∧ r.value = units / 10 ^ 8 := by
  unfold finish
  dsimp only
  split_ifs with hz
  · exact ⟨decimal 0, rfl, by simp [hz, value_decimal]⟩
  generalize hk : (_ + 3) / 4 * 4 - _ = k
  have hp := number_padded k units.natAbs
  have hl : 4 ∣ (replicate k 0 ++ (Nat.digits 10 units.natAbs).reverse).length := by
    rw [length_append, length_replicate]
    omega
  rw [Int.abs_eq_natAbs] at hb
  obtain ⟨v, hv, hvv⟩ := addGroups_exact ops hl (by rw [hp]; exact_mod_cast hb)
    (show (decimal 0).value = (0 : ℕ) * _ / _ by simp [value_decimal])
  rw [hp] at hvv
  have hs : ({ v with negative := decide (units < 0) } : Numeral).value = units / 10 ^ 8 := by
    have hm : v.magnitude = units.natAbs / 10 ^ 8 := by
      rw [← abs_value, hvv]
      exact abs_of_nonneg (by positivity)
    exact value_of_magnitude rfl hm
  have hf : FitsPlaces 8 (units / 10 ^ 8) := ⟨units, by rwa [Int.abs_eq_natAbs], rfl⟩
  obtain ⟨hr, -⟩ := ops.rescale_exact _ 8 (by norm_num) (hs ▸ hf)
  exact ⟨_, by rw [hv]; rfl, hr.trans hs⟩

theorem add_exact (units : ℤ) (amount : Stored) :
    (add ops units amount.val : ℚ) = units + amount.val.value * 10 ^ 8 := by
  obtain ⟨n, k, hk, hv⟩ := amount
  obtain ⟨hr, hs⟩ := ops.rescale_exact n 8 (by norm_num) ⟨k, hk.trans (by norm_num), hv⟩
  have hm := value_eq (ops.rescale n 8)
  rw [hr, hs] at hm
  simp [add, hm]

/-- The units are the exact sum, in whatever order the amounts come. -/
theorem addAll_exact (units : ℤ) (amounts : List Stored) :
    (addAll ops units amounts : ℚ) = units + total amounts * 10 ^ 8 := by
  unfold addAll total
  induction amounts generalizing units with
  | nil => simp
  | cons a amounts ih =>
    rw [foldl_cons, ih, add_exact, map_cons, sum_cons]
    ring

theorem cost_sum_exact (ops : DecimalOps) (amounts : List Stored) :
    (|total amounts * 10 ^ 8| < 2 ^ 96 →
      ∃ r, finish ops (addAll ops 0 amounts) = some r ∧ r.value = total amounts) ∧
    ∀ others, total others = total amounts →
      finish ops (addAll ops 0 others) = finish ops (addAll ops 0 amounts) := by
  have hu := addAll_exact ops 0
  simp only [Int.cast_zero, zero_add] at hu
  constructor
  · intro hb
    rw [← hu] at hb
    obtain ⟨r, hr, hv⟩ := finish_exact ops (by exact_mod_cast hb)
    refine ⟨r, hr, ?_⟩
    rw [hv, hu]
    norm_num
  · intro others h
    have he : addAll ops 0 others = addAll ops 0 amounts := by
      have hq := hu others
      rw [h, ← hu] at hq
      exact_mod_cast hq
    rw [he]

/-- An amount given by its units. -/
def stored (units : ℤ) (h : |units| < 10 ^ 24) : Stored :=
  ⟨⟨decide (units < 0), units.natAbs, 8⟩, units, h, value_of_magnitude rfl rfl⟩

/-- The largest amount twice and a refund. -/
theorem cost_sum_exact_refund :
    let amounts := [stored (10 ^ 24 - 1) (by decide), stored (-5) (by decide),
      stored (10 ^ 24 - 1) (by decide)]
    ∃ r, finish .rounded (addAll .rounded 0 amounts) = some r ∧ r.value = total amounts := by
  intro amounts
  exact (cost_sum_exact .rounded amounts).1 (by decide +kernel)

end CostSum
end AiGateway.Billing
