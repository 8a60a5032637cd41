import AiGateway.Lib.Numeral

/-! Decimal numbers with a 96-bit mantissa and at most 28 places. Every operation rounds the exact
result to nearest, ties to even, at the largest number of places at which its mantissa fits. -/

namespace AiGateway.Lib

def mantissaBound : ℤ := 2 ^ 96

def maxScale : ℕ := 28

/-- The nearest integer, the even one at a midpoint. -/
def roundEven (q : ℚ) : ℤ :=
  let k := ⌊q⌋
  if 2 * (q - k) < 1 then k
  else if 1 < 2 * (q - k) then k + 1
  else k + k % 2

theorem roundEven_error (q : ℚ) : |(roundEven q : ℚ) - q| ≤ 1 / 2 := by
  have hf := Int.floor_le q
  have hl := Int.lt_floor_add_one q
  rw [abs_le]
  rcases Int.emod_two_eq ⌊q⌋ with hp | hp <;>
  · simp only [roundEven, hp]
    split_ifs <;> push_cast <;> constructor <;> linarith

@[simp] theorem roundEven_intCast (k : ℤ) : roundEven (k : ℚ) = k := by
  simp [roundEven]

variable {p q : ℚ} {scale : ℕ}

theorem roundEven_mono (h : p ≤ q) : roundEven p ≤ roundEven q := by
  have hf : ⌊p⌋ ≤ ⌊q⌋ := Int.floor_le_floor h
  rcases hf.lt_or_eq with hlt | heq
  · -- different unit intervals: the lower one rounds to at most its right end
    have hp : roundEven p ≤ ⌊p⌋ + 1 := by
      unfold roundEven
      dsimp only
      split_ifs <;> omega
    have hq : ⌊q⌋ ≤ roundEven q := by
      unfold roundEven
      dsimp only
      split_ifs <;> omega
    omega
  · unfold roundEven
    rw [heq]
    dsimp only
    split_ifs <;> first | omega | (exfalso; linarith)

theorem roundEven_nonneg (h : 0 ≤ q) : 0 ≤ roundEven q := by
  have hm : roundEven ((0 : ℤ) : ℚ) ≤ roundEven q := roundEven_mono (by exact_mod_cast h)
  rwa [roundEven_intCast] at hm

variable {k : ℤ} {places : ℕ}

theorem roundEven_le_of_le (h : q ≤ k) : roundEven q ≤ k := by
  simpa using roundEven_mono h

theorem le_roundEven_of_le (h : (k : ℚ) ≤ q) : k ≤ roundEven q := by
  simpa using roundEven_mono h

def roundAt (scale : ℕ) (q : ℚ) : ℚ := roundEven (q * 10 ^ scale) / 10 ^ scale

/-- The rounded mantissa at this many places fits. -/
def FitsAt (scale : ℕ) (q : ℚ) : Prop := |roundEven (q * 10 ^ scale)| < mantissaBound

instance (scale : ℕ) (q : ℚ) : Decidable (FitsAt scale q) := inferInstanceAs (Decidable (_ < _))

theorem roundAt_mono (h : p ≤ q) : roundAt scale p ≤ roundAt scale q := by
  unfold roundAt
  have hs : p * 10 ^ scale ≤ q * 10 ^ scale := by gcongr
  have hr : (roundEven (p * 10 ^ scale) : ℚ) ≤ roundEven (q * 10 ^ scale) := by
    exact_mod_cast roundEven_mono hs
  gcongr

theorem roundAt_nonneg (h : 0 ≤ q) : 0 ≤ roundAt scale q := by
  have hr : (0 : ℚ) ≤ roundEven (q * 10 ^ scale) := by
    exact_mod_cast roundEven_nonneg (by positivity)
  unfold roundAt
  positivity

theorem roundAt_intCast_div (h : scale ≤ places) (k : ℤ) :
    roundAt places (k / 10 ^ scale) = k / 10 ^ scale := by
  have hs : (k : ℚ) / 10 ^ scale * 10 ^ places = ((k * 10 ^ (places - scale) : ℤ) : ℚ) := by
    rw [← Nat.sub_add_cancel h, pow_add]
    push_cast
    rw [Nat.add_sub_cancel]
    field_simp
  rw [roundAt, hs, roundEven_intCast, ← hs]
  field_simp

theorem FitsAt.of_le (hp : 0 ≤ p) (hle : p ≤ q) (h : FitsAt scale q) : FitsAt scale p := by
  have hs : p * 10 ^ scale ≤ q * 10 ^ scale := by gcongr
  have hr := roundEven_mono hs
  have hn : 0 ≤ roundEven (p * 10 ^ scale) := roundEven_nonneg (by positivity)
  unfold FitsAt at h ⊢
  rw [abs_of_nonneg (hn.trans hr)] at h
  rw [abs_of_nonneg hn]
  exact hr.trans_lt h

theorem FitsAt.of_succ (hq : 0 ≤ q) (h : FitsAt (scale + 1) q) : FitsAt scale q := by
  have hs : q * 10 ^ scale ≤ q * 10 ^ (scale + 1) := by
    rw [pow_succ]
    nlinarith [show (0 : ℚ) ≤ q * 10 ^ scale by positivity]
  have hr := roundEven_mono hs
  have hn : 0 ≤ roundEven (q * 10 ^ scale) := roundEven_nonneg (by positivity)
  unfold FitsAt at h ⊢
  rw [abs_of_nonneg (hn.trans hr)] at h
  rw [abs_of_nonneg hn]
  exact hr.trans_lt h

theorem FitsAt.of_scale_le (hq : 0 ≤ q) (hle : scale ≤ places)
    (h : FitsAt places q) : FitsAt scale q := by
  induction hle with
  | refl => exact h
  | step _ ih => exact ih (h.of_succ hq)

/-- A number that does not fit is large against the unit of its places. -/
theorem le_of_not_fitsAt (hq : 0 ≤ q) (h : ¬ FitsAt scale q) :
    (mantissaBound : ℚ) - 1 / 2 ≤ q * 10 ^ scale := by
  have hr : (mantissaBound : ℚ) ≤ roundEven (q * 10 ^ scale) := by
    unfold FitsAt at h
    rw [abs_of_nonneg (roundEven_nonneg (by positivity)), not_lt] at h
    exact_mod_cast h
  linarith [(abs_le.mp (roundEven_error (q * 10 ^ scale))).2]

/-- A mantissa of 96 bits with a sign, divided by a power of ten. -/
structure Decimal where
  value : ℚ
  representable : ∃ scale ≤ maxScale, ∃ mantissa : ℤ,
    |mantissa| < mantissaBound ∧ value = mantissa / 10 ^ scale
  deriving DecidableEq

namespace Decimal

variable {a b : Decimal} {scale : ℕ} {q : ℚ} {d : Decimal} {places : ℕ}

@[ext] theorem ext (h : a.value = b.value) : a = b := by
  cases a
  cases b
  cases h
  rfl

def ofRounded (scale : ℕ) (hscale : scale ≤ maxScale) (q : ℚ) (hf : FitsAt scale q) : Decimal :=
  ⟨roundAt scale q, scale, hscale, roundEven (q * 10 ^ scale), hf, rfl⟩

/-- The rounded number at the largest number of places up to `scale` at which it fits. -/
def fitBelow : (scale : ℕ) → scale ≤ maxScale → ℚ → Option Decimal
  | 0, hscale, q => if hfits : FitsAt 0 q then some (ofRounded 0 hscale q hfits) else none
  | scale + 1, hscale, q =>
    if hfits : FitsAt (scale + 1) q then some (ofRounded (scale + 1) hscale q hfits)
    else fitBelow scale (by omega) q

def fit (q : ℚ) : Option Decimal := fitBelow maxScale le_rfl q

variable {hscale : scale ≤ maxScale} {p : ℚ} {e bound c : Decimal}

theorem fitBelow_eq_some (h : fitBelow scale hscale q = some d) :
    ∃ places ≤ scale, FitsAt places q ∧ d.value = roundAt places q ∧
      ∀ larger, places < larger → larger ≤ scale → ¬ FitsAt larger q := by
  induction scale with
  | zero =>
    simp only [fitBelow] at h
    split_ifs at h with hf
    cases h
    exact ⟨0, le_rfl, hf, rfl, fun larger hlt hle => by omega⟩
  | succ scale ih =>
    simp only [fitBelow] at h
    split_ifs at h with hf
    · cases h
      exact ⟨scale + 1, le_rfl, hf, rfl, fun larger hlt hle => by omega⟩
    · obtain ⟨places, hle, hp, hv, hl⟩ := ih h
      refine ⟨places, hle.trans (Nat.le_succ _), hp, hv, fun larger hlt hle' => ?_⟩
      rcases Nat.lt_or_ge larger (scale + 1) with hb | ht
      · exact hl larger hlt (by omega)
      · rw [show larger = scale + 1 by omega]
        exact hf

theorem fitBelow_isSome
    (hle : places ≤ scale) (hf : FitsAt places q) : ∃ d, fitBelow scale hscale q = some d := by
  induction scale with
  | zero =>
    rw [Nat.le_zero.mp hle] at hf
    exact ⟨_, dif_pos hf⟩
  | succ scale ih =>
    simp only [fitBelow]
    split_ifs with ht
    · exact ⟨_, rfl⟩
    · refine ih (Nat.le_of_lt_succ (lt_of_le_of_ne hle ?_))
      rintro rfl
      exact ht hf

theorem fit_eq_some (h : fit q = some d) :
    ∃ places ≤ maxScale, FitsAt places q ∧ d.value = roundAt places q ∧
      ∀ larger, places < larger → larger ≤ maxScale → ¬ FitsAt larger q :=
  fitBelow_eq_some h

theorem fitsAt_zero_of_fit (hq : 0 ≤ q) (h : fit q = some d) : FitsAt 0 q := by
  obtain ⟨places, -, hf, -⟩ := fit_eq_some h
  exact hf.of_scale_le hq (Nat.zero_le _)

theorem value_nonneg_of_fit (hq : 0 ≤ q) (h : fit q = some d) : 0 ≤ d.value := by
  obtain ⟨places, -, -, hv, -⟩ := fit_eq_some h
  rw [hv]
  exact roundAt_nonneg hq

theorem fit_of_le_max (hq : 0 ≤ q) (hle : q ≤ mantissaBound - 1) : ∃ d, fit q = some d := by
  refine fitBelow_isSome (Nat.zero_le _) ?_
  have hr : roundEven (q * 10 ^ 0) ≤ mantissaBound - 1 :=
    roundEven_le_of_le (by push_cast; linarith)
  unfold FitsAt
  rw [abs_of_nonneg (roundEven_nonneg (by linarith))]
  omega

/-- Where the smaller number keeps more places, the larger one is too large for them. -/
theorem roundAt_le_of_not_fitsAt {finer : ℕ} (hq : 0 ≤ q)
    (hlt : places < finer) (hf : FitsAt finer p) (hl : ¬ FitsAt (places + 1) q) :
    roundAt finer p ≤ roundAt places q := by
  have hma : (roundEven (p * 10 ^ finer) : ℚ) ≤ mantissaBound - 1 := by
    have hle : roundEven (p * 10 ^ finer) ≤ mantissaBound - 1 := by
      have ha := le_abs_self (roundEven (p * 10 ^ finer))
      unfold FitsAt at hf
      omega
    exact_mod_cast hle
  -- at the coarser scale the larger number already rounds up past every shorter mantissa
  have hr : (7922816251426433759354395034 : ℚ) ≤ roundEven (q * 10 ^ places) := by
    have hb := le_of_not_fitsAt hq hl
    have hc : (7922816251426433759354395033 + 11 / 20 : ℚ) ≤ q * 10 ^ places := by
      rw [pow_succ] at hb
      norm_num [mantissaBound] at hb
      linarith
    have hv : roundEven (7922816251426433759354395033 + 11 / 20 : ℚ)
        = 7922816251426433759354395034 := by
      decide +kernel
    have hm := roundEven_mono hc
    rw [hv] at hm
    exact_mod_cast hm
  have hpo : (10 : ℚ) ^ (places + 1) ≤ 10 ^ finer := pow_le_pow_right₀ (by norm_num) hlt
  have hp : (0 : ℚ) < 10 ^ (places + 1) := by positivity
  calc roundAt finer p
      ≤ ((mantissaBound : ℚ) - 1) / 10 ^ finer := by
        unfold roundAt
        gcongr
    _ ≤ ((mantissaBound : ℚ) - 1) / 10 ^ (places + 1) := by
        apply div_le_div_of_nonneg_left _ hp hpo
        norm_num [mantissaBound]
    _ ≤ roundAt places q := by
        unfold roundAt
        rw [pow_succ, div_le_div_iff₀ (by positivity) (by positivity)]
        norm_num [mantissaBound] at hr ⊢
        nlinarith [show (0 : ℚ) < 10 ^ places by positivity]

/-- Rounding is monotone, also between numbers that keep different numbers of places, and what is
below a number that fits, fits. -/
theorem fit_mono (hp : 0 ≤ p) (hle : p ≤ q) (h : fit q = some e) :
    ∃ d, fit p = some d ∧ d.value ≤ e.value := by
  have hq : 0 ≤ q := hp.trans hle
  obtain ⟨d, hd⟩ : ∃ d, fit p = some d :=
    fitBelow_isSome (Nat.zero_le _) ((fitsAt_zero_of_fit hq h).of_le hp hle)
  refine ⟨d, hd, ?_⟩
  obtain ⟨finer, hf, hfi, hdv, hm⟩ := fit_eq_some hd
  obtain ⟨places, hpl, hef, he, hl⟩ := fit_eq_some h
  rw [hdv, he]
  rcases Nat.lt_trichotomy finer places with hlt | heq | hgt
  · exact absurd (hef.of_le hp hle) (hm places hlt hpl)
  · rw [heq]
    exact roundAt_mono hle
  · exact roundAt_le_of_not_fitsAt hq hgt hfi (hl _ (Nat.lt_succ_self _) (hgt.trans_le hf))

theorem fit_value (d : Decimal) : fit d.value = some d := by
  obtain ⟨scale, hscale, mantissa, hb, hv⟩ := d.representable
  have hf : FitsAt scale d.value := by
    unfold FitsAt
    rwa [hv, div_mul_cancel₀ _ (by positivity), roundEven_intCast]
  obtain ⟨e, he⟩ : ∃ e, fit d.value = some e := fitBelow_isSome hscale hf
  obtain ⟨places, -, -, hr, hl⟩ := fit_eq_some he
  have hle : scale ≤ places := by
    by_contra hlt
    exact hl scale (not_le.mp hlt) hscale hf
  rw [he, Option.some_inj]
  ext
  rw [hr, hv, roundAt_intCast_div hle]

theorem value_le_of_fit (hq : 0 ≤ q) (hle : q ≤ bound.value) (h : fit q = some d) :
    d.value ≤ bound.value := by
  obtain ⟨c, hc, hcl⟩ := fit_mono hq hle (fit_value bound)
  cases h.symm.trans hc
  exact hcl

theorem le_value_of_fit (hb : 0 ≤ bound.value) (hle : bound.value ≤ q) (h : fit q = some d) :
    bound.value ≤ d.value := by
  obtain ⟨c, hc, hcl⟩ := fit_mono hb hle h
  cases (fit_value bound).symm.trans hc
  exact hcl

theorem value_le_mantissaBound (d : Decimal) : d.value ≤ mantissaBound := by
  obtain ⟨scale, -, m, hm, hv⟩ := d.representable
  have hm' : (m : ℚ) ≤ mantissaBound := by exact_mod_cast (le_abs_self m).trans hm.le
  have hb : (0 : ℚ) ≤ mantissaBound := by norm_num [mantissaBound]
  rw [hv, div_le_iff₀ (by positivity)]
  exact hm'.trans (le_mul_of_one_le_right hb (one_le_pow₀ (by norm_num)))

/-- What rounding changes, against the number and the last place. -/
theorem fit_error (hq : 0 ≤ q) (h : fit q = some d) : |d.value - q| ≤ q / 10 ^ 28 + 1 / 10 ^ 28 := by
  obtain ⟨places, hpl, -, hr, hla⟩ := fit_eq_some h
  have hp : (0 : ℚ) < 10 ^ places := by positivity
  have hu : |d.value - q| ≤ 1 / 2 / 10 ^ places := by
    have hm := roundEven_error (q * 10 ^ places)
    rw [le_div_iff₀ hp, ← abs_of_pos hp, ← abs_mul, sub_mul, hr, roundAt,
      div_mul_cancel₀ _ hp.ne']
    exact hm
  rcases hpl.lt_or_eq with hlt | heq
  · have hl := le_of_not_fitsAt hq (hla (places + 1) (Nat.lt_succ_self _) hlt)
    have hun : 1 / 2 / 10 ^ places ≤ q / 10 ^ 28 := by
      rw [div_le_div_iff₀ hp (by positivity)]
      rw [pow_succ] at hl
      norm_num [mantissaBound] at hl ⊢
      linarith
    linarith
  · rw [heq, maxScale] at hu
    linarith [div_nonneg hq (by positivity : (0 : ℚ) ≤ 10 ^ 28)]

theorem fit_of_representable {m : ℤ} (hs : scale ≤ maxScale) (hm : |m| < mantissaBound)
    (hq : q = m / 10 ^ scale) : ∃ d, fit q = some d ∧ d.value = q :=
  ⟨⟨q, scale, hs, m, hm, hq⟩, fit_value ⟨q, scale, hs, m, hm, hq⟩, rfl⟩

/-- The numeral of the value without zeros at its end. -/
def toNumeral (d : Decimal) : Numeral :=
  Numeral.normalize ⟨decide (d.value < 0), (d.value * 10 ^ maxScale).num.natAbs, maxScale⟩

theorem value_toNumeral (d : Decimal) : d.toNumeral.value = d.value := by
  obtain ⟨scale, hscale, m, -, hv⟩ := d.representable
  have hk : d.value = ((m * 10 ^ (maxScale - scale) : ℤ) : ℚ) / 10 ^ maxScale := by
    rw [hv, div_eq_div_iff (by positivity) (by positivity)]
    push_cast
    rw [mul_assoc, ← pow_add, Nat.sub_add_cancel hscale]
  generalize m * 10 ^ (maxScale - scale) = k at hk
  have hp : (0 : ℚ) < 10 ^ maxScale := by positivity
  have hm : (d.value * 10 ^ maxScale).num = k := by
    rw [hk, div_mul_cancel₀ _ hp.ne', Rat.num_intCast]
  have hn : d.value < 0 ↔ k < 0 := by
    rw [hk, div_lt_iff₀ hp, zero_mul, Int.cast_lt_zero]
  rw [toNumeral, Numeral.value_normalize, hm, Numeral.value_of_magnitude (m := k) (by simp [hn]) rfl, hk]

attribute [irreducible] fit

def ofInt (k : ℤ) (h : |k| < mantissaBound) : Decimal := ⟨k, 0, Nat.zero_le _, k, h, by simp⟩

instance : One Decimal := ⟨ofInt 1 (by decide +kernel)⟩

instance : Zero Decimal := ⟨ofInt 0 (by decide +kernel)⟩

@[simp] theorem value_one : (1 : Decimal).value = 1 := Int.cast_one

@[simp] theorem value_ofInt (k : ℤ) (h : |k| < mantissaBound) : (ofInt k h).value = k := rfl

def checkedMul (a b : Decimal) : Option Decimal := fit (a.value * b.value)

def checkedAdd (a b : Decimal) : Option Decimal := fit (a.value + b.value)

/-- Division by zero fails too. -/
def checkedDiv (a b : Decimal) : Option Decimal :=
  if b.value = 0 then none else fit (a.value / b.value)

theorem checkedDiv_le (ha : 0 ≤ a.value) (hb : 0 < b.value)
    (hle : a.value / b.value ≤ bound.value) :
    ∃ c, a.checkedDiv b = some c ∧ 0 ≤ c.value ∧ c.value ≤ bound.value := by
  have hq : 0 ≤ a.value / b.value := div_nonneg ha hb.le
  obtain ⟨c, hc, hcl⟩ := fit_mono hq hle (fit_value bound)
  exact ⟨c, by rw [checkedDiv, if_neg hb.ne', hc], value_nonneg_of_fit hq hc, hcl⟩

theorem checkedMul_mono (ha : 0 ≤ a.value) (hac : a.value ≤ c.value)
    (hb : 0 ≤ b.value) (hbd : b.value ≤ d.value) (h : c.checkedMul d = some e) :
    ∃ f, a.checkedMul b = some f ∧ 0 ≤ f.value ∧ f.value ≤ e.value := by
  have hp : a.value * b.value ≤ c.value * d.value := mul_le_mul hac hbd hb (ha.trans hac)
  obtain ⟨f, hf, hle⟩ := fit_mono (mul_nonneg ha hb) hp h
  exact ⟨f, hf, value_nonneg_of_fit (mul_nonneg ha hb) hf, hle⟩

@[simp] theorem checkedMul_one (a : Decimal) : a.checkedMul 1 = some a := by
  rw [checkedMul, value_one, mul_one, fit_value]

theorem representable_roundAt (places : ℕ) (d : Decimal) :
    ∃ scale ≤ maxScale, ∃ mantissa : ℤ,
      |mantissa| < mantissaBound ∧ roundAt places d.value = mantissa / 10 ^ scale := by
  obtain ⟨scale, hscale, mantissa, hb, hv⟩ := d.representable
  rcases le_or_gt scale places with hle | hlt
  · rw [hv, roundAt_intCast_div hle]
    exact ⟨scale, hscale, mantissa, hb, rfl⟩
  · refine ⟨places, (hlt.trans_le hscale).le, roundEven (d.value * 10 ^ places), ?_, rfl⟩
    -- fewer places leave a shorter mantissa, which rounding brings to the old one at most
    have hs : |d.value * 10 ^ places| ≤ ((mantissaBound - 1 : ℤ) : ℚ) := by
      have hm : |(mantissa : ℚ)| ≤ ((mantissaBound - 1 : ℤ) : ℚ) := by
        rw [← Int.cast_abs]
        exact_mod_cast Int.le_sub_one_of_lt hb
      have hp : (10 : ℚ) ^ places ≤ 10 ^ scale := pow_le_pow_right₀ (by norm_num) hlt.le
      rw [hv, abs_mul, abs_div, abs_of_pos (by positivity : (0 : ℚ) < 10 ^ scale),
        abs_of_pos (by positivity : (0 : ℚ) < 10 ^ places), div_mul_eq_mul_div,
        div_le_iff₀ (by positivity)]
      exact mul_le_mul hm hp (by positivity) ((abs_nonneg _).trans hm)
    rw [abs_le] at hs
    have hu := roundEven_le_of_le hs.2
    have hl : -(mantissaBound - 1) ≤ roundEven (d.value * 10 ^ places) :=
      le_roundEven_of_le (by push_cast at hs ⊢; exact hs.1)
    rw [abs_lt]
    omega

/-- Rounding to a number of places, ties to even. -/
def roundDp (places : ℕ) (d : Decimal) : Decimal :=
  ⟨roundAt places d.value, representable_roundAt places d⟩

theorem roundDp_mono (h : a.value ≤ b.value) :
    (a.roundDp places).value ≤ (b.roundDp places).value :=
  roundAt_mono h

/-- A number rounded below a multiple of the last place is half a place below it. -/
theorem mul_le_of_roundDp_lt {k : ℤ} (h : (d.roundDp places).value * 10 ^ places < k) :
    d.value * 10 ^ places ≤ k - 1 / 2 := by
  change (roundEven (d.value * 10 ^ places) : ℚ) / 10 ^ places * 10 ^ places < k at h
  rw [div_mul_cancel₀ _ (by positivity)] at h
  have hi : roundEven (d.value * 10 ^ places) ≤ k - 1 := Int.le_sub_one_of_lt (by exact_mod_cast h)
  have hi' : (roundEven (d.value * 10 ^ places) : ℚ) ≤ k - 1 := by exact_mod_cast hi
  linarith [(abs_le.mp (roundEven_error (d.value * 10 ^ places))).1]

end Decimal
end AiGateway.Lib
