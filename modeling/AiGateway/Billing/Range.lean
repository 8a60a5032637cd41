import AiGateway.Billing.Request

/-! Which token counts can be billed and stored. Unit prices, counts and columns are bounded apart from
each other, so a price and a count within their own bounds can still overflow together. -/
namespace AiGateway.Billing
open Option

open Lib CompiledAdvancedBilling

/-- The cost of the counts before it is divided by the price unit, without any rounding. -/
def exactTotal (usage : RequestUsage) (prices : UnitPrices) : ℚ :=
  (usage.inputTokens.value - usage.cachedInputTokens.value) * prices.input.value +
    usage.cachedInputTokens.value * prices.cachedInput.value +
    usage.cacheWriteTokens.value * prices.cacheWrite.value +
    usage.outputTokens.value * prices.output.value

/-- The exact total stays within the decimal type and the cost within its column, with a margin for
what the products, the sums and the quotient are rounded. -/
structure CostInRange (usage : RequestUsage) (price : RequestPriceSnapshot) : Prop where
  total : exactTotal usage price.prices ≤ mantissaBound - 100
  amount : exactTotal usage price.prices ≤ (10 ^ 16 - 1 / 10 ^ 8) * price.priceUnitTokens.value

/-- The same without the margin. -/
structure CostNearRange (usage : RequestUsage) (price : RequestPriceSnapshot) : Prop where
  total : exactTotal usage price.prices ≤ mantissaBound + 100
  amount : exactTotal usage price.prices < 10 ^ 16 * price.priceUnitTokens.value

/-- The cost is computed without overflow and fits its column. -/
def CostStored (usage : RequestUsage) (price : RequestPriceSnapshot) : Prop :=
  ∃ cost, calculateCost usage price = .ok cost ∧ (amountText cost).isSome

/-- The rate is below ten digits before the point also when it is rounded to four places. -/
def RateInRange (usage : RequestUsage) (totalDurationMs ttftMs : I32) : Prop :=
  2 * 10 ^ 7 * usage.outputTokens.value <
    (2 * 10 ^ 14 - 1) * (generationMs totalDurationMs ttftMs).value

variable {u : RequestUsage}

theorem RequestUsage.validate_iff (h : u.validate) :
    0 ≤ u.cachedInputTokens.value ∧ u.cachedInputTokens.value ≤ u.inputTokens.value ∧
      0 ≤ u.cacheWriteTokens.value ∧ 0 ≤ u.outputTokens.value := by
  simp only [RequestUsage.validate, Bool.and_eq_true, decide_eq_true_eq] at h
  obtain ⟨⟨⟨⟨⟨⟨⟨-, hc⟩, hw⟩, hou⟩, -⟩, hle⟩, -⟩, -⟩ := h
  exact ⟨hc, hle, hw, hou⟩

section Total
variable {x₁ x₂ x₃ x₄ : ℚ} {y₁ y₂ s₂ y₃ s₃ y₄ s₄ : Decimal}

/-- Four products added one after the other, each step rounded. -/
structure RoundedSum (x₁ x₂ x₃ x₄ : ℚ) (y₁ y₂ s₂ y₃ s₃ y₄ s₄ : Decimal) : Prop where
  first : Decimal.fit x₁ = some y₁
  second : Decimal.fit x₂ = some y₂
  add₂ : y₁.checkedAdd y₂ = some s₂
  third : Decimal.fit x₃ = some y₃
  add₃ : s₂.checkedAdd y₃ = some s₃
  fourth : Decimal.fit x₄ = some y₄
  add₄ : s₃.checkedAdd y₄ = some s₄

theorem RoundedSum.error (h : RoundedSum x₁ x₂ x₃ x₄ y₁ y₂ s₂ y₃ s₃ y₄ s₄) (h₁ : 0 ≤ x₁)
    (h₂ : 0 ≤ x₂) (h₃ : 0 ≤ x₃) (h₄ : 0 ≤ x₄) :
    0 ≤ s₄.value ∧
      |s₄.value - (x₁ + x₂ + x₃ + x₄)| ≤ (x₁ + x₂ + x₃ + x₄) / 10 ^ 27 + 1 / 10 ^ 26 := by
  have hy₁ := Decimal.value_nonneg_of_fit h₁ h.first
  have hy₂ := Decimal.value_nonneg_of_fit h₂ h.second
  have hy₃ := Decimal.value_nonneg_of_fit h₃ h.third
  have hy₄ := Decimal.value_nonneg_of_fit h₄ h.fourth
  have hs₂ := Decimal.value_nonneg_of_fit (add_nonneg hy₁ hy₂) h.add₂
  have hs₃ := Decimal.value_nonneg_of_fit (add_nonneg hs₂ hy₃) h.add₃
  refine ⟨Decimal.value_nonneg_of_fit (add_nonneg hs₃ hy₄) h.add₄, ?_⟩
  obtain ⟨e₁, f₁⟩ := abs_le.mp (Decimal.fit_error h₁ h.first)
  obtain ⟨e₂, f₂⟩ := abs_le.mp (Decimal.fit_error h₂ h.second)
  obtain ⟨e₃, f₃⟩ := abs_le.mp (Decimal.fit_error h₃ h.third)
  obtain ⟨e₄, f₄⟩ := abs_le.mp (Decimal.fit_error h₄ h.fourth)
  obtain ⟨e₅, f₅⟩ := abs_le.mp (Decimal.fit_error (add_nonneg hy₁ hy₂) h.add₂)
  obtain ⟨e₆, f₆⟩ := abs_le.mp (Decimal.fit_error (add_nonneg hs₂ hy₃) h.add₃)
  obtain ⟨e₇, f₇⟩ := abs_le.mp (Decimal.fit_error (add_nonneg hs₃ hy₄) h.add₄)
  rw [abs_le]
  constructor <;> linarith

theorem exists_roundedSum (h₁ : 0 ≤ x₁) (h₂ : 0 ≤ x₂) (h₃ : 0 ≤ x₃) (h₄ : 0 ≤ x₄)
    (ht : x₁ + x₂ + x₃ + x₄ ≤ mantissaBound - 100) :
    ∃ y₁ y₂ s₂ y₃ s₃ y₄ s₄, RoundedSum x₁ x₂ x₃ x₄ y₁ y₂ s₂ y₃ s₃ y₄ s₄ := by
  have hm : (mantissaBound : ℚ) ≤ 8 * 10 ^ 28 := by norm_num [mantissaBound]
  have fits {q : ℚ} (hq : 0 ≤ q) (hle : q ≤ mantissaBound - 1) :
      ∃ d, Decimal.fit q = some d ∧ 0 ≤ d.value ∧ d.value ≤ q + q / 10 ^ 28 + 1 / 10 ^ 28 := by
    obtain ⟨d, hd⟩ := Decimal.fit_of_le_max hq hle
    have he := (abs_le.mp (Decimal.fit_error hq hd)).2
    exact ⟨d, hd, Decimal.value_nonneg_of_fit hq hd, by linarith⟩
  obtain ⟨y₁, hy₁, hy₁n, hy₁le⟩ := fits h₁ (by linarith)
  obtain ⟨y₂, hy₂, hy₂n, hy₂le⟩ := fits h₂ (by linarith)
  obtain ⟨y₃, hy₃, hy₃n, hy₃le⟩ := fits h₃ (by linarith)
  obtain ⟨y₄, hy₄, hy₄n, hy₄le⟩ := fits h₄ (by linarith)
  obtain ⟨s₂, hs₂, hs₂n, hs₂le⟩ := fits (add_nonneg hy₁n hy₂n) (by linarith)
  obtain ⟨s₃, hs₃, hs₃n, hs₃le⟩ := fits (add_nonneg hs₂n hy₃n) (by linarith)
  obtain ⟨s₄, hs₄, -, -⟩ := fits (add_nonneg hs₃n hy₄n) (by linarith)
  exact ⟨y₁, y₂, s₂, y₃, s₃, y₄, s₄, hy₁, hy₂, hs₂, hy₃, hs₃, hy₄, hs₄⟩

end Total

theorem value_ofI64 (count : I64) : (ofI64 count).value = count.value := rfl

variable {price : RequestPriceSnapshot} {totalDurationMs : I32}

theorem orPanic_eq_ok {α : Type} {panic : BillingPanic} {res : Option α} {v : α} :
    orPanic panic res = .ok v ↔ res = some v := by
  cases res <;> simp [orPanic]

section Cost

/-- The four products that are added up, none of them negative. -/
theorem RequestUsage.products_nonneg (hv : u.validate)
    (hp : ∀ unit ∈ price.prices.all, 0 ≤ unit.value) :
    0 ≤ ((u.inputTokens.value : ℚ) - u.cachedInputTokens.value) * price.prices.input.value ∧
    0 ≤ (u.cachedInputTokens.value : ℚ) * price.prices.cachedInput.value ∧
    0 ≤ (u.cacheWriteTokens.value : ℚ) * price.prices.cacheWrite.value ∧
    0 ≤ (u.outputTokens.value : ℚ) * price.prices.output.value := by
  obtain ⟨hc, hle, hw, hou⟩ := RequestUsage.validate_iff hv
  simp only [UnitPrices.all, List.forall_mem_cons, List.not_mem_nil, false_implies, implies_true,
    and_true] at hp
  obtain ⟨hin, hca, hwr, hout⟩ := hp
  refine ⟨mul_nonneg ?_ hin, mul_nonneg ?_ hca, mul_nonneg ?_ hwr, mul_nonneg ?_ hout⟩
  · exact_mod_cast sub_nonneg.mpr hle
  · exact_mod_cast hc
  · exact_mod_cast hw
  · exact_mod_cast hou

theorem calculateCost_eq_ok (hv : u.validate) {cost : Decimal} :
    calculateCost u price = .ok cost ↔ ∃ y₁ y₂ s₂ y₃ s₃ y₄ s₄ amount,
      RoundedSum ((u.inputTokens.value - u.cachedInputTokens.value) * price.prices.input.value)
        (u.cachedInputTokens.value * price.prices.cachedInput.value)
        (u.cacheWriteTokens.value * price.prices.cacheWrite.value)
        (u.outputTokens.value * price.prices.output.value) y₁ y₂ s₂ y₃ s₃ y₄ s₄ ∧
      s₄.checkedDiv (ofI64 price.priceUnitTokens) = some amount ∧ cost = amount.roundDp 8 := by
  obtain ⟨hc, hle, -, -⟩ := RequestUsage.validate_iff hv
  have hn : ((u.inputTokens.saturatingSub u.cachedInputTokens).value : ℚ) =
      u.inputTokens.value - u.cachedInputTokens.value := by
    rw [Signed.value_saturatingSub hc hle]
    push_cast
    rfl
  rw [calculateCost, orPanic_eq_ok]
  simp only [bind_eq_bind, bind_eq_some_iff, Decimal.checkedMul, value_ofI64, hn]
  constructor
  · rintro ⟨y₁, h₁, y₂, h₂, s₂, h₃, y₃, h₄, s₃, h₅, y₄, h₆, s₄, h₇, amount, h₈, h₉⟩
    exact ⟨y₁, y₂, s₂, y₃, s₃, y₄, s₄, amount, ⟨h₁, h₂, h₃, h₄, h₅, h₆, h₇⟩, h₈, (some.inj h₉).symm⟩
  · rintro ⟨y₁, y₂, s₂, y₃, s₃, y₄, s₄, amount, ⟨h₁, h₂, h₃, h₄, h₅, h₆, h₇⟩, h₈, rfl⟩
    exact ⟨y₁, h₁, y₂, h₂, s₂, h₃, y₃, h₄, s₃, h₅, y₄, h₆, s₄, h₇, amount, h₈, rfl⟩

theorem CostInRange.stored (hr : CostInRange u price) (hv : u.validate)
    (hu : 0 < price.priceUnitTokens.value) (hp : ∀ unit ∈ price.prices.all, 0 ≤ unit.value) :
    CostStored u price := by
  obtain ⟨h₁, h₂, h₃, h₄⟩ := RequestUsage.products_nonneg hv hp
  obtain ⟨y₁, y₂, s₂, y₃, s₃, y₄, s₄, hs⟩ := exists_roundedSum h₁ h₂ h₃ h₄ hr.total
  obtain ⟨hs₄n, he⟩ := hs.error h₁ h₂ h₃ h₄
  have hu' : (1 : ℚ) ≤ price.priceUnitTokens.value := by exact_mod_cast hu
  -- below the column's limit by more than rounding to eight places can add
  let limit : Decimal := ⟨((10 ^ 25 - 6 : ℤ) : ℚ) / 10 ^ 9, 9, by decide, 10 ^ 25 - 6,
    by decide +kernel, rfl⟩
  have hq : s₄.value / (ofI64 price.priceUnitTokens).value ≤ limit.value := by
    rw [value_ofI64, div_le_iff₀ (by linarith)]
    have ha := hr.amount
    have hb := (abs_le.mp he).2
    unfold exactTotal at ha
    change _ ≤ ((10 ^ 25 - 6 : ℤ) : ℚ) / 10 ^ 9 * _
    push_cast
    linarith
  obtain ⟨amount, ha, hn, hle⟩ := Decimal.checkedDiv_le hs₄n (by rw [value_ofI64]; linarith) hq
  refine ⟨amount.roundDp 8,
    (calculateCost_eq_ok hv).mpr ⟨y₁, y₂, s₂, y₃, s₃, y₄, s₄, amount, hs, ha, rfl⟩, ?_⟩
  have hlim : (limit.roundDp 8).value < 10 ^ 16 := by decide +kernel
  exact (isSome_columnText_roundDp 16 rfl hn).mpr ((Decimal.roundDp_mono hle).trans_lt hlim)

theorem CostStored.near (h : CostStored u price) (hv : u.validate)
    (hu : 0 < price.priceUnitTokens.value) (hp : ∀ unit ∈ price.prices.all, 0 ≤ unit.value) :
    CostNearRange u price := by
  obtain ⟨cost, hc, hs⟩ := h
  obtain ⟨y₁, y₂, s₂, y₃, s₃, y₄, s₄, amount, hsum, ha, rfl⟩ := (calculateCost_eq_ok hv).mp hc
  obtain ⟨h₁, h₂, h₃, h₄⟩ := RequestUsage.products_nonneg hv hp
  obtain ⟨hs₄n, he⟩ := hsum.error h₁ h₂ h₃ h₄
  have hu' : (1 : ℚ) ≤ price.priceUnitTokens.value := by exact_mod_cast hu
  have hne : (ofI64 price.priceUnitTokens).value ≠ 0 := by
    rw [value_ofI64]
    linarith
  rw [Decimal.checkedDiv, if_neg hne, value_ofI64] at ha
  have hq : 0 ≤ s₄.value / price.priceUnitTokens.value := div_nonneg hs₄n (by linarith)
  have hn := Decimal.value_nonneg_of_fit hq ha
  have hlt := (isSome_columnText_roundDp 16 rfl hn).mp hs
  have hle : amount.value * 10 ^ 8 ≤ ((10 ^ 24 : ℤ) : ℚ) - 1 / 2 := by
    refine Decimal.mul_le_of_roundDp_lt ?_
    push_cast
    linarith only [hlt]
  push_cast at hle
  have hf := (abs_le.mp (Decimal.fit_error hq ha)).1
  have hd : s₄.value / price.priceUnitTokens.value ≤ 10 ^ 16 - 4 / 10 ^ 9 := by linarith
  rw [div_le_iff₀ (by linarith)] at hd
  have hb := (abs_le.mp he).1
  have hmax := s₄.value_le_mantissaBound
  have hbound : (mantissaBound : ℚ) ≤ 8 * 10 ^ 28 := by norm_num [mantissaBound]
  constructor
  · unfold exactTotal
    linarith
  · unfold exactTotal
    linarith

end Cost

theorem outputRate_stored (totalDurationMs ttftMs : I32) (hou : 0 ≤ u.outputTokens.value) :
    ∃ rate, outputRate u.outputTokens (generationMs totalDurationMs ttftMs) = .ok rate ∧
      ((rateText rate).isSome ↔ RateInRange u totalDurationMs ttftMs) := by
  have hu := u.outputTokens.upper
  generalize hgen : generationMs totalDurationMs ttftMs = g
  have hg1 : 1 ≤ g.value := by rw [← hgen]; exact le_max_right _ _
  have hg2 : g.value ≤ 2 ^ 31 := by
    rw [← hgen]
    have := (totalDurationMs.saturatingSub ttftMs).upper
    exact max_le (by omega) (by norm_num)
  have hg : (1 : ℚ) ≤ g.value := by exact_mod_cast hg1
  let scaled : Decimal := Decimal.ofInt (u.outputTokens.value * 1000) (by
    rw [abs_of_nonneg (by omega), mantissaBound]
    omega)
  have hs : (ofI64 u.outputTokens).checkedMul (Decimal.ofInt 1000 (by decide +kernel)) =
      some scaled := by
    rw [Decimal.checkedMul, value_ofI64, Decimal.value_ofInt, ← Int.cast_mul]
    exact Decimal.fit_value scaled
  have hsn : 0 ≤ scaled.value := by
    rw [Decimal.value_ofInt]
    exact_mod_cast (by omega : 0 ≤ u.outputTokens.value * 1000)
  have hle : scaled.value / (ofI64 g).value ≤ scaled.value := by
    rw [value_ofI64]
    exact div_le_self hsn hg
  obtain ⟨rate, hra, hn, -⟩ := Decimal.checkedDiv_le hsn (by rw [value_ofI64]; linarith) hle
  refine ⟨rate.roundDp 4, by simp only [outputRate, hs, hra, bind_eq_bind, bind_some]; rfl, ?_⟩
  rw [Decimal.checkedDiv, value_ofI64, if_neg (by linarith)] at hra
  have hq : 0 ≤ scaled.value / g.value := div_nonneg hsn (by linarith)
  rw [rateText, isSome_columnText_roundDp 10 rfl hn, RateInRange, hgen]
  -- the midpoint below the limit rounds up to it, and no quotient is closer to it than this
  let edge : Decimal := ⟨((10 ^ 15 - 5 : ℤ) : ℚ) / 10 ^ 5, 5, by decide, 10 ^ 15 - 5,
    by decide +kernel, rfl⟩
  let below : Decimal := ⟨((10 ^ 24 - 5 * 10 ^ 9 - 1 : ℤ) : ℚ) / 10 ^ 14, 14, by decide,
    10 ^ 24 - 5 * 10 ^ 9 - 1, by decide +kernel, rfl⟩
  constructor
  · intro hlt
    by_contra hnot
    have hle : edge.value ≤ scaled.value / g.value := by
      rw [le_div_iff₀ (by linarith)]
      have hi : ((2 * 10 ^ 14 - 1 : ℤ) : ℚ) * g.value ≤ (2 * 10 ^ 7 : ℤ) * u.outputTokens.value := by
        exact_mod_cast not_lt.mp hnot
      change ((10 ^ 15 - 5 : ℤ) : ℚ) / 10 ^ 5 * _ ≤ ((u.outputTokens.value * 1000 : ℤ) : ℚ)
      push_cast at hi ⊢
      linarith only [hi]
    have hup : (edge.roundDp 4).value = 10 ^ 10 := by decide +kernel
    have hr : (edge.roundDp 4).value ≤ (rate.roundDp 4).value :=
      Decimal.roundDp_mono (Decimal.le_value_of_fit (by decide +kernel) hle hra)
    rw [hup] at hr
    exact absurd hlt (not_lt.mpr hr)
  · intro hlt
    have hle : scaled.value / g.value ≤ below.value := by
      rw [div_le_iff₀ (by linarith)]
      have hi : ((2 * 10 ^ 7 : ℤ) : ℚ) * u.outputTokens.value + 1 ≤ (2 * 10 ^ 14 - 1 : ℤ) * g.value := by
        exact_mod_cast hlt
      have hg' : (g.value : ℚ) ≤ 2 ^ 31 := by exact_mod_cast hg2
      change ((u.outputTokens.value * 1000 : ℤ) : ℚ) ≤ ((10 ^ 24 - 5 * 10 ^ 9 - 1 : ℤ) : ℚ) / 10 ^ 14 * _
      push_cast at hi ⊢
      linarith only [hi, hg']
    have hdown : (below.roundDp 4).value < 10 ^ 10 := by decide +kernel
    exact (Decimal.roundDp_mono (Decimal.value_le_of_fit hq hle hra)).trans_lt hdown

theorem outputTokensPerSecond_stored (totalDurationMs : I32) (ttftMs : Option I32)
    (hou : 0 ≤ u.outputTokens.value) :
    ∃ rate, outputTokensPerSecond (some u) totalDurationMs ttftMs = .ok rate ∧
      ((∀ v, rate = some v → (rateText v).isSome) ↔
        ∀ ttft, ttftMs = some ttft → RateInRange u totalDurationMs ttft) := by
  cases ttftMs with
  | none => exact ⟨none, rfl, iff_of_true (fun v h => nomatch h) (fun ttft h => nomatch h)⟩
  | some ttft =>
    simp only [outputTokensPerSecond]
    split_ifs with hpos
    · obtain ⟨rate, hra, hr⟩ := outputRate_stored totalDurationMs ttft hou
      refine ⟨some rate, by simp only [hra]; rfl, ?_⟩
      simp only [some_inj, forall_eq', hr]
    · refine ⟨none, rfl, iff_of_true (fun v h => nomatch h) ?_⟩
      rintro _ ⟨⟩
      have hg : 1 ≤ (generationMs totalDurationMs ttft).value := le_max_right _ _
      unfold RateInRange
      omega

/-- What is computed of a request is stored: its cost and its rate fit their columns. -/
def RequestBilling.FitsColumns (result : RequestBilling) : Prop :=
  (∃ cost, result.costAmount = some cost ∧ (amountText cost).isSome) ∧
    ∀ rate, result.outputTokensPerSecond = some rate → (rateText rate).isSome

theorem requestBilling_stored {snapshot : ModelPriceSnapshot} {billing : CompiledAdvancedBilling}
    {factors : RequestBillingFactors} (hou : 0 ≤ u.outputTokens.value)
    (hp : requestPrice snapshot billing factors (some u) = .ok price) (ttftMs : Option I32)
    (out : RequestLogOutcome) :
    (∃ result, requestBilling snapshot billing factors (some u) totalDurationMs ttftMs out = .ok result ∧
      result.FitsColumns) ↔
    (out.forcesZeroCost = true ∨ CostStored u price) ∧
      ∀ ttft, ttftMs = some ttft → RateInRange u totalDurationMs ttft := by
  obtain ⟨rate, hr, hiff⟩ := outputTokensPerSecond_stored totalDurationMs ttftMs hou
  rw [← hiff]
  simp only [requestBilling, hp, bind, Except.bind, requestCost, hr, CostStored]
  split_ifs with hz
  · have hs : (amountText 0).isSome = true := by decide +kernel
    simp [hz, RequestBilling.FitsColumns, pure, Except.pure, hs]
  · cases hc : calculateCost u price with
    | error panic => simp [hz]
    | ok cost => simp [hz, RequestBilling.FitsColumns, pure, Except.pure]

def counts (input output : ℕ) (hinput : (input : ℤ) < 2 ^ 63) (houtput : (output : ℤ) < 2 ^ 63) :
    RequestUsage :=
  ⟨⟨input, by omega, hinput⟩, ⟨0, by decide, by decide⟩, ⟨0, by decide, by decide⟩,
    ⟨output, by omega, houtput⟩, ⟨0, by decide, by decide⟩⟩

/-- A model priced by the token at the largest unit price. -/
def dearRecord : ModelPriceRecord where
  modelCurrency := "USD"
  priceUnitTokens := ⟨1, by decide, by decide⟩
  priceEffectiveAt := 0
  base := ⟨maxPersistedUnitPrice, 0, 0, 0⟩
  advancedBilling := ⟨[], [], []⟩

theorem accepted_dear : Accepted (some ·.text) dearRecord 1 ⟨"USD", dearRecord.priceUnitTokens, 0,
    dearRecord.base⟩ ⟨[], [], [], 1, 1⟩ where
  snapshot := if_neg (by decide +kernel)
  billing := rfl
  multiplier := if_neg (by decide +kernel)
  prices := by decide +kernel

end AiGateway.Billing
