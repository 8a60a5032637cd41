import AiGateway.Billing.ColumnText
import AiGateway.Billing.Policy
import AiGateway.Lib.JsonText

/-! Billing of one request: the effective unit prices, the cost and the output rate, and the columns
they are stored in. -/
namespace AiGateway.Billing
open List

open Lib CompiledAdvancedBilling

structure ModelPriceRecord where
  modelCurrency : String
  priceUnitTokens : I64
  priceEffectiveAt : ℤ
  base : UnitPrices
  advancedBilling : AdvancedBilling

structure ModelPriceSnapshot where
  currency : String
  priceUnitTokens : I64
  priceEffectiveAt : ℤ
  base : UnitPrices

def compileModelPriceSnapshot (record : ModelPriceRecord) : Except String ModelPriceSnapshot :=
  if record.modelCurrency ≠ "USD" ∨ record.priceUnitTokens.value ≤ 0 ∨
      record.base.all.any (fun price => decide (price.value < 0)) then
    .error "model protocol rule references invalid price metadata"
  else
    .ok ⟨record.modelCurrency, record.priceUnitTokens, record.priceEffectiveAt, record.base⟩

def compileAdvancedBilling (toVec : Json → Option Bytes) (record : ModelPriceRecord) :
    Except String CompiledAdvancedBilling :=
  match compile toVec record.advancedBilling with
  | none => .error "invalid advanced billing configuration"
  | some billing => .ok billing

/-- The check of a channel's own multiplier. -/
def validateBillingMultiplier (billingMultiplier : Decimal) : Except String Unit :=
  if billingMultiplier.value < 0 then .error "channel billing multiplier must be non-negative"
  else .ok ()

def maxPersistedUnitPrice : Decimal :=
  ⟨999999999999999999999999 / 10 ^ 12, 12, by decide, 999999999999999999999999, by decide +kernel,
    by norm_num⟩

def maximumEffectiveBillingMultiplier (billing : CompiledAdvancedBilling)
    (channelMultiplier : Decimal) : Option Decimal :=
  (channelMultiplier.checkedMul billing.maximumRequestMultiplier).bind
    (fun multiplier => multiplier.checkedMul billing.maximumTimeMultiplier)

def candidatesAccepted (maximumMultiplier : Decimal) : List Decimal → Except String Unit
  | [] => .ok ()
  | price :: prices =>
    match price.checkedMul maximumMultiplier with
    | none => .error "advanced billing multiplier overflows the effective model price"
    | some effective =>
      if maxPersistedUnitPrice.value < (effective.roundDp 12).value then
        .error "effective channel model price exceeds request-log precision"
      else candidatesAccepted maximumMultiplier prices

def validateEffectiveChannelPrices (toVec : Json → Option Bytes) (record : ModelPriceRecord)
    (billingMultiplier : Decimal) : Except String Unit := do
  let billing ← compileAdvancedBilling toVec record
  match maximumEffectiveBillingMultiplier billing billingMultiplier with
  | none => .error "advanced billing multiplier overflows the effective model price"
  | some maximumMultiplier =>
    candidatesAccepted maximumMultiplier (billing.priceCandidates record.base)

structure RequestUsage where
  inputTokens : I64
  cachedInputTokens : I64
  cacheWriteTokens : I64
  outputTokens : I64
  reasoningTokens : I64
  deriving DecidableEq

/-- The bounds the host puts on reported counts. -/
def RequestUsage.validate (usage : RequestUsage) : Bool :=
  decide (0 ≤ usage.inputTokens.value) && decide (0 ≤ usage.cachedInputTokens.value) &&
    decide (0 ≤ usage.cacheWriteTokens.value) && decide (0 ≤ usage.outputTokens.value) &&
    decide (0 ≤ usage.reasoningTokens.value) &&
    decide (usage.cachedInputTokens.value ≤ usage.inputTokens.value) &&
    decide (usage.cacheWriteTokens.value ≤ usage.inputTokens.value) &&
    decide (usage.reasoningTokens.value ≤ usage.outputTokens.value)

inductive RequestLogOutcome where
  | succeeded | failed | rejected | cancelled
  deriving DecidableEq

def RequestLogOutcome.forcesZeroCost : RequestLogOutcome → Bool
  | failed | cancelled => true
  | succeeded | rejected => false

/-- Where the billing of a request panics. -/
inductive BillingPanic where
  | billingMultiplierProduct
  | effectivePriceMultiplication
  /-- An operator of the decimal type overflows. -/
  | arithmetic
  deriving DecidableEq

structure RequestBillingFactors where
  startedAt : ℤ
  channelMultiplier : Decimal
  requestMultiplier : Decimal

structure RequestPriceSnapshot where
  currency : String
  priceUnitTokens : I64
  priceEffectiveAt : ℤ
  prices : UnitPrices
  deriving DecidableEq

structure RequestBilling where
  usage : Option RequestUsage
  price : RequestPriceSnapshot
  costAmount : Option Decimal
  outputTokensPerSecond : Option Decimal
  peakPricing : Bool
  deriving DecidableEq

def orPanic {α : Type} (panic : BillingPanic) : Option α → Except BillingPanic α
  | none => .error panic
  | some value => .ok value

def effectiveUnitPrice (price billingMultiplier : Decimal) : Except BillingPanic Decimal := do
  let effective ← orPanic .effectivePriceMultiplication (price.checkedMul billingMultiplier)
  return effective.roundDp 12

def selectedPrices (snapshot : ModelPriceSnapshot) (billing : CompiledAdvancedBilling) :
    Option RequestUsage → UnitPrices
  | none => snapshot.base
  | some usage => billing.prices usage.inputTokens.value snapshot.base

def effectivePrices (selected : UnitPrices) (billingMultiplier : Decimal) :
    Except BillingPanic UnitPrices := do
  let input ← effectiveUnitPrice selected.input billingMultiplier
  let cachedInput ← effectiveUnitPrice selected.cachedInput billingMultiplier
  let cacheWrite ← effectiveUnitPrice selected.cacheWrite billingMultiplier
  let output ← effectiveUnitPrice selected.output billingMultiplier
  return ⟨input, cachedInput, cacheWrite, output⟩

def requestPrice (snapshot : ModelPriceSnapshot) (billing : CompiledAdvancedBilling)
    (factors : RequestBillingFactors) (usage : Option RequestUsage) :
    Except BillingPanic RequestPriceSnapshot := do
  let billingMultiplier ← orPanic .billingMultiplierProduct
    ((factors.channelMultiplier.checkedMul factors.requestMultiplier).bind
      (fun multiplier => multiplier.checkedMul (billing.timeMultiplier factors.startedAt)))
  let prices ← effectivePrices (selectedPrices snapshot billing usage) billingMultiplier
  return ⟨snapshot.currency, snapshot.priceUnitTokens, snapshot.priceEffectiveAt, prices⟩

theorem abs_value_lt (count : I64) : |count.value| < mantissaBound := by
  have hl := count.lower
  have hu := count.upper
  rw [abs_lt, mantissaBound]
  omega

def ofI64 (count : I64) : Decimal := Decimal.ofInt count.value (abs_value_lt count)

def calculateCost (usage : RequestUsage) (price : RequestPriceSnapshot) :
    Except BillingPanic Decimal := orPanic .arithmetic do
  let nonCachedInput := usage.inputTokens.saturatingSub usage.cachedInputTokens
  let input ← (ofI64 nonCachedInput).checkedMul price.prices.input
  let cached ← (ofI64 usage.cachedInputTokens).checkedMul price.prices.cachedInput
  let withCached ← input.checkedAdd cached
  let written ← (ofI64 usage.cacheWriteTokens).checkedMul price.prices.cacheWrite
  let withWritten ← withCached.checkedAdd written
  let output ← (ofI64 usage.outputTokens).checkedMul price.prices.output
  let total ← withWritten.checkedAdd output
  let amount ← total.checkedDiv (ofI64 price.priceUnitTokens)
  return amount.roundDp 8

/-- The time from the first byte on, at least one millisecond. -/
def generationMs (totalDurationMs ttftMs : I32) : I64 :=
  ⟨max (totalDurationMs.saturatingSub ttftMs).value 1, by omega, by
    have hupper := (totalDurationMs.saturatingSub ttftMs).upper
    omega⟩

def outputRate (outputTokens generation : I64) : Except BillingPanic Decimal :=
  orPanic .arithmetic do
    let scaled ← (ofI64 outputTokens).checkedMul (Decimal.ofInt 1000 (by decide +kernel))
    let rate ← scaled.checkedDiv (ofI64 generation)
    return rate.roundDp 4

def requestCost (outcome : RequestLogOutcome) (usage : Option RequestUsage)
    (price : RequestPriceSnapshot) : Except BillingPanic (Option Decimal) :=
  if outcome.forcesZeroCost then pure (some 0)
  else
    match usage with
    | none => pure none
    | some usage => some <$> calculateCost usage price

def outputTokensPerSecond (usage : Option RequestUsage) (totalDurationMs : I32)
    (ttftMs : Option I32) : Except BillingPanic (Option Decimal) :=
  match usage, ttftMs with
  | some usage, some ttftMs =>
    if 0 < usage.outputTokens.value then
      some <$> outputRate usage.outputTokens (generationMs totalDurationMs ttftMs)
    else pure none
  | _, _ => pure none

def requestBilling (snapshot : ModelPriceSnapshot) (billing : CompiledAdvancedBilling)
    (factors : RequestBillingFactors) (usage : Option RequestUsage) (totalDurationMs : I32)
    (ttftMs : Option I32) (outcome : RequestLogOutcome) : Except BillingPanic RequestBilling := do
  let price ← requestPrice snapshot billing factors usage
  let costAmount ← requestCost outcome usage price
  let rate ← outputTokensPerSecond usage totalDurationMs ttftMs
  return ⟨usage, price, costAmount, rate,
    decide (1 < (billing.timeMultiplier factors.startedAt).value)⟩

section Accepted

/-- A model's prices and a channel's multiplier that the compiler of the configuration accepts. -/
structure Accepted (toVec : Json → Option Bytes) (record : ModelPriceRecord)
    (channelMultiplier : Decimal) (snapshot : ModelPriceSnapshot) (billing : CompiledAdvancedBilling) :
    Prop where
  snapshot : compileModelPriceSnapshot record = .ok snapshot
  billing : compileAdvancedBilling toVec record = .ok billing
  multiplier : validateBillingMultiplier channelMultiplier = .ok ()
  prices : validateEffectiveChannelPrices toVec record channelMultiplier = .ok ()

variable {toVec : Json → Option Bytes} {record : ModelPriceRecord} {channelMultiplier : Decimal}
  {snapshot : ModelPriceSnapshot} {billing : CompiledAdvancedBilling}

theorem compileModelPriceSnapshot_ok (h : compileModelPriceSnapshot record = .ok snapshot) :
    snapshot.base = record.base ∧ 0 < snapshot.priceUnitTokens.value ∧
      ∀ price ∈ snapshot.base.all, 0 ≤ price.value := by
  unfold compileModelPriceSnapshot at h
  split_ifs at h with hb
  cases h
  simp only [not_or, not_le, any_eq_true, not_exists, not_and, decide_eq_true_eq, not_lt]
    at hb
  exact ⟨rfl, hb.2.1, hb.2.2⟩

theorem compileAdvancedBilling_ok (h : compileAdvancedBilling toVec record = .ok billing) :
    compile toVec record.advancedBilling = some billing := by
  unfold compileAdvancedBilling at h
  split at h
  · cases h
  · rename_i compiled hc
    cases h
    exact hc

variable {mult price multiplier effective requestMultiplier : Decimal} {panic : BillingPanic}
  {u : Option RequestUsage}

theorem candidatesAccepted_ok {prices : List Decimal}
    (h : candidatesAccepted mult prices = .ok ())
    (hm : price ∈ prices) : ∃ effective, price.checkedMul mult = some effective ∧
      (effective.roundDp 12).value ≤ maxPersistedUnitPrice.value := by
  induction prices with
  | nil => exact absurd hm not_mem_nil
  | cons first prices ih =>
    simp only [candidatesAccepted] at h
    split at h
    · cases h
    · rename_i effective he
      split_ifs at h with hl
      rcases mem_cons.mp hm with rfl | hm
      · exact ⟨effective, he, not_lt.mp hl⟩
      · exact ih h hm

section
variable (h : Accepted toVec record channelMultiplier snapshot billing)
include h

/-- What validation says: every candidate price fits under the largest multiplier. -/
theorem Accepted.candidates :
    ∃ mult, maximumEffectiveBillingMultiplier billing channelMultiplier = some mult ∧
      ∀ price ∈ billing.priceCandidates snapshot.base,
        ∃ effective, price.checkedMul mult = some effective ∧
          (effective.roundDp 12).value ≤ maxPersistedUnitPrice.value := by
  have hp := h.prices
  simp only [validateEffectiveChannelPrices, h.billing, bind, Except.bind] at hp
  split at hp
  · cases hp
  · rename_i mult hm
    refine ⟨mult, hm, fun price hme => ?_⟩
    rw [(compileModelPriceSnapshot_ok h.snapshot).1] at hme
    exact candidatesAccepted_ok hp hme

theorem Accepted.multiplier_nonneg :
    0 ≤ channelMultiplier.value := by
  have hm := h.multiplier
  unfold validateBillingMultiplier at hm
  split_ifs at hm with hn
  exact not_lt.mp hn

/-- The multiplier of a request is defined and at most the one that was validated. -/
theorem Accepted.billingMultiplier_le (hn : 0 ≤ requestMultiplier.value)
    (hle : requestMultiplier.value ≤ billing.maximumRequestMultiplier.value) (start : ℤ)
    (hm : maximumEffectiveBillingMultiplier billing channelMultiplier = some mult) :
    ∃ multiplier, (channelMultiplier.checkedMul requestMultiplier).bind
        (fun multiplier => multiplier.checkedMul (billing.timeMultiplier start)) = some multiplier ∧
      0 ≤ multiplier.value ∧ multiplier.value ≤ mult.value := by
  obtain ⟨top, ht, hm⟩ := Option.bind_eq_some_iff.mp hm
  obtain ⟨first, hf, hfirst_nonneg, hfirst_le⟩ :=
    Decimal.checkedMul_mono h.multiplier_nonneg le_rfl hn hle ht
  obtain ⟨htime_nonneg, htime_le⟩ := timeMultiplier_le (compileAdvancedBilling_ok h.billing) start
  rw [hf]
  exact Decimal.checkedMul_mono hfirst_nonneg hfirst_le htime_nonneg htime_le hm

end

theorem effectiveUnitPrice_ok
    (hpr : 0 ≤ price.value) (hn : 0 ≤ multiplier.value)
    (hle : multiplier.value ≤ mult.value)
    (he : price.checkedMul mult = some effective) :
    ∃ unit, effectiveUnitPrice price multiplier = .ok unit ∧ 0 ≤ unit.value ∧
      unit.value ≤ (effective.roundDp 12).value := by
  obtain ⟨product, hp, hproduct_nonneg, hproduct_le⟩ := Decimal.checkedMul_mono hpr le_rfl hn hle he
  refine ⟨product.roundDp 12, ?_, roundAt_nonneg hproduct_nonneg, Decimal.roundDp_mono hproduct_le⟩
  rw [effectiveUnitPrice, hp]
  rfl

theorem selectedPrices_mem (snapshot : ModelPriceSnapshot) (billing : CompiledAdvancedBilling)
    (u : Option RequestUsage) (hm : price ∈ (selectedPrices snapshot billing u).all) :
    price ∈ billing.priceCandidates snapshot.base := by
  cases u with
  | none => exact mem_append_left _ hm
  | some u => exact prices_mem_priceCandidates billing _ _ hm

/-- A property of every single effective price is one of the four. -/
theorem effectivePrices_ok {sel : UnitPrices} {P : Decimal → Prop}
    (h : ∀ price ∈ sel.all, ∃ unit, effectiveUnitPrice price multiplier = .ok unit ∧ P unit) :
    ∃ prices, effectivePrices sel multiplier = .ok prices ∧ ∀ unit ∈ prices.all, P unit := by
  simp only [UnitPrices.all, forall_mem_cons, not_mem_nil, false_implies, implies_true,
    and_true] at h
  obtain ⟨⟨input, hin, hP1⟩, ⟨cached, hc, hP2⟩, ⟨written, hw, hP3⟩, output, hou, hP4⟩ := h
  refine ⟨⟨input, cached, written, output⟩, ?_, ?_⟩
  · rw [effectivePrices, hin, hc, hw, hou]
    rfl
  · simp only [UnitPrices.all, forall_mem_cons, not_mem_nil, false_implies, implies_true, and_true]
    exact ⟨hP1, hP2, hP3, hP4⟩

/-- The effective prices of a request are defined and fit the request log. -/
theorem Accepted.requestPrice_ok (h : Accepted toVec record channelMultiplier snapshot billing)
    (hn : 0 ≤ requestMultiplier.value)
    (hle : requestMultiplier.value ≤ billing.maximumRequestMultiplier.value) (start : ℤ)
    (u : Option RequestUsage) :
    ∃ price, requestPrice snapshot billing ⟨start, channelMultiplier, requestMultiplier⟩ u =
        .ok price ∧ price.priceUnitTokens = snapshot.priceUnitTokens ∧
      ∀ unit ∈ price.prices.all, 0 ≤ unit.value ∧ unit.value ≤ maxPersistedUnitPrice.value := by
  obtain ⟨mult, hma, hca⟩ := h.candidates
  obtain ⟨multiplier, hm, hmultiplier_nonneg, hmultiplier_le⟩ :=
    h.billingMultiplier_le hn hle start hma
  obtain ⟨-, -, hb⟩ := compileModelPriceSnapshot_ok h.snapshot
  -- every price that is selected is a candidate, so it was validated
  have hu : ∀ price ∈ (selectedPrices snapshot billing u).all,
      ∃ unit, effectiveUnitPrice price multiplier = .ok unit ∧
        (0 ≤ unit.value ∧ unit.value ≤ maxPersistedUnitPrice.value) := by
    intro price hme
    have hc := selectedPrices_mem snapshot billing u hme
    obtain ⟨effective, he, hf⟩ := hca price hc
    have hpr := nonneg_of_mem_priceCandidates (compileAdvancedBilling_ok h.billing) hb hc
    obtain ⟨unit, hu, hunit_nonneg, hunit_le⟩ :=
      effectiveUnitPrice_ok hpr hmultiplier_nonneg hmultiplier_le he
    exact ⟨unit, hu, hunit_nonneg, hunit_le.trans hf⟩
  obtain ⟨prices, hp, hf⟩ := effectivePrices_ok hu
  refine ⟨⟨snapshot.currency, snapshot.priceUnitTokens, snapshot.priceEffectiveAt, prices⟩, ?_, rfl,
    hf⟩
  rw [requestPrice, hm, orPanic]
  simp only [bind, Except.bind, hp]
  rfl

theorem map_orPanic_error {α : Type} {res : Option Decimal}
    {f : Decimal → α} (h : f <$> orPanic .arithmetic res = .error panic) : panic = .arithmetic := by
  cases res with
  | none =>
    cases h
    rfl
  | some v => cases h

variable {price : RequestPriceSnapshot} {out : RequestLogOutcome}

theorem requestCost_error
    (h : requestCost out u price = .error panic) : panic = .arithmetic := by
  unfold requestCost at h
  split_ifs at h
  · cases h
  · cases u with
    | none => cases h
    | some u => exact map_orPanic_error h

theorem outputTokensPerSecond_error {totalDurationMs : I32} {ttftMs : Option I32}
    (h : outputTokensPerSecond u totalDurationMs ttftMs = .error panic) : panic = .arithmetic := by
  unfold outputTokensPerSecond at h
  split at h
  · split_ifs at h
    · exact map_orPanic_error h
    · cases h
  · cases h

/-- Once the price is known, billing only fails in the arithmetic of the cost and of the rate. -/
theorem requestBilling_error {factors : RequestBillingFactors}
    (hp : requestPrice snapshot billing factors u = .ok price)
    {totalDurationMs : I32} {ttftMs : Option I32}
    (h : requestBilling snapshot billing factors u totalDurationMs ttftMs out = .error panic) :
    panic = .arithmetic := by
  simp only [requestBilling, hp, bind, Except.bind] at h
  cases hc : requestCost out u price with
  | error cost =>
    simp only [hc, Except.error.injEq] at h
    exact h ▸ requestCost_error hc
  | ok cost =>
    simp only [hc] at h
    cases hr : outputTokensPerSecond u totalDurationMs ttftMs with
    | error rate =>
      simp only [hr, Except.error.injEq] at h
      exact h ▸ outputTokensPerSecond_error hr
    | ok rate =>
      simp only [hr] at h
      cases h

/-- For an accepted policy the multipliers of every request multiply, and each effective price is
defined and fits its column. -/
theorem effective_prices_fit (h : Accepted toVec record channelMultiplier snapshot billing)
    (request : Json) :
    ∃ requestMultiplier, billing.requestMultiplier request = some requestMultiplier ∧
      ∀ (startedAt : ℤ) (usage : Option RequestUsage), (∃ price, requestPrice snapshot billing
            ⟨startedAt, channelMultiplier, requestMultiplier⟩ usage = .ok price ∧
          ∀ unit ∈ price.prices.all, unit.value ≤ maxPersistedUnitPrice.value) ∧
        ∀ (totalDurationMs : I32) (ttftMs : Option I32) (outcome : RequestLogOutcome) panic,
          requestBilling snapshot billing ⟨startedAt, channelMultiplier, requestMultiplier⟩ usage
            totalDurationMs ttftMs outcome = .error panic → panic = .arithmetic := by
  obtain ⟨requestMultiplier, hr, hn, hle⟩ :=
    requestMultiplier_le (compileAdvancedBilling_ok h.billing) request
  refine ⟨requestMultiplier, hr, fun startedAt usage => ?_⟩
  obtain ⟨price, hp, -, hf⟩ := h.requestPrice_ok hn hle startedAt usage
  exact ⟨⟨price, hp, fun unit hm => (hf unit hm).2⟩,
    fun _ _ _ _ he => requestBilling_error hp he⟩

end Accepted

/-- A count of at most a few digits as a decimal. -/
def small (value : ℕ) (h : (value : ℤ) < mantissaBound) : Decimal :=
  Decimal.ofInt value (by rwa [abs_of_nonneg (Int.natCast_nonneg _)])

/-- A model at three dollars a million tokens, doubled for priority requests. -/
def priorityRecord : ModelPriceRecord where
  modelCurrency := "USD"
  priceUnitTokens := ⟨1000000, by decide, by decide⟩
  priceEffectiveAt := 0
  base := ⟨small 3 (by decide +kernel), 1, small 3 (by decide +kernel), small 15 (by decide +kernel)⟩
  advancedBilling := ⟨[], [⟨utf8 "/service_tier", .string (utf8 "priority"),
    small 2 (by decide +kernel)⟩], []⟩

def prioritySnapshot : ModelPriceSnapshot :=
  ⟨"USD", priorityRecord.priceUnitTokens, 0, priorityRecord.base⟩

def priorityBilling : CompiledAdvancedBilling :=
  ⟨[], priorityRecord.advancedBilling.requestMultipliers, [], small 2 (by decide +kernel), 1⟩

theorem accepted_priority :
    Accepted (some ·.text) priorityRecord 1 prioritySnapshot priorityBilling where
  snapshot := if_neg (by decide +kernel)
  billing := by
    have hc : compile (some ·.text) priorityRecord.advancedBilling = some priorityBilling :=
      compile_of_accepted (by decide) (by decide +kernel) (by decide +kernel)
    simp only [compileAdvancedBilling, hc]
  multiplier := if_neg (by decide +kernel)
  prices := by decide +kernel

theorem effective_prices_fit_priority :
    ∃ requestMultiplier, priorityBilling.requestMultiplier
        (.object [(utf8 "service_tier", .string (utf8 "priority"))]) = some requestMultiplier ∧
      ∃ price, requestPrice prioritySnapshot priorityBilling ⟨0, 1, requestMultiplier⟩ none =
        .ok price := by
  obtain ⟨requestMultiplier, hr, ha⟩ := effective_prices_fit accepted_priority
    (.object [(utf8 "service_tier", .string (utf8 "priority"))])
  obtain ⟨⟨price, hp, -⟩, -⟩ := ha 0 none
  exact ⟨requestMultiplier, hr, price, hp⟩

end AiGateway.Billing
