import AiGateway.Lib.Decimal
import AiGateway.Lib.Json

/-! Model-level advanced billing: the persisted policy, its compilation, and the rules that match a
request. -/
namespace AiGateway.Billing
open List

open Lib

def maxJsonPointerBytes : ℕ := 512

def maxMatchValueBytes : ℕ := 4 * 1024

def maxTimeMultipliers : ℕ := 32

def maxTimeMultiplierLabelChars : ℕ := 80

def minutesPerDay : ℕ := 24 * 60

def minutesPerWeek : ℕ := 7 * minutesPerDay

structure LongContextTier where
  inputTokensThreshold : ℤ
  inputUnitPrice : Decimal
  cachedInputUnitPrice : Decimal
  cacheWriteUnitPrice : Decimal
  /-- Without it the model's base output price stays. -/
  outputUnitPrice : Option Decimal

structure RequestBillingMultiplier where
  jsonPointer : Bytes
  value : Json
  multiplier : Decimal

inductive BillingWeekday where
  | monday | tuesday | wednesday | thursday | friday | saturday | sunday
  deriving DecidableEq

namespace BillingWeekday

def index : BillingWeekday → ℕ
  | monday => 0
  | tuesday => 1
  | wednesday => 2
  | thursday => 3
  | friday => 4
  | saturday => 5
  | sunday => 6

def bit (weekday : BillingWeekday) : BitVec 8 := 1 <<< weekday.index

end BillingWeekday

/-- A weekly window in UTC. The start is inclusive and the end exclusive; a start behind the end wraps
into the next day. -/
structure TimeBillingMultiplier where
  label : String
  weekdays : List BillingWeekday
  startTime : Bytes
  endTime : Bytes
  multiplier : Decimal

structure AdvancedBilling where
  longContextTiers : List LongContextTier
  requestMultipliers : List RequestBillingMultiplier
  timeMultipliers : List TimeBillingMultiplier

structure CompiledTimeBillingMultiplier where
  startWeekdayMask : BitVec 8
  startMinute : ℕ
  endMinute : ℕ
  multiplier : Decimal

namespace CompiledTimeBillingMultiplier

def startsOn (rule : CompiledTimeBillingMultiplier) (weekday : ℕ) : Bool :=
  rule.startWeekdayMask &&& (1 <<< weekday) != 0

def matchesTime (rule : CompiledTimeBillingMultiplier) (weekday minute : ℕ) : Bool :=
  if rule.startMinute < rule.endMinute then
    rule.startsOn weekday && (rule.startMinute ≤ minute && minute < rule.endMinute)
  else
    (rule.startMinute ≤ minute && rule.startsOn weekday) ||
      (minute < rule.endMinute && rule.startsOn ((weekday + 6) % 7))

end CompiledTimeBillingMultiplier

structure CompiledAdvancedBilling where
  longContextTiers : List LongContextTier
  requestMultipliers : List RequestBillingMultiplier
  timeMultipliers : List CompiledTimeBillingMultiplier
  maximumRequestMultiplier : Decimal
  maximumTimeMultiplier : Decimal

/-- The white space of Unicode. -/
def isWhitespace (c : Char) : Bool :=
  (0x9 ≤ c.toNat && c.toNat ≤ 0xd) || [0x20, 0x85, 0xa0, 0x1680, 0x2028, 0x2029, 0x202f, 0x205f,
    0x3000].contains c.toNat || (0x2000 ≤ c.toNat && c.toNat ≤ 0x200a)

def isTrimmed (label : String) : Bool :=
  !label.toList.head?.any isWhitespace && !label.toList.getLast?.any isWhitespace

/-- Every tilde is followed by a zero or a one. -/
def tildesEscaped : Bytes → Bool
  | [] => true
  | byte :: rest =>
    if byte = 126 then
      match rest with
      | [] => false
      | next :: rest => (next == 48 || next == 49) && tildesEscaped rest
    else tildesEscaped rest

def validJsonPointer (pointer : Bytes) : Bool :=
  pointer.isEmpty || (pointer.head? == some 47 && tildesEscaped pointer)

def parseUtcTime (value : Bytes) : Option ℕ :=
  match value with
  | [h1, h2, colon, m1, m2] =>
    if colon = 58 ∧ isDigit h1 ∧ isDigit h2 ∧ isDigit m1 ∧ isDigit m2 then
      let hour := (h1.toNat - 48) * 10 + (h2.toNat - 48)
      let minute := (m1.toNat - 48) * 10 + (m2.toNat - 48)
      if hour < 24 ∧ minute < 60 then some (hour * 60 + minute) else none
    else none
  | _ => none

/-- Thresholds rise from above zero and no price is negative. -/
def tiersAccepted (previousThreshold : ℤ) : List LongContextTier → Bool
  | [] => true
  | tier :: tiers =>
    !(tier.inputTokensThreshold ≤ 0 || tier.inputTokensThreshold ≤ previousThreshold ||
      [tier.inputUnitPrice, tier.cachedInputUnitPrice, tier.cacheWriteUnitPrice].any
        (fun price => price.value < 0) ||
      tier.outputUnitPrice.any (fun price => price.value < 0)) &&
    tiersAccepted tier.inputTokensThreshold tiers

/-- The rules before this one are in `previous`; `toVec` is the serializer. -/
def requestMultipliersAccepted (toVec : Json → Option Bytes) (previous : List RequestBillingMultiplier) :
    List RequestBillingMultiplier → Bool
  | [] => true
  | rule :: rules =>
    !(!validJsonPointer rule.jsonPointer || decide (maxJsonPointerBytes < rule.jsonPointer.length) ||
      decide (rule.multiplier.value < 0) ||
      (match toVec rule.value with
        | none => true
        | some encoded => decide (maxMatchValueBytes < encoded.length))) &&
    !previous.any (fun other => other.jsonPointer == rule.jsonPointer &&
      other.value.sameValue rule.value) &&
    requestMultipliersAccepted toVec (previous ++ [rule]) rules

/-- The start days as a mask, unless one is named twice. -/
def weekdayMask (mask : BitVec 8) : List BillingWeekday → Option (BitVec 8)
  | [] => some mask
  | weekday :: weekdays =>
    if mask &&& weekday.bit ≠ 0 then none else weekdayMask (mask ||| weekday.bit) weekdays

/-- Marks the minutes of the week one by one, unless one is taken. -/
def coverMinutes (covered : List ℕ) : List ℕ → Option (List ℕ)
  | [] => some covered
  | minute :: minutes => if minute ∈ covered then none else coverMinutes (minute :: covered) minutes

def windowMinutes (rule : TimeBillingMultiplier) (startMinute durationMinutes : ℕ) : List ℕ :=
  rule.weekdays.flatMap (fun weekday => (List.range durationMinutes).map
    (fun offset => (weekday.index * minutesPerDay + startMinute + offset) % minutesPerWeek))

def labelAccepted (previous : List TimeBillingMultiplier) (rule : TimeBillingMultiplier) : Bool :=
  !rule.label.isEmpty && isTrimmed rule.label &&
    decide (rule.label.length ≤ maxTimeMultiplierLabelChars) &&
    !previous.any (fun other => other.label == rule.label)

def durationMinutes (startMinute endMinute : ℕ) : ℕ :=
  if startMinute < endMinute then endMinute - startMinute
  else minutesPerDay - startMinute + endMinute

/-- The rules before each one are in `previous` and their minutes in `covered`. -/
def compileTimeMultipliers (previous : List TimeBillingMultiplier) (covered : List ℕ) :
    List TimeBillingMultiplier → Option (List CompiledTimeBillingMultiplier)
  | [] => some []
  | rule :: rules => do
    guard (labelAccepted previous rule ∧ 0 ≤ rule.multiplier.value)
    let startMinute ← parseUtcTime rule.startTime
    let endMinute ← parseUtcTime rule.endTime
    guard (startMinute ≠ endMinute)
    let startWeekdayMask ← weekdayMask 0 rule.weekdays
    guard (startWeekdayMask ≠ 0)
    let covered ← coverMinutes covered
      (windowMinutes rule startMinute (durationMinutes startMinute endMinute))
    let compiled ← compileTimeMultipliers (previous ++ [rule]) covered rules
    return ⟨startWeekdayMask, startMinute, endMinute, rule.multiplier⟩ :: compiled

/-- The product in order, while it fits. -/
def product : Decimal → List Decimal → Option Decimal
  | total, [] => some total
  | total, multiplier :: multipliers => (total.checkedMul multiplier).bind (product · multipliers)

def aboveOne (multipliers : List Decimal) : List Decimal :=
  multipliers.filter (fun multiplier => decide (1 < multiplier.value))

/-- The largest, the later one among equals. -/
def largest : List Decimal → Option Decimal
  | [] => none
  | first :: rest =>
    some (rest.foldl (fun best next => if best.value ≤ next.value then next else best) first)

namespace CompiledAdvancedBilling

def compile (toVec : Json → Option Bytes) (value : AdvancedBilling) :
    Option CompiledAdvancedBilling := do
  guard (tiersAccepted 0 value.longContextTiers)
  guard (requestMultipliersAccepted toVec [] value.requestMultipliers)
  guard (value.timeMultipliers.length ≤ maxTimeMultipliers)
  let timeMultipliers ← compileTimeMultipliers [] [] value.timeMultipliers
  let maximumRequestMultiplier ←
    product 1 (aboveOne (value.requestMultipliers.map (·.multiplier)))
  let maximumTimeMultiplier :=
    (largest (aboveOne (value.timeMultipliers.map (·.multiplier)))).getD 1
  return ⟨value.longContextTiers, value.requestMultipliers, timeMultipliers, maximumRequestMultiplier,
    maximumTimeMultiplier⟩

/-- The four unit prices: those of the highest tier reached, or the base prices. -/
structure UnitPrices where
  input : Decimal
  cachedInput : Decimal
  cacheWrite : Decimal
  output : Decimal
  deriving DecidableEq

def UnitPrices.all (prices : UnitPrices) : List Decimal :=
  [prices.input, prices.cachedInput, prices.cacheWrite, prices.output]

def prices (billing : CompiledAdvancedBilling) (inputTokens : ℤ) (base : UnitPrices) : UnitPrices :=
  match billing.longContextTiers.reverse.find?
      (fun tier => decide (tier.inputTokensThreshold ≤ inputTokens)) with
  | none => base
  | some tier => ⟨tier.inputUnitPrice, tier.cachedInputUnitPrice, tier.cacheWriteUnitPrice,
      tier.outputUnitPrice.getD base.output⟩

/-- The product of the rules the request matches; fails where the source panics. -/
def requestMultiplier (billing : CompiledAdvancedBilling) (request : Json) : Option Decimal :=
  product 1 ((billing.requestMultipliers.filter
    (fun rule => (request.pointer rule.jsonPointer).any (·.sameValue rule.value))).map (·.multiplier))

/-- `startedAt` is in seconds since the epoch, a Thursday. -/
def timeMultiplier (billing : CompiledAdvancedBilling) (startedAt : ℤ) : Decimal :=
  let weekday := ((startedAt / 86400 + 3) % 7).toNat
  let minute := (startedAt % 86400 / 60).toNat
  match billing.timeMultipliers.find? (fun rule => rule.matchesTime weekday minute) with
  | none => 1
  | some rule => rule.multiplier

def priceCandidates (billing : CompiledAdvancedBilling) (base : UnitPrices) : List Decimal :=
  base.all ++ billing.longContextTiers.flatMap (fun tier =>
    [tier.inputUnitPrice, tier.cachedInputUnitPrice, tier.cacheWriteUnitPrice] ++
      tier.outputUnitPrice.toList)

end CompiledAdvancedBilling

variable {a b member c res next top bound first : Decimal}

/-- A factor of at least one does not shrink a product. -/
theorem le_of_checkedMul (ha : 0 ≤ a.value) (hb : 1 ≤ b.value)
    (h : a.checkedMul b = some c) : a.value ≤ c.value := by
  obtain ⟨same, hs, -, hle⟩ :=
    Decimal.checkedMul_mono ha le_rfl (by simp) (by simpa using hb : (1 : Decimal).value ≤ _) h
  rw [Decimal.checkedMul_one, Option.some_inj] at hs
  exact hs ▸ hle

/-- A factor of at most one does not fail and does not grow a product. -/
theorem checkedMul_le (ha : 0 ≤ a.value) (hb : 0 ≤ b.value) (hon : b.value ≤ 1) :
    ∃ c, a.checkedMul b = some c ∧ 0 ≤ c.value ∧ c.value ≤ a.value :=
  Decimal.checkedMul_mono ha le_rfl hb (by simpa using hon : b.value ≤ (1 : Decimal).value)
    (Decimal.checkedMul_one a)

variable {rule total : Decimal} {rules picked rest mults : List Decimal}

theorem aboveOne_cons_of_lt (rules : List Decimal) (h : 1 < rule.value) :
    aboveOne (rule :: rules) = rule :: aboveOne rules :=
  filter_cons_of_pos (by simpa using h)

theorem aboveOne_cons_of_le (rules : List Decimal) (h : rule.value ≤ 1) :
    aboveOne (rule :: rules) = aboveOne rules :=
  filter_cons_of_neg (by simpa using h)

theorem product_cons (rules : List Decimal)
    (h : total.checkedMul rule = some next) : product total (rule :: rules) = product next rules := by
  rw [product, h, Option.bind_some]

/-- Multiplying by rules that may or may not apply stays below multiplying by every rule above one. -/
theorem product_le_of_sublist (hs : picked.Sublist rules)
    (hru : ∀ rule ∈ rules, 0 ≤ rule.value) (ht : 0 ≤ total.value)
    (hle : total.value ≤ top.value) (hb : product top (aboveOne rules) = some bound) :
    ∃ res, product total picked = some res ∧ 0 ≤ res.value ∧ res.value ≤ bound.value := by
  induction hs generalizing total top with
  | slnil =>
    rw [aboveOne, filter_nil, product, Option.some_inj] at hb
    exact ⟨total, rfl, ht, hb ▸ hle⟩
  | cons rule hs ih =>
    have hr := fun o hm => hru o (mem_cons_of_mem _ hm)
    rcases lt_or_ge 1 rule.value with ha | hbe
    · rw [aboveOne_cons_of_lt _ ha] at hb
      obtain ⟨raised, hra, hb⟩ := Option.bind_eq_some_iff.mp hb
      exact ih hr ht
        (hle.trans (le_of_checkedMul (ht.trans hle) ha.le hra)) hb
    · rw [aboveOne_cons_of_le _ hbe] at hb
      exact ih hr ht hle hb
  | cons_cons rule hs ih =>
    have hr := fun o hm => hru o (mem_cons_of_mem _ hm)
    have hrl : 0 ≤ rule.value := hru rule mem_cons_self
    rcases lt_or_ge 1 rule.value with ha | hbe
    · rw [aboveOne_cons_of_lt _ ha] at hb
      obtain ⟨raised, hra, hb⟩ := Option.bind_eq_some_iff.mp hb
      obtain ⟨next, hne, hn, hlt⟩ := Decimal.checkedMul_mono ht hle hrl le_rfl hra
      rw [product_cons _ hne]
      exact ih hr hn hlt hb
    · rw [aboveOne_cons_of_le _ hbe] at hb
      obtain ⟨next, hne, hn, hlt⟩ := checkedMul_le ht hrl hbe
      rw [product_cons _ hne]
      exact ih hr hn (hlt.trans hle) hb

theorem le_foldl_larger (h : member ∈ first :: rest) :
    member.value ≤ (rest.foldl (fun best next => if best.value ≤ next.value then next else best)
      first).value := by
  induction rest generalizing first member with
  | nil => rw [mem_singleton.mp h, foldl_nil]
  | cons next rest ih =>
    rw [foldl_cons]
    rcases mem_cons.mp h with rfl | hm
    · refine le_trans ?_ (ih mem_cons_self)
      split_ifs with hle
      · exact hle
      · exact le_rfl
    · rcases mem_cons.mp hm with rfl | hm
      · refine le_trans ?_ (ih mem_cons_self)
        split_ifs with hle
        · exact le_rfl
        · exact (not_le.mp hle).le
      · exact ih (mem_cons_of_mem _ hm)

theorem le_largest (h : member ∈ mults) :
    member.value ≤ ((largest mults).getD 1).value := by
  cases mults with
  | nil => exact absurd h not_mem_nil
  | cons first rest => exact le_foldl_larger h

theorem one_le_largest_aboveOne (rules : List Decimal) :
    1 ≤ ((largest (aboveOne rules)).getD 1).value := by
  rcases hr : aboveOne rules with _ | ⟨first, rest⟩
  · exact le_of_eq Decimal.value_one.symm
  · have hf : first ∈ aboveOne rules := hr ▸ mem_cons_self
    have ha : 1 < first.value := by simpa using (mem_filter.mp hf).2
    exact ha.le.trans (le_largest mem_cons_self)

theorem le_largest_aboveOne (h : rule ∈ rules) :
    rule.value ≤ ((largest (aboveOne rules)).getD 1).value := by
  rcases lt_or_ge 1 rule.value with ha | hb
  · exact le_largest (mem_filter.mpr ⟨h, by simpa using ha⟩)
  · exact hb.trans (one_le_largest_aboveOne rules)

theorem nonneg_of_tiersAccepted {thr : ℤ} {tiers : List LongContextTier}
    (h : tiersAccepted thr tiers) {tier : LongContextTier} (hm : tier ∈ tiers) :
    ∀ price ∈ [tier.inputUnitPrice, tier.cachedInputUnitPrice, tier.cacheWriteUnitPrice] ++
      tier.outputUnitPrice.toList, 0 ≤ price.value := by
  induction tiers generalizing thr with
  | nil => exact absurd hm not_mem_nil
  | cons first tiers ih =>
    rw [tiersAccepted, Bool.and_eq_true] at h
    rcases mem_cons.mp hm with rfl | hm
    · intro price hp
      have hf := h.1
      simp only [Bool.not_eq_true', Bool.or_eq_false_iff, any_eq_false] at hf
      rcases mem_append.mp hp with hin | hou
      · simpa using hf.1.2 price hin
      · have hou := Option.mem_toList.mp hou
        simpa [Option.mem_def.mp hou] using hf.2
    · exact ih h.2 hm

theorem nonneg_of_requestMultipliersAccepted {toVec : Json → Option Bytes}
    {prev rules : List RequestBillingMultiplier}
    (h : requestMultipliersAccepted toVec prev rules) {rule : RequestBillingMultiplier}
    (hm : rule ∈ rules) : 0 ≤ rule.multiplier.value := by
  induction rules generalizing prev with
  | nil => exact absurd hm not_mem_nil
  | cons first rules ih =>
    rw [requestMultipliersAccepted, Bool.and_eq_true, Bool.and_eq_true] at h
    rcases mem_cons.mp hm with rfl | hm
    · have hf := h.1.1
      simp only [Bool.not_eq_true', Bool.or_eq_false_iff, decide_eq_false_iff_not, not_lt] at hf
      exact hf.1.2
    · exact ih h.2 hm

theorem compileTimeMultipliers_eq_some {prev rules : List TimeBillingMultiplier} {covered : List ℕ}
    {compiled : List CompiledTimeBillingMultiplier}
    (h : compileTimeMultipliers prev covered rules = some compiled) :
    compiled.map (·.multiplier) = rules.map (·.multiplier) ∧
      ∀ rule ∈ rules, 0 ≤ rule.multiplier.value := by
  induction rules generalizing prev covered compiled with
  | nil =>
    cases h
    exact ⟨rfl, fun rule hm => absurd hm not_mem_nil⟩
  | cons first rules ih =>
    simp only [compileTimeMultipliers, Option.bind_eq_bind, Option.bind_eq_some_iff,
      Option.guard_eq_some', Option.pure_def, Option.some_inj] at h
    obtain ⟨-, ⟨-, hn⟩, _, -, _, -, -, -, _, -, -, -, _, -, rest, hre, rfl⟩ := h
    obtain ⟨hma, hr⟩ := ih hre
    refine ⟨by rw [map_cons, map_cons, hma], fun rule hm => ?_⟩
    rcases mem_cons.mp hm with rfl | hm
    · exact hn
    · exact hr rule hm

namespace CompiledAdvancedBilling

variable {toVec : Json → Option Bytes}

/-- What an accepted policy compiles to. -/
theorem compile_eq_some {v : AdvancedBilling}
    {billing : CompiledAdvancedBilling} (h : compile toVec v = some billing) :
    tiersAccepted 0 billing.longContextTiers ∧
    requestMultipliersAccepted toVec [] billing.requestMultipliers ∧
    (∀ rule ∈ billing.timeMultipliers, 0 ≤ rule.multiplier.value) ∧
    product 1 (aboveOne (billing.requestMultipliers.map (·.multiplier))) =
      some billing.maximumRequestMultiplier ∧
    billing.maximumTimeMultiplier =
      (largest (aboveOne (billing.timeMultipliers.map (·.multiplier)))).getD 1 := by
  simp only [compile, Option.bind_eq_bind, Option.bind_eq_some_iff, Option.guard_eq_some',
    Option.pure_def, Option.some_inj] at h
  obtain ⟨-, ht, -, hr, -, -, compiled, hc, top, hto, rfl⟩ := h
  obtain ⟨hma, hn⟩ := compileTimeMultipliers_eq_some hc
  refine ⟨ht, hr, fun rule hm => ?_, hto, by rw [hma]⟩
  have hm : rule.multiplier ∈ v.timeMultipliers.map (·.multiplier) := hma ▸ mem_map_of_mem hm
  obtain ⟨src, hs, heq⟩ := mem_map.mp hm
  exact heq ▸ hn src hs

/-- A policy without time windows, from its checks. -/
theorem compile_of_accepted {tiers : List LongContextTier}
    {rules : List RequestBillingMultiplier} {top : Decimal} (ht : tiersAccepted 0 tiers)
    (hr : requestMultipliersAccepted toVec [] rules)
    (hto : product 1 (aboveOne (rules.map (·.multiplier))) = some top) :
    compile toVec ⟨tiers, rules, []⟩ = some ⟨tiers, rules, [], top, 1⟩ := by
  simp only [compile, ht, hr, hto, guard_true, Option.bind_eq_bind]
  rfl

section Accepted

variable {toVec : Json → Option Bytes} {v : AdvancedBilling} {billing : CompiledAdvancedBilling}

/-- The rules that a request matches multiply without overflow, to at most the compiled maximum. -/
theorem requestMultiplier_le (h : compile toVec v = some billing) (req : Json) :
    ∃ mult, billing.requestMultiplier req = some mult ∧ 0 ≤ mult.value ∧
      mult.value ≤ billing.maximumRequestMultiplier.value := by
  obtain ⟨-, hr, -, ht, -⟩ := compile_eq_some h
  refine product_le_of_sublist (filter_sublist.map _) ?_ (by simp) le_rfl ht
  intro mult hm
  obtain ⟨rule, hru, rfl⟩ := mem_map.mp hm
  exact nonneg_of_requestMultipliersAccepted hr hru

theorem timeMultiplier_le (h : compile toVec v = some billing) (start : ℤ) :
    0 ≤ (billing.timeMultiplier start).value ∧
      (billing.timeMultiplier start).value ≤ billing.maximumTimeMultiplier.value := by
  obtain ⟨-, -, hn, -, ht⟩ := compile_eq_some h
  rw [ht]
  unfold timeMultiplier
  dsimp only
  split
  · exact ⟨by simp, by simpa using one_le_largest_aboveOne _⟩
  · rename_i rule hf
    have hm := mem_of_find?_eq_some hf
    exact ⟨hn rule hm, le_largest_aboveOne (mem_map_of_mem hm)⟩

variable {price : Decimal}

theorem prices_mem_priceCandidates (billing : CompiledAdvancedBilling) (inputTokens : ℤ)
    (base : UnitPrices) (hm : price ∈ (billing.prices inputTokens base).all) :
    price ∈ billing.priceCandidates base := by
  unfold prices at hm
  split at hm
  · exact mem_append_left _ hm
  · rename_i tier hf
    have ht : tier ∈ billing.longContextTiers := mem_reverse.mp (mem_of_find?_eq_some hf)
    have hp : price ∈ base.all ∨
        price ∈ [tier.inputUnitPrice, tier.cachedInputUnitPrice, tier.cacheWriteUnitPrice] ++
          tier.outputUnitPrice.toList := by
      simp only [UnitPrices.all, mem_cons, not_mem_nil, or_false, mem_append,
        Option.mem_toList] at hm ⊢
      rcases hm with h | h | h | h
      · exact .inr (.inl (.inl h))
      · exact .inr (.inl (.inr (.inl h)))
      · exact .inr (.inl (.inr (.inr h)))
      · cases hou : tier.outputUnitPrice with
        | none => exact .inl (.inr (.inr (.inr (by rw [h, hou, Option.getD_none]))))
        | some output => exact .inr (.inr (by rw [h, hou, Option.getD_some]))
    exact mem_append.mpr (hp.imp id (fun hm => mem_flatMap.mpr ⟨tier, ht, hm⟩))

theorem nonneg_of_mem_priceCandidates (h : compile toVec v = some billing) {base : UnitPrices}
    (hb : ∀ price ∈ base.all, 0 ≤ price.value)
    (hm : price ∈ billing.priceCandidates base) : 0 ≤ price.value := by
  rcases mem_append.mp hm with hm | hm
  · exact hb price hm
  · obtain ⟨tier, ht, hm⟩ := mem_flatMap.mp hm
    exact nonneg_of_tiersAccepted (compile_eq_some h).1 ht price hm

end Accepted

end CompiledAdvancedBilling
end AiGateway.Billing
